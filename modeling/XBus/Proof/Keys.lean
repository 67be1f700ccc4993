import XBus.Proof.Replies

/-!
# Idempotency keys

A session's sends and replies share one space of keys: `ux_idem` admits one row for each sender and
key, and both operations look a key up before they do anything else. The look-up asks whether the
key is truthy, the insert whether it is there at all. The empty key falls between the two: it is
stored, it is never found, and the index refuses it the second time.

What a found key stands for is not looked at either. A send is answered with whatever the row says;
a reply takes any row of the session's for the answer to the request at hand.
-/

set_option autoImplicit false

namespace XBus
namespace Proof

open Lib

variable {env : Env} {now : Iso} {auth : SessionAuthority} {b b' : Broker} {sid : SessionId}
  {key : String}

/-! ## One row for each key -/

/-- The messages of a sender under a key. -/
def rowsUnder (b : Broker) (sid : SessionId) (key : String) : List Message :=
  b.messages.filter fun m => m.senderSessionId = sid ∧ m.idempotencyKey = some key

theorem mem_rowsUnder {m : Message} : m ∈ rowsUnder b sid key ↔
    m ∈ b.messages ∧ m.senderSessionId = sid ∧ m.idempotencyKey = some key := by
  simp [rowsUnder]

theorem rowsUnder_append {m : Message} (h : b'.messages = b.messages ++ [m]) :
    rowsUnder b' sid key = rowsUnder b sid key ++
      if m.senderSessionId = sid ∧ m.idempotencyKey = some key then [m] else [] := by
  rw [rowsUnder, h, List.filter_append]
  congr 1
  by_cases hm : m.senderSessionId = sid ∧ m.idempotencyKey = some key
  · simp [hm]
  · rw [if_neg hm]
    simpa using hm

structure KeyInv (b : Broker) : Prop where
  mail : MailInv b
  one : ∀ sid key, (rowsUnder b sid key).length ≤ 1

theorem Posted.keyInv {m : Message} (h : Posted b b' m) (inv : KeyInv b) : KeyInv b' := by
  refine ⟨h.keeps inv.mail, fun sid key => ?_⟩
  rw [rowsUnder_append h.messages]
  by_cases hm : m.senderSessionId = sid ∧ m.idempotencyKey = some key
  · -- The index has let the row in, so there was none under its key.
    have hnone : rowsUnder b sid key = [] := by
      rcases h.newKey with hkey | hkey
      · rw [hkey] at hm
        cases hm.2
      · refine List.eq_nil_iff_forall_not_mem.mpr fun x hx => ?_
        obtain ⟨hmem, hsid, hunder⟩ := mem_rowsUnder.mp hx
        exact hkey x hmem ⟨hsid.trans hm.1.symm, hunder.trans hm.2.symm⟩
    simp [hnone, hm]
  · simpa [hm] using inv.one sid key

theorem Move.keyInv {k : Kind} (h : Move env k b b') (inv : KeyInv b) : KeyInv b' := by
  rcases Move.mail h inv.mail with ⟨m, hposted, -⟩ | hframe
  · exact hposted.keyInv inv
  · refine ⟨hframe.keeps inv.mail, fun sid key => ?_⟩
    rw [rowsUnder, hframe.messages]
    exact inv.one sid key

theorem keyInv_initial : KeyInv (initial env) := by
  refine ⟨mailInv_initial, fun sid key => ?_⟩
  rw [rowsUnder, initial, (ensureOperatorSession_mail env {}).messages]
  exact Nat.zero_le 1

theorem keyInv_of_reachable {ok : Broker → Event → Prop} (h : Reachable env ok b) : KeyInv b :=
  reachable_of_moves keyInv_initial (fun _ _ _ => Move.keyInv) h

namespace KeyInv

theorem unique (inv : KeyInv b) {x y : Message} (hx : x ∈ rowsUnder b sid key)
    (hy : y ∈ rowsUnder b sid key) : x = y := by
  obtain ⟨z, hz⟩ := List.length_eq_one_iff.mp
    (Nat.le_antisymm (inv.one sid key) (List.length_pos_of_mem hx))
  rw [hz, List.mem_singleton] at hx hy
  rw [hx, hy]

theorem eq_singleton (inv : KeyInv b) {x : Message} (hx : x ∈ rowsUnder b sid key) :
    rowsUnder b sid key = [x] := by
  obtain ⟨z, hz⟩ := List.length_eq_one_iff.mp
    (Nat.le_antisymm (inv.one sid key) (List.length_pos_of_mem hx))
  rw [hz, List.mem_singleton] at hx
  rw [hz, hx]

end KeyInv

/-! ## Looking a key up -/

/-- The row a look-up finds is under the key. -/
theorem duplicateOf_some {k : Option String} {dup : Message} (h : b.duplicateOf sid k = some dup) :
    ∃ key, k = some key ∧ key ≠ "" ∧ dup ∈ rowsUnder b sid key := by
  cases k with
  | none => cases h
  | some key =>
    simp only [Broker.duplicateOf] at h
    split at h
    · cases h
    · rename_i hne
      have hrow := List.find?_some h
      refine ⟨key, rfl, fun hempty => hne (by simp [hempty]), mem_rowsUnder.mpr ?_⟩
      exact ⟨List.mem_of_find?_eq_some h, of_decide_eq_true hrow⟩

/-- A key that is not empty is found if it is there. -/
theorem duplicateOf_of_mem (inv : KeyInv b) (hkey : key ≠ "") {x : Message}
    (hx : x ∈ rowsUnder b sid key) : b.duplicateOf sid (some key) = some x := by
  have hne : key.isEmpty = false := by simpa using hkey
  cases hdup : b.duplicateOf sid (some key) with
  | none =>
    simp only [Broker.duplicateOf, hne] at hdup
    exact absurd (decide_eq_true (mem_rowsUnder.mp hx).2)
      (List.find?_eq_none.mp hdup x (mem_rowsUnder.mp hx).1)
  | some dup =>
    obtain ⟨key', hkey', -, hdup⟩ := duplicateOf_some hdup
    obtain rfl := Option.some.inj hkey'
    rw [inv.unique hdup hx]

/-! ## Sends -/

/-- A send that answers is answered from the row under its key, or posts a row under it. -/
theorem send_keyed {input : SendInput} {r : SendResult}
    (h : send env now auth input b = (.ok r, b')) :
    (∃ dup, b.duplicateOf auth.sessionId input.idempotencyKey = some dup ∧
        r = b.replaySend dup ∧ b' = b) ∨
      ∃ m, Posted b b' m ∧ m.senderSessionId = auth.sessionId ∧
        m.idempotencyKey = input.idempotencyKey ∧ m.messageId = r.messageId ∧
        m.correlationId = r.correlationId ∧ m.recipientSequence = r.sequence := by
  rcases send_posts h with hdup | ⟨-, m, sent⟩
  · exact .inl hdup
  · obtain ⟨traceId, sequence, threadSequence, hrow⟩ := sent.row
    have hresult := sent.result
    refine .inr ⟨m, sent.posted, ?_, ?_, by rw [hresult], by rw [hresult], by rw [hresult]⟩
    all_goals
      rw [hrow]
      rfl

/-- A call of the sender's under a key that `row` stands under is answered with the row, or refused
    for a recipient that has expired, and writes nothing. -/
def Replays (env : Env) (b : Broker) (row : Message) (sid : SessionId) (key : String) : Prop :=
  ∀ now auth input, auth.sessionId = sid → input.idempotencyKey = some key →
    (send env now auth input b).2 = b ∧
      match (send env now auth input b).1 with
      | .ok r => r.messageId = row.messageId ∧ r.correlationId = row.correlationId ∧
          r.sequence = row.recipientSequence ∧ r.deduplicated = true
      | .error f => b.isExpired row.recipientSessionId = true ∧
          ∃ e, f = .xbus e ∧ e.code = .recipientSessionExpired

theorem replays (inv : KeyInv b) (hkey : key ≠ "") {row : Message}
    (hrow : row ∈ rowsUnder b sid key) : Replays env b row sid key := by
  rintro now auth input rfl hunder
  have hdup : b.duplicateOf auth.sessionId input.idempotencyKey = some row := by
    rw [hunder]
    exact duplicateOf_of_mem inv hkey hrow
  have hthrows : ThrowsOnly (fun f => b.isExpired row.recipientSessionId = true ∧
      ∃ e, f = .xbus e ∧ e.code = .recipientSessionExpired) (send env now auth input) b := by
    refine .transaction (.bind .get fun u t ht => ?_)
    obtain ⟨rfl, rfl⟩ := Call.get_ok.mp ht
    simp only [hdup]
    refine .bind (.requireElse fun hstays => ⟨?_, _, rfl, rfl⟩) fun _ _ _ => .pure _
    exact Bool.eq_true_of_not_eq_false (not_or.mp hstays).2
  rcases hsend : send env now auth input b with ⟨f | r, b'⟩
  · exact ⟨Call.transaction_error hsend, hthrows f b' hsend⟩
  · rcases send_keyed hsend with ⟨dup, hfound, rfl, rfl⟩ | ⟨m, hposted, hsid, hm, -⟩
    · obtain rfl := Option.some.inj (hfound.symm.trans hdup)
      exact ⟨rfl, rfl, rfl, rfl, rfl⟩
    · rcases hposted.newKey with hnone | hnew
      · rw [hm, hunder] at hnone
        cases hnone
      · obtain ⟨hmem, hsame⟩ := mem_rowsUnder.mp hrow
        exact absurd ⟨hsame.1.trans hsid.symm, (hsame.2.trans hunder.symm).trans hm.symm⟩
          (hnew row hmem)

/-- What a successful send of the sender's under the key has answered. -/
def sentUnder (sid : SessionId) (key : String) : Event × Except Failure Response → Option SendResult
  | ((.send auth input, _), .ok (.sent r)) =>
    if auth.sessionId = sid ∧ input.idempotencyKey = some key then some r else none
  | _ => none

/-- Every success so far has named the one row under the key. -/
def NamedUnder (b : Broker) (sid : SessionId) (key : String) (r : SendResult) : Prop :=
  ∃ row ∈ rowsUnder b sid key, row.messageId = r.messageId ∧
    row.correlationId = r.correlationId ∧ row.recipientSequence = r.sequence

/-- **The property of a key**: in every run there is at most one row under it, and once a send under
    it has succeeded, every send under it that follows is answered with what that one was answered
    with, or refused for a recipient that has expired, and writes nothing. -/
def SendIdempotent (env : Env) (sid : SessionId) (key : String) : Prop :=
  ∀ log b, Run (step env) Any (initial env) log b →
    (rowsUnder b sid key).length ≤ 1 ∧
      ∀ entry ∈ log, ∀ r, sentUnder sid key entry = some r →
        ∃ row, rowsUnder b sid key = [row] ∧ row.messageId = r.messageId ∧
          row.correlationId = r.correlationId ∧ row.recipientSequence = r.sequence ∧
          Replays env b row sid key

/-- Rows stay. -/
theorem NamedUnder.step {r : SendResult} (h : NamedUnder b sid key r) (inv : KeyInv b) (e : Event) :
    NamedUnder (step env b e).2 sid key r := by
  obtain ⟨row, hrow, hids⟩ := h
  obtain ⟨hmem, hunder⟩ := mem_rowsUnder.mp hrow
  have hgrows := (exec_moves env e.2 e.1 b false (by simp)).keeps
    (P := fun u => MailInv u ∧ row ∈ u.messages) ⟨inv.mail, hmem⟩ fun u u' k _ hmove hu => by
      refine ⟨Move.mailInv hmove hu.1, ?_⟩
      rcases Move.mail hmove hu.1 with ⟨m, hposted, -⟩ | hframe
      · rw [hposted.messages]
        exact List.mem_append_left _ hu.2
      · rw [hframe.messages]
        exact hu.2
  exact ⟨row, mem_rowsUnder.mpr ⟨hgrows.2, hunder⟩, hids⟩

/-- A success names the row under its key. -/
theorem sentUnder_names {e : Event} {r : SendResult}
    (h : sentUnder sid key (e, (step env b e).1) = some r) :
    NamedUnder (step env b e).2 sid key r := by
  obtain ⟨op, mom⟩ := e
  cases op with
  | send auth input =>
    rcases hsend : send env mom.now auth input b with ⟨f | r', b'⟩
    · have herr : (step env b (.send auth input, mom)).1 = .error f :=
        congrArg Prod.fst (Call.bind_of_error hsend)
      rw [herr] at h
      cases h
    · have hstep : step env b (.send auth input, mom) = (.ok (.sent r'), b') :=
        Call.map_ok.mpr ⟨r', hsend, rfl⟩
      rw [hstep] at h ⊢
      simp only [sentUnder] at h
      split at h
      · rename_i hunder
        obtain rfl := Option.some.inj h
        obtain ⟨rfl, hkey⟩ := hunder
        rcases send_keyed hsend with ⟨dup, hdup, rfl, rfl⟩ | ⟨m, hposted, hsid, hm, hids⟩
        · obtain ⟨key', hkey', -, hmem⟩ := duplicateOf_some hdup
          obtain rfl := Option.some.inj (hkey.symm.trans hkey')
          exact ⟨dup, hmem, rfl, rfl, rfl⟩
        · refine ⟨m, mem_rowsUnder.mpr ⟨?_, hsid, hm.trans hkey⟩, hids⟩
          rw [hposted.messages]
          exact List.mem_append_right _ (List.mem_singleton_self m)
      · cases h
  | _ => cases h

theorem sendIdempotent (hkey : key ≠ "") : SendIdempotent env sid key := by
  intro log b run
  have hinv : KeyInv b ∧ ∀ entry ∈ log, ∀ r, sentUnder sid key entry = some r →
      NamedUnder b sid key r := by
    refine run.invariant_log
      (P := fun log b => KeyInv b ∧ ∀ entry ∈ log, ∀ r, sentUnder sid key entry = some r →
        NamedUnder b sid key r) ⟨keyInv_initial, by simp⟩ fun tr u e hu _ => ?_
    refine ⟨(exec_moves env e.2 e.1 u false (by simp)).keeps hu.1 fun _ _ _ _ => Move.keyInv,
      fun entry hentry r hr => ?_⟩
    rcases List.mem_append.mp hentry with hold | hnew
    · exact (hu.2 entry hold r hr).step hu.1 e
    · rw [List.mem_singleton.mp hnew] at hr
      exact sentUnder_names hr
  refine ⟨hinv.1.one sid key, fun entry hentry r hr => ?_⟩
  obtain ⟨row, hrow, hid, hcorr, hseq⟩ := hinv.2 entry hentry r hr
  exact ⟨row, hinv.1.eq_singleton hrow, hid, hcorr, hseq, replays hinv.1 hkey hrow⟩

/-- `alpha` sends to `beta` under the empty key. -/
def sentUnderEmptyKey : Event :=
  (.send (component "alpha" .mcp 1 1)
    { recipient := "beta-name", text := "please", idempotencyKey := some "" }, { nowMs := 1001 })

/-- The second send under the empty key runs into the index. No recipient has expired. -/
theorem not_sendIdempotent_empty : ¬ SendIdempotent plainEnv "alpha" "" := by
  intro hall
  have hsent : ∃ r, sentUnder "alpha" "" (sentUnderEmptyKey, (step plainEnv
      (runAll (step plainEnv) (initial plainEnv) requestSent).2 sentUnderEmptyKey).1) = some r :=
    Option.isSome_iff_exists.mp (by decide +kernel)
  obtain ⟨r, hr⟩ := hsent
  have hrun : Run (step plainEnv) Any (initial plainEnv) _ _ :=
    .snoc (Run.of_events _ _ requestSent) sentUnderEmptyKey trivial
  obtain ⟨row, -, -, -, -, hreplays⟩ := (hall _ _ hrun).2 _ (by simp) r hr
  obtain ⟨-, hanswer⟩ := hreplays ⟨1002⟩ (component "alpha" .mcp 1 1)
    { recipient := "beta-name", text := "please", idempotencyKey := some "" } rfl rfl
  have hfails : (send plainEnv ⟨1002⟩ (component "alpha" .mcp 1 1)
      { recipient := "beta-name", text := "please", idempotencyKey := some "" }
      (step plainEnv (runAll (step plainEnv) (initial plainEnv) requestSent).2
        sentUnderEmptyKey).2).1 = .error (.sqlite .idempotencyKey) := by decide +kernel
  rw [hfails] at hanswer
  obtain ⟨-, e, he, -⟩ := hanswer
  cases he

/-- **Sends are idempotent under every key but the empty one**, whoever sends and however the broker
    is set up. -/
theorem send_idempotent_iff : (∀ env sid, SendIdempotent env sid key) ↔ key ≠ "" := by
  constructor
  · rintro hall rfl
    exact not_sendIdempotent_empty (hall plainEnv "alpha")
  · exact fun hkey env sid => sendIdempotent hkey

/-- Not under every key. -/
theorem empty_key_not_idempotent : ¬ ∀ env sid key, SendIdempotent env sid key :=
  fun hall => not_sendIdempotent_empty (hall plainEnv "alpha" "")

/-! ## Replies -/

/-- Nothing but replies to the message stands under the key of the session's. -/
def ReservedFor (b : Broker) (sid : SessionId) (key : Option String) (mid : Id) : Prop :=
  ∀ x ∈ b.messages, x.senderSessionId = sid → key ≠ none → x.idempotencyKey = key →
    x.kind = .reply ∧ x.causationId = some mid

/-- What a reply answers with is a reply of the caller's to the message, and one from before if the
    answer says so. -/
def AnswersRequest (b b' : Broker) (auth : SessionAuthority) (mid : Id) (r : SendResult) : Prop :=
  ∃ x ∈ repliesTo b' mid, r.replyMessageId = some x.messageId ∧
    x.senderSessionId = auth.sessionId ∧ (r.deduplicated = true → x ∈ b.messages)

/-- **When a reply answers its request.** For every reachable state and every reply that is
    answered: what it answers with is a reply to the request exactly if the session has used the key
    for nothing else. -/
theorem reply_answers_request_iff {input : ReplyInput} {r : SendResult}
    (hreach : Reachable env Any b) (h : reply env now auth input b = (.ok r, b')) :
    AnswersRequest b b' auth input.messageId r ↔
      ReservedFor b auth.sessionId input.idempotencyKey input.messageId := by
  have inv := keyInv_of_reachable hreach
  obtain ⟨-, orig, -, -, ⟨dup, hdup, hid, hflag, rfl⟩ | hreplied⟩ := reply_ok h
  · obtain ⟨key, hkey, -, hunder⟩ := duplicateOf_some hdup
    obtain ⟨hmem, hsid, hdupKey⟩ := mem_rowsUnder.mp hunder
    constructor
    · rintro ⟨x, hx, hxid, -, -⟩ y hy hysid - hykey
      -- The row answered with is the one under the key, and so is every other there.
      obtain ⟨hxmem, hreply⟩ := List.mem_filter.mp hx
      have hxdup : x = dup := eq_of_key_eq inv.mail.unique hxmem hmem
        (Option.some.inj (hxid.symm.trans hid))
      have hyunder : y ∈ rowsUnder b' auth.sessionId key :=
        mem_rowsUnder.mpr ⟨hy, hysid, hykey.trans hkey⟩
      rw [inv.unique hyunder hunder, ← hxdup]
      exact of_decide_eq_true hreply
    · intro hreserved
      obtain ⟨hkind, hcause⟩ :=
        hreserved dup hmem hsid (by rw [hkey]; exact Option.some_ne_none key)
        (hdupKey.trans hkey.symm)
      exact ⟨dup, List.mem_filter.mpr ⟨hmem, by simp [hkind, hcause]⟩, hid, hsid, fun _ => hmem⟩
  · obtain ⟨b₁, row, hposted, hkind, hcause, hauthored, hrowKey, -, hid, -, -, hmsgs, -⟩ :=
      hreplied.posted
    have hrow : row ∈ repliesTo b' input.messageId := by
      rw [repliesTo_append (hmsgs.trans hposted.messages)]
      simp [hkind, hcause]
    refine iff_of_true ⟨row, hrow, hid, hauthored.sender, fun hd => ?_⟩
      fun x hx hsid hkey hxkey => ?_
    · rw [hreplied.result] at hd
      cases hd
    · rcases hposted.newKey with hnone | hnew
      · exact absurd (hrowKey.symm.trans hnone) hkey
      · exact absurd ⟨hsid.trans hauthored.sender.symm, hxkey.trans hrowKey.symm⟩ (hnew x hx)

/-- `beta` answers the request under a key. -/
def answeredUnderKey : ReplyInput := { answerRequest with idempotencyKey := some "key" }

/-- `beta` answers twice under one key: the second time the answer is the first reply. -/
theorem repeated_reply_answers_request :
    let b := (runAll (step plainEnv) (initial plainEnv) (requestPulled ++
      [(.reply (component "beta" .mcp 1 2) answeredUnderKey, { nowMs := 2000 })])).2
    ∃ r, reply plainEnv ⟨2001⟩ (component "beta" .mcp 1 2) answeredUnderKey b = (.ok r, b) ∧
      r.deduplicated = true ∧ AnswersRequest b b (component "beta" .mcp 1 2) 8 r := by
  intro b
  have hfacts : (reply plainEnv ⟨2001⟩ (component "beta" .mcp 1 2) answeredUnderKey
        b).1.toOption.map (·.deduplicated) = some true ∧
      (reply plainEnv ⟨2001⟩ (component "beta" .mcp 1 2) answeredUnderKey b).2 = b ∧
      ∀ x ∈ b.messages, x.senderSessionId = "beta" → (some "key" : Option String) ≠ none →
        x.idempotencyKey = some "key" → x.kind = .reply ∧ x.causationId = some 8 := by
    decide +kernel
  have hreach : Reachable plainEnv Any b := ⟨_, Run.of_events _ _ _⟩
  rcases hout : reply plainEnv ⟨2001⟩ (component "beta" .mcp 1 2) answeredUnderKey b
    with ⟨f | r, b'⟩ <;> rw [hout] at hfacts
  · cases hfacts.1
  · obtain ⟨hdup, rfl, hreserved⟩ := hfacts
    exact ⟨r, rfl, Option.some.inj hdup, (reply_answers_request_iff hreach hout).mpr hreserved⟩

/-- `beta` has sent `alpha` something under a key, and answers the request under the same one: it is
    told that the request is completed, and no reply has been written. -/
theorem reply_under_send_key_unanswered :
    ¬ ∀ b b' now auth (input : ReplyInput) r, Reachable plainEnv Any b →
      reply plainEnv now auth input b = (.ok r, b') → r.deduplicated = true →
      AnswersRequest b b' auth input.messageId r := by
  intro hall
  let b := (runAll (step plainEnv) (initial plainEnv) (requestPulled ++
    [(.send (component "beta" .mcp 1 2)
      { recipient := "session-alpha", text := "hello", idempotencyKey := some "key" },
      { nowMs := 2000 })])).2
  have hfacts : (reply plainEnv ⟨2001⟩ (component "beta" .mcp 1 2) answeredUnderKey
        b).1.toOption.map (fun r => (r.deduplicated, r.state)) = some (true, .completed) ∧
      repliesTo (reply plainEnv ⟨2001⟩ (component "beta" .mcp 1 2)
        answeredUnderKey b).2 8 = [] := by
    decide +kernel
  have hreach : Reachable plainEnv Any b := ⟨_, Run.of_events _ _ _⟩
  rcases hout : reply plainEnv ⟨2001⟩ (component "beta" .mcp 1 2) answeredUnderKey b
    with ⟨f | r, b'⟩ <;> rw [hout] at hfacts
  · cases hfacts.1
  · have hdup : r.deduplicated = true := congrArg Prod.fst (Option.some.inj hfacts.1)
    obtain ⟨x, hx, -⟩ := hall b b' _ _ _ r hreach hout hdup
    rw [show repliesTo b' answeredUnderKey.messageId = [] from hfacts.2] at hx
    cases hx

end Proof
end XBus
