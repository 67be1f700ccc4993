import XBus.Proof.Mail

/-!
# Replies

A reply does two things: it posts a message to the asker and it closes the request. The
second is one statement, which matches deliveries that are accepted or in flight, and its row
count is not looked at. So a reply that comes after the delivery was requeued (an
acknowledgement that timed out, a recovered lease, an operator's redelivery) is posted and
the request stays open; and a reply after the request was closed is posted a second time.

Both halves are made exact here. `reply_completes_iff` says from which states a reply closes
its request for good. `one_reply_per_request` says that in runs where replies meet open work
there is at most one per request, and what becomes of a second attempt.
-/

set_option autoImplicit false

namespace XBus
namespace Proof

open Lib

variable {env : Env} {now : Iso} {auth : SessionAuthority} {input : ReplyInput} {b b' : Broker}

/-! ## Closing the request -/

/-- The delivery of the message exists and its state satisfies `p`. -/
def DeliveryIn (b : Broker) (mid : Id) (p : DeliveryState → Prop) : Prop :=
  ∃ d, b.delivery? mid = some d ∧ p d.state

/-- Completed now and in every state any run from here reaches. -/
def CompletedForGood (env : Env) (b : Broker) (mid : Id) : Prop :=
  ∀ log b', Run (step env) Any b log b' → Completed b' mid

theorem completedForGood (inv : MailInv b) {mid : Id} (h : Completed b mid) :
    CompletedForGood env b mid := by
  intro log b' run
  refine (run.invariant (P := fun b => MailInv b ∧ Completed b mid) ⟨inv, h⟩ fun u e hu _ => ?_).2
  have hmoves := exec_moves env e.2 e.1 u false (by simp)
  exact ⟨hmoves.mailInv hu.1, hmoves.completed hu.1 hu.2⟩

theorem answered_state_completed {mid : Id} {d : Delivery} (hmid : d.messageId = mid) :
    (answered mid now d).state = .completed ↔
      d.state = .accepted ∨ d.state = .transportWritten ∨ d.state = .completed := by
  unfold answered
  split
  · rename_i hp
    exact ⟨fun _ => hp.2.elim .inl fun h => .inr (.inl h), fun _ => rfl⟩
  · rename_i hp
    constructor
    · exact fun h => .inr (.inr h)
    · rintro (h | h | h)
      · exact absurd ⟨hmid, .inl h⟩ hp
      · exact absurd ⟨hmid, .inr h⟩ hp
      · exact h

section Replied

variable {orig : Message} {r : SendResult}

theorem Replied.mailInv (h : Replied env now auth input orig b b' r) (inv : MailInv b) :
    MailInv b' := by
  obtain ⟨b₁, row, hposted, -, -, -, -, -, -, -, -, -, hmoves⟩ := h.posted
  exact hmoves.mailInv (hposted.keeps inv)

/-- The delivery a reply answers, before and after. -/
theorem Replied.delivery (h : Replied env now auth input orig b b' r) (inv : MailInv b)
    (horig : b.message? input.messageId = some orig) :
    ∃ d, b.delivery? input.messageId = some d ∧
      b'.delivery? input.messageId = some (answered input.messageId now d) := by
  have hid : orig.messageId = input.messageId := by simpa using List.find?_some horig
  obtain ⟨d, hd, hmid, -⟩ := inv.addressed_of_mem (List.mem_of_find?_eq_some horig)
  have hmid : d.messageId = input.messageId := hmid.trans hid
  refine ⟨d, hmid ▸ inv.delivery?_of_mem hd, ?_⟩
  have hinv' := h.mailInv inv
  obtain ⟨b₁, row, hposted, -, -, -, -, -, -, -, hdel, -, -⟩ := h.posted
  obtain ⟨id, t, hdel₁⟩ := hposted.deliveries
  have hmem : answered input.messageId now d ∈ b'.deliveries := by
    rw [hdel, hdel₁]
    exact List.mem_map_of_mem (List.mem_append_left _ hd)
  have hkey : (answered input.messageId now d).messageId = input.messageId := by
    unfold answered
    split
    · exact hmid
    · exact hmid
  have hfound := hinv'.delivery?_of_mem hmem
  rwa [hkey] at hfound

end Replied

/-- **When a reply closes its request.** For every reachable state and every reply that is
    answered and is not a replay: the request is completed, now and for good, exactly if its
    delivery was accepted, in flight or already completed when the reply came. -/
theorem reply_completes_iff {r : SendResult} (hreach : Reachable env Any b)
    (h : reply env now auth input b = (.ok r, b')) (hnew : r.deduplicated = false) :
    CompletedForGood env b' input.messageId ↔
      DeliveryIn b input.messageId fun s =>
        s = .accepted ∨ s = .transportWritten ∨ s = .completed := by
  have inv := mailInv_of_reachable hreach
  obtain ⟨-, orig, horig, -, ⟨dup, -, -, hdup, -⟩ | hr⟩ := reply_ok h
  · rw [hnew] at hdup
    cases hdup
  obtain ⟨d, hd, hd'⟩ := hr.delivery inv horig
  have hmid : d.messageId = input.messageId := by simpa using List.find?_some hd
  have hnow : Completed b' input.messageId ↔
      d.state = .accepted ∨ d.state = .transportWritten ∨ d.state = .completed := by
    rw [Completed, hd', Option.map_some, Option.some.injEq]
    exact answered_state_completed hmid
  constructor
  · intro hgood
    exact ⟨d, hd, hnow.mp (hgood [] b' .nil)⟩
  · rintro ⟨d₂, hd₂, hstate⟩
    obtain rfl := Option.some.inj (hd.symm.trans hd₂)
    exact completedForGood (hr.mailInv inv) (hnow.mpr hstate)

/-- The answer of `beta` to the request, in concrete runs. -/
def answerRequest : ReplyInput := { messageId := 8, text := "done", outcome := .completed }

/-- A reply to a body in flight closes the request for good. -/
theorem reply_in_flight_completes :
    let b := (runAll (step plainEnv) (initial plainEnv) requestPulled).2
    let out := reply plainEnv ⟨2000⟩ (component "beta" .mcp 1 2) answerRequest b
    out.1.toOption.map (·.deduplicated) = some false ∧ CompletedForGood plainEnv out.2 8 := by
  intro b out
  have hfresh : out.1.toOption.map (·.deduplicated) = some false := by decide +kernel
  refine ⟨hfresh, ?_⟩
  have hreach : Reachable plainEnv Any b := ⟨_, Run.of_events _ _ requestPulled⟩
  rcases hout : out with ⟨f | r, b'⟩ <;> rw [hout] at hfresh
  · cases hfresh
  · refine (reply_completes_iff hreach hout (Option.some.inj hfresh)).mpr ?_
    have hstate : (b.delivery? 8).map (·.state) = some .transportWritten := by decide +kernel
    obtain ⟨d, hd, htw⟩ := Option.map_eq_some_iff.mp hstate
    exact ⟨d, hd, .inr (.inl htw)⟩

/-- The acknowledgement of the pulled request times out, and only then comes the reply. It is
    posted, and the request stays in `retry_wait`, to be presented again. -/
theorem late_reply_leaves_request_open :
    ∃ b b' r, Reachable plainEnv Any b ∧
      reply plainEnv ⟨400001⟩ (component "beta" .mcp 1 2) answerRequest b = (.ok r, b') ∧
      r.deduplicated = false ∧ (b'.delivery? 8).map (·.state) = some .retryWait := by
  let b := (runAll (step plainEnv) (initial plainEnv)
    (requestPulled ++ [(.sweep, { nowMs := 400000 })])).2
  have hfacts : (reply plainEnv ⟨400001⟩ (component "beta" .mcp 1 2) answerRequest
        b).1.toOption.map (·.deduplicated) = some false ∧
      ((reply plainEnv ⟨400001⟩ (component "beta" .mcp 1 2) answerRequest
        b).2.delivery? 8).map (·.state) = some .retryWait := by decide +kernel
  rcases hout : reply plainEnv ⟨400001⟩ (component "beta" .mcp 1 2) answerRequest b
    with ⟨f | r, b'⟩ <;> rw [hout] at hfacts
  · cases hfacts.1
  · exact ⟨b, b', r, ⟨_, Run.of_events _ _ _⟩, hout, Option.some.inj hfacts.1, hfacts.2⟩

/-! ## One reply per request -/

/-- The replies to a message. -/
def repliesTo (b : Broker) (mid : Id) : List Message :=
  b.messages.filter fun m => m.kind = .reply ∧ m.causationId = some mid

/-- The caller and the input of a reply. -/
def replyCall : Op → Option (SessionAuthority × ReplyInput)
  | .reply auth input => some (auth, input)
  | _ => none

/-- A reply meets open work: one that is answered from its key gets the reply to the same
    request, and one that is authorised afresh finds the delivery of the request accepted or
    in flight. -/
def MeetsOpenWork (b : Broker) (now : Iso) (auth : SessionAuthority) (input : ReplyInput) : Prop :=
  (∀ dup ∈ (b.duplicateOf auth.sessionId input.idempotencyKey).toList,
    dup.kind = .reply ∧ dup.causationId = some input.messageId) ∧
  (b.duplicateOf auth.sessionId input.idempotencyKey = none →
    (authorize now .reply input.messageId auth.sessionId auth.epoch input.injectionId
      b).isOk = true →
    ∃ d ∈ (b.delivery? input.messageId).toList, d.state = .accepted ∨ d.state = .transportWritten)

/-- Every reply of a run meets open work. -/
def RepliesToOpenWork (b : Broker) (e : Event) : Prop :=
  ∀ call ∈ (replyCall e.1).toList, MeetsOpenWork b e.2.now call.1 call.2

instance (b : Broker) (now : Iso) (auth : SessionAuthority) (input : ReplyInput) :
    Decidable (MeetsOpenWork b now auth input) := inferInstanceAs (Decidable (_ ∧ (_ → _ → _)))

instance (b : Broker) (e : Event) : Decidable (RepliesToOpenWork b e) :=
  inferInstanceAs (Decidable (∀ call ∈ _, MeetsOpenWork _ _ _ _))

/-- A refused reply writes to the audit trail at most. -/
theorem reply_refuses_auditTrail : Refuses AuditTrail (reply env now auth input) :=
  Refuses.bind assertAllowed_respects fun _ =>
    Refuses.bind assertCurrentEpoch_auditTrail fun _ => .transaction _

/-- At most one reply to each request, and a request that has one is completed. -/
structure ReplyInv (b : Broker) : Prop where
  mail : MailInv b
  one : ∀ mid, (repliesTo b mid).length ≤ 1
  closed : ∀ mid, repliesTo b mid ≠ [] → Completed b mid

theorem ReplyInv.unique (inv : ReplyInv b) {mid : Id} {x y : Message} (hx : x ∈ repliesTo b mid)
    (hy : y ∈ repliesTo b mid) : x = y := by
  obtain ⟨z, hz⟩ := List.length_eq_one_iff.mp
    (Nat.le_antisymm (inv.one mid) (List.length_pos_of_mem hx))
  rw [hz, List.mem_singleton] at hx hy
  rw [hx, hy]

theorem duplicateOf_mem {sender : SessionId} {key : Option String} {dup : Message}
    (h : b.duplicateOf sender key = some dup) : dup ∈ b.messages := by
  unfold Broker.duplicateOf at h
  split at h
  · cases h
  · split at h
    · cases h
    · exact List.mem_of_find?_eq_some h

theorem repliesTo_append {m : Message} (h : b'.messages = b.messages ++ [m]) (mid : Id) :
    repliesTo b' mid = repliesTo b mid ++
      if m.kind = .reply ∧ m.causationId = some mid then [m] else [] := by
  rw [repliesTo, h, List.filter_append]
  congr 1
  by_cases hm : m.kind = .reply ∧ m.causationId = some mid
  · simp [hm]
  · rw [if_neg hm]
    simpa using hm

/-- Only an answer adds a reply. -/
theorem Move.repliesTo {k : Kind} (h : Move env k b b') (hk : k ≠ .answer) (inv : MailInv b)
    (mid : Id) : repliesTo b' mid = repliesTo b mid := by
  rcases Move.mail h inv with ⟨m, hposted, hkind⟩ | hframe
  · rw [repliesTo_append hposted.messages, if_neg fun hm => hkind hk hm.1, List.append_nil]
  · rw [Proof.repliesTo, hframe.messages]
    rfl

theorem ReplyInv.moves {kinds : List Kind} (inv : ReplyInv b) (h : Moves env kinds b b')
    (hk : .answer ∉ kinds) : ReplyInv b' := by
  refine h.keeps inv fun u u' k hmem hmove hu => ?_
  have hreplies := Move.repliesTo hmove (fun heq => hk (heq ▸ hmem)) hu.mail
  refine ⟨Move.mailInv hmove hu.mail, fun mid => hreplies mid ▸ hu.one mid, fun mid hne => ?_⟩
  exact Move.completed hmove hu.mail (hu.closed mid (hreplies mid ▸ hne))

/-- A reply that is answered afresh, to a request that had none. -/
theorem ReplyInv.replied {orig : Message} {r : SendResult} (inv : ReplyInv b)
    (hr : Replied env now auth input orig b b' r)
    (horig : b.message? input.messageId = some orig)
    (hopen : DeliveryIn b input.messageId fun s => s = .accepted ∨ s = .transportWritten) :
    ReplyInv b' := by
  obtain ⟨d, hd, hd'⟩ := hr.delivery inv.mail horig
  obtain ⟨d₂, hd₂, hstate⟩ := hopen
  obtain rfl := Option.some.inj (hd.symm.trans hd₂)
  have hmid : d.messageId = input.messageId := by simpa using List.find?_some hd
  have hclosed : Completed b' input.messageId := by
    rw [Completed, hd', Option.map_some, Option.some.injEq]
    exact (answered_state_completed hmid).mpr (hstate.elim .inl fun h => .inr (.inl h))
  -- The request is still open, so by the invariant nobody has answered it.
  have hnone : Proof.repliesTo b input.messageId = [] := by
    by_contra hne
    obtain ⟨d₃, hd₃, hc⟩ := completed_iff.mp (inv.closed _ hne)
    obtain rfl := Option.some.inj (hd.symm.trans hd₃)
    rw [hc] at hstate
    rcases hstate with hstate | hstate <;> cases hstate
  obtain ⟨b₁, row, hposted, hkind, hcause, -, -, -, -, -, -, hmsgs, hmoves⟩ := hr.posted
  have hreplies (mid : Id) : Proof.repliesTo b' mid = Proof.repliesTo b mid ++
      if input.messageId = mid then [row] else [] := by
    rw [repliesTo_append (hmsgs.trans hposted.messages), hcause]
    simp [hkind]
  refine ⟨hr.mailInv inv.mail, fun mid => ?_, fun mid hne => ?_⟩
  · rw [hreplies]
    by_cases hm : input.messageId = mid
    · subst hm
      simp [hnone]
    · simpa [hm] using inv.one mid
  · by_cases hm : input.messageId = mid
    · exact hm ▸ hclosed
    · rw [hreplies, if_neg hm, List.append_nil] at hne
      have hanswer : Move env .answer b b₁ := .answer row hposted hkind
      exact hmoves.completed (hposted.keeps inv.mail)
        (Move.completed hanswer inv.mail (inv.closed mid hne))

theorem MeetsOpenWork.deliveryIn (h : MeetsOpenWork b now auth input)
    (hfresh : b.duplicateOf auth.sessionId input.idempotencyKey = none) {i : Injection}
    (hauth : authorize now .reply input.messageId auth.sessionId auth.epoch input.injectionId b =
      .ok i) :
    DeliveryIn b input.messageId fun s => s = .accepted ∨ s = .transportWritten := by
  obtain ⟨d, hd, hstate⟩ := h.2 hfresh (by rw [hauth]; rfl)
  exact ⟨d, Option.mem_toList.mp hd, hstate⟩

theorem ReplyInv.step (hreq : env.requireReceipt = true) (inv : ReplyInv b) {e : Event}
    (hok : RepliesToOpenWork b e) : ReplyInv (step env b e).2 := by
  have hother (h : .answer ∉ kindsOf false e.1) : ReplyInv (XBus.step env b e).2 :=
    inv.moves (exec_moves env e.2 e.1 b false (by simp)) h
  obtain ⟨op, mom⟩ := e
  cases op with
  | reply auth input =>
    have hmeets : MeetsOpenWork b mom.now auth input := hok (auth, input) (by simp [replyCall])
    show ReplyInv (exec env mom (.reply auth input) b).2
    rw [show (exec env mom (.reply auth input) b).2 = (reply env mom.now auth input b).2 from
      Call.map_snd]
    rcases hr : reply env mom.now auth input b with ⟨f | r, b'⟩
    · have hnote : Moves env [.note] b b' := .note (by simp) (reply_refuses b f b' hr)
      exact inv.moves hnote (by simp)
    · obtain ⟨-, orig, horig, -, ⟨dup, -, -, -, rfl⟩ | hreplied⟩ := reply_ok hr
      · exact inv
      · obtain ⟨i, hauth, -⟩ := hreplied.authorised hreq
        exact inv.replied hreplied horig (hmeets.deliveryIn hreplied.fresh hauth)
  | _ => exact hother (by simp [kindsOf, registerKinds])

theorem replyInv_initial : ReplyInv (initial env) := by
  have hnone (mid : Id) : repliesTo (initial env) mid = [] := by
    rw [repliesTo, initial, (ensureOperatorSession_mail env {}).messages]
    rfl
  exact ⟨mailInv_initial, fun mid => by simp [hnone], fun mid hne => absurd (hnone mid) hne⟩

/-- **One reply per request.** Where receipts are required, in every run whose replies meet
    open work: each request has at most one reply, and a further reply to it is answered with
    that reply and changes nothing, or is refused and leaves an audit row at most. -/
theorem one_reply_per_request (hreq : env.requireReceipt = true)
    {log : List (Event × Except Failure Response)}
    (run : Run (step env) RepliesToOpenWork (initial env) log b) :
    (∀ mid, (repliesTo b mid).length ≤ 1) ∧
      ∀ now auth input, ∀ x ∈ repliesTo b input.messageId, MeetsOpenWork b now auth input →
        (∃ r, reply env now auth input b = (.ok r, b) ∧ r.deduplicated = true ∧
          r.replyMessageId = some x.messageId) ∨
        ∃ f b', reply env now auth input b = (.error f, b') ∧ AuditTrail b b' := by
  have inv : ReplyInv b := run.invariant replyInv_initial fun _ _ hu hok => hu.step hreq hok
  refine ⟨inv.one, fun now auth input x hx hmeets => ?_⟩
  rcases hr : reply env now auth input b with ⟨f | r, b'⟩
  · exact .inr ⟨f, b', rfl, reply_refuses_auditTrail b f b' hr⟩
  · obtain ⟨-, orig, horig, -, ⟨dup, hdup, hid, hflag, rfl⟩ | hreplied⟩ := reply_ok hr
    · -- The key stands for a reply to this request, and there is only one.
      refine .inl ⟨r, rfl, hflag, ?_⟩
      obtain ⟨hkind, hcause⟩ := hmeets.1 dup (by simp [hdup])
      have hmem : dup ∈ repliesTo b' input.messageId :=
        List.mem_filter.mpr ⟨duplicateOf_mem hdup, by simp [hkind, hcause]⟩
      rw [hid, inv.unique hx hmem]
    · -- Authorised afresh it would have found the request open, but it is completed.
      obtain ⟨i, hauth, -⟩ := hreplied.authorised hreq
      obtain ⟨d, hd, hstate⟩ := hmeets.deliveryIn hreplied.fresh hauth
      obtain ⟨d', hd', hc⟩ := completed_iff.mp (inv.closed _ (List.ne_nil_of_mem hx))
      obtain rfl := Option.some.inj (hd.symm.trans hd')
      rw [hc] at hstate
      rcases hstate with hstate | hstate <;> cases hstate

/-- `beta` answers the request once. -/
def requestAnswered : List Event :=
  requestPulled ++ [(.reply (component "beta" .mcp 1 2) answerRequest, { nowMs := 2000 })]

/-- A second reply to the answered request is refused. -/
theorem second_reply_refused :
    let b := (runAll (step plainEnv) (initial plainEnv) requestAnswered).2
    (repliesTo b 8).length = 1 ∧ (∀ mid, (repliesTo b mid).length ≤ 1) ∧
      ∃ f b', reply plainEnv ⟨3000⟩ (component "beta" .mcp 1 2) answerRequest b =
        (.error f, b') ∧ AuditTrail b b' := by
  intro b
  have hone : (repliesTo b 8).length = 1 := by decide +kernel
  have hrun : Run (step plainEnv) RepliesToOpenWork (initial plainEnv) _ b :=
    Run.of_runAll requestAnswered (by decide +kernel)
  obtain ⟨hle, hagain⟩ := one_reply_per_request rfl hrun
  refine ⟨hone, hle, ?_⟩
  obtain ⟨x, hx⟩ := List.length_eq_one_iff.mp hone
  have hmem : x ∈ repliesTo b 8 := by rw [hx]; exact List.mem_singleton_self x
  have hmeets : MeetsOpenWork b ⟨3000⟩ (component "beta" .mcp 1 2) answerRequest := by
    decide +kernel
  have hrefused : (reply plainEnv ⟨3000⟩ (component "beta" .mcp 1 2) answerRequest b).1.isOk =
      false := by decide +kernel
  rcases hagain ⟨3000⟩ (component "beta" .mcp 1 2) answerRequest x hmem hmeets
    with ⟨r, hr, -⟩ | h
  · rw [hr] at hrefused
    cases hrefused
  · exact h

/-- The answered request is redelivered, which gives `beta` an unused injection, and answered
    again. -/
theorem redelivered_request_replied_twice :
    ∃ log b, Run (step plainEnv) Any (initial plainEnv) log b ∧ (repliesTo b 8).length = 2 := by
  refine ⟨_, _, Run.of_events (step plainEnv) (initial plainEnv) (requestAnswered ++
    [ (.redeliver (component "beta" .mcp 1 2) 8, { nowMs := 3000 }),
      (.reply (component "beta" .mcp 1 2) answerRequest, { nowMs := 4000 }) ]), ?_⟩
  decide +kernel

end Proof
end XBus
