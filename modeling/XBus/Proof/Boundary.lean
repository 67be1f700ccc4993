import XBus.Inbound
import XBus.Proof.Signals
import XBus.Proof.Mail

/-!
# The boundary of peer content

What a peer writes is persisted by two frames. `send_message` goes through the validator, and
what the validator admits is within the limits (`validateSendInput_ok`). `reply_message` reads
its text and its metadata off the payload and stores them.

So the rows written for peers are within the limits exactly as far as the replies are. No other
signal writes a row for a peer.
-/

set_option autoImplicit false

namespace XBus

open Lib

/-- A row within the limits of peer content. -/
def Message.bounded (text : Text) (m : Message) : Bool :=
  byteLen m.text ≤ Limits.textBytes ∧ m.metadata.all (JsonValue.boundedMetadata text)

/-- A text field within the limit, if it is text. -/
def boundedText : Option JsonValue → Bool
  | some (.str s) => byteLen s ≤ Limits.textBytes
  | _ => true

/-- A reply's payload within the limits, in the fields that are stored: the text, and metadata
    that is not dropped for being falsy. -/
def replyBounded (text : Text) (payload : JsonValue) : Bool :=
  boundedText (payload.field? "text") ∧
    ((payload.field? "metadata").filter JsonValue.truthy).all (JsonValue.boundedMetadata text)

/-- The condition on the frames of a run. -/
def repliesBounded (text : Text) (e : RawEvent) : Bool :=
  match e.1 with
  | .replyMessage _ payload => replyBounded text payload
  | _ => true

namespace Proof

variable {env : Env} {mom : Moment} {now : Iso} {auth : SessionAuthority} {text : Text}
  {k : Kind} {b b' : Broker} {d d' : Daemon} {idOf : String → Id}

/-- The rows written for peers are within the limits. -/
def Bounded (text : Text) (b : Broker) : Prop :=
  ∀ m ∈ b.messages, m.authorType = .claude → m.bounded text = true

/-- What is within the limits stays within them. -/
def KeepsBounds (text : Text) (b b' : Broker) : Prop := Bounded text b → Bounded text b'

instance : IsFrame (KeepsBounds text) where
  refl _ := id
  trans h h' := h' ∘ h

theorem KeepsBounds.of_eq (h : b'.messages = b.messages) : KeepsBounds text b b' := by
  intro hb m hm
  exact hb m (h ▸ hm)

theorem KeepsBounds.posted {m : Message} (h : Posted b b' m)
    (hm : m.authorType = .claude → m.bounded text = true) : KeepsBounds text b b' := by
  intro hb x hx
  rw [h.messages] at hx
  rcases List.mem_append.mp hx with hx | hx
  · exact hb x hx
  · obtain rfl := List.mem_singleton.mp hx
    exact hm

/-! ## What writes no row -/

/-- The kinds of move that post a message. -/
def posts : Kind → Bool
  | .post | .answer => true
  | _ => false

theorem Move.messages (h : Move env k b b') (hk : posts k = false) : b'.messages = b.messages := by
  cases h with
  | note h => exact h.messages
  | post | answer => cases hk
  | restate | redrive | consume | component | redirect | close | dormant => rfl
  | inject now auth ck audited m =>
    exact (injectOne_spec env now auth ck audited m b).rest.messages
  | reissue => exact (MailOnly.issue (b := b.mint)).messages
  | create input =>
    obtain ⟨as, es, n, hb', -⟩ := createSession_eq b env input
    rw [hb']
  | @advance _ now sid resume s =>
    obtain ⟨is, as, es, n, hb', -⟩ := advanceEpoch_eq b env now sid (s.activeEpoch + 1) resume
    rw [hb']
  | join now input => rw [joinEpoch_eq]
  | claim => exact NamesOnly.claim.messages
  | rename => exact NamesOnly.rename.messages
  | operatorRename => exact NamesOnly.operatorRename.messages
  | reclaim => exact (IsFrame.trans NamesOnly.forfeit NamesOnly.rename).messages
  | tombstone => rfl
  | lapse => exact NamesOnly.lapse.messages
  | remove => rfl
  | operator =>
    unfold Broker.ensureOperatorSession
    split <;> rfl

theorem Moves.messages {kinds : List Kind} (h : Moves env kinds b b')
    (hk : kinds.all (fun k => ! posts k) = true) : b'.messages = b.messages := by
  refine h.keeps (P := fun u => u.messages = b.messages) rfl fun u u' k hmem hmove hu => ?_
  have hquiet : posts k = false := by simpa using List.all_eq_true.mp hk k hmem
  exact (hmove.messages hquiet).trans hu

/-! ## What writes a row -/

theorem send_bounds {input : SendInput} (htext : byteLen input.text ≤ Limits.textBytes)
    (hmeta : ∀ entries, input.metadata = some entries →
      (stringRecord entries).boundedMetadata text = true) :
    Respects (KeepsBounds text) (send env now auth input) := by
  refine Refuses.respects (.transaction _) (fun _ _ h => h) fun b r b' h => ?_
  obtain ⟨-, rfl⟩ | ⟨-, m, hposted, -, -, -, hm⟩ := send_ok h
  · exact IsFrame.refl _
  · refine .posted hposted fun _ => ?_
    simp only [Message.bounded, hm.text, hm.metadata, decide_eq_true_eq]
    refine ⟨htext, ?_⟩
    cases hmd : input.metadata with
    | none => rfl
    | some entries => exact hmeta entries hmd

theorem operatorSend_bounds {input : OperatorSendInput} :
    Respects (KeepsBounds text) (operatorSend env now input) := by
  refine Refuses.respects (.transaction _) (fun _ _ h => h) fun b r b' h => ?_
  obtain ⟨-, rfl⟩ | ⟨-, m, hposted, -, -, -, hm⟩ := operatorSend_ok h
  · exact IsFrame.refl _
  · refine .posted hposted fun hauthor => ?_
    rw [hm.author] at hauthor
    cases hauthor

theorem reply_bounds {input : ReplyInput} (htext : byteLen input.text ≤ Limits.textBytes)
    (hmeta : (input.metadata.filter (·.truthy)).all (JsonValue.boundedMetadata text) = true) :
    Respects (KeepsBounds text) (reply env now auth input) := by
  refine reply_refuses.respects (fun _ _ h => .of_eq h.messages) fun b r b' h => ?_
  obtain ⟨-, orig, -, -, ⟨dup, -, -, -, rfl⟩ | hr⟩ := reply_ok h
  · exact IsFrame.refl _
  · obtain ⟨b₁, row, hposted, -, -, hrow, -, -, -, -, -, hmessages, -⟩ := hr.posted
    refine IsFrame.trans (.posted hposted fun _ => ?_) (.of_eq hmessages)
    simp only [Message.bounded, hrow.text, hrow.metadata, decide_eq_true_eq]
    exact ⟨htext, hmeta⟩

/-! ## One signal -/

theorem onStore_bounds {α : Type} {x : BrokerCall α} (hx : Respects (KeepsBounds text) x)
    (d : Daemon) : KeepsBounds text d.db (Daemon.onStore x d).2.db := hx d.db

theorem onSend_bounds {c : Conn} {payload : JsonValue} (d : Daemon) :
    KeepsBounds env.text d.db (onSend env mom c payload d).2.db := by
  unfold onSend
  cases c.auth with
  | none => exact IsFrame.refl d.db
  | some auth =>
    refine onStore_bounds (Respects.bind assertAllowed_respects fun _ => ?_) d
    cases hvalid : validateSendInput env.text payload with
    | error failure => exact fun b => IsFrame.refl b
    | ok input =>
      obtain ⟨htext, hmeta⟩ := validateSendInput_ok hvalid
      exact (send_bounds htext hmeta).map

/-- A reply stores the text and the metadata of its payload. -/
theorem readReply_ok {payload : JsonValue} {input : ReplyInput}
    (h : readReply idOf payload = .ok input) :
    payload.field? "text" = some (.str input.text) ∧
      input.metadata = payload.field? "metadata" := by
  unfold readReply at h
  split at h
  · rename_i htext houtcome
    split at h
    · cases h
    · cases hkey : optString payload "idempotencyKey" with
      | error failure =>
        rw [hkey] at h
        cases h
      | ok key =>
        cases hinj : optString payload "injectionId" with
        | error failure =>
          rw [hkey, hinj] at h
          cases h
        | ok inj =>
          rw [hkey, hinj] at h
          obtain rfl := Except.ok.inj h
          exact ⟨htext, rfl⟩
  · split at h <;> cases h
  · split at h <;> cases h
  · cases h

theorem onReply_bounds {c : Conn} {payload : JsonValue}
    (hpayload : replyBounded env.text payload = true) (d : Daemon) :
    KeepsBounds env.text d.db (onReply env idOf mom c payload d).2.db := by
  unfold onReply
  cases c.auth with
  | none => exact IsFrame.refl d.db
  | some auth =>
    cases hread : readReply idOf payload with
    | error failure => exact IsFrame.refl d.db
    | ok input =>
      obtain ⟨htext, hmeta⟩ := readReply_ok hread
      simp only [replyBounded, htext, ← hmeta, boundedText, decide_eq_true_eq] at hpayload
      exact onStore_bounds (reply_bounds hpayload.1 hpayload.2).map d

/-- Without content from a peer or the operator no row is written. -/
theorem Stepped.messages {s : Signal} {answer : Except Failure Response}
    (h : Stepped env mom d s answer d') (hs : s.carriesContent = false)
    (hquiet : ∀ input, s ≠ .upkeep (.operatorSend input)) : d'.db.messages = d.db.messages := by
  have hexec {op : Op} (hk : (kindsOf false op).all (fun k => ! posts k) = true) :
      (exec env mom op d.db).2.messages = d.db.messages :=
    (exec_moves env mom op d.db false (by simp)).messages hk
  cases h with
  | noted h =>
    obtain ⟨b, hb, rfl⟩ := h
    exact hb.bookkeeping.messages
  | accepted | greeted => rfl
  | @registered c p a b _ answered =>
    have hmoves : Moves env registerKinds d.db (register env mom (p.input c.id) d.db).2 :=
      register_respects d.db
    rw [answered] at hmoves
    exact hmoves.messages rfl
  | @requested c r a =>
    rcases onRequest_snd env mom a r d.db with h | h
    · exact congrArg Broker.messages h
    · refine (congrArg Broker.messages h).trans (hexec ?_)
      cases r with
      | sendMessage | replyMessage => cases hs
      | inbox markInjected => cases markInjected <;> rfl
      | _ => rfl
  | @closed c =>
    unfold Daemon.close
    cases c.auth <;> rfl
  | upkept u =>
    refine hexec ?_
    cases u with
    | operatorSend input => exact absurd rfl (hquiet input)
    | _ => rfl
  | restarted =>
    have hmove : Move env .operator d.db (d.db.ensureOperatorSession env) := .operator
    exact hmove.messages rfl

theorem Stepped.bounds {s : Signal} {answer : Except Failure Response}
    (h : Stepped env mom d s answer d') (hs : s.carriesContent = false) :
    KeepsBounds text d.db d'.db := by
  by_cases hoperator : ∃ input, s = .upkeep (.operatorSend input)
  · obtain ⟨input, rfl⟩ := hoperator
    cases h with
    | noted h =>
      obtain ⟨b, hb, rfl⟩ := h
      exact .of_eq hb.bookkeeping.messages
    | upkept => exact operatorSend_bounds.map d.db
  · exact .of_eq (h.messages hs fun input heq => hoperator ⟨input, heq⟩)

theorem rawStep_bounds {e : RawEvent} (he : repliesBounded env.text e = true) (d : Daemon) :
    KeepsBounds env.text d.db (d.rawStep env idOf e).2.db := by
  obtain ⟨signal, mom⟩ := e
  cases signal with
  | sendMessage id payload =>
    simp only [Daemon.rawStep]
    split
    · exact onSend_bounds d
    · exact IsFrame.refl d.db
  | replyMessage id payload =>
    simp only [Daemon.rawStep]
    split
    · exact onReply_bounds he d
    · exact IsFrame.refl d.db
  | other s hs => exact (step_stepped env d (s, mom)).bounds hs

/-! ## Runs -/

theorem boundedMetadata_keys {md : JsonValue} (h : md.boundedMetadata text = true) :
    ∀ e ∈ md.spread, isReservedMetadataKey text e.1 = false := by
  cases md with
  | obj members =>
    simp only [JsonValue.boundedMetadata, decide_eq_true_eq, List.all_eq_true] at h
    intro e he
    have hentry := h.2 e he
    split at hentry
    · simp only [decide_eq_true_eq] at hentry
      exact hentry.1
    · cases hentry
  | _ => cases h

/-- **The boundary of peer content.** In every run whose replies carry text and metadata within
    the limits, every row written for a peer is within them. In particular none carries the key
    under which the broker presents an injection id, which normalises to itself. -/
theorem peer_content_bounded {log : List (RawEvent × Except Failure Response)}
    (run : Run (Daemon.rawStep env idOf) (fun _ e => repliesBounded env.text e = true)
      (Daemon.initial env) log d) :
    ∀ m ∈ d.db.messages, m.authorType = .claude → m.bounded env.text = true ∧
      (normalizeKey env.text injectionMetadataKey = injectionMetadataKey →
        ∀ md, m.metadata = some md → ∀ e ∈ md.spread, e.1 ≠ injectionMetadataKey) := by
  have hbounded : Bounded env.text d.db := by
    refine run.invariant (P := fun d => Bounded env.text d.db) (fun m hm => ?_)
      fun u e hu he => rawStep_bounds he u hu
    cases hm
  intro m hm hauthor
  refine ⟨hbounded m hm hauthor, fun hkey md hmd e he hclash => ?_⟩
  have hrow := hbounded m hm hauthor
  simp only [Message.bounded, hmd, Option.all_some, decide_eq_true_eq] at hrow
  have hfree := boundedMetadata_keys hrow.2 e he
  rw [hclash, isReservedMetadataKey, hkey] at hfree
  revert hfree
  decide

/-- In a concrete run, an id is written in decimal. -/
def decimalId (s : String) : Id := s.toList.foldl (fun n c => 10 * n + (c.toNat - '0'.toNat)) 0

/-- `alpha` and `beta` register, `alpha` asks `beta` something in a validated payload, and
    `beta` becomes ready and pulls it. The request is message 8. -/
def requestCarried : List RawEvent :=
  [ (.other (.accept 1) rfl, { nowMs := 1000 }), (.other (.hello 1 .ok) rfl, { nowMs := 1000 }),
    (.other (.frame 1 (.registerSession { sessionId := "alpha", processId := 1 })) rfl,
      { nowMs := 1000 }),
    (.other (.accept 2) rfl, { nowMs := 1000 }), (.other (.hello 2 .ok) rfl, { nowMs := 1000 }),
    (.other (.frame 2 (.registerSession
      { sessionId := "beta", processId := 2, capabilities := ["ack"]
        requestedSessionName := some "beta-name" })) rfl, { nowMs := 1000 }),
    (.other (.frame 2 (.request (.signalReadiness {}))) rfl, { nowMs := 1000 }),
    (.sendMessage 1 (.obj [("to", .str "beta-name"), ("text", .str "please"),
      ("requiresReply", .bool true), ("metadata", .obj [("topic", .str "build")])]),
      { nowMs := 1000 }),
    (.other (.frame 2 (.request (.inbox true none none))) rfl, { nowMs := 1001 }) ]

/-- `beta` answers with the given metadata. -/
def answeredWith (metadata : JsonValue) : List RawEvent :=
  requestCarried ++ [(.replyMessage 2 (.obj [("messageId", .str "8"), ("text", .str "done"),
    ("outcome", .str "completed"), ("metadata", metadata)]), { nowMs := 1002 })]

/-- With an ordinary answer, both rows are within the limits. -/
theorem ordinary_answer_bounded :
    let d := (runAll (Daemon.rawStep plainEnv decimalId) (Daemon.initial plainEnv)
      (answeredWith (.obj [("status", .str "ok")]))).2
    (d.db.messages.map fun m => (m.authorType, m.text)) =
        [(.claude, "please"), (.claude, "done")] ∧
      ∀ m ∈ d.db.messages, m.authorType = .claude → m.bounded plainEnv.text = true := by
  intro d
  have hrun : Run (Daemon.rawStep plainEnv decimalId)
      (fun _ e => repliesBounded plainEnv.text e = true) (Daemon.initial plainEnv) _ d :=
    Run.of_runAll (answeredWith (.obj [("status", .str "ok")])) (by decide +kernel)
  exact ⟨by decide +kernel, fun m hm hauthor => (peer_content_bounded hrun m hm hauthor).1⟩

/-- `beta` answers under the broker's own metadata key, and the row is stored. -/
theorem reply_forges_injection_id :
    ∃ log d, Run (Daemon.rawStep plainEnv decimalId) Any (Daemon.initial plainEnv) log d ∧
      ∃ m ∈ d.db.messages, m.authorType = .claude ∧ m.bounded plainEnv.text = false ∧
        ∃ md, m.metadata = some md ∧ md.field? injectionMetadataKey = some (.str "forged") := by
  refine ⟨_, _, Run.of_events (Daemon.rawStep plainEnv decimalId) (Daemon.initial plainEnv)
    (answeredWith (.obj [(injectionMetadataKey, .str "forged")])), ?_⟩
  have hstored : ∃ m ∈ (runAll (Daemon.rawStep plainEnv decimalId) (Daemon.initial plainEnv)
      (answeredWith (.obj [(injectionMetadataKey, .str "forged")]))).2.db.messages,
      m.authorType = .claude ∧ m.bounded plainEnv.text = false ∧
        m.metadata = some (.obj [(injectionMetadataKey, .str "forged")]) := by
    decide +kernel
  obtain ⟨m, hm, hauthor, hout, hmd⟩ := hstored
  exact ⟨m, hm, hauthor, hout, _, hmd, rfl⟩

end Proof
end XBus
