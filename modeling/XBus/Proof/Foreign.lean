import XBus.Proof.Mail

/-!
# Calls by somebody else

An ack, a reply or a redelivery acts on one message. It can write to the mail only for a caller who
is the recipient, at the current epoch, to whom the message was presented at that epoch
(`Entitled`). Every other call leaves all tables but the audit trail as they are
(`unentitled_auditTrail`), whatever message and whatever injection id it names. An answer from a
receipt or a key that is already there writes nothing either.
-/

set_option autoImplicit false

namespace XBus

open Lib

/-- The caller and the message of an ack, a reply or a redelivery. -/
def actsOn : Op → Option (SessionAuthority × Id)
  | .ack auth input => some (auth, input.messageId)
  | .reply auth input => some (auth, input.messageId)
  | .redeliver auth mid => some (auth, mid)
  | _ => none

/-- The message is addressed to the caller, whose epoch is the current one, and an injection of it
    for that session and epoch is on record. -/
structure Entitled (b : Broker) (auth : SessionAuthority) (mid : Id) : Prop where
  recipient : ∃ m, b.message? mid = some m ∧ m.recipientSessionId = auth.sessionId
  current : b.epochOf auth.sessionId = some auth.epoch
  injected : ∃ i ∈ b.injections, i.messageId = mid ∧ i.recipientSessionId = auth.sessionId ∧
    i.recipientEpoch = auth.epoch

/-- The tables of the mail are as they were. -/
structure MailUntouched (b b' : Broker) : Prop where
  messages : b'.messages = b.messages
  deliveries : b'.deliveries = b.deliveries
  receipts : b'.receipts = b.receipts
  injections : b'.injections = b.injections
  threads : b'.threads = b.threads
  threadParticipants : b'.threadParticipants = b.threadParticipants
  threadSequences : b'.threadSequences = b.threadSequences
  recipientSequences : b'.recipientSequences = b.recipientSequences

namespace Proof

variable {env : Env} {mom : Moment} {now : Iso} {auth : SessionAuthority} {b : Broker}

theorem AuditTrail.mailUntouched {b b' : Broker} (h : AuditTrail b b') : MailUntouched b b' := by
  obtain ⟨es, n, rfl⟩ := h
  exact ⟨rfl, rfl, rfl, rfl, rfl, rfl, rfl, rfl⟩

/-- An authorisation is an injection of the message, for the caller. -/
theorem authorize_row {op : ReceiptOp} {mid : Id} {sid : SessionId} {epoch : Nat}
    {given : Option Id} {i : Injection} (h : authorize now op mid sid epoch given b = .ok i) :
    i ∈ b.injections ∧ i.messageId = mid ∧ i.recipientSessionId = sid ∧
      i.recipientEpoch = epoch := by
  unfold authorize at h
  cases hrow : b.authorizingInjection mid sid epoch given with
  | none => simp [hrow] at h
  | some row =>
    simp only [hrow] at h
    split_ifs at h with hmid hsid hepoch
    simp only [Except.ok.injEq] at h
    subst h
    refine ⟨?_, not_not.mp hmid, not_not.mp hsid, not_not.mp hepoch⟩
    cases given with
    | some id => exact List.mem_of_find?_eq_some hrow
    | none =>
      have hmem := List.mem_of_head? hrow
      rw [List.mem_insertionSort] at hmem
      exact (List.mem_filter.mp hmem).1

theorem injected_of_authorized (hreq : env.requireReceipt = true) {op : ReceiptOp} {mid : Id}
    {given o : Option Id} {b' : Broker}
    (h : authorizeIfRequired env now op mid auth given b = (.ok o, b')) :
    ∃ i ∈ b.injections, i.messageId = mid ∧ i.recipientSessionId = auth.sessionId ∧
      i.recipientEpoch = auth.epoch := by
  obtain ⟨-, hgranted⟩ := authorizeIfRequired_ok.mp h
  rw [if_pos hreq] at hgranted
  obtain ⟨i, hi, -⟩ := hgranted
  obtain ⟨hmem, hrow⟩ := authorize_row hi
  exact ⟨i, hmem, hrow⟩

/-- A call behind its two fences: only what the body commits can go beyond the audit trail. -/
theorem fenced_auditTrail {α : Type} {x : BrokerCall α} {op : Operation}
    (hx : b.epochOf auth.sessionId = some auth.epoch → ∀ a b', x b =
    (.ok a, b') → AuditTrail b b') :
    AuditTrail b ((do
      assertAllowed auth.role op
      assertCurrentEpoch auth
      Call.transaction x : BrokerCall α) b).2 := by
  refine Respects.bind_at (assertAllowed_respects b) fun _ t hallowed => ?_
  obtain ⟨-, rfl⟩ := Call.require_ok.mp hallowed
  refine Respects.bind_at (assertCurrentEpoch_auditTrail b) fun _ t hepoch => ?_
  obtain ⟨hcurrent, rfl⟩ := assertCurrentEpoch_ok.mp hepoch
  exact Respects.transaction_at (hx hcurrent)

theorem ack_unentitled (hreq : env.requireReceipt = true) {input : AckInput}
    (h : ¬ Entitled b auth input.messageId) : AuditTrail b (ack env now auth input b).2 := by
  refine fenced_auditTrail fun hcurrent r b' hok => ?_
  simp only [ackTransaction, Call.get_bind, Call.bind_ok, Call.orThrow_ok, Call.require_ok] at hok
  obtain ⟨msg, _, ⟨hmsg, rfl⟩, _, _, ⟨hto, rfl⟩, hok⟩ := hok
  cases hreceipt : b.receipts.find? fun r => r.messageId = input.messageId ∧
      r.receiverSessionId = auth.sessionId ∧ r.receiptType = .ack with
  | some existing =>
    simp only [hreceipt, Call.bind_ok, Call.requireElse_ok, Call.orThrow_ok, Call.pure_ok] at hok
    obtain ⟨_, _, ⟨-, rfl⟩, _, _, ⟨-, rfl⟩, -, rfl⟩ := hok
    exact IsFrame.refl _
  | none =>
    simp only [hreceipt] at hok
    obtain ⟨o, _, hauth, -⟩ := Call.bind_ok.mp hok
    exact absurd ⟨⟨msg, hmsg, hto⟩, hcurrent, injected_of_authorized hreq hauth⟩ h

theorem reply_unentitled (hreq : env.requireReceipt = true) {input : ReplyInput}
    (h : ¬ Entitled b auth input.messageId) : AuditTrail b (reply env now auth input b).2 := by
  refine fenced_auditTrail fun hcurrent r b' hok => ?_
  simp only [replyTransaction, Call.get_bind, Call.bind_ok, Call.orThrow_ok, Call.require_ok] at hok
  obtain ⟨orig, _, ⟨horig, rfl⟩, _, _, ⟨hto, rfl⟩, hok⟩ := hok
  cases hdup : b.duplicateOf auth.sessionId input.idempotencyKey with
  | some dup =>
    simp only [hdup, Call.pure_ok] at hok
    exact hok.2 ▸ IsFrame.refl _
  | none =>
    simp only [hdup] at hok
    obtain ⟨o, _, hauth, -⟩ := Call.bind_ok.mp hok
    exact absurd ⟨⟨orig, horig, hto⟩, hcurrent, injected_of_authorized hreq hauth⟩ h

/-- A redelivery asks for an injection at the epoch only. That it is the caller's is because the
    injections of a message are its recipient's. -/
theorem redeliver_unentitled (inv : MailInv b) {mid : Id} (h : ¬ Entitled b auth mid) :
    AuditTrail b (redeliver env now auth mid b).2 := by
  refine fenced_auditTrail fun hcurrent r b' hok => ?_
  simp only [Call.get_bind] at hok
  cases hmsg : b.message? mid with
  | none =>
    simp only [hmsg, Call.pure_ok] at hok
    exact hok.2 ▸ IsFrame.refl _
  | some m =>
    simp only [hmsg] at hok
    split at hok
    · exact (Call.pure_ok.mp hok).2 ▸ IsFrame.refl _
    · rename_i hto
      split at hok
      · simp only [Call.modify_bind, Call.pure_ok] at hok
        exact hok.2 ▸ ⟨_, _, rfl⟩
      · rename_i hlogical
        obtain ⟨i, hi, rfl, hepoch⟩ := row_of_maxLogical hlogical
        have hm : m.messageId = i.messageId := by simpa using List.find?_some hmsg
        have haddressed := inv.addressed_of_mem (List.mem_of_find?_eq_some hmsg)
        rw [hm] at haddressed
        have hsid := inv.addressed_unique (inv.rows i hi) haddressed
        exact absurd ⟨⟨m, hmsg, not_not.mp hto⟩, hcurrent, i, hi, rfl, hsid.trans (not_not.mp hto),
          hepoch⟩ h

theorem unentitled_auditTrail (hreq : env.requireReceipt = true) (inv : MailInv b) {op : Op}
    {mid : Id} (hop : actsOn op = some (auth, mid)) (h : ¬ Entitled b auth mid) :
    AuditTrail b (exec env mom op b).2 := by
  cases op <;> simp only [actsOn, Option.some.injEq, Prod.mk.injEq, reduceCtorEq] at hop
  case ack =>
    obtain ⟨rfl, rfl⟩ := hop
    rw [exec, Call.map_snd]
    exact ack_unentitled hreq h
  case reply =>
    obtain ⟨rfl, rfl⟩ := hop
    rw [exec, Call.map_snd]
    exact reply_unentitled hreq h
  case redeliver =>
    obtain ⟨rfl, rfl⟩ := hop
    rw [exec, Call.map_snd]
    exact redeliver_unentitled inv h

/-- **Only the addressed recipient can act on a delivery.** -/
theorem foreign_call_untouched (hreq : env.requireReceipt = true) (hreach : Reachable env Any b)
    {op : Op} {mid : Id} (hop : actsOn op = some (auth, mid))
    (foreign : (∀ m, b.message? mid = some m → m.recipientSessionId ≠ auth.sessionId) ∨
      b.epochOf auth.sessionId ≠ some auth.epoch ∨
      ∀ i ∈ b.injections, ¬ (i.messageId = mid ∧ i.recipientSessionId = auth.sessionId ∧
        i.recipientEpoch = auth.epoch)) :
    MailUntouched b (exec env mom op b).2 := by
  refine (unentitled_auditTrail hreq (mailInv_of_reachable hreach) hop fun h => ?_).mailUntouched
  rcases foreign with hto | hepoch | hinjected
  · obtain ⟨m, hm, heq⟩ := h.recipient
    exact hto m hm heq
  · exact hepoch h.current
  · obtain ⟨i, hi, hrow⟩ := h.injected
    exact hinjected i hi hrow

/-- `alpha` acks what it sent to `beta`, naming the injection that `beta` was given. -/
theorem senders_ack_untouched :
    let b := (runAll (step plainEnv) (initial plainEnv) requestPulled).2
    b.injections.map (·.injectionId) ≠ [] ∧
      MailUntouched b (exec plainEnv { nowMs := 1002 } (.ack (component "alpha" .mcp 1 1)
        { messageId := 8, accept := true, injectionId := b.injections.head?.map (·.injectionId) })
        b).2 := by
  refine ⟨by decide +kernel, foreign_call_untouched rfl
    ⟨_, Run.of_events (step plainEnv) (initial plainEnv) requestPulled⟩ rfl (.inl ?_)⟩
  intro m hm
  have hto : ((runAll (step plainEnv) (initial plainEnv) requestPulled).2.message? 8).map
      (·.recipientSessionId) = some "beta" := by decide +kernel
  rw [hm, Option.map_some, Option.some.injEq] at hto
  rw [hto]
  decide

end Proof

end XBus
