import XBus.Proof.Mail

/-!
# Presentation: what is in flight, and who has seen what

A body is in flight when its delivery is `transport_written`. The invariant is that it was
presented at the epoch its recipient is at *now*: the delivery carries that epoch, and there
is an injection row for it. Only an injection takes a delivery into flight, and whatever
moves a session's epoch first takes its deliveries out of flight.

The invariant is kept by an injection only if a refused duplicate is a duplicate *of this
epoch*. `issue` also refuses a checkpoint id it has seen with the message before, at
whichever epoch, and the pull marks the delivery all the same; so the invariant is proved of
runs whose pulls do not carry a checkpoint id over into another epoch.
-/

set_option autoImplicit false

namespace XBus
namespace Proof

open Lib

variable {env : Env} {k : Kind} {b b' : Broker}

/-! ## Staying in flight -/

/-- What is in flight after was in flight before, and its recipient is where it was. -/
def StaysInFlight (b b' : Broker) : Prop :=
  ∀ d' ∈ b'.deliveries, d'.state = .transportWritten → d' ∈ b.deliveries ∧
    ∀ e, b.epochOf d'.recipientSessionId = some e → b'.epochOf d'.recipientSessionId = some e

theorem StaysInFlight.of_grounded {g : Delivery → Delivery}
    (deliveries : b'.deliveries = b.deliveries.map g) (hg : ∀ d, Grounded d (g d))
    (epochs : ∀ d ∈ b.deliveries, (g d).state = .transportWritten → ∀ e,
      b.epochOf d.recipientSessionId = some e → b'.epochOf d.recipientSessionId = some e) :
    StaysInFlight b b' := by
  intro d' hd' htw
  rw [deliveries] at hd'
  obtain ⟨d, hd, rfl⟩ := List.mem_map.mp hd'
  have heq := (hg d).flying htw
  rw [heq]
  exact ⟨hd, epochs d hd htw⟩

theorem StaysInFlight.of_eq (deliveries : b'.deliveries = b.deliveries)
    (epochs : ∀ sid e, b.epochOf sid = some e → b'.epochOf sid = some e) : StaysInFlight b b' :=
  fun d' hd' _ => ⟨deliveries ▸ hd', epochs d'.recipientSessionId⟩

theorem StaysInFlight.of_names (h : NamesOnly b b') : StaysInFlight b b' :=
  .of_eq h.deliveries fun sid _ he => (epochOf_links h.links sid).trans he

theorem StaysInFlight.of_posted {m : Message} (h : Posted b b' m) : StaysInFlight b b' := by
  intro d' hd' htw
  obtain ⟨id, now, hdel⟩ := h.deliveries
  rw [hdel] at hd'
  rcases List.mem_append.mp hd' with hd' | hd'
  · exact ⟨hd', fun e he => (epochOf_core h.sessions _).trans he⟩
  · rw [List.mem_singleton.mp hd'] at htw
    cases htw

/-- Only an injection takes a delivery into flight. -/
theorem Move.staysInFlight (h : Move env k b b') (hk : ∀ c, k ≠ .inject c) :
    StaysInFlight b b' := by
  cases h with
  | note h => exact .of_names (.of_bookkeeping h)
  | restate p f key grounded open' =>
    exact .of_grounded rfl (fun d => .ite (key d) (grounded d) (open' d)) fun _ _ _ _ he => he
  | redrive mid f found state key grounded =>
    intro d' hd' htw
    obtain ⟨d, hd, rfl⟩ := mem_updateWhere.mp hd'
    split at htw
    · exact absurd htw (grounded d)
    · rename_i hne
      rw [if_neg hne]
      exact ⟨hd, fun _ he => he⟩
  | consume => exact .of_eq rfl fun _ _ he => he
  | inject => exact absurd rfl (hk _)
  | reissue now auth m =>
    exact .of_eq issue_deliveries fun sid _ he =>
      (epochOf_core (MailOnly.issue (b := b.mint)).sessions sid).trans he
  | post m h => exact .of_posted h
  | answer m h => exact .of_posted h
  | create input absent =>
    obtain ⟨as, es, n, hb', -⟩ := createSession_eq b env input
    rw [hb']
    exact .of_eq rfl fun sid e he => epochOf_append rfl he
  | dormant => exact .of_eq rfl fun sid e he => epochOf_append rfl he
  | @advance _ now sid resume s found =>
    -- The session whose epoch moves has nothing left in flight.
    obtain ⟨is, as, es, n, hb', -⟩ := advanceEpoch_eq b env now sid (s.activeEpoch + 1) resume
    have hdel : (b.advanceEpoch env now sid (s.activeEpoch + 1) resume).deliveries =
        b.deliveries.map (requeued sid now fun _ => true) := by rw [hb']
    refine .of_grounded hdel requeued_grounded fun d hd htw e he => ?_
    have hne : d.recipientSessionId ≠ sid := by
      intro hto
      have heq := (requeued_grounded d).flying htw
      rw [heq] at htw
      simp [requeued, hto, htw] at heq
      rw [← heq] at htw
      cases htw
    rw [Broker.epochOf, advanceEpoch_session?]
    simpa [hne, Broker.epochOf] using he
  | join now input =>
    have hdel : (b.joinEpoch now input).deliveries = b.deliveries.map (requeued input.sessionId now
        fun d => d.leaseExpiresAt.all fun t => t.le now) := by rw [joinEpoch_eq]
    refine .of_grounded hdel requeued_grounded fun d hd htw e he => ?_
    rw [Broker.epochOf, joinEpoch_session?]
    obtain ⟨s, hs, hse⟩ := Option.map_eq_some_iff.mp he
    rw [hs]
    by_cases hsid : d.recipientSessionId = input.sessionId
    · simpa [hsid, joined] using hse
    · simpa [hsid] using hse
  | component => exact .of_eq rfl fun _ _ he => he
  | redirect => exact .of_eq rfl fun _ _ he => he
  | claim => exact .of_names .claim
  | rename => exact .of_names .rename
  | operatorRename => exact .of_names .operatorRename
  | reclaim => exact .of_names (IsFrame.trans NamesOnly.forfeit .rename)
  | tombstone sid now =>
    obtain ⟨as, es, ds, hb', g, rfl, hg⟩ := tombstone_eq b sid now
    rw [hb']
    refine .of_grounded rfl hg fun d _ _ e he => (epochOf_updateWhere rfl ?_ _).trans he
    exact fun _ => rfl
  | lapse => exact .of_names .lapse
  | close auth conn =>
    refine .of_eq rfl fun sid e he => (epochOf_updateWhere rfl ?_ sid).trans he
    exact fun _ => rfl
  | remove sid now =>
    obtain ⟨g, hdel, hg⟩ := deleteSession_deliveries b sid now
    refine .of_grounded hdel (fun d => (hg d).1) fun d _ htw e he => ?_
    have hne : d.recipientSessionId ≠ sid := fun hto => (hg d).2 hto htw
    rw [Broker.epochOf, deleteSession_session? hne]
    exact he
  | operator =>
    unfold Broker.ensureOperatorSession
    split
    · exact .of_eq rfl fun sid e he => epochOf_append rfl he
    · refine .of_eq rfl fun sid e he => (epochOf_updateWhere rfl ?_ sid).trans he
      exact fun _ => rfl

/-! ## The invariant -/

/-- The delivery was presented at the epoch its recipient is at now. -/
def InFlight (b : Broker) (d : Delivery) : Prop :=
  ∃ e, b.epochOf d.recipientSessionId = some e ∧ d.targetGeneration = some e ∧
    ∃ i ∈ b.injections, i.messageId = d.messageId ∧
      i.recipientSessionId = d.recipientSessionId ∧ i.recipientEpoch = e

def FlightInv (b : Broker) : Prop :=
  ∀ d ∈ b.deliveries, d.state = .transportWritten → InFlight b d

theorem FlightInv.of_stays (inv : FlightInv b) (h : StaysInFlight b b')
    (kept : ∀ i ∈ b.injections, ∃ i' ∈ b'.injections, SameRow i i') : FlightInv b' := by
  intro d hd htw
  obtain ⟨hmem, hepoch⟩ := h d hd htw
  obtain ⟨e, he, hgen, i, hi, hm, hr, hie⟩ := inv d hmem htw
  obtain ⟨i', hi', hsame⟩ := kept i hi
  rw [SameRow] at hsame
  exact ⟨e, hepoch e he, hgen, i', hi', by rw [hsame]; exact hm, by rw [hsame]; exact hr,
    by rw [hsame]; exact hie⟩

section Inject

variable {now : Iso} {auth : SessionAuthority} {ck : CheckpointId} {m : Message}
  {r : Option Id × Broker}

/-- An injection under a clean checkpoint id leaves everything as it was, or a row of the
    message at the caller's epoch: the new one, or the one it duplicates. -/
theorem InjectSpec.row (h : InjectSpec env now auth ck m b r) (mail : MailInv b)
    (addressed : Addressed b auth.sessionId m.messageId)
    (apart : ∀ i ∈ b.injections, i.messageId = m.messageId → i.checkpointId = ck →
      i.recipientEpoch = auth.epoch) :
    r.2 = b ∨ ∃ i ∈ r.2.injections, i.messageId = m.messageId ∧
      i.recipientSessionId = auth.sessionId ∧ i.recipientEpoch = auth.epoch := by
  cases hid : r.1 with
  | some id =>
    refine .inr ⟨pulledRow env now auth ck m.messageId id, ?_, rfl, rfl, rfl⟩
    rw [(h.presented id hid).2.2.1]
    exact List.mem_append_right _ (List.mem_singleton_self _)
  | none =>
    obtain ⟨-, hsame | ⟨i, hi, hm, hseen⟩⟩ := h.silent hid
    · exact .inl hsame
    · refine .inr ⟨i, h.injections_mono hi, hm, ?_, ?_⟩
      · exact mail.addressed_unique (hm ▸ mail.rows i hi) addressed
      · rcases hseen with ⟨hepoch, -⟩ | hck
        · exact hepoch
        · exact apart i hi hm hck

theorem FlightInv.inject (inv : FlightInv b) (mail : MailInv b)
    (h : InjectSpec env now auth ck m b r)
    (current : b.epochOf auth.sessionId = some auth.epoch)
    (addressed : Addressed b auth.sessionId m.messageId)
    (apart : ∀ i ∈ b.injections, i.messageId = m.messageId → i.checkpointId = ck →
      i.recipientEpoch = auth.epoch) : FlightInv r.2 := by
  rcases h.row mail addressed apart with hsame | ⟨i, hi, him, hir, hie⟩
  · rwa [hsame]
  intro d' hd' htw
  obtain ⟨g, hdel, hg⟩ := h.deliveries
  rw [hdel] at hd'
  obtain ⟨d, hd, rfl⟩ := List.mem_map.mp hd'
  rw [InFlight, h.epochOf, (hg d).messageId, (hg d).recipient]
  by_cases hm : d.messageId = m.messageId
  · -- The message's own delivery: it was in flight before, or is now at this epoch.
    have hto : d.recipientSessionId = auth.sessionId :=
      mail.addressed_unique ⟨d, hd, hm, rfl⟩ addressed
    refine ⟨auth.epoch, hto ▸ current, ?_, i, hi, him.trans hm.symm, hir.trans hto.symm, hie⟩
    rcases (hg d).flying htw with hsame | hgen
    · rw [hsame] at htw ⊢
      obtain ⟨e, he, hgen, -⟩ := inv d hd htw
      rw [hto, current] at he
      rw [hgen, he]
    · exact hgen
  · rw [(hg d).other hm] at htw ⊢
    obtain ⟨e, he, hgen, i, hi, hrow⟩ := inv d hd htw
    exact ⟨e, he, hgen, i, h.injections_mono hi, hrow⟩

end Inject

/-- Every move keeps the invariant, provided its injections are clean. -/
theorem Move.flightInv (h : Move env k b b') (hk : k ≠ .inject false) (mail : MailInv b)
    (inv : FlightInv b) : FlightInv b' := by
  by_cases hinj : ∃ c, k = .inject c
  · obtain ⟨c, rfl⟩ := hinj
    cases h with
    | inject now auth ck audited m current addressed minted clean apart =>
      have hc : c = true := by
        cases c
        · exact absurd rfl hk
        · rfl
      exact inv.inject mail (injectOne_spec env now auth ck audited m b) current addressed
        (apart hc)
  · have hstays := Move.staysInFlight h fun c hc => hinj ⟨c, hc⟩
    rcases Move.mail h mail with ⟨m, hposted, -⟩ | hframe
    · exact inv.of_stays hstays fun i hi => ⟨i, hposted.injections ▸ hi, .rfl'⟩
    · exact inv.of_stays hstays hframe.kept

end Proof
end XBus
