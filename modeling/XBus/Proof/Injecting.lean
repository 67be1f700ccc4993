import XBus.Proof.Moves

/-!
# The spec of one injection

`injectOne` is where a body is put in front of a session, and every fact about presentation
comes down to what it does to two tables. `InjectSpec` says it once; the loops of the pulls
are followed with it and never unfolded.
-/

set_option autoImplicit false

namespace XBus
namespace Proof

open Lib

variable {env : Env} {now : Iso} {auth : SessionAuthority} {ck : CheckpointId}
  {audited : Bool} {m : Message} {b : Broker}

/-- The injection row a pull records. -/
def pulledRow (env : Env) (now : Iso) (auth : SessionAuthority) (ck : CheckpointId) (mid id : Id) :
    Injection :=
  { injectionId := id, messageId := mid, recipientSessionId := auth.sessionId
    recipientEpoch := auth.epoch, checkpointId := ck, logicalInjectionNumber := 1
    injectedAt := now, expiresAt := now.plus env.injectionTtlMs }

/-- The message was presented before at this epoch, or under this checkpoint id. -/
def SeenBefore (b : Broker) (auth : SessionAuthority) (ck : CheckpointId) (mid : Id) : Prop :=
  ∃ i ∈ b.injections, i.messageId = mid ∧
    ((i.recipientEpoch = auth.epoch ∧ i.logicalInjectionNumber = 1) ∨ i.checkpointId = ck)

/-- How a delivery may come out of an injection of message `mid` at epoch `e`. -/
structure InjectedDelivery (mid : Id) (e : Nat) (d d' : Delivery) : Prop where
  messageId : d'.messageId = d.messageId
  recipient : d'.recipientSessionId = d.recipientSessionId
  other : d.messageId ≠ mid → d' = d
  settled : d.state = .completed → d' = d
  flying : d'.state = .transportWritten → d' = d ∨ d'.targetGeneration = some e
  landed : d'.state = .transportWritten ∨ d'.state = .completed ∨ d' = d

/-- What `injectOne` does: nothing outside deliveries, injections and bookkeeping; the
    message's delivery goes into flight at the caller's epoch (or through it, to
    `completed`); and an id is answered exactly with a new row, where no row of that
    (message, epoch) existed. -/
structure InjectSpec (env : Env) (now : Iso) (auth : SessionAuthority) (ck : CheckpointId)
    (m : Message) (b : Broker) (r : Option Id × Broker) : Prop where
  rest : MailOnly b r.2
  deliveries : ∃ g, r.2.deliveries = b.deliveries.map g ∧
    ∀ d, InjectedDelivery m.messageId auth.epoch d (g d)
  silent : r.1 = none → r.2.injections = b.injections ∧
    (r.2 = b ∨ SeenBefore b auth ck m.messageId)
  presented : ∀ id, r.1 = some id → b.nextId ≤ id ∧ id < r.2.nextId ∧
    r.2.injections = b.injections ++ [pulledRow env now auth ck m.messageId id] ∧
    ∀ i ∈ b.injections, ¬ (i.messageId = m.messageId ∧ i.recipientEpoch = auth.epoch ∧
      i.logicalInjectionNumber = 1)

/-! ## `issue` -/

theorem issue_none {mid : Id} {sid : SessionId} {epoch logical : Nat} {b' : Broker}
    (h : issue env now mid sid epoch ck logical b = (none, b')) :
    Bookkeeping b b' ∧ ∃ i ∈ b.injections, i.messageId = mid ∧
      ((i.recipientEpoch = epoch ∧ i.logicalInjectionNumber = logical) ∨
        i.checkpointId = ck) := by
  unfold issue at h
  split at h
  · rename_i hany
    obtain ⟨-, rfl⟩ := Prod.mk.inj h
    obtain ⟨i, hi, hk⟩ := List.any_eq_true.mp hany
    simp only [decide_eq_true_eq] at hk
    exact ⟨.rfl', i, hi, hk.1, .inl hk.2⟩
  · split at h
    · rename_i hany
      obtain ⟨-, rfl⟩ := Prod.mk.inj h
      obtain ⟨i, hi, hk⟩ := List.any_eq_true.mp hany
      simp only [decide_eq_true_eq] at hk
      exact ⟨.mint, i, hi, hk.1, .inr hk.2⟩
    · simp at h

theorem issue_some {mid : Id} {sid : SessionId} {epoch logical : Nat} {id : Id} {b' : Broker}
    (h : issue env now mid sid epoch ck logical b = (some id, b')) :
    id = b.nextId ∧
      b' = { b.mint with injections := b.injections ++ [{
        injectionId := id, messageId := mid, recipientSessionId := sid
        recipientEpoch := epoch, checkpointId := ck, logicalInjectionNumber := logical
        injectedAt := now, expiresAt := now.plus env.injectionTtlMs }] } ∧
      (∀ i ∈ b.injections, ¬ (i.messageId = mid ∧ i.recipientEpoch = epoch ∧
        i.logicalInjectionNumber = logical)) ∧
      ∀ i ∈ b.injections, ¬ (i.messageId = mid ∧ i.checkpointId = ck) := by
  unfold issue at h
  split at h
  · simp at h
  · rename_i hlog
    split at h
    · simp at h
    · rename_i hck
      obtain ⟨hid, rfl⟩ := Prod.mk.inj h
      obtain rfl := Option.some.inj hid
      refine ⟨rfl, rfl, fun i hi hk => hlog ?_, fun i hi hk => hck ?_⟩
      · exact List.any_eq_true.mpr ⟨i, hi, by simpa using hk⟩
      · exact List.any_eq_true.mpr ⟨i, hi, by simpa using hk⟩

theorem issue_deliveries {mid : Id} {sid : SessionId} {epoch logical : Nat} :
    (issue env now mid sid epoch ck logical b).2.deliveries = b.deliveries := by
  unfold issue
  split
  · rfl
  · split
    · rfl
    · rfl

/-! ## Completing on injection -/

/-- Completing after an injection only touches the message's own delivery in flight. -/
theorem complete_spec (b : Broker) (mid : Id) (ra rr : Bool) (now : Iso) :
    (b.completeIfNoResponseRequired mid ra rr now).injections = b.injections ∧
    ∃ g : Delivery → Delivery,
      (b.completeIfNoResponseRequired mid ra rr now).deliveries = b.deliveries.map g ∧
      ∀ d, (g d).messageId = d.messageId ∧ (g d).recipientSessionId = d.recipientSessionId ∧
        (g d = d ∨ (d.messageId = mid ∧ d.state = .transportWritten ∧
          (g d).state = .completed)) := by
  unfold Broker.completeIfNoResponseRequired
  split
  · exact ⟨rfl, id, by simp, fun d => ⟨rfl, rfl, .inl rfl⟩⟩
  · split
    · refine ⟨rfl, _, rfl, fun d => ?_⟩
      split
      · rename_i hp
        simp only [decide_eq_true_eq] at hp
        exact ⟨rfl, rfl, .inr ⟨hp.1, hp.2.1, rfl⟩⟩
      · exact ⟨rfl, rfl, .inl rfl⟩
    · exact ⟨rfl, id, by simp, fun d => ⟨rfl, rfl, .inl rfl⟩⟩

/-! ## The spec -/

/-- The delivery of a message as `markTransportWritten` leaves it. -/
private def marked (mid : Id) (deadline : Option Iso) (epoch : Nat) (now : Iso) (d : Delivery) :
    Delivery :=
  if d.messageId = mid ∧ d.state.waiting then
    { d with state := .transportWritten, leaseExpiresAt := deadline
             targetGeneration := some epoch, updatedAt := now }
  else d

private theorem marked_injected {mid : Id} {deadline : Option Iso} {epoch : Nat} {now : Iso}
    (d : Delivery) : InjectedDelivery mid epoch d (marked mid deadline epoch now d) := by
  unfold marked
  split
  · rename_i hp
    refine ⟨rfl, rfl, fun hne => absurd hp.1 hne, fun hc => ?_, fun _ => .inr rfl, .inl rfl⟩
    exact absurd hp.2 (by simp [DeliveryState.waiting, hc])
  · exact ⟨rfl, rfl, fun _ => rfl, fun _ => rfl, fun _ => .inl rfl, .inr (.inr rfl)⟩

/-- Completing after marking is still an injection of the delivery. -/
private theorem InjectedDelivery.complete {mid : Id} {e : Nat} {d d' d'' : Delivery}
    (h : InjectedDelivery mid e d d') (hm : d''.messageId = d'.messageId)
    (hr : d''.recipientSessionId = d'.recipientSessionId)
    (hc : d'' = d' ∨ (d'.messageId = mid ∧ d'.state = .transportWritten ∧
      d''.state = .completed)) : InjectedDelivery mid e d d'' := by
  rcases hc with rfl | ⟨hmid, htw, hcomp⟩
  · exact h
  · refine ⟨hm.trans h.messageId, hr.trans h.recipient, fun hne => ?_, fun hset => ?_,
      fun hfly => ?_, .inr (.inl hcomp)⟩
    · exact absurd (h.messageId.symm.trans hmid) hne
    · rw [h.settled hset, hset] at htw
      cases htw
    · rw [hcomp] at hfly
      cases hfly

/-- The optional audit row of a pull. -/
private theorem bookkeeping_audited :
    Bookkeeping b (if audited then
      b.audit .transportWritten (some auth.sessionId) (some m.messageId) else b) := by
  split
  · exact .audit
  · exact .rfl'

theorem injectOne_spec (env : Env) (now : Iso) (auth : SessionAuthority) (ck : CheckpointId)
    (audited : Bool) (m : Message) (b : Broker) :
    InjectSpec env now auth ck m b (injectOne env now auth ck audited m b) := by
  unfold injectOne
  split
  · -- The delivery is waiting: it is marked, then an injection is asked for.
    set b₁ := (b.markTransportWritten m.messageId (ackDeadlineFor env now m.requiresAck)
      auth.epoch now).mint with hb₁
    have hrest₁ : MailOnly b b₁ :=
      IsFrame.trans MailOnly.updateDeliveries (.of_bookkeeping .mint)
    have hdel₁ : b₁.deliveries = b.deliveries.map
        (marked m.messageId (ackDeadlineFor env now m.requiresAck) auth.epoch now) := by
      simp [hb₁, Broker.markTransportWritten, Broker.updateDeliveries, Broker.mint,
        updateWhere, marked]
    have hids₁ : b.nextId ≤ b₁.nextId := hrest₁.ids
    dsimp only
    rcases hiss : issue env now m.messageId auth.sessionId auth.epoch ck 1 b₁ with ⟨_ | id, b₂⟩
    · -- Seen before: the body is suppressed, the delivery stays marked.
      obtain ⟨hissued, i, hi, hm, hseen⟩ := issue_none hiss
      have haudit : Bookkeeping b₂ (if audited then
          b₂.audit .transportWritten (some auth.sessionId) (some m.messageId) else b₂) :=
        bookkeeping_audited
      refine ⟨?_, ?_, fun _ => ⟨?_, .inr ⟨i, hi, hm, hseen⟩⟩, fun id h => by cases h⟩
      · exact IsFrame.trans hrest₁ (.of_bookkeeping
          (IsFrame.trans (IsFrame.trans hissued haudit) .audit))
      · exact ⟨_, haudit.deliveries.trans (hissued.deliveries.trans hdel₁), marked_injected⟩
      · exact haudit.injections.trans hissued.injections
    · -- A new row: the body is presented, and a delivery that owes nothing completes.
      obtain ⟨hid, hb₂, hnew, -⟩ := issue_some hiss
      have hrow : b₂.injections =
          b₁.injections ++ [pulledRow env now auth ck m.messageId id] := by rw [hb₂]; rfl
      have hsame : b₂.deliveries = b₁.deliveries := by rw [hb₂]; rfl
      have hrest₂ : MailOnly b₁ b₂ := by
        rw [hb₂]
        exact IsFrame.trans (.of_bookkeeping .mint) MailOnly.injections
      have hlt : id < b₂.nextId := by rw [hid, hb₂]; exact Nat.lt_succ_self _
      show InjectSpec env now auth ck m b (some id, Broker.completeIfNoResponseRequired
        (if audited then b₂.audit .transportWritten (some auth.sessionId) (some m.messageId)
          else b₂) m.messageId m.requiresAck m.requiresReply now)
      set b₃ := if audited then
          b₂.audit .transportWritten (some auth.sessionId) (some m.messageId) else b₂
      have haudit : Bookkeeping b₂ b₃ := bookkeeping_audited
      obtain ⟨hinj, g, hdel, hg⟩ :=
        complete_spec b₃ m.messageId m.requiresAck m.requiresReply now
      set b₄ := b₃.completeIfNoResponseRequired m.messageId m.requiresAck m.requiresReply now
      have hcomp : MailOnly b₃ b₄ := MailOnly.complete
      have hrest₃ : MailOnly b b₃ :=
        IsFrame.trans hrest₁ (IsFrame.trans hrest₂ (.of_bookkeeping haudit))
      refine ⟨IsFrame.trans hrest₃ hcomp, ?_, fun h => (by cases h), ?_⟩
      · refine ⟨g ∘ marked m.messageId (ackDeadlineFor env now m.requiresAck) auth.epoch now,
          ?_, fun d => (marked_injected d).complete (hg _).1 (hg _).2.1 (hg _).2.2⟩
        rw [hdel, haudit.deliveries, hsame, hdel₁, List.map_map]
      · intro id' hid'
        obtain rfl := Option.some.inj hid'
        refine ⟨hid ▸ hids₁, ?_, ?_, hnew⟩
        · exact Nat.lt_of_lt_of_le hlt (haudit.ids.trans hcomp.ids)
        · exact hinj.trans (haudit.injections.trans hrow)
  · exact ⟨IsFrame.refl b, ⟨id, by simp, fun d =>
      ⟨rfl, rfl, fun _ => rfl, fun _ => rfl, fun _ => .inl rfl, .inr (.inr rfl)⟩⟩,
      fun _ => ⟨rfl, .inl rfl⟩, fun id h => by cases h⟩

end Proof
end XBus
