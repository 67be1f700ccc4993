import XBus.Proof.Mail

/-!
# The delivery state machine

`protocol/states.ts` draws the machine a delivery is meant to follow; the stores enforce it
statement by statement, each `UPDATE` naming the states it may start from. `Hop` is what these
statements do between them, outside the three places where a delivery goes back to work: a
pull, an operator's replay of accepted work, and a redrive.

A set of states that no hop enters can only be entered through those three. `Backed A` says
this of two databases: what is in `A` after was in `A` before.
-/

set_option autoImplicit false

namespace XBus
namespace Proof

open Lib

variable {env : Env} {mom : Moment} {now : Iso} {auth : SessionAuthority} {k : Kind}
  {b b' : Broker} {A : DeliveryState → Bool}

/-- The transitions of a delivery outside pulls, replays and redrives. -/
inductive Hop : DeliveryState → DeliveryState → Prop
  | accept : Hop .transportWritten .accepted
  | reject : Hop .transportWritten .rejected
  | answer {s : DeliveryState} (h : s = .accepted ∨ s = .transportWritten) : Hop s .completed
  | rearm {s : DeliveryState} (h : s.waiting = true ∨ s = .transportWritten) : Hop s .queued
  | retry : Hop .transportWritten .retryWait
  | lapse {s : DeliveryState} (h : s.waiting = true) : Hop s .expired
  | abandon : Hop .accepted .expired
  | bury {s : DeliveryState}
      (h : s.waiting = true ∨ s = .transportWritten ∨ s = .accepted) : Hop s .deadLetter
  | discard : Hop .deadLetter .cancelled

/-- No hop enters the set. -/
def Sealed (A : DeliveryState → Bool) : Prop := ∀ s t, Hop s t → A t = true → A s = true

/-- In front of the recipient, or past it. -/
def presented (s : DeliveryState) : Bool :=
  s = .transportWritten ∨ s = .accepted ∨ s = .completed

/-- Neither at an end nor accepted. -/
def unsettled (s : DeliveryState) : Bool := s.isTerminal = false ∧ s ≠ .accepted

/-- Not at an end. -/
def outstanding (s : DeliveryState) : Bool := ! s.isTerminal

theorem presented_sealed : Sealed presented := by
  intro s t h ht
  cases h with
  | accept | reject | retry | abandon => rfl
  | answer h => rcases h with rfl | rfl <;> rfl
  | rearm | lapse | bury | discard => simp [presented] at ht

/-- No hop enters the set, and neither does a pull. -/
structure Down (A : DeliveryState → Bool) : Prop where
  hops : Sealed A
  pulls : A .transportWritten = true → A .queued = true ∧ A .retryWait = true

theorem unsettled_down : Down unsettled := by
  refine ⟨fun s t h ht => ?_, fun _ => ⟨rfl, rfl⟩⟩
  cases h with
  | accept | reject | retry => rfl
  | rearm h => cases s <;> simp_all [unsettled, DeliveryState.waiting, DeliveryState.isTerminal]
  | answer | lapse | abandon | bury | discard => simp [unsettled, DeliveryState.isTerminal] at ht

theorem outstanding_down : Down outstanding := by
  refine ⟨fun s t h ht => ?_, fun _ => ⟨rfl, rfl⟩⟩
  cases h with
  | accept | reject | retry | abandon => rfl
  | rearm h => cases s <;> simp_all [outstanding, DeliveryState.waiting, DeliveryState.isTerminal]
  | answer | lapse | bury | discard => simp [outstanding, DeliveryState.isTerminal] at ht

/-- The one state of the machine that the stores never write. -/
theorem dispatching_down : Down (fun s => s = .dispatching) := by
  refine ⟨fun s t h ht => ?_, fun h => ?_⟩
  · cases h <;> simp at ht
  · simp at h

/-! ## Backed -/

/-- A delivery in one of the states after was in one of them before. -/
def Backed (A : DeliveryState → Bool) (b b' : Broker) : Prop :=
  ∀ d' ∈ b'.deliveries, A d'.state = true →
    ∃ d ∈ b.deliveries, Delivery.pair d = Delivery.pair d' ∧ A d.state = true

instance : IsFrame (Backed A) where
  refl _ := fun d' hd' hA => ⟨d', hd', rfl, hA⟩
  trans h h' := fun d'' hd'' hA => by
    obtain ⟨d', hd', hpair', hA'⟩ := h' d'' hd'' hA
    obtain ⟨d, hd, hpair, hA⟩ := h d' hd' hA'
    exact ⟨d, hd, hpair.trans hpair', hA⟩

namespace Backed

theorem of_eq (h : b'.deliveries = b.deliveries) : Backed A b b' :=
  fun d' hd' hA => ⟨d', h ▸ hd', rfl, hA⟩

theorem bookkeeping (h : Bookkeeping b b') : Backed A b b' := of_eq h.deliveries

/-- What is written into the audit trail is backed as it was. -/
theorem audited {t : AuditType} {s : Option SessionId} {m : Option Id} (h : Backed A b b') :
    Backed A b (b'.audit t s m) := h

theorem namesOnly (h : NamesOnly b b') : Backed A b b' := of_eq h.deliveries

theorem of_map {g : Delivery → Delivery} (h : b'.deliveries = b.deliveries.map g)
    (hg : ∀ d ∈ b.deliveries,
      Delivery.pair (g d) = Delivery.pair d ∧ (A (g d).state = true → A d.state = true)) :
    Backed A b b' := by
  intro d' hd' hA
  rw [h] at hd'
  obtain ⟨d, hd, rfl⟩ := List.mem_map.mp hd'
  exact ⟨d, hd, (hg d hd).1.symm, (hg d hd).2 hA⟩

/-- One `UPDATE`: what it matches may only enter the set from the set. -/
theorem update {p : Delivery → Bool} {f : Delivery → Delivery}
    (key : ∀ d, Delivery.pair (f d) = Delivery.pair d)
    (h : ∀ d ∈ b.deliveries, p d = true → A (f d).state = true → A d.state = true) :
    Backed A b (b.updateDeliveries p f) := by
  refine of_map rfl fun d hd => ?_
  by_cases hp : p d = true
  · rw [if_pos hp]
    exact ⟨key d, h d hd hp⟩
  · rw [if_neg hp]
    exact ⟨rfl, id⟩

/-- One `UPDATE` that hops. -/
theorem hop (hA : Sealed A) {p : Delivery → Bool} {f : Delivery → Delivery}
    (key : ∀ d, Delivery.pair (f d) = Delivery.pair d)
    (h : ∀ d, p d = true → Hop d.state (f d).state) :
    Backed A b (b.updateDeliveries p f) :=
  update key fun d _ hp => hA _ _ (h d hp)

/-- A new delivery is queued. -/
theorem posted {m : Message} (hq : A .queued = false) (h : Posted b b' m) : Backed A b b' := by
  intro d' hd' hA
  obtain ⟨id, now, hdel⟩ := h.deliveries
  rw [hdel] at hd'
  rcases List.mem_append.mp hd' with hd' | hd'
  · exact ⟨d', hd', rfl, hA⟩
  · rw [List.mem_singleton.mp hd', hq] at hA
    cases hA

theorem requeue (hA : Sealed A) {sid : SessionId} {abandoned : Delivery → Bool}
    (h : b'.deliveries = b.deliveries.map (requeued sid now abandoned)) : Backed A b b' := by
  refine of_map h fun d _ => ?_
  unfold requeued
  split
  · rename_i hp
    exact ⟨rfl, hA _ _ (.rearm (.inr hp.2.1))⟩
  · exact ⟨rfl, id⟩

theorem tombstone (hA : Sealed A) {sid : SessionId} : Backed A b (b.tombstone sid now) := by
  have hbury : Backed A b (b.updateDeliveries
      (fun d => d.recipientSessionId = sid ∧ (d.state.waiting ∨ d.state = .transportWritten))
      fun d => { d with state := .deadLetter, failureCategory := some .recipientInactive15Days
                        nextAttemptAt := none, leaseExpiresAt := none, updatedAt := now }) := by
    refine hop hA (fun _ => rfl) fun d hp => .bury ?_
    simp only [decide_eq_true_eq] at hp
    exact hp.2.imp_right .inl
  refine IsFrame.trans hbury (update (fun _ => rfl) fun d _ hp => ?_)
  simp only [decide_eq_true_eq] at hp
  rw [hp.2.1]
  exact hA _ _ .abandon

theorem remove (hA : Sealed A) {sid : SessionId} : Backed A b (b.deleteSession sid now) := by
  have hbury : Backed A b (b.updateDeliveries
      (fun d => d.recipientSessionId = sid ∧ (d.state = .queued ∨ d.state = .retryWait ∨
        d.state = .transportWritten ∨ d.state = .accepted))
      fun d => { d with state := .deadLetter, failureCategory := some .recipientRemoved
                        nextAttemptAt := none, leaseExpiresAt := none, updatedAt := now }) := by
    refine hop hA (fun _ => rfl) fun d hp => .bury ?_
    simp only [decide_eq_true_eq] at hp
    obtain ⟨-, h | h | h | h⟩ := hp <;> simp [h, DeliveryState.waiting]
  exact IsFrame.trans hbury (of_eq rfl)

theorem complete (hA : Sealed A) {mid : Id} {ra rr : Bool} :
    Backed A b (b.completeIfNoResponseRequired mid ra rr now) := by
  unfold Broker.completeIfNoResponseRequired
  split
  · exact IsFrame.refl b
  · split
    · refine .audited (.hop hA (fun _ => rfl) fun d hp => .answer (.inr ?_))
      simp only [decide_eq_true_eq] at hp
      exact hp.2.1
    · exact IsFrame.refl b

/-- A pull marks what waits, and completes what it marked. -/
theorem inject (hA : Down A) {ck : CheckpointId} {audited : Bool} {m : Message} :
    Backed A b (injectOne env now auth ck audited m b).2 := by
  unfold injectOne
  split
  · have hmark : Backed A b (b.markTransportWritten m.messageId
        (ackDeadlineFor env now m.requiresAck) auth.epoch now).mint := by
      refine update (fun _ => rfl) fun d _ hp htw => ?_
      simp only [DeliveryState.waiting, decide_eq_true_eq] at hp
      obtain ⟨-, h | h⟩ := hp
      · rw [h]
        exact (hA.pulls htw).1
      · rw [h]
        exact (hA.pulls htw).2
    dsimp only
    set b₁ := (b.markTransportWritten m.messageId (ackDeadlineFor env now m.requiresAck)
      auth.epoch now).mint
    have hissue : Backed A b₁ (issue env now m.messageId auth.sessionId auth.epoch ck 1 b₁).2 :=
      of_eq issue_deliveries
    have haudit (b₂ : Broker) : Backed A b₂ (if audited then
        b₂.audit .transportWritten (some auth.sessionId) (some m.messageId) else b₂) := by
      split
      · exact of_eq rfl
      · exact IsFrame.refl b₂
    have hmarked := IsFrame.trans hmark (IsFrame.trans hissue (haudit _))
    split
    · exact hmarked.audited
    · exact IsFrame.trans hmarked (complete hA.hops)
  · exact IsFrame.refl b

end Backed

/-! ## Moves -/

/-- The moves that are made of hops, if they touch deliveries at all. -/
def hops : Kind → Bool
  | .inject _ | .restate | .redrive | .post | .answer => false
  | _ => true

theorem Move.backed (hA : Sealed A) (h : Move env k b b') (hk : hops k = true) :
    Backed A b b' := by
  cases h with
  | note h => exact .bookkeeping h
  | restate | redrive | inject | post | answer => cases hk
  | consume | component | redirect | close => exact .of_eq rfl
  | reissue => exact .of_eq issue_deliveries
  | create input absent =>
    obtain ⟨as, es, n, hb', -⟩ := createSession_eq b env input
    exact .of_eq (by rw [hb'])
  | dormant => exact .of_eq rfl
  | @advance _ now sid resume s found =>
    obtain ⟨is, as, es, n, hb', -⟩ := advanceEpoch_eq b env now sid (s.activeEpoch + 1) resume
    exact .requeue hA (by rw [hb'])
  | join now input => exact .requeue hA (by rw [joinEpoch_eq])
  | claim => exact .namesOnly .claim
  | rename => exact .namesOnly .rename
  | operatorRename => exact .namesOnly .operatorRename
  | reclaim => exact .namesOnly (IsFrame.trans NamesOnly.forfeit .rename)
  | tombstone => exact .tombstone hA
  | lapse => exact .namesOnly .lapse
  | remove => exact .remove hA
  | operator =>
    unfold Broker.ensureOperatorSession
    split
    · exact .of_eq rfl
    · exact .of_eq rfl

theorem Moves.backed {kinds : List Kind} (hA : Sealed A) (h : Moves env kinds b b')
    (hk : kinds.all hops = true) : Backed A b b' :=
  h.frame fun _ _ k hmem hmove => hmove.backed hA (List.all_eq_true.mp hk k hmem)

/-! ## The operations that restate deliveries -/

theorem ack_backed (hA : Sealed A) {input : AckInput} :
    Respects (Backed A) (ack env now auth input) := by
  refine Respects.bind assertAllowed_respects fun _ => Respects.bind
    (assertCurrentEpoch_bookkeeping.mono fun _ _ => .bookkeeping) fun _ => Respects.transaction ?_
  refine Respects.bind .get fun b => Respects.bind .orThrow fun msg =>
    Respects.bind .require fun _ => ?_
  split
  · exact Respects.bind (.requireElse fun _ => .of_eq rfl) fun _ =>
      Respects.bind .orThrow fun _ => .pure _
  · have hauth : Respects (Backed A)
        (authorizeIfRequired env now .ack input.messageId auth input.injectionId) :=
      Respects.bind .get fun _ => .ite (Respects.bind .lift fun _ => .pure _) (.pure _)
    refine Respects.bind hauth fun injectionId => Respects.bind
      (.requireElse fun _ => .of_eq rfl) fun _ => Respects.bind (.modify fun b => ?_)
      fun _ => Respects.bind (.modify fun b => .of_eq rfl) fun _ =>
      Respects.bind (.modify fun b => .of_eq ?_) fun _ => .pure _
    · refine .hop hA (fun _ => rfl) fun d hp => ?_
      simp only [decide_eq_true_eq] at hp
      rw [hp.2]
      cases input.accept
      · exact .reject
      · exact .accept
    · cases injectionId <;> rfl

theorem discard_backed (hA : Sealed A) {mid : Id} :
    Respects (Backed A) (discard now mid) := by
  refine Respects.act fun b => ?_
  split
  · refine .audited (.hop hA (fun _ => rfl) fun d hp => ?_)
    simp only [decide_eq_true_eq] at hp
    rw [hp.2]
    exact .discard
  · exact IsFrame.refl b

/-- An ordinary redelivery hops; a replay takes accepted work back into the queue. -/
theorem operatorRedeliver_backed (hA : Sealed A)
    (hreplay : A .queued = true → A .accepted = true) {mid : Id} {confirm : Bool} :
    Respects (Backed A) (operatorRedeliver now mid confirm) := by
  refine Respects.transaction (Respects.bind .get fun b => ?_)
  split
  · exact .pure _
  · refine Respects.ite ?_ ?_
    · refine Respects.bind (.requireElse fun _ => .of_eq rfl) fun _ =>
        Respects.bind (.act fun _ => .of_eq rfl) fun _ =>
        Respects.bind (.modify fun b => ?_) fun _ => .pure _
      refine .audited (.update (fun _ => rfl) fun d _ hp hq => ?_)
      simp only [decide_eq_true_eq] at hp
      rw [hp.2]
      exact hreplay hq
    · refine Respects.bind .require fun _ => Respects.bind (.modify fun b => ?_) fun _ => .pure _
      refine .audited (.hop hA (fun _ => rfl) fun d hp => .rearm ?_)
      simp only [decide_eq_true_eq] at hp
      obtain ⟨-, h | h | h⟩ := hp <;> simp [h, DeliveryState.waiting]

theorem reapAckTimeout_backed (hA : Sealed A) (acc : AckSweep) (r : Delivery) :
    Backed A acc.db (reapAckTimeout env mom acc r).db := by
  have hflying (b : Broker) (d : Delivery) (hd : b.awaitingAck r.messageId d = true) :
      d.state = .transportWritten := by
    simp only [Broker.awaitingAck, decide_eq_true_eq] at hd
    exact hd.2.1
  unfold reapAckTimeout
  split
  · exact IsFrame.refl _
  · dsimp only
    split
    · exact IsFrame.refl _
    · split
      · refine .audited (.hop hA (fun _ => rfl) fun d hd => ?_)
        rw [hflying _ d hd]
        exact .bury (.inr (.inl rfl))
      · refine .audited (.hop hA (fun _ => rfl) fun d hd => ?_)
        rw [hflying _ d hd]
        exact .retry

theorem expireWaiting_backed (hA : Sealed A) (acc : Nat × Broker) (r : Delivery) :
    Backed A acc.2 (expireWaiting now acc r).2 := by
  unfold expireWaiting
  split
  · refine .audited (.hop hA (fun _ => rfl) fun d hd => .lapse ?_)
    simp only [decide_eq_true_eq] at hd
    exact hd.2
  · exact IsFrame.refl _

theorem expireSession_backed (hA : Sealed A) (acc : Nat × Broker) (s : Session) :
    Backed A acc.2 (expireSession now acc s).2 := by
  unfold expireSession
  split
  · exact .tombstone hA
  · exact IsFrame.refl _

theorem sweep_backed (hA : Sealed A) : Respects (Backed A) (sweep env mom) := by
  refine Respects.transaction (.act fun b => ?_)
  have hacks : Backed A b (reapAckTimeouts env mom b).db :=
    IsFrame.foldl AckSweep.db (b.lapsed mom.now) { db := b } fun acc r _ =>
      reapAckTimeout_backed hA acc r
  have httl (b : Broker) : Backed A b (reapAcceptanceTtl mom.now b).2 :=
    IsFrame.foldl Prod.snd (b.pastTtl mom.now) (0, b) fun acc r _ => expireWaiting_backed hA acc r
  have hgone (b : Broker) : Backed A b (reapExpiredSessions mom.now b).2 :=
    IsFrame.foldl Prod.snd (b.dueSessions mom.now) (0, b) fun acc s _ =>
      expireSession_backed hA acc s
  have hnames (b : Broker) : Backed A b (reapStalePendingNames mom.now b) := .namesOnly .lapse
  exact IsFrame.trans hacks (IsFrame.trans (httl _) (IsFrame.trans (hgone _) (hnames _)))

/-- The completing statement of a reply hops. -/
theorem Backed.answered {mid : Id} (hA : Sealed A)
    (h : b'.deliveries = b.deliveries.map (answered mid now)) : Backed A b b' := by
  refine .of_map h fun d _ => ?_
  unfold Proof.answered
  split
  · rename_i hp
    exact ⟨rfl, hA _ _ (.answer hp.2)⟩
  · exact ⟨rfl, id⟩

/-- What follows the posting of a reply hops. -/
theorem Replied.backed (hA : Sealed A) {input : ReplyInput} {orig : Message} {r : SendResult}
    (h : Replied env now auth input orig b b' r) :
    ∃ b₁ row, Posted b b₁ row ∧ row.recipientSessionId = orig.senderSessionId ∧
      Backed A b₁ b' := by
  obtain ⟨b₁, row, hposted, -, -, -, -, hto, -, -, hdel, -, -⟩ := h.posted
  exact ⟨b₁, row, hposted, hto, .answered hA hdel⟩

end Proof
end XBus
