import XBus.Desk
import XBus.Proof.Machine
import XBus.Proof.Rounds

/-!
# The statements that write a delivery

`Hop` in `Machine` says between which states the stores move a delivery. Here it is the row: one
constructor of `Rewrite` for each `UPDATE` of `deliveries`, with what its `WHERE` clause asks and
what it writes. `Path K` is any number of these statements, of the kinds in `K`, on one row, and
`Traced K` says that every row after an operation was led there by a path.

`exec_led` gives every operation its statements. What is claimed about rows (which states are
final, who has a lease, what goes back to the queue) is then a matter of sixteen cases, and not of
the operations.
-/

set_option autoImplicit false

namespace XBus
namespace Proof

open Lib

variable {env : Env} {mom : Moment} {now : Iso} {auth : SessionAuthority} {b b' b'' : Broker}

/-! ## Statements -/

/-- The statements that write rows of `deliveries`. -/
inductive Stmt
  | written | completed | acked | answered | requeued | timedOut | exhausted | lapsed | buried
  | abandoned | removed | rearmed | replayed | redriven | discarded | cancelled
deriving DecidableEq, Repr

/-- What a statement does to a row, at a time and for a message with the given flags. -/
inductive Rewrite (env : Env) (now : Iso) (ack reply : Bool) : Stmt → Delivery → Delivery → Prop
  | written {d : Delivery} (waits : d.state.waiting = true) (deadline : Option Iso)
      (armed : deadline.isSome = ack) (epoch : Nat) :
      Rewrite env now ack reply .written d { d with
        state := .transportWritten, leaseExpiresAt := deadline, targetGeneration := some epoch
        updatedAt := now }
  | completed {d : Delivery} (flies : d.state = .transportWritten) (noAck : ack = false)
      (noReply : reply = false) :
      Rewrite env now ack reply .completed d { d with
        state := .completed, leaseExpiresAt := none, nextAttemptAt := none
        failureCategory := none, updatedAt := now }
  | acked {d : Delivery} (flies : d.state = .transportWritten) (accept : Bool) :
      Rewrite env now ack reply .acked d { d with
        state := if accept then .accepted else .rejected, updatedAt := now }
  | answered {d : Delivery} (meets : d.state = .accepted ∨ d.state = .transportWritten) :
      Rewrite env now ack reply .answered d { d with state := .completed, updatedAt := now }
  | requeued {d : Delivery} (flies : d.state = .transportWritten) :
      Rewrite env now ack reply .requeued d { d with state := .queued, updatedAt := now }
  | timedOut {d : Delivery} (flies : d.state = .transportWritten) (owed : ack = true)
      (late : d.leaseExpiresAt.any (fun t => t.le now) = true)
      (left : d.attemptAckTimeout + 1 < env.backoff.maxAttempts) (retryAt : Iso) :
      Rewrite env now ack reply .timedOut d { d with
        state := .retryWait, attemptAckTimeout := d.attemptAckTimeout + 1
        failureCategory := some .ackTimeout, leaseExpiresAt := none
        nextAttemptAt := some retryAt, updatedAt := now }
  | exhausted {d : Delivery} (flies : d.state = .transportWritten) (owed : ack = true)
      (late : d.leaseExpiresAt.any (fun t => t.le now) = true)
      (spent : env.backoff.maxAttempts ≤ d.attemptAckTimeout + 1) :
      Rewrite env now ack reply .exhausted d { d with
        state := .deadLetter, attemptAckTimeout := d.attemptAckTimeout + 1
        failureCategory := some .ackTimeoutExhausted, leaseExpiresAt := none, updatedAt := now }
  | lapsed {d : Delivery} (waits : d.state.waiting = true) :
      Rewrite env now ack reply .lapsed d { d with
        state := .expired, failureCategory := some .expiredBeforeInjection, updatedAt := now }
  | buried {d : Delivery} (unsettled : d.state.waiting = true ∨ d.state = .transportWritten) :
      Rewrite env now ack reply .buried d { d with
        state := .deadLetter, failureCategory := some .recipientInactive15Days
        nextAttemptAt := none, leaseExpiresAt := none, updatedAt := now }
  | abandoned {d : Delivery} (accepted : d.state = .accepted) (owed : reply = true) :
      Rewrite env now ack reply .abandoned d { d with
        state := .expired, nextAttemptAt := none, leaseExpiresAt := none
        failureCategory := some .replyPendingUnanswered15Days, updatedAt := now }
  | removed {d : Delivery} (unfinished : d.state = .queued ∨ d.state = .retryWait ∨
        d.state = .transportWritten ∨ d.state = .accepted) :
      Rewrite env now ack reply .removed d { d with
        state := .deadLetter, failureCategory := some .recipientRemoved
        nextAttemptAt := none, leaseExpiresAt := none, updatedAt := now }
  | rearmed {d : Delivery} (unaccepted : d.state = .queued ∨ d.state = .retryWait ∨
        d.state = .transportWritten) :
      Rewrite env now ack reply .rearmed d { d with
        state := .queued, nextAttemptAt := none, leaseExpiresAt := none, updatedAt := now }
  | replayed {d : Delivery} (accepted : d.state = .accepted) :
      Rewrite env now ack reply .replayed d { d with
        state := .queued, nextAttemptAt := none, leaseExpiresAt := none, updatedAt := now }
  | redriven {d : Delivery} (dead : d.state = .deadLetter) (id : Id) :
      Rewrite env now ack reply .redriven d { d with
        deliveryId := id, state := .queued, failureCategory := none, nextAttemptAt := none
        leaseExpiresAt := none, targetGeneration := none, attemptAckTimeout := 0
        updatedAt := now }
  | discarded {d : Delivery} (dead : d.state = .deadLetter) :
      Rewrite env now ack reply .discarded d { d with
        state := .cancelled, failureCategory := some .discarded, updatedAt := now }
  | cancelled {d : Delivery} (waits : d.state.waiting = true) :
      Rewrite env now ack reply .cancelled d { d with state := .cancelled, updatedAt := now }

section Path

variable {ack reply : Bool} {K K' : List Stmt} {s : Stmt} {d d' d'' : Delivery}

theorem Rewrite.pair (h : Rewrite env now ack reply s d d') :
    Delivery.pair d' = Delivery.pair d := by
  cases h <;> rfl

/-- Statements of the given kinds, one after another. -/
def Path (env : Env) (now : Iso) (K : List Stmt) (ack reply : Bool) : Delivery → Delivery → Prop :=
  Relation.ReflTransGen fun d d' => ∃ s ∈ K, Rewrite env now ack reply s d d'

namespace Path

theorem one (hs : s ∈ K) (h : Rewrite env now ack reply s d d') : Path env now K ack reply d d' :=
  .single ⟨s, hs, h⟩

theorem mono (hK : K ⊆ K') (h : Path env now K ack reply d d') :
    Path env now K' ack reply d d' := by
  induction h with
  | refl => exact .refl
  | tail _ hstep ih =>
    obtain ⟨s, hs, hstep⟩ := hstep
    exact ih.tail ⟨s, hK hs, hstep⟩

theorem pair (h : Path env now K ack reply d d') : Delivery.pair d' = Delivery.pair d := by
  induction h with
  | refl => rfl
  | tail _ hstep ih =>
    obtain ⟨s, -, hstep⟩ := hstep
    exact hstep.pair.trans ih

theorem messageId (h : Path env now K ack reply d d') : d'.messageId = d.messageId :=
  congrArg Prod.fst h.pair

/-- A property of rows that every statement keeps. -/
theorem keeps {P : Delivery → Prop} (h : Path env now K ack reply d d') (hd : P d)
    (hstep : ∀ s ∈ K, ∀ x y, Rewrite env now ack reply s x y → P x → P y) : P d' := by
  induction h with
  | refl => exact hd
  | tail _ hlast ih =>
    obtain ⟨s, hs, hlast⟩ := hlast
    exact hstep s hs _ _ hlast ih

/-- A statement that does not match what it wrote is applied once. -/
theorem once (h : Path env now [s] ack reply d d')
    (hstop : ∀ x y z, Rewrite env now ack reply s x y → ¬ Rewrite env now ack reply s y z) :
    d' = d ∨ Rewrite env now ack reply s d d' := by
  refine h.keeps (P := fun x => x = d ∨ Rewrite env now ack reply s d x) (.inl rfl)
    fun s' hs x y hstep hx => ?_
  obtain rfl := List.mem_singleton.mp hs
  rcases hx with rfl | hx
  · exact .inr hstep
  · exact absurd hstep (hstop _ _ _ hx)

end Path

end Path

/-! ## Databases -/

/-- No message is written, and every row of `deliveries` was led where it is by statements of the
    given kinds. -/
structure Traced (env : Env) (now : Iso) (K : List Stmt) (b b' : Broker) : Prop where
  messages : b'.messages = b.messages
  rows : ∀ d' ∈ b'.deliveries, ∃ d ∈ b.deliveries,
    Path env now K (b.requiresAck d.messageId) (b.requiresReply d.messageId) d d'

theorem requiresAck_congr (h : b'.messages = b.messages) (mid : Id) :
    b'.requiresAck mid = b.requiresAck mid := by
  rw [Broker.requiresAck, Broker.message?, h]
  rfl

theorem requiresReply_congr (h : b'.messages = b.messages) (mid : Id) :
    b'.requiresReply mid = b.requiresReply mid := by
  rw [Broker.requiresReply, Broker.message?, h]
  rfl

instance (K : List Stmt) : IsFrame (Traced env now K) where
  refl _ := ⟨rfl, fun d' hd' => ⟨d', hd', .refl⟩⟩
  trans {b b' b''} h h' := by
    refine ⟨h'.messages.trans h.messages, fun d'' hd'' => ?_⟩
    obtain ⟨d', hd', hpath'⟩ := h'.rows d'' hd''
    obtain ⟨d, hd, hpath⟩ := h.rows d' hd'
    rw [requiresAck_congr h.messages, requiresReply_congr h.messages, hpath.messageId] at hpath'
    exact ⟨d, hd, hpath.trans hpath'⟩

namespace Traced

variable {K K' : List Stmt}

theorem mono (hK : K ⊆ K') (h : Traced env now K b b') : Traced env now K' b b' := by
  refine ⟨h.messages, fun d' hd' => ?_⟩
  obtain ⟨d, hd, hpath⟩ := h.rows d' hd'
  exact ⟨d, hd, hpath.mono hK⟩

theorem of_eq (hmsgs : b'.messages = b.messages) (hdel : b'.deliveries = b.deliveries) :
    Traced env now K b b' :=
  ⟨hmsgs, fun d' hd' => ⟨d', hdel ▸ hd', .refl⟩⟩

theorem bookkeeping (h : Bookkeeping b b') : Traced env now K b b' :=
  of_eq h.messages h.deliveries

theorem namesOnly (h : NamesOnly b b') : Traced env now K b b' := of_eq h.messages h.deliveries

/-- What is written beside messages and deliveries is written on no path. -/
theorem beside (h : Traced env now K b b') (hmsgs : b''.messages = b'.messages)
    (hdel : b''.deliveries = b'.deliveries) : Traced env now K b b'' :=
  IsFrame.trans h (of_eq hmsgs hdel)

theorem of_map {g : Delivery → Delivery} (hmsgs : b'.messages = b.messages)
    (hdel : b'.deliveries = b.deliveries.map g)
    (hg : ∀ d ∈ b.deliveries,
      Path env now K (b.requiresAck d.messageId) (b.requiresReply d.messageId) d (g d)) :
    Traced env now K b b' := by
  refine ⟨hmsgs, fun d' hd' => ?_⟩
  rw [hdel] at hd'
  obtain ⟨d, hd, rfl⟩ := List.mem_map.mp hd'
  exact ⟨d, hd, hg d hd⟩

/-- One `UPDATE`. -/
theorem update {s : Stmt} (hs : s ∈ K) {p : Delivery → Bool} {f : Delivery → Delivery}
    (h : ∀ d ∈ b.deliveries, p d = true →
      Rewrite env now (b.requiresAck d.messageId) (b.requiresReply d.messageId) s d (f d)) :
    Traced env now K b (b.updateDeliveries p f) := by
  refine of_map rfl rfl fun d hd => ?_
  split
  · rename_i hp
    exact .one hs (h d hd hp)
  · exact .refl

end Traced

/-! ## Pulls -/

theorem complete_traced {m : Message} (hm : b.message? m.messageId = some m) :
    Traced env now [.written, .completed] b
      (b.completeIfNoResponseRequired m.messageId m.requiresAck m.requiresReply now) := by
  unfold Broker.completeIfNoResponseRequired
  split
  · exact IsFrame.refl b
  · rename_i hnone
    split
    · refine (Traced.update (s := .completed) (by simp) fun d _ hp => ?_).beside rfl rfl
      simp only [decide_eq_true_eq] at hp
      refine .completed hp.2.1 ?_ ?_
      · rw [hp.1]
        exact hp.2.2
      · rw [hp.1]
        simpa [Broker.requiresReply, hm] using (not_or.mp hnone).2
    · exact IsFrame.refl b

theorem injectOne_traced {ck : CheckpointId} {audited : Bool} {m : Message}
    (hm : b.message? m.messageId = some m) :
    Traced env now [.written, .completed] b (injectOne env now auth ck audited m b).2 := by
  unfold injectOne
  split
  · have hmark : Traced env now [.written, .completed] b (b.markTransportWritten m.messageId
        (ackDeadlineFor env now m.requiresAck) auth.epoch now).mint := by
      refine (Traced.update (s := .written) (by simp) fun d _ hp => ?_).beside rfl rfl
      simp only [decide_eq_true_eq] at hp
      refine .written hp.2 _ ?_ auth.epoch
      rw [hp.1, Broker.requiresAck, hm]
      cases hack : m.requiresAck <;> simp [ackDeadlineFor, hack]
    dsimp only
    set b₁ := (b.markTransportWritten m.messageId (ackDeadlineFor env now m.requiresAck)
      auth.epoch now).mint
    set b₂ := (issue env now m.messageId auth.sessionId auth.epoch ck 1 b₁).2
    have hissue : Traced env now [.written, .completed] b b₂ :=
      hmark.beside MailOnly.issue.messages issue_deliveries
    set b₃ := if audited then
      b₂.audit .transportWritten (some auth.sessionId) (some m.messageId) else b₂ with hb₃
    have haudit : Traced env now [.written, .completed] b b₃ := by
      refine hissue.beside ?_ ?_ <;> rw [hb₃] <;> split <;> rfl
    split
    · exact haudit.beside rfl rfl
    · refine IsFrame.trans haudit (complete_traced ?_)
      rw [Broker.message?, haudit.messages]
      exact hm
  · exact IsFrame.refl b

theorem injectAll_traced {ck : CheckpointId} {audited : Bool} (rows : List Message) (b : Broker)
    (h : ∀ m ∈ rows, b.message? m.messageId = some m) :
    Traced env now [.written, .completed] b (injectAll env now auth ck audited rows b).2 := by
  induction rows generalizing b with
  | nil => exact IsFrame.refl b
  | cons m rows ih =>
    have hone : Traced env now [.written, .completed] b (injectOne env now auth ck audited m b).2 :=
      injectOne_traced (h m List.mem_cons_self)
    have hrest := ih _ fun m' hm' => by
      rw [Broker.message?, hone.messages]
      exact h m' (List.mem_cons_of_mem m hm')
    simp only [injectAll]
    split
    · exact IsFrame.trans hone hrest
    · exact IsFrame.trans hone hrest

/-- What is pending are messages as they are stored. -/
theorem found_of_mem_pending {sid : SessionId} {limit : Nat} {m : Message}
    (h : m ∈ b.pendingForSessionId sid limit now) : b.message? m.messageId = some m := by
  have hm := List.mem_of_mem_take h
  rw [Broker.eligible, List.mem_insertionSort] at hm
  obtain ⟨d, -, hfound⟩ := List.mem_filterMap.mp (List.mem_of_mem_filter hm)
  have hid : m.messageId = d.messageId := by simpa using List.find?_some hfound
  rw [hid]
  exact hfound

theorem pullForced_traced {ck : CheckpointId} {limit : Nat} {audited : Bool} :
    Respects (Traced env now [.written, .completed])
      (pullForced env now auth ck limit audited) := by
  refine Respects.transaction (.act fun b => ?_)
  have hall : Traced env now [.written, .completed] b (injectAll env now auth ck audited
      (b.pendingForSessionId auth.sessionId (min (max 1 limit) 50) now) b).2 :=
    injectAll_traced _ b fun m hm => found_of_mem_pending hm
  dsimp only
  split
  · exact hall
  · exact hall.beside rfl rfl

theorem checkpointPull_traced {ck : CheckpointId} {limit : Nat} :
    Respects (Traced env now [.written, .completed])
      (checkpointPull env now auth ck limit) := by
  refine Respects.bind assertAllowed_respects fun _ => Respects.bind
    (assertCurrentEpoch_bookkeeping.mono fun _ _ => .bookkeeping) fun _ =>
    Respects.bind .get fun b => .ite (.ite pullForced_traced (.pure _)) ?_
  exact Respects.bind (.modify fun _ => .of_eq rfl rfl) fun _ => .pure _

theorem processNext_traced {ck : CheckpointId} :
    Respects (Traced env now [.written, .completed]) (processNext env now auth ck) := by
  refine Respects.bind assertAllowed_respects fun _ => Respects.bind
    (assertCurrentEpoch_bookkeeping.mono fun _ _ => .bookkeeping) fun _ =>
    Respects.bind .get fun b => .ite pullForced_traced ?_
  exact Respects.bind (.modify fun _ => .of_eq rfl rfl) fun _ => .pure _

theorem inboxView_traced {ck : CheckpointId} {limit : Nat} :
    Respects (Traced env now [.written, .completed]) (inboxView env now auth ck limit) :=
  Respects.bind assertAllowed_respects fun _ => Respects.bind
    (assertCurrentEpoch_bookkeeping.mono fun _ _ => .bookkeeping) fun _ =>
    Respects.bind checkpointPull_traced fun _ => Respects.bind .get fun _ => .pure _

theorem markInjectedFor_traced (mids : List Id) (b : Broker) :
    Traced env now [.written, .completed] b (markInjectedFor env now auth mids b).2 := by
  induction mids generalizing b with
  | nil => exact IsFrame.refl b
  | cons mid mids ih =>
    simp only [markInjectedFor]
    cases hm : b.message? mid with
    | none => exact ih b
    | some m =>
      have hid : m.messageId = mid := by simpa using List.find?_some hm
      have hmint : Traced env now [.written, .completed] b b.mint := .of_eq rfl rfl
      have hone : Traced env now [.written, .completed] b
          (injectOne env now auth (.minted "mark-" b.nextId) true m b.mint).2 :=
        IsFrame.trans hmint (injectOne_traced (by rw [hid]; exact hm))
      dsimp only
      split
      · exact IsFrame.trans hone (ih _)
      · exact IsFrame.trans hone (ih _)

theorem daemonCheckpointPull_traced {limit : Nat} :
    Respects (Traced env now [.written, .completed])
      (daemonCheckpointPull env now auth limit) := by
  refine Respects.bind (pendingForSession_respects.mono fun _ _ => .bookkeeping) fun pending =>
    Respects.bind ?_ fun marked => Respects.bind (.modify fun b => ?_) fun _ =>
    Respects.bind .get fun _ => .pure _
  · exact Respects.bind (assertCurrentEpoch_bookkeeping.mono fun _ _ => .bookkeeping) fun _ =>
      Respects.transaction (.act fun b => markInjectedFor_traced _ b)
  · split
    · exact IsFrame.refl b
    · exact .of_eq rfl rfl

/-! ## Ack, reply and the operator's hand -/

theorem ack_traced {input : AckInput} :
    Respects (Traced env now [.acked]) (ack env now auth input) := by
  refine Respects.bind assertAllowed_respects fun _ => Respects.bind
    (assertCurrentEpoch_bookkeeping.mono fun _ _ => .bookkeeping) fun _ => Respects.transaction ?_
  refine Respects.bind .get fun b => Respects.bind .orThrow fun msg =>
    Respects.bind .require fun _ => ?_
  split
  · exact Respects.bind (.requireElse fun _ => .of_eq rfl rfl) fun _ =>
      Respects.bind .orThrow fun _ => .pure _
  · have hauth : Respects (Traced env now [.acked])
        (authorizeIfRequired env now .ack input.messageId auth input.injectionId) :=
      Respects.bind .get fun _ => .ite (Respects.bind .lift fun _ => .pure _) (.pure _)
    refine Respects.bind hauth fun injectionId => Respects.bind
      (.requireElse fun _ => .of_eq rfl rfl) fun _ => Respects.bind (.modify fun b => ?_)
      fun _ => Respects.bind (.modify fun b => .of_eq rfl rfl) fun _ =>
      Respects.bind (.modify fun b => .of_eq ?_ ?_) fun _ => .pure _
    · refine .update (s := .acked) (by simp) fun d _ hp => ?_
      simp only [decide_eq_true_eq] at hp
      exact .acked hp.2 input.accept
    · cases injectionId <;> rfl
    · cases injectionId <;> rfl

theorem answered_traced {mid : Id} (hmsgs : b'.messages = b.messages)
    (h : b'.deliveries = b.deliveries.map (answered mid now)) :
    Traced env now [.answered] b b' := by
  refine .of_map hmsgs h fun d _ => ?_
  unfold answered
  split
  · rename_i hp
    exact .one (by simp) (.answered hp.2)
  · exact .refl

theorem discard_traced {mid : Id} : Respects (Traced env now [.discarded]) (discard now mid) := by
  refine Respects.act fun b => ?_
  split
  · refine (Traced.update (s := .discarded) (by simp) fun d _ hp => ?_).beside rfl rfl
    simp only [decide_eq_true_eq] at hp
    exact .discarded hp.2
  · exact IsFrame.refl b

theorem cancel_traced {mid : Id} :
    Respects (Traced env now [.cancelled]) (cancel now mid) := by
  refine Respects.transaction (Respects.bind .get fun b => ?_)
  split
  · exact .pure _
  · refine .ite (Respects.bind (.modify fun b => ?_) fun _ => .pure _)
      (.ite (Respects.bind (.modify fun _ => .of_eq rfl rfl) fun _ => .pure _)
        (.ite (.pure _) (.pure _)))
    refine (Traced.update (s := .cancelled) (by simp) fun d _ hp => ?_).beside rfl rfl
    simp only [decide_eq_true_eq] at hp
    exact .cancelled hp.2

theorem operatorRedeliver_traced {mid : Id} {confirm : Bool} :
    Respects (Traced env now [.rearmed, .replayed]) (operatorRedeliver now mid confirm) := by
  refine Respects.transaction (Respects.bind .get fun b => ?_)
  split
  · exact .pure _
  · refine Respects.ite ?_ ?_
    · refine Respects.bind (.requireElse fun _ => .of_eq rfl rfl) fun _ =>
        Respects.bind (.act fun _ => .of_eq rfl rfl) fun _ =>
        Respects.bind (.modify fun b => ?_) fun _ => .pure _
      refine (Traced.update (s := .replayed) (by simp) fun d _ hp => ?_).beside rfl rfl
      simp only [decide_eq_true_eq] at hp
      exact .replayed hp.2
    · refine Respects.bind .require fun _ => Respects.bind (.modify fun b => ?_) fun _ => .pure _
      refine (Traced.update (s := .rearmed) (by simp) fun d _ hp => ?_).beside rfl rfl
      simp only [decide_eq_true_eq] at hp
      exact .rearmed hp.2

theorem operatorRemoveRecord_traced {sid : SessionId} :
    Respects (Traced env now [.removed]) (operatorRemoveRecord now sid) := by
  refine Respects.bind .require fun _ => Respects.transaction (Respects.bind .get fun b => ?_)
  split
  · exact .pure _
  · refine Respects.bind .require fun _ => Respects.bind (.modify fun b => ?_) fun _ => .pure _
    refine (Traced.update (s := .removed) (by simp) fun d _ hp => ?_).beside rfl rfl
    simp only [decide_eq_true_eq] at hp
    exact .removed hp.2

/-- The row redriven is the dead letter that was looked at: there is one delivery to a message. -/
theorem redrive_traced {mid : Id} {validate : SessionId → String → Option String}
    (inv : MailInv b) : Traced env now [.redriven] b (redrive env now mid validate b).2 := by
  refine Respects.transaction_at fun r b' h => ?_
  simp only [Call.get_bind] at h
  -- Nothing is written unless the delivery is dead and the peer may be written to.
  cases hmsg : b.message? mid with
  | none =>
    simp only [hmsg] at h
    obtain ⟨-, rfl⟩ := Call.pure_ok.mp h
    exact IsFrame.refl _
  | some m =>
  cases hd : b.delivery? mid with
  | none =>
    simp only [hmsg, hd] at h
    obtain ⟨-, rfl⟩ := Call.pure_ok.mp h
    exact IsFrame.refl _
  | some d =>
    simp only [hmsg, hd] at h
    split at h
    · obtain ⟨-, rfl⟩ := Call.pure_ok.mp h
      exact IsFrame.refl _
    · rename_i hdead
      cases hvalid : validate m.recipientSessionId (env.text.toLowerCase m.senderAlias) with
      | some reason =>
        simp only [hvalid] at h
        obtain ⟨-, rfl⟩ := Call.pure_ok.mp h
        exact IsFrame.refl _
      | none =>
        simp only [hvalid, Call.act_bind, Call.modify_bind, Call.pure_ok] at h
        obtain ⟨-, rfl⟩ := h
        have hmint : Traced env now [.redriven] b b.mint := .of_eq rfl rfl
        refine IsFrame.trans hmint
          ((Traced.update (s := .redriven) (by simp) fun x hx hp => ?_).beside rfl rfl)
        have hid : x.messageId = d.messageId := by
          rw [of_decide_eq_true hp]
          have hfound : d.messageId = mid := by simpa using List.find?_some hd
          exact hfound.symm
        rw [inv.delivery_eq hx (List.mem_of_find?_eq_some hd) hid]
        exact .redriven (not_not.mp hdead) b.nextId

/-! ## Registering -/

theorem requeued_traced {sid : SessionId} {abandoned : Delivery → Bool}
    (hmsgs : b'.messages = b.messages)
    (h : b'.deliveries = b.deliveries.map (requeued sid now abandoned)) :
    Traced env now [.requeued] b b' := by
  refine .of_map hmsgs h fun d _ => ?_
  unfold requeued
  split
  · rename_i hp
    exact .one (by simp) (.requeued hp.2.1)
  · exact .refl

theorem Entered.traced {input : RegisterInput} {epoch : Nat}
    (h : Entered env now input b epoch b') : Traced env now [.requeued] b b' := by
  cases h with
  | created absent =>
    obtain ⟨as, es, n, hb', -⟩ := createSession_eq b env input
    exact .of_eq (by rw [hb']) (by rw [hb'])
  | @advanced s found fresh =>
    obtain ⟨is, as, es, n, hb', -⟩ := advanceEpoch_eq b env now input.sessionId (s.activeEpoch + 1)
      s.expiredAt.isSome
    exact requeued_traced (by rw [hb']) (by rw [hb'])
  | joined => exact requeued_traced (by rw [joinEpoch_eq]) (by rw [joinEpoch_eq])

/-- The moves that write neither messages nor deliveries. -/
def quiet : Kind → Bool
  | .note | .consume | .reissue | .create | .dormant | .component | .redirect | .claim | .rename
  | .reclaim | .lapse | .close | .operator => true
  | _ => false

theorem Move.traced {k : Kind} {K : List Stmt} (h : Move env k b b') (hk : quiet k = true) :
    Traced env now K b b' := by
  cases h with
  | note h => exact .bookkeeping h
  | restate | redrive | inject | post | answer | advance | join | tombstone | remove => cases hk
  | consume | component | redirect | close | dormant => exact .of_eq rfl rfl
  | reissue => exact .of_eq MailOnly.issue.messages issue_deliveries
  | create input absent =>
    obtain ⟨as, es, n, hb', -⟩ := createSession_eq b env input
    exact .of_eq (by rw [hb']) (by rw [hb'])
  | claim => exact .namesOnly .claim
  | rename => exact .namesOnly .rename
  | operatorRename => exact .namesOnly .operatorRename
  | reclaim => exact .namesOnly (IsFrame.trans NamesOnly.forfeit .rename)
  | lapse => exact .namesOnly .lapse
  | operator =>
    unfold Broker.ensureOperatorSession
    split <;> exact .of_eq rfl rfl

theorem Moves.traced {kinds : List Kind} {K : List Stmt} (h : Moves env kinds b b')
    (hk : kinds.all quiet = true) : Traced env now K b b' :=
  h.frame fun _ _ k hmem hmove => hmove.traced (List.all_eq_true.mp hk k hmem)

theorem register_traced {raw : RegisterInput} :
    Respects (Traced env mom.now [.requeued]) (register env mom raw) := by
  refine register_refuses.respects (fun _ _ h => h ▸ IsFrame.refl _) fun b a b' h => ?_
  obtain ⟨reclaim, input, b₁, b₂, hreg⟩ := register_ok h
  obtain ⟨es, hb₁⟩ := hreg.before_eq
  have hedges : Traced env mom.now [.requeued] b b₁ := by
    rw [hb₁]
    exact .of_eq rfl rfl
  exact IsFrame.trans hedges (IsFrame.trans hreg.entered.traced (hreg.seats.traced (by decide)))

/-! ## The sweep -/

/-- What the acknowledgement pass selects. -/
structure Lapsed (b : Broker) (now : Iso) (r : Delivery) : Prop where
  stored : r ∈ b.deliveries
  flies : r.state = .transportWritten
  owed : b.requiresAck r.messageId = true
  late : r.leaseExpiresAt.any (fun t => t.le now) = true

theorem lapsed_iff {r : Delivery} : r ∈ b.lapsed now ↔ Lapsed b now r := by
  rw [Broker.lapsed, List.mem_insertionSort, List.mem_filter]
  simp only [decide_eq_true_eq]
  exact ⟨fun ⟨hr, hf, ho, hl⟩ => ⟨hr, hf, ho, hl⟩, fun h => ⟨h.stored, h.flies, h.owed, h.late⟩⟩

theorem MailInv.lapsed_nodup (inv : MailInv b) : ((b.lapsed now).map (·.messageId)).Nodup := by
  have hperm := (List.perm_insertionSort (fun d d' : Delivery => d.updatedAt.le d'.updatedAt)
    (b.deliveries.filter fun d => d.state = .transportWritten ∧ b.requiresAck d.messageId ∧
      d.leaseExpiresAt.any fun t => t.le now)).map (·.messageId)
  exact hperm.nodup_iff.mpr (List.Nodup.sublist (List.filter_sublist.map _) inv.deliveryIds)

/-- The rows among `rows` that the per-session cap lets through, where `used` have been. -/
def serve (cap : Nat) : (SessionId → Nat) → List Delivery → List Delivery
  | _, [] => []
  | used, r :: rows =>
    if cap > 0 ∧ used r.recipientSessionId ≥ cap then serve cap used rows
    else r :: serve cap
      (fun s => if s = r.recipientSessionId then used s + 1 else used s) rows

theorem serve_subset (cap : Nat) (used : SessionId → Nat) (rows : List Delivery) :
    serve cap used rows ⊆ rows := by
  induction rows generalizing used with
  | nil => exact List.Subset.refl _
  | cons r rows ih =>
    unfold serve
    split
    · exact List.subset_cons_of_subset r (ih _)
    · exact List.cons_subset_cons r (ih _)

/-- The lapsed deliveries that a sweep gets to. -/
def served (b : Broker) (env : Env) (now : Iso) : List Delivery :=
  serve env.perSessionCap (fun _ => 0) (b.lapsed now)

/-- A row whose acknowledgement timed out, as the pass leaves it. -/
def ackTimedOut (env : Env) (mom : Moment) (r : Delivery) : Delivery :=
  if r.attemptAckTimeout + 1 ≥ env.backoff.maxAttempts then
    { r with state := .deadLetter, attemptAckTimeout := r.attemptAckTimeout + 1
             failureCategory := some .ackTimeoutExhausted, leaseExpiresAt := none
             updatedAt := mom.now }
  else
    { r with state := .retryWait, attemptAckTimeout := r.attemptAckTimeout + 1
             failureCategory := some .ackTimeout, leaseExpiresAt := none
             nextAttemptAt := some (mom.now.plus
               (nextBackoffMs r.attemptAckTimeout env.backoff mom.jitter))
             updatedAt := mom.now }

theorem ackTimedOut_messageId {r : Delivery} :
    (ackTimedOut env mom r).messageId = r.messageId := by
  unfold ackTimedOut
  split <;> rfl

/-- One round serves the row it was selected for, if the cap lets it. -/
theorem reapAckTimeout_serves {acc : AckSweep} {r : Delivery}
    (hids : (acc.db.deliveries.map (·.messageId)).Nodup) (hr : r ∈ acc.db.deliveries)
    (hflies : r.state = .transportWritten) (howed : acc.db.requiresAck r.messageId = true)
    (hcap : ¬ (env.perSessionCap > 0 ∧ acc.used r.recipientSessionId ≥ env.perSessionCap)) :
    (reapAckTimeout env mom acc r).db.messages = acc.db.messages ∧
      (reapAckTimeout env mom acc r).db.deliveries =
        acc.db.deliveries.map fun d => if d = r then ackTimedOut env mom d else d := by
  -- The update finds this row and no other.
  have hmatch (d : Delivery) (hd : d ∈ acc.db.deliveries) :
      acc.db.awaitingAck r.messageId d = true ↔ d = r := by
    simp only [Broker.awaitingAck, decide_eq_true_eq]
    constructor
    · exact fun h => eq_of_key_eq hids hd hr h.1
    · rintro rfl
      exact ⟨rfl, hflies, howed⟩
  have hany : acc.db.deliveries.any (acc.db.awaitingAck r.messageId) = true :=
    List.any_eq_true.mpr ⟨r, hr, (hmatch r hr).mpr rfl⟩
  have hmap {f : Delivery → Delivery} (hf : f r = ackTimedOut env mom r) :
      acc.db.deliveries.map (fun d => if acc.db.awaitingAck r.messageId d then f d else d) =
        acc.db.deliveries.map fun d => if d = r then ackTimedOut env mom d else d := by
    refine List.map_congr_left fun d hd => ?_
    by_cases heq : d = r
    · rw [if_pos heq, if_pos ((hmatch d hd).mpr heq), heq, hf]
    · rw [if_neg heq, if_neg fun h => heq ((hmatch d hd).mp h)]
  unfold reapAckTimeout
  rw [if_neg hcap]
  dsimp only
  rw [if_neg (by simp [hany])]
  split
  · rename_i hspent
    refine ⟨rfl, hmap ?_⟩
    simp [ackTimedOut, hspent]
  · rename_i hleft
    refine ⟨rfl, hmap ?_⟩
    simp [ackTimedOut, hleft]

theorem reapAckTimeout_used {acc : AckSweep} {r : Delivery}
    (hcap : ¬ (env.perSessionCap > 0 ∧ acc.used r.recipientSessionId ≥ env.perSessionCap)) :
    (reapAckTimeout env mom acc r).used = fun s =>
      if s = r.recipientSessionId then acc.used s + 1 else acc.used s := by
  unfold reapAckTimeout
  rw [if_neg hcap]
  dsimp only
  split
  · rfl
  · split <;> rfl

theorem ackTimedOut_lands {r : Delivery} :
    (ackTimedOut env mom r).state ≠ .transportWritten := by
  unfold ackTimedOut
  split <;> nofun

theorem reapAckTimeouts_fold (rows : List Delivery) (acc : AckSweep)
    (hids : (acc.db.deliveries.map (·.messageId)).Nodup) (hnd : rows.Nodup)
    (hrows : ∀ r ∈ rows, r ∈ acc.db.deliveries ∧ r.state = .transportWritten ∧
      acc.db.requiresAck r.messageId = true) :
    (rows.foldl (reapAckTimeout env mom) acc).db.messages = acc.db.messages ∧
      (rows.foldl (reapAckTimeout env mom) acc).db.deliveries = acc.db.deliveries.map fun d =>
        if d ∈ serve env.perSessionCap acc.used rows then ackTimedOut env mom d else d := by
  induction rows generalizing acc with
  | nil => simp [serve]
  | cons r rows ih =>
    obtain ⟨hnew, hnd⟩ := List.nodup_cons.mp hnd
    obtain ⟨hr, hrest⟩ := List.forall_mem_cons.mp hrows
    rw [List.foldl_cons]
    by_cases hcap : env.perSessionCap > 0 ∧ acc.used r.recipientSessionId ≥ env.perSessionCap
    · have hskip : reapAckTimeout env mom acc r = acc := by
        unfold reapAckTimeout
        rw [if_pos hcap]
      rw [hskip, serve, if_pos hcap]
      exact ih acc hids hnd hrest
    · set acc' := reapAckTimeout env mom acc r with hacc'
      obtain ⟨hmsgs, hdel⟩ : acc'.db.messages = acc.db.messages ∧ acc'.db.deliveries =
          acc.db.deliveries.map fun d => if d = r then ackTimedOut env mom d else d :=
        reapAckTimeout_serves hids hr.1 hr.2.1 hr.2.2 hcap
      have hids' : (acc'.db.deliveries.map (·.messageId)).Nodup := by
        have hsame : acc'.db.deliveries.map (·.messageId) =
            acc.db.deliveries.map (·.messageId) := by
          rw [hdel, List.map_map]
          refine List.map_congr_left fun d _ => ?_
          simp only [Function.comp_apply]
          split
          · exact ackTimedOut_messageId
          · rfl
        rw [hsame]
        exact hids
      have hrest' : ∀ x ∈ rows, x ∈ acc'.db.deliveries ∧ x.state = .transportWritten ∧
          acc'.db.requiresAck x.messageId = true := by
        intro x hx
        obtain ⟨hstored, hflies, howed⟩ := hrest x hx
        refine ⟨?_, hflies, (requiresAck_congr hmsgs _).trans howed⟩
        have hother : x ≠ r := fun heq => hnew (heq ▸ hx)
        rw [hdel]
        exact List.mem_map.mpr ⟨x, hstored, if_neg hother⟩
      obtain ⟨hmsgs', hdel'⟩ := ih acc' hids' hnd hrest'
      refine ⟨hmsgs'.trans hmsgs, ?_⟩
      rw [hdel', hdel, List.map_map, serve, if_neg hcap, reapAckTimeout_used hcap]
      refine List.map_congr_left fun d _ => ?_
      simp only [Function.comp_apply, List.mem_cons]
      by_cases heq : d = r
      · -- What was served is in flight no more, and no later round selects it.
        have hdone : ackTimedOut env mom d ∉ serve env.perSessionCap (fun s =>
            if s = r.recipientSessionId then acc.used s + 1 else acc.used s) rows := fun hmem =>
          ackTimedOut_lands (hrest _ (serve_subset _ _ _ hmem)).2.1
        rw [if_pos heq, if_neg hdone, if_pos (.inl heq)]
      · rw [if_neg heq]
        simp only [heq, false_or]

/-- **The acknowledgement pass, exactly.** -/
theorem reapAckTimeouts_rows (inv : MailInv b) :
    (reapAckTimeouts env mom b).db.messages = b.messages ∧
      (reapAckTimeouts env mom b).db.deliveries = b.deliveries.map fun d =>
        if d ∈ served b env mom.now then ackTimedOut env mom d else d := by
  refine reapAckTimeouts_fold (b.lapsed mom.now) { db := b } inv.deliveryIds
    inv.lapsed_nodup.of_map fun r hr => ?_
  have hlapsed := lapsed_iff.mp hr
  exact ⟨hlapsed.stored, hlapsed.flies, hlapsed.owed⟩

theorem served_lapsed {d : Delivery} (h : d ∈ served b env now) : Lapsed b now d :=
  lapsed_iff.mp (serve_subset _ _ _ h)

theorem ackTimedOut_path {d : Delivery} (h : Lapsed b mom.now d) :
    Path env mom.now [.timedOut, .exhausted] (b.requiresAck d.messageId)
      (b.requiresReply d.messageId) d (ackTimedOut env mom d) := by
  unfold ackTimedOut
  split
  · rename_i hspent
    exact .one (s := .exhausted) (by simp) (.exhausted h.flies h.owed h.late hspent)
  · rename_i hleft
    exact .one (s := .timedOut) (by simp)
      (.timedOut h.flies h.owed h.late (not_le.mp hleft) _)

theorem reapAckTimeouts_traced (inv : MailInv b) :
    Traced env mom.now [.timedOut, .exhausted] b (reapAckTimeouts env mom b).db := by
  obtain ⟨hmsgs, hdel⟩ := reapAckTimeouts_rows inv
  refine .of_map hmsgs hdel fun d _ => ?_
  split
  · rename_i hserved
    exact ackTimedOut_path (served_lapsed hserved)
  · exact .refl

theorem reapAcceptanceTtl_traced : Traced env now [.lapsed] b (reapAcceptanceTtl now b).2 := by
  refine IsFrame.foldl Prod.snd (b.pastTtl now) (0, b) fun acc r _ => ?_
  unfold expireWaiting
  split
  · refine (Traced.update (s := .lapsed) (by simp) fun d _ hp => ?_).beside rfl rfl
    simp only [decide_eq_true_eq] at hp
    exact .lapsed hp.2
  · exact IsFrame.refl _

theorem tombstone_traced {sid : SessionId} :
    Traced env now [.buried, .abandoned] b (b.tombstone sid now) := by
  have hbury : Traced env now [.buried, .abandoned] b (b.updateDeliveries
      (fun d => d.recipientSessionId = sid ∧ (d.state.waiting ∨ d.state = .transportWritten))
      fun d => { d with state := .deadLetter, failureCategory := some .recipientInactive15Days
                        nextAttemptAt := none, leaseExpiresAt := none, updatedAt := now }) := by
    refine .update (s := .buried) (by simp) fun d _ hp => ?_
    simp only [decide_eq_true_eq] at hp
    exact .buried hp.2
  refine IsFrame.trans hbury
    ((Traced.update (s := .abandoned) (by simp) fun d _ hp => ?_).beside rfl rfl)
  simp only [decide_eq_true_eq] at hp
  exact .abandoned hp.2.1 hp.2.2

theorem reapExpiredSessions_traced :
    Traced env now [.buried, .abandoned] b (reapExpiredSessions now b).2 := by
  refine IsFrame.foldl Prod.snd (b.dueSessions now) (0, b) fun acc s _ => ?_
  unfold expireSession
  split
  · exact tombstone_traced
  · exact IsFrame.refl _

/-- The statements of a sweep. -/
def sweepStmts : List Stmt := [.timedOut, .exhausted, .lapsed, .buried, .abandoned]

/-- A sweep never refuses, and is its passes one after another. -/
theorem sweep_snd : (sweep env mom b).2 = reapStalePendingNames mom.now (reapExpiredSessions mom.now
    (reapAcceptanceTtl mom.now (reapAckTimeouts env mom b).db).2).2 := rfl

/-- After the acknowledgement pass, a sweep only takes deliveries down. -/
theorem sweep_rest_traced : Traced env mom.now [.lapsed, .buried, .abandoned]
    (reapAckTimeouts env mom b).db (sweep env mom b).2 := by
  rw [sweep_snd]
  exact IsFrame.trans (reapAcceptanceTtl_traced.mono (by decide))
    (IsFrame.trans (reapExpiredSessions_traced.mono (by decide)) (.namesOnly .lapse))

theorem sweep_traced (inv : MailInv b) :
    Traced env mom.now sweepStmts b (sweep env mom b).2 :=
  IsFrame.trans ((reapAckTimeouts_traced inv).mono (by decide)) (sweep_rest_traced.mono (by decide))

/-! ## Every operation -/

/-- Statements of the given kinds, after a message was posted or without one. -/
inductive Led (env : Env) (now : Iso) (K : List Stmt) (b b' : Broker) : Prop
  | along (h : Traced env now K b b')
  | posted {m : Message} {b₁ : Broker} (new : Posted b b₁ m) (h : Traced env now K b₁ b')

theorem send_led {input : SendInput} : Respects (Led env now []) (send env now auth input) := by
  refine Refuses.respects (R := Eq) (.transaction _) (fun _ _ h => h ▸ .along (IsFrame.refl _))
    fun b r b' h => ?_
  obtain ⟨-, rfl⟩ | ⟨-, m, hposted, -⟩ := send_ok h
  · exact .along (IsFrame.refl _)
  · exact .posted hposted (IsFrame.refl _)

theorem operatorSend_led {input : OperatorSendInput} :
    Respects (Led env now []) (operatorSend env now input) := by
  refine Refuses.respects (R := Eq) (.transaction _) (fun _ _ h => h ▸ .along (IsFrame.refl _))
    fun b r b' h => ?_
  obtain ⟨-, rfl⟩ | ⟨-, m, hposted, -⟩ := operatorSend_ok h
  · exact .along (IsFrame.refl _)
  · exact .posted hposted (IsFrame.refl _)

theorem reply_led {input : ReplyInput} :
    Respects (Led env now [.answered]) (reply env now auth input) := by
  refine reply_refuses.respects (fun _ _ h => .along (.bookkeeping h)) fun b r b' h => ?_
  obtain ⟨-, orig, -, -, ⟨dup, -, -, -, rfl⟩ | hr⟩ := reply_ok h
  · exact .along (IsFrame.refl _)
  · obtain ⟨b₁, row, hposted, -, -, -, -, -, -, -, hdel, hmsgs, -⟩ := hr.posted
    exact .posted hposted (answered_traced hmsgs hdel)

/-- The statements of an operation. -/
def stmtsOf : Op → List Stmt
  | .register _ => [.requeued]
  | .checkpointPull _ _ _ | .processNext _ _ | .inboxView _ _ _ | .daemonCheckpointPull _ _ =>
    [.written, .completed]
  | .ack _ _ => [.acked]
  | .reply _ _ => [.answered]
  | .sweep => sweepStmts
  | .operatorRedeliver _ _ => [.rearmed, .replayed]
  | .redrive _ _ => [.redriven]
  | .discard _ => [.discarded]
  | .operatorRemoveRecord _ => [.removed]
  | _ => []

theorem withCheckpoint_traced {α : Type} {x : CheckpointId → BrokerCall α}
    {given : Option String} {K : List Stmt} (hx : ∀ ck, Respects (Traced env now K) (x ck)) :
    Respects (Traced env now K) (checkpointOf given >>= x) := by
  cases given with
  | some text => exact hx _
  | none => exact Respects.bind (.act fun _ => .of_eq rfl rfl) hx

theorem exec_led (inv : MailInv b) (mom : Moment) (op : Op) :
    Led env mom.now (stmtsOf op) b (exec env mom op b).2 := by
  have hquiet (hk : (kindsOf false op).all quiet = true) :
      Led env mom.now (stmtsOf op) b (exec env mom op b).2 :=
    .along ((exec_moves env mom op b false (by simp)).traced hk)
  cases op with
  | register input => exact .along (register_traced.map b)
  | send auth input => exact send_led.map b
  | operatorSend input => exact operatorSend_led.map b
  | checkpointPull auth given limit =>
    exact .along (withCheckpoint_traced (fun ck => checkpointPull_traced.map) b)
  | processNext auth given =>
    exact .along (withCheckpoint_traced (fun ck => processNext_traced.map) b)
  | inboxView auth given limit =>
    exact .along (withCheckpoint_traced (fun ck => inboxView_traced.map) b)
  | daemonCheckpointPull auth limit => exact .along (daemonCheckpointPull_traced.map b)
  | ack auth input => exact .along (ack_traced.map b)
  | reply auth input => exact reply_led.map b
  | sweep =>
    simp only [exec, Call.map_snd]
    exact .along (sweep_traced inv)
  | operatorRedeliver mid confirm => exact .along (operatorRedeliver_traced.map b)
  | redrive mid validate =>
    simp only [exec, Call.map_snd]
    exact .along (redrive_traced inv)
  | discard mid => exact .along (discard_traced.map b)
  | operatorRemoveRecord sid => exact .along (operatorRemoveRecord_traced.map b)
  | peek auth limit | redeliver auth mid | registerAlias auth raw
  | renameSession auth raw secret | signalReadiness auth hints | setControl auth mode
  | blockPeer auth handle unblock | connClosed auth conn | operatorRenameAlias sid raw
  | operatorSetControl sid mode | recordManagedSession sid | importDormantSession sid
  | ensureOperatorSession => exact hquiet rfl

/-- The statements of what happens at the desk. -/
def deskStmts : DeskOp → List Stmt
  | .store op => stmtsOf op
  | .cancel _ => [.cancelled]
  | .recordWakeAttempt _ _ _ => []

theorem desk_led (inv : MailInv b) (mom : Moment) (op : DeskOp) :
    Led env mom.now (deskStmts op) b (op.call env mom b).2 := by
  cases op with
  | store op =>
    simp only [DeskOp.call, Call.map_snd]
    exact exec_led inv mom op
  | cancel mid => exact .along (cancel_traced.map b)
  | recordWakeAttempt mid sid outcome => exact .along (.of_eq rfl rfl)

end Proof
end XBus
