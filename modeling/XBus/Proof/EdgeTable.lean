import XBus.Proof.Finality
import XBus.Proof.Sweeps

/-!
# The store and the table of edges

`states.ts` declares `EDGES` to be the authoritative set of transitions; the stores change states by
updates of their own. Operation by operation, what `Rewrites` says about rows is compared with the
table: `Declared` is what the table allows, with the two compositions that skip `dispatching` or a
`retry_wait` nobody sees, and `Beyond` is what the stores do besides. There are three such
transitions: a pull finishes at once what asks for no response, a registration takes what was
presented to its own session back into the queue, and a sweep buries what was queued for a session
that it expires.
-/

set_option autoImplicit false

namespace XBus
namespace Proof

open Lib

variable {env : Env} {mom : Moment} {now : Iso} {b b' : Broker} {ack reply : Bool}
  {d d' : Delivery}

/-! ## The table -/

/-- An edge whose guard holds for a message with this `requires_ack`. -/
def edgeAllows (e : XBus.Edge) (ack : Bool) (source target : DeliveryState) : Bool :=
  e.source = source ∧ e.target = target ∧ e.guard.all (· = ack)

/-- An edge under the first trigger, and one under the second from where it leads. -/
def Composed (first second : Trigger) (source target : DeliveryState) : Prop :=
  ∃ e ∈ edges, ∃ e' ∈ edges, e.trigger = first ∧ e'.trigger = second ∧ e.source = source ∧
    e'.source = e.target ∧ e'.target = target

instance (first second : Trigger) (source target : DeliveryState) :
    Decidable (Composed first second source target) :=
  inferInstanceAs (Decidable (∃ e ∈ edges, ∃ e' ∈ edges, _))

/-- What the table declares: an edge, or one of the compositions the stores make in one update. -/
def Declared (ack : Bool) (source target : DeliveryState) : Prop :=
  (∃ e ∈ edges, edgeAllows e ack source target = true) ∨
    Composed .pickup .writeOk source target ∨ Composed .backoffElapsed .writeOk source target ∨
    Composed .ackTimeout .maxAttempts source target

instance (ack : Bool) (source target : DeliveryState) : Decidable (Declared ack source target) :=
  inferInstanceAs (Decidable (_ ∨ _))

/-- What the stores do besides to a delivery `d`, from the state `b` to `b'`. -/
inductive Beyond (env : Env) (mom : Moment) (b b' : Broker) (op : DeskOp) (d : Delivery) :
    DeliveryState → DeliveryState → Prop
  /-- Shown, and done: nobody is asked for anything. -/
  | finished (pull : pullsAt op = true) (noAck : b.requiresAck d.messageId = false)
      (noReply : b.requiresReply d.messageId = false) :
      Beyond env mom b b' op d .queued .completed
  /-- Its recipient registers, as a new owner or after the deadline, and has it presented again. -/
  | recovered {input : RegisterInput} {a : SessionAuthority}
      (registers : op = .store (.register input))
      (answered : register env mom input b = (.ok a, b'))
      (recipient : d.recipientSessionId = a.sessionId)
      (abandoned : b.epochOf a.sessionId ≠ some a.epoch ∨
        d.leaseExpiresAt.all (fun t => t.le mom.now) = true) :
      Beyond env mom b b' op d .transportWritten .queued
  /-- Its recipient had been inactive for too long, and expires. -/
  | buried (sweep : op = .store .sweep)
      (due : dueToExpire b mom.now d.recipientSessionId = true)
      (expired : b'.isExpired d.recipientSessionId = true) :
      Beyond env mom b b' op d .queued .deadLetter

/-- Where a sweep can lead from a state. -/
def sweeps : DeliveryState → List DeliveryState
  | .queued => [.expired, .deadLetter]
  | .retryWait => [.expired, .deadLetter]
  | .transportWritten => [.retryWait, .expired, .deadLetter]
  | .accepted => [.expired]
  | _ => []

section Table

variable {a c : DeliveryState}

theorem declared_written (h : a.waiting = true) : Declared ack a .transportWritten := by
  revert h
  cases a <;> cases ack <;> decide

theorem declared_cancelled (h : a.waiting = true) : Declared ack a .cancelled := by
  revert h
  cases a <;> cases ack <;> decide

theorem declared_acked (accept : Bool) :
    Declared ack .transportWritten (if accept then .accepted else .rejected) := by
  cases accept <;> cases ack <;> decide

theorem declared_completed (h : a = .accepted ∨ (a = .transportWritten ∧ ack = false)) :
    Declared ack a .completed := by
  rcases h with rfl | ⟨rfl, rfl⟩
  · cases ack <;> decide
  · decide

theorem declared_swept (h : c ∈ sweeps a) (hburied : ¬ (a = .queued ∧ c = .deadLetter)) :
    Declared ack a c := by
  revert h hburied
  cases a <;> cases c <;> cases ack <;> decide

end Table

/-! ## Operations -/

theorem Path.pulled (h : Path env now [.written, .completed] ack reply d d') :
    d'.state = d.state ∨ (d.state.waiting = true ∧ d'.state = .transportWritten) ∨
      ((d.state.waiting = true ∨ d.state = .transportWritten) ∧ d'.state = .completed ∧
        ack = false ∧ reply = false) := by
  refine h.keeps (P := fun x => x.state = d.state ∨ (d.state.waiting = true ∧
    x.state = .transportWritten) ∨ ((d.state.waiting = true ∨ d.state = .transportWritten) ∧
      x.state = .completed ∧ ack = false ∧ reply = false)) (.inl rfl) fun s hs x y hstep hx => ?_
  cases hstep with
  | written waits =>
    rcases hx with hx | ⟨-, hx⟩ | ⟨-, hx, -⟩
    · exact .inr (.inl ⟨hx ▸ waits, rfl⟩)
    · rw [hx] at waits
      cases waits
    · rw [hx] at waits
      cases waits
  | completed flies noAck noReply =>
    rcases hx with hx | ⟨hw, -⟩ | ⟨hor, -⟩
    · exact .inr (.inr ⟨.inr (hx ▸ flies), rfl, noAck, noReply⟩)
    · exact .inr (.inr ⟨.inl hw, rfl, noAck, noReply⟩)
    · exact .inr (.inr ⟨hor, rfl, noAck, noReply⟩)
  | _ => simp at hs

theorem Path.swept (h : Path env now sweepStmts ack reply d d') :
    d'.state = d.state ∨ d'.state ∈ sweeps d.state := by
  refine h.keeps (P := fun x => x.state = d.state ∨ x.state ∈ sweeps d.state) (.inl rfl)
    fun s hs x y hstep hx => ?_
  -- From `x` on, one statement at a time; every state a sweep leads to is closed under it.
  have hclosed (a c : DeliveryState) (hac : c ∈ sweeps a) :
      ∀ e ∈ sweeps c, e ∈ sweeps a := by
    cases a <;> cases c <;> revert hac <;> decide
  have hfirst : y.state ∈ sweeps x.state := by
    have hwaits (hw : x.state.waiting = true) :
        .expired ∈ sweeps x.state ∧ .deadLetter ∈ sweeps x.state := by
      revert hw
      cases x.state <;> decide
    cases hstep with
    | timedOut flies | exhausted flies => rw [flies]; simp [sweeps]
    | lapsed waits => exact (hwaits waits).1
    | buried unsettled =>
      rcases unsettled with waits | flies
      · exact (hwaits waits).2
      · rw [flies]
        simp [sweeps]
    | abandoned accepted => rw [accepted]; simp [sweeps]
    | _ => simp [sweepStmts] at hs
  rcases hx with hx | hx
  · exact .inr (hx ▸ hfirst)
  · exact .inr (hclosed _ _ hx _ hfirst)

/-- A reply completes the delivery it answers, and no other; and it leaves a receipt. -/
theorem reply_onward {auth : SessionAuthority} {input : ReplyInput} (hd : d ∈ b.deliveries) :
    ∃ d' ∈ (XBus.reply env now auth input b).2.deliveries, d' = d ∨
      (d' = answered input.messageId now d ∧
        ∃ x ∈ (XBus.reply env now auth input b).2.receipts,
          x.messageId = input.messageId ∧ x.receiptType = .reply) := by
  rcases hr : XBus.reply env now auth input b with ⟨f | r, b'⟩
  · exact ⟨d, (reply_refuses b f b' hr).deliveries ▸ hd, .inl rfl⟩
  · obtain ⟨-, orig, -, -, ⟨dup, -, -, -, rfl⟩ | hreplied⟩ := reply_ok hr
    · exact ⟨d, hd, .inl rfl⟩
    · obtain ⟨b₁, row, hposted, -, -, -, -, -, -, -, hdel, -⟩ := hreplied.posted
      obtain ⟨id, at', hnew⟩ := hposted.deliveries
      refine ⟨answered input.messageId now d, ?_, .inr ⟨rfl, hreplied.receipt⟩⟩
      rw [hdel, hnew]
      exact List.mem_map_of_mem (List.mem_append_left _ hd)

theorem answered_messageId {mid : Id} : (answered mid now d).messageId = d.messageId := by
  unfold answered
  split <;> rfl

/-- The explicit recoveries, by the operator and from the dead letters. -/
def recovers : DeskOp → Bool
  | .store (.operatorRedeliver _ _) | .store (.redrive _ _) | .store (.discard _)
  | .store (.operatorRemoveRecord _) => true
  | _ => false

/-- A reply to a message in flight that was to be acknowledged first. -/
def RepliesUnacked (b : Broker) (op : DeskOp) (d : Delivery) : Prop :=
  ∃ auth input, op = .store (.reply auth input) ∧ input.messageId = d.messageId ∧
    d.state = .transportWritten ∧ b.requiresAck d.messageId = true

/-! ### Registrations -/

/-- A registration takes back what its session abandoned, and nothing else. -/
theorem register_onward {raw : RegisterInput} {a : SessionAuthority}
    (h : register env mom raw b = (.ok a, b')) (hd : d ∈ b.deliveries) :
    ∃ d' ∈ b'.deliveries, d' = d ∨ (d.state = .transportWritten ∧
      d.recipientSessionId = a.sessionId ∧ (b.epochOf a.sessionId ≠ some a.epoch ∨
        d.leaseExpiresAt.all (fun t => t.le mom.now) = true) ∧
      d' = { d with state := .queued, updatedAt := mom.now }) := by
  obtain ⟨reclaim, input, b₁, b₂, hreg⟩ := register_ok h
  obtain ⟨es, hb₁⟩ := hreg.before_eq
  obtain ⟨-, hdel, -⟩ := hreg.seats.seats_mail
  rw [hdel, hreg.sessionId]
  have hentered := hreg.entered
  generalize hepoch : a.epoch = epoch at hentered
  -- An advance requeues every delivery in flight, a join those whose lease has lapsed.
  cases hentered with
  | created absent =>
    obtain ⟨as, es', n, hb₂, -⟩ := createSession_eq b₁ env input
    refine ⟨d, ?_, .inl rfl⟩
    rw [hb₂, hb₁]
    exact hd
  | @advanced s found =>
    obtain ⟨is, as, es', n, hb₂, -⟩ := advanceEpoch_eq b₁ env mom.now input.sessionId
      (s.activeEpoch + 1) s.expiredAt.isSome
    refine ⟨requeued input.sessionId mom.now (fun _ => true) d, ?_, ?_⟩
    · rw [hb₂, hb₁]
      exact List.mem_map_of_mem hd
    · unfold requeued
      split
      · rename_i hp
        refine .inr ⟨hp.2.1, hp.1, .inl ?_, rfl⟩
        have hcurrent : b.epochOf input.sessionId = some s.activeEpoch := by
          rw [hb₁] at found
          exact congrArg (Option.map (·.activeEpoch)) found
        rw [hcurrent]
        exact fun heq => absurd (Option.some.inj heq) (Nat.succ_ne_self _).symm
      · exact .inl rfl
  | @joined s found =>
    refine ⟨requeued input.sessionId mom.now (fun d => d.leaseExpiresAt.all fun t =>
      t.le mom.now) d, ?_, ?_⟩
    · rw [joinEpoch_eq, hb₁]
      exact List.mem_map_of_mem hd
    · unfold requeued
      split
      · rename_i hp
        exact .inr ⟨hp.2.1, hp.1, .inr hp.2.2, rfl⟩
      · exact .inl rfl

/-! ### Sweeps -/

/-- A sweep dead-letters what is queued only for the sessions it expires. -/
theorem sweptRow_queued (queued : d.state = .queued)
    (h : (sweptRow env mom b d).state = .deadLetter) :
    dueToExpire b mom.now d.recipientSessionId = true := by
  have hserved : d ∉ served b env mom.now := by
    intro hserved
    rw [(served_lapsed hserved).flies] at queued
    cases queued
  by_contra hdue
  have hexpired : ¬ dueToExpire b mom.now (ttlExpired mom.now d).recipientSessionId = true := hdue
  rw [sweptRow, if_neg hserved] at h
  split_ifs at h
  · cases h
  · rw [queued] at h
    cases h

/-! ### The rows one by one -/

/-- What a path of an operation's statements may do, registrations, sweeps and replies apart. -/
theorem path_declared {op : DeskOp} (hop : recovers op = false)
    (hreply : ∀ auth input, op ≠ .store (.reply auth input))
    (hregister : ∀ input, op ≠ .store (.register input)) (hsweep : op ≠ .store .sweep)
    (hack : AckOwed (b.requiresAck d.messageId) d)
    (h : Path env now (deskStmts op) (b.requiresAck d.messageId) (b.requiresReply d.messageId)
      d d') :
    d'.state = d.state ∨ Declared (b.requiresAck d.messageId) d.state d'.state ∨
      Beyond env mom b b' op d d.state d'.state := by
  -- An operation without statements on deliveries leaves each where it is.
  have hstill (K : List Stmt) (hK : K = []) (h : Path env now K (b.requiresAck d.messageId)
      (b.requiresReply d.messageId) d d') : d'.state = d.state := by
    subst hK
    exact h.keeps (P := fun x => x.state = d.state) rfl fun s hs => by simp at hs
  -- A pull writes a delivery out, or finishes one that nobody has to acknowledge.
  have hpulled (hpull : pullsAt op = true) (h : Path env now [.written, .completed]
      (b.requiresAck d.messageId) (b.requiresReply d.messageId) d d') :
      d'.state = d.state ∨ Declared (b.requiresAck d.messageId) d.state d'.state ∨
        Beyond env mom b b' op d d.state d'.state := by
    rcases h.pulled with hsame | ⟨waits, hto⟩ | ⟨hor, hto, noAck, noReply⟩
    · exact .inl hsame
    · rw [hto]
      exact .inr (.inl (declared_written waits))
    · rw [hto]
      rcases hor with waits | flies
      · cases hstate : d.state with
        | queued => exact .inr (.inr (.finished hpull noAck noReply))
        | retryWait => exact absurd (hack.retry hstate) (by simp [noAck])
        | _ => rw [hstate] at waits; cases waits
      · exact .inr (.inl (declared_completed (.inr ⟨flies, noAck⟩)))
  cases op with
  | cancel mid =>
    have honce := h.once fun x y z hxy hyz => by
      cases hxy
      cases hyz with | cancelled waits => cases waits
    rcases honce with rfl | hstep
    · exact .inl rfl
    · cases hstep with
      | cancelled waits => exact .inr (.inl (declared_cancelled waits))
  | recordWakeAttempt mid sid outcome => exact .inl (hstill _ rfl h)
  | store op =>
    cases op with
    | checkpointPull | processNext | inboxView | daemonCheckpointPull => exact hpulled rfl h
    | ack auth input =>
      have honce := h.once fun x y z hxy hyz => by
        cases hxy with
        | acked _ accept => cases accept <;> cases hyz with | acked flies => cases flies
      rcases honce with rfl | hstep
      · exact .inl rfl
      · cases hstep with
        | acked flies accept =>
          rw [flies]
          exact .inr (.inl (declared_acked accept))
    | register input => exact absurd rfl (hregister input)
    | reply auth input => exact absurd rfl (hreply auth input)
    | sweep => exact absurd rfl hsweep
    | operatorRedeliver | redrive | discard | operatorRemoveRecord => cases hop
    | _ => exact .inl (hstill _ rfl h)

/-- At the desk the stores do what they do. -/
theorem store_call {op : Op} :
    ((DeskOp.store op).call env mom b).2 = (exec env mom op b).2 := by
  simp only [DeskOp.call, Call.map_snd]

/-- Every row of a state goes on as the table says, or in one of the three ways beyond it. -/
theorem desk_declared (mail : MailInv b) {op : DeskOp} (hop : recovers op = false)
    (hd : d ∈ b.deliveries) (hack : AckOwed (b.requiresAck d.messageId) d)
    (hunacked : ¬ RepliesUnacked b op d) :
    ∃ d' ∈ (op.call env mom b).2.deliveries, d'.messageId = d.messageId ∧
      (d'.state = d.state ∨ Declared (b.requiresAck d.messageId) d.state d'.state ∨
        Beyond env mom b (op.call env mom b).2 op d d.state d'.state) := by
  by_cases hreply : ∃ auth input, op = .store (.reply auth input)
  · obtain ⟨auth, input, rfl⟩ := hreply
    rw [store_call, exec, Call.map_snd]
    obtain ⟨d', hd', rfl | ⟨rfl, -⟩⟩ : ∃ d' ∈ (XBus.reply env mom.now auth input b).2.deliveries,
        d' = d ∨ (d' = answered input.messageId mom.now d ∧ _) := reply_onward hd
    · exact ⟨d', hd', rfl, .inl rfl⟩
    · refine ⟨_, hd', answered_messageId, ?_⟩
      unfold answered
      split
      · rename_i hmeets
        obtain ⟨hmid, haccepted | hflies⟩ := hmeets
        · exact .inr (.inl (declared_completed (.inl haccepted)))
        · cases howed : b.requiresAck d.messageId with
          | true => exact absurd ⟨auth, input, rfl, hmid.symm, hflies, howed⟩ hunacked
          | false => exact .inr (.inl (declared_completed (.inr ⟨hflies, rfl⟩)))
      · exact .inl rfl
  by_cases hregister : ∃ input, op = .store (.register input)
  · obtain ⟨input, rfl⟩ := hregister
    rw [store_call, exec, Call.map_snd]
    rcases hr : register env mom input b with ⟨f | a, b'⟩
    · obtain rfl : b = b' := register_refuses b f b' hr
      exact ⟨d, hd, rfl, .inl rfl⟩
    · obtain ⟨x, hx, rfl | ⟨flies, recipient, abandoned, rfl⟩⟩ := register_onward hr hd
      · exact ⟨x, hx, rfl, .inl rfl⟩
      · refine ⟨_, hx, rfl, .inr (.inr ?_)⟩
        rw [flies]
        exact .recovered rfl hr recipient abandoned
  by_cases hsweep : op = .store .sweep
  · subst hsweep
    have mail' : MailInv ((DeskOp.store .sweep).call env mom b).2 :=
      (desk_moves env mom _ b).mailInv mail
    obtain ⟨d', hd', hpath⟩ := (desk_follows mail mom (.store .sweep)).onward d hd
    -- The row a path leads to is the row the passes leave.
    have hrow : sweptRow env mom b d ∈ ((DeskOp.store .sweep).call env mom b).2.deliveries := by
      rw [store_call, exec, Call.map_snd, sweep_rows mail]
      exact List.mem_map_of_mem hd
    obtain rfl := mail'.delivery_eq hrow hd' (sweptRow_messageId.trans hpath.messageId.symm)
    refine ⟨_, hd', sweptRow_messageId, ?_⟩
    refine hpath.swept.imp_right fun hto => ?_
    by_cases hburied : d.state = .queued ∧ (sweptRow env mom b d).state = .deadLetter
    · have hdue := sweptRow_queued hburied.1 hburied.2
      rw [hburied.1, hburied.2]
      refine .inr (.buried rfl hdue ?_)
      rw [store_call, exec, Call.map_snd]
      exact sweep_expires hdue
    · exact .inl (declared_swept hto hburied)
  have hf : Follows env mom.now (deskStmts op) b (op.call env mom b).2 := desk_follows mail mom op
  obtain ⟨d', hd', hpath⟩ := hf.onward d hd
  exact ⟨d', hd', hpath.messageId, path_declared hop
    (fun auth input heq => hreply ⟨auth, input, heq⟩)
    (fun input heq => hregister ⟨input, heq⟩) hsweep hack hpath⟩

/-- **The stores keep to the table.** In every reachable state and for every operation apart from
    the explicit recoveries, the state of a delivery is left alone, or changed as the table
    declares, or in one of the three ways beyond it. What a reply does to a delivery that was to be
    acknowledged first is left open. -/
theorem store_refines_edges {u : Desk} (h : u.Reachable env Any) (e : DeskEvent)
    (hop : recovers e.1 = false) {mid : Id} (hd : u.db.delivery? mid = some d)
    (hunacked : ¬ RepliesUnacked u.db e.1 d) :
    ∃ d', (u.step env e).2.db.delivery? mid = some d' ∧ (d'.state = d.state ∨
      Declared (u.db.requiresAck mid) d.state d'.state ∨
      Beyond env e.2 u.db (u.step env e).2.db e.1 d d.state d'.state) := by
  have mail := mailInv_of_desk h
  have mail' : MailInv (u.step env e).2.db := (desk_moves env e.2 e.1 u.db).mailInv mail
  have hmem := List.mem_of_find?_eq_some hd
  have hid : d.messageId = mid := by simpa using List.find?_some hd
  subst hid
  obtain ⟨d', hd', hsame, hor⟩ := desk_declared mail hop hmem (ackOwed_of_desk h hmem) hunacked
  exact ⟨d', hsame ▸ mail'.delivery?_of_mem hd', hor⟩

/-- The request's acknowledgement times out: the table has the edge. -/
theorem request_timeout_declared :
    let u := deskAfter (atDesk requestPulled)
    let e : DeskEvent := (.store .sweep, { nowMs := 400000 })
    ∃ x, u.db.delivery? 8 = some x ∧ x.state = .transportWritten ∧
      ∃ x', (u.step plainEnv e).2.db.delivery? 8 = some x' ∧ (x'.state = x.state ∨
        Declared (u.db.requiresAck 8) x.state x'.state ∨
        Beyond plainEnv e.2 u.db (u.step plainEnv e).2.db e.1 x x.state x'.state) := by
  intro u e
  have hflies : (u.db.delivery? 8).map (·.state) = some .transportWritten := by decide +kernel
  obtain ⟨x, hx, hstate⟩ := Option.map_eq_some_iff.mp hflies
  exact ⟨x, hx, hstate, store_refines_edges (reachable_deskAfter _) e rfl hx
    fun ⟨_, _, hreply, _⟩ => nomatch hreply⟩

/-- A takeover of `beta` puts the request that was in flight back into the queue. -/
theorem takeover_requeues_beyond_edges :
    let u := deskAfter (atDesk requestPulled)
    let e : DeskEvent := (.store (.register betaTakenOver), { nowMs := 2000 })
    u.Reachable plainEnv Any ∧ recovers e.1 = false ∧
      (u.db.delivery? 8).map (·.state) = some .transportWritten ∧
      ((u.step plainEnv e).2.db.delivery? 8).map (·.state) = some .queued ∧
      ¬ Declared (u.db.requiresAck 8) .transportWritten .queued := by
  refine ⟨reachable_deskAfter _, rfl, ?_⟩
  decide +kernel

end Proof
end XBus
