import XBus.Proof.Outgoing
import XBus.Proof.Rewrites
import XBus.Proof.Takeover

/-!
# Final states, and who is waited for

The statements of `Rewrites`, over whole runs of the desk. A row in a terminal state is met by no
statement but those of `redrive` and `discard`, so there it stays; and what a row says about
acknowledgements (its deadline, the wait for a retry, the flight) is something each statement
keeps, given the flags of the message.

One part is not a matter of single statements. A pull marks a delivery before it knows whether the
body may be shown, and a message that asks for no response is completed only if it may. That such a
message is never left in flight holds because it is shown once and is completed then: `Unasked`.
-/

set_option autoImplicit false

namespace XBus
namespace Proof

open Lib

variable {env : Env} {mom : Moment} {now : Iso} {auth : SessionAuthority} {b b' b'' : Broker}
  {K : List Stmt}

/-! ## From row to row -/

/-- A row as a send writes it. -/
structure NewlyQueued (b : Broker) (d : Delivery) : Prop where
  new : ∀ x ∈ b.deliveries, x.messageId ≠ d.messageId
  state : d.state = .queued
  lease : d.leaseExpiresAt = none
  category : d.failureCategory = none
  attempts : d.attemptAckTimeout = 0

/-- Every row leads along a path to one row, and every row came that way or was posted. -/
structure Follows (env : Env) (now : Iso) (K : List Stmt) (b b' : Broker) : Prop where
  flags : ∀ d ∈ b.deliveries, b'.requiresAck d.messageId = b.requiresAck d.messageId ∧
    b'.requiresReply d.messageId = b.requiresReply d.messageId
  onward : ∀ d ∈ b.deliveries, ∃ d' ∈ b'.deliveries,
    Path env now K (b.requiresAck d.messageId) (b.requiresReply d.messageId) d d'
  back : ∀ d' ∈ b'.deliveries, ∃ d, (d ∈ b.deliveries ∨ NewlyQueued b d) ∧
    Path env now K (b'.requiresAck d.messageId) (b'.requiresReply d.messageId) d d'

/-- What was stored with a delivery is stored under a message. -/
theorem MailInv.found (inv : MailInv b) {d : Delivery} (hd : d ∈ b.deliveries) :
    ∃ m, b.message? d.messageId = some m := by
  have hpair : Delivery.pair d ∈ b.messages.map Message.pair :=
    inv.pairs ▸ List.mem_map_of_mem hd
  obtain ⟨m, hm, hpair⟩ := List.mem_map.mp hpair
  have hid : m.messageId = d.messageId := congrArg Prod.fst hpair
  exact ⟨m, hid ▸ find?_key_of_mem inv.unique hm⟩

/-- The same messages have the same deliveries, one each. -/
theorem Traced.onward (h : Traced env now K b b') (inv : MailInv b) (inv' : MailInv b')
    {d : Delivery} (hd : d ∈ b.deliveries) : ∃ d' ∈ b'.deliveries,
      Path env now K (b.requiresAck d.messageId) (b.requiresReply d.messageId) d d' := by
  have hpair : Delivery.pair d ∈ b'.deliveries.map Delivery.pair := by
    rw [inv'.pairs, h.messages, ← inv.pairs]
    exact List.mem_map_of_mem hd
  obtain ⟨d', hd', hpair⟩ := List.mem_map.mp hpair
  obtain ⟨x, hx, hpath⟩ := h.rows d' hd'
  have hid : x.messageId = d.messageId := hpath.messageId.symm.trans (congrArg Prod.fst hpair)
  obtain rfl := inv.delivery_eq hx hd hid
  exact ⟨d', hd', hpath⟩

theorem Traced.follows (h : Traced env now K b b') (inv : MailInv b) (inv' : MailInv b') :
    Follows env now K b b' := by
  refine ⟨fun d _ => ⟨requiresAck_congr h.messages _, requiresReply_congr h.messages _⟩,
    fun d hd => h.onward inv inv' hd, fun d' hd' => ?_⟩
  obtain ⟨d, hd, hpath⟩ := h.rows d' hd'
  rw [← requiresAck_congr h.messages, ← requiresReply_congr h.messages] at hpath
  exact ⟨d, .inl hd, hpath⟩

theorem Posted.message? {m : Message} (h : Posted b b' m) {mid : Id} {x : Message}
    (hx : b.message? mid = some x) : b'.message? mid = some x := by
  rw [Broker.message?, h.messages, List.find?_append]
  simp only [Broker.message?] at hx
  rw [hx]
  rfl

/-- The new row is under an id that no delivery had. -/
theorem Posted.newlyQueued {m : Message} (h : Posted b b' m) (inv : MailInv b) {d : Delivery}
    (hd : d ∈ b'.deliveries) : d ∈ b.deliveries ∨ NewlyQueued b d := by
  obtain ⟨id, at', hdel⟩ := h.deliveries
  rw [hdel, List.mem_append, List.mem_singleton] at hd
  refine hd.imp_right ?_
  rintro rfl
  refine ⟨fun x hx heq => ?_, rfl, rfl, rfl, rfl⟩
  have hbelow : x.messageId < b.nextId := inv.below_of_addressed ⟨x, hx, rfl, rfl⟩
  exact absurd (lt_of_eq_of_lt heq.symm hbelow) (Nat.not_lt.mpr h.fresh)

theorem Led.follows (h : Led env now K b b') (inv : MailInv b) (inv' : MailInv b') :
    Follows env now K b b' := by
  cases h with
  | along h => exact h.follows inv inv'
  | @posted m b₁ new h =>
    have inv₁ : MailInv b₁ := new.keeps inv
    have hf := h.follows inv₁ inv'
    have hmem (d : Delivery) (hd : d ∈ b.deliveries) : d ∈ b₁.deliveries := by
      obtain ⟨id, at', hdel⟩ := new.deliveries
      rw [hdel]
      exact List.mem_append_left _ hd
    have hflags (d : Delivery) (hd : d ∈ b.deliveries) :
        b₁.requiresAck d.messageId = b.requiresAck d.messageId ∧
          b₁.requiresReply d.messageId = b.requiresReply d.messageId := by
      obtain ⟨x, hx⟩ := inv.found hd
      simp [Broker.requiresAck, Broker.requiresReply, hx, new.message? hx]
    refine ⟨fun d hd => ?_, fun d hd => ?_, fun d' hd' => ?_⟩
    · obtain ⟨hack, hreply⟩ := hf.flags d (hmem d hd)
      exact ⟨hack.trans (hflags d hd).1, hreply.trans (hflags d hd).2⟩
    · rw [← (hflags d hd).1, ← (hflags d hd).2]
      exact hf.onward d (hmem d hd)
    · obtain ⟨d, hd, hpath⟩ := hf.back d' hd'
      rcases hd with hd | hd
      · exact ⟨d, new.newlyQueued inv hd, hpath⟩
      · exact ⟨d, .inr ⟨fun x hx => hd.new x (hmem x hx), hd.state, hd.lease, hd.category,
          hd.attempts⟩, hpath⟩

/-! ## Runs of the desk -/

theorem cancel_respects {mid : Id} : Respects (Moves env [.note, .restate]) (cancel now mid) := by
  refine Respects.transaction (Respects.bind .get fun b => ?_)
  split
  · exact .pure _
  · refine .ite (Respects.bind (.modify fun b => ?_) fun _ => .pure _)
      (.ite (Respects.bind (.modify fun _ => .note (by simp) .audit) fun _ => .pure _)
        (.ite (.pure _) (.pure _)))
    refine moves_restated (by simp) (by simp) (fun _ => ⟨rfl, rfl⟩) (fun _ => by simp)
      fun d hd hc => ?_
    simp [hc, DeliveryState.waiting] at hd

/-- The moves at the desk. -/
def deskKinds : DeskOp → List Kind
  | .store op => kindsOf false op
  | .cancel _ => [.note, .restate]
  | .recordWakeAttempt _ _ _ => [.note]

theorem desk_moves (env : Env) (mom : Moment) (op : DeskOp) (b : Broker) :
    Moves env (deskKinds op) b (op.call env mom b).2 := by
  cases op with
  | store op =>
    simp only [DeskOp.call, Call.map_snd]
    exact exec_moves env mom op b false (by simp)
  | cancel mid => exact cancel_respects.map b
  | recordWakeAttempt mid sid outcome => exact .note (by simp [deskKinds]) .audit

theorem deskReachable_mono {ok ok' : Desk → DeskEvent → Prop} {d : Desk} (h : d.Reachable env ok)
    (hok : ∀ u e, ok u e → ok' u e) : d.Reachable env ok' := by
  obtain ⟨log, run⟩ := h
  exact ⟨log, run.mono hok⟩

/-- The desk's steps are moves of the stores. -/
theorem desk_of_moves {P : Broker → Prop} {ok : Desk → DeskEvent → Prop} {d : Desk}
    (hinit : P (initial env)) (hmove : ∀ b b' k, Move env k b b' → P b → P b')
    (h : d.Reachable env ok) : P d.db := by
  obtain ⟨log, run⟩ := h
  refine run.invariant (P := fun d => P d.db) hinit fun u e hu _ => ?_
  exact (desk_moves env e.2 e.1 u.db).keeps hu fun b b' k _ => hmove b b' k

theorem mailInv_of_desk {ok : Desk → DeskEvent → Prop} {d : Desk} (h : d.Reachable env ok) :
    MailInv d.db :=
  desk_of_moves mailInv_initial (fun _ _ _ hmove hb => hmove.mailInv hb) h

/-- **Every step at the desk**, row by row. -/
theorem desk_follows (inv : MailInv b) (mom : Moment) (op : DeskOp) :
    Follows env mom.now (deskStmts op) b (op.call env mom b).2 :=
  (desk_led inv mom op).follows inv ((desk_moves env mom op b).mailInv inv)

/-! ## Bodies on record -/

/-- A body of the message has been recorded as shown, in some epoch. -/
def Viewed (b : Broker) (mid : Id) : Prop := ∃ i ∈ b.injections, i.messageId = mid

theorem MailInv.delivery_of_viewed (inv : MailInv b) {mid : Id} (h : Viewed b mid) :
    ∃ d ∈ b.deliveries, d.messageId = mid := by
  obtain ⟨i, hi, rfl⟩ := h
  obtain ⟨d, hd, hid, -⟩ := inv.rows i hi
  exact ⟨d, hd, hid⟩

/-- What a pull does to the rows of deliveries and to those on record. -/
structure PullSpec (b b' : Broker) : Prop where
  messages : b'.messages = b.messages
  rows : ∀ d' ∈ b'.deliveries, ∃ d ∈ b.deliveries, d'.messageId = d.messageId ∧ (d' = d ∨
    ∃ m again, b.message? d.messageId = some m ∧ d.state.waiting = true ∧
      (again = true → Viewed b d.messageId) ∧ d'.state = landed m again)
  views : ∀ mid, Viewed b' mid → Viewed b mid ∨ ∃ m, b.message? mid = some m ∧
    ∃ d' ∈ b'.deliveries, d'.messageId = mid ∧ d'.state = landed m false

theorem Foretold.pullSpec (inv : MailInv b) {rows : List Message} {seen : Id → Prop}
    [DecidablePred seen] {ms : List PendingMessage} (h : Foretold b rows seen ms b')
    (hrows : Pullable b rows) (hseen : ∀ mid, seen mid → Viewed b mid) : PullSpec b b' := by
  obtain ⟨g, hdel, hg⟩ := h.deliveries
  have hwaits (m : Message) (hm : m ∈ rows) (d : Delivery) (hd : d ∈ b.deliveries)
      (hid : m.messageId = d.messageId) : d.state.waiting = true := by
    obtain ⟨x, hx, hxid, hwait⟩ := hrows.waits m hm
    rwa [← inv.delivery_eq hx hd (hxid.trans hid)]
  refine ⟨h.messages, fun d' hd' => ?_, fun mid hview => ?_⟩
  · rw [hdel] at hd'
    obtain ⟨d, hd, rfl⟩ := List.mem_map.mp hd'
    refine ⟨d, hd, (hg d hd).messageId, ?_⟩
    by_cases hm : ∃ m ∈ rows, m.messageId = d.messageId
    · obtain ⟨m, hm, hid⟩ := hm
      have hwait := hwaits m hm d hd hid
      refine .inr ⟨m, decide (seen m.messageId), hid ▸ hrows.found m hm, hwait, fun hs => ?_,
        (hg d hd).state m hm hid hwait⟩
      exact hid ▸ hseen _ (of_decide_eq_true hs)
    · exact .inl ((hg d hd).other fun m hmem hid => hm ⟨m, hmem, hid⟩)
  · obtain ⟨i, hi, rfl⟩ := hview
    obtain ⟨is, his, hnew⟩ := h.injections
    rw [his, List.mem_append] at hi
    refine hi.imp (fun hi => ⟨i, hi, rfl⟩) fun hi => ?_
    -- A new row is of a message whose body came back, and that was not seen before.
    have hids : ms.map (·.messageId) =
        (rows.filter fun m => ¬ seen m.messageId).map (·.messageId) := by
      have hkeys := congrArg (List.map (·.messageId)) h.bodies
      rw [List.map_map, List.map_map] at hkeys
      exact hkeys
    obtain ⟨m, hm, hmid⟩ := List.mem_map.mp (hids ▸ hnew i hi)
    obtain ⟨hmem, hunseen⟩ := List.mem_filter.mp hm
    obtain ⟨d, hd, hdid, hwait⟩ := hrows.waits m hmem
    refine ⟨m, hmid ▸ hrows.found m hmem, g d, hdel ▸ List.mem_map_of_mem hd, ?_, ?_⟩
    · rw [(hg d hd).messageId, hdid, hmid]
    · rw [(hg d hd).state m hmem hdid.symm hwait]
      simp [of_decide_eq_true hunseen]

theorem PullSpec.of_bookkeeping (h : Bookkeeping b b') : PullSpec b b' :=
  ⟨h.messages, fun d hd => ⟨d, h.deliveries ▸ hd, rfl, .inl rfl⟩,
    fun _ ⟨i, hi, hid⟩ => .inl ⟨i, h.injections ▸ hi, hid⟩⟩

theorem pending_pullable (inv : MailInv b) {c : Bool} {sid : SessionId} {limit : Nat} :
    Pullable b (if c then b.pendingForSessionId sid limit now else []) := by
  split
  · exact inv.pullable
  · exact ⟨List.nodup_nil, by simp, by simp⟩

theorem viewed_of_seenBefore {ck : CheckpointId} {mid : Id} (h : SeenBefore b auth ck mid) :
    Viewed b mid := by
  obtain ⟨i, hi, hid, -⟩ := h
  exact ⟨i, hi, hid⟩

/-- The same after the checkpoint id was minted. -/
theorem PullSpec.minting {given : Option String} {ck : CheckpointId} {b₁ : Broker}
    (hck : checkpointOf given b = (.ok ck, b₁)) (h : PullSpec b₁ b') : PullSpec b b' := by
  rcases checkpointOf_ok hck with rfl | rfl
  · exact h
  · exact ⟨h.messages, h.rows, h.views⟩

/-- **Every pull**, whether it answers or refuses. -/
theorem exec_pullSpec (inv : MailInv b) {op : Op} (hop : pullsOp op = true) :
    PullSpec b (exec env mom op b).2 := by
  rcases hr : exec env mom op b with ⟨f | r, b'⟩
  · -- A refusal keeps books.
    have hrefuses : Refuses Bookkeeping (exec env mom op) := by
      cases op with
      | checkpointPull =>
        exact Refuses.bind checkpointOf_bookkeeping fun _ => checkpointPull_refuses.map
      | processNext =>
        exact Refuses.bind checkpointOf_bookkeeping fun _ => processNext_refuses.map
      | inboxView => exact Refuses.bind checkpointOf_bookkeeping fun _ => inboxView_refuses.map
      | daemonCheckpointPull => exact daemonCheckpointPull_refuses.map
      | _ => cases hop
    exact .of_bookkeeping (hrefuses b f b' hr)
  · cases op with
    | checkpointPull auth given limit =>
      simp only [exec, Call.bind_ok, Call.map_ok] at hr
      obtain ⟨ck, b₁, hck, ms, hpull, -⟩ := hr
      have inv₁ := inv.minting hck
      exact .minting hck ((checkpointPull_foretold inv₁ hpull).pullSpec inv₁
        (pending_pullable inv₁) fun _ => viewed_of_seenBefore)
    | processNext auth given =>
      simp only [exec, Call.bind_ok, Call.map_ok] at hr
      obtain ⟨ck, b₁, hck, ms, hpull, -⟩ := hr
      have inv₁ := inv.minting hck
      exact .minting hck ((processNext_foretold inv₁ hpull).pullSpec inv₁
        (pending_pullable inv₁) fun _ => viewed_of_seenBefore)
    | inboxView auth given limit =>
      simp only [exec, Call.bind_ok, Call.map_ok] at hr
      obtain ⟨ck, b₁, hck, es, hview, -⟩ := hr
      obtain ⟨ms, hpull, -⟩ := inboxView_fresh hview
      have inv₁ := inv.minting hck
      exact .minting hck ((checkpointPull_foretold inv₁ hpull).pullSpec inv₁
        (pending_pullable inv₁) fun _ => viewed_of_seenBefore)
    | daemonCheckpointPull auth limit =>
      simp only [exec, Call.map_ok] at hr
      obtain ⟨ms, hpull, -⟩ := hr
      exact (daemonCheckpointPull_foretold inv hpull).pullSpec inv inv.pullable
        fun _ => row_of_shown
    | _ => cases hop

/-- Apart from pulls and takeovers, a row is recorded only of what is on record. -/
theorem Move.views {k : Kind} {mid : Id} (h : Move env k b b') (hpull : ∀ c, k ≠ .inject c)
    (hadvance : k ≠ .advance) (hview : Viewed b' mid) : Viewed b mid := by
  obtain ⟨i, hi, hid⟩ := hview
  by_cases hk : writesRows k = true
  · cases h with
    | consume id op =>
      obtain ⟨i₀, hi₀, rfl⟩ := mem_updateWhere.mp hi
      refine ⟨i₀, hi₀, ?_⟩
      split at hid <;> exact hid
    | reissue now auth m found addressed presented =>
      obtain ⟨j, hj, hjm, -⟩ := row_of_maxLogical presented
      rcases hissue : issue env now m.messageId auth.sessionId auth.epoch
        (.minted "redeliver-" b.nextId) (b.maxLogical m.messageId auth.epoch + 1) b.mint
        with ⟨_ | id, b₁⟩
      · rw [hissue] at hi
        exact ⟨i, (issue_none hissue).1.injections ▸ hi, hid⟩
      · rw [hissue, (issue_some hissue).2.1] at hi
        rcases List.mem_append.mp hi with hi | hi
        · exact ⟨i, hi, hid⟩
        · rw [List.mem_singleton.mp hi] at hid
          exact ⟨j, hj, hjm.trans hid⟩
    | inject now auth ck audited m _ _ _ c => exact absurd rfl (hpull c)
    | advance => exact absurd rfl hadvance
    | _ => cases hk
  · exact ⟨i, h.sameRows (by simpa using hk) ▸ hi, hid⟩

theorem register_views {raw : RegisterInput} {mid : Id}
    (hview : Viewed (register env mom raw b).2 mid) :
    Viewed b mid ∨ ∃ d ∈ b.deliveries, d.messageId = mid ∧ d.state = .accepted := by
  rcases hr : register env mom raw b with ⟨f | a, b'⟩
  · rw [hr] at hview
    obtain rfl : b = b' := register_refuses b f b' hr
    exact .inl hview
  · rw [hr] at hview
    obtain ⟨i, hi, rfl⟩ := hview
    obtain ⟨is, his, hnew⟩ := register_adds hr
    rw [his, List.mem_append] at hi
    refine hi.imp (fun hi => ⟨i, hi, rfl⟩) fun hi => ?_
    obtain ⟨-, -, -, d, hd, hid, -, hstate⟩ := hnew i hi
    exact ⟨d, hd, hid, hstate⟩

/-- Whether what happens at the desk is a pull. -/
def pullsAt : DeskOp → Bool
  | .store op => pullsOp op
  | _ => false

/-- Without a pull, the only new rows are of accepted work that a takeover carries over. -/
theorem desk_views {op : DeskOp} (hop : pullsAt op = false) {mid : Id}
    (hview : Viewed (op.call env mom b).2 mid) :
    Viewed b mid ∨ (∃ raw, op = .store (.register raw)) ∧
      ∃ d ∈ b.deliveries, d.messageId = mid ∧ d.state = .accepted := by
  by_cases hreg : ∃ raw, op = .store (.register raw)
  · obtain ⟨raw, rfl⟩ := hreg
    have hview : Viewed (register env mom raw b).2 mid := by
      simpa only [DeskOp.call, exec, Call.map_snd] using hview
    exact (register_views hview).imp_right fun h => ⟨⟨raw, rfl⟩, h⟩
  · have hkinds : ∀ k ∈ deskKinds op, (∀ c, k ≠ .inject c) ∧ k ≠ .advance := by
      cases op with
      | store op =>
        cases op <;> simp_all [deskKinds, kindsOf, pullsAt, pullsOp]
      | _ => simp [deskKinds]
    left
    refine (desk_moves env mom op b).keeps (P := fun u => Viewed u mid → Viewed b mid) id
      (fun u u' k hk hmove ih hu => ?_) hview
    exact ih (hmove.views (hkinds k hk).1 (hkinds k hk).2 hu)

/-! ## Terminal states -/

theorem Rewrite.not_terminal {s : Stmt} {ack reply : Bool} {d d' : Delivery}
    (h : Rewrite env now ack reply s d d') (hs : s ≠ .redriven) (hs' : s ≠ .discarded) :
    isTerminal d.state = false := by
  have hwaiting (hw : d.state.waiting = true) : isTerminal d.state = false := by
    revert hw
    cases d.state <;> decide
  cases h with
  | written hw | lapsed hw | cancelled hw => exact hwaiting hw
  | completed hf | acked hf | requeued hf | timedOut hf | exhausted hf => rw [hf]; rfl
  | answered h =>
    rcases h with h | h <;> rw [h] <;> rfl
  | buried h =>
    rcases h with h | h
    · exact hwaiting h
    · rw [h]; rfl
  | abandoned h | replayed h => rw [h]; rfl
  | removed h =>
    rcases h with h | h | h | h <;> rw [h] <;> rfl
  | rearmed h =>
    rcases h with h | h | h <;> rw [h] <;> rfl
  | redriven => exact absurd rfl hs
  | discarded => exact absurd rfl hs'

/-- From a terminal state there is nowhere to go. -/
theorem Path.of_terminal {ack reply : Bool} {d d' : Delivery} (h : Path env now K ack reply d d')
    (hK : .redriven ∉ K) (hK' : .discarded ∉ K) (hd : isTerminal d.state = true) : d' = d := by
  refine h.keeps (P := fun x => x = d) rfl fun s hs x y hstep hx => ?_
  subst hx
  have := hstep.not_terminal (fun heq => hK (heq ▸ hs)) fun heq => hK' (heq ▸ hs)
  rw [hd] at this
  cases this

/-- `DeadLetterStore.redrive` and `discard` apart. -/
def LeavesDeadLetters (_ : Desk) (e : DeskEvent) : Prop :=
  (∀ mid validate, e.1 ≠ .store (.redrive mid validate)) ∧ ∀ mid, e.1 ≠ .store (.discard mid)

theorem LeavesDeadLetters.stmts {d : Desk} {e : DeskEvent} (h : LeavesDeadLetters d e) :
    .redriven ∉ deskStmts e.1 ∧ .discarded ∉ deskStmts e.1 := by
  obtain ⟨op, mom⟩ := e
  cases op with
  | store op =>
    cases op with
    | redrive mid validate => exact absurd rfl (h.1 mid validate)
    | discard mid => exact absurd rfl (h.2 mid)
    | _ => simp [deskStmts, stmtsOf, sweepStmts]
  | _ => simp [deskStmts]

/-- A row in a terminal state stays, as it is. -/
theorem terminal_stays {d d' : Desk} {log : List (DeskEvent × Except Failure DeskResponse)}
    (inv : MailInv d.db) (run : Run (Desk.step env) LeavesDeadLetters d log d') {x : Delivery}
    (hx : x ∈ d.db.deliveries) (hterminal : isTerminal x.state = true) : x ∈ d'.db.deliveries := by
  refine (run.invariant (P := fun u => MailInv u.db ∧ x ∈ u.db.deliveries) ⟨inv, hx⟩
    fun u e hu he => ⟨(desk_moves env e.2 e.1 u.db).mailInv hu.1, ?_⟩).2
  have hf : Follows env e.2.now (deskStmts e.1) u.db (u.step env e).2.db :=
    desk_follows hu.1 e.2 e.1
  obtain ⟨y, hy, hpath⟩ := hf.onward x hu.2
  obtain rfl := hpath.of_terminal he.stmts.1 he.stmts.2 hterminal
  exact hy

/-! ## Who owes an acknowledgement -/

/-- What a row says of acknowledgements, given the flag of its message. -/
structure AckOwed (ack : Bool) (d : Delivery) : Prop where
  lease : d.leaseExpiresAt ≠ none → ack = true
  retry : d.state = .retryWait → ack = true
  flight : d.state = .transportWritten → ack = true → d.leaseExpiresAt ≠ none

theorem Rewrite.ackOwed {s : Stmt} {ack reply : Bool} {d d' : Delivery}
    (h : Rewrite env now ack reply s d d') (inv : AckOwed ack d) : AckOwed ack d' := by
  obtain ⟨hlease, hretry, hflight⟩ := inv
  cases h with
  | written waits deadline armed =>
    refine ⟨fun hset => ?_, nofun, fun _ hack hnone => ?_⟩
    · rw [← armed]
      exact Option.isSome_iff_ne_none.mpr hset
    · simp only at hnone
      rw [hnone, hack] at armed
      cases armed
  | acked flies accept =>
    refine ⟨hlease, ?_, ?_⟩ <;> cases accept <;> nofun
  | timedOut flies owed => exact ⟨fun _ => owed, fun _ => owed, nofun⟩
  | completed | answered | requeued | exhausted | lapsed | buried | abandoned | removed | rearmed
  | replayed | redriven | discarded | cancelled =>
    first
      | exact ⟨hlease, nofun, nofun⟩
      | exact ⟨fun h => absurd rfl h, nofun, nofun⟩

theorem NewlyQueued.ackOwed {ack : Bool} {d : Delivery} (h : NewlyQueued b d) : AckOwed ack d := by
  refine ⟨fun hset => absurd h.lease hset, fun hstate => ?_, fun hstate => ?_⟩
  · rw [h.state] at hstate
    cases hstate
  · rw [h.state] at hstate
    cases hstate

/-- A property of rows and flags that every statement keeps holds in every state at the desk. -/
theorem rows_of_desk {P : Bool → Bool → Delivery → Prop} {ok : Desk → DeskEvent → Prop} {d : Desk}
    (hnew : ∀ ack reply b x, NewlyQueued b x → P ack reply x)
    (hstep : ∀ ack reply s now x y, Rewrite env now ack reply s x y → P ack reply x →
      P ack reply y) (h : d.Reachable env ok) :
    ∀ x ∈ d.db.deliveries, P (d.db.requiresAck x.messageId) (d.db.requiresReply x.messageId) x := by
  obtain ⟨log, run⟩ := h
  refine (run.invariant (P := fun u => MailInv u.db ∧ ∀ x ∈ u.db.deliveries,
    P (u.db.requiresAck x.messageId) (u.db.requiresReply x.messageId) x) ⟨mailInv_initial, ?_⟩
    fun u e hu _ => ⟨(desk_moves env e.2 e.1 u.db).mailInv hu.1, fun y hy => ?_⟩).2
  · intro x hx
    cases hx
  · have hf : Follows env e.2.now (deskStmts e.1) u.db (u.step env e).2.db :=
      desk_follows hu.1 e.2 e.1
    obtain ⟨x, hx, hpath⟩ := hf.back y hy
    rw [hpath.messageId]
    refine hpath.keeps ?_ fun s _ => hstep _ _ s _
    rcases hx with hx | hx
    · rw [(hf.flags x hx).1, (hf.flags x hx).2]
      exact hu.2 x hx
    · exact hnew _ _ _ x hx

theorem ackOwed_of_desk {ok : Desk → DeskEvent → Prop} {d : Desk} (h : d.Reachable env ok)
    {x : Delivery} (hx : x ∈ d.db.deliveries) : AckOwed (d.db.requiresAck x.messageId) x :=
  rows_of_desk (P := fun ack _ y => AckOwed ack y) (fun _ _ _ _ hy => hy.ackOwed)
    (fun _ _ _ _ _ _ hstep => hstep.ackOwed) h x hx

/-! ## Messages that ask for nothing -/

/-- What asks for no response is not in flight and not accepted, and is done once it was shown. -/
def Unasked (b : Broker) : Prop :=
  ∀ d ∈ b.deliveries, b.requiresAck d.messageId = false → b.requiresReply d.messageId = false →
    d.state ≠ .transportWritten ∧ d.state ≠ .accepted ∧
      (Viewed b d.messageId → d.state = .completed)

theorem landed_unasked {mid : Id} {m : Message} (found : b.message? mid = some m)
    (hack : b.requiresAck mid = false) (hreply : b.requiresReply mid = false) :
    landed m false = .completed := by
  simp only [Broker.requiresAck, Broker.requiresReply, found, Option.any_some] at hack hreply
  simp [landed, hack, hreply]

theorem Unasked.pull (inv : Unasked b) (inv' : MailInv b') (h : PullSpec b b') : Unasked b' := by
  intro d' hd' hack hreply
  rw [requiresAck_congr h.messages] at hack
  rw [requiresReply_congr h.messages] at hreply
  obtain ⟨d, hd, hid, hsame⟩ := h.rows d' hd'
  rw [hid] at hack hreply
  obtain ⟨hflight, haccepted, hdone⟩ := inv d hd hack hreply
  rcases hsame with rfl | ⟨m, again, found, waits, hagain, hstate⟩
  · refine ⟨hflight, haccepted, fun hview => ?_⟩
    rcases h.views _ hview with hold | ⟨m, found, x, hx, hxid, hxstate⟩
    · exact hdone hold
    · rw [inv'.delivery_eq hx hd' hxid, landed_unasked found hack hreply] at hxstate
      exact hxstate
  · have hfirst : again = false := by
      by_contra hshown
      rw [hdone (hagain (by simpa using hshown))] at waits
      cases waits
    rw [hfirst, landed_unasked found hack hreply] at hstate
    simp [hstate]

theorem Rewrite.grounded {s : Stmt} {ack reply : Bool} {d d' : Delivery}
    (h : Rewrite env now ack reply s d d') (hs : s ≠ .written)
    (hd : d.state ≠ .transportWritten ∧ d.state ≠ .accepted) :
    d'.state ≠ .transportWritten ∧ d'.state ≠ .accepted := by
  cases h with
  | written => exact absurd rfl hs
  | acked flies => exact absurd flies hd.1
  | _ => exact ⟨nofun, nofun⟩

/-- What is completed is met by no statement, not even by those for dead letters. -/
theorem Path.of_completed {ack reply : Bool} {d d' : Delivery} (h : Path env now K ack reply d d')
    (hd : d.state = .completed) : d' = d := by
  refine h.keeps (P := fun x => x = d) rfl fun s hs x y hstep hx => ?_
  subst hx
  by_cases hdead : s = .redriven ∨ s = .discarded
  · rcases hdead with rfl | rfl
    · cases hstep with | redriven dead => rw [hd] at dead; cases dead
    · cases hstep with | discarded dead => rw [hd] at dead; cases dead
  · have := hstep.not_terminal (fun h => hdead (.inl h)) fun h => hdead (.inr h)
    rw [hd] at this
    cases this

theorem Unasked.other (inv : Unasked b) (mail : MailInv b) (h : Follows env now K b b')
    (hK : .written ∉ K) (hviews : ∀ mid, Viewed b' mid →
      Viewed b mid ∨ ∃ d ∈ b.deliveries, d.messageId = mid ∧ d.state = .accepted) :
    Unasked b' := by
  intro d' hd' hack hreply
  obtain ⟨d, hd, hpath⟩ := h.back d' hd'
  have hground (hstart : d.state ≠ .transportWritten ∧ d.state ≠ .accepted) :
      d'.state ≠ .transportWritten ∧ d'.state ≠ .accepted :=
    hpath.keeps (P := fun x => x.state ≠ .transportWritten ∧ x.state ≠ .accepted) hstart
      fun s hs x y hstep => hstep.grounded fun heq => hK (heq ▸ hs)
  rw [hpath.messageId] at hack hreply ⊢
  rcases hd with hd | hd
  · rw [(h.flags d hd).1] at hack
    rw [(h.flags d hd).2] at hreply
    obtain ⟨hflight, haccepted, hdone⟩ := inv d hd hack hreply
    obtain ⟨hflight', haccepted'⟩ := hground ⟨hflight, haccepted⟩
    refine ⟨hflight', haccepted', fun hview => ?_⟩
    rcases hviews _ hview with hold | ⟨x, hx, hxid, hstate⟩
    · have hcompleted := hdone hold
      rw [hpath.of_completed hcompleted, hcompleted]
    · rw [mail.delivery_eq hx hd hxid] at hstate
      exact absurd hstate haccepted
  · obtain ⟨hflight', haccepted'⟩ := hground (by simp [hd.state])
    refine ⟨hflight', haccepted', fun hview => ?_⟩
    -- A message just posted is on no record.
    have hstored : ∃ x ∈ b.deliveries, x.messageId = d.messageId := by
      rcases hviews _ hview with hold | ⟨x, hx, hxid, -⟩
      · exact mail.delivery_of_viewed hold
      · exact ⟨x, hx, hxid⟩
    obtain ⟨x, hx, hxid⟩ := hstored
    exact absurd hxid (hd.new x hx)

theorem unasked_of_desk {ok : Desk → DeskEvent → Prop} {d : Desk} (h : d.Reachable env ok) :
    Unasked d.db := by
  obtain ⟨log, run⟩ := h
  refine (run.invariant (P := fun u => MailInv u.db ∧ Unasked u.db) ⟨mailInv_initial, ?_⟩
    fun u e hu _ => ?_).2
  · intro x hx
    cases hx
  · have mail' : MailInv (u.step env e).2.db := (desk_moves env e.2 e.1 u.db).mailInv hu.1
    refine ⟨mail', ?_⟩
    obtain ⟨op, mom⟩ := e
    by_cases hop : pullsAt op = true
    · cases op with
      | store op =>
        have hspec : PullSpec u.db (u.step env (.store op, mom)).2.db := by
          simp only [Desk.step, DeskOp.call, Call.map_snd]
          exact exec_pullSpec hu.1 hop
        exact hu.2.pull mail' hspec
      | _ => cases hop
    · refine hu.2.other hu.1 (desk_follows hu.1 mom op) ?_ fun mid hview =>
        (desk_views (by simpa using hop) hview).imp_right (·.2)
      cases op with
      | store op => cases op <;> simp_all [deskStmts, stmtsOf, sweepStmts, pullsAt, pullsOp]
      | _ => simp [deskStmts]

/-! ## The contract -/

/-- **Terminal states are absorbing, and nothing waits for an acknowledgement nobody owes.**
    In every state `d` the desk can reach: whatever happens from there, apart from the dead-letter
    store, no row in a terminal state changes; a deadline or a wait for a retry is a message's that
    asked for an acknowledgement; and in flight is only what has a deadline for one, or owes a
    reply. -/
theorem terminal_absorbing_and_acks_owed {d : Desk} (h : d.Reachable env Any) :
    (∀ log d', Run (Desk.step env) LeavesDeadLetters d log d' → ∀ x ∈ d.db.deliveries,
      isTerminal x.state = true → x ∈ d'.db.deliveries) ∧
    ∀ x ∈ d.db.deliveries,
      (x.leaseExpiresAt ≠ none → d.db.requiresAck x.messageId = true) ∧
      (x.state = .retryWait → d.db.requiresAck x.messageId = true) ∧
      (x.state = .transportWritten →
        (d.db.requiresAck x.messageId = true ∧ x.leaseExpiresAt ≠ none) ∨
          d.db.requiresReply x.messageId = true) := by
  refine ⟨fun log d' run x hx hterminal => terminal_stays (mailInv_of_desk h) run hx hterminal,
    fun x hx => ?_⟩
  have howed := ackOwed_of_desk h hx
  refine ⟨howed.lease, howed.retry, fun hflies => ?_⟩
  cases hack : d.db.requiresAck x.messageId with
  | true => exact .inl ⟨rfl, howed.flight hflies hack⟩
  | false =>
    cases hreply : d.db.requiresReply x.messageId with
    | true => exact .inr rfl
    | false => exact absurd hflies (unasked_of_desk h x hx hack hreply).1

/-- A run of the stores, at the desk. -/
def atDesk (events : List Event) : List DeskEvent := events.map fun e => (.store e.1, e.2)

/-- The desk of a concrete run. -/
def deskAfter (events : List DeskEvent) : Desk :=
  (runAll (Desk.step plainEnv) (Desk.initial plainEnv) events).2

theorem reachable_deskAfter (events : List DeskEvent) : (deskAfter events).Reachable plainEnv Any :=
  ⟨_, Run.of_events _ _ events⟩

theorem reachable_of_admitted {ok : Desk → DeskEvent → Prop} {events : List DeskEvent}
    (h : Admitted (Desk.step plainEnv) ok (Desk.initial plainEnv) events) :
    (deskAfter events).Reachable plainEnv ok :=
  ⟨_, Run.of_runAll events h⟩

/-- The request is cancelled before it is pulled. -/
def requestCancelled : List DeskEvent := atDesk requestSent ++ [(.cancel 8, { nowMs := 1500 })]

/-- The cancelled request stays cancelled. -/
theorem cancelled_request_stays :
    ((deskAfter requestCancelled).db.delivery? 8).map (·.state) = some .cancelled ∧
      ∀ log d', Run (Desk.step plainEnv) LeavesDeadLetters (deskAfter requestCancelled) log d' →
        ∀ x ∈ (deskAfter requestCancelled).db.deliveries, isTerminal x.state = true →
          x ∈ d'.db.deliveries :=
  ⟨by decide +kernel, (terminal_absorbing_and_acks_owed (reachable_deskAfter _)).1⟩

end Proof
end XBus
