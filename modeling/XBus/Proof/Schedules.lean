import XBus.Console

/-!
# What a tick does to a schedule

One due schedule is handled in one transaction. `planned` is what the transaction does before it
advances the schedule: which of the four ways it goes (the slot is somebody else's, a gate blocks
it, the message is sent, the send is refused), and `fireOne_eq` says that the rest is one
`advance`, or nothing at all where the advance throws. Everything about ticks is read off these
two; `fireOne` is not unfolded again.
-/

set_option autoImplicit false

namespace XBus
namespace Proof

open Lib

variable {env : Env} {cfg : SchedulerConfig} {sendNow : Iso} {now : Instant} {s : DueSchedule}
  {σ σ' : SchedulerDb}

/-! ## One due schedule -/

/-- The database with the slot claimed. -/
def claimed (σ : SchedulerDb) (s : DueSchedule) : SchedulerDb :=
  { σ.mint with
    scheduleRuns := σ.scheduleRuns ++
      [{ scheduleId := s.scheduleId, scheduledFor := s.slot, state := .claimed }] }

/-- A fire up to its advance. -/
structure Plan where
  outcome : FireOutcome
  mode : AdvanceMode
  db : SchedulerDb
  auditType : Option AuditType

/-- The wake counters of a schedule that fires. -/
def awakened (s : DueSchedule) (now : Instant) (row : Schedule) : Schedule :=
  { row with wakesToday := s.wakesOn now.date + 1, wakesTodayDate := some now.date }

/-- How a due slot is handled. -/
def planned (env : Env) (cfg : SchedulerConfig) (sendNow : Iso) (now : Instant) (s : DueSchedule)
    (σ : SchedulerDb) : Except Thrown Plan :=
  if σ.isClaimed s.scheduleId s.slot then .ok ⟨.skipped, .terminal, σ.mint, none⟩
  else match (claimed σ s).blockedBy cfg s now with
    | .error e => .error e
    | .ok (some gate) => .ok ⟨.skipped, .deferred,
        (claimed σ s).setRun s.scheduleId s.slot .skipped, some gate.auditType⟩
    | .ok none =>
      match operatorSend env sendNow s.message (claimed σ s).broker with
      | (.ok _, b) => .ok ⟨.fired, .fired,
          ({ claimed σ s with broker := b }.setRun s.scheduleId s.slot .sent).updateSchedule
            s.scheduleId (awakened s now), some .scheduleFired⟩
      | (.error f, b) => .ok ⟨.skipped, if recipientUnresolved f then .deferred else .terminal,
          { claimed σ s with broker := b }.setRun s.scheduleId s.slot .failed,
          some .scheduleFireFailed⟩

/-- The row as `advance` leaves it. -/
def advanced (s : DueSchedule) (mode : AdvanceMode) (nextRun : Option Instant) (row : Schedule) :
    Schedule :=
  { row with firesUsed := s.firesAfter mode, nextRun
             state := if s.exhausted mode then .exhausted else row.state }

/-- What is committed. -/
def Plan.finish (p : Plan) (s : DueSchedule) (nextRun : Option Instant) : SchedulerDb :=
  let σ := p.db.updateSchedule s.scheduleId (advanced s p.mode nextRun)
  match p.auditType with
  | some t => σ.audit t
  | none => σ

theorem advance_eq (mode : AdvanceMode) :
    advance s now mode σ = match s.nextRunAfter now mode with
      | .error e => (.error e, σ)
      | .ok nextRun => (.ok (), σ.updateSchedule s.scheduleId (advanced s mode nextRun)) := by
  unfold advance
  cases h : s.nextRunAfter now mode with
  | error e => rfl
  | ok nextRun => rfl

/-- The rest of a plan, as it runs inside the transaction. -/
def Plan.conclude (p : Plan) (s : DueSchedule) (now : Instant) :
    Except Thrown FireOutcome × SchedulerDb :=
  match s.nextRunAfter now p.mode with
  | .error e => (.error e, p.db)
  | .ok nextRun => (.ok p.outcome, p.finish s nextRun)

theorem advance_then (outcome : FireOutcome) (mode : AdvanceMode) (t : AuditType) :
    (do
      advance s now mode
      Call.modify fun σ => σ.audit t
      pure outcome : SchedulerCall FireOutcome) σ =
      Plan.conclude ⟨outcome, mode, σ, some t⟩ s now := by
  unfold Plan.conclude
  cases h : s.nextRunAfter now mode with
  | error e => exact Call.bind_of_error (by rw [advance_eq, h])
  | ok nextRun =>
    rw [Call.bind_of_ok (by rw [advance_eq, h])]
    rfl

/-- What a claimed slot's fire does with the send's answer. -/
theorem fireClaimed_sent (env : Env) (sendNow : Iso)
    (hgate : (claimed σ s).blockedBy cfg s now = .ok none) :
    fireClaimed env cfg sendNow now s (claimed σ s) =
      match operatorSend env sendNow s.message (claimed σ s).broker with
      | (.ok _, b) => Plan.conclude ⟨.fired, .fired,
          ({ claimed σ s with broker := b }.setRun s.scheduleId s.slot .sent).updateSchedule
            s.scheduleId (awakened s now), some .scheduleFired⟩ s now
      | (.error f, b) => Plan.conclude ⟨.skipped,
          if recipientUnresolved f then .deferred else .terminal,
          { claimed σ s with broker := b }.setRun s.scheduleId s.slot .failed,
          some .scheduleFireFailed⟩ s now := by
  unfold fireClaimed
  rw [Call.get_bind, hgate, Call.lift_ok_bind]
  unfold attempt
  simp only [Call.act_bind]
  generalize operatorSend env sendNow s.message (claimed σ s).broker = r
  obtain ⟨f | result, b⟩ := r
  · exact advance_then ..
  · exact advance_then ..

/-- A plan carried out in its transaction: an advance that throws takes everything back. -/
def Plan.commit (p : Plan) (s : DueSchedule) (now : Instant) (σ : SchedulerDb) :
    Except Thrown FireOutcome × SchedulerDb :=
  match s.nextRunAfter now p.mode with
  | .error e => (.error e, σ)
  | .ok nextRun => (.ok p.outcome, p.finish s nextRun)

theorem transaction_conclude {x : SchedulerCall FireOutcome} {p : Plan}
    (h : x σ = p.conclude s now) : Call.transaction x σ = p.commit s now σ := by
  unfold Call.transaction
  rw [h]
  unfold Plan.conclude Plan.commit
  cases s.nextRunAfter now p.mode with
  | error e => rfl
  | ok nextRun => rfl

/-- A round is its plan, and the advance the plan asks for. -/
theorem fireOne_eq : fireOne env cfg sendNow now s σ =
    match planned env cfg sendNow now s σ with
    | .error e => (.error e, σ)
    | .ok p => p.commit s now σ := by
  unfold fireOne planned
  -- A slot claimed before is only stepped over; a new one asks the gates, then sends.
  by_cases hclaimed : σ.isClaimed s.scheduleId s.slot = true
  · rw [if_pos hclaimed]
    apply transaction_conclude
    rw [Call.get_bind, Call.modify_bind, if_pos hclaimed]
    unfold Plan.conclude
    cases h : s.nextRunAfter now .terminal with
    | error e => exact Call.bind_of_error (by rw [advance_eq, h])
    | ok nextRun =>
      rw [Call.bind_of_ok (by rw [advance_eq, h])]
      rfl
  · rw [if_neg hclaimed]
    have hbody {p : Plan} (h : fireClaimed env cfg sendNow now s (claimed σ s) = p.conclude s now) :
        fireOne env cfg sendNow now s σ = p.commit s now σ := by
      apply transaction_conclude
      rw [Call.get_bind, Call.modify_bind, if_neg hclaimed, Call.modify_bind]
      exact h
    cases hgate : (claimed σ s).blockedBy cfg s now with
    | error e =>
      have hfails : fireClaimed env cfg sendNow now s (claimed σ s) = (.error e, claimed σ s) := by
        unfold fireClaimed
        rw [Call.get_bind, hgate]
        rfl
      apply Call.transaction_of_error (t := claimed σ s)
      rw [Call.get_bind, Call.modify_bind, if_neg hclaimed, Call.modify_bind]
      exact hfails
    | ok gate =>
      cases gate with
      | some gate =>
        apply hbody
        unfold fireClaimed
        rw [Call.get_bind, hgate, Call.lift_ok_bind]
        exact advance_then ..
      | none =>
        have hsent := fireClaimed_sent env sendNow hgate
        generalize operatorSend env sendNow s.message (claimed σ s).broker = r at hsent ⊢
        obtain ⟨f | result, b⟩ := r
        · exact hbody hsent
        · exact hbody hsent

/-! ## What is committed -/

/-- The row of a schedule that has been handled. -/
def settled (s : DueSchedule) (now : Instant) (mode : AdvanceMode) (nextRun : Option Instant)
    (row : Schedule) : Schedule :=
  advanced s mode nextRun (if mode = .fired then awakened s now row else row)

/-- A plan leaves the schedules alone but for the wake counters of a fire, and only a fire can
    enqueue anything. -/
structure Plan.Spec (p : Plan) (s : DueSchedule) (now : Instant) (σ : SchedulerDb) : Prop where
  schedules : p.db.schedules = updateWhere (fun r => r.scheduleId = s.scheduleId)
    (fun r => if p.mode = .fired then awakened s now r else r) σ.schedules
  outcome : p.outcome = .fired ↔ p.mode = .fired
  messages : p.mode ≠ .fired → p.db.broker.messages = σ.broker.messages
  /-- The slot has its outcome, and what else is in the table was there before. -/
  run : ∃ r ∈ p.db.scheduleRuns, r.scheduleId = s.scheduleId ∧ r.scheduledFor = s.slot
  runs : ∀ r ∈ p.db.scheduleRuns, r ∈ σ.scheduleRuns ∨ r.state ≠ .claimed

/-- What `setRun` makes of the claimed slot. -/
theorem setRun_claimed (b : Broker) (state : RunState) (hstate : state ≠ .claimed)
    (hclaimed : ¬ σ.isClaimed s.scheduleId s.slot = true) :
    (∃ r ∈ (SchedulerDb.setRun { claimed σ s with broker := b } s.scheduleId s.slot
        state).scheduleRuns, r.scheduleId = s.scheduleId ∧ r.scheduledFor = s.slot) ∧
      ∀ r ∈ (SchedulerDb.setRun { claimed σ s with broker := b } s.scheduleId s.slot
        state).scheduleRuns, r ∈ σ.scheduleRuns ∨ r.state ≠ .claimed := by
  unfold SchedulerDb.setRun claimed
  rw [updateWhere_append]
  constructor
  · refine ⟨{ scheduleId := s.scheduleId, scheduledFor := s.slot, state }, ?_, rfl, rfl⟩
    simp
  · intro r hr
    rcases List.mem_append.mp hr with hold | hnew
    · -- No other row is of this slot.
      left
      obtain ⟨r₀, hr₀, rfl⟩ := mem_updateWhere.mp hold
      rw [if_neg]
      · exact hr₀
      · intro hkey
        apply hclaimed
        exact List.any_eq_true.mpr ⟨r₀, hr₀, hkey⟩
    · right
      simp only [updateWhere_cons, updateWhere_nil, List.mem_singleton] at hnew
      rw [hnew]
      simpa using hstate

theorem operatorSend_refused {now : Iso} {input : OperatorSendInput} {b b' : Broker} {f : Failure}
    (h : operatorSend env now input b = (.error f, b')) : b' = b := by
  unfold operatorSend at h
  exact Call.transaction_error h

theorem planned_spec {p : Plan} (h : planned env cfg sendNow now s σ = .ok p) :
    p.Spec s now σ := by
  unfold planned at h
  -- The slot has its run already, or gets one and its outcome.
  by_cases hclaimed : σ.isClaimed s.scheduleId s.slot = true
  · rw [if_pos hclaimed] at h
    obtain rfl := Except.ok.inj h
    obtain ⟨r, hr, hkey⟩ := List.any_eq_true.mp hclaimed
    exact ⟨updateWhere_self.symm, by simp, fun _ => rfl, ⟨r, hr, by simpa using hkey⟩,
      fun r hr => .inl hr⟩
  · rw [if_neg hclaimed] at h
    cases hgate : (claimed σ s).blockedBy cfg s now with
    | error e =>
      rw [hgate] at h
      cases h
    | ok gate =>
      rw [hgate] at h
      cases gate with
      | some gate =>
        obtain rfl := Except.ok.inj h
        obtain ⟨hrun, hruns⟩ := setRun_claimed (claimed σ s).broker .skipped
          (by decide) hclaimed
        exact ⟨updateWhere_self.symm, by simp, fun _ => rfl, hrun, hruns⟩
      | none =>
        cases hsend : operatorSend env sendNow s.message (claimed σ s).broker with
        | mk answer b =>
          simp only [hsend] at h
          cases answer with
          | ok result =>
            obtain rfl := Except.ok.inj h
            obtain ⟨hrun, hruns⟩ := setRun_claimed b .sent (by decide) hclaimed
            exact ⟨by simp [SchedulerDb.updateSchedule, SchedulerDb.setRun, claimed,
              SchedulerDb.mint], by simp, fun hne => absurd rfl hne, hrun, hruns⟩
          | error f =>
            obtain rfl := Except.ok.inj h
            obtain rfl := operatorSend_refused hsend
            obtain ⟨hrun, hruns⟩ := setRun_claimed (claimed σ s).broker .failed
              (by decide) hclaimed
            have hmode : (if recipientUnresolved f then AdvanceMode.deferred else .terminal) ≠
                .fired := by
              split <;> decide
            exact ⟨by simp only [hmode, if_false]; exact updateWhere_self.symm,
              by simp [hmode], fun _ => rfl, hrun, hruns⟩

/-- The tables after a plan has been carried out. -/
theorem Plan.Spec.finish {p : Plan} (hp : p.Spec s now σ) (nextRun : Option Instant) :
    (p.finish s nextRun).schedules = updateWhere (fun r => r.scheduleId = s.scheduleId)
        (settled s now p.mode nextRun) σ.schedules ∧
      (p.finish s nextRun).scheduleRuns = p.db.scheduleRuns ∧
      (p.finish s nextRun).broker.messages = p.db.broker.messages := by
  have hrows : (p.db.updateSchedule s.scheduleId (advanced s p.mode nextRun)).schedules =
      updateWhere (fun r => r.scheduleId = s.scheduleId) (settled s now p.mode nextRun)
        σ.schedules := by
    unfold SchedulerDb.updateSchedule
    rw [hp.schedules, updateWhere_updateWhere]
    · rfl
    · intro r
      split <;> rfl
  unfold Plan.finish
  cases p.auditType with
  | none => exact ⟨hrows, rfl, rfl⟩
  | some t => exact ⟨hrows, rfl, rfl⟩

/-- Either the round throws and leaves everything as it was, or its plan is carried out. -/
theorem fireOne_cases (env : Env) (cfg : SchedulerConfig) (sendNow : Iso) (now : Instant)
    (s : DueSchedule) (σ : SchedulerDb) :
    (∃ e, fireOne env cfg sendNow now s σ = (.error e, σ)) ∨
      ∃ p nextRun, planned env cfg sendNow now s σ = .ok p ∧
        s.nextRunAfter now p.mode = .ok nextRun ∧
        fireOne env cfg sendNow now s σ = (.ok p.outcome, p.finish s nextRun) := by
  rw [fireOne_eq]
  cases hplan : planned env cfg sendNow now s σ with
  | error e => exact .inl ⟨e, rfl⟩
  | ok p =>
    cases hnext : s.nextRunAfter now p.mode with
    | error e => exact .inl ⟨e, by simp only [Plan.commit, hnext]⟩
    | ok nextRun => exact .inr ⟨p, nextRun, rfl, hnext, by simp only [Plan.commit, hnext]⟩

/-- A round of a tick: an audit event, or a plan carried out. -/
theorem tickOne_cases (env : Env) (cfg : SchedulerConfig) (sendNow : Iso) (now : Instant)
    (s : DueSchedule) (σ : SchedulerDb) :
    (tickOne env cfg sendNow now s σ).2 = σ.audit .scheduleTickError ∨
      ∃ (p : Plan) (nextRun : Option Instant), p.Spec s now σ ∧
        s.nextRunAfter now p.mode = .ok nextRun ∧
        (tickOne env cfg sendNow now s σ).2 = p.finish s nextRun := by
  unfold tickOne
  rcases fireOne_cases env cfg sendNow now s σ with ⟨e, h⟩ | ⟨p, nextRun, hplan, hnext, h⟩
  · left
    rw [h]
  · right
    refine ⟨p, nextRun, planned_spec hplan, hnext, ?_⟩
    rw [h]

/-! ## The other steps -/

/-- Steps that do not write the scheduler's tables, but for pruning runs. -/
structure Aside (σ σ' : SchedulerDb) : Prop where
  schedules : σ'.schedules = σ.schedules
  runs : σ'.scheduleRuns ⊆ σ.scheduleRuns

instance : IsFrame Aside where
  refl _ := ⟨rfl, List.Subset.refl _⟩
  trans h h' := ⟨h'.schedules.trans h.schedules, List.Subset.trans h'.runs h.runs⟩

theorem onBroker_aside {α : Type} (x : BrokerCall α) : Respects Aside (onBroker x) :=
  fun _ => ⟨rfl, List.Subset.refl _⟩

theorem reapOldScheduleRuns_aside (cfg : SchedulerConfig) (mom : Moment) :
    Respects Aside (reapOldScheduleRuns cfg mom) := by
  unfold reapOldScheduleRuns
  apply Respects.ite
  · exact .pure _
  · refine Respects.bind .lift fun cutoff => ?_
    refine Respects.bind .get fun σ₀ => ?_
    apply Respects.ite
    · apply Respects.modify
      intro σ
      exact ⟨rfl, fun r hr => List.mem_of_mem_filter hr⟩
    · exact .pure _

theorem brokerOp_aside (env : Env) (cfg : SchedulerConfig) (mom : Moment) (op : Op) :
    Respects Aside (brokerOp env cfg mom op) := by
  unfold brokerOp
  split
  · apply Respects.transaction
    apply Respects.bind (onBroker_aside _)
    intro r
    exact Respects.bind (reapOldScheduleRuns_aside cfg mom) fun _ => .pure _
  · exact onBroker_aside _

/-- What `createSchedule` accepts. -/
structure Accepted (s : Schedule) : Prop where
  floor : 1000 ≤ s.minIntervalMs
  interval : s.kind = .interval → ∃ iv, s.scheduleExpr = some iv ∧ s.minIntervalMs ≤ iv

/-- What a step that is not a tick does to the scheduler's tables. -/
inductive Edit (σ σ' : SchedulerDb) : Prop
  | aside (h : Aside σ σ')
  | created (s : Schedule) (fresh : ∀ r ∈ σ.schedules, r.scheduleId ≠ s.scheduleId)
      (accepted : Accepted s) (rows : σ'.schedules = σ.schedules ++ [s])
      (runs : σ'.scheduleRuns = σ.scheduleRuns)
  | controlled (scheduleId : Id) (state : ScheduleState)
      (rows : σ'.schedules = updateWhere (fun r => r.scheduleId = scheduleId)
        (fun r => { r with state }) σ.schedules)
      (runs : σ'.scheduleRuns = σ.scheduleRuns)

theorem createSchedule_edit (env : Env) (input : CreateScheduleInput) (σ : SchedulerDb) :
    Edit σ (createSchedule env input σ).2 := by
  unfold createSchedule
  rcases Call.transaction_snd _ σ with ⟨id, h⟩ | h
  · generalize (Call.transaction _ σ).2 = σ' at h
    simp only [Call.get_bind, Call.modify_bind, Call.bind_ok, Call.require_ok, Call.pure_ok] at h
    obtain ⟨_, _, ⟨hfloor, rfl⟩, _, _, ⟨hinterval, rfl⟩, _, _, ⟨hfresh, rfl⟩, rfl, rfl⟩ := h
    refine .created (input.row σ.broker.nextId) ?_ ⟨hfloor, ?_⟩ rfl rfl
    · intro r hr
      exact of_decide_eq_true (List.all_eq_true.mp hfresh r hr)
    · intro hkind
      have hany := hinterval.resolve_left fun hne => hne hkind
      obtain ⟨iv, hiv, hle⟩ := Option.any_eq_true .. |>.mp hany
      exact ⟨iv, hiv, of_decide_eq_true hle⟩
  · rw [h]
    exact .aside (IsFrame.refl σ)

theorem setScheduleState_edit (scheduleId : Id) (control : ScheduleControl) (σ : SchedulerDb) :
    Edit σ (setScheduleState scheduleId control σ).2 := by
  unfold setScheduleState
  rcases Call.transaction_snd _ σ with ⟨state, h⟩ | h
  · generalize (Call.transaction _ σ).2 = σ' at h
    simp only [Call.get_bind, Call.bind_ok, Call.orThrow_ok] at h
    obtain ⟨s, _, ⟨-, rfl⟩, h⟩ := h
    split_ifs at h
    · simp only [Call.pure_ok] at h
      obtain ⟨-, rfl⟩ := h
      exact .aside (IsFrame.refl σ)
    · simp only [Call.refuse_ok] at h
    · simp only [Call.modify_bind, Call.pure_ok] at h
      obtain ⟨-, rfl⟩ := h
      exact .controlled scheduleId control.target rfl rfl
  · rw [h]
    exact .aside (IsFrame.refl σ)

theorem schedulerStep_edit (env : Env) (cfg : SchedulerConfig) (σ : SchedulerDb)
    (e : SchedulerEvent) (hop : ∀ mom, e ≠ (.tick, mom)) :
    Edit σ (schedulerStep env cfg σ e).2 := by
  obtain ⟨op, mom⟩ := e
  unfold schedulerStep schedulerExec
  cases op with
  | broker op => exact .aside (Respects.map (brokerOp_aside env cfg mom op) σ)
  | markThreadRead tid upTo => exact .aside (Respects.map (onBroker_aside _) σ)
  | createSchedule input =>
    simp only [Call.map_snd]
    exact createSchedule_edit env input σ
  | setScheduleState sid control =>
    simp only [Call.map_snd]
    exact setScheduleState_edit sid control σ
  | tick => exact absurd rfl (hop mom)

/-! ## The invariant -/

/-- What holds of the scheduler's tables between the steps. -/
structure SchedInv (σ : SchedulerDb) : Prop where
  ids : (σ.schedules.map (·.scheduleId)).Nodup
  accepted : ∀ s ∈ σ.schedules, Accepted s
  /-- A claim is settled in the transaction that makes it. -/
  runs : ∀ r ∈ σ.scheduleRuns, r.state ≠ .claimed

theorem SchedInv.edit (inv : SchedInv σ) (h : Edit σ σ') : SchedInv σ' := by
  cases h with
  | aside h =>
    refine ⟨?_, ?_, fun r hr => inv.runs r (h.runs hr)⟩
    · rw [h.schedules]
      exact inv.ids
    · rw [h.schedules]
      exact inv.accepted
  | created s fresh accepted rows runs =>
    refine ⟨?_, ?_, ?_⟩
    · rw [rows, List.map_append, List.nodup_append]
      refine ⟨inv.ids, List.nodup_singleton _, ?_⟩
      intro id hid id' hid'
      obtain ⟨r, hr, rfl⟩ := List.mem_map.mp hid
      obtain rfl := List.mem_singleton.mp hid'
      exact fresh r hr
    · rw [rows]
      intro r hr
      rcases List.mem_append.mp hr with hr | hr
      · exact inv.accepted r hr
      · obtain rfl := List.mem_singleton.mp hr
        exact accepted
    · rw [runs]
      exact inv.runs
  | controlled scheduleId state rows runs =>
    refine ⟨?_, ?_, ?_⟩
    · rw [rows, map_updateWhere]
      · exact inv.ids
      · exact fun _ _ => rfl
    · rw [rows]
      apply forall_mem_updateWhere inv.accepted
      intro r hr _
      exact ⟨(inv.accepted r hr).floor, (inv.accepted r hr).interval⟩
    · rw [runs]
      exact inv.runs

/-- The columns that say what a schedule is. -/
structure SameTerms (r r' : Schedule) : Prop where
  scheduleId : r'.scheduleId = r.scheduleId
  kind : r'.kind = r.kind
  scheduleExpr : r'.scheduleExpr = r.scheduleExpr
  minIntervalMs : r'.minIntervalMs = r.minIntervalMs

theorem settled_terms (s : DueSchedule) (now : Instant) (mode : AdvanceMode)
    (nextRun : Option Instant) (r : Schedule) : SameTerms r (settled s now mode nextRun r) := by
  unfold settled
  split <;> exact ⟨rfl, rfl, rfl, rfl⟩

theorem SchedInv.tickOne (inv : SchedInv σ) :
    SchedInv (tickOne env cfg sendNow now s σ).2 := by
  rcases tickOne_cases env cfg sendNow now s σ with h | ⟨p, nextRun, hp, -, h⟩
  · rw [h]
    exact ⟨inv.ids, inv.accepted, inv.runs⟩
  · obtain ⟨hrows, hruns, -⟩ := hp.finish nextRun
    rw [h]
    refine ⟨?_, ?_, ?_⟩
    · rw [hrows, map_updateWhere]
      · exact inv.ids
      · exact fun r _ => (settled_terms s now p.mode nextRun r).scheduleId
    · rw [hrows]
      apply forall_mem_updateWhere inv.accepted
      intro r hr _
      have hterms := settled_terms s now p.mode nextRun r
      refine ⟨?_, ?_⟩
      · rw [hterms.minIntervalMs]
        exact (inv.accepted r hr).floor
      · rw [hterms.kind, hterms.scheduleExpr, hterms.minIntervalMs]
        exact (inv.accepted r hr).interval
    · rw [hruns]
      intro r hr
      exact (hp.runs r hr).elim (inv.runs r) id

/-! ## A tick -/

/-- What a tick in progress knows of the schedules it has selected and not handled yet. -/
structure Underway (now : Instant) (due : List DueSchedule) (σ : SchedulerDb) : Prop where
  inv : SchedInv σ
  ids : (due.map (·.scheduleId)).Nodup
  rows : ∀ s ∈ due, s.toSchedule ∈ σ.schedules
  slots : ∀ s ∈ due, s.nextRun = some s.slot ∧ s.state = .active ∧ s.slot.le now = true

theorem mem_due (h : s ∈ σ.due now) : s.toSchedule ∈ σ.schedules ∧ s.nextRun = some s.slot ∧
    s.state = .active ∧ s.slot.le now = true := by
  unfold SchedulerDb.due at h
  rw [List.mem_insertionSort] at h
  obtain ⟨r, hr, hsome⟩ := List.mem_filterMap.mp h
  split at hsome
  · rename_i slot hslot
    split_ifs at hsome with hdue
    obtain rfl := Option.some.inj hsome
    exact ⟨hr, hslot, hdue.1, hdue.2⟩
  · cases hsome

theorem underway_due (inv : SchedInv σ) (now : Instant) : Underway now (σ.due now) σ := by
  refine ⟨inv, ?_, fun s hs => (mem_due hs).1, fun s hs => (mem_due hs).2⟩
  unfold SchedulerDb.due
  rw [((List.perm_insertionSort _ _).map _).nodup_iff]
  refine List.Nodup.sublist ?_ inv.ids
  apply map_filterMap_sublist
  intro r s hsome
  split at hsome
  · split_ifs at hsome
    obtain rfl := Option.some.inj hsome
    rfl
  · cases hsome

/-- The rows a tick goes through: none at all, if one that is due is not read. -/
def selected (σ : SchedulerDb) (now : Instant) : List DueSchedule :=
  (σ.selectDue now).toOption.getD []

/-- The driver reads every row that is due. -/
def DueReadable (σ : SchedulerDb) (now : Instant) : Prop := ∀ s ∈ σ.due now, s.readable = true

instance : Decidable (DueReadable σ now) := inferInstanceAs (Decidable (∀ s ∈ _, _))

theorem selectDue_of_readable (h : DueReadable σ now) : σ.selectDue now = .ok (σ.due now) := by
  unfold SchedulerDb.selectDue
  rw [if_pos (List.all_eq_true.mpr h)]

theorem selectDue_of_not_readable (h : ¬ DueReadable σ now) :
    σ.selectDue now = .error (.failure .range) := by
  unfold SchedulerDb.selectDue
  rw [if_neg fun hall => h (List.all_eq_true.mp hall)]

theorem selected_of_readable (h : DueReadable σ now) : selected σ now = σ.due now := by
  rw [selected, selectDue_of_readable h]
  rfl

theorem selected_of_not_readable (h : ¬ DueReadable σ now) : selected σ now = [] := by
  rw [selected, selectDue_of_not_readable h]
  rfl

theorem underway_selected (inv : SchedInv σ) (now : Instant) :
    Underway now (selected σ now) σ := by
  by_cases hread : DueReadable σ now
  · rw [selected_of_readable hread]
    exact underway_due inv now
  · rw [selected_of_not_readable hread]
    exact ⟨inv, List.nodup_nil, by simp, by simp⟩

/-- What a tick leaves, at an instant: its rounds over what it has selected. -/
theorem tick_snd {mom : Moment} (h : toISOString mom.nowMs = .ok now) :
    (XBus.tick env cfg mom σ).2 = (XBus.fireAll env cfg mom.now now (selected σ now) σ).2 := by
  unfold XBus.tick
  rw [h, Call.lift_ok_bind, Call.get_bind]
  by_cases hread : DueReadable σ now
  · rw [selected_of_readable hread, selectDue_of_readable hread, Call.lift_ok_bind]
    rfl
  · rw [selected_of_not_readable hread, selectDue_of_not_readable hread]
    rfl

/-- A clock out of range stops a tick before it looks. -/
theorem tick_snd_of_error {mom : Moment} {e : Thrown} (h : toISOString mom.nowMs = .error e) :
    (XBus.tick env cfg mom σ).2 = σ := by
  unfold XBus.tick
  rw [h]
  rfl

theorem Underway.tickOne {rest : List DueSchedule} (under : Underway now (s :: rest) σ) :
    Underway now rest (tickOne env cfg sendNow now s σ).2 := by
  have hids := List.nodup_cons.mp under.ids
  refine ⟨under.inv.tickOne, hids.2, ?_, fun x hx => under.slots x (List.mem_cons_of_mem s hx)⟩
  intro x hx
  have hrow := under.rows x (List.mem_cons_of_mem s hx)
  rcases tickOne_cases env cfg sendNow now s σ with h | ⟨p, nextRun, hp, -, h⟩
  · rw [h]
    exact hrow
  · rw [h, (hp.finish nextRun).1]
    apply mem_updateWhere_of_mem hrow
    have hne : x.scheduleId ≠ s.scheduleId := by
      intro heq
      exact hids.1 (List.mem_map.mpr ⟨x, hx, heq⟩)
    simpa using hne

theorem Underway.fireAll (env : Env) (cfg : SchedulerConfig) (sendNow : Iso)
    {pre post : List DueSchedule} (under : Underway now (pre ++ post) σ) :
    Underway now post (fireAll env cfg sendNow now pre σ).2 := by
  induction pre generalizing σ with
  | nil => exact under
  | cons s pre ih => exact ih (Underway.tickOne under)

theorem SchedInv.tick (inv : SchedInv σ) (mom : Moment) : SchedInv (XBus.tick env cfg mom σ).2 := by
  cases hclock : toISOString mom.nowMs with
  | error e =>
    rw [tick_snd_of_error hclock]
    exact inv
  | ok now =>
    rw [tick_snd hclock]
    have under := underway_selected inv now
    rw [← List.append_nil (selected σ now)] at under
    exact (under.fireAll env cfg mom.now).inv

/-- The invariant holds in every state the daemon reaches. -/
theorem SchedInv.step (inv : SchedInv σ) (e : SchedulerEvent) :
    SchedInv (schedulerStep env cfg σ e).2 := by
  obtain ⟨op, mom⟩ := e
  cases op with
  | tick =>
    unfold schedulerStep schedulerExec
    simp only [Call.map_snd]
    exact inv.tick mom
  | _ => exact inv.edit (schedulerStep_edit env cfg σ _ (by simp))

theorem schedInv_initial (env : Env) : SchedInv { broker := initial env } :=
  ⟨List.nodup_nil, fun _ hs => absurd hs List.not_mem_nil, fun _ hr => absurd hr List.not_mem_nil⟩

end Proof
end XBus
