import XBus.Proof.Pace

/-!
# The limits on what the scheduler enqueues

Three limits bound the messages of a schedule: so many a day, so many in all, and so many a day to
one target over all schedules. Each has a counter of its own. The wakes of a schedule are counted
by the day they happen on; the fires are counted after a message has gone out; and the wakes of a
target are counted by the date of the slot, not by the day of the tick.

A counter is compared with its limit before it goes up by one, so it can pass a limit that is no
whole number. The daily limit of a schedule holds otherwise in every run, the limit in all unless it
is zero, and the limit of a target as long as slots are handled on their own date and the runs of
the day are not pruned (`limits_hold`).
-/

set_option autoImplicit false

namespace XBus
namespace Proof

open Lib

variable {env : Env} {cfg : SchedulerConfig} {sendNow : Iso} {now : Instant} {s : DueSchedule}
  {σ σ' : SchedulerDb} {log : List (Id × Instant)} {clock : ℤ}

/-! ## What is counted -/

/-- The last tick or sweep, and every message enqueued so far. -/
structure Tally where
  clock : Nat := 0
  log : List (Id × Instant) := []
deriving DecidableEq, Repr

def isSweep : SchedulerOp → Bool
  | .broker .sweep => true
  | _ => false

/-- The record of a step. -/
def tally (env : Env) (cfg : SchedulerConfig) (p : Tally) (σ : SchedulerDb) (e : SchedulerEvent)
    (_ : Except Thrown Unit) (_ : SchedulerDb) : Tally :=
  { clock := if isTick e.1 ∨ isSweep e.1 then e.2.nowMs else p.clock
    log := p.log ++ match e.1, toISOString e.2.nowMs with
      | .tick, .ok now => enqueuedBy env cfg e.2.now now (selected σ now) σ
      | _, _ => [] }

/-- The scheduler with its record. -/
def tallied (env : Env) (cfg : SchedulerConfig) :
    SchedulerDb × Tally → SchedulerEvent → Except Thrown Unit × (SchedulerDb × Tally) :=
  recording (schedulerStep env cfg) (tally env cfg)

/-- How many messages of these schedules were enqueued on a day. -/
def onDay (log : List (Id × Instant)) (who : Id → Bool) (day : ℤ) : Nat :=
  log.countP fun e => who e.1 && e.2.day = day

/-- How many messages of a schedule were enqueued. -/
def inAll (log : List (Id × Instant)) (id : Id) : Nat := log.countP fun e => e.1 = id

/-- The schedule of this id is for this target. -/
def targets (σ : SchedulerDb) (target : String) (id : Id) : Bool :=
  σ.schedules.any fun x => x.scheduleId = id ∧ x.targetAddress = target

/-- No target is woken on a day more often than the cap. -/
def SessionLimited (cfg : SchedulerConfig) (p : SchedulerDb × Tally) : Prop :=
  ∀ target day, onDay p.2.log (targets p.1 target) day ≤ cfg.perSessionWakeCapPerDay

/-- No schedule fires on a day more often than its limit. -/
def WakesLimited (p : SchedulerDb × Tally) : Prop :=
  ∀ r ∈ p.1.schedules, ∀ limit, r.wakeLimitPerDay = some limit →
    ∀ day, (onDay p.2.log (· = r.scheduleId) day : ℚ) ≤ limit

/-- No schedule fires more often than its `max_fires`. -/
def FiresLimited (p : SchedulerDb × Tally) : Prop :=
  ∀ r ∈ p.1.schedules, ∀ n, r.maxFires = some n → (inAll p.2.log r.scheduleId : ℚ) ≤ n

/-! ## Conditions on a run -/

/-- The ticks and the sweeps come in the order of the clock. -/
def Clocked (p : SchedulerDb × Tally) (e : SchedulerEvent) : Prop :=
  isTick e.1 ∨ isSweep e.1 → p.2.clock ≤ e.2.nowMs

/-- A number that a counter can come to. -/
def IsCount (q : ℚ) : Prop := q = (q.num.toNat : ℚ)

instance (q : ℚ) : Decidable (IsCount q) := inferInstanceAs (Decidable (_ = _))

/-- A schedule is created with a whole number of wakes a day, or without a limit. -/
def WakesWhole (_ : SchedulerDb × Tally) (e : SchedulerEvent) : Prop :=
  match e.1 with
  | .createSchedule input => ∀ limit ∈ input.wakeLimitPerDay, IsCount limit
  | _ => True

/-- A schedule is created with a whole number of fires that is not zero, or without a limit. -/
def Firing (_ : SchedulerDb × Tally) (e : SchedulerEvent) : Prop :=
  match e.1 with
  | .createSchedule input => ∀ n ∈ input.maxFires, IsCount n ∧ n ≠ 0
  | _ => True

/-- The date a tick or a sweep at this time takes for the current one. -/
def todayAt (nowMs : Nat) : Option (List Char) := (toISOString nowMs).toOption.map (·.date)

/-- A sweep at this time deletes the run. -/
def prunes (cfg : SchedulerConfig) (nowMs : Nat) (r : ScheduleRun) : Bool :=
  cfg.scheduleRunRetentionMs ≠ 0 ∧ r.state ≠ .claimed ∧
    (toISOString ((nowMs : ℚ) - cfg.scheduleRunRetentionMs)).toOption.any
      fun cutoff => cutoff.le r.scheduledFor = false

/-- A tick finds no slot of another date, and a sweep deletes no sent run of its own date. -/
def Current (cfg : SchedulerConfig) (p : SchedulerDb × Tally) (e : SchedulerEvent) : Prop :=
  (isTick e.1 → ∀ s ∈ dueAt p.1 e.2.nowMs, some s.slot.date = todayAt e.2.nowMs) ∧
    (isSweep e.1 → ∀ r ∈ p.1.scheduleRuns, r.state = .sent →
      some r.scheduledFor.date = todayAt e.2.nowMs → prunes cfg e.2.nowMs r = false)

instance (p : SchedulerDb × Tally) (e : SchedulerEvent) : Decidable (Clocked p e) :=
  inferInstanceAs (Decidable (_ → _))

instance (p : SchedulerDb × Tally) : (e : SchedulerEvent) → Decidable (WakesWhole p e)
  | (.createSchedule input, _) =>
    inferInstanceAs (Decidable (∀ limit ∈ input.wakeLimitPerDay, IsCount limit))
  | (.broker _, _) | (.markThreadRead _ _, _) | (.setScheduleState _ _, _) | (.tick, _) =>
    inferInstanceAs (Decidable True)

instance (p : SchedulerDb × Tally) : (e : SchedulerEvent) → Decidable (Firing p e)
  | (.createSchedule input, _) =>
    inferInstanceAs (Decidable (∀ n ∈ input.maxFires, IsCount n ∧ n ≠ 0))
  | (.broker _, _) | (.markThreadRead _ _, _) | (.setScheduleState _ _, _) | (.tick, _) =>
    inferInstanceAs (Decidable True)

instance (p : SchedulerDb × Tally) (e : SchedulerEvent) : Decidable (Current cfg p e) :=
  inferInstanceAs (Decidable (_ ∧ _))

/-! ## Counting -/

theorem onDay_append (log log' : List (Id × Instant)) (who : Id → Bool) (day : ℤ) :
    onDay (log ++ log') who day = onDay log who day + onDay log' who day :=
  List.countP_append

/-- Nothing has been enqueued on a day that is still to come. -/
theorem onDay_eq_zero {t : Instant} {day : ℤ} (hpast : ∀ e ∈ log, e.2.ms ≤ t.ms)
    (h : t.day < day) (who : Id → Bool) : onDay log who day = 0 := by
  apply List.countP_eq_zero.mpr
  intro e he
  have hle := Instant.day_le_of_ms_le (hpast e he)
  simp only [Bool.and_eq_true, decide_eq_true_eq]
  omega

/-- Only the schedules of the record matter. -/
theorem onDay_congr {who who' : Id → Bool} (h : ∀ e ∈ log, who e.1 = who' e.1) (day : ℤ) :
    onDay log who day = onDay log who' day := by
  apply List.countP_congr
  intro e he
  rw [h e he]

/-! ## One round -/

/-- What a round of a tick does, as far as the counters go. -/
structure Counted (cfg : SchedulerConfig) (now : Instant) (s : DueSchedule) (σ : SchedulerDb)
    (mode : AdvanceMode) (nextRun : Option Instant) (σ' : SchedulerDb)
    (round : List (Id × Instant)) : Prop where
  rows : σ'.schedules = updateWhere (fun r => r.scheduleId = s.scheduleId)
    (settled s now mode nextRun) σ.schedules
  /-- Of the runs that count, only a fire adds one. -/
  runs : σ'.scheduleRuns.filter (fun r => r.state = .sent) =
    σ.scheduleRuns.filter (fun r => r.state = .sent) ++
      if mode = .fired then [ScheduleRun.mk s.scheduleId s.slot .sent] else []
  log : round = [] ∨ mode = .fired ∧ round = [(s.scheduleId, now)]
  gates : mode = .fired → (claimed σ s).blockedBy cfg s now = .ok none

/-- The runs that count, after the claimed slot has its outcome. -/
theorem sent_setRun (b : Broker) (state : RunState)
    (hclaimed : ¬ σ.isClaimed s.scheduleId s.slot = true) :
    (SchedulerDb.setRun { claimed σ s with broker := b } s.scheduleId s.slot
        state).scheduleRuns.filter (fun r => r.state = .sent) =
      σ.scheduleRuns.filter (fun r => r.state = .sent) ++
        if state = .sent then [ScheduleRun.mk s.scheduleId s.slot .sent] else [] := by
  have hnone : ∀ r ∈ σ.scheduleRuns, decide (r.scheduleId = s.scheduleId ∧
      r.scheduledFor = s.slot) = false := by
    intro r hr
    apply decide_eq_false
    intro hkey
    exact hclaimed (List.any_eq_true.mpr ⟨r, hr, decide_eq_true hkey⟩)
  unfold SchedulerDb.setRun claimed SchedulerDb.mint
  simp only [updateWhere_append, updateWhere_of_none hnone, updateWhere_cons, updateWhere_nil,
    List.filter_append]
  by_cases hstate : state = .sent <;> simp [hstate]

theorem refused_mode (f : Failure) :
    (if recipientUnresolved f then AdvanceMode.deferred else .terminal) ≠ .fired := by
  split <;> decide

theorem planned_counted {p : Plan} (h : planned env cfg sendNow now s σ = .ok p)
    (nextRun : Option Instant) {round : List (Id × Instant)}
    (hlog : round = [] ∨ p.mode = .fired ∧ round = [(s.scheduleId, now)]) :
    Counted cfg now s σ p.mode nextRun (p.finish s nextRun) round := by
  obtain ⟨hrows, hruns, -⟩ := (planned_spec h).finish nextRun
  refine ⟨hrows, ?_, hlog, ?_⟩
  · rw [hruns]
    unfold planned at h
    by_cases hclaimed : σ.isClaimed s.scheduleId s.slot = true
    · rw [if_pos hclaimed] at h
      obtain rfl := Except.ok.inj h
      simp [SchedulerDb.mint]
    · rw [if_neg hclaimed] at h
      split at h
      · cases h
      · obtain rfl := Except.ok.inj h
        exact sent_setRun _ _ hclaimed
      · split at h
        · obtain rfl := Except.ok.inj h
          exact sent_setRun _ _ hclaimed
        · obtain rfl := Except.ok.inj h
          rw [if_neg (refused_mode _)]
          exact sent_setRun _ _ hclaimed
  · intro hfired
    unfold planned at h
    split at h
    · obtain rfl := Except.ok.inj h
      cases hfired
    · split at h
      · cases h
      · obtain rfl := Except.ok.inj h
        cases hfired
      · assumption

/-- A round throws and leaves the tables as they were, or is counted. -/
theorem tickOne_counted (env : Env) (cfg : SchedulerConfig) (sendNow : Iso) (now : Instant)
    (s : DueSchedule) (σ : SchedulerDb) :
    ((tickOne env cfg sendNow now s σ).2 = σ.audit .scheduleTickError ∧
      roundLog env cfg sendNow now s σ = []) ∨
    ∃ mode nextRun, Counted cfg now s σ mode nextRun (tickOne env cfg sendNow now s σ).2
      (roundLog env cfg sendNow now s σ) := by
  -- A round that adds no message has no log.
  have hmessages : (tickOne env cfg sendNow now s σ).2.broker.messages = σ.broker.messages →
      roundLog env cfg sendNow now s σ = [] := by
    intro hsame
    unfold roundLog
    rw [hsame]
    exact if_neg (Nat.lt_irrefl _)
  rcases fireOne_cases env cfg sendNow now s σ with ⟨e, h⟩ | ⟨p, nextRun, hplan, -, h⟩
  · left
    have hsnd : (tickOne env cfg sendNow now s σ).2 = σ.audit .scheduleTickError := by
      unfold tickOne
      rw [h]
    exact ⟨hsnd, hmessages (by rw [hsnd]; rfl)⟩
  · right
    have hsnd : (tickOne env cfg sendNow now s σ).2 = p.finish s nextRun := by
      unfold tickOne
      rw [h]
    refine ⟨p.mode, nextRun, ?_⟩
    rw [hsnd]
    apply planned_counted hplan
    by_cases hfired : p.mode = .fired
    · by_cases hlog : roundLog env cfg sendNow now s σ = []
      · exact .inl hlog
      · right
        refine ⟨hfired, ?_⟩
        unfold roundLog at hlog ⊢
        split_ifs at hlog ⊢
        · rfl
        · exact absurd rfl hlog
    · left
      have hspec := planned_spec hplan
      apply hmessages
      rw [hsnd]
      exact (hspec.finish nextRun).2.2.trans (hspec.messages hfired)

/-- The gates that a fire has passed. -/
theorem blockedBy_none (h : σ.blockedBy cfg s now = .ok none) :
    (∀ limit, s.wakeLimitPerDay = some limit → (s.wakesOn now.date : ℚ) < limit) ∧
      (0 < cfg.perSessionWakeCapPerDay →
        σ.countRuns (fun x => x.targetAddress = s.targetAddress)
          (fun r => r.state = .sent ∧ r.scheduledFor.date = now.date) <
            cfg.perSessionWakeCapPerDay) := by
  unfold SchedulerDb.blockedBy at h
  cases hquiet : inQuietHours now s.quietHoursJson with
  | error e =>
    rw [hquiet] at h
    cases h
  | ok quiet =>
    rw [hquiet] at h
    simp only [bind, Except.bind, pure, Except.pure] at h
    split_ifs at h with hq hwake hcap
    · cases h
    · cases h
    · cases h
    · cases h
    constructor
    · intro limit hlimit
      by_contra hnot
      exact hwake (by simp [hlimit, not_lt.mp hnot])
    · intro hpos
      by_contra hnot
      exact hcap ⟨hpos, Nat.le_of_not_lt hnot⟩

/-! ## The record grows with the tables -/

/-- What every record has: its schedules are there, and its instants are past. -/
structure Recorded (log : List (Id × Instant)) (clock : ℤ) (σ : SchedulerDb) : Prop where
  known : ∀ e ∈ log, ∃ r ∈ σ.schedules, r.scheduleId = e.1
  past : ∀ e ∈ log, e.2.ms ≤ clock

theorem Recorded.later (h : Recorded log clock σ) {clock' : ℤ} (hle : clock ≤ clock') :
    Recorded log clock' σ :=
  ⟨h.known, fun e he => (h.past e he).trans hle⟩

/-- Rows do not go away. -/
theorem Recorded.rows (h : Recorded log clock σ)
    (hrows : ∀ r ∈ σ.schedules, ∃ r' ∈ σ'.schedules, r'.scheduleId = r.scheduleId) :
    Recorded log clock σ' := by
  refine ⟨?_, h.past⟩
  intro e he
  obtain ⟨r, hr, hid⟩ := h.known e he
  obtain ⟨r', hr', hid'⟩ := hrows r hr
  exact ⟨r', hr', hid'.trans hid⟩

/-- Nothing has been recorded under the id of a new schedule. -/
theorem Recorded.fresh (h : Recorded log clock σ) {id : Id}
    (hfresh : ∀ r ∈ σ.schedules, r.scheduleId ≠ id) : ∀ e ∈ log, e.1 ≠ id := by
  intro e he heq
  obtain ⟨r, hr, hid⟩ := h.known e he
  exact hfresh r hr (hid.trans heq)

theorem Edit.rows (h : Edit σ σ') :
    ∀ r ∈ σ.schedules, ∃ r' ∈ σ'.schedules, r'.scheduleId = r.scheduleId := by
  intro r hr
  cases h with
  | aside h => exact ⟨r, by rw [h.schedules]; exact hr, rfl⟩
  | created s _ _ rows _ => exact ⟨r, by rw [rows]; exact List.mem_append_left _ hr, rfl⟩
  | controlled scheduleId state rows _ =>
    rw [rows]
    refine ⟨_, mem_updateWhere.mpr ⟨r, hr, rfl⟩, ?_⟩
    split <;> rfl

theorem settled_id (s : DueSchedule) (now : Instant) (mode : AdvanceMode)
    (nextRun : Option Instant) (r : Schedule) :
    (settled s now mode nextRun r).scheduleId = r.scheduleId :=
  (settled_terms s now mode nextRun r).scheduleId

/-- The rows after a round: the others, and the schedule's own. -/
theorem Counted.mem {mode : AdvanceMode} {nextRun : Option Instant}
    {round : List (Id × Instant)} (h : Counted cfg now s σ mode nextRun σ' round)
    {rest : List DueSchedule} (under : Underway now (s :: rest) σ) {r : Schedule}
    (hr : r ∈ σ'.schedules) : (r ∈ σ.schedules ∧ r.scheduleId ≠ s.scheduleId) ∨
      r = settled s now mode nextRun s.toSchedule := by
  rw [h.rows] at hr
  obtain ⟨r₀, hr₀, rfl⟩ := mem_updateWhere.mp hr
  by_cases hid : r₀.scheduleId = s.scheduleId
  · obtain rfl := eq_of_key_eq under.inv.ids hr₀ (under.rows s List.mem_cons_self) hid
    right
    simp
  · left
    simpa [hid] using hr₀

theorem Recorded.round {rest : List DueSchedule} (h : Recorded log clock σ)
    (under : Underway now (s :: rest) σ) (hnow : now.ms ≤ clock) :
    Recorded (log ++ roundLog env cfg sendNow now s σ) clock
      (tickOne env cfg sendNow now s σ).2 := by
  rcases tickOne_counted env cfg sendNow now s σ with ⟨hsnd, hlog⟩ | ⟨mode, nextRun, hcounted⟩
  · rw [hsnd, hlog, List.append_nil]
    exact ⟨h.known, h.past⟩
  have hgrown : Recorded (log ++ roundLog env cfg sendNow now s σ) clock σ := by
    constructor
    · intro e he
      rcases List.mem_append.mp he with he | he
      · exact h.known e he
      · rw [mem_roundLog he]
        exact ⟨s.toSchedule, under.rows s List.mem_cons_self, rfl⟩
    · intro e he
      rcases List.mem_append.mp he with he | he
      · exact h.past e he
      · rw [mem_roundLog he]
        exact hnow
  apply hgrown.rows
  rw [hcounted.rows]
  intro r hr
  refine ⟨_, mem_updateWhere.mpr ⟨r, hr, rfl⟩, ?_⟩
  split
  · exact settled_id ..
  · rfl

/-- The rows after a step that is not a tick: a row as it was but for its state, where an exhausted
    one stays so, or the row of a new schedule. -/
inductive RowFrom (σ : SchedulerDb) (op : SchedulerOp) : Schedule → Prop
  | kept (r : Schedule) (state : ScheduleState) (hr : r ∈ σ.schedules)
      (final : r.state = .exhausted → state = .exhausted) : RowFrom σ op { r with state }
  | created (input : CreateScheduleInput) (id : Id) (hop : op = .createSchedule input)
      (fresh : ∀ r ∈ σ.schedules, r.scheduleId ≠ id) : RowFrom σ op (input.row id)

theorem RowFrom.same {op : SchedulerOp} {r : Schedule} (hr : r ∈ σ.schedules) :
    RowFrom σ op r := .kept r r.state hr id

theorem createSchedule_row (input : CreateScheduleInput) {r : Schedule}
    (hr : r ∈ (createSchedule env input σ).2.schedules) :
    RowFrom σ (.createSchedule input) r := by
  unfold createSchedule at hr
  generalize hx : Call.transaction _ = x at hr
  rcases Call.transaction_snd _ σ with ⟨id, h⟩ | h
  · rw [hx] at h
    generalize (x σ).2 = σ' at h hr
    simp only [Call.get_bind, Call.modify_bind, Call.bind_ok, Call.require_ok, Call.pure_ok] at h
    obtain ⟨_, _, ⟨-, rfl⟩, _, _, ⟨-, rfl⟩, _, _, ⟨hfresh, rfl⟩, rfl, rfl⟩ := h
    rcases List.mem_append.mp hr with hr | hr
    · exact .same hr
    · obtain rfl := List.mem_singleton.mp hr
      apply RowFrom.created input _ rfl
      intro r hr
      exact of_decide_eq_true (List.all_eq_true.mp hfresh r hr)
  · rw [hx] at h
    rw [h] at hr
    exact .same hr

theorem setScheduleState_row (inv : SchedInv σ) (scheduleId : Id) (control : ScheduleControl)
    {op : SchedulerOp} {r : Schedule}
    (hr : r ∈ (setScheduleState scheduleId control σ).2.schedules) : RowFrom σ op r := by
  unfold setScheduleState at hr
  generalize hx : Call.transaction _ = x at hr
  rcases Call.transaction_snd _ σ with ⟨state, h⟩ | h
  · rw [hx] at h
    generalize (x σ).2 = σ' at h hr
    simp only [Call.get_bind, Call.bind_ok, Call.orThrow_ok] at h
    obtain ⟨s, _, ⟨hfind, rfl⟩, h⟩ := h
    split_ifs at h with hfinal
    · simp only [Call.pure_ok] at h
      obtain ⟨-, rfl⟩ := h
      exact .same hr
    · simp only [Call.refuse_ok] at h
    · simp only [Call.modify_bind, Call.pure_ok] at h
      obtain ⟨-, rfl⟩ := h
      obtain ⟨r₀, hr₀, rfl⟩ := mem_updateWhere.mp hr
      split_ifs with hid
      · -- The row that was checked is the one that is written.
        have hsid : s.scheduleId = scheduleId := by simpa using List.find?_some hfind
        have hrow : s = r₀ := eq_of_key_eq inv.ids (List.mem_of_find?_eq_some hfind) hr₀
          (hsid.trans (of_decide_eq_true hid).symm)
        apply RowFrom.kept r₀ _ hr₀
        intro hexhausted
        exact absurd (.inr (hrow ▸ hexhausted)) hfinal
      · exact .same hr₀
  · rw [hx] at h
    rw [h] at hr
    exact .same hr

theorem schedulerStep_row (inv : SchedInv σ) {e : SchedulerEvent} (hop : isTick e.1 = false)
    {r : Schedule} (hr : r ∈ (schedulerStep env cfg σ e).2.schedules) : RowFrom σ e.1 r := by
  obtain ⟨op, mom⟩ := e
  unfold schedulerStep schedulerExec at hr
  cases op with
  | broker op =>
    rw [(Respects.map (brokerOp_aside env cfg mom op) σ).schedules] at hr
    exact .same hr
  | markThreadRead tid upTo =>
    rw [(Respects.map (onBroker_aside _) σ).schedules] at hr
    exact .same hr
  | createSchedule input =>
    simp only [Call.map_snd] at hr
    exact createSchedule_row input hr
  | setScheduleState sid control =>
    simp only [Call.map_snd] at hr
    exact setScheduleState_row inv sid control hr
  | tick => cases hop

/-- What each round of a tick keeps, the tick keeps. -/
theorem rounds_keep {P : List (Id × Instant) → SchedulerDb → Prop} {due : List DueSchedule}
    (hround : ∀ s ∈ due, ∀ rest σ log, Underway now (s :: rest) σ → P log σ →
      P (log ++ roundLog env cfg sendNow now s σ) (tickOne env cfg sendNow now s σ).2)
    (under : Underway now due σ) (h : P log σ) :
    P (log ++ enqueuedBy env cfg sendNow now due σ) (fireAll env cfg sendNow now due σ).2 := by
  induction due generalizing σ log with
  | nil =>
    rw [enqueuedBy, List.append_nil]
    exact h
  | cons s rest ih =>
    rw [enqueuedBy, ← List.append_assoc]
    apply ih _ under.tickOne (hround s List.mem_cons_self rest σ log under h)
    intro x hx
    exact hround x (List.mem_cons_of_mem s hx)

/-- What the rounds and the other steps keep, a step keeps. The clock is set first. -/
theorem tallied_keep {P : List (Id × Instant) → ℤ → SchedulerDb → Prop}
    {p : SchedulerDb × Tally} {e : SchedulerEvent} (inv : SchedInv p.1)
    (h : P p.2.log ((tallied env cfg p e).2.2.clock : ℕ) p.1)
    (hround : ∀ now, toISOString e.2.nowMs = .ok now → isTick e.1 →
      ∀ s ∈ selected p.1 now, ∀ rest σ log, Underway now (s :: rest) σ → P log now.ms σ →
      P (log ++ roundLog env cfg e.2.now now s σ) now.ms (tickOne env cfg e.2.now now s σ).2)
    (hedit : isTick e.1 = false →
      P p.2.log ((tallied env cfg p e).2.2.clock : ℕ) (schedulerStep env cfg p.1 e).2) :
    P (tallied env cfg p e).2.2.log ((tallied env cfg p e).2.2.clock : ℕ)
      (tallied env cfg p e).2.1 := by
  obtain ⟨op, mom⟩ := e
  obtain ⟨σ, record⟩ := p
  cases op with
  | tick =>
    unfold tallied recording tally schedulerStep schedulerExec at h ⊢
    simp only [Call.map_snd, isTick, true_or, if_true] at h ⊢
    cases hclock : toISOString mom.nowMs with
    | error e =>
      rw [List.append_nil, tick_snd_of_error hclock]
      exact h
    | ok now =>
      rw [tick_snd hclock]
      have hms := ms_of_toISOString hclock
      rw [← hms] at h ⊢
      exact rounds_keep (P := fun log σ => P log now.ms σ) (hround now hclock rfl)
        (underway_selected inv now) h
  | _ =>
    have hstep := hedit rfl
    simpa only [tallied, recording, tally, List.append_nil] using hstep

/-- The part of the record that every invariant carries. -/
theorem Recorded.edit (h : Recorded log clock σ) {e : SchedulerEvent}
    (hop : isTick e.1 = false) : Recorded log clock (schedulerStep env cfg σ e).2 := by
  apply h.rows
  apply Edit.rows
  apply schedulerStep_edit
  rintro mom rfl
  cases hop

/-- The clock of the record does not go back. -/
theorem clock_le {p : SchedulerDb × Tally} {e : SchedulerEvent} (hclocked : Clocked p e) :
    p.2.clock ≤ (tallied env cfg p e).2.2.clock := by
  unfold tallied recording tally
  split_ifs with hmoved
  · exact hclocked hmoved
  · exact le_rfl

/-! ## The daily limit of a schedule -/

/-- The wakes of a schedule are bounded by a whole limit, and its counter stands at no fewer than
    happened on the current day. -/
structure WakesKept (log : List (Id × Instant)) (clock : ℤ) (σ : SchedulerDb) : Prop
    extends Recorded log clock σ where
  limited : ∀ r ∈ σ.schedules, ∀ limit : ℕ, r.wakeLimitPerDay = some (limit : ℚ) →
    ∀ day, onDay log (· = r.scheduleId) day ≤ limit
  counter : ∀ r ∈ σ.schedules, ∀ t : Instant, clock ≤ t.ms →
    onDay log (· = r.scheduleId) t.day ≤ (DueSchedule.mk r t).wakesOn t.date

theorem WakesKept.later (h : WakesKept log clock σ) {clock' : ℤ} (hle : clock ≤ clock') :
    WakesKept log clock' σ :=
  ⟨h.toRecorded.later hle, h.limited, fun r hr t ht => h.counter r hr t (hle.trans ht)⟩

theorem onDay_none {who : Id → Bool} (h : ∀ e ∈ log, who e.1 = false) (day : ℤ) :
    onDay log who day = 0 := by
  apply List.countP_eq_zero.mpr
  intro e he
  simp [h e he]

theorem WakesKept.edit (h : WakesKept log clock σ) (inv : SchedInv σ) {e : SchedulerEvent}
    (hop : isTick e.1 = false) : WakesKept log clock (schedulerStep env cfg σ e).2 := by
  have hnew {id : Id} (fresh : ∀ r ∈ σ.schedules, r.scheduleId ≠ id) (day : ℤ) :
      onDay log (· = id) day = 0 := by
    apply onDay_none
    intro e he
    exact decide_eq_false (h.fresh fresh e he)
  refine ⟨h.toRecorded.edit hop, ?_, ?_⟩
  · intro r hr limit hlimit day
    cases schedulerStep_row inv hop hr with
    | kept r state hr₀ _ => exact h.limited r hr₀ limit hlimit day
    | created input id _ fresh => exact (hnew fresh day).trans_le (Nat.zero_le _)
  · intro r hr t ht
    cases schedulerStep_row inv hop hr with
    | kept r state hr₀ _ => exact h.counter r hr₀ t ht
    | created input id _ fresh => exact (hnew fresh t.day).trans_le (Nat.zero_le _)

/-- A round adds at most the tick's own day to the record of its schedule. -/
theorem onDay_round {mode : AdvanceMode} {nextRun : Option Instant} {round : List (Id × Instant)}
    (h : Counted cfg now s σ mode nextRun σ' round) (who : Id → Bool) (day : ℤ) :
    onDay round who day = 0 ∨
      mode = .fired ∧ who s.scheduleId = true ∧ day = now.day ∧ onDay round who day = 1 := by
  rcases h.log with rfl | ⟨hfired, rfl⟩
  · exact .inl rfl
  · by_cases hcounts : who s.scheduleId = true ∧ now.day = day
    · exact .inr ⟨hfired, hcounts.1, hcounts.2.symm, by simp [onDay, hcounts]⟩
    · left
      apply List.countP_eq_zero.mpr
      intro e he
      obtain rfl := List.mem_singleton.mp he
      simpa using hcounts

theorem settled_wakes (s : DueSchedule) (now : Instant) (nextRun : Option Instant)
    (mode : AdvanceMode) :
    (mode ≠ .fired → (settled s now mode nextRun s.toSchedule).wakesToday = s.wakesToday ∧
      (settled s now mode nextRun s.toSchedule).wakesTodayDate = s.wakesTodayDate) ∧
    (mode = .fired → (settled s now mode nextRun s.toSchedule).wakesToday =
        s.wakesOn now.date + 1 ∧
      (settled s now mode nextRun s.toSchedule).wakesTodayDate = some now.date) ∧
    (settled s now mode nextRun s.toSchedule).wakeLimitPerDay = s.wakeLimitPerDay := by
  unfold settled
  by_cases hfired : mode = .fired <;> simp [hfired, advanced, awakened]

theorem WakesKept.round {rest : List DueSchedule} (h : WakesKept log now.ms σ)
    (under : Underway now (s :: rest) σ) :
    WakesKept (log ++ roundLog env cfg sendNow now s σ) now.ms
      (tickOne env cfg sendNow now s σ).2 := by
  have hrecorded : Recorded (log ++ roundLog env cfg sendNow now s σ) now.ms
      (tickOne env cfg sendNow now s σ).2 := h.toRecorded.round under le_rfl
  have hrow := under.rows s List.mem_cons_self
  rcases tickOne_counted env cfg sendNow now s σ with ⟨hsnd, hlog⟩ | ⟨mode, nextRun, hcounted⟩
  · rw [hsnd, hlog, List.append_nil]
    exact ⟨⟨h.known, h.past⟩, h.limited, h.counter⟩
  generalize roundLog env cfg sendNow now s σ = round at hcounted hrecorded ⊢
  generalize (tickOne env cfg sendNow now s σ).2 = σ' at hcounted hrecorded ⊢
  obtain ⟨hkept, hfires, hlimit⟩ := settled_wakes s now nextRun mode
  have hid := settled_id s now mode nextRun s.toSchedule
  refine ⟨hrecorded, ?_, ?_⟩
  · intro r hr limit hsome day
    rw [onDay_append]
    rcases hcounted.mem under hr with ⟨hr, hne⟩ | rfl
    · rcases onDay_round hcounted (· = r.scheduleId) day with hzero | ⟨-, heq, -, -⟩
      · rw [hzero]
        exact h.limited r hr limit hsome day
      · exact absurd (of_decide_eq_true heq).symm hne
    · rw [hid]
      rw [hlimit] at hsome
      rcases onDay_round hcounted (· = s.scheduleId) day with hzero | ⟨hfired, -, rfl, hone⟩
      · rw [hzero]
        exact h.limited _ hrow limit hsome day
      · -- The gate has let the fire pass, so the counter was below the limit.
        have hgate : s.wakesOn now.date < limit := by
          exact_mod_cast (blockedBy_none (hcounted.gates hfired)).1 limit hsome
        have hcounter := h.counter _ hrow now le_rfl
        rw [hone]
        exact Nat.succ_le_of_lt (hcounter.trans_lt hgate)
  · intro r hr t ht
    rw [onDay_append]
    rcases hcounted.mem under hr with ⟨hr, hne⟩ | rfl
    · rcases onDay_round hcounted (· = r.scheduleId) t.day with hzero | ⟨-, heq, -, -⟩
      · rw [hzero]
        exact h.counter r hr t ht
      · exact absurd (of_decide_eq_true heq).symm hne
    · rw [hid]
      unfold DueSchedule.wakesOn
      by_cases hfired : mode = .fired
      · rw [(hfires hfired).1, (hfires hfired).2]
        by_cases hday : t.day = now.day
        · -- The same day: the counter goes up with the record.
          rw [hday, Instant.date_eq_of_day_eq hday, if_pos rfl]
          have hle := h.counter _ hrow now le_rfl
          rcases onDay_round hcounted (· = s.scheduleId) now.day with hzero | ⟨-, -, -, hone⟩
          · rw [hzero]
            exact hle.trans (Nat.le_succ _)
          · rw [hone]
            exact Nat.succ_le_succ hle
        · -- A later day: nothing has been enqueued on it.
          have hlt := lt_of_le_of_ne (Instant.day_le_of_ms_le ht) (Ne.symm hday)
          have hnone := onDay_eq_zero h.past hlt fun id => id = s.scheduleId
          rcases onDay_round hcounted (· = s.scheduleId) t.day with hzero | ⟨-, -, heq, -⟩
          · rw [hnone, hzero]
            exact Nat.zero_le _
          · exact absurd heq hday
      · rw [(hkept hfired).1, (hkept hfired).2]
        rcases onDay_round hcounted (· = s.scheduleId) t.day with hzero | ⟨heq, -⟩
        · rw [hzero]
          exact h.counter _ hrow t ht
        · exact absurd heq hfired

theorem WakesKept.step {p : SchedulerDb × Tally} {e : SchedulerEvent} (inv : SchedInv p.1)
    (h : WakesKept p.2.log p.2.clock p.1) (hclocked : Clocked p e) :
    WakesKept (tallied env cfg p e).2.2.log (tallied env cfg p e).2.2.clock
      (tallied env cfg p e).2.1 := by
  have hlater : WakesKept p.2.log ((tallied env cfg p e).2.2.clock : ℕ) p.1 :=
    h.later (by exact_mod_cast clock_le hclocked)
  apply tallied_keep inv hlater
  · intro now _ _ s _ rest σ log under hkept
    exact hkept.round under
  · intro hop
    exact hlater.edit inv hop

/-! ## The limit of a schedule in all -/

/-- The fires of a schedule that may fire at all are bounded by a whole limit, and what is left to
    it shows in its state. -/
structure FiresKept (log : List (Id × Instant)) (σ : SchedulerDb) : Prop
    extends Recorded log maxTime σ where
  counter : ∀ r ∈ σ.schedules, inAll log r.scheduleId ≤ r.firesUsed
  limited : ∀ r ∈ σ.schedules, ∀ n : ℕ, r.maxFires = some (n : ℚ) → 0 < n →
    inAll log r.scheduleId ≤ n ∧ (r.state ≠ .exhausted → inAll log r.scheduleId < n)

theorem FiresKept.edit (h : FiresKept log σ) (inv : SchedInv σ) {e : SchedulerEvent}
    (hop : isTick e.1 = false) : FiresKept log (schedulerStep env cfg σ e).2 := by
  have hnew {id : Id} (fresh : ∀ r ∈ σ.schedules, r.scheduleId ≠ id) : inAll log id = 0 := by
    apply List.countP_eq_zero.mpr
    intro e he
    simpa using h.fresh fresh e he
  refine ⟨h.toRecorded.edit hop, ?_, ?_⟩
  · intro r hr
    cases schedulerStep_row inv hop hr with
    | kept r state hr₀ _ => exact h.counter r hr₀
    | created input id _ fresh => exact (hnew fresh).trans_le (Nat.zero_le _)
  · intro r hr n hsome hpos
    cases schedulerStep_row inv hop hr with
    | kept r state hr₀ final =>
      obtain ⟨hle, hlt⟩ := h.limited r hr₀ n hsome hpos
      exact ⟨hle, fun hstate => hlt fun hexhausted => hstate (final hexhausted)⟩
    | created input id _ fresh =>
      have hzero : inAll log (input.row id).scheduleId = 0 := hnew fresh
      rw [hzero]
      exact ⟨Nat.zero_le n, fun _ => hpos⟩

theorem FiresKept.round {rest : List DueSchedule} (h : FiresKept log σ)
    (under : Underway now (s :: rest) σ) :
    FiresKept (log ++ roundLog env cfg sendNow now s σ) (tickOne env cfg sendNow now s σ).2 := by
  have hrow := under.rows s List.mem_cons_self
  have hactive := (under.slots s List.mem_cons_self).2.1
  have hrecorded : Recorded (log ++ roundLog env cfg sendNow now s σ) maxTime
      (tickOne env cfg sendNow now s σ).2 :=
    h.toRecorded.round under (le_trans Int.le_natAbs (by exact_mod_cast now.inRange))
  rcases tickOne_counted env cfg sendNow now s σ with ⟨hsnd, hlog⟩ | ⟨mode, nextRun, hcounted⟩
  · rw [hsnd, hlog, List.append_nil]
    exact ⟨⟨h.known, h.past⟩, h.counter, h.limited⟩
  generalize roundLog env cfg sendNow now s σ = round at hcounted hrecorded ⊢
  generalize (tickOne env cfg sendNow now s σ).2 = σ' at hcounted hrecorded ⊢
  have hid := settled_id s now mode nextRun s.toSchedule
  have happend (id : Id) : inAll (log ++ round) id = inAll log id + inAll round id :=
    List.countP_append
  -- A round counts for its own schedule only, and once, if it is a fire.
  have hother {id : Id} (hne : id ≠ s.scheduleId) : inAll round id = 0 := by
    rcases hcounted.log with rfl | ⟨-, rfl⟩
    · rfl
    · simp [inAll, Ne.symm hne]
  have hown : inAll round s.scheduleId ≤ if mode = .fired then 1 else 0 := by
    rcases hcounted.log with rfl | ⟨hfired, rfl⟩
    · exact Nat.zero_le _
    · simp [inAll, hfired]
  refine ⟨hrecorded, ?_, ?_⟩
  · intro r hr
    rw [happend]
    rcases hcounted.mem under hr with ⟨hr, hne⟩ | rfl
    · rw [hother hne]
      exact h.counter r hr
    · rw [hid]
      exact Nat.add_le_add (h.counter _ hrow) hown
  · intro r hr n hsome hpos
    rw [happend]
    rcases hcounted.mem under hr with ⟨hr, hne⟩ | rfl
    · rw [hother hne]
      exact h.limited r hr n hsome hpos
    · rw [hid]
      have hmax : s.maxFires = some (n : ℚ) := by
        rw [← hsome]
        unfold settled
        split <;> rfl
      have hlt := (h.limited _ hrow n hmax hpos).2 (by rw [hactive]; decide)
      have hcount := h.counter _ hrow
      refine ⟨?_, ?_⟩
      · split_ifs at hown <;> omega
      · -- A schedule that is not exhausted by this fire has used fewer than it may.
        intro hstate
        by_cases hfired : mode = .fired
        · rw [if_pos hfired] at hown
          have hleft : s.firesAfter mode < n := by
            by_contra hnot
            apply hstate
            have hreached : (n : ℚ) ≤ (s.firesAfter mode : ℚ) := by
              exact_mod_cast Nat.le_of_not_lt hnot
            have hexhausted : s.exhausted mode = true := by
              rw [hfired] at hreached ⊢
              unfold DueSchedule.exhausted
              simp [hmax, hreached]
            unfold settled advanced
            rw [if_pos hexhausted]
          rw [DueSchedule.firesAfter, if_pos hfired] at hleft
          exact (Nat.add_le_add hcount hown).trans_lt hleft
        · rw [if_neg hfired] at hown
          rw [Nat.le_zero.mp hown]
          exact hlt

theorem FiresKept.step {p : SchedulerDb × Tally} {e : SchedulerEvent} (inv : SchedInv p.1)
    (h : FiresKept p.2.log p.1) :
    FiresKept (tallied env cfg p e).2.2.log (tallied env cfg p e).2.1 := by
  apply tallied_keep (P := fun log _ σ => FiresKept log σ) inv h
  · intro now _ _ s _ rest σ log under hkept
    exact hkept.round under
  · intro hop
    exact h.edit inv hop

/-! ## Limits stay as they were set -/

/-- The limits of every schedule are of this kind. -/
def AllLimits (Q : Option ℚ → Option ℚ → Prop) (σ : SchedulerDb) : Prop :=
  ∀ r ∈ σ.schedules, Q r.wakeLimitPerDay r.maxFires

theorem AllLimits.step {Q : Option ℚ → Option ℚ → Prop} {p : SchedulerDb × Tally}
    {e : SchedulerEvent} (inv : SchedInv p.1) (h : AllLimits Q p.1)
    (hcreated : ∀ input, e.1 = .createSchedule input → Q input.wakeLimitPerDay input.maxFires) :
    AllLimits Q (tallied env cfg p e).2.1 := by
  apply tallied_keep (P := fun _ _ σ => AllLimits Q σ) inv h
  · intro now _ _ s _ rest σ log under hall
    rcases tickOne_counted env cfg e.2.now now s σ with ⟨hsnd, -⟩ | ⟨mode, nextRun, hcounted⟩
    · rw [hsnd]
      exact hall
    · intro r hr
      rcases hcounted.mem under hr with ⟨hr, -⟩ | rfl
      · exact hall r hr
      · have hsame : (settled s now mode nextRun s.toSchedule).wakeLimitPerDay =
              s.wakeLimitPerDay ∧
            (settled s now mode nextRun s.toSchedule).maxFires = s.maxFires := by
          unfold settled
          split <;> exact ⟨rfl, rfl⟩
        rw [hsame.1, hsame.2]
        exact hall _ (under.rows s List.mem_cons_self)
  · intro hop r hr
    cases schedulerStep_row inv hop hr with
    | kept r state hr₀ _ => exact h r hr₀
    | created input id heq _ => exact hcreated input heq

/-! ## The daily limit of a target -/

/-- The sent runs of a target whose slot is of this date. -/
def sentOn (σ : SchedulerDb) (target : String) (date : List Char) : Nat :=
  σ.countRuns (fun x => x.targetAddress = target)
    fun r => r.state = .sent ∧ r.scheduledFor.date = date

/-- The wakes of a target are bounded, and the count the gate reads is no lower than what happened
    on the current day. -/
structure SessionKept (cap : Nat) (log : List (Id × Instant)) (clock : ℤ) (σ : SchedulerDb) : Prop
    extends Recorded log clock σ where
  limited : ∀ target day, onDay log (targets σ target) day ≤ cap
  counter : ∀ target, ∀ t : Instant, clock ≤ t.ms →
    onDay log (targets σ target) t.day ≤ sentOn σ target t.date

theorem SessionKept.later {cap : Nat} (h : SessionKept cap log clock σ) {clock' : ℤ}
    (hle : clock ≤ clock') : SessionKept cap log clock' σ :=
  ⟨h.toRecorded.later hle, h.limited, fun target t ht => h.counter target t (hle.trans ht)⟩

/-- Every schedule keeps its target. -/
structure SameTargets (σ σ' : SchedulerDb) : Prop where
  kept : ∀ target id, targets σ target id = true → targets σ' target id = true
  old : ∀ target, ∀ r ∈ σ.schedules, targets σ' target r.scheduleId = true →
    targets σ target r.scheduleId = true

theorem targets_iff {target : String} {id : Id} : targets σ target id = true ↔
    ∃ r ∈ σ.schedules, r.scheduleId = id ∧ r.targetAddress = target := by
  unfold targets
  simp [List.any_eq_true]

theorem SameTargets.congr (h : SameTargets σ σ') (hrec : Recorded log clock σ) (target : String)
    (day : ℤ) : onDay log (targets σ' target) day = onDay log (targets σ target) day := by
  apply onDay_congr
  intro e he
  obtain ⟨r, hr, hid⟩ := hrec.known e he
  rw [Bool.eq_iff_iff, ← hid]
  exact ⟨h.old target r hr, h.kept target r.scheduleId⟩

theorem sentOn_eq (σ : SchedulerDb) (target : String) (date : List Char) :
    sentOn σ target date =
      (σ.scheduleRuns.filter fun r => r.state = .sent ∧ r.scheduledFor.date = date).countP
        fun r => targets σ target r.scheduleId := by
  rw [List.countP_eq_length_filter, List.filter_filter]
  unfold sentOn SchedulerDb.countRuns targets
  congr 1
  apply List.filter_congr
  intro r _
  rw [Bool.eq_iff_iff]
  simp [and_comm]

/-- As long as no sent run of the date is deleted, the count does not go down. -/
theorem SameTargets.sentOn_le (h : SameTargets σ σ') {target : String} {date : List Char}
    (hruns : (σ.scheduleRuns.filter fun r => r.state = .sent ∧ r.scheduledFor.date = date) =
      σ'.scheduleRuns.filter fun r => r.state = .sent ∧ r.scheduledFor.date = date) :
    sentOn σ target date ≤ sentOn σ' target date := by
  rw [sentOn_eq, sentOn_eq, hruns]
  apply List.countP_mono_left
  intro r _
  exact h.kept target r.scheduleId

theorem sameTargets_updateWhere {p : Schedule → Bool} {f : Schedule → Schedule}
    (hrows : σ'.schedules = updateWhere p f σ.schedules)
    (hid : ∀ r ∈ σ.schedules, p r = true → (f r).scheduleId = r.scheduleId)
    (htarget : ∀ r ∈ σ.schedules, p r = true → (f r).targetAddress = r.targetAddress) :
    SameTargets σ σ' := by
  have hsame : ∀ target id, targets σ' target id = targets σ target id := by
    intro target id
    unfold targets
    rw [hrows, Bool.eq_iff_iff, List.any_eq_true, List.any_eq_true]
    constructor
    · rintro ⟨_, hr', hmatch⟩
      obtain ⟨r, hr, rfl⟩ := mem_updateWhere.mp hr'
      refine ⟨r, hr, ?_⟩
      split_ifs at hmatch with hp
      · rwa [hid r hr hp, htarget r hr hp] at hmatch
      · exact hmatch
    · rintro ⟨r, hr, hmatch⟩
      refine ⟨_, mem_updateWhere.mpr ⟨r, hr, rfl⟩, ?_⟩
      split_ifs with hp
      · rwa [hid r hr hp, htarget r hr hp]
      · exact hmatch
  exact ⟨fun target id h => (hsame target id).trans h,
    fun target r _ h => (hsame target r.scheduleId).symm.trans h⟩

theorem Edit.sameTargets (h : Edit σ σ') : SameTargets σ σ' := by
  cases h with
  | aside h =>
    apply sameTargets_updateWhere (p := fun _ => false) (f := id)
    · rw [h.schedules, updateWhere_of_none fun _ _ => rfl]
    · exact fun _ _ h => absurd h (by decide)
    · exact fun _ _ h => absurd h (by decide)
  | created s fresh _ rows _ =>
    refine ⟨?_, ?_⟩
    · intro target id h
      obtain ⟨r, hr, hmatch⟩ := targets_iff.mp h
      refine targets_iff.mpr ⟨r, ?_, hmatch⟩
      rw [rows]
      exact List.mem_append_left _ hr
    · intro target r hr h
      obtain ⟨r', hr', hid, htarget⟩ := targets_iff.mp h
      rw [rows] at hr'
      rcases List.mem_append.mp hr' with hr' | hr'
      · exact targets_iff.mpr ⟨r', hr', hid, htarget⟩
      · obtain rfl := List.mem_singleton.mp hr'
        exact absurd hid.symm (fresh r hr)
  | controlled scheduleId state rows _ =>
    exact sameTargets_updateWhere rows (fun _ _ _ => rfl) fun _ _ _ => rfl

theorem Counted.sameTargets {mode : AdvanceMode} {nextRun : Option Instant}
    {round : List (Id × Instant)} (h : Counted cfg now s σ mode nextRun σ' round) :
    SameTargets σ σ' := by
  apply sameTargets_updateWhere h.rows
  · exact fun r _ _ => settled_id ..
  · intro r _ _
    unfold settled
    split <;> rfl

/-! Pruning -/

theorem reapOldScheduleRuns_runs (cfg : SchedulerConfig) (mom : Moment) (σ : SchedulerDb) :
    (reapOldScheduleRuns cfg mom σ).2.scheduleRuns =
      σ.scheduleRuns.filter fun r => ¬ prunes cfg mom.nowMs r := by
  unfold reapOldScheduleRuns prunes
  by_cases hnone : cfg.scheduleRunRetentionMs = 0
  · rw [if_pos hnone]
    symm
    apply List.filter_eq_self.mpr
    intro r _
    simp [hnone]
  rw [if_neg hnone]
  cases hcutoff : toISOString ((mom.nowMs : ℚ) - cfg.scheduleRunRetentionMs) with
  | error e =>
    symm
    apply List.filter_eq_self.mpr
    intro r _
    simp [Except.toOption]
  | ok cutoff =>
    rw [Call.lift_ok_bind, Call.get_bind]
    split_ifs with hstale
    · change List.filter _ σ.scheduleRuns = _
      apply List.filter_congr
      intro r _
      simp [hnone, Except.toOption]
    · symm
      apply List.filter_eq_self.mpr
      intro r hr
      have hnot := mt List.any_eq_true.mpr hstale
      by_contra hprune
      apply hnot
      refine ⟨r, hr, ?_⟩
      simpa [hnone, Except.toOption] using hprune

/-- The runs stay as they are. -/
structure SameRuns (σ σ' : SchedulerDb) : Prop where
  runs : σ'.scheduleRuns = σ.scheduleRuns

instance : IsFrame SameRuns where
  refl _ := ⟨rfl⟩
  trans h h' := ⟨h'.runs.trans h.runs⟩

theorem onBroker_sameRuns {α : Type} (x : BrokerCall α) : Respects SameRuns (onBroker x) :=
  fun _ => ⟨rfl⟩

theorem createSchedule_sameRuns (env : Env) (input : CreateScheduleInput) :
    Respects SameRuns (createSchedule env input) := by
  unfold createSchedule
  apply Respects.transaction
  refine Respects.bind .get fun σ => ?_
  refine Respects.bind (.modify fun _ => ⟨rfl⟩) fun _ => ?_
  refine Respects.bind .require fun _ => ?_
  refine Respects.bind .require fun _ => ?_
  refine Respects.bind .require fun _ => ?_
  exact Respects.bind (.modify fun _ => ⟨rfl⟩) fun _ => .pure _

theorem setScheduleState_sameRuns (scheduleId : Id) (control : ScheduleControl) :
    Respects SameRuns (setScheduleState scheduleId control) := by
  unfold setScheduleState
  apply Respects.transaction
  refine Respects.bind .get fun σ => ?_
  refine Respects.bind .orThrow fun s => ?_
  apply Respects.ite
  · exact .ite (.pure _) .throw
  · exact Respects.bind (.modify fun _ => ⟨rfl⟩) fun _ => .pure _

/-- Between ticks, only a sweep touches the runs. -/
theorem schedulerStep_runs {e : SchedulerEvent} (hop : isTick e.1 = false) :
    (schedulerStep env cfg σ e).2.scheduleRuns = σ.scheduleRuns ∨
      isSweep e.1 = true ∧ (schedulerStep env cfg σ e).2.scheduleRuns =
        σ.scheduleRuns.filter fun r => ¬ prunes cfg e.2.nowMs r := by
  obtain ⟨op, mom⟩ := e
  unfold schedulerStep schedulerExec
  cases op with
  | broker op =>
    simp only [Call.map_snd]
    unfold brokerOp
    split
    · rcases Call.transaction_snd _ σ with ⟨r, h⟩ | h
      · right
        refine ⟨rfl, ?_⟩
        generalize (Call.transaction _ σ).2 = σ' at h ⊢
        rw [Call.bind_ok] at h
        obtain ⟨r₀, σ₁, hsweep, h⟩ := h
        rw [Call.bind_ok] at h
        obtain ⟨_, σ₂, hreap, h⟩ := h
        obtain ⟨-, rfl⟩ := Call.pure_ok.mp h
        have hfirst := (onBroker_sameRuns (exec env mom .sweep) σ).runs
        rw [hsweep] at hfirst
        rw [← hfirst, ← reapOldScheduleRuns_runs, hreap]
      · left
        rw [h]
    · exact .inl (onBroker_sameRuns _ σ).runs
  | markThreadRead tid upTo => exact .inl (Respects.map (onBroker_sameRuns _) σ).runs
  | createSchedule input => exact .inl (Respects.map (createSchedule_sameRuns env input) σ).runs
  | setScheduleState sid control =>
    exact .inl (Respects.map (setScheduleState_sameRuns sid control) σ).runs
  | tick => cases hop

/-- What a sweep deletes is not of the current date. -/
theorem sent_kept {p : SchedulerDb × Tally} {e : SchedulerEvent} (hcurrent : Current cfg p e)
    (hop : isTick e.1 = false) {date : List Char}
    (hdate : isSweep e.1 = true → some date = todayAt e.2.nowMs) :
    (schedulerStep env cfg p.1 e).2.scheduleRuns.filter
        (fun r => r.state = .sent ∧ r.scheduledFor.date = date) =
      p.1.scheduleRuns.filter fun r => r.state = .sent ∧ r.scheduledFor.date = date := by
  have hruns : (schedulerStep env cfg p.1 e).2.scheduleRuns = p.1.scheduleRuns ∨
      isSweep e.1 = true ∧ (schedulerStep env cfg p.1 e).2.scheduleRuns =
        p.1.scheduleRuns.filter fun r => ¬ prunes cfg e.2.nowMs r := schedulerStep_runs hop
  rcases hruns with h | ⟨hsweep, h⟩
  · rw [h]
  · rw [h, List.filter_filter]
    apply List.filter_congr
    intro r hr
    by_cases hmatch : r.state = .sent ∧ r.scheduledFor.date = date
    · have hkept := hcurrent.2 hsweep r hr hmatch.1 (by rw [hmatch.2]; exact hdate hsweep)
      simp [hmatch, hkept]
    · simp [hmatch]

theorem SessionKept.edit {cap : Nat} {p : SchedulerDb × Tally} {e : SchedulerEvent}
    (h : SessionKept cap log ((tallied env cfg p e).2.2.clock : ℕ) p.1)
    (hcurrent : Current cfg p e) (hop : isTick e.1 = false) :
    SessionKept cap log ((tallied env cfg p e).2.2.clock : ℕ) (schedulerStep env cfg p.1 e).2 := by
  have hedit : Edit p.1 (schedulerStep env cfg p.1 e).2 := by
    apply schedulerStep_edit
    rintro mom rfl
    cases hop
  have hsame := hedit.sameTargets
  refine ⟨h.toRecorded.edit hop, ?_, ?_⟩
  · intro target day
    rw [hsame.congr h.toRecorded]
    exact h.limited target day
  · intro target t ht
    rw [hsame.congr h.toRecorded]
    by_cases hdate : isSweep e.1 = true → some t.date = todayAt e.2.nowMs
    · exact (h.counter target t ht).trans (hsame.sentOn_le (sent_kept hcurrent hop hdate).symm)
    · -- After the sweep's day, nothing has been enqueued yet.
      push Not at hdate
      obtain ⟨hsweep, hdate⟩ := hdate
      have hclock : (tallied env cfg p e).2.2.clock = e.2.nowMs := by
        unfold tallied recording tally
        exact if_pos (.inr hsweep)
      rw [hclock] at ht
      have hrange : |((e.2.nowMs : ℕ) : ℚ)| ≤ maxTime := by
        have htop := t.inRange
        rw [Nat.abs_cast]
        exact_mod_cast (by omega : e.2.nowMs ≤ maxTime)
      obtain ⟨now, hnow⟩ : ∃ now, toISOString e.2.nowMs = .ok now := by
        unfold toISOString
        rw [dif_pos hrange]
        exact ⟨_, rfl⟩
      have hms := ms_of_toISOString hnow
      rw [hclock, ← hms] at h
      rw [← hms] at ht
      have hlt : now.day < t.day := by
        apply lt_of_le_of_ne (Instant.day_le_of_ms_le ht)
        intro heq
        apply hdate
        rw [← Instant.date_eq_of_day_eq heq]
        unfold todayAt
        rw [hnow]
        rfl
      rw [onDay_eq_zero h.past hlt]
      exact Nat.zero_le _

/-- A round adds a fire to the count, if its slot is of the date and its target the one counted. -/
theorem Counted.sentOn_le {mode : AdvanceMode} {nextRun : Option Instant}
    {round : List (Id × Instant)} (h : Counted cfg now s σ mode nextRun σ' round)
    (target : String) (date : List Char) :
    sentOn σ target date + (if mode = .fired ∧ s.slot.date = date ∧
      targets σ' target s.scheduleId = true then 1 else 0) ≤ sentOn σ' target date := by
  have hfilter (runs : List ScheduleRun) :
      (runs.filter fun r => r.state = .sent ∧ r.scheduledFor.date = date) =
        (runs.filter fun r => r.state = .sent).filter fun r => r.scheduledFor.date = date := by
    rw [List.filter_filter]
    apply List.filter_congr
    intro r _
    simp [Bool.and_comm]
  rw [sentOn_eq, sentOn_eq, hfilter, hfilter, h.runs, List.filter_append, List.countP_append]
  apply Nat.add_le_add
  · apply List.countP_mono_left
    intro r _
    exact h.sameTargets.kept target r.scheduleId
  · split_ifs with hadds hfired
    · simp [hadds]
    · exact absurd hadds.1 hfired
    · exact Nat.zero_le _
    · exact Nat.zero_le _

theorem SessionKept.round {rest : List DueSchedule}
    (h : SessionKept cfg.perSessionWakeCapPerDay log now.ms σ)
    (hcap : 0 < cfg.perSessionWakeCapPerDay) (under : Underway now (s :: rest) σ)
    (hdate : s.slot.date = now.date) :
    SessionKept cfg.perSessionWakeCapPerDay (log ++ roundLog env cfg sendNow now s σ) now.ms
      (tickOne env cfg sendNow now s σ).2 := by
  have hrecorded : Recorded (log ++ roundLog env cfg sendNow now s σ) now.ms
      (tickOne env cfg sendNow now s σ).2 := h.toRecorded.round under le_rfl
  have hrow := under.rows s List.mem_cons_self
  rcases tickOne_counted env cfg sendNow now s σ with ⟨hsnd, hlog⟩ | ⟨mode, nextRun, hcounted⟩
  · rw [hsnd, hlog, List.append_nil]
    exact ⟨⟨h.known, h.past⟩, h.limited, h.counter⟩
  generalize roundLog env cfg sendNow now s σ = round at hcounted hrecorded ⊢
  generalize (tickOne env cfg sendNow now s σ).2 = σ' at hcounted hrecorded ⊢
  have hsame := hcounted.sameTargets
  have hround (target : String) (day : ℤ) : onDay (log ++ round) (targets σ' target) day =
      onDay log (targets σ target) day + onDay round (targets σ' target) day := by
    rw [onDay_append, hsame.congr h.toRecorded]
  have howner {target : String} (hcounts : targets σ' target s.scheduleId = true) :
      s.targetAddress = target := by
    obtain ⟨r, hr, hid, htarget⟩ := targets_iff.mp (hsame.old target _ hrow hcounts)
    obtain rfl := eq_of_key_eq under.inv.ids hr hrow hid
    exact htarget
  refine ⟨hrecorded, ?_, ?_⟩
  · intro target day
    rw [hround]
    rcases onDay_round hcounted (targets σ' target) day with hzero | ⟨hfired, hcounts, rfl, hone⟩
    · rw [hzero]
      exact h.limited target day
    · -- The gate has let the fire pass; the claimed slot itself does not count yet.
      have hgate := (blockedBy_none (hcounted.gates hfired)).2 hcap
      have hclaimed : (claimed σ s).countRuns (fun x => x.targetAddress = s.targetAddress)
          (fun r => r.state = .sent ∧ r.scheduledFor.date = now.date) =
            sentOn σ s.targetAddress now.date := by
        unfold sentOn SchedulerDb.countRuns claimed SchedulerDb.mint
        rw [List.filter_append]
        simp
      rw [hclaimed, howner hcounts] at hgate
      rw [hone]
      exact Nat.succ_le_of_lt ((h.counter target now le_rfl).trans_lt hgate)
  · intro target t ht
    rw [hround]
    have hcount := h.counter target t ht
    have hgrown := hcounted.sentOn_le target t.date
    rcases onDay_round hcounted (targets σ' target) t.day with
      hzero | ⟨hfired, hcounts, hday, hone⟩
    · rw [hzero]
      exact hcount.trans ((Nat.le_add_right _ _).trans hgrown)
    · -- The slot is of the tick's date, so the run counts for the day of the message.
      rw [if_pos ⟨hfired, hdate.trans (Instant.date_eq_of_day_eq hday).symm, hcounts⟩] at hgrown
      rw [hone]
      exact (Nat.succ_le_succ hcount).trans hgrown

theorem SessionKept.step {p : SchedulerDb × Tally} {e : SchedulerEvent} (inv : SchedInv p.1)
    (hcap : 0 < cfg.perSessionWakeCapPerDay)
    (h : SessionKept cfg.perSessionWakeCapPerDay p.2.log p.2.clock p.1) (hclocked : Clocked p e)
    (hcurrent : Current cfg p e) :
    SessionKept cfg.perSessionWakeCapPerDay (tallied env cfg p e).2.2.log
      (tallied env cfg p e).2.2.clock (tallied env cfg p e).2.1 := by
  have hlater : SessionKept cfg.perSessionWakeCapPerDay p.2.log
      ((tallied env cfg p e).2.2.clock : ℕ) p.1 := h.later (by exact_mod_cast clock_le hclocked)
  apply tallied_keep inv hlater
  · intro now hnow htick s hs rest σ log under hkept
    apply hkept.round hcap under
    have hdate := hcurrent.1 htick s
    unfold dueAt todayAt at hdate
    rw [hnow] at hdate
    exact Option.some.inj (hdate hs)
  · intro hop
    exact hlater.edit hcurrent hop

/-! ## Runs -/

/-- The scheduler at the start. -/
def tallyStart (env : Env) : SchedulerDb × Tally := ({ broker := initial env }, {})

/-- **What the limits bound.** The daily limit of a schedule holds in every run with the ticks in
    the order of the clock, if every such limit is a whole number. The limit in all holds in every
    run in which no schedule is created with a limit that is zero or no whole number. The daily
    limit of a target holds, where there is one, as long as the ticks find slots of their own date
    and the sweeps leave the sent runs of theirs. -/
theorem limits_hold (env : Env) (cfg : SchedulerConfig)
    (tr : List (SchedulerEvent × Except Thrown Unit)) (p : SchedulerDb × Tally) :
    (Run (tallied env cfg) (fun p e => Clocked p e ∧ WakesWhole p e) (tallyStart env) tr p →
        WakesLimited p) ∧
      (Run (tallied env cfg) Firing (tallyStart env) tr p → FiresLimited p) ∧
      (0 < cfg.perSessionWakeCapPerDay →
        Run (tallied env cfg) (fun p e => Clocked p e ∧ Current cfg p e) (tallyStart env) tr p →
          SessionLimited cfg p) := by
  have hstart (clock : ℤ) : Recorded [] clock (tallyStart env).1 :=
    ⟨fun e he => absurd he List.not_mem_nil, fun e he => absurd he List.not_mem_nil⟩
  have hnone : ∀ r ∈ (tallyStart env).1.schedules, False := fun r hr => absurd hr List.not_mem_nil
  have hstep {q : SchedulerDb × Tally} {e : SchedulerEvent} (inv : SchedInv q.1) :
      SchedInv (tallied env cfg q e).2.1 := inv.step e
  refine ⟨?_, ?_, ?_⟩
  · intro run
    have hall : SchedInv p.1 ∧ WakesKept p.2.log p.2.clock p.1 ∧
        AllLimits (fun wakes _ => ∀ limit ∈ wakes, IsCount limit) p.1 := by
      apply run.invariant (P := fun p => SchedInv p.1 ∧ WakesKept p.2.log p.2.clock p.1 ∧
        AllLimits (fun wakes _ => ∀ limit ∈ wakes, IsCount limit) p.1)
      · exact ⟨schedInv_initial env, ⟨hstart _, fun r hr => (hnone r hr).elim,
          fun r hr => (hnone r hr).elim⟩, fun r hr => (hnone r hr).elim⟩
      · rintro q e ⟨inv, h, hcounts⟩ ⟨hclocked, hwaking⟩
        refine ⟨hstep inv, h.step inv hclocked, hcounts.step inv fun input heq => ?_⟩
        unfold WakesWhole at hwaking
        rw [heq] at hwaking
        exact hwaking
    obtain ⟨-, h, hcounts⟩ := hall
    intro r hr limit hsome day
    -- The limit is a whole number, and that one bounds the wakes.
    have hwhole : limit = (limit.num.toNat : ℚ) := hcounts r hr limit hsome
    rw [hwhole] at hsome ⊢
    exact_mod_cast h.limited r hr _ hsome day
  · intro run
    have hall : SchedInv p.1 ∧ FiresKept p.2.log p.1 ∧
        AllLimits (fun _ fires => ∀ n ∈ fires, IsCount n ∧ n ≠ 0) p.1 := by
      apply run.invariant (P := fun p => SchedInv p.1 ∧ FiresKept p.2.log p.1 ∧
        AllLimits (fun _ fires => ∀ n ∈ fires, IsCount n ∧ n ≠ 0) p.1)
      · exact ⟨schedInv_initial env, ⟨hstart _, fun r hr => (hnone r hr).elim,
          fun r hr => (hnone r hr).elim⟩, fun r hr => (hnone r hr).elim⟩
      · rintro q e ⟨inv, h, hfire⟩ hfiring
        refine ⟨hstep inv, h.step inv, hfire.step inv fun input heq => ?_⟩
        unfold Firing at hfiring
        rw [heq] at hfiring
        exact hfiring
    obtain ⟨-, h, hfire⟩ := hall
    intro r hr n hsome
    obtain ⟨hcount, hne⟩ := hfire r hr n hsome
    have hwhole : n = (n.num.toNat : ℚ) := hcount
    have hpos : 0 < n.num.toNat := by
      apply Nat.pos_of_ne_zero
      intro hzero
      rw [hzero] at hwhole
      exact hne hwhole
    rw [hwhole] at hsome ⊢
    exact_mod_cast (h.limited r hr _ hsome hpos).1
  · intro hcap run
    have hall : SchedInv p.1 ∧
        SessionKept cfg.perSessionWakeCapPerDay p.2.log p.2.clock p.1 := by
      apply run.invariant (P := fun p => SchedInv p.1 ∧
        SessionKept cfg.perSessionWakeCapPerDay p.2.log p.2.clock p.1)
      · exact ⟨schedInv_initial env, hstart _, fun _ _ => Nat.zero_le _, fun _ _ _ => Nat.zero_le _⟩
      · rintro q e ⟨inv, h⟩ ⟨hclocked, hcurrent⟩
        exact ⟨hstep inv, h.step inv hcap hclocked hcurrent⟩
    exact hall.2.limited

/-! Two hourly schedules for one target. -/

/-- Where a concrete run ends, with its record. -/
def tallyOf (cfg : SchedulerConfig) (events : List SchedulerEvent) : SchedulerDb × Tally :=
  (runAll (tallied plainEnv cfg) (tallyStart plainEnv) events).2

/-- The messages of a record. -/
def sentAt (p : SchedulerDb × Tally) : List (Id × ℤ) := p.2.log.map fun e => (e.1, e.2.ms)

/-- Schedules with these limits are created, and then there is a tick at each of the times. -/
def limitedEvents (limits : List (Option ℚ × Option ℚ)) (times : List Nat) :
    List SchedulerEvent :=
  requestSent.map (fun e => (.broker e.1, e.2)) ++
    limits.map (fun l => (.createSchedule { targetAddress := "beta-name", payloadText := "stand-up"
                                            kind := .interval, scheduleExpr := some 3600000
                                            wakeLimitPerDay := l.1, maxFires := l.2
                                            nextRunAt := atMs 1000 second_le_maxTime },
      { nowMs := 1000 })) ++
    times.map fun t => (.tick, { nowMs := t })

/-- The first is stopped by its own limits, the second by that of the target. -/
theorem pair_limited :
    sentAt (tallyOf { perSessionWakeCapPerDay := 3 }
        (limitedEvents [(some 2, some 2), (none, none)] [2000, 3602000, 7202000])) =
        [(14, 2000), (15, 2000), (14, 3602000)] ∧
      WakesLimited (tallyOf { perSessionWakeCapPerDay := 3 }
        (limitedEvents [(some 2, some 2), (none, none)] [2000, 3602000, 7202000])) ∧
      FiresLimited (tallyOf { perSessionWakeCapPerDay := 3 }
        (limitedEvents [(some 2, some 2), (none, none)] [2000, 3602000, 7202000])) ∧
      SessionLimited { perSessionWakeCapPerDay := 3 } (tallyOf { perSessionWakeCapPerDay := 3 }
        (limitedEvents [(some 2, some 2), (none, none)] [2000, 3602000, 7202000])) := by
  have hconcrete : sentAt (tallyOf { perSessionWakeCapPerDay := 3 }
        (limitedEvents [(some 2, some 2), (none, none)] [2000, 3602000, 7202000])) =
          [(14, 2000), (15, 2000), (14, 3602000)] ∧
      Admitted (tallied plainEnv { perSessionWakeCapPerDay := 3 })
        (fun p e => (Clocked p e ∧ WakesWhole p e) ∧ Firing p e ∧
          Current { perSessionWakeCapPerDay := 3 } p e)
        (tallyStart plainEnv)
        (limitedEvents [(some 2, some 2), (none, none)] [2000, 3602000, 7202000]) := by
    decide +kernel
  obtain ⟨hsent, hadmitted⟩ := hconcrete
  have run := Run.of_runAll _ hadmitted
  obtain ⟨hwakes, hfires, hsession⟩ := limits_hold plainEnv { perSessionWakeCapPerDay := 3 } _
    (tallyOf { perSessionWakeCapPerDay := 3 }
      (limitedEvents [(some 2, some 2), (none, none)] [2000, 3602000, 7202000]))
  exact ⟨hsent, hwakes (run.mono fun _ _ h => h.1), hfires (run.mono fun _ _ h => h.2.1),
    hsession (by decide) (run.mono fun _ _ h => ⟨h.1.1, h.2.2⟩)⟩

/-- A schedule that is to fire not at all fires once, one that is to fire one time and a half fires
    twice, and one that is to wake half a time a day wakes once. Two slots of the day before go to a
    target that is to be woken once a day. -/
theorem limits_exceeded :
    ¬ FiresLimited (tallyOf {} (limitedEvents [(none, some 0)] [2000])) ∧
      ¬ FiresLimited (tallyOf {} (limitedEvents [(none, some (3 / 2))] [2000, 3602000])) ∧
      ¬ WakesLimited (tallyOf {} (limitedEvents [(some (1 / 2), none)] [2000])) ∧
      ¬ SessionLimited { perSessionWakeCapPerDay := 1 } (tallyOf { perSessionWakeCapPerDay := 1 }
        (limitedEvents [(none, none), (none, none)] [86402000])) := by
  have hfires {p : SchedulerDb × Tally} {n : ℚ} (h : ∃ r ∈ p.1.schedules,
      r.maxFires = some n ∧ n < (inAll p.2.log r.scheduleId : ℚ)) : ¬ FiresLimited p := by
    obtain ⟨r, hr, hmax, hlt⟩ := h
    exact fun hall => absurd (hall r hr n hmax) (not_le.mpr hlt)
  refine ⟨hfires (n := 0) (by decide +kernel), hfires (n := 3 / 2) (by decide +kernel), ?_, ?_⟩
  · have hconcrete : ∃ r ∈ (tallyOf {} (limitedEvents [(some (1 / 2), none)] [2000])).1.schedules,
        r.wakeLimitPerDay = some (1 / 2) ∧ (1 / 2 : ℚ) <
          (onDay (tallyOf {} (limitedEvents [(some (1 / 2), none)] [2000])).2.log
            (· = r.scheduleId) 0 : ℚ) := by
      decide +kernel
    obtain ⟨r, hr, hlimit, hlt⟩ := hconcrete
    exact fun hall => absurd (hall r hr _ hlimit 0) (not_le.mpr hlt)
  · have htwo : onDay (tallyOf { perSessionWakeCapPerDay := 1 }
          (limitedEvents [(none, none), (none, none)] [86402000])).2.log
        (targets (tallyOf { perSessionWakeCapPerDay := 1 }
          (limitedEvents [(none, none), (none, none)] [86402000])).1 "beta-name") 1 = 2 := by
      decide +kernel
    intro h
    have hle := h "beta-name" 1
    rw [htwo] at hle
    exact absurd hle (by decide)

end Proof
end XBus
