import XBus.Proof.Advance
import XBus.Lib.Runs

/-!
# Every due schedule is handled

A tick is to leave no schedule behind: each one that is due gets its outcome into `schedule_runs`
and is exhausted or due later. What can keep it from that is in the schedule itself, taken as it
came from the operator: quiet hours the code cannot read, an instant no `Date` holds, or a `cron`
expression that is no number. `Manageable` says that none of these is met. And it can be in another
schedule: one number that the driver does not read back keeps the tick from all that are due
(`DueReadable`). Between them the two are exact (`due_handled_iff`).
-/

set_option autoImplicit false

namespace XBus
namespace Proof

open Lib

variable {env : Env} {cfg : SchedulerConfig} {sendNow : Iso} {now : Instant} {s : DueSchedule}
  {σ σ' : SchedulerDb} {mode : AdvanceMode}

/-- The round commits: the slot has an outcome, and the schedule is exhausted or due later. -/
def Dealt (env : Env) (cfg : SchedulerConfig) (sendNow : Iso) (now : Instant) (s : DueSchedule)
    (σ : SchedulerDb) : Prop :=
  ∃ outcome σ', fireOne env cfg sendNow now s σ = (.ok outcome, σ') ∧
    (∃ r ∈ σ'.scheduleRuns, r.scheduleId = s.scheduleId ∧ r.scheduledFor = s.slot ∧
      r.state ≠ .claimed) ∧
    ∃ row ∈ σ'.schedules, row.scheduleId = s.scheduleId ∧
      (row.state = .exhausted ∨ ∃ next, row.nextRun = some next ∧ now.ms < next.ms)

/-- How the slot is taken in this state: as somebody else's, as blocked, as sent or as refused. -/
def modeAt (env : Env) (cfg : SchedulerConfig) (sendNow : Iso) (now : Instant) (s : DueSchedule)
    (σ : SchedulerDb) : AdvanceMode :=
  if σ.isClaimed s.scheduleId s.slot then .terminal
  else if (claimed σ s).blockedBy cfg s now ≠ .ok none then .deferred
  else match (operatorSend env sendNow s.message (claimed σ s).broker).1 with
    | .ok _ => .fired
    | .error f => if recipientUnresolved f then .deferred else .terminal

/-- What the schedule has to be like for its slot to be handled in this mode. -/
structure Manageable (s : DueSchedule) (now : Instant) (mode : AdvanceMode) : Prop where
  /-- There is a next slot, or none is needed. -/
  recurs : s.candidateMs now mode = none → s.exhausted mode = true
  /-- The quiet hours can be read wherever the push looks, and the instants it looks at, and the
      one that is stored, are dates. -/
  dates : ∀ c, s.candidateMs now mode = some c → ∃ k, Alights s c k ∧
    (s.exhausted mode = true ∨ |walkMs s.stepMs c k| ≤ maxTime)

theorem planned_mode {p : Plan} (h : planned env cfg sendNow now s σ = .ok p) :
    p.mode = modeAt env cfg sendNow now s σ := by
  unfold planned at h
  unfold modeAt
  by_cases hclaimed : σ.isClaimed s.scheduleId s.slot = true
  · rw [if_pos hclaimed] at h ⊢
    obtain rfl := Except.ok.inj h
    rfl
  · rw [if_neg hclaimed] at h ⊢
    cases hgate : (claimed σ s).blockedBy cfg s now with
    | error e =>
      rw [hgate] at h
      cases h
    | ok gate =>
      rw [hgate] at h
      cases gate with
      | some gate =>
        obtain rfl := Except.ok.inj h
        rfl
      | none =>
        cases hsend : operatorSend env sendNow s.message (claimed σ s).broker with
        | mk answer b =>
          simp only [hsend] at h
          cases answer with
          | ok result =>
            obtain rfl := Except.ok.inj h
            rfl
          | error f =>
            obtain rfl := Except.ok.inj h
            rfl

/-- Nothing but the quiet hours at the tick's own instant keeps a slot from being planned. -/
theorem planned_ok_iff : (∃ p, planned env cfg sendNow now s σ = .ok p) ↔
    σ.isClaimed s.scheduleId s.slot = true ∨ ∃ b, inQuietHours now s.quietHoursJson = .ok b := by
  unfold planned
  by_cases hclaimed : σ.isClaimed s.scheduleId s.slot = true
  · rw [if_pos hclaimed]
    exact ⟨fun _ => .inl hclaimed, fun _ => ⟨_, rfl⟩⟩
  · rw [if_neg hclaimed]
    have hquiet := blockedBy_quiet cfg s now (claimed σ s)
    cases hnow : inQuietHours now s.quietHoursJson with
    | error e =>
      rw [hnow] at hquiet
      simp [hquiet, hclaimed]
    | ok b =>
      have hgate : ∃ gate, (claimed σ s).blockedBy cfg s now = .ok gate := by
        rw [hnow] at hquiet
        cases b with
        | true => exact ⟨_, hquiet⟩
        | false => exact hquiet.imp fun _ h => h.1
      obtain ⟨gate, hgate⟩ := hgate
      refine ⟨fun _ => .inr ⟨b, rfl⟩, fun _ => ?_⟩
      rw [hgate]
      cases gate with
      | some gate => exact ⟨_, rfl⟩
      | none =>
        cases operatorSend env sendNow s.message (claimed σ s).broker with
        | mk answer b => cases answer <;> exact ⟨_, rfl⟩

/-- An accepted schedule is advanced to a later instant. -/
theorem now_lt_nextRunAfter {next : Instant} (hacc : Accepted s.toSchedule) (hnow : 0 ≤ now.ms)
    (h : s.nextRunAfter now mode = .ok (some next)) : now.ms < next.ms := by
  have hstep : (1000 : ℚ) ≤ s.stepMs := hacc.floor.trans (le_max_left ..)
  have hle : now.ms + 1000 ≤ next.ms := by
    apply le_nextRunAfter hnow (by norm_num) (by linarith) _ _ h
    · intro _
      exact_mod_cast hacc.floor.trans (minIntervalMs_le_intervalMs _)
    · intro _
      exact_mod_cast hstep
  omega

theorem nextRunAfter_ok_iff : (∃ nextRun, s.nextRunAfter now mode = .ok nextRun ∧
      (nextRun = none → s.exhausted mode = true)) ↔ Manageable s now mode := by
  constructor
  · rintro ⟨nextRun, h, hnone⟩
    rcases nextRunAfter_ok.mp h with ⟨hc, hnext⟩ | ⟨c, k, hc, hk, hlast⟩
    · refine ⟨fun _ => hnone hnext, ?_⟩
      intro c hc'
      rw [hc] at hc'
      cases hc'
    · refine ⟨?_, ?_⟩
      · intro hc'
        rw [hc] at hc'
        cases hc'
      intro c' hc'
      obtain rfl := Option.some.inj (hc.symm.trans hc')
      refine ⟨k, hk, ?_⟩
      split_ifs at hlast with hex
      · exact .inl hex
      · obtain ⟨i, hi, -⟩ := hlast
        exact .inr (toISOString_ok.mp hi).1
  · rintro ⟨hrecurs, hdates⟩
    cases hc : s.candidateMs now mode with
    | none => exact ⟨none, nextRunAfter_ok.mpr (.inl ⟨hc, rfl⟩), fun _ => hrecurs hc⟩
    | some c =>
      obtain ⟨k, hk, hlast⟩ := hdates c hc
      by_cases hex : s.exhausted mode = true
      · exact ⟨none, nextRunAfter_ok.mpr (.inr ⟨c, k, hc, hk, by rw [if_pos hex]⟩), fun _ => hex⟩
      · have hrange := hlast.resolve_left hex
        refine ⟨some ⟨wholeMs (walkMs s.stepMs c k), natAbs_wholeMs_le hrange⟩, ?_, ?_⟩
        · refine nextRunAfter_ok.mpr (.inr ⟨c, k, hc, hk, ?_⟩)
          rw [if_neg hex]
          exact ⟨_, toISOString_ok.mpr ⟨hrange, rfl⟩, rfl⟩
        · intro h
          cases h

/-- One round, in any state the tick can meet it in. -/
theorem handled_iff {rest : List DueSchedule} (under : Underway now (s :: rest) σ)
    (hnow : 0 ≤ now.ms) : Dealt env cfg sendNow now s σ ↔
      (σ.isClaimed s.scheduleId s.slot = true ∨
        ∃ b, inQuietHours now s.quietHoursJson = .ok b) ∧
      Manageable s now (modeAt env cfg sendNow now s σ) := by
  have hrow := under.rows s List.mem_cons_self
  have hactive := (under.slots s List.mem_cons_self).2.1
  have hsettled (mode : AdvanceMode) (nextRun : Option Instant) :
      (settled s now mode nextRun s.toSchedule).nextRun = nextRun ∧
        ((settled s now mode nextRun s.toSchedule).state = .exhausted ↔
          s.exhausted mode = true) := by
    unfold settled advanced
    refine ⟨rfl, ?_⟩
    cases s.exhausted mode with
    | true => simp
    | false =>
      simp only [Bool.false_eq_true, if_false, iff_false]
      split <;> simp [awakened, hactive]
  constructor
  · rintro ⟨outcome, σ', hfire, -, row, hmem, hid, hend⟩
    rcases fireOne_cases env cfg sendNow now s σ with ⟨e, h⟩ | ⟨p, nextRun, hplan, hnext, h⟩
    · rw [h] at hfire
      cases hfire
    rw [h] at hfire
    obtain rfl := (Prod.mk.inj hfire).2
    refine ⟨planned_ok_iff.mp ⟨p, hplan⟩, nextRunAfter_ok_iff.mp ⟨nextRun, ?_, ?_⟩⟩
    · rw [← planned_mode hplan]
      exact hnext
    · -- The row that was written is the schedule's own.
      rw [← planned_mode hplan]
      intro hnone
      rw [((planned_spec hplan).finish nextRun).1] at hmem
      obtain ⟨r₀, hr₀, rfl⟩ := mem_updateWhere.mp hmem
      have hkey : r₀.scheduleId = s.scheduleId := by
        by_contra hne
        simp [hne] at hid
      obtain rfl := eq_of_key_eq under.inv.ids hr₀ hrow hkey
      simp only [decide_true, if_true] at hend
      rcases hend with hex | ⟨next, hsome, -⟩
      · exact (hsettled p.mode nextRun).2.mp hex
      · rw [(hsettled p.mode nextRun).1, hnone] at hsome
        cases hsome
  · rintro ⟨hread, hmanage⟩
    obtain ⟨p, hplan⟩ := (planned_ok_iff (s := s) (σ := σ)).mpr hread
    obtain ⟨nextRun, hnext, hnone⟩ := nextRunAfter_ok_iff.mpr hmanage
    rw [← planned_mode hplan] at hnext hnone
    have hp := planned_spec hplan
    obtain ⟨hrows, hruns, -⟩ := hp.finish nextRun
    refine ⟨p.outcome, p.finish s nextRun, ?_, ?_, settled s now p.mode nextRun s.toSchedule, ?_,
      (settled_terms ..).scheduleId, ?_⟩
    · rw [fireOne_eq, hplan]
      simp only [Plan.commit, hnext]
    · obtain ⟨r, hr, hid, hslot⟩ := hp.run
      rw [hruns]
      exact ⟨r, hr, hid, hslot, (hp.runs r hr).elim (under.inv.runs r) id⟩
    · rw [hrows]
      exact mem_updateWhere.mpr ⟨s.toSchedule, hrow, by simp⟩
    · cases nextRun with
      | none => exact .inl ((hsettled p.mode none).2.mpr (hnone rfl))
      | some next =>
        have hacc := under.inv.accepted s.toSchedule hrow
        exact .inr ⟨next, rfl, now_lt_nextRunAfter hacc hnow hnext⟩

/-- **When a due schedule is handled.** In every state the daemon reaches, and at every tick: the
    tick selects the schedule and its round commits, just when every row that is due is read, the
    quiet hours of this one can be evaluated, and its next run is a date. -/
theorem due_handled_iff {tr : List (SchedulerEvent × Except Thrown Unit)}
    (run : Run (schedulerStep env cfg) Any { broker := initial env } tr σ) (mom : Moment)
    (hclock : toISOString mom.nowMs = .ok now) {pre post : List DueSchedule}
    (hdue : σ.due now = pre ++ s :: post)
    (hmid : (fireAll env cfg mom.now now pre σ).2 = σ') :
    (σ.selectDue now = .ok (pre ++ s :: post) ∧ Dealt env cfg mom.now now s σ') ↔
      DueReadable σ now ∧
      (σ'.isClaimed s.scheduleId s.slot = true ∨
        ∃ b, inQuietHours now s.quietHoursJson = .ok b) ∧
      Manageable s now (modeAt env cfg mom.now now s σ') := by
  have inv : SchedInv σ := run.invariant (schedInv_initial env) fun _ e hinv _ => hinv.step e
  have under := underway_due inv now
  rw [hdue] at under
  have hrest := under.fireAll env cfg mom.now
  rw [hmid] at hrest
  have hnow : 0 ≤ now.ms := by
    rw [ms_of_toISOString hclock]
    exact Int.natCast_nonneg _
  refine and_congr ⟨fun h => ?_, fun h => hdue ▸ selectDue_of_readable h⟩ (handled_iff hrest hnow)
  by_contra hnot
  rw [selectDue_of_not_readable hnot] at h
  cases h

/-! Concrete schedules: one that is handled, and two that the operator may create, of which no tick
can handle the first and no tick gets past the second. -/

/-- A peer is registered, and an hourly schedule that addresses it is created. -/
def hourlyCreated : List SchedulerEvent :=
  requestSent.map (fun e => (.broker e.1, e.2)) ++
    [(.createSchedule { targetAddress := "beta-name", payloadText := "stand-up", kind := .interval
                        scheduleExpr := some 3600000
                        nextRunAt := atMs 1000 second_le_maxTime }, { nowMs := 1000 })]

/-- The hourly schedule, as a tick selects it. -/
def hourly : DueSchedule :=
  { scheduleId := 14, targetAddress := "beta-name", payloadKind := "request"
    payloadText := "stand-up", requiresAck := true, requiresReply := true, kind := .interval
    scheduleExpr := some 3600000, quietHoursJson := none, concurrencyKey := none
    minIntervalMs := 60000, wakeLimitPerDay := none, maxFires := none
    nextRun := some (atMs 1000), slot := atMs 1000 }

/-- The database in which the hourly schedule is due. -/
def hourlyDb : SchedulerDb :=
  (runAll (schedulerStep plainEnv {}) { broker := initial plainEnv } hourlyCreated).2

theorem hourly_handled : Dealt plainEnv {} ⟨2000⟩ (atMs 2000) hourly hourlyDb := by
  have hstart : toISOString ((2000 : ℕ) : ℚ) = .ok (atMs 2000) ∧
      hourlyDb.due (atMs 2000) = [] ++ hourly :: [] ∧
      modeAt plainEnv {} ⟨2000⟩ (atMs 2000) hourly hourlyDb = .fired ∧
      inQuietHours (atMs 2000) hourly.quietHoursJson = .ok false ∧
      hourly.candidateMs (atMs 2000) .fired = some 3602000 := by
    decide +kernel
  obtain ⟨hclock, hdue, hmode, hquiet, hcandidate⟩ := hstart
  have hrun := Run.of_events (schedulerStep plainEnv {})
    { broker := initial plainEnv } hourlyCreated
  have hread : DueReadable hourlyDb (atMs 2000) := by decide +kernel
  refine ((due_handled_iff hrun { nowMs := 2000 } hclock hdue rfl).mpr
    ⟨hread, .inr ⟨false, hquiet⟩, ?_⟩).2
  show Manageable hourly (atMs 2000) (modeAt plainEnv {} ⟨2000⟩ (atMs 2000) hourly hourlyDb)
  rw [hmode]
  refine ⟨?_, ?_⟩
  · intro hnone
    rw [hcandidate] at hnone
    cases hnone
  · intro c hc
    obtain rfl := Option.some.inj (hcandidate.symm.trans hc)
    exact ⟨0, rfl, .inr (by decide +kernel)⟩

/-- Readers for the plain texts of a concrete run. -/
def plainReaders : Readers where
  number t := t.toNat?.map fun n => (n : ℚ)
  date _ := none

/-- A request whose quiet hours are JSON and no object. -/
def quietNull : JsonValue :=
  .obj [("to", .str "beta-name"), ("text", .str "stand-up"), ("kind", .str "once"),
    ("quietHoursJson", .str "null")]

/-- A request with a limit that the database keeps as a whole number and the driver refuses. -/
def wideLimit : JsonValue :=
  .obj [("to", .str "beta-name"), ("text", .str "stand-up"), ("kind", .str "once"),
    ("wakeLimitPerDay", .int 10000000000000000)]

/-- The first request is accepted, its schedule is due at once, and its round throws. The second is
    accepted too, and with its schedule due the tick reads none. -/
theorem quiet_null_poisons :
    ((operatorSchedule plainEnv plainReaders 1000 wideLimit { broker := initial plainEnv }).1 =
        .ok 1 ∧
      (operatorSchedule plainEnv plainReaders 1000 wideLimit
        { broker := initial plainEnv }).2.selectDue (atMs 1000) = .error (.failure .range)) ∧
    (operatorSchedule plainEnv plainReaders 1000 quietNull { broker := initial plainEnv }).1 =
        .ok 1 ∧
      ∃ s ∈ (operatorSchedule plainEnv plainReaders 1000 quietNull
          { broker := initial plainEnv }).2.due (atMs 1000),
        ¬ Dealt plainEnv {} ⟨1000⟩ (atMs 1000) s (operatorSchedule plainEnv plainReaders 1000
          quietNull { broker := initial plainEnv }).2 := by
  refine ⟨by decide +kernel, ?_⟩
  generalize hσ : (operatorSchedule plainEnv plainReaders 1000 quietNull
    { broker := initial plainEnv }).2 = σ
  have hrun : (operatorSchedule plainEnv plainReaders 1000 quietNull
      { broker := initial plainEnv }).1 = .ok 1 ∧
      ∃ s ∈ (operatorSchedule plainEnv plainReaders 1000 quietNull
          { broker := initial plainEnv }).2.due (atMs 1000),
        (fireOne plainEnv {} ⟨1000⟩ (atMs 1000) s (operatorSchedule plainEnv plainReaders 1000
          quietNull { broker := initial plainEnv }).2).1 = .error .type := by
    decide +kernel
  rw [hσ] at hrun
  obtain ⟨hok, s, hs, hthrows⟩ := hrun
  refine ⟨hok, s, hs, ?_⟩
  rintro ⟨outcome, σ', hfire, -⟩
  rw [hfire] at hthrows
  cases hthrows

end Proof
end XBus
