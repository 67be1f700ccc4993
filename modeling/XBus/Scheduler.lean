import XBus.Reaper
import XBus.Lib.Calendar
import XBus.Lib.Double
import XBus.Lib.Json

/-!
# The scheduler

`broker/scheduler.ts`, the schedule operations of `broker/store.ts`, and the pruning pass of
`broker/reaper.ts`. A schedule is fired in three writes of one transaction: the slot is claimed in
`schedule_runs`, the message is sent as the operator under a key made of the schedule and the
slot, and the schedule is advanced to its next slot. Instants are compared as texts here too, and
these can be any a `Date` holds: a first run is what the operator says, and an interval has no
upper bound.

A number of milliseconds can have a fraction, and its sums are those of doubles; a `Date` keeps
the whole part. `schedule_expr` is what `Number` reads from it, `none` where that is not finite.
The limits on wakes and fires can have a fraction too, and are compared with whole counters. The
driver refuses to read a whole number of more than 53 bits, and a tick reads every row that is due
before it fires one. Columns that are written and never read (titles, delivery modes, budgets,
stamps, the texts of a run's failure) are left out.
-/

set_option autoImplicit false

namespace XBus

open Lib

/-! ## Quiet hours -/

/-- What the scheduler's code throws: what a store throws, or the `TypeError` of a value that
    does not have the shape the code takes for granted. -/
inductive Thrown
  | failure (f : Failure)
  | type
deriving DecidableEq, Repr

/-- `\d`, as a number. -/
def digitOf (u : UInt16) : Option Nat := if 48 ≤ u && u ≤ 57 then some (u.toNat - 48) else none

/-- `hhmmToMin`: `none` where the source answers `-1`. -/
def hhmmToMin (s : JsString) : Option Nat :=
  match jsTrim s with
  | [h, colon, m, m'] =>
    if colon = 58 then do return (← digitOf h) * 60 + ((← digitOf m) * 10 + (← digitOf m'))
    else none
  | [h, h', colon, m, m'] =>
    if colon = 58 then do
      return ((← digitOf h) * 10 + (← digitOf h')) * 60 + ((← digitOf m) * 10 + (← digitOf m'))
    else none
  | _ => none

/-- `value.key` of something that is not `null`; `none` is `undefined`. -/
def memberOf (value : Json Int) (key : String) : Option (Json Int) :=
  match value with
  | .obj members => (members.find? fun m => m.1 = utf16 key).map Prod.snd
  | _ => none

/-- The minutes a window's `start` or `end` names; it has to be a string. -/
def windowMinute (window : Json Int) (key : String) : Except Thrown (Option Nat) :=
  match memberOf window key with
  | some (.str s) => .ok (hhmmToMin s)
  | _ => .error .type

/-- The loop over the windows. -/
def inWindows (cur : Nat) : List (Json Int) → Except Thrown Bool
  | [] => .ok false
  | w :: ws => do
    match ← windowMinute w "start", ← windowMinute w "end" with
    | some s, some e =>
      if s ≤ e then if s ≤ cur ∧ cur < e then return true else inWindows cur ws
      -- The window wraps past midnight.
      else if s ≤ cur ∨ cur < e then return true else inWindows cur ws
    | _, _ => inWindows cur ws

/-- `inQuietHours`. A text that is not JSON has no windows; one that is may still not be what the
    loop expects. -/
def inQuietHours (now : Instant) (quietHoursJson : Option String) : Except Thrown Bool :=
  match quietHoursJson.filter (¬ ·.isEmpty) with
  | none => .ok false
  | some text =>
    match Json.read text.toList with
    | none => .ok false
    | some .null => .error .type
    | some qh =>
      match memberOf qh "windows" with
      | none | some .null | some (.str []) => .ok false
      | some (.arr ws) => inWindows now.minuteOfDay ws
      | some _ => .error .type

/-! ## Tables -/

inductive ScheduleKind
  | once | interval | cron
deriving DecidableEq, Repr

inductive ScheduleState
  | active | paused | exhausted | cancelled
deriving DecidableEq, Repr

/-- `schedules`. -/
structure Schedule where
  scheduleId : Id
  targetAddress : String
  payloadKind : String
  payloadText : String
  requiresAck : Bool
  requiresReply : Bool
  kind : ScheduleKind
  scheduleExpr : Option ℚ
  quietHoursJson : Option String
  concurrencyKey : Option String
  minIntervalMs : ℚ
  wakeLimitPerDay : Option ℚ
  wakesToday : Nat := 0
  wakesTodayDate : Option (List Char) := none
  nextRun : Option Instant
  maxFires : Option ℚ
  firesUsed : Nat := 0
  state : ScheduleState := .active
deriving DecidableEq, Repr

/-- `schedule_runs.state`, as far as it is written. -/
inductive RunState
  | claimed | sent | skipped | failed
deriving DecidableEq, Repr

/-- `schedule_runs`. -/
structure ScheduleRun where
  scheduleId : Id
  scheduledFor : Instant
  state : RunState
deriving DecidableEq, Repr

/-- The database with the scheduler's two tables. -/
structure SchedulerDb where
  broker : Broker := {}
  schedules : List Schedule := []
  scheduleRuns : List ScheduleRun := []
deriving DecidableEq, Repr

/-- A call of the scheduler. -/
abbrev SchedulerCall (α : Type) := Call SchedulerDb Thrown α

namespace SchedulerDb

def mint (σ : SchedulerDb) : SchedulerDb := { σ with broker := σ.broker.mint }

/-- `audit` of the scheduler and of the reaper: no session and no message. -/
def audit (σ : SchedulerDb) (eventType : AuditType) : SchedulerDb :=
  { σ with broker := σ.broker.audit eventType }

/-- `UPDATE schedules SET f WHERE schedule_id=?`. -/
def updateSchedule (σ : SchedulerDb) (id : Id) (f : Schedule → Schedule) : SchedulerDb :=
  { σ with schedules := updateWhere (fun s => s.scheduleId = id) f σ.schedules }

/-- `setRun`. -/
def setRun (σ : SchedulerDb) (id : Id) (slot : Instant) (state : RunState) : SchedulerDb :=
  { σ with
    scheduleRuns := updateWhere (fun r => r.scheduleId = id ∧ r.scheduledFor = slot)
      (fun r => { r with state }) σ.scheduleRuns }

end SchedulerDb

/-- A call into a store whose error the scheduler catches. -/
def attempt {α : Type} (x : BrokerCall α) : SchedulerCall (Except Failure α) :=
  Call.act fun σ => ((x σ.broker).1, { σ with broker := (x σ.broker).2 })

/-! ## Advancing -/

/-- What the stores of the scheduler and of the reaper are constructed with. -/
structure SchedulerConfig where
  perSessionWakeCapPerDay : Nat := 200
  scheduleRunRetentionMs : Nat := 7 * 24 * 60 * 60 * 1000
deriving DecidableEq, Repr

/-- `computeNextRun`. -/
def computeNextRun (kind : ScheduleKind) (scheduleExpr : Option ℚ) (afterMs minIntervalMs : ℚ) :
    Option ℚ :=
  let positive := scheduleExpr.filter (0 < ·)
  match kind with
  | .once => none
  | .interval => some (toDouble (afterMs + match positive with
    | some raw => max raw minIntervalMs
    | none => minIntervalMs))
  | .cron => positive.map fun raw => toDouble (afterMs + max raw minIntervalMs)

/-- What `new Date` keeps of a number of milliseconds: the whole part. -/
def wholeMs (ms : ℚ) : ℤ := ms.num.tdiv ms.den

theorem natAbs_wholeMs_le {ms : ℚ} {n : ℕ} (h : |ms| ≤ n) : (wholeMs ms).natAbs ≤ n := by
  have habs : (wholeMs ms).natAbs = ms.num.natAbs / ms.den := Int.natAbs_tdiv ..
  rw [habs]
  apply Nat.div_le_of_le_mul
  rw [← Rat.num_div_den ms, abs_div, Nat.abs_cast, div_le_iff₀ (by exact_mod_cast ms.pos)] at h
  rw [Nat.mul_comm]
  zify
  exact_mod_cast h

/-- `new Date(ms).toISOString()`. -/
def toISOString (ms : ℚ) : Except Thrown Instant :=
  if h : |ms| ≤ maxTime then .ok ⟨wholeMs ms, natAbs_wholeMs_le h⟩
  else .error (.failure .range)

/-- The loop of `advance` that pushes an instant past the quiet hours, by a bounded number of
    steps. -/
def pushPastQuiet (quietHoursJson : Option String) (step : ℚ) : Nat → ℚ → Except Thrown ℚ
  | 0, ms => .ok ms
  | n + 1, ms => do
    if ← inQuietHours (← toISOString ms) quietHoursJson then
      pushPastQuiet quietHoursJson step n (toDouble (ms + step))
    else return ms

inductive AdvanceMode
  | fired | terminal | deferred
deriving DecidableEq, Repr

/-- A schedule as a tick selected it, with the slot it is due for. -/
structure DueSchedule extends Schedule where
  slot : Instant
deriving DecidableEq, Repr

/-- The step of a deferral, and of the push. -/
def DueSchedule.stepMs (s : DueSchedule) : ℚ := max s.minIntervalMs (15 * 60000)

def DueSchedule.firesAfter (s : DueSchedule) (mode : AdvanceMode) : Nat :=
  s.firesUsed + if mode = .fired then 1 else 0

/-- A deferral never exhausts a schedule. -/
def DueSchedule.exhausted (s : DueSchedule) (mode : AdvanceMode) : Bool :=
  mode ≠ .deferred ∧ ((s.maxFires.any fun n => n ≤ (s.firesAfter mode : ℚ)) ∨
    s.kind = .once)

/-- Where `advance` starts from: the slot of the recurrence, or one step on where a slot without
    one is deferred. -/
def DueSchedule.candidateMs (s : DueSchedule) (now : Instant) (mode : AdvanceMode) : Option ℚ :=
  match computeNextRun s.kind s.scheduleExpr now.ms s.minIntervalMs with
  | some ms => some ms
  | none => if mode = .deferred then some (toDouble (now.ms + s.stepMs)) else none

/-- The next instant of `advance`, before it is stored. -/
def DueSchedule.nextRunMs (s : DueSchedule) (now : Instant) (mode : AdvanceMode) :
    Except Thrown (Option ℚ) :=
  match s.candidateMs now mode, s.quietHoursJson.filter (¬ ·.isEmpty) with
  | some ms, some _ => some <$> pushPastQuiet s.quietHoursJson s.stepMs 96 ms
  | candidate, _ => .ok candidate

/-- The `next_run` that `advance` stores. -/
def DueSchedule.nextRunAfter (s : DueSchedule) (now : Instant) (mode : AdvanceMode) :
    Except Thrown (Option Instant) := do
  match ← s.nextRunMs now mode with
  | none => return none
  | some ms => if s.exhausted mode then return none else return some (← toISOString ms)

/-- `advance`. What it writes goes by the row as it was selected. -/
def advance (s : DueSchedule) (now : Instant) (mode : AdvanceMode) : SchedulerCall Unit := do
  let nextRun ← Call.lift (s.nextRunAfter now mode)
  Call.modify fun σ => σ.updateSchedule s.scheduleId fun row =>
    { row with firesUsed := s.firesAfter mode, nextRun
               state := if s.exhausted mode then .exhausted else row.state }

/-! ## Firing -/

/-- `sched:<schedule_id>:<scheduled_for>`. -/
def slotKey (id : Id) (slot : Instant) : String :=
  String.ofList ("sched:".toList ++ (Nat.toDigits 10 id ++ ':' :: slot.text))

inductive FireOutcome
  | fired | skipped
deriving DecidableEq, Repr

/-- The gates of a fire, in their order. -/
inductive Gate
  | quietHours | wakeLimit | sessionCap | concurrency
deriving DecidableEq, Repr

def Gate.auditType : Gate → AuditType
  | quietHours => .scheduleSkippedQuietHours
  | wakeLimit => .scheduleSkippedWakeLimit
  | sessionCap => .scheduleSkippedSessionCap
  | concurrency => .scheduleSkippedConcurrency

/-- The wakes of the current day, as selected. -/
def DueSchedule.wakesOn (s : DueSchedule) (today : List Char) : Nat :=
  if s.wakesTodayDate = some today then s.wakesToday else 0

/-- Runs joined with their schedules, counted. -/
def SchedulerDb.countRuns (σ : SchedulerDb) (p : Schedule → Bool) (q : ScheduleRun → Bool) : Nat :=
  (σ.scheduleRuns.filter fun r =>
    q r ∧ σ.schedules.any fun s => s.scheduleId = r.scheduleId ∧ p s).length

/-- The gate that blocks a fire, if one does. The claimed row is in the table already. -/
def SchedulerDb.blockedBy (σ : SchedulerDb) (cfg : SchedulerConfig) (s : DueSchedule)
    (now : Instant) : Except Thrown (Option Gate) := do
  if ← inQuietHours now s.quietHoursJson then return some .quietHours
  if s.wakeLimitPerDay.any fun limit => limit ≤ (s.wakesOn now.date : ℚ) then
    return some .wakeLimit
  if 0 < cfg.perSessionWakeCapPerDay ∧ cfg.perSessionWakeCapPerDay ≤
      σ.countRuns (fun x => x.targetAddress = s.targetAddress)
        fun r => r.state = .sent ∧ r.scheduledFor.date = now.date then
    return some .sessionCap
  if (s.concurrencyKey.filter (¬ ·.isEmpty)).any fun key =>
      1 < σ.countRuns (fun x => x.concurrencyKey = some key) fun r => r.state = .claimed then
    return some .concurrency
  return none

/-- What a fire sends. -/
def DueSchedule.message (s : DueSchedule) : OperatorSendInput :=
  { recipient := s.targetAddress, text := s.payloadText
    kind := if s.payloadKind = "event" then .event else .request
    requiresAck := s.requiresAck, requiresReply := s.requiresReply
    idempotencyKey := some (slotKey s.scheduleId s.slot)
    metadata := some [("xbus_scheduled", "1"),
      ("xbus_schedule_id", String.ofList (Nat.toDigits 10 s.scheduleId))] }

/-- A recipient that may be there later. -/
def recipientUnresolved : Failure → Bool
  | .xbus e => e.code = .unknownRecipient ∨ e.code = .ambiguousRecipient
  | _ => false

/-- The fire of a claimed slot. -/
def fireClaimed (env : Env) (cfg : SchedulerConfig) (sendNow : Iso) (now : Instant)
    (s : DueSchedule) : SchedulerCall FireOutcome := do
  let σ ← Call.get
  match ← Call.lift (σ.blockedBy cfg s now) with
  | some gate => do
    Call.modify fun σ => σ.setRun s.scheduleId s.slot .skipped
    advance s now .deferred
    Call.modify fun σ => σ.audit gate.auditType
    pure .skipped
  | none => do
    match ← attempt (operatorSend env sendNow s.message) with
    | .ok _ => do
      Call.modify fun σ => (σ.setRun s.scheduleId s.slot .sent).updateSchedule s.scheduleId
        fun row => { row with wakesToday := s.wakesOn now.date + 1
                              wakesTodayDate := some now.date }
      advance s now .fired
      Call.modify fun σ => σ.audit .scheduleFired
      pure .fired
    | .error f => do
      Call.modify fun σ => σ.setRun s.scheduleId s.slot .failed
      advance s now (if recipientUnresolved f then .deferred else .terminal)
      Call.modify fun σ => σ.audit .scheduleFireFailed
      pure .skipped

/-- The slot has a row in `schedule_runs`. -/
def SchedulerDb.isClaimed (σ : SchedulerDb) (id : Id) (slot : Instant) : Bool :=
  σ.scheduleRuns.any fun r => r.scheduleId = id ∧ r.scheduledFor = slot

/-- `fireOne`. `now` is the instant of the tick, `sendNow` the clock when the message is sent. -/
def fireOne (env : Env) (cfg : SchedulerConfig) (sendNow : Iso) (now : Instant)
    (s : DueSchedule) : SchedulerCall FireOutcome :=
  Call.transaction do
    let σ ← Call.get
    Call.modify SchedulerDb.mint
    if σ.isClaimed s.scheduleId s.slot then
      -- An earlier claim owns the slot.
      advance s now .terminal
      pure .skipped
    else
      Call.modify fun σ => { σ with
        scheduleRuns := σ.scheduleRuns ++
          [{ scheduleId := s.scheduleId, scheduledFor := s.slot, state := .claimed }] }
      fireClaimed env cfg sendNow now s

/-- One round of the loop of `tick`: an error is recorded and does not end it. -/
def tickOne (env : Env) (cfg : SchedulerConfig) (sendNow : Iso) (now : Instant)
    (s : DueSchedule) (σ : SchedulerDb) : Option FireOutcome × SchedulerDb :=
  match fireOne env cfg sendNow now s σ with
  | (.ok outcome, σ') => (some outcome, σ')
  | (.error _, σ') => (none, σ'.audit .scheduleTickError)

/-- The rows that `tick` selects, in the order of `next_run`. -/
def SchedulerDb.due (σ : SchedulerDb) (now : Instant) : List DueSchedule :=
  (σ.schedules.filterMap fun s => match s.nextRun with
    | some slot => if s.state = .active ∧ slot.le now then some { s with slot } else none
    | none => none).insertionSort fun s s' => s.slot.le s'.slot

/-- The driver reads every `INTEGER` of the row. -/
def Schedule.readable (s : Schedule) : Bool :=
  let wide (q : ℚ) : Bool := q.den = 1 ∧ TooWide q.num
  ¬ (wide s.minIntervalMs ∨ s.wakeLimitPerDay.any wide ∨ s.maxFires.any wide ∨
    wide s.wakesToday ∨ wide s.firesUsed)

/-- The selection of `tick`: one row that is not read, and there is none (`ERR_OUT_OF_RANGE`). -/
def SchedulerDb.selectDue (σ : SchedulerDb) (now : Instant) : Except Thrown (List DueSchedule) :=
  if (σ.due now).all (·.readable) then .ok (σ.due now) else .error (.failure .range)

/-- What a tick counts. -/
structure SchedulerTickResult where
  fired : Nat := 0
  skipped : Nat := 0
  failed : Nat := 0
deriving DecidableEq, Repr

def SchedulerTickResult.count (r : SchedulerTickResult) : Option FireOutcome → SchedulerTickResult
  | some .fired => { r with fired := r.fired + 1 }
  | some .skipped => { r with skipped := r.skipped + 1 }
  | none => { r with failed := r.failed + 1 }

/-- The loop of `tick`. -/
def fireAll (env : Env) (cfg : SchedulerConfig) (sendNow : Iso) (now : Instant) :
    List DueSchedule → SchedulerDb → SchedulerTickResult × SchedulerDb
  | [], σ => ({}, σ)
  | s :: rest, σ =>
    let r := tickOne env cfg sendNow now s σ
    let r' := fireAll env cfg sendNow now rest r.2
    (r'.1.count r.1, r'.2)

/-- `tick`. -/
def tick (env : Env) (cfg : SchedulerConfig) (mom : Moment) :
    SchedulerCall SchedulerTickResult := do
  let now ← Call.lift (toISOString mom.nowMs)
  let σ ← Call.get
  let due ← Call.lift (σ.selectDue now)
  Call.act (fireAll env cfg mom.now now due)

/-! ## Creating and stopping -/

/-- The input of `createSchedule`. -/
structure CreateScheduleInput where
  targetAddress : String
  payloadText : String
  payloadKind : Option String := none
  requiresAck : Option Bool := none
  requiresReply : Option Bool := none
  kind : ScheduleKind
  scheduleExpr : Option ℚ := none
  quietHoursJson : Option String := none
  concurrencyKey : Option String := none
  minIntervalMs : Option ℚ := none
  wakeLimitPerDay : Option ℚ := none
  maxFires : Option ℚ := none
  nextRunAt : Instant
deriving DecidableEq, Repr

/-- The row `createSchedule` inserts. -/
def CreateScheduleInput.row (input : CreateScheduleInput) (scheduleId : Id) : Schedule :=
  { scheduleId, targetAddress := input.targetAddress
    payloadKind := input.payloadKind.getD "request", payloadText := input.payloadText
    requiresAck := input.requiresAck.getD true, requiresReply := input.requiresReply.getD true
    kind := input.kind, scheduleExpr := input.scheduleExpr
    quietHoursJson := input.quietHoursJson, concurrencyKey := input.concurrencyKey
    minIntervalMs := input.minIntervalMs.getD 60000, wakeLimitPerDay := input.wakeLimitPerDay
    nextRun := some input.nextRunAt, maxFires := input.maxFires }

/-- `createSchedule`. -/
def createSchedule (env : Env) (input : CreateScheduleInput) : SchedulerCall Id :=
  Call.transaction do
    let σ ← Call.get
    let scheduleId := σ.broker.nextId
    Call.modify SchedulerDb.mint
    let minInterval := input.minIntervalMs.getD 60000
    Call.require (1000 ≤ minInterval)
      (.failure (xbusError .protocolViolation "min_interval_ms floor is 1000 (loop guard)"))
    Call.require (input.kind ≠ .interval ∨ (input.scheduleExpr.any fun iv => minInterval ≤ iv))
      (.failure (xbusError .protocolViolation
        ("interval schedule_expr must be >= min_interval_ms (" ++ env.numberText minInterval ++
          ")")))
    Call.require (σ.schedules.all fun s => s.scheduleId ≠ scheduleId)
      (.failure (.sqlite .scheduleId))
    Call.modify fun σ => { σ with schedules := σ.schedules ++ [input.row scheduleId] }
    pure scheduleId

/-- The text of a state, in the error of `setScheduleState`. -/
def ScheduleState.text : ScheduleState → String
  | active => "active"
  | paused => "paused"
  | exhausted => "exhausted"
  | cancelled => "cancelled"

/-- What a schedule can be set to. -/
inductive ScheduleControl
  | pause | resume | cancel
deriving DecidableEq, Repr

def ScheduleControl.target : ScheduleControl → ScheduleState
  | pause => .paused
  | resume => .active
  | cancel => .cancelled

/-- `setScheduleState`: pause, resume and cancel. What is exhausted or cancelled stays so. -/
def setScheduleState (scheduleId : Id) (control : ScheduleControl) :
    SchedulerCall ScheduleState :=
  Call.transaction do
    let σ ← Call.get
    let s ← Call.orThrow (σ.schedules.find? fun s => s.scheduleId = scheduleId)
      (.failure (xbusError .messageNotFound "no such schedule"))
    if s.state = .cancelled ∨ s.state = .exhausted then
      if control = .cancel then pure s.state
      else Call.refuse id (.failure (xbusError .illegalStateTransition
        ("schedule is " ++ s.state.text)))
    else
      Call.modify fun σ => σ.updateSchedule scheduleId fun s => { s with state := control.target }
      pure control.target

/-! ## Pruning -/

/-- `reapOldScheduleRuns`. -/
def reapOldScheduleRuns (cfg : SchedulerConfig) (mom : Moment) : SchedulerCall Unit := do
  if cfg.scheduleRunRetentionMs = 0 then pure ()
  else
    let cutoff ← Call.lift (toISOString ((mom.nowMs : ℚ) - cfg.scheduleRunRetentionMs))
    let stale (r : ScheduleRun) : Bool := r.state ≠ .claimed ∧ cutoff.le r.scheduledFor = false
    let σ ← Call.get
    if σ.scheduleRuns.any stale then
      Call.modify fun σ => { σ with
        scheduleRuns := σ.scheduleRuns.filter fun r => ¬ stale r }.audit .scheduleRunsPruned
    else pure ()

end XBus
