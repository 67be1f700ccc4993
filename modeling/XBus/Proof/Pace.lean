import XBus.Proof.Handling

/-!
# The floor under a schedule's pace

A recurring schedule is not to enqueue twice within its `min_interval_ms`. The floor is in the
date arithmetic: a handled slot is followed by one that is at least the interval later, and a tick
selects a slot that sorts at or before its own instant. Two things come between the two. The
instants are kept in whole milliseconds, so a floor with a fraction is met only if a whole number
lies between it and the interval; and from the year 10000 on a later instant sorts first. Away
from both, the floor holds over every run (`floor_holds`).
-/

set_option autoImplicit false

namespace XBus
namespace Proof

open Lib

variable {env : Env} {cfg : SchedulerConfig} {sendNow : Iso} {now : Instant} {s : DueSchedule}
  {σ σ' : SchedulerDb}

/-! ## What is recorded -/

/-- A round of a tick that enqueues a message: its schedule, and the tick's instant. -/
def roundLog (env : Env) (cfg : SchedulerConfig) (sendNow : Iso) (now : Instant) (s : DueSchedule)
    (σ : SchedulerDb) : List (Id × Instant) :=
  if σ.broker.messages.length < (tickOne env cfg sendNow now s σ).2.broker.messages.length then
    [(s.scheduleId, now)]
  else []

/-- What the rounds of a tick enqueue. -/
def enqueuedBy (env : Env) (cfg : SchedulerConfig) (sendNow : Iso) (now : Instant) :
    List DueSchedule → SchedulerDb → List (Id × Instant)
  | [], _ => []
  | s :: rest, σ => roundLog env cfg sendNow now s σ ++
      enqueuedBy env cfg sendNow now rest (tickOne env cfg sendNow now s σ).2

/-- The last tick, and every message enqueued so far. -/
structure Pace where
  last : Nat := 0
  log : List (Id × Instant) := []
deriving DecidableEq, Repr

/-- The record of a step. -/
def pace (env : Env) (cfg : SchedulerConfig) (p : Pace) (σ : SchedulerDb) (e : SchedulerEvent)
    (_ : Except Thrown Unit) (_ : SchedulerDb) : Pace :=
  match e.1, toISOString e.2.nowMs with
  | .tick, .ok now =>
    { last := e.2.nowMs, log := p.log ++ enqueuedBy env cfg e.2.now now (selected σ now) σ }
  | _, _ => p

/-- The instants at which messages of a schedule were enqueued. -/
def Pace.times (p : Pace) (sid : Id) : List Instant :=
  (p.log.filter fun e => e.1 = sid).map Prod.snd

def isTick : SchedulerOp → Bool
  | .tick => true
  | _ => false

/-- The ticks come in the order of the clock. -/
def Ticking (p : SchedulerDb × Pace) (e : SchedulerEvent) : Prop :=
  isTick e.1 = true → p.2.last ≤ e.2.nowMs

instance (r : Schedule) : Decidable (Recurs r) := inferInstanceAs (Decidable (_ ∨ _))

/-- What a tick at this time selects. -/
def dueAt (σ : SchedulerDb) (nowMs : Nat) : List DueSchedule :=
  match toISOString nowMs with
  | .ok now => selected σ now
  | .error _ => []

/-- When a tick selects the schedule, its next run sorts as it lies in time, and a whole number of
    milliseconds lies between its floor and its interval. -/
def Regular (sid : Id) (p : SchedulerDb × Pace) (e : SchedulerEvent) : Prop :=
  isTick e.1 = true → ∀ s ∈ dueAt p.1 e.2.nowMs, s.scheduleId = sid →
    (s.slot.ms < yearTenThousand ∨ yearTenThousand ≤ e.2.nowMs) ∧
      (Recurs s.toSchedule → (⌈s.minIntervalMs⌉ : ℚ) ≤ intervalMs s.toSchedule)

instance (p : SchedulerDb × Pace) (e : SchedulerEvent) : Decidable (Ticking p e) :=
  inferInstanceAs (Decidable (_ → _))

instance (sid : Id) (p : SchedulerDb × Pace) (e : SchedulerEvent) : Decidable (Regular sid p e) :=
  inferInstanceAs (Decidable (_ → _))

/-! ## The invariant -/

/-- What a record says of the schedule: its messages are apart, and its next run is apart from
    the last of them. -/
structure Paced (sid : Id) (log : List (Id × Instant)) (last : ℤ) (σ : SchedulerDb) : Prop where
  known : ∀ e ∈ log, ∃ r ∈ σ.schedules, r.scheduleId = e.1
  past : ∀ e ∈ log, e.2.ms ≤ last
  spaced : ∀ r ∈ σ.schedules, r.scheduleId = sid →
    ((log.filter fun e => e.1 = sid).map Prod.snd).Pairwise fun t u =>
      (t.ms : ℚ) + r.minIntervalMs ≤ u.ms
  next : ∀ r ∈ σ.schedules, r.scheduleId = sid → ∀ t, (sid, t) ∈ log → ∀ next,
    r.nextRun = some next → Recurs r ∧ (t.ms : ℚ) + r.minIntervalMs ≤ next.ms

theorem Paced.later {sid : Id} {log : List (Id × Instant)} {last last' : ℤ}
    (h : Paced sid log last σ) (hle : last ≤ last') : Paced sid log last' σ :=
  ⟨h.known, fun e he => (h.past e he).trans hle, h.spaced, h.next⟩

theorem recurs_of_sameTerms {r r' : Schedule} (h : SameTerms r r') : Recurs r' ↔ Recurs r := by
  unfold Recurs
  rw [h.kind, h.scheduleExpr]

/-- Steps between the ticks. -/
theorem Paced.edit {sid : Id} {log : List (Id × Instant)} {last : ℤ} (h : Paced sid log last σ)
    (hedit : Edit σ σ') : Paced sid log last σ' := by
  cases hedit with
  | aside haside =>
    have hrows := haside.schedules
    exact ⟨by rw [hrows]; exact h.known, h.past, by rw [hrows]; exact h.spaced,
      by rw [hrows]; exact h.next⟩
  | created s fresh _ rows _ =>
    -- Nothing has been recorded under the new schedule's id.
    have hnone : ∀ e ∈ log, e.1 ≠ s.scheduleId := by
      intro e he heq
      obtain ⟨r, hr, hid⟩ := h.known e he
      exact fresh r hr (hid.trans heq)
    refine ⟨?_, h.past, ?_, ?_⟩
    · intro e he
      obtain ⟨r, hr, hid⟩ := h.known e he
      exact ⟨r, by rw [rows]; exact List.mem_append_left _ hr, hid⟩
    · rw [rows]
      intro r hr hid
      rcases List.mem_append.mp hr with hr | hr
      · exact h.spaced r hr hid
      · obtain rfl := List.mem_singleton.mp hr
        have hempty : log.filter (fun e => e.1 = sid) = [] := by
          apply List.filter_eq_nil_iff.mpr
          intro e he heq
          exact hnone e he ((of_decide_eq_true heq).trans hid.symm)
        rw [hempty]
        exact List.Pairwise.nil
    · rw [rows]
      intro r hr hid t ht
      rcases List.mem_append.mp hr with hr | hr
      · exact h.next r hr hid t ht
      · obtain rfl := List.mem_singleton.mp hr
        exact absurd hid.symm (hnone (sid, t) ht)
  | controlled scheduleId state rows _ =>
    have hback : ∀ r ∈ σ'.schedules, ∃ r₀ ∈ σ.schedules, SameTerms r₀ r ∧
        r.nextRun = r₀.nextRun := by
      rw [rows]
      intro r hr
      obtain ⟨r₀, hr₀, rfl⟩ := mem_updateWhere.mp hr
      refine ⟨r₀, hr₀, ?_⟩
      split <;> exact ⟨⟨rfl, rfl, rfl, rfl⟩, rfl⟩
    refine ⟨?_, h.past, ?_, ?_⟩
    · intro e he
      obtain ⟨r, hr, hid⟩ := h.known e he
      rw [rows]
      refine ⟨_, mem_updateWhere.mpr ⟨r, hr, rfl⟩, ?_⟩
      split <;> exact hid
    · intro r hr hid
      obtain ⟨r₀, hr₀, hterms, -⟩ := hback r hr
      rw [hterms.minIntervalMs]
      exact h.spaced r₀ hr₀ (hterms.scheduleId.symm.trans hid)
    · intro r hr hid t ht next hnext
      obtain ⟨r₀, hr₀, hterms, hsame⟩ := hback r hr
      rw [recurs_of_sameTerms hterms, hterms.minIntervalMs]
      exact h.next r₀ hr₀ (hterms.scheduleId.symm.trans hid) t ht next (hsame ▸ hnext)

theorem mem_roundLog {e : Id × Instant} (h : e ∈ roundLog env cfg sendNow now s σ) :
    e = (s.scheduleId, now) := by
  unfold roundLog at h
  split_ifs at h
  · exact List.mem_singleton.mp h
  · cases h

/-- The rows after a plan has been carried out: the others, and the schedule's own. -/
theorem mem_finish {rest : List DueSchedule} {p : Plan} {nextRun : Option Instant} {r : Schedule}
    (under : Underway now (s :: rest) σ) (hp : p.Spec s now σ)
    (hr : r ∈ (p.finish s nextRun).schedules) :
    (r ∈ σ.schedules ∧ r.scheduleId ≠ s.scheduleId) ∨
      r = settled s now p.mode nextRun s.toSchedule := by
  rw [(hp.finish nextRun).1] at hr
  obtain ⟨r₀, hr₀, rfl⟩ := mem_updateWhere.mp hr
  by_cases hid : r₀.scheduleId = s.scheduleId
  · obtain rfl := eq_of_key_eq under.inv.ids hr₀ (under.rows s List.mem_cons_self) hid
    right
    simp
  · left
    simpa [hid] using hr₀

/-- An advance that follows a message, or a message sent before, is a full floor away. -/
theorem floor_le_next {rest : List DueSchedule} {mode : AdvanceMode} {next t : Instant}
    (under : Underway now (s :: rest) σ) (hnow : 0 ≤ now.ms) (hrec : Recurs s.toSchedule)
    (hwhole : Recurs s.toSchedule → (⌈s.minIntervalMs⌉ : ℚ) ≤ intervalMs s.toSchedule)
    (ht : t.ms ≤ now.ms) (h : s.nextRunAfter now mode = .ok (some next)) :
    (t.ms : ℚ) + s.minIntervalMs ≤ next.ms := by
  have hfloor := (under.inv.accepted _ (under.rows s List.mem_cons_self)).floor
  have hceil : 0 < ⌈s.minIntervalMs⌉ := Int.ceil_pos.mpr (by linarith)
  have hstep : 0 ≤ s.stepMs := le_trans (by linarith) (le_max_left s.minIntervalMs _)
  have hle := le_nextRunAfter hnow hceil hstep hwhole (fun hno => absurd hrec hno) h
  have hmin : s.minIntervalMs ≤ ⌈s.minIntervalMs⌉ := Int.le_ceil _
  have hcast : (now.ms : ℚ) + ⌈s.minIntervalMs⌉ ≤ next.ms := by exact_mod_cast hle
  have hcast' : (t.ms : ℚ) ≤ now.ms := by exact_mod_cast ht
  linarith

/-- One round of a tick. -/
theorem Paced.round {sid : Id} {log : List (Id × Instant)} {rest : List DueSchedule}
    (h : Paced sid log now.ms σ) (under : Underway now (s :: rest) σ) (hnow : 0 ≤ now.ms)
    (hreg : s.scheduleId = sid → (s.slot.ms < yearTenThousand ∨ yearTenThousand ≤ now.ms) ∧
      (Recurs s.toSchedule → (⌈s.minIntervalMs⌉ : ℚ) ≤ intervalMs s.toSchedule)) :
    Paced sid (log ++ roundLog env cfg sendNow now s σ) now.ms
      (tickOne env cfg sendNow now s σ).2 := by
  have hrow := under.rows s List.mem_cons_self
  obtain ⟨hslot, -, hdue⟩ := under.slots s List.mem_cons_self
  rcases tickOne_cases env cfg sendNow now s σ with herr | ⟨p, nextRun, hp, hnext, heq⟩
  · have hlog : roundLog env cfg sendNow now s σ = [] := by
      unfold roundLog
      rw [herr]
      exact if_neg (Nat.lt_irrefl _)
    rw [hlog, herr, List.append_nil]
    exact ⟨h.known, h.past, h.spaced, h.next⟩
  -- Only a fire enqueues, and only a schedule that recurs has a next run after it.
  have hrecurs : ∀ e ∈ roundLog env cfg sendNow now s σ, ∀ next, nextRun = some next →
      Recurs s.toSchedule := by
    intro e he next hsome
    have hfired : p.mode = .fired := by
      by_contra hne
      have hsame : (p.finish s nextRun).broker.messages = σ.broker.messages :=
        (hp.finish nextRun).2.2.trans (hp.messages hne)
      unfold roundLog at he
      rw [heq, hsame, if_neg (Nat.lt_irrefl _)] at he
      cases he
    rw [hsome] at hnext
    rcases nextRunAfter_ok.mp hnext with ⟨-, hno⟩ | ⟨c, k, hc, -, -⟩
    · cases hno
    · rcases candidateMs_eq hc with ⟨hrec, -⟩ | ⟨-, hmode, -⟩
      · exact hrec
      · rw [hfired] at hmode
        cases hmode
  rw [heq]
  refine ⟨?_, ?_, ?_, ?_⟩
  · intro e he
    have hold : ∃ r ∈ σ.schedules, r.scheduleId = e.1 := by
      rcases List.mem_append.mp he with he | he
      · exact h.known e he
      · rw [mem_roundLog he]
        exact ⟨s.toSchedule, hrow, rfl⟩
    obtain ⟨r, hr, hid⟩ := hold
    rw [(hp.finish nextRun).1]
    refine ⟨_, mem_updateWhere.mpr ⟨r, hr, rfl⟩, ?_⟩
    split
    · rw [(settled_terms ..).scheduleId]
      exact hid
    · exact hid
  · intro e he
    rcases List.mem_append.mp he with he | he
    · exact h.past e he
    · rw [mem_roundLog he]
  · intro r hr hid
    rw [List.filter_append, List.map_append, List.pairwise_append]
    rcases mem_finish under hp hr with ⟨hr, hne⟩ | rfl
    · have hempty : (roundLog env cfg sendNow now s σ).filter (fun e => e.1 = sid) = [] := by
        apply List.filter_eq_nil_iff.mpr
        intro e he hmatch
        rw [mem_roundLog he] at hmatch
        exact hne (hid.trans (of_decide_eq_true hmatch).symm)
      rw [hempty]
      exact ⟨h.spaced r hr hid, List.Pairwise.nil, fun _ _ _ hu => absurd hu List.not_mem_nil⟩
    · have hterms := settled_terms s now p.mode nextRun s.toSchedule
      rw [hterms.minIntervalMs]
      rw [hterms.scheduleId] at hid
      refine ⟨h.spaced _ hrow hid, ?_, ?_⟩
      · unfold roundLog
        split_ifs
        · simp [hid]
        · exact List.Pairwise.nil
      · -- The slot lies a floor after the last message, and the tick at or after the slot.
        intro t ht u hu
        obtain ⟨e, he, rfl⟩ := List.mem_map.mp ht
        obtain ⟨e', he', rfl⟩ := List.mem_map.mp hu
        have hnowe := mem_roundLog (List.mem_of_mem_filter he')
        have hmem : (sid, e.2) ∈ log := by
          have hsid : e.1 = sid := of_decide_eq_true (List.mem_filter.mp he).2
          rw [← hsid]
          exact List.mem_of_mem_filter he
        have hle : (s.slot.ms : ℚ) ≤ now.ms := by
          exact_mod_cast Instant.ms_le_of_le hnow (hreg hid).1 hdue
        rw [hnowe]
        exact (h.next _ hrow hid e.2 hmem s.slot hslot).2.trans hle
  · intro r hr hid t ht next hsome
    rcases mem_finish under hp hr with ⟨hr, hne⟩ | rfl
    · rcases List.mem_append.mp ht with ht | ht
      · exact h.next r hr hid t ht next hsome
      · have hsid := congrArg Prod.fst (mem_roundLog ht)
        exact absurd (hid.trans hsid) hne
    · have hterms := settled_terms s now p.mode nextRun s.toSchedule
      rw [recurs_of_sameTerms hterms, hterms.minIntervalMs]
      rw [hterms.scheduleId] at hid
      obtain rfl : nextRun = some next := hsome
      have hpast : Recurs s.toSchedule ∧ t.ms ≤ now.ms := by
        rcases List.mem_append.mp ht with ht | ht
        · exact ⟨(h.next _ hrow hid t ht s.slot hslot).1, h.past _ ht⟩
        · refine ⟨hrecurs _ ht next rfl, ?_⟩
          rw [show t = now from congrArg Prod.snd (mem_roundLog ht)]
      exact ⟨hpast.1, floor_le_next under hnow hpast.1 (hreg hid).2 hpast.2 hnext⟩

/-- All the rounds of a tick. -/
theorem Paced.rounds {sid : Id} {log : List (Id × Instant)} {due : List DueSchedule}
    (h : Paced sid log now.ms σ) (under : Underway now due σ) (hnow : 0 ≤ now.ms)
    (hreg : ∀ s ∈ due, s.scheduleId = sid →
      (s.slot.ms < yearTenThousand ∨ yearTenThousand ≤ now.ms) ∧
        (Recurs s.toSchedule → (⌈s.minIntervalMs⌉ : ℚ) ≤ intervalMs s.toSchedule)) :
    Paced sid (log ++ enqueuedBy env cfg sendNow now due σ) now.ms
      (fireAll env cfg sendNow now due σ).2 := by
  induction due generalizing σ log with
  | nil =>
    rw [enqueuedBy, List.append_nil]
    exact h
  | cons s rest ih =>
    rw [enqueuedBy, ← List.append_assoc]
    apply ih (h.round under hnow (hreg s List.mem_cons_self)) under.tickOne
    intro x hx
    exact hreg x (List.mem_cons_of_mem s hx)

/-- One step of a run, with its record. -/
theorem Paced.step {sid : Id} {p : SchedulerDb × Pace} {e : SchedulerEvent}
    (inv : SchedInv p.1) (h : Paced sid p.2.log p.2.last p.1) (hticking : Ticking p e)
    (hreg : Regular sid p e) :
    Paced sid (recording (schedulerStep env cfg) (pace env cfg) p e).2.2.log
      (recording (schedulerStep env cfg) (pace env cfg) p e).2.2.last
      (recording (schedulerStep env cfg) (pace env cfg) p e).2.1 := by
  obtain ⟨op, mom⟩ := e
  obtain ⟨σ, record⟩ := p
  cases op with
  | tick =>
    unfold recording pace schedulerStep schedulerExec
    simp only [Call.map_snd]
    unfold Regular dueAt at hreg
    cases hclock : toISOString mom.nowMs with
    | error e =>
      rw [tick_snd_of_error hclock]
      exact h
    | ok now =>
      have hms := ms_of_toISOString hclock
      simp only [hclock] at hreg
      have hlast : ((record.last : ℕ) : ℤ) ≤ now.ms := by
        rw [hms]
        exact_mod_cast hticking rfl
      rw [tick_snd hclock]
      simp only [← hms]
      apply (h.later hlast).rounds (underway_selected inv now)
      · rw [hms]
        exact Int.natCast_nonneg _
      · rw [hms]
        exact hreg rfl
  | _ => exact h.edit (schedulerStep_edit env cfg σ _ (by simp))

/-- Over every run in which the ticks come in the order of the clock and the schedule stays
    regular, two messages of a schedule are at least its floor apart. -/
theorem floor_holds {sid : Id} {tr : List (SchedulerEvent × Except Thrown Unit)}
    {p : SchedulerDb × Pace}
    (run : Run (recording (schedulerStep env cfg) (pace env cfg))
      (fun p e => Ticking p e ∧ Regular sid p e) ({ broker := initial env }, {}) tr p)
    {r : Schedule} (hr : r ∈ p.1.schedules) (hid : r.scheduleId = sid) :
    (p.2.times sid).Pairwise fun t u => (t.ms : ℚ) + r.minIntervalMs ≤ u.ms := by
  have hall : SchedInv p.1 ∧ Paced sid p.2.log p.2.last p.1 := by
    apply run.invariant (P := fun p => SchedInv p.1 ∧ Paced sid p.2.log p.2.last p.1)
    · refine ⟨schedInv_initial env, ?_, ?_, ?_, ?_⟩
      · exact fun e he => absurd he List.not_mem_nil
      · exact fun e he => absurd he List.not_mem_nil
      · exact fun r hr => absurd hr List.not_mem_nil
      · exact fun r hr => absurd hr List.not_mem_nil
    · rintro q e ⟨inv, hpaced⟩ ⟨hticking, hregular⟩
      exact ⟨inv.step e, hpaced.step inv hticking hregular⟩
  exact hall.2.spaced r hr hid

/-! The hourly schedule keeps its hour. One whose interval ends after the year 9999 fires at every
tick. -/

/-- The schedule is created, and then there is a tick at each of the times. -/
def tickedAt (created : List SchedulerEvent) (times : List Nat) : List SchedulerEvent :=
  created ++ times.map fun t => (.tick, { nowMs := t })

/-- Where a concrete run ends, with its record. -/
def recordOf (events : List SchedulerEvent) : SchedulerDb × Pace :=
  (runAll (recording (schedulerStep plainEnv {}) (pace plainEnv {}))
    ({ broker := initial plainEnv }, {}) events).2

theorem hourly_paced :
    ((recordOf (tickedAt hourlyCreated [2000, 3000, 3602000])).2.times 14).map (·.ms) =
        [2000, 3602000] ∧
      ((recordOf (tickedAt hourlyCreated [2000, 3000, 3602000])).2.times 14).Pairwise
        fun t u => (t.ms : ℚ) + 60000 ≤ u.ms := by
  have hconcrete : Admitted (recording (schedulerStep plainEnv {}) (pace plainEnv {}))
        (fun p e => Ticking p e ∧ Regular 14 p e) ({ broker := initial plainEnv }, {})
        (tickedAt hourlyCreated [2000, 3000, 3602000]) ∧
      ((recordOf (tickedAt hourlyCreated [2000, 3000, 3602000])).2.times 14).map (·.ms) =
        [2000, 3602000] ∧
      ∃ r ∈ (recordOf (tickedAt hourlyCreated [2000, 3000, 3602000])).1.schedules,
        r.scheduleId = 14 ∧ r.minIntervalMs = 60000 := by
    decide +kernel
  obtain ⟨hadmitted, htimes, r, hr, hid, hmin⟩ := hconcrete
  refine ⟨htimes, ?_⟩
  rw [← hmin]
  exact floor_holds (Run.of_runAll _ hadmitted) hr hid

/-- A schedule whose interval is longer than the years of four digits. -/
def endlessCreated : List SchedulerEvent :=
  requestSent.map (fun e => (.broker e.1, e.2)) ++
    [(.createSchedule { targetAddress := "beta-name", payloadText := "stand-up", kind := .interval
                        scheduleExpr := some 253402300800000
                        nextRunAt := atMs 1000 second_le_maxTime },
      { nowMs := 1000 })]

/-- It fires at every tick: its floor is a minute, and its messages are a second apart. -/
theorem endless_floods :
    Admitted (recording (schedulerStep plainEnv {}) (pace plainEnv {})) Ticking
        ({ broker := initial plainEnv }, {}) (tickedAt endlessCreated [2000, 3000, 4000]) ∧
      ((recordOf (tickedAt endlessCreated [2000, 3000, 4000])).2.times 14).map (·.ms) =
        [2000, 3000, 4000] ∧
      ∃ r ∈ (recordOf (tickedAt endlessCreated [2000, 3000, 4000])).1.schedules,
        r.scheduleId = 14 ∧ r.minIntervalMs = 60000 := by
  decide +kernel

end Proof
end XBus
