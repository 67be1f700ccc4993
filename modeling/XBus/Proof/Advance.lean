import XBus.Proof.Schedules

/-!
# Where a schedule is advanced to

`advance` starts from the next slot of the recurrence, or one step on for a deferred slot that has
none, and then walks out of the quiet hours: at most 96 steps of the schedule's own size. So the
instant it stores is the first point of that walk that is not quiet, or the 97th whatever it is.
-/

set_option autoImplicit false

namespace XBus
namespace Proof

open Lib

variable {env : Env} {cfg : SchedulerConfig} {sendNow : Iso} {now : Instant} {s : DueSchedule}
  {σ σ' : SchedulerDb} {mode : AdvanceMode}

/-! ## Dates -/

theorem toISOString_ok {ms : ℚ} {i : Instant} :
    toISOString ms = .ok i ↔ |ms| ≤ maxTime ∧ i.ms = wholeMs ms := by
  unfold toISOString
  split_ifs with h
  · constructor
    · intro heq
      obtain rfl := Except.ok.inj heq
      exact ⟨h, rfl⟩
    · rintro ⟨-, hms⟩
      exact congrArg Except.ok (Instant.ext_ms hms.symm)
  · constructor
    · intro heq
      cases heq
    · rintro ⟨hle, -⟩
      exact absurd hle h

theorem wholeMs_eq_floor {ms : ℚ} (h : 0 ≤ ms) : wholeMs ms = ⌊ms⌋ := by
  unfold wholeMs
  rw [Rat.floor_def', Int.tdiv_eq_ediv_of_nonneg (Rat.num_nonneg.mpr h)]

theorem le_wholeMs {ms : ℚ} {n : ℤ} (hn : 0 ≤ n) (h : (n : ℚ) ≤ ms) : n ≤ wholeMs ms := by
  rw [wholeMs_eq_floor (le_trans (by exact_mod_cast hn) h)]
  exact Int.le_floor.mpr h

theorem ms_of_toISOString {n : ℕ} {i : Instant} (h : toISOString n = .ok i) : i.ms = n := by
  rw [(toISOString_ok.mp h).2, wholeMs_eq_floor (by positivity)]
  simp

/-! ## The walk -/

/-- The points the push visits. -/
def walkMs (step c : ℚ) : Nat → ℚ
  | 0 => c
  | n + 1 => toDouble (walkMs step c n + step)

theorem walkMs_shift (step c : ℚ) (n : Nat) :
    walkMs step (toDouble (c + step)) n = walkMs step c (n + 1) := by
  induction n with
  | zero => rfl
  | succ n ih =>
    rw [walkMs, ih]
    rfl

/-- `inQuietHours(new Date(ms).toISOString(), …)`. -/
def quietAt (quietHoursJson : Option String) (ms : ℚ) : Except Thrown Bool := do
  inQuietHours (← toISOString ms) quietHoursJson

theorem quietAt_ok {quietHoursJson : Option String} {ms : ℚ} {b : Bool} :
    quietAt quietHoursJson ms = .ok b ↔
      ∃ i, toISOString ms = .ok i ∧ inQuietHours i quietHoursJson = .ok b := by
  unfold quietAt
  cases toISOString ms with
  | error e => simp [bind, Except.bind]
  | ok i => simp [bind, Except.bind]

theorem pushPastQuiet_succ (quietHoursJson : Option String) (step : ℚ) (n : Nat) (c : ℚ) :
    pushPastQuiet quietHoursJson step (n + 1) c =
      match quietAt quietHoursJson c with
      | .error e => .error e
      | .ok true => pushPastQuiet quietHoursJson step n (toDouble (c + step))
      | .ok false => .ok c := by
  rw [pushPastQuiet]
  unfold quietAt
  cases toISOString c with
  | error e => rfl
  | ok i =>
    simp only [bind, Except.bind]
    cases inQuietHours i quietHoursJson with
    | error e => rfl
    | ok b => cases b <;> rfl

/-- The push ends at the first point that is not quiet, or where its steps are used up. -/
structure PushEnd (quietHoursJson : Option String) (step c : ℚ) (n k : Nat) : Prop where
  bound : k ≤ n
  quiet : ∀ i < k, quietAt quietHoursJson (walkMs step c i) = .ok true
  last : k = n ∨ quietAt quietHoursJson (walkMs step c k) = .ok false

theorem pushPastQuiet_ok {quietHoursJson : Option String} {step : ℚ} {n : Nat} {c r : ℚ} :
    pushPastQuiet quietHoursJson step n c = .ok r ↔
      ∃ k, PushEnd quietHoursJson step c n k ∧ r = walkMs step c k := by
  induction n generalizing c with
  | zero =>
    rw [pushPastQuiet]
    constructor
    · intro h
      obtain rfl := Except.ok.inj h
      exact ⟨0, ⟨le_rfl, fun i hi => absurd hi (Nat.not_lt_zero i), .inl rfl⟩, rfl⟩
    · rintro ⟨k, hend, rfl⟩
      rw [Nat.le_zero.mp hend.bound]
      rfl
  | succ n ih =>
    rw [pushPastQuiet_succ]
    cases hq : quietAt quietHoursJson c with
    | error e =>
      constructor
      · intro h
        cases h
      · rintro ⟨k, hend, -⟩
        -- The first point is visited, whatever comes after.
        cases k with
        | zero =>
          rcases hend.last with h | h
          · cases h
          · rw [walkMs, hq] at h
            cases h
        | succ k =>
          have h := hend.quiet 0 (Nat.succ_pos k)
          rw [walkMs, hq] at h
          cases h
    | ok b =>
      cases b with
      | true =>
        simp only
        rw [ih]
        constructor
        · rintro ⟨k, hend, rfl⟩
          refine ⟨k + 1, ⟨Nat.succ_le_succ hend.bound, ?_, ?_⟩, walkMs_shift ..⟩
          · intro i hi
            cases i with
            | zero => exact hq
            | succ i =>
              rw [← walkMs_shift]
              exact hend.quiet i (Nat.lt_of_succ_lt_succ hi)
          · rw [← walkMs_shift]
            exact hend.last.imp_left (congrArg Nat.succ)
        · rintro ⟨k, hend, rfl⟩
          cases k with
          | zero =>
            rcases hend.last with h | h
            · cases h
            · rw [walkMs, hq] at h
              cases h
          | succ k =>
            refine ⟨k, ⟨Nat.le_of_succ_le_succ hend.bound, ?_, ?_⟩, (walkMs_shift ..).symm⟩
            · intro i hi
              rw [walkMs_shift]
              exact hend.quiet (i + 1) (Nat.succ_lt_succ hi)
            · rw [walkMs_shift]
              exact hend.last.imp_left Nat.succ.inj
      | false =>
        constructor
        · intro h
          obtain rfl := Except.ok.inj h
          exact ⟨0, ⟨Nat.zero_le _, fun i hi => absurd hi (Nat.not_lt_zero i), .inr hq⟩, rfl⟩
        · rintro ⟨k, hend, rfl⟩
          cases k with
          | zero => rfl
          | succ k =>
            have h := hend.quiet 0 (Nat.succ_pos k)
            rw [walkMs, hq] at h
            cases h

theorem le_walkMs {step c : ℚ} {n : ℤ} (hn : 0 < n) (hbits : n ≤ 2 ^ 53) (hstep : 0 ≤ step)
    (h : (n : ℚ) ≤ c) (k : Nat) : (n : ℚ) ≤ walkMs step c k := by
  induction k with
  | zero => exact h
  | succ k ih => exact le_toDouble hn hbits (ih.trans (le_add_of_nonneg_right hstep))

/-! ## The next run -/

/-- Where the push of a schedule ends that starts at `c`; one without quiet hours is not pushed. -/
def Alights (s : DueSchedule) (c : ℚ) (k : Nat) : Prop :=
  match s.quietHoursJson.filter (¬ ·.isEmpty) with
  | some _ => PushEnd s.quietHoursJson s.stepMs c 96 k
  | none => k = 0

/-- The push, for a schedule that has quiet hours. -/
def landing (s : DueSchedule) (c : ℚ) : Except Thrown ℚ :=
  match s.quietHoursJson.filter (¬ ·.isEmpty) with
  | some _ => pushPastQuiet s.quietHoursJson s.stepMs 96 c
  | none => .ok c

theorem landing_ok {c r : ℚ} :
    landing s c = .ok r ↔ ∃ k, Alights s c k ∧ r = walkMs s.stepMs c k := by
  unfold landing Alights
  cases s.quietHoursJson.filter (¬ ·.isEmpty) with
  | some text => exact pushPastQuiet_ok
  | none =>
    constructor
    · intro h
      obtain rfl := Except.ok.inj h
      exact ⟨0, rfl, rfl⟩
    · rintro ⟨k, rfl, rfl⟩
      rfl

theorem nextRunMs_eq : s.nextRunMs now mode =
    match s.candidateMs now mode with
    | none => .ok none
    | some c => match landing s c with
      | .error e => .error e
      | .ok r => .ok (some r) := by
  unfold DueSchedule.nextRunMs landing
  cases s.candidateMs now mode with
  | none => rfl
  | some c =>
    cases s.quietHoursJson.filter (¬ ·.isEmpty) with
    | none => rfl
    | some text =>
      simp only
      cases pushPastQuiet s.quietHoursJson s.stepMs 96 c with
      | error e => rfl
      | ok r => rfl

theorem nextRunMs_ok {r : Option ℚ} : s.nextRunMs now mode = .ok r ↔
    (s.candidateMs now mode = none ∧ r = none) ∨
      ∃ c k, s.candidateMs now mode = some c ∧ Alights s c k ∧ r = some (walkMs s.stepMs c k) := by
  rw [nextRunMs_eq]
  cases s.candidateMs now mode with
  | none => simp [eq_comm]
  | some c =>
    have hland (x : ℚ) := landing_ok (s := s) (c := c) (r := x)
    cases hc : landing s c with
    | error e =>
      have hnone : ∀ k, ¬ Alights s c k := by
        intro k hk
        have h := (hland _).mpr ⟨k, hk, rfl⟩
        rw [hc] at h
        cases h
      simp [hc, hnone]
    | ok x =>
      simp only [hc]
      constructor
      · intro h
        obtain rfl := Except.ok.inj h
        obtain ⟨k, hk, rfl⟩ := (hland x).mp hc
        exact .inr ⟨c, k, rfl, hk, rfl⟩
      · rintro (⟨h, -⟩ | ⟨c', k, hc', hk, rfl⟩)
        · cases h
        · obtain rfl := Option.some.inj hc'
          have heq := hc.symm.trans ((hland _).mpr ⟨k, hk, rfl⟩)
          exact congrArg (fun x => Except.ok (some x)) (Except.ok.inj heq)

/-- The instant a schedule is advanced to. -/
theorem nextRunAfter_ok {nextRun : Option Instant} : s.nextRunAfter now mode = .ok nextRun ↔
    (s.candidateMs now mode = none ∧ nextRun = none) ∨
      ∃ c k, s.candidateMs now mode = some c ∧ Alights s c k ∧
        if s.exhausted mode then nextRun = none
        else ∃ i, toISOString (walkMs s.stepMs c k) = .ok i ∧ nextRun = some i := by
  have hbind : s.nextRunAfter now mode = .ok nextRun ↔ ∃ r, s.nextRunMs now mode = .ok r ∧
      match r with
      | none => nextRun = none
      | some ms => if s.exhausted mode then nextRun = none
        else ∃ i, toISOString ms = .ok i ∧ nextRun = some i := by
    unfold DueSchedule.nextRunAfter
    cases s.nextRunMs now mode with
    | error e => simp [bind, Except.bind]
    | ok r =>
      simp only [bind, Except.bind, pure, Except.pure, Except.ok.injEq, exists_eq_left']
      cases r with
      | none => exact ⟨fun h => (Except.ok.inj h).symm, fun h => congrArg Except.ok h.symm⟩
      | some ms =>
        simp only
        split
        · exact ⟨fun h => (Except.ok.inj h).symm, fun h => congrArg Except.ok h.symm⟩
        · cases hms : toISOString ms with
          | error e => simp
          | ok i => simp [eq_comm]
  rw [hbind]
  constructor
  · rintro ⟨r, hr, hrest⟩
    rcases nextRunMs_ok.mp hr with ⟨hnone, rfl⟩ | ⟨c, k, hc, hk, rfl⟩
    · exact .inl ⟨hnone, hrest⟩
    · exact .inr ⟨c, k, hc, hk, hrest⟩
  · rintro (⟨hnone, hrest⟩ | ⟨c, k, hc, hk, hrest⟩)
    · exact ⟨none, nextRunMs_ok.mpr (.inl ⟨hnone, rfl⟩), hrest⟩
    · exact ⟨_, nextRunMs_ok.mpr (.inr ⟨c, k, hc, hk, rfl⟩), hrest⟩

/-! ## How far on -/

/-- The interval of a recurring schedule. -/
def intervalMs (s : Schedule) : ℚ :=
  match s.scheduleExpr.filter (0 < ·) with
  | some raw => max raw s.minIntervalMs
  | none => s.minIntervalMs

theorem minIntervalMs_le_intervalMs (r : Schedule) : r.minIntervalMs ≤ intervalMs r := by
  unfold intervalMs
  split
  · exact le_max_right ..
  · exact le_rfl

/-- A schedule whose handled slots are followed by another one. -/
def Recurs (r : Schedule) : Prop :=
  r.kind = .interval ∨ r.kind = .cron ∧ (r.scheduleExpr.filter (0 < ·)).isSome

/-- One interval on; or one step, where what is deferred does not recur. -/
theorem candidateMs_eq {c : ℚ} (h : s.candidateMs now mode = some c) :
    (Recurs s.toSchedule ∧ c = toDouble (now.ms + intervalMs s.toSchedule)) ∨
      (¬ Recurs s.toSchedule ∧ mode = .deferred ∧ c = toDouble (now.ms + s.stepMs)) := by
  unfold DueSchedule.candidateMs computeNextRun at h
  unfold Recurs intervalMs
  cases hkind : s.kind with
  | once =>
    simp only [hkind] at h
    split_ifs at h with hmode
    exact .inr ⟨by simp, hmode, (Option.some.inj h).symm⟩
  | interval =>
    simp only [hkind, Option.some.injEq] at h
    exact .inl ⟨.inl rfl, h.symm⟩
  | cron =>
    cases hexpr : s.scheduleExpr.filter (0 < ·) with
    | some raw =>
      simp only [hkind, hexpr, Option.map_some, Option.some.injEq] at h
      exact .inl ⟨.inr ⟨rfl, by simp⟩, h.symm⟩
    | none =>
      simp only [hkind, hexpr, Option.map_none] at h
      split_ifs at h with hmode
      exact .inr ⟨by simp, hmode, (Option.some.inj h).symm⟩

/-- Neither the rounding nor the push brings the next run closer than a whole number of
    milliseconds that the interval, or the step, is at least. -/
theorem le_nextRunAfter {next : Instant} {n : ℤ} (hnow : 0 ≤ now.ms) (hn : 0 < n)
    (hstep : 0 ≤ s.stepMs) (hinterval : Recurs s.toSchedule → (n : ℚ) ≤ intervalMs s.toSchedule)
    (honce : ¬ Recurs s.toSchedule → (n : ℚ) ≤ s.stepMs)
    (h : s.nextRunAfter now mode = .ok (some next)) : now.ms + n ≤ next.ms := by
  rcases nextRunAfter_ok.mp h with ⟨-, h⟩ | ⟨c, k, hc, -, hlast⟩
  · cases h
  split_ifs at hlast
  obtain ⟨i, hi, hnext⟩ := hlast
  obtain rfl := Option.some.inj hnext
  obtain ⟨hrange, hms⟩ := toISOString_ok.mp hi
  -- A sum beyond 53 bits is beyond any date.
  have hsum : ((min (now.ms + n) (2 ^ 53) : ℤ) : ℚ) ≤ walkMs s.stepMs c k := by
    have hpos : 0 < min (now.ms + n) (2 ^ 53) := lt_min (by omega) (by norm_num)
    have hadd (x : ℚ) (hx : (n : ℚ) ≤ x) :
        ((min (now.ms + n) (2 ^ 53) : ℤ) : ℚ) ≤ now.ms + x := by
      have hle : ((min (now.ms + n) (2 ^ 53) : ℤ) : ℚ) ≤ ((now.ms + n : ℤ) : ℚ) :=
        Int.cast_le.mpr (min_le_left ..)
      push_cast at hle ⊢
      linarith
    apply le_walkMs hpos (min_le_right ..) hstep
    rcases candidateMs_eq hc with ⟨hrec, rfl⟩ | ⟨hrec, -, rfl⟩
    · exact le_toDouble hpos (min_le_right ..) (hadd _ (hinterval hrec))
    · exact le_toDouble hpos (min_le_right ..) (hadd _ (honce hrec))
  have hle := le_trans hsum (le_trans (le_abs_self _) hrange)
  have hbits : min (now.ms + n) (2 ^ 53) ≤ (maxTime : ℤ) := by exact_mod_cast hle
  have hmin : min (now.ms + n) (2 ^ 53) = now.ms + n := by
    unfold maxTime at hbits
    omega
  rw [hmin] at hsum
  rw [hms]
  exact le_wholeMs (by omega) hsum

/-! ## The gates -/

/-- The quiet hours are the first gate, and the only one that can throw. -/
theorem blockedBy_quiet (cfg : SchedulerConfig) (s : DueSchedule) (now : Instant)
    (σ : SchedulerDb) :
    match inQuietHours now s.quietHoursJson with
    | .error e => σ.blockedBy cfg s now = .error e
    | .ok true => σ.blockedBy cfg s now = .ok (some .quietHours)
    | .ok false => ∃ gate, σ.blockedBy cfg s now = .ok gate ∧ gate ≠ some .quietHours := by
  unfold SchedulerDb.blockedBy
  cases inQuietHours now s.quietHoursJson with
  | error e => rfl
  | ok b =>
    cases b with
    | true => rfl
    | false =>
      simp only [bind, Except.bind, pure, Except.pure, Bool.false_eq_true, if_false]
      split_ifs
      all_goals exact ⟨_, rfl, by simp⟩

/-! ## Out of the quiet hours -/

/-- One of the 97 instants that the push can end at is outside of the quiet hours. -/
def Escapes (s : DueSchedule) (now : Instant) (mode : AdvanceMode) : Prop :=
  ∃ c, s.candidateMs now mode = some c ∧
    ∃ n ≤ 96, quietAt s.quietHoursJson (walkMs s.stepMs c n) = .ok false

/-- A tick at this instant sends what a `once` schedule with these quiet hours has to send, unless
    another gate is closed or the send is refused. -/
def Sends (quietHoursJson : Option String) (now : Instant) : Prop :=
  ∀ (env : Env) (cfg : SchedulerConfig) (sendNow : Iso) (s : DueSchedule) (σ : SchedulerDb)
    (result : SendResult), s.kind = .once → s.quietHoursJson = quietHoursJson →
    σ.isClaimed s.scheduleId s.slot = false →
    (∀ gate, (claimed σ s).blockedBy cfg s now = .ok (some gate) → gate = .quietHours) →
    (operatorSend env sendNow s.message (claimed σ s).broker).1 = .ok result →
    (fireOne env cfg sendNow now s σ).1 = .ok .fired

theorem sends_of_not_quiet {quietHoursJson : Option String}
    (h : inQuietHours now quietHoursJson = .ok false) : Sends quietHoursJson now := by
  intro env cfg sendNow s σ result honce hquiet hfree hgates hsend
  have hgate : (claimed σ s).blockedBy cfg s now = .ok none := by
    have hcases := blockedBy_quiet cfg s now (claimed σ s)
    rw [hquiet, h] at hcases
    obtain ⟨gate, hgate, hne⟩ := hcases
    cases gate with
    | none => exact hgate
    | some gate => exact absurd (congrArg some (hgates gate hgate)) hne
  have hnext : s.nextRunAfter now .fired = .ok none := by
    apply nextRunAfter_ok.mpr
    left
    simp [DueSchedule.candidateMs, computeNextRun, honce]
  rw [fireOne_eq]
  unfold planned
  rw [if_neg (by simp [hfree]), hgate]
  cases hsent : operatorSend env sendNow s.message (claimed σ s).broker with
  | mk answer b =>
    rw [hsent] at hsend
    obtain rfl : answer = .ok result := hsend
    simp only [Plan.commit, hnext]

/-- What `advance` stores is outside of the quiet hours, and a tick there sends what was deferred,
    just when the walk gets out within its 96 steps. -/
theorem advance_leaves_quiet_hours {r : Schedule} {next : Instant}
    (hadvance : advance s now mode σ = (.ok (), σ')) (hrow : r ∈ σ'.schedules)
    (hid : r.scheduleId = s.scheduleId) (hnext : r.nextRun = some next) :
    (inQuietHours next s.quietHoursJson = .ok false ∧
      (s.kind = .once → Sends s.quietHoursJson next)) ↔ Escapes s now mode := by
  -- What is stored is a point of the walk.
  have hstored : s.nextRunAfter now mode = .ok (some next) := by
    rw [advance_eq] at hadvance
    cases hafter : s.nextRunAfter now mode with
    | error e =>
      rw [hafter] at hadvance
      cases hadvance
    | ok nextRun =>
      rw [hafter] at hadvance
      obtain rfl := (Prod.mk.inj hadvance).2
      obtain ⟨r₀, -, rfl⟩ := mem_updateWhere.mp hrow
      by_cases hmatch : r₀.scheduleId = s.scheduleId
      · simp only [hmatch, decide_true, if_true] at hnext
        exact congrArg Except.ok hnext
      · simp [hmatch] at hid
  rcases nextRunAfter_ok.mp hstored with ⟨-, h⟩ | ⟨c, k, hc, hk, hlast⟩
  · cases h
  split_ifs at hlast
  obtain ⟨i, hi, hnexti⟩ := hlast
  obtain rfl := Option.some.inj hnexti
  constructor
  · rintro ⟨hfree, -⟩
    refine ⟨c, hc, k, ?_, quietAt_ok.mpr ⟨next, hi, hfree⟩⟩
    unfold Alights at hk
    split at hk
    · exact hk.bound
    · rw [hk]
      exact Nat.zero_le _
  · rintro ⟨c', hc', n, hn, hfree⟩
    obtain rfl := Option.some.inj (hc.symm.trans hc')
    have hout : inQuietHours next s.quietHoursJson = .ok false := by
      unfold Alights at hk
      split at hk
      · -- The walk does not stop before a quiet point, so not before `n`.
        have hat : quietAt s.quietHoursJson (walkMs s.stepMs c k) = .ok false := by
          rcases hk.last with rfl | h
          · rcases Nat.lt_or_eq_of_le hn with hlt | rfl
            · rw [hk.quiet n hlt] at hfree
              cases hfree
            · exact hfree
          · exact h
        obtain ⟨j, hj, hq⟩ := quietAt_ok.mp hat
        obtain rfl := Except.ok.inj (hi.symm.trans hj)
        exact hq
      · rename_i hnone
        unfold inQuietHours
        rw [hnone]
    exact ⟨hout, fun _ => sends_of_not_quiet hout⟩

/-! A reminder, and an office that is quiet until noon. -/

/-- An instant of a concrete run. -/
def atMs (ms : ℕ) (h : ms ≤ maxTime := by decide) : Instant := ⟨ms, h⟩

theorem second_le_maxTime : 1000 ≤ maxTime := by decide

/-- A reminder that was due at midnight. -/
def reminder (minIntervalMs : ℚ) : DueSchedule :=
  { scheduleId := 7, targetAddress := "beta-name", payloadKind := "request"
    payloadText := "stand-up", requiresAck := false, requiresReply := false, kind := .once
    scheduleExpr := none
    quietHoursJson := some "\x7b\"windows\":[\x7b\"start\":\"00:00\",\"end\":\"12:00\"\x7d]\x7d"
    concurrencyKey := none, minIntervalMs, wakeLimitPerDay := none, maxFires := none
    nextRun := some (atMs 0), slot := atMs 0 }

/-- Deferred at midnight by quarters of an hour, the reminder is due at noon. -/
theorem deferred_until_noon :
    inQuietHours (atMs 43200000) (reminder 60000).quietHoursJson = .ok false ∧
      ((reminder 60000).kind = .once →
        Sends (reminder 60000).quietHoursJson (atMs 43200000)) := by
  have hadvance : advance (reminder 60000) (atMs 0) .deferred
      { schedules := [(reminder 60000).toSchedule] } = (.ok (), { schedules :=
        [{ (reminder 60000).toSchedule with nextRun := some (atMs 43200000) }] }) := by
    decide +kernel
  refine (advance_leaves_quiet_hours hadvance List.mem_cons_self rfl rfl).mpr ?_
  exact ⟨900000, by decide +kernel, 47, by decide, by decide +kernel⟩

/-- With a floor of one day the push walks from midnight to midnight: noon is not quiet, and the
    reminder is due at a midnight 97 days on. -/
theorem deferred_into_quiet_hours :
    inQuietHours (atMs 43200000) (reminder 86400000).quietHoursJson = .ok false ∧
      advance (reminder 86400000) (atMs 0) .deferred
        { schedules := [(reminder 86400000).toSchedule] } = (.ok (), { schedules :=
          [{ (reminder 86400000).toSchedule with nextRun := some (atMs (97 * 86400000)) }] }) ∧
      inQuietHours (atMs (97 * 86400000)) (reminder 86400000).quietHoursJson = .ok true := by
  decide +kernel

end Proof
end XBus
