import Mathlib.Algebra.GroupWithZero.Nat
import Mathlib.Data.Char
import Mathlib.Data.List.Lex
import Mathlib.Tactic.Common

/-!
# Instants as ISO texts

`Date.prototype.toISOString` of the host language, over the calendar arithmetic of its
specification: days since the epoch, the year a day is in, the month and the day of the month.
A program that stores instants as these texts and compares the texts relies on their order. The
results of this file say how far it may: texts of one shape sort as their instants do
(`isoText_lt`), and for instants from 1970 on the order is known exactly (`isoText_lt_iff`).

There are three shapes. The years 0 to 9999 have four digits. All others have six and a sign, and
both signs sort before every digit: the text of a later instant can be the smaller one.

The proofs go through the fields. A text is a template filled with numbers of fixed width, so
texts of one template sort as their fields do (`stamp_lt`); and the fields, from the year down to
the millisecond, sort as the instants do (`fields_lt`).
-/

set_option autoImplicit false

namespace XBus
namespace Lib

/-! ## Numbers of fixed width -/

/-- The last `width` decimal digits of a number. -/
def pad : Nat → Nat → List Char
  | 0, _ => []
  | w + 1, n => pad w (n / 10) ++ [Nat.digitChar (n % 10)]

@[simp] theorem pad_length (w n : Nat) : (pad w n).length = w := by
  induction w generalizing n with
  | zero => rfl
  | succ w ih => simp [pad, ih]

/-- Where texts of one length differ decides, whatever follows. -/
theorem append_lt_append {as bs cs ds : List Char} (hlen : as.length = bs.length) (h : as < bs) :
    as ++ cs < bs ++ ds := by
  induction as generalizing bs with
  | nil =>
    cases bs with
    | nil => exact absurd h (List.lt_irrefl _)
    | cons => cases hlen
  | cons a as ih =>
    cases bs with
    | nil => cases hlen
    | cons b bs =>
      rw [List.cons_append, List.cons_append, List.cons_lt_cons_iff]
      rcases List.cons_lt_cons_iff.mp h with hhead | ⟨rfl, htail⟩
      · exact .inl hhead
      · exact .inr ⟨rfl, ih (Nat.succ.inj hlen) htail⟩

theorem digitChar_lt {d e : Nat} (h : d < e) (he : e < 10) :
    Nat.digitChar d < Nat.digitChar e := by
  have hall : ∀ e < 10, ∀ d < e, Nat.digitChar d < Nat.digitChar e := by decide
  exact hall e he d h

theorem pad_lt {w n m : Nat} (h : n < m) (hm : m < 10 ^ w) : pad w n < pad w m := by
  induction w generalizing n m with
  | zero =>
    rw [Nat.pow_zero] at hm
    omega
  | succ w ih =>
    rw [pad, pad]
    by_cases hq : n / 10 < m / 10
    · have hbound : m / 10 < 10 ^ w := by
        rw [Nat.pow_succ] at hm
        omega
      exact append_lt_append (by simp) (ih hq hbound)
    · -- The leading digits agree, and the last one decides.
      have heq : n / 10 = m / 10 := by omega
      rw [heq]
      apply List.append_left_lt
      rw [List.cons_lt_cons_iff]
      exact .inl (digitChar_lt (by omega) (Nat.mod_lt _ (by decide)))

/-! ## Templates -/

/-- A template, of widths and the characters between, filled with numbers. -/
def stamp : List (Nat × Char) → List Nat → List Char
  | (w, c) :: ts, n :: ns => pad w n ++ c :: stamp ts ns
  | _, _ => []

/-- Each number has its width. -/
def Fits : List (Nat × Char) → List Nat → Prop
  | [], [] => True
  | (w, _) :: ts, n :: ns => n < 10 ^ w ∧ Fits ts ns
  | _, _ => False

theorem stamp_lt {ts : List (Nat × Char)} {ns ms : List Nat} (hn : Fits ts ns) (hm : Fits ts ms)
    (h : ns < ms) : stamp ts ns < stamp ts ms := by
  induction ts generalizing ns ms with
  | nil =>
    match ns, ms, hn, hm with
    | [], [], _, _ => exact absurd h (List.lt_irrefl _)
  | cons t ts ih =>
    match ns, ms, hn, hm with
    | n :: ns, m :: ms, ⟨_, hns⟩, ⟨hm, hms⟩ =>
      rw [stamp, stamp]
      rcases List.cons_lt_cons_iff.mp h with hhead | ⟨rfl, htail⟩
      · exact append_lt_append (by simp) (pad_lt hhead hm)
      · apply List.append_left_lt
        exact List.cons_lt_cons_iff.mpr (.inr ⟨rfl, ih hns hms htail⟩)

/-! ## Days -/

/-- `DayFromYear`: the number of the first day of a year, counted from the first of 1970. -/
def dayFromYear (y : Int) : Int :=
  365 * (y - 1970) + (y - 1969) / 4 - (y - 1901) / 100 + (y - 1601) / 400

/-- The year a day is in: the estimate by the mean length of a year is off by one at most. -/
def yearFromDay (d : Int) : Int :=
  let y := 1970 + d * 400 / 146097
  if d < dayFromYear y then y - 1 else if dayFromYear (y + 1) ≤ d then y + 1 else y

theorem dayFromYear_lt {y z : Int} (h : y < z) : dayFromYear y + 365 ≤ dayFromYear z := by
  unfold dayFromYear
  omega

theorem yearFromDay_spec (d : Int) :
    dayFromYear (yearFromDay d) ≤ d ∧ d < dayFromYear (yearFromDay d + 1) := by
  unfold yearFromDay
  extract_lets y
  have hlow : dayFromYear (y - 1) ≤ d := by
    unfold dayFromYear
    omega
  have hhigh : d < dayFromYear (y + 1 + 1) := by
    unfold dayFromYear
    omega
  split_ifs with hbefore hafter
  · rw [Int.sub_add_cancel]
    exact ⟨hlow, hbefore⟩
  · exact ⟨hafter, hhigh⟩
  · exact ⟨Int.not_lt.mp hbefore, Int.not_le.mp hafter⟩

theorem yearFromDay_le {d e : Int} (h : d ≤ e) : yearFromDay d ≤ yearFromDay e := by
  by_contra hlt
  have hd := (yearFromDay_spec d).1
  have he := (yearFromDay_spec e).2
  rcases Int.lt_or_eq_of_le (Int.add_one_le_of_lt (Int.not_le.mp hlt)) with h' | h'
  · have := dayFromYear_lt h'
    omega
  · rw [h'] at he
    omega

/-- `DaysInYear` is 366. -/
def isLeap (y : Int) : Bool := dayFromYear (y + 1) - dayFromYear y = 366

def monthLengths (leap : Bool) : List Nat :=
  [31, if leap then 29 else 28, 31, 30, 31, 30, 31, 31, 30, 31, 30, 31]

/-- The whole months before a day of the year, and the days of its month before it. -/
def monthDay : List Nat → Nat → Nat × Nat
  | [], n => (0, n)
  | l :: ls, n => if n < l then (0, n) else ((monthDay ls (n - l)).1 + 1, (monthDay ls (n - l)).2)

theorem monthDay_lt (ls : List Nat) {n m : Nat} (h : n < m) :
    (monthDay ls n).1 < (monthDay ls m).1 ∨
      (monthDay ls n).1 = (monthDay ls m).1 ∧ (monthDay ls n).2 < (monthDay ls m).2 := by
  induction ls generalizing n m with
  | nil => exact .inr ⟨rfl, h⟩
  | cons l ls ih =>
    unfold monthDay
    by_cases hm : m < l
    · rw [if_pos hm, if_pos (Nat.lt_trans h hm)]
      exact .inr ⟨rfl, h⟩
    · rw [if_neg hm]
      split_ifs with hn
      · exact .inl (Nat.succ_pos _)
      · exact (ih (show n - l < m - l by omega)).imp Nat.succ_lt_succ
          (And.imp_left (congrArg Nat.succ))

theorem monthDay_bounds {bound : Nat} (ls : List Nat) (hls : ∀ l ∈ ls, l ≤ bound) {n : Nat}
    (hn : n < ls.sum) : (monthDay ls n).1 < ls.length ∧ (monthDay ls n).2 < bound := by
  induction ls generalizing n with
  | nil => cases hn
  | cons l ls ih =>
    unfold monthDay
    have hl := hls l List.mem_cons_self
    split_ifs with h
    · exact ⟨Nat.succ_pos _, Nat.lt_of_lt_of_le h hl⟩
    · rw [List.sum_cons] at hn
      obtain ⟨hmonth, hday⟩ := ih (fun x hx => hls x (List.mem_cons_of_mem l hx))
        (show n - l < ls.sum by omega)
      exact ⟨Nat.succ_lt_succ hmonth, hday⟩

/-! ## Fields -/

/-- Milliseconds of a day. -/
def msPerDay : Nat := 86400000

/-- Day of the year, from 0. -/
def dayInYear (d : Int) : Nat := (d - dayFromYear (yearFromDay d)).toNat

/-- `YearFromTime`. -/
def yearOf (t : Int) : Int := yearFromDay (t / msPerDay)

/-- The fields of a day after its year: month and day, counted from 1. -/
def dateFields (d : Int) : List Nat :=
  let md := monthDay (monthLengths (isLeap (yearFromDay d))) (dayInYear d)
  [md.1 + 1, md.2 + 1]

/-- Hour, minute, second and millisecond. -/
def timeFields (n : Nat) : List Nat := [n / 3600000, n / 60000 % 60, n / 1000 % 60, n % 1000]

/-- Every field of an instant after its year. -/
def fieldsOf (t : Int) : List Nat :=
  dateFields (t / msPerDay) ++ timeFields (t % msPerDay).toNat

theorem dateFields_lt {d e : Int} (h : d < e) (hy : yearFromDay d = yearFromDay e)
    {ns ms : List Nat} : dateFields d ++ ns < dateFields e ++ ms := by
  have hn : dayInYear d < dayInYear e := by
    have hd := (yearFromDay_spec d).1
    unfold dayInYear
    rw [← hy]
    omega
  unfold dateFields
  rw [hy]
  simp only [List.cons_append, List.nil_append, List.cons_lt_cons_iff]
  rcases monthDay_lt (monthLengths (isLeap (yearFromDay e))) hn with h | ⟨hm, h⟩
  · exact .inl (Nat.succ_lt_succ h)
  · exact .inr ⟨congrArg Nat.succ hm, .inl (Nat.succ_lt_succ h)⟩

theorem timeFields_lt {n m : Nat} (h : n < m) : timeFields n < timeFields m := by
  simp only [timeFields, List.cons_lt_cons_iff]
  omega

/-- The fields, from the year down, sort as the instants do. -/
theorem fields_lt {t u : Int} (h : t < u) :
    yearOf t < yearOf u ∨ yearOf t = yearOf u ∧ fieldsOf t < fieldsOf u := by
  have hday : t / msPerDay ≤ u / msPerDay := Int.ediv_le_ediv (by decide) (Int.le_of_lt h)
  rcases Int.lt_or_eq_of_le (yearFromDay_le hday) with hyear | hyear
  · exact .inl hyear
  refine .inr ⟨hyear, ?_⟩
  unfold fieldsOf
  rcases Int.lt_or_eq_of_le hday with hday | hday
  · exact dateFields_lt hday hyear
  · rw [hday]
    apply List.append_left_lt
    refine timeFields_lt ?_
    unfold msPerDay at hday ⊢
    omega

/-! ## The text -/

/-- Month to millisecond: `-MM-DDTHH:mm:ss.sssZ` without its first character. -/
def fieldsTemplate : List (Nat × Char) :=
  [(2, '-'), (2, 'T'), (2, ':'), (2, ':'), (2, '.'), (3, 'Z')]

theorem fits_fieldsOf (t : Int) : Fits fieldsTemplate (fieldsOf t) := by
  set d := t / (msPerDay : Int) with hd
  have hspec := yearFromDay_spec d
  have hlen : dayInYear d < (monthLengths (isLeap (yearFromDay d))).sum := by
    have hyear : dayFromYear (yearFromDay d + 1) - dayFromYear (yearFromDay d) = 365 ∨
        dayFromYear (yearFromDay d + 1) - dayFromYear (yearFromDay d) = 366 := by
      unfold dayFromYear
      omega
    unfold dayInYear
    rcases hyear with h | h
    · have hleap : isLeap (yearFromDay d) = false := by simp [isLeap, h]
      rw [hleap, show (monthLengths false).sum = 365 from rfl]
      omega
    · have hleap : isLeap (yearFromDay d) = true := by simp [isLeap, h]
      rw [hleap, show (monthLengths true).sum = 366 from rfl]
      omega
  have hbound : ∀ l ∈ monthLengths (isLeap (yearFromDay d)), l ≤ 31 := by
    cases isLeap (yearFromDay d) <;> decide
  obtain ⟨hmonth, hday⟩ := monthDay_bounds _ hbound hlen
  have hmonths : (monthLengths (isLeap (yearFromDay d))).length = 12 := rfl
  have htime : (t % (msPerDay : Int)).toNat < 86400000 := by
    unfold msPerDay
    omega
  simp only [Fits, fieldsTemplate, fieldsOf, dateFields, timeFields, ← hd, List.cons_append,
    List.nil_append]
  refine ⟨?_, ?_, ?_, ?_, ?_, ?_, trivial⟩ <;> omega

/-- `new Date(t).toISOString()`. -/
def isoText (t : Int) : List Char :=
  if 0 ≤ yearOf t ∧ yearOf t ≤ 9999 then
    stamp ((4, '-') :: fieldsTemplate) ((yearOf t).toNat :: fieldsOf t)
  else if yearOf t < 0 then
    '-' :: stamp ((6, '-') :: fieldsTemplate) ((yearOf t).natAbs :: fieldsOf t)
  else '+' :: stamp ((6, '-') :: fieldsTemplate) ((yearOf t).toNat :: fieldsOf t)

/-- The largest time value of a `Date`, in either direction. -/
def maxTime : Nat := 8640000000000000

theorem yearOf_bounds {t : Int} (h : t.natAbs ≤ maxTime) : (yearOf t).natAbs < 1000000 := by
  have hspec := yearFromDay_spec (t / msPerDay)
  unfold yearOf
  generalize yearFromDay (t / msPerDay) = y at hspec
  unfold maxTime at h
  unfold msPerDay dayFromYear at hspec
  omega

theorem fits_year {t : Int} {w n : Nat} (h : n < 10 ^ w) :
    Fits ((w, '-') :: fieldsTemplate) (n :: fieldsOf t) := ⟨h, fits_fieldsOf t⟩

section Text

variable {t u : Int}

theorem isoText_four (h₀ : 0 ≤ yearOf t) (h : yearOf t ≤ 9999) :
    isoText t = stamp ((4, '-') :: fieldsTemplate) ((yearOf t).toNat :: fieldsOf t) :=
  if_pos ⟨h₀, h⟩

theorem isoText_plus (h : 9999 < yearOf t) :
    isoText t = '+' :: stamp ((6, '-') :: fieldsTemplate) ((yearOf t).toNat :: fieldsOf t) := by
  unfold isoText
  rw [if_neg (by omega), if_neg (by omega)]

theorem fits_four (h₀ : 0 ≤ yearOf t) (h : yearOf t ≤ 9999) :
    Fits ((4, '-') :: fieldsTemplate) ((yearOf t).toNat :: fieldsOf t) :=
  fits_year (by omega)

/-- Texts of one shape sort as their instants do. -/
theorem isoText_lt (hu : u.natAbs ≤ maxTime) (h : t < u) (h₀ : 0 ≤ yearOf t)
    (hshape : yearOf t ≤ 9999 → yearOf u ≤ 9999) : isoText t < isoText u := by
  have hfields : ((yearOf t).toNat :: fieldsOf t) < ((yearOf u).toNat :: fieldsOf u) := by
    rw [List.cons_lt_cons_iff]
    rcases fields_lt h with hyear | ⟨hyear, hrest⟩
    · exact .inl (by omega)
    · exact .inr ⟨congrArg Int.toNat hyear, hrest⟩
  have hle : yearOf t ≤ yearOf u := (fields_lt h).elim Int.le_of_lt fun h => Int.le_of_eq h.1
  have hbound := yearOf_bounds hu
  by_cases hfour : yearOf t ≤ 9999
  · have hfour' := hshape hfour
    rw [isoText_four h₀ hfour, isoText_four (by omega) hfour']
    exact stamp_lt (fits_four h₀ hfour) (fits_four (by omega) hfour') hfields
  · rw [isoText_plus (by omega), isoText_plus (by omega), List.cons_lt_cons_iff]
    exact .inr ⟨rfl, stamp_lt (fits_year (by omega)) (fits_year (by omega)) hfields⟩

/-- First millisecond of the year 10000. -/
def yearTenThousand : Int := 253402300800000

theorem yearOf_le_of_le (h : t ≤ u) : yearOf t ≤ yearOf u :=
  yearFromDay_le (Int.ediv_le_ediv (by decide) h)

theorem yearOf_le_iff : yearOf t ≤ 9999 ↔ t < yearTenThousand := by
  constructor
  · intro h
    by_contra hle
    have hyear : yearOf yearTenThousand = 10000 := by decide
    have := yearOf_le_of_le (Int.not_lt.mp hle)
    omega
  · intro h
    have hyear : yearOf (yearTenThousand - 1) = 9999 := by decide
    have := yearOf_le_of_le (Int.le_sub_one_of_lt h)
    omega

/-- What sorts at or before the text of an instant from 1970 on is not later, unless it is of the
    year 10000 or later and the instant is not. -/
theorem le_of_not_isoText_lt (ht : t.natAbs ≤ maxTime) (hu : 0 ≤ u)
    (hshape : t < yearTenThousand ∨ yearTenThousand ≤ u) (h : ¬ isoText u < isoText t) : t ≤ u := by
  by_contra hlt
  have h₀ : 0 ≤ yearOf u := by
    have hepoch : yearOf 0 = 1970 := by decide
    have := yearOf_le_of_le hu
    omega
  refine h (isoText_lt ht (Int.not_le.mp hlt) h₀ fun hyear => ?_)
  rw [yearOf_le_iff] at hyear ⊢
  omega

/-- A number of some width starts with a digit. -/
theorem pad_head (w n : Nat) : ∃ d < 10, ∃ cs, pad (w + 1) n = Nat.digitChar d :: cs := by
  induction w generalizing n with
  | zero => exact ⟨n % 10, Nat.mod_lt _ (by decide), [], rfl⟩
  | succ w ih =>
    obtain ⟨d, hd, cs, h⟩ := ih (n / 10)
    exact ⟨d, hd, cs ++ [Nat.digitChar (n % 10)], by rw [pad, h, List.cons_append]⟩

/-- The text of a year with a sign sorts before one of four digits. -/
theorem isoText_signed_lt (ht : yearTenThousand ≤ t) (hu₀ : 0 ≤ u) (hu : u < yearTenThousand) :
    isoText t < isoText u := by
  have hyear : 9999 < yearOf t := by
    have := yearOf_le_iff (t := t)
    omega
  have hyear₀ : 0 ≤ yearOf u := by
    have hepoch : yearOf 0 = 1970 := by decide
    have := yearOf_le_of_le hu₀
    omega
  obtain ⟨d, hd, cs, hpad⟩ := pad_head 3 (yearOf u).toNat
  have hfour : isoText u = Nat.digitChar d :: (cs ++ '-' :: stamp fieldsTemplate (fieldsOf u)) := by
    rw [isoText_four hyear₀ (yearOf_le_iff.mpr hu), stamp, ← List.cons_append, ← hpad]
  rw [isoText_plus hyear, hfour, List.cons_lt_cons_iff]
  have hall : ∀ d < 10, '+' < Nat.digitChar d := by decide
  exact .inl (hall d hd)

/-- How the texts of instants from 1970 on sort. -/
theorem isoText_lt_iff (ht : t.natAbs ≤ maxTime) (hu : u.natAbs ≤ maxTime) (ht₀ : 0 ≤ t)
    (hu₀ : 0 ≤ u) : isoText t < isoText u ↔
      (yearTenThousand ≤ t ∧ u < yearTenThousand) ∨
        ((t < yearTenThousand ↔ u < yearTenThousand) ∧ t < u) := by
  have hyear {x : Int} (hx : 0 ≤ x) : 0 ≤ yearOf x := by
    have hepoch : yearOf 0 = 1970 := by decide
    have := yearOf_le_of_le hx
    omega
  have hless {x y : Int} (hy : y.natAbs ≤ maxTime) (hx₀ : 0 ≤ x)
      (hshape : x < yearTenThousand → y < yearTenThousand) (h : x < y) : isoText x < isoText y := by
    refine isoText_lt hy h (hyear hx₀) fun hx => ?_
    rw [yearOf_le_iff] at hx ⊢
    exact hshape hx
  constructor
  · intro h
    by_cases hut : u < yearTenThousand
    · by_cases htt : t < yearTenThousand
      · refine .inr ⟨⟨fun _ => hut, fun _ => htt⟩, ?_⟩
        by_contra hge
        rcases Int.lt_or_eq_of_le (Int.not_lt.mp hge) with hlt | rfl
        · exact List.lt_asymm h (hless ht hu₀ (fun _ => htt) hlt)
        · exact List.lt_irrefl _ h
      · exact .inl ⟨Int.not_lt.mp htt, hut⟩
    · by_cases htt : t < yearTenThousand
      · exact (List.lt_asymm h (isoText_signed_lt (Int.not_lt.mp hut) ht₀ htt)).elim
      · refine .inr ⟨⟨fun h => absurd h htt, fun h => absurd h hut⟩, ?_⟩
        by_contra hge
        rcases Int.lt_or_eq_of_le (Int.not_lt.mp hge) with hlt | rfl
        · exact List.lt_asymm h (hless ht hu₀ (fun h => absurd h hut) hlt)
        · exact List.lt_irrefl _ h
  · rintro (⟨htt, hut⟩ | ⟨hshape, hlt⟩)
    · exact isoText_signed_lt htt hu₀ hut
    · exact hless hu ht₀ hshape.mp hlt

/-- From the year 10000 on, the later text is the smaller one. -/
example : isoText yearTenThousand < isoText 0 := by decide

end Text

/-! ## Instants -/

/-- An instant that has a text. -/
structure Instant where
  ms : Int
  inRange : ms.natAbs ≤ maxTime
deriving DecidableEq, Repr

namespace Instant

def text (i : Instant) : List Char := isoText i.ms

/-- `a <= b` on the texts. -/
def le (a b : Instant) : Bool := a.text ≤ b.text

/-- `text.slice(0, 10)`: the date, as long as the year has four digits. -/
def date (i : Instant) : List Char := i.text.take 10

/-- The day, counted from the first of 1970. -/
def day (i : Instant) : Int := i.ms / msPerDay

/-- The minutes of the day that the text shows. -/
def minuteOfDay (i : Instant) : Nat := (i.ms / 60000 % 1440).toNat

theorem ext_ms {a b : Instant} (h : a.ms = b.ms) : a = b := by
  cases a
  cases b
  cases h
  rfl

theorem le_iff {a b : Instant} : a.le b = true ↔ ¬ b.text < a.text := by
  simp [le]

/-- What sorts at or before an instant from 1970 on is not later, while its year has four digits or
    that of the instant has more. -/
theorem ms_le_of_le {a b : Instant} (hb : 0 ≤ b.ms)
    (hshape : a.ms < yearTenThousand ∨ yearTenThousand ≤ b.ms) (h : a.le b = true) : a.ms ≤ b.ms :=
  le_of_not_isoText_lt a.inRange hb hshape (le_iff.mp h)

theorem day_le_of_ms_le {a b : Instant} (h : a.ms ≤ b.ms) : a.day ≤ b.day :=
  Int.ediv_le_ediv (by decide) h

/-- Instants of one day show one date. -/
theorem date_eq_of_day_eq {a b : Instant} (h : a.day = b.day) : a.date = b.date := by
  have hyear : yearOf a.ms = yearOf b.ms := congrArg yearFromDay h
  have hfields : dateFields (a.ms / msPerDay) = dateFields (b.ms / msPerDay) :=
    congrArg dateFields h
  unfold date text isoText
  rw [hyear]
  unfold fieldsOf
  rw [hfields]
  -- Ten characters end within the month or after the day, before anything of the time.
  unfold dateFields
  split_ifs <;> simp [stamp, fieldsTemplate, pad]

end Instant

end Lib
end XBus
