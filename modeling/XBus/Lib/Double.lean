import Mathlib.Data.Int.Log
import Mathlib.Data.Rat.Floor
import Mathlib.Tactic.Linarith
import Mathlib.Tactic.NormNum
import Mathlib.Tactic.Positivity

/-!
# Sums of doubles

A number of the host language is a double, and the sum of two is the double nearest to their sum,
ties going to the even one. `toDouble` is that rounding, on the rationals; infinity and the zeros
are left out, so a sum too large for the format stands as it would with a wider exponent.

Two facts are what a program needs that counts milliseconds and may be given fractions of them:

* the rounding is monotone (`toDouble_mono`);
* a whole number of up to 53 bits is its own rounding (`toDouble_intCast`).

Between them they bound the rounding of any sum by the whole numbers around it.
-/

set_option autoImplicit false

namespace XBus
namespace Lib

/-! ## To the nearest whole number -/

/-- The nearest whole number, the even one of two. -/
def roundEven (q : ℚ) : ℤ :=
  if q - ⌊q⌋ < 1 / 2 then ⌊q⌋
  else if 1 / 2 < q - ⌊q⌋ then ⌊q⌋ + 1
  else if ⌊q⌋ % 2 = 0 then ⌊q⌋ else ⌊q⌋ + 1

theorem floor_le_roundEven (q : ℚ) : ⌊q⌋ ≤ roundEven q := by
  unfold roundEven
  split_ifs <;> omega

theorem roundEven_le_floor_add_one (q : ℚ) : roundEven q ≤ ⌊q⌋ + 1 := by
  unfold roundEven
  split_ifs <;> omega

@[simp] theorem roundEven_intCast (n : ℤ) : roundEven n = n := by
  simp [roundEven]

theorem roundEven_mono {p q : ℚ} (h : p ≤ q) : roundEven p ≤ roundEven q := by
  rcases Int.lt_or_eq_of_le (Int.floor_le_floor h) with hlt | heq
  · calc roundEven p ≤ ⌊p⌋ + 1 := roundEven_le_floor_add_one p
      _ ≤ ⌊q⌋ := hlt
      _ ≤ roundEven q := floor_le_roundEven q
  · -- Between two whole numbers, only the distance to the lower one counts.
    unfold roundEven
    rw [heq]
    split_ifs <;> first | omega | linarith

theorem roundEven_le {q : ℚ} {n : ℤ} (h : q ≤ n) : roundEven q ≤ n := by
  simpa using roundEven_mono h

theorem le_roundEven {q : ℚ} {n : ℤ} (h : (n : ℚ) ≤ q) : n ≤ roundEven q := by
  simpa using roundEven_mono h

/-! ## To the nearest double -/

/-- The exponent of the last bit: there are 53 of them, and none below the least subnormal. -/
def lastBit (q : ℚ) : ℤ := max (Int.log 2 |q| - 52) (-1074)

/-- The nearest double. -/
def toDouble (q : ℚ) : ℚ := roundEven (q / 2 ^ lastBit q) * 2 ^ lastBit q

theorem lastBit_mono {p q : ℚ} (hp : 0 < p) (h : p ≤ q) : lastBit p ≤ lastBit q := by
  have hlog : Int.log 2 |p| ≤ Int.log 2 |q| := by
    rw [abs_of_pos hp, abs_of_pos (hp.trans_le h)]
    exact Int.log_mono_right hp h
  unfold lastBit
  omega

theorem two_zpow_pos (e : ℤ) : (0 : ℚ) < 2 ^ e := zpow_pos (by norm_num) e

/-- A power of two at or above the last bit is a whole number of last bits. -/
theorem two_zpow_eq {e f : ℤ} (h : e ≤ f) :
    (2 : ℚ) ^ f = ((2 ^ (f - e).toNat : ℤ) : ℚ) * 2 ^ e := by
  have hcast : ((2 ^ (f - e).toNat : ℤ) : ℚ) = 2 ^ (f - e) := by
    rw [Int.cast_pow, Int.cast_ofNat, ← zpow_natCast, Int.toNat_of_nonneg (by omega)]
  rw [hcast, ← zpow_add₀ (by norm_num)]
  congr 1
  omega

theorem toDouble_le_of_scaled {q : ℚ} {n : ℤ} (h : q ≤ n * 2 ^ lastBit q) :
    toDouble q ≤ n * 2 ^ lastBit q := by
  have hpos := two_zpow_pos (lastBit q)
  have hround : roundEven (q / 2 ^ lastBit q) ≤ n := roundEven_le ((div_le_iff₀ hpos).mpr h)
  exact mul_le_mul_of_nonneg_right (Int.cast_le.mpr hround) hpos.le

theorem le_toDouble_of_scaled {q : ℚ} {n : ℤ} (h : n * 2 ^ lastBit q ≤ q) :
    n * 2 ^ lastBit q ≤ toDouble q := by
  have hpos := two_zpow_pos (lastBit q)
  have hround : n ≤ roundEven (q / 2 ^ lastBit q) := le_roundEven ((le_div_iff₀ hpos).mpr h)
  exact mul_le_mul_of_nonneg_right (Int.cast_le.mpr hround) hpos.le

/-- The rounding does not cross a power of two from below. -/
theorem toDouble_le_two_zpow {q : ℚ} {f : ℤ} (hf : lastBit q ≤ f) (h : q ≤ 2 ^ f) :
    toDouble q ≤ 2 ^ f := by
  rw [two_zpow_eq hf] at h ⊢
  exact toDouble_le_of_scaled h

theorem two_zpow_le_toDouble {q : ℚ} {f : ℤ} (hf : lastBit q ≤ f) (h : 2 ^ f ≤ q) :
    2 ^ f ≤ toDouble q := by
  rw [two_zpow_eq hf] at h ⊢
  exact le_toDouble_of_scaled h

theorem toDouble_mono {p q : ℚ} (hp : 0 < p) (h : p ≤ q) : toDouble p ≤ toDouble q := by
  rcases Int.lt_or_eq_of_le (lastBit_mono hp h) with hlt | heq
  · -- The power of two that `q` starts with lies between the two.
    have hq : 0 < q := hp.trans_le h
    have hlow : (2 : ℚ) ^ Int.log 2 q ≤ q := by
      simpa using Int.zpow_log_le_self (b := 2) (by norm_num) hq
    have hhigh : p < (2 : ℚ) ^ (Int.log 2 p + 1) := by
      simpa using Int.lt_zpow_succ_log_self (b := 2) (by norm_num) p
    have hlog : Int.log 2 p + 1 ≤ Int.log 2 q ∧ lastBit p ≤ Int.log 2 q ∧
        lastBit q ≤ Int.log 2 q := by
      unfold lastBit at hlt ⊢
      rw [abs_of_pos hp, abs_of_pos hq] at hlt ⊢
      omega
    have hpow : (2 : ℚ) ^ (Int.log 2 p + 1) ≤ 2 ^ Int.log 2 q :=
      zpow_le_zpow_right₀ (by norm_num) hlog.1
    calc toDouble p ≤ 2 ^ Int.log 2 q := toDouble_le_two_zpow hlog.2.1 (hhigh.le.trans hpow)
      _ ≤ toDouble q := two_zpow_le_toDouble hlog.2.2 hlow
  · have hpos := two_zpow_pos (lastBit q)
    unfold toDouble
    rw [heq]
    have hdiv : p / 2 ^ lastBit q ≤ q / 2 ^ lastBit q := div_le_div_of_nonneg_right h hpos.le
    exact mul_le_mul_of_nonneg_right (Int.cast_le.mpr (roundEven_mono hdiv)) hpos.le

/-- A whole number of up to 53 bits is a double. -/
theorem toDouble_intCast {n : ℤ} (hn : 0 < n) (h : n ≤ 2 ^ 53) : toDouble n = n := by
  have hpos : (0 : ℚ) < n := Int.cast_pos.mpr hn
  rcases Int.lt_or_eq_of_le h with hlt | rfl
  · -- The last bit stands for a half or less, or for one.
    have hbit : lastBit n ≤ 0 := by
      have hlog : Int.log 2 (n : ℚ) < 53 := by
        rw [← Int.lt_zpow_iff_log_lt (by norm_num) hpos]
        exact_mod_cast hlt
      unfold lastBit
      rw [abs_of_pos hpos]
      omega
    have hscaled : (n : ℚ) = ((n * 2 ^ (0 - lastBit n).toNat : ℤ) : ℚ) * 2 ^ lastBit n := by
      have hone := two_zpow_eq hbit
      rw [zpow_zero] at hone
      rw [Int.cast_mul, mul_assoc, ← hone, mul_one]
    apply le_antisymm
    · calc toDouble n ≤ _ := toDouble_le_of_scaled hscaled.le
        _ = n := hscaled.symm
    · calc (n : ℚ) = _ := hscaled
        _ ≤ toDouble n := le_toDouble_of_scaled hscaled.ge
  · have hcast : ((2 ^ 53 : ℤ) : ℚ) = 2 ^ (53 : ℤ) := by norm_num
    have hbit : lastBit ((2 ^ 53 : ℤ) : ℚ) ≤ 53 := by
      have hlog : Int.log 2 ((2 ^ 53 : ℤ) : ℚ) = 53 := by
        rw [hcast]
        exact_mod_cast Int.log_zpow (R := ℚ) (b := 2) (by norm_num) 53
      unfold lastBit
      rw [abs_of_pos hpos, hlog]
      omega
    rw [hcast] at hbit ⊢
    exact le_antisymm (toDouble_le_two_zpow hbit le_rfl) (two_zpow_le_toDouble hbit le_rfl)

/-- What is at least a whole number stays so. -/
theorem le_toDouble {q : ℚ} {n : ℤ} (hn : 0 < n) (hbits : n ≤ 2 ^ 53) (h : (n : ℚ) ≤ q) :
    (n : ℚ) ≤ toDouble q := by
  calc (n : ℚ) = toDouble n := (toDouble_intCast hn hbits).symm
    _ ≤ toDouble q := toDouble_mono (Int.cast_pos.mpr hn) h

end Lib
end XBus
