import Mathlib.Tactic.Common

/-!
# ASCII letters and their lower case

`Char.toLower` moves the capital letters and nothing else. What is stated of a class of characters
as intervals of code points is then arithmetic (`toNat_toLower`), and a character that is no letter
is the lower case of itself only (`toLower_eq_iff`).
-/

set_option autoImplicit false

namespace XBus
namespace Lib

variable {c d : Char}

theorem char_eq_iff : c = d ↔ c.toNat = d.toNat := Char.toNat_inj.symm

theorem toNat_toLower (c : Char) :
    c.toLower.toNat = if 65 ≤ c.toNat ∧ c.toNat ≤ 90 then c.toNat + 32 else c.toNat := by
  unfold Char.toLower
  by_cases h : c.val ≥ 'A'.val ∧ c.val ≤ 'Z'.val
  · have hrange : 65 ≤ c.toNat ∧ c.toNat ≤ 90 := h
    rw [dif_pos h, if_pos hrange]
    show (c.val + 32).toNat = c.toNat + 32
    rw [UInt32.toNat_add]
    show (c.toNat + 32) % 2 ^ 32 = _
    omega
  · have hrange : ¬ (65 ≤ c.toNat ∧ c.toNat ≤ 90) := h
    rw [dif_neg h, if_neg hrange]

theorem isUpper_iff : c.isUpper = true ↔ 65 ≤ c.toNat ∧ c.toNat ≤ 90 := decide_eq_true_iff

theorem isLower_iff : c.isLower = true ↔ 97 ≤ c.toNat ∧ c.toNat ≤ 122 := by
  have hdef : c.isLower = (decide (c.val ≥ 97) && decide (c.val ≤ 122)) := rfl
  rw [hdef, Bool.and_eq_true, decide_eq_true_eq, decide_eq_true_eq]
  exact Iff.rfl

theorem isDigit_iff : c.isDigit = true ↔ 48 ≤ c.toNat ∧ c.toNat ≤ 57 := by
  simp only [Char.isDigit, Bool.and_eq_true, decide_eq_true_eq]
  exact Iff.rfl

theorem isAlphanum_iff : c.isAlphanum = true ↔ (48 ≤ c.toNat ∧ c.toNat ≤ 57) ∨
    (65 ≤ c.toNat ∧ c.toNat ≤ 90) ∨ (97 ≤ c.toNat ∧ c.toNat ≤ 122) := by
  have hdef : c.isAlphanum = ((c.isUpper || c.isLower) || c.isDigit) := rfl
  rw [hdef, Bool.or_eq_true, Bool.or_eq_true, isUpper_iff, isLower_iff, isDigit_iff]
  omega

@[simp] theorem isAlphanum_toLower (c : Char) : c.toLower.isAlphanum = c.isAlphanum := by
  rw [Bool.eq_iff_iff, isAlphanum_iff, isAlphanum_iff, toNat_toLower]
  split <;> omega

/-- A character that is no letter is the lower case of itself only. -/
theorem toLower_eq_iff (hd : d.isAlphanum = false) : c.toLower = d ↔ c = d := by
  have hmark : ¬ ((48 ≤ d.toNat ∧ d.toNat ≤ 57) ∨ (65 ≤ d.toNat ∧ d.toNat ≤ 90) ∨
      (97 ≤ d.toNat ∧ d.toNat ≤ 122)) := by
    rw [← isAlphanum_iff, hd]
    simp
  rw [char_eq_iff, char_eq_iff, toNat_toLower]
  split <;> omega

end Lib
end XBus
