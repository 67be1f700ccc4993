import Mathlib.Tactic.Common

/-!
# Namings: who holds which name

A `Naming α ν` gives each holder in `α` at most one name in `ν`, and each name at most one
holder. That is all a registry of unique names is for, however many tables represent it. The
operations are `release`, which takes a holder's name away, and `assign`, which gives a
holder a name no matter who had it before; both are total, uniqueness being a field of the
structure.

`eq_of_change_at` is the rule for telling transfers apart: a step after which at most one
holder has another name moves no name from one holder to another.
-/

set_option autoImplicit false

namespace XBus
namespace Lib

/-- At most one name a holder, at most one holder a name. -/
@[ext] structure Naming (α ν : Type) where
  name : α → Option ν
  sole : ∀ {a a' : α} {n : ν}, name a = some n → name a' = some n → a = a'

namespace Naming

variable {α ν : Type} [DecidableEq α] [DecidableEq ν]

omit [DecidableEq α] [DecidableEq ν] in
/-- From a naming to one that differs at a single holder, no name has changed hands. -/
theorem eq_of_change_at {N N' : Naming α ν} {a : α} (h : ∀ x, x ≠ a → N'.name x = N.name x)
    {x y : α} {n : ν} (hx : N.name x = some n) (hy : N'.name y = some n) : x = y := by
  by_cases hxa : x = a
  · by_cases hya : y = a
    · rw [hxa, hya]
    · exact N.sole hx ((h y hya).symm.trans hy)
  · exact N'.sole ((h x hxa).trans hx) hy

/-- Exactly one holder is called something. -/
def single (a : α) (n : ν) : Naming α ν where
  name x := if x = a then some n else none
  sole {x y m} hx hy := by
    split at hx
    · split at hy
      · rename_i hx' hy'
        rw [hx', hy']
      · cases hy
    · cases hx

/-- Take a holder's name away. -/
def release (N : Naming α ν) (a : α) : Naming α ν where
  name x := if x = a then none else N.name x
  sole {x y n} hx hy := by
    split at hx
    · cases hx
    · split at hy
      · cases hy
      · exact N.sole hx hy

/-- Give a holder a name, and take it from whoever had it. -/
def assign (N : Naming α ν) (a : α) (n : ν) : Naming α ν where
  name x := if x = a then some n else if N.name x = some n then none else N.name x
  sole {x y m} hx hy := by
    by_cases hxa : x = a
    · by_cases hya : y = a
      · rw [hxa, hya]
      · rw [if_pos hxa] at hx
        rw [if_neg hya] at hy
        split at hy
        · cases hy
        · rename_i hne
          exact absurd (hy.trans hx.symm) hne
    · rw [if_neg hxa] at hx
      split at hx
      · cases hx
      · rename_i hnx
        by_cases hya : y = a
        · rw [if_pos hya] at hy
          exact absurd (hx.trans hy.symm) hnx
        · rw [if_neg hya] at hy
          split at hy
          · cases hy
          · exact N.sole hx hy

variable {N : Naming α ν} {a x : α} {n : ν}

omit [DecidableEq ν] in
theorem single_eq_some {m : ν} : (single a n).name x = some m ↔ x = a ∧ m = n := by
  by_cases h : x = a
  · simp [single, h, eq_comm]
  · simp [single, h]

omit [DecidableEq ν] in
@[simp] theorem release_self : (N.release a).name a = none := if_pos rfl

omit [DecidableEq ν] in
theorem release_of_ne (h : x ≠ a) : (N.release a).name x = N.name x := if_neg h

omit [DecidableEq ν] in
theorem release_eq_some : (N.release a).name x = some n ↔ x ≠ a ∧ N.name x = some n := by
  by_cases h : x = a
  · simp [h]
  · simp [release_of_ne h, h]

@[simp] theorem assign_self : (N.assign a n).name a = some n := if_pos rfl

/-- Assigning a free name leaves everybody else alone. -/
theorem assign_of_ne (free : ∀ y, y ≠ a → N.name y ≠ some n) (h : x ≠ a) :
    (N.assign a n).name x = N.name x := by
  show (if x = a then _ else if N.name x = some n then none else N.name x) = N.name x
  rw [if_neg h, if_neg (free x h)]

/-- A name after an assignment is the one assigned, or another one its holder had before. -/
theorem eq_some_of_assign {m : ν} (h : (N.assign a n).name x = some m) :
    (x = a ∧ m = n) ∨ N.name x = some m := by
  by_cases hx : x = a
  · rw [hx, assign_self] at h
    exact .inl ⟨hx, (Option.some.inj h).symm⟩
  · replace h :
      (if x = a then some n else if N.name x = some n then none else N.name x) = some m := h
    rw [if_neg hx] at h
    split at h
    · cases h
    · exact .inr h

end Naming

end Lib
end XBus
