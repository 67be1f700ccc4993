import Mathlib.Data.List.Sort
import Mathlib.Order.Basic
import Mathlib.Tactic.Common

/-!
# `Lib/Grouping.lean` — rows read back and grouped

A program that reads a table back runs a query with an `ORDER BY`, turns every row into a value
(which may throw), and collects the values under their keys. `mapM_ok` takes the reading apart,
`groupAt_pushAt` says what one more value does to the groups, and `filter_eq_of_sorted` that the
order within a group is the order of the keys, however ties between groups were broken.
-/

set_option autoImplicit false

namespace XBus
namespace Lib

variable {α β ε κ ι : Type}

/-! ## Reading that may throw -/

theorem exceptBind_ok {x : Except ε α} {f : α → Except ε β} {b : β} :
    (x >>= f) = .ok b ↔ ∃ a, x = .ok a ∧ f a = .ok b := by
  constructor
  · intro h
    cases x with
    | error e => cases h
    | ok a => exact ⟨a, rfl, h⟩
  · rintro ⟨a, rfl, h⟩
    exact h

theorem exceptOk_bind {a : α} {f : α → Except ε β} : (Except.ok a >>= f) = f a := rfl

theorem exceptPure_ok {a b : α} : (pure a : Except ε α) = .ok b ↔ a = b :=
  ⟨Except.ok.inj, congrArg Except.ok⟩

/-- All rows are read, each as it is read alone. -/
theorem mapM_ok {f : α → Except ε β} {xs : List α} {ys : List β} :
    xs.mapM f = .ok ys ↔ List.Forall₂ (fun x y => f x = .ok y) xs ys := by
  induction xs generalizing ys with
  | nil =>
    rw [List.mapM_nil, exceptPure_ok, List.forall₂_nil_left_iff]
    exact eq_comm
  | cons x xs ih =>
    simp only [List.mapM_cons, exceptBind_ok, exceptPure_ok, ih]
    constructor
    · rintro ⟨y, hy, ys, hys, rfl⟩
      exact .cons hy hys
    · rintro (_ | ⟨hy, hys⟩)
      exact ⟨_, hy, _, hys, rfl⟩

theorem mapM_ok_map {f : α → Except ε β} {g : α → β} {xs : List α} (h : ∀ x ∈ xs, f x = .ok (g x)) :
    xs.mapM f = .ok (xs.map g) := by
  rw [mapM_ok, List.forall₂_map_right_iff, List.forall₂_same]
  exact h

/-- What is read comes from a row. -/
theorem exists_of_mapM {f : α → Except ε β} {xs : List α} {ys : List β} (h : xs.mapM f = .ok ys)
    {y : β} (hy : y ∈ ys) : ∃ x ∈ xs, f x = .ok y := by
  have hall := mapM_ok.mp h
  induction hall with
  | nil => cases hy
  | cons hx _ ih =>
    rcases List.mem_cons.mp hy with rfl | hy
    · exact ⟨_, List.mem_cons_self, hx⟩
    · obtain ⟨x, hmem, hread⟩ := ih (mapM_ok.mpr ‹_›) hy
      exact ⟨x, List.mem_cons_of_mem _ hmem, hread⟩

/-! ## Groups -/

section Groups

variable [DecidableEq κ]

/-- One more value under a key. -/
def pushAt (groups : List (κ × List α)) (k : κ) (a : α) : List (κ × List α) :=
  if groups.any fun g => g.1 = k then
    groups.map fun g => if g.1 = k then (k, g.2 ++ [a]) else g
  else groups ++ [(k, [a])]

/-- The values under a key, none where there is no such key. -/
def groupAt (groups : List (κ × List α)) (k : κ) : List α :=
  ((groups.find? fun g => g.1 = k).map Prod.snd).getD []

theorem groupAt_cons {g : κ × List α} {groups : List (κ × List α)} {k : κ} :
    groupAt (g :: groups) k = if g.1 = k then g.2 else groupAt groups k := by
  unfold groupAt
  rw [List.find?_cons]
  by_cases hk : g.1 = k
  · simp [hk]
  · simp [hk]

theorem groupAt_map {groups : List (κ × List α)} {k : κ} {a : α} (k' : κ) :
    groupAt (groups.map fun g => if g.1 = k then (k, g.2 ++ [a]) else g) k' =
      if k' = k ∧ groups.any (fun g => g.1 = k) then groupAt groups k' ++ [a]
      else groupAt groups k' := by
  induction groups with
  | nil => simp
  | cons g groups ih =>
    rw [List.map_cons, groupAt_cons, groupAt_cons, ih]
    by_cases hg : g.1 = k
    · by_cases hk : k' = k
      · simp [hg, hk]
      · simp [hg, hk, Ne.symm hk]
    · rw [if_neg hg, List.any_cons, decide_eq_false hg, Bool.false_or]
      by_cases hk : g.1 = k'
      · have hne : k' ≠ k := fun h => hg (hk.trans h)
        simp [hk, hne]
      · simp [hk]

theorem groupAt_append {groups : List (κ × List α)} {g : κ × List α} {k : κ}
    (h : ¬ groups.any fun g' => g'.1 = g.1) :
    groupAt (groups ++ [g]) k = if g.1 = k then g.2 else groupAt groups k := by
  induction groups with
  | nil =>
    rw [List.nil_append, groupAt_cons]
  | cons g' groups ih =>
    rw [List.any_cons, Bool.or_eq_true, not_or, decide_eq_true_eq] at h
    rw [List.cons_append, groupAt_cons, groupAt_cons, ih h.2]
    by_cases hk : g.1 = k
    · have hne : g'.1 ≠ k := fun heq => h.1 (heq.trans hk.symm)
      simp [hk, hne]
    · simp [hk]

theorem groupAt_pushAt {groups : List (κ × List α)} {k : κ} {a : α} (k' : κ) :
    groupAt (pushAt groups k a) k' =
      if k' = k then groupAt groups k' ++ [a] else groupAt groups k' := by
  unfold pushAt
  split
  · next hany => simp [groupAt_map, hany]
  · next hany =>
    rw [groupAt_append hany]
    by_cases hk : k' = k
    · subst hk
      have hnone : groupAt groups k' = [] := by
        unfold groupAt
        rw [List.find?_eq_none.mpr]
        · rfl
        · intro g hg hgk
          exact hany (List.any_eq_true.mpr ⟨g, hg, hgk⟩)
      simp [hnone]
    · simp [hk, Ne.symm hk]

end Groups

/-! ## The order within a group -/

/-- Rows in the order of their keys, seen through a condition under which the keys increase. -/
theorem filter_eq_of_sorted [PartialOrder ι] (key : α → ι) {p : α → Bool} {xs ys : List α}
    (h : xs.Perm ys) (hsorted : xs.Pairwise fun a b => key a ≤ key b)
    (hincreasing : (ys.filter p).Pairwise fun a b => key a < key b) :
    xs.filter p = ys.filter p := by
  have hle : (ys.filter p).Pairwise fun a b => key a ≤ key b := hincreasing.imp le_of_lt
  refine (h.filter p).eq_of_pairwise ?_ (hsorted.filter p) hle
  intro a b ha hb hab hba
  have hkey : key a = key b := le_antisymm hab hba
  have hdistinct : ((ys.filter p).map key).Nodup :=
    List.pairwise_map.mpr (hincreasing.imp fun hlt => ne_of_lt hlt)
  exact List.inj_on_of_nodup_map hdistinct ((h.filter p).mem_iff.mp ha) hb hkey

end Lib
end XBus
