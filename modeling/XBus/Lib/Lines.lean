import Mathlib.Data.List.Basic

/-!
# `Lib/Lines.lean` — lists cut at a separator

`List.splitOn` cuts a list at every occurrence of an element, and `List.intercalate` puts the pieces
together again. Here are the rules for what is built from pieces and cut again: no piece has the
separator in it, a piece can be cut on its own, and a filter that keeps the separator can be moved
under the pieces.
-/

set_option autoImplicit false

namespace XBus
namespace Lib

variable {α : Type} {sep : α} {s : List α}

theorem intercalate_cons (first second : List α) (parts : List (List α)) :
    [sep].intercalate (first :: second :: parts) =
      first ++ sep :: [sep].intercalate (second :: parts) := by
  rw [List.intercalate_cons_cons, List.append_assoc, List.singleton_append]

/-- A filter that keeps the separator goes under the pieces. -/
theorem filter_intercalate {p : α → Bool} (hsep : p sep = true) (parts : List (List α)) :
    ([sep].intercalate parts).filter p = [sep].intercalate (parts.map (List.filter p)) := by
  induction parts with
  | nil => rfl
  | cons first parts ih =>
    cases parts with
    | nil => simp
    | cons second parts =>
      rw [intercalate_cons, List.map_cons, List.map_cons, intercalate_cons, List.filter_append,
        List.filter_cons_of_pos hsep, ih, List.map_cons]

theorem infix_intercalate {piece : List α} {parts : List (List α)} (h : piece ∈ parts) :
    piece <:+: [sep].intercalate parts := by
  induction parts with
  | nil => cases h
  | cons first parts ih =>
    cases parts with
    | nil =>
      obtain rfl := List.mem_singleton.mp h
      have hone : [sep].intercalate [piece] = piece := List.intercalate_singleton
      exact hone.symm ▸ List.infix_rfl
    | cons second parts =>
      rw [intercalate_cons]
      rcases List.mem_cons.mp h with rfl | h
      · exact (List.prefix_append ..).isInfix
      · exact (ih h).trans ((List.suffix_cons ..).trans (List.suffix_append ..)).isInfix

variable [DecidableEq α]

/-- No piece has the separator in it. -/
theorem not_mem_of_mem_splitOn {piece : List α} (h : piece ∈ s.splitOn sep) : sep ∉ piece := by
  induction s generalizing piece with
  | nil =>
    rw [List.splitOn_nil, List.mem_singleton] at h
    rw [h]
    exact List.not_mem_nil
  | cons x s ih =>
    rw [List.splitOn_cons_eq_if_modifyHead] at h
    split at h
    · rcases List.mem_cons.mp h with rfl | h
      · exact List.not_mem_nil
      · exact ih h
    · rename_i hx
      obtain ⟨first, others, hsplit⟩ := List.exists_cons_of_ne_nil (List.splitOn_ne_nil sep s)
      rw [hsplit, List.modifyHead_cons] at h
      rcases List.mem_cons.mp h with rfl | h
      · intro hmem
        rcases List.mem_cons.mp hmem with rfl | hmem
        · exact hx (by simp)
        · exact ih (hsplit ▸ List.mem_cons_self) hmem
      · exact ih (hsplit ▸ List.mem_cons_of_mem first h)

theorem infix_of_mem_splitOn {piece : List α} (h : piece ∈ s.splitOn sep) : piece <:+: s := by
  have hinfix : piece <:+: List.intercalate [sep] (s.splitOn sep) := infix_intercalate h
  rwa [List.intercalate_splitOn] at hinfix

/-- What is put together from parts is cut part by part. -/
theorem splitOn_intercalate_flatMap {parts : List (List α)} (h : parts ≠ []) :
    ([sep].intercalate parts).splitOn sep = parts.flatMap fun part => part.splitOn sep := by
  induction parts with
  | nil => exact absurd rfl h
  | cons first parts ih =>
    cases parts with
    | nil => simp
    | cons second parts =>
      rw [intercalate_cons, List.splitOn_append_cons_self, ih (List.cons_ne_nil _ _)]
      simp only [List.flatMap_cons]

end Lib
end XBus
