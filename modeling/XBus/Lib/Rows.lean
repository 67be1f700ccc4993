import Mathlib.Algebra.GroupWithZero.Nat
import Mathlib.Data.List.Basic
import Mathlib.Data.List.Nodup
import Mathlib.Data.List.Sort
import Mathlib.Tactic.Common

/-!
# Rows: tables as lists

A table is the list of its rows in rowid order. The statements a program runs against one
are `UPDATE … WHERE` (`updateWhere`), the three ways of inserting under a key
(`insertOrIgnore`, `insertOrReplace`, `upsert`), and `DELETE … WHERE`, which is
`List.filter`. Plain `INSERT` is `++ [row]`.

What proofs ask about an updated table is nearly always one of two things: a column the
statement does not write is the same list as before (`map_updateWhere`), and a row of the
result came from a row of the table (`mem_updateWhere`). Everything else here is read off
those.
-/

set_option autoImplicit false

namespace XBus
namespace Lib

variable {α β κ : Type}

/-- `x <= y` in the collation `BINARY`: by code points, which is the order of the bytes in UTF-8. -/
def binaryLe : List Char → List Char → Bool
  | [], _ => true
  | _ :: _, [] => false
  | x :: xs, y :: ys => x.toNat < y.toNat || (x = y && binaryLe xs ys)

/-- `UPDATE rows SET f WHERE p`. -/
def updateWhere (p : α → Bool) (f : α → α) (rows : List α) : List α :=
  rows.map fun r => if p r then f r else r

/-- `INSERT OR IGNORE`, with `key` the primary key. -/
def insertOrIgnore [DecidableEq κ] (key : α → κ) (row : α) (rows : List α) : List α :=
  if rows.any (fun r => key r = key row) then rows else rows ++ [row]

/-- `INSERT OR REPLACE`, with `key` the primary key: the old row is deleted first. -/
def insertOrReplace [DecidableEq κ] (key : α → κ) (row : α) (rows : List α) : List α :=
  rows.filter (fun r => key r ≠ key row) ++ [row]

/-- `INSERT … ON CONFLICT(key) DO UPDATE SET f`. -/
def upsert [DecidableEq κ] (key : α → κ) (row : α) (f : α → α) (rows : List α) : List α :=
  if rows.any (fun r => key r = key row) then
    updateWhere (fun r => key r = key row) f rows
  else rows ++ [row]

section UpdateWhere

variable {p : α → Bool} {f : α → α} {rows : List α}

theorem mem_updateWhere {r : α} :
    r ∈ updateWhere p f rows ↔ ∃ r₀ ∈ rows, (if p r₀ then f r₀ else r₀) = r := by
  simp [updateWhere]

/-- A column the update does not write. -/
theorem map_updateWhere (g : α → β) (h : ∀ r, p r = true → g (f r) = g r) :
    (updateWhere p f rows).map g = rows.map g := by
  simp only [updateWhere, List.map_map]
  refine List.map_congr_left fun r _ => ?_
  by_cases hp : p r = true
  · simp [hp, h r hp]
  · simp [hp]

@[simp] theorem length_updateWhere : (updateWhere p f rows).length = rows.length := by
  simp [updateWhere]

@[simp] theorem updateWhere_nil : updateWhere p f [] = [] := rfl

@[simp] theorem updateWhere_cons {r : α} :
    updateWhere p f (r :: rows) = (if p r then f r else r) :: updateWhere p f rows := rfl

@[simp] theorem updateWhere_append {rows' : List α} :
    updateWhere p f (rows ++ rows') = updateWhere p f rows ++ updateWhere p f rows' := by
  simp [updateWhere]

@[simp] theorem updateWhere_self : updateWhere p (fun r => r) rows = rows := by
  simp [updateWhere]

/-- Two updates of the same rows are one. -/
theorem updateWhere_updateWhere {g : α → α} (h : ∀ r, p (f r) = p r) :
    updateWhere p g (updateWhere p f rows) = updateWhere p (fun r => g (f r)) rows := by
  unfold updateWhere
  rw [List.map_map]
  refine List.map_congr_left fun r _ => ?_
  cases hp : p r with
  | true => simp [hp, h]
  | false => simp [hp]

/-- An update that matches nothing. -/
theorem updateWhere_of_none (h : ∀ r ∈ rows, p r = false) : updateWhere p f rows = rows := by
  unfold updateWhere
  conv_rhs => rw [← List.map_id rows]
  exact List.map_congr_left fun r hr => by simp [h r hr]

/-- A selection that the written rows were not in and do not get into. -/
theorem filter_updateWhere {q : α → Bool}
    (h : ∀ r ∈ rows, p r = true → q r = false ∧ q (f r) = false) :
    (updateWhere p f rows).filter q = rows.filter q := by
  induction rows with
  | nil => rfl
  | cons r rows ih =>
    have hrest := ih fun x hx => h x (List.mem_cons_of_mem r hx)
    rw [updateWhere_cons]
    by_cases hp : p r = true
    · obtain ⟨hq, hfq⟩ := h r List.mem_cons_self hp
      simp [hp, hq, hfq, hrest]
    · simp [hp, List.filter_cons, hrest]

/-- What holds of every row before and of every written row, holds after. -/
theorem forall_mem_updateWhere {P : α → Prop} (h : ∀ r ∈ rows, P r)
    (hf : ∀ r ∈ rows, p r = true → P (f r)) : ∀ r ∈ updateWhere p f rows, P r := by
  intro r hr
  obtain ⟨r₀, hr₀, rfl⟩ := mem_updateWhere.mp hr
  by_cases hp : p r₀ = true
  · simpa [hp] using hf r₀ hr₀ hp
  · simpa [hp] using h r₀ hr₀

/-- A row that no written row can be was there before. -/
theorem mem_of_mem_updateWhere {r : α} (hf : ∀ x ∈ rows, p x = true → f x ≠ r)
    (h : r ∈ updateWhere p f rows) : r ∈ rows := by
  obtain ⟨x, hx, rfl⟩ := mem_updateWhere.mp h
  by_cases hp : p x = true
  · rw [if_pos hp] at hf
    exact absurd rfl (hf x hx hp)
  · rwa [if_neg hp]

/-- A row the update does not match is still there. -/
theorem mem_updateWhere_of_mem {r : α} (hr : r ∈ rows) (hp : p r = false) :
    r ∈ updateWhere p f rows :=
  mem_updateWhere.mpr ⟨r, hr, by simp [hp]⟩

/-- Looking a row up by a column the update does not write finds the written row. -/
theorem find?_updateWhere {q : α → Bool} (h : ∀ r, q (f r) = q r) :
    (updateWhere p f rows).find? q =
      (rows.find? q).map fun r => if p r then f r else r := by
  induction rows with
  | nil => rfl
  | cons r rows ih =>
    have hq : q (if p r then f r else r) = q r := by split <;> simp [h]
    rw [updateWhere_cons, List.find?_cons, List.find?_cons, hq]
    cases q r with
    | true => rfl
    | false => exact ih

end UpdateWhere

section Keys

variable [DecidableEq κ] {key : α → κ} {row : α} {rows : List α}

theorem mem_insertOrReplace {r : α} :
    r ∈ insertOrReplace key row rows ↔ (r ∈ rows ∧ key r ≠ key row) ∨ r = row := by
  simp [insertOrReplace]

/-- What a key finds after the rows of one key are deleted. -/
theorem find?_deleted {k k' : κ} :
    (rows.filter fun r => key r ≠ k').find? (fun r => key r = k) =
      if k = k' then none else rows.find? fun r => key r = k := by
  induction rows with
  | nil => simp
  | cons r rows ih =>
    by_cases hr : key r = k'
    · rw [List.filter_cons_of_neg (by simpa using hr), ih]
      by_cases hk : k = k'
      · simp [hk]
      · simp [hk, hr, Ne.symm hk]
    · rw [List.filter_cons_of_pos (by simpa using hr), List.find?_cons, ih]
      by_cases hk : k = k'
      · simp [hk, hr]
      · simp [hk, List.find?_cons]

/-- What a key finds after `INSERT OR REPLACE`. -/
theorem find?_insertOrReplace {k : κ} :
    (insertOrReplace key row rows).find? (fun r => key r = k) =
      if k = key row then some row else rows.find? fun r => key r = k := by
  rw [insertOrReplace, List.find?_append, find?_deleted]
  by_cases hk : k = key row
  · simp [hk]
  · simp [hk, Ne.symm hk]

theorem subset_insertOrIgnore : rows ⊆ insertOrIgnore key row rows := by
  unfold insertOrIgnore
  split
  · exact List.Subset.refl rows
  · exact List.subset_append_left rows [row]

/-- After `INSERT OR IGNORE` there is a row under the key, the new one or another. -/
theorem exists_key_insertOrIgnore : ∃ r ∈ insertOrIgnore key row rows, key r = key row := by
  unfold insertOrIgnore
  split
  · rename_i hany
    obtain ⟨r, hr, hkey⟩ := List.any_eq_true.mp hany
    exact ⟨r, hr, of_decide_eq_true hkey⟩
  · exact ⟨row, List.mem_append_right _ (List.mem_singleton.mpr rfl), rfl⟩

/-- What a key finds after `INSERT OR IGNORE`. -/
theorem find?_insertOrIgnore {k : κ} :
    (insertOrIgnore key row rows).find? (fun r => key r = k) =
      (rows.find? fun r => key r = k).or (if k = key row then some row else none) := by
  unfold insertOrIgnore
  split
  · rename_i hany
    by_cases hk : k = key row
    · obtain ⟨r, hr, hkey⟩ := List.any_eq_true.mp hany
      have hsome : (rows.find? fun r => key r = k).isSome :=
        List.find?_isSome.mpr ⟨r, hr, by simpa [hk] using hkey⟩
      obtain ⟨x, hx⟩ := Option.isSome_iff_exists.mp hsome
      simp [hx]
    · simp [hk]
  · rw [List.find?_append]
    by_cases hk : k = key row
    · simp [hk]
    · have hne : ¬ key row = k := fun h => hk h.symm
      simp [hk, hne]

/-- A row after an upsert: another key's, untouched, or the key's own, written or new. -/
theorem mem_upsert {f : α → α} {r : α} (h : r ∈ upsert key row f rows) :
    (r ∈ rows ∧ key r ≠ key row) ∨ r = row ∨ ∃ r₀ ∈ rows, key r₀ = key row ∧ r = f r₀ := by
  unfold upsert at h
  split at h
  · obtain ⟨r₀, hr₀, rfl⟩ := mem_updateWhere.mp h
    by_cases hk : key r₀ = key row
    · exact .inr (.inr ⟨r₀, hr₀, hk, by simp [hk]⟩)
    · exact .inl (by simpa [hk] using hr₀)
  · rename_i hany
    rcases List.mem_append.mp h with hr | hr
    · refine .inl ⟨hr, fun hk => hany ?_⟩
      exact List.any_eq_true.mpr ⟨r, hr, by simpa using hk⟩
    · exact .inr (.inl (List.mem_singleton.mp hr))

theorem mem_upsert_of_ne {f : α → α} {r : α} (hr : r ∈ rows) (hk : key r ≠ key row) :
    r ∈ upsert key row f rows := by
  unfold upsert
  split
  · exact mem_updateWhere.mpr ⟨r, hr, by simp [hk]⟩
  · exact List.mem_append_left _ hr

/-- After an upsert the key has a row. -/
theorem exists_mem_upsert (key : α → κ) (row : α) (f : α → α) (rows : List α) :
    row ∈ upsert key row f rows ∨ ∃ r₀ ∈ rows, key r₀ = key row ∧ f r₀ ∈ upsert key row f rows := by
  unfold upsert
  split
  · rename_i hany
    obtain ⟨r₀, hr₀, hk⟩ := List.any_eq_true.mp hany
    exact .inr ⟨r₀, hr₀, by simpa using hk, mem_updateWhere.mpr ⟨r₀, hr₀, if_pos hk⟩⟩
  · exact .inl (List.mem_append_right _ (List.mem_singleton_self row))

/-- An upsert keeps its key unique. -/
theorem nodup_upsert {f : α → α} (hf : ∀ r, key (f r) = key r) (h : (rows.map key).Nodup) :
    ((upsert key row f rows).map key).Nodup := by
  unfold upsert
  split
  · rwa [map_updateWhere key fun r _ => hf r]
  · rename_i hany
    rw [List.map_append, List.nodup_append]
    refine ⟨h, List.nodup_singleton _, fun k hk k' hk' heq => hany ?_⟩
    obtain ⟨r, hr, rfl⟩ := List.mem_map.mp hk
    obtain rfl := List.mem_singleton.mp hk'
    exact List.any_eq_true.mpr ⟨r, hr, by simpa using heq⟩

omit [DecidableEq κ] in
/-- Under a unique key, two rows with one key are one row. -/
theorem eq_of_key_eq (hnd : (rows.map key).Nodup) {r r' : α} (hr : r ∈ rows)
    (hr' : r' ∈ rows) (h : key r = key r') : r = r' :=
  List.inj_on_of_nodup_map hnd hr hr' h

/-- Under a unique key, a row is what its key finds. -/
theorem find?_key_of_mem (hnd : (rows.map key).Nodup) {r : α} (hr : r ∈ rows) :
    rows.find? (fun x => key x = key r) = some r := by
  cases hf : rows.find? (fun x => key x = key r) with
  | none =>
    have hne := List.find?_eq_none.mp hf r hr
    simp at hne
  | some x =>
    have hx : key x = key r := by simpa using List.find?_some hf
    rw [eq_of_key_eq hnd (List.mem_of_find?_eq_some hf) hr hx]

/-- Under a unique key, a row is all that its key selects. -/
theorem filter_key_of_mem (hnd : (rows.map key).Nodup) {r : α} (hr : r ∈ rows) :
    rows.filter (fun x => key x = key r) = [r] := by
  have hall : ∀ x ∈ rows.filter (fun x => key x = key r), x = r := by
    intro x hx
    obtain ⟨hx, hkey⟩ := List.mem_filter.mp hx
    exact eq_of_key_eq hnd hx hr (of_decide_eq_true hkey)
  have hmem : r ∈ rows.filter (fun x => key x = key r) := List.mem_filter.mpr ⟨hr, by simp⟩
  have hone := (List.Nodup.of_map key hnd).filter fun x => decide (key x = key r)
  cases hrows : rows.filter (fun x => key x = key r) with
  | nil =>
    rw [hrows] at hmem
    cases hmem
  | cons x xs =>
    rw [hrows] at hall hone
    obtain ⟨rfl, hrest⟩ := List.forall_mem_cons.mp hall
    have hnone : xs = [] := List.eq_nil_iff_forall_not_mem.mpr fun y hy =>
      (List.nodup_cons.mp hone).1 (hrest y hy ▸ hy)
    rw [hnone]

end Keys

/-- `ORDER BY … LIMIT 1` finds a row that comes before every other one. -/
theorem head?_insertionSort {r : α → α → Prop} [DecidableRel r] [Std.Total r] [IsTrans α r]
    {rows : List α} {first : α} (h : (rows.insertionSort r).head? = some first) :
    first ∈ rows ∧ ∀ x ∈ rows, r first x := by
  have hsorted := List.pairwise_insertionSort r rows
  refine ⟨(List.mem_insertionSort r).mp (List.mem_of_head? h), fun x hx => ?_⟩
  have hmem : x ∈ rows.insertionSort r := (List.mem_insertionSort r).mpr hx
  obtain ⟨rest, hrest⟩ := List.head?_eq_some_iff.mp h
  rw [hrest] at hsorted hmem
  rcases List.mem_cons.mp hmem with rfl | hmem
  · exact (Std.Total.total (r := r) x x).elim id id
  · exact (List.pairwise_cons.mp hsorted).1 x hmem

/-- A join that keeps a key: the keys of the result are some of the keys of the table. -/
theorem map_filterMap_sublist {f : α → Option β} {key : α → κ} {key' : β → κ}
    (h : ∀ a b, f a = some b → key' b = key a) (rows : List α) :
    ((rows.filterMap f).map key').Sublist (rows.map key) := by
  induction rows with
  | nil => exact List.Sublist.refl _
  | cons a rows ih =>
    cases ha : f a with
    | none =>
      rw [List.filterMap_cons_none ha]
      exact ih.cons _
    | some b =>
      rw [List.filterMap_cons_some ha, List.map_cons, List.map_cons, h a b ha]
      exact ih.cons_cons _

end Lib
end XBus
