import Mathlib.Data.List.Basic
import Mathlib.Data.List.Range
import Mathlib.Data.List.DropRight
import Mathlib.Tactic.Common

/-!
# `Lib/Wal.lean` — a paged file with a write-ahead log

A database is a main file, which is its pages, and a log of frames. A frame is a page as a
transaction wrote it, and the last frame of a transaction says how many pages the database has from
then on. What a reader sees is the newest committed frame of a page, or the page of the main file;
frames after the last commit are of a transaction that did not end.

A checkpoint copies frames back into the main file. It may stop after any of the pages, and it may
stop short of the end of the log when a reader is in the way: then the log stays as it is, and a
page that was copied is read from the log all the same.
-/

set_option autoImplicit false

namespace XBus
namespace Lib
namespace Wal

structure Frame (β : Type) where
  page : Nat
  data : β
  /-- In the last frame of a transaction, the size of the database after it. -/
  commit : Option Nat
deriving DecidableEq, Repr

variable {β : Type}

/-- The frames up to the last commit. -/
def committed (log : List (Frame β)) : List (Frame β) :=
  log.rdropWhile fun f => f.commit.isNone

def newest (frames : List (Frame β)) (p : Nat) : Option β :=
  (frames.reverse.find? fun f => f.page = p).map Frame.data

def size (main : List β) (frames : List (Frame β)) : Nat :=
  (frames.getLast?.bind Frame.commit).getD main.length

variable [Inhabited β]

/-- What a reader sees. A page that is past the end of the file is a page of zeros. -/
def content (main : List β) (log : List (Frame β)) : List β :=
  (List.range (size main (committed log))).map fun p =>
    (newest (committed log) p).getD (main.getD p default)

/-- Write a page at its place, with zeros before it where the file is too short. -/
def writePage (main : List β) (p : Nat) (data : β) : List β :=
  if p < main.length then main.set p data
  else main ++ List.replicate (p - main.length) default ++ [data]

/-- Copy pages back as they are after the first `mark` committed frames. -/
def backfill (mark : Nat) (pages : List Nat) (main : List β) (log : List (Frame β)) : List β :=
  pages.foldl (fun main p =>
    match newest ((committed log).take mark) p with
    | some data => writePage main p data
    | none => main) main

omit [Inhabited β] in
/-- The committed frames change nothing: the main file has the size they say and their pages. -/
def Settled (main : List β) (log : List (Frame β)) : Prop :=
  size main (committed log) = main.length ∧
    ∀ p < main.length, ∀ data ∈ newest (committed log) p, main[p]? = some data

instance [DecidableEq β] (main : List β) (log : List (Frame β)) : Decidable (Settled main log) :=
  inferInstanceAs (Decidable (_ ∧ ∀ p < main.length, ∀ data ∈ newest (committed log) p, _))

/-! ## Reading -/

section Reading

omit [Inhabited β]

@[simp] theorem committed_nil : committed ([] : List (Frame β)) = [] := rfl

@[simp] theorem newest_nil (p : Nat) : newest ([] : List (Frame β)) p = none := rfl

@[simp] theorem size_nil (main : List β) : size main [] = main.length := rfl

/-- The last committed frame says what size the database has. -/
theorem size_committed {log : List (Frame β)} (h : committed log ≠ []) (main main' : List β) :
    size main (committed log) = size main' (committed log) := by
  have hlast : ¬ ((committed log).getLast h).commit.isNone = true :=
    List.rdropWhile_last_not (fun f : Frame β => f.commit.isNone) log h
  obtain ⟨n, hn⟩ := Option.ne_none_iff_exists'.mp fun hc => hlast (Option.isNone_iff_eq_none.mpr hc)
  simp [size, List.getLast?_eq_some_getLast h, hn]

/-- A page that has a frame among the first has one among all. -/
theorem newest_of_take {frames : List (Frame β)} {mark p : Nat} {data : β}
    (h : newest (frames.take mark) p = some data) : ∃ data', newest frames p = some data' := by
  obtain ⟨f, hf, -⟩ := Option.map_eq_some_iff.mp h
  have hmem :
    f ∈ frames := List.mem_of_mem_take (List.mem_reverse.mp (List.mem_of_find?_eq_some hf))
  have hpage : f.page = p := by simpa using List.find?_some hf
  cases hfind : frames.reverse.find? fun f => f.page = p with
  | none =>
    have hno := List.find?_eq_none.mp hfind f (List.mem_reverse.mpr hmem)
    exact absurd (decide_eq_true hpage) hno
  | some f' => exact ⟨f'.data, by simp [newest, hfind]⟩

end Reading

theorem map_getD_range (main : List β) :
    (List.range main.length).map (fun p => main.getD p default) = main := by
  refine List.ext_getElem (by simp) fun p hp _ => ?_
  have hlt : p < main.length := by simpa using hp
  simp [hlt]

@[simp] theorem content_nil (main : List β) : content main [] = main := by
  rw [content, committed_nil, size_nil]
  exact map_getD_range main

/-- The log changes nothing exactly when it is settled. -/
theorem content_eq_main {main : List β} {log : List (Frame β)} :
    content main log = main ↔ Settled main log := by
  constructor
  · intro h
    have hsize : size main (committed log) = main.length := by
      have hlen := congrArg List.length h
      simpa [content] using hlen
    refine ⟨hsize, fun p hp data hdata => ?_⟩
    have hpage := congrArg (fun pages => pages[p]?) h
    rw [← hpage]
    have hnew : newest (committed log) p = some data := hdata
    simp [content, hsize, hp, hnew]
  · rintro ⟨hsize, hpages⟩
    conv_rhs => rw [← map_getD_range main]
    rw [content, hsize]
    refine List.map_congr_left fun p hp => ?_
    have hlt : p < main.length := List.mem_range.mp hp
    cases hnew : newest (committed log) p with
    | none => rfl
    | some data =>
      have hmain := hpages p hlt data hnew
      simp [List.getD_eq_getElem?_getD, hmain]

/-! ## Copying back -/

theorem getD_writePage (main : List β) (p q : Nat) (data : β) :
    (writePage main p data).getD q default = if q = p then data else main.getD q default := by
  simp only [List.getD_eq_getElem?_getD]
  unfold writePage
  by_cases hp : p < main.length
  · rw [if_pos hp, List.getElem?_set]
    by_cases hq : q = p
    · simp [hq, hp]
    · rw [if_neg (Ne.symm hq), if_neg hq]
  · rw [if_neg hp, List.append_assoc]
    rcases Nat.lt_or_ge q main.length with hq | hq
    · have hne : q ≠ p := by omega
      rw [List.getElem?_append_left hq, if_neg hne]
    · -- past the end of the file there are zeros up to the page
      rw [List.getElem?_append_right hq, List.getElem?_eq_none hq, Option.getD_none]
      rcases Nat.lt_trichotomy q p with hlt | rfl | hgt
      · have hin : q - main.length < (List.replicate (p - main.length) (default : β)).length := by
          simp only [List.length_replicate]
          omega
        rw [List.getElem?_append_left hin, if_neg (Nat.ne_of_lt hlt)]
        simp only [List.length_replicate] at hin
        simp [hin]
      · simp
      · have hpast : p - main.length + 1 ≤ q - main.length := by omega
        rw [if_neg (Nat.ne_of_gt hgt), List.getElem?_eq_none (by simpa using hpast),
          Option.getD_none]

/-- A reader sees the same after pages were copied back. -/
theorem content_backfill (mark : Nat) (pages : List Nat) (main : List β) (log : List (Frame β)) :
    content (backfill mark pages main log) log = content main log := by
  induction pages generalizing main with
  | nil => rfl
  | cons p pages ih =>
    rw [backfill, List.foldl_cons]
    refine (ih _).trans ?_
    cases hnew : newest ((committed log).take mark) p with
    | none => rfl
    | some data =>
      have hsome : committed log ≠ [] := by
        intro hnil
        simp [hnil] at hnew
      rw [content, content, size_committed hsome _ main]
      refine List.map_congr_left fun q _ => ?_
      rw [getD_writePage]
      by_cases hq : q = p
      · obtain ⟨data', hdata'⟩ := newest_of_take hnew
        simp [hq, hdata']
      · simp [hq]

/-- Folding the whole log in changes nothing either. -/
theorem content_content (main : List β) (log : List (Frame β)) :
    content (content main log) log = content main log := by
  by_cases hnil : committed log = []
  · simp only [content, hnil, newest_nil, Option.getD_none, size_nil]
    rw [map_getD_range, map_getD_range]
  · conv_lhs => rw [content, size_committed hnil _ main]
    conv_rhs => rw [content]
    refine List.map_congr_left fun p hp => ?_
    have hlt : p < size main (committed log) := List.mem_range.mp hp
    cases hnew : newest (committed log) p with
    | some data => rfl
    | none => simp [content, List.getD_eq_getElem?_getD, hlt, hnew]

end Wal
end Lib
end XBus
