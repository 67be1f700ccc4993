import XBus.Lib.Utf8

/-!
# `Lib/Trees.lean` — directory trees

What stands at a path: a file, a directory with its entries in the order they are listed, or a
symbolic link with what it leads to. `Distinct` says that no directory lists a name twice.
-/

set_option autoImplicit false

namespace XBus
namespace Lib

inductive Tree where
  | file (bytes : Bytes)
  /-- What a link leads to is never a link; a dangling one leads nowhere. -/
  | link (target : Option Tree)
  | dir (entries : List (String × Tree))

namespace Tree

abbrev Entries := List (String × Tree)

def lookupEntry (es : Entries) (name : String) : Option Tree :=
  (es.find? fun e => e.1 = name).map (·.2)

/-- An entry that is there keeps its place. -/
def setEntry (es : Entries) (name : String) (t : Tree) : Entries :=
  if name ∈ es.map (·.1) then es.map fun e => if e.1 = name then (name, t) else e
  else es ++ [(name, t)]

/-- What stands under `name` from now on. -/
def putEntry (es : Entries) (name : String) : Option Tree → Entries
  | some t => setEntry es name t
  | none => es.filter fun e => e.1 ≠ name

/-- What is reached where links are followed. -/
def follow : Tree → Option Tree
  | .link target => target
  | t => some t

/-- A change to what is reached. -/
def through (f : Tree → Tree) : Tree → Tree
  | .link target => .link (target.map f)
  | t => f t

/-- The entry of a directory, and what it leads to. -/
def step (t : Tree) (name : String) : Option Tree :=
  match t with
  | .dir es => (lookupEntry es name).bind follow
  | _ => none

/-- What is reached at a path below `t`. -/
def find? (t : Option Tree) (path : List String) : Option Tree :=
  path.foldl (fun t name => t.bind fun t => t.step name) (t.bind follow)

def existsAt (t : Option Tree) (path : List String) : Bool := (find? t path).isSome

/-- The content of the file at a path. -/
def readAt (t : Option Tree) (path : List String) : Option Bytes :=
  match find? t path with
  | some (.file bytes) => some bytes
  | _ => none

/-! ## What an operation leaves, where it can be done -/

/-- A file is written; not over a directory. -/
def overwrite (t : Option Tree) (bytes : Bytes) : Option Tree :=
  match t with
  | some (.dir _) | some (.link (some (.dir _))) => none
  | some (.link _) => some (.link (some (.file bytes)))
  | _ => some (.file bytes)

/-- A directory is made, unless there is one. -/
def ensureDir : Option Tree → Option Tree
  | none => some (.dir [])
  | some (.dir es) => some (.dir es)
  | some (.link (some (.dir es))) => some (.link (some (.dir es)))
  | some _ => none

/-- What is listed in a directory, or behind a link to one. -/
def entries : Tree → Entries
  | .dir es | .link (some (.dir es)) => es
  | _ => []

def withEntries (t : Tree) (es : Entries) : Tree := t.through fun _ => .dir es

/-- `t` can be renamed to where `there` stands: a directory replaces an empty directory and
    nothing else, and only a directory replaces one. -/
def mayReplace (t : Tree) (there : Option Tree) : Bool :=
  match there, t with
  | none, _ => true
  | some (.dir es), .dir _ => es.isEmpty
  | some (.dir _), _ => false
  | some _, .dir _ => false
  | some _, _ => true

/-! ## Names are listed once -/

mutual

def Distinct : Tree → Prop
  | .dir es => (es.map (·.1)).Nodup ∧ DistinctEntries es
  | _ => True

def DistinctEntries : Entries → Prop
  | [] => True
  | (_, t) :: es => t.Distinct ∧ DistinctEntries es

end

/-- A path is looked up from where the links lead. -/
theorem find_of_follow {t u : Option Tree} {path : List String}
    (h : t.bind follow = u.bind follow) :
    find? t path = find? u path := by
  rw [find?, find?, h]

theorem find_none (path : List String) : find? none path = none := by
  show path.foldl (fun (t : Option Tree) name => t.bind fun t => t.step name) none = none
  induction path with
  | nil => rfl
  | cons name path ih => exact ih

@[simp] theorem setEntry_fresh {es : Entries} {name : String} (h : name ∉ es.map (·.1))
    (t : Tree) : setEntry es name t = es ++ [(name, t)] := by
  rw [setEntry, if_neg h]

@[simp] theorem lookupEntry_fresh {es : Entries} {name : String} (h : name ∉ es.map (·.1)) :
    lookupEntry es name = none := by
  rw [lookupEntry, Option.map_eq_none_iff, List.find?_eq_none]
  intro e he
  simp only [decide_eq_true_eq]
  rintro rfl
  exact h (List.mem_map_of_mem he)

theorem lookupEntry_setEntry_ne {es : Entries} {name other : String} (h : other ≠ name)
    (t : Tree) : lookupEntry (setEntry es name t) other = lookupEntry es other := by
  unfold setEntry
  split
  · rw [lookupEntry, lookupEntry, List.find?_map, Option.map_map]
    have hsame : ((fun e : String × Tree => decide (e.1 = other)) ∘
        fun e => if e.1 = name then (name, t) else e) = fun e => decide (e.1 = other) := by
      funext e
      by_cases he : e.1 = name
      · simp [he]
      · simp [he]
    rw [hsame]
    refine Option.map_congr fun e he => ?_
    have hother : e.1 = other := by simpa using List.find?_some he
    simp [hother, h]
  · simp [lookupEntry, List.find?_append, h.symm]

theorem lookupEntry_putEntry_ne {es : Entries} {name other : String} (h : other ≠ name)
    (t : Option Tree) : lookupEntry (putEntry es name t) other = lookupEntry es other := by
  cases t with
  | some t => exact lookupEntry_setEntry_ne h t
  | none =>
    rw [putEntry, lookupEntry, lookupEntry, List.find?_filter]
    congr 2
    funext e
    by_cases he : e.1 = other
    · simp [he, h]
    · simp [he]

end Tree

end Lib
end XBus
