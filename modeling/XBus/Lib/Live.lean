import XBus.Lib.Json
import Mathlib.Data.List.Sort

/-!
# `Lib/Live.lean` — values of the running program, and what JSON makes of them

A `Json` value is what a text can say. A value of the running program can be more: `undefined`, a
function, an array with holes, an instance of a class, anything with a `toJSON` of its own.
`serialize` is what `JSON.stringify` writes of such a value, if it writes anything, and `ofJson` is
what `JSON.parse` makes of a value it has read.

Here are also the two orders in which the members of an object are looked at: as they were set, and
sorted by the code units of their keys (`sortByKey`); and strings that leave the program as
characters (`scalars`), where an unpaired surrogate has no way out.
-/

set_option autoImplicit false

namespace XBus
namespace Lib

/-! ## Strings as characters -/

/-- The characters of a string; an unpaired surrogate becomes U+FFFD. -/
def scalars : JsString → List Char
  | [] => []
  | u :: s =>
    match s with
    | [] => [if isHigh u || isLow u then replacement else Char.ofNat u.toNat]
    | v :: s' =>
      if isHigh u && isLow v then pairChar u v :: scalars s'
      else (if isHigh u || isLow u then replacement else Char.ofNat u.toNat) :: scalars (v :: s')

/-- Every surrogate stands in a pair. -/
def paired : JsString → Bool
  | [] => true
  | u :: s =>
    match s with
    | [] => !isHigh u && !isLow u
    | v :: s' =>
      if isHigh u && isLow v then paired s' else !isHigh u && !isLow u && paired (v :: s')

theorem units_ofNat {u : UInt16} (h : isHigh u = false ∧ isLow u = false) :
    units (Char.ofNat u.toNat) = [u] := by
  have hlt := u.toNat_lt
  simp only [isHigh, isLow, Bool.and_eq_false_iff, decide_eq_false_iff_not] at h
  have hnat : (Char.ofNat u.toNat).toNat = u.toNat := toNat_ofNat_char (by omega)
  rw [units, hnat, if_pos (by omega), UInt16.ofNat_toNat]

/-- A string without unpaired surrogates comes back as it was. -/
theorem units_scalars {s : JsString} (h : paired s) : (scalars s).flatMap units = s := by
  induction s using scalars.induct with
  | case1 => rfl
  | case2 u =>
    simp only [paired, Bool.and_eq_true, Bool.not_eq_true'] at h
    simp [scalars, h, units_ofNat h]
  | case3 u v s hpair ih =>
    have hs : paired s := by
      rw [paired, if_pos hpair] at h
      exact h
    simp only [Bool.and_eq_true] at hpair
    rw [scalars, if_pos (by simp [hpair]), List.flatMap_cons, units_pairChar hpair.1 hpair.2, ih hs]
    rfl
  | case4 u v s hpair ih =>
    rw [paired, if_neg hpair, Bool.and_eq_true, Bool.and_eq_true, Bool.not_eq_true',
      Bool.not_eq_true'] at h
    rw [scalars, if_neg hpair, List.flatMap_cons, ih h.2]
    simp [h.1, units_ofNat h.1]

/-- A character's units are no unpaired surrogate, whatever follows. -/
theorem scalars_units (c : Char) (s : JsString) : scalars (units c ++ s) = c :: scalars s := by
  have hscalar := toNat_scalar c
  unfold units
  split
  · rename_i hc
    have hnat : (UInt16.ofNat c.toNat).toNat = c.toNat := by
      rw [UInt16.toNat_ofNat']
      omega
    have hplain : isHigh (UInt16.ofNat c.toNat) = false ∧ isLow (UInt16.ofNat c.toNat) = false := by
      simp only [isHigh, isLow, hnat, Bool.and_eq_false_iff, decide_eq_false_iff_not]
      omega
    cases s with
    | nil => simp [scalars, hplain, hnat, Char.ofNat_toNat]
    | cons v s => simp [scalars, hplain, hnat, Char.ofNat_toNat]
  · rename_i hc
    have hu : (UInt16.ofNat (0xd800 + (c.toNat - 0x10000) / 0x400)).toNat
        = 0xd800 + (c.toNat - 0x10000) / 0x400 := by
      rw [UInt16.toNat_ofNat']
      omega
    have hv : (UInt16.ofNat (0xdc00 + (c.toNat - 0x10000) % 0x400)).toNat
        = 0xdc00 + (c.toNat - 0x10000) % 0x400 := by
      rw [UInt16.toNat_ofNat']
      omega
    have hpair : isHigh (UInt16.ofNat (0xd800 + (c.toNat - 0x10000) / 0x400))
        && isLow (UInt16.ofNat (0xdc00 + (c.toNat - 0x10000) % 0x400)) := by
      simp only [isHigh, isLow, hu, hv, Bool.and_eq_true, decide_eq_true_eq]
      omega
    rw [List.cons_append, List.cons_append, List.nil_append, scalars,
      if_pos hpair, pairChar, hu, hv]
    rw [show 0x10000 + (0xd800 + (c.toNat - 0x10000) / 0x400 - 0xd800) * 0x400
      + (0xdc00 + (c.toNat - 0x10000) % 0x400 - 0xdc00) = c.toNat by omega, Char.ofNat_toNat]

/-- A character is one unit that is no surrogate, or a pair. -/
theorem units_cases (c : Char) :
    (∃ u, units c = [u] ∧ isHigh u = false ∧ isLow u = false) ∨
      ∃ u v, units c = [u, v] ∧ isHigh u = true ∧ isLow v = true := by
  have hscalar := toNat_scalar c
  unfold units
  split
  · left
    refine ⟨_, rfl, ?_⟩
    simp only [isHigh, isLow, UInt16.toNat_ofNat', Bool.and_eq_false_iff, decide_eq_false_iff_not]
    omega
  · right
    refine ⟨_, _, rfl, ?_⟩
    simp only [isHigh, isLow, UInt16.toNat_ofNat', Bool.and_eq_true, decide_eq_true_eq]
    omega

/-- The units of characters have no unpaired surrogate among them. -/
theorem paired_flatMap_units (cs : List Char) : paired (cs.flatMap units) = true := by
  induction cs with
  | nil => rfl
  | cons c cs ih =>
    rw [List.flatMap_cons]
    rcases units_cases c with ⟨u, hu, hhigh, hlow⟩ | ⟨u, v, huv, hhigh, hlow⟩
    · rw [hu, List.singleton_append]
      generalize cs.flatMap units = s at ih ⊢
      cases s <;> simp [paired, hhigh, hlow, ih]
    · rw [huv, List.cons_append, List.singleton_append]
      simp [paired, hhigh, hlow, ih]

theorem scalars_flatMap_units (cs : List Char) : scalars (cs.flatMap units) = cs := by
  induction cs with
  | nil => rfl
  | cons c cs ih => rw [List.flatMap_cons, scalars_units, ih]

theorem flatMap_units_injective : Function.Injective fun cs : List Char => cs.flatMap units :=
  fun cs ds h => by
    have hscalars := congrArg scalars h
    simpa only [scalars_flatMap_units] using hscalars

/-- The text of which the bytes leave the program: those of a file, of a column, of a frame. -/
def textOf (s : JsString) : String := String.ofList (scalars s)

theorem textOf_utf16 (s : String) : textOf (utf16 s) = s := by
  unfold textOf utf16
  rw [scalars_flatMap_units, String.ofList_toList]

theorem utf16_textOf {s : JsString} (h : paired s = true) : utf16 (textOf s) = s := by
  unfold textOf utf16
  rw [String.toList_ofList, units_scalars h]

/-- What comes back has no unpaired surrogate. -/
theorem paired_utf16 (s : String) : paired (utf16 s) = true := paired_flatMap_units s.toList

/-! ## Sorting by key -/

/-- The order of strings: by their code units. -/
def unitsLe : JsString → JsString → Bool
  | [], _ => true
  | _ :: _, [] => false
  | u :: s, v :: t => u < v || (u == v && unitsLe s t)

section Sorting

variable {α β : Type}

/-- As `Object.keys(obj).sort()` goes through the members. -/
def sortByKey (ms : List (JsString × α)) : List (JsString × α) :=
  ms.insertionSort fun m m' => unitsLe m.1 m'.1 = true

theorem sortByKey_perm (ms : List (JsString × α)) : (sortByKey ms).Perm ms :=
  List.perm_insertionSort _ ms

/-- Lists with the same keys in the same order are put into the same order. -/
theorem sortByKey_forall₂ {R : JsString × α → JsString × β → Prop}
    (hkey : ∀ m n, R m n → m.1 = n.1) {ms : List (JsString × α)} {ns : List (JsString × β)}
    (h : List.Forall₂ R ms ns) : List.Forall₂ R (sortByKey ms) (sortByKey ns) := by
  have hinsert : ∀ {m n} {ms : List (JsString × α)} {ns : List (JsString × β)}, R m n →
      List.Forall₂ R ms ns → List.Forall₂ R
        (ms.orderedInsert (fun m m' => unitsLe m.1 m'.1 = true) m)
        (ns.orderedInsert (fun m m' => unitsLe m.1 m'.1 = true) n) := by
    intro m n ms ns hmn h
    induction h with
    | nil => exact .cons hmn .nil
    | cons hfirst hrest ih =>
      rw [List.orderedInsert_cons, List.orderedInsert_cons, hkey _ _ hmn, hkey _ _ hfirst]
      split
      · exact .cons hmn (.cons hfirst hrest)
      · exact .cons hfirst ih
  induction h with
  | nil => exact .nil
  | cons hmn _ ih => exact hinsert hmn ih

end Sorting

/-! ## Numbers -/

/-- Numbers as the program has them. A numeral that is too large is read as an infinite number, and
    an integer that a number holds exactly is written in decimal. The two zeros are one number
    here: they are written alike, and nothing asks which one it is. -/
class JsFloat (ν : Type) extends JsNumber ν where
  isFinite : ν → Bool
  ofInt : Int → ν
  isFinite_ofInt : ∀ n : Int, n.natAbs < 2 ^ 53 → isFinite (ofInt n)
  toText_ofInt : ∀ n : Int, n.natAbs < 2 ^ 53 → toText (ofInt n) = intText n

instance : JsFloat Int where
  isFinite _ := true
  ofInt n := n
  isFinite_ofInt _ _ := rfl
  toText_ofInt _ _ := rfl

/-! ## Values -/

/-- A value of the running program. -/
inductive Live (ν : Type) where
  | undefined
  | function
  | symbol
  | bigint
  | null
  | bool (b : Bool)
  | num (n : ν)
  | nan
  | str (s : JsString)
  /-- Where an array has no item. Read, it is `undefined`. -/
  | hole
  | arr (items : List (Live ν))
  /-- An object with its own enumerable members; `plain` if its prototype is that of `{}` or
      `null`. -/
  | obj (plain : Bool) (members : List (JsString × Live ν))
  /-- A `Number`, `String`, `Boolean` or `BigInt` object around a value. -/
  | boxed (value : Live ν)
  /-- An object, array or function whose `toJSON` is a function, and what that returns. -/
  | withToJSON (base result : Live ν)

namespace Live

variable {ν : Type}

/-- What can have a `toJSON` of its own. -/
def isObject : Live ν → Bool
  | .function => true
  | .arr _ => true
  | .obj _ _ => true
  | .boxed _ => true
  | _ => false

mutual

/-- No object has a key twice, and a function under `toJSON` is a `withToJSON`. -/
def Proper : Live ν → Prop
  | .arr items => ProperItems items
  | .obj _ ms => (ms.map (·.1)).Nodup ∧ (utf16 "toJSON", .function) ∉ ms ∧ ProperMembers ms
  | .boxed v => v.Proper
  | .withToJSON base result => base.isObject ∧ base.Proper ∧ result.Proper
  | _ => True

def ProperItems : List (Live ν) → Prop
  | [] => True
  | v :: vs => v.Proper ∧ ProperItems vs

def ProperMembers : List (JsString × Live ν) → Prop
  | [] => True
  | (_, v) :: ms => v.Proper ∧ ProperMembers ms

end

mutual

/-- `JSON.stringify(value)`, before it is text: `none` if it throws, `some none` if there is nothing
    to write. `ask` is whether `toJSON` still has to be called. -/
def serialize [JsFloat ν] (ask : Bool) : Live ν → Option (Option (Json ν))
  | .undefined => some none
  | .function => some none
  | .symbol => some none
  | .hole => some none
  | .bigint => none
  | .null => some (some .null)
  | .bool b => some (some (.bool b))
  | .num n => some (some (if JsFloat.isFinite n then .num n else .null))
  | .nan => some (some .null)
  | .str s => some (some (.str s))
  | .arr items => (serializeItems items).map fun xs => some (.arr xs)
  | .obj _ members => (serializeMembers members).map fun ms => some (.obj ms)
  | .boxed v => serialize false v
  | .withToJSON base result => if ask then serialize false result else serialize false base

def serializeItems [JsFloat ν] : List (Live ν) → Option (List (Json ν))
  | [] => some []
  | v :: vs => do
    let x ← serialize true v
    let xs ← serializeItems vs
    return x.getD .null :: xs

def serializeMembers [JsFloat ν] : List (JsString × Live ν) → Option (List (JsString × Json ν))
  | [] => some []
  | (k, v) :: ms => do
    let x ← serialize true v
    let xs ← serializeMembers ms
    match x with
    | some x => return (k, x) :: xs
    | none => return xs

end

/-- `JSON.stringify(value)` -/
def stringify [JsFloat ν] (v : Live ν) : Option (Option (List Char)) :=
  (serialize true v).map fun j => j.map Json.text

mutual

/-- Some array in the value has a `toJSON` of its own. -/
def arrayToJSON : Live ν → Bool
  | .arr items => arrayToJSONItems items
  | .obj _ members => arrayToJSONMembers members
  | .boxed v => v.arrayToJSON
  | .withToJSON base _ =>
    match base with
    | .arr _ => true
    | base => base.arrayToJSON
  | _ => false

def arrayToJSONItems : List (Live ν) → Bool
  | [] => false
  | v :: vs => v.arrayToJSON || arrayToJSONItems vs

def arrayToJSONMembers : List (JsString × Live ν) → Bool
  | [] => false
  | (_, v) :: ms => v.arrayToJSON || arrayToJSONMembers ms

end

mutual

/-- What `JSON.parse` has made of a text. -/
def ofJson : Json ν → Live ν
  | .null => .null
  | .bool b => .bool b
  | .num n => .num n
  | .str s => .str s
  | .arr xs => .arr (ofItems xs)
  | .obj ms => .obj true (ofMembers ms)

def ofItems : List (Json ν) → List (Live ν)
  | [] => []
  | x :: xs => ofJson x :: ofItems xs

def ofMembers : List (JsString × Json ν) → List (JsString × Live ν)
  | [] => []
  | (k, x) :: ms => (k, ofJson x) :: ofMembers ms

end

end Live

/-! ## Values up to the order of members -/

namespace Json

variable {ν : Type}

mutual

/-- The members of every object, sorted by their keys. -/
def sortKeys : Json ν → Json ν
  | .arr xs => .arr (sortItems xs)
  | .obj ms => .obj (sortByKey (sortMembers ms))
  | .null => .null
  | .bool b => .bool b
  | .num n => .num n
  | .str s => .str s

def sortItems : List (Json ν) → List (Json ν)
  | [] => []
  | x :: xs => sortKeys x :: sortItems xs

def sortMembers : List (JsString × Json ν) → List (JsString × Json ν)
  | [] => []
  | (k, x) :: ms => (k, sortKeys x) :: sortMembers ms

end

theorem sortMembers_keys (ms : List (JsString × Json ν)) :
    (sortMembers ms).map (·.1) = ms.map (·.1) := by
  induction ms with
  | nil => rw [sortMembers]
  | cons m ms ih => rw [sortMembers, List.map_cons, List.map_cons, ih]

mutual

theorem sortKeys_distinct : ∀ j : Json ν, j.Distinct → j.sortKeys.Distinct := by
  intro j h
  match j with
  | .arr xs =>
    rw [Distinct] at h
    rw [sortKeys, Distinct]
    exact sortItems_distinct xs h
  | .obj ms =>
    rw [Distinct] at h
    have hvalues := sortMembers_distinct ms h.2
    rw [distinctMembers_iff] at hvalues
    rw [sortKeys, Distinct, distinctMembers_iff]
    constructor
    · rw [((sortByKey_perm (sortMembers ms)).map (·.1)).nodup_iff, sortMembers_keys]
      exact h.1
    · intro m hm
      exact hvalues m ((sortByKey_perm _).mem_iff.mp hm)
  | .null => simp [sortKeys, Distinct]
  | .bool b => simp [sortKeys, Distinct]
  | .num n => simp [sortKeys, Distinct]
  | .str s => simp [sortKeys, Distinct]

theorem sortItems_distinct : ∀ xs : List (Json ν), DistinctItems xs →
    DistinctItems (sortItems xs) := by
  intro xs h
  match xs with
  | [] => simp [sortItems, DistinctItems]
  | x :: xs =>
    rw [DistinctItems] at h
    rw [sortItems, DistinctItems]
    exact ⟨sortKeys_distinct x h.1, sortItems_distinct xs h.2⟩

theorem sortMembers_distinct : ∀ ms : List (JsString × Json ν), DistinctMembers ms →
    DistinctMembers (sortMembers ms) := by
  intro ms h
  match ms with
  | [] => simp [sortMembers, DistinctMembers]
  | (k, x) :: ms =>
    rw [DistinctMembers] at h
    rw [sortMembers, DistinctMembers]
    exact ⟨sortKeys_distinct x h.1, sortMembers_distinct ms h.2⟩

end

/-- A text says which value it is the text of. -/
theorem text_injective [JsNumber ν] {a b : Json ν} (ha : a.Distinct) (hb : b.Distinct)
    (h : a.text = b.text) : a = b := by
  have hread := Value.read_text ha
  rw [h, Value.read_text hb] at hread
  exact (Option.some.inj hread).symm

end Json

end Lib
end XBus
