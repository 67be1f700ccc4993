import XBus.Lib.Json
import Mathlib.Tactic.Common

/-!
# Payloads

What a frame carries is a JSON value that nobody has looked at yet. A handler that reads a
field of it gets whatever the peer put there, or nothing.

A number is an integer or is not; more the handlers do not ask of it. Objects are the ordered
lists of their own properties. Frames are taken to carry whole characters; half a surrogate pair
only comes of taking a text apart.
-/

set_option autoImplicit false

namespace XBus

open Lib

/-- A JSON value, as parsed. -/
inductive JsonValue
  | null
  | bool (value : Bool)
  | int (value : Int)
  | fraction (text : String)
  | str (value : String)
  /-- The text that is half of a surrogate pair. -/
  | half (unit : UInt16)
  | arr (items : List JsonValue)
  | obj (members : List (String × JsonValue))
deriving Repr

namespace JsonValue

/-! ## Equality is decidable -/

mutual

def beq : JsonValue → JsonValue → Bool
  | .null, .null => true
  | .bool a, .bool b => a == b
  | .int a, .int b => a == b
  | .fraction a, .fraction b => a == b
  | .str a, .str b => a == b
  | .half a, .half b => a == b
  | .arr a, .arr b => beqItems a b
  | .obj a, .obj b => beqMembers a b
  | _, _ => false

def beqItems : List JsonValue → List JsonValue → Bool
  | [], [] => true
  | a :: as, b :: bs => a.beq b && beqItems as bs
  | _, _ => false

def beqMembers : List (String × JsonValue) → List (String × JsonValue) → Bool
  | [], [] => true
  | (k, a) :: as, (l, b) :: bs => k == l && a.beq b && beqMembers as bs
  | _, _ => false

end

mutual

theorem beq_refl : ∀ a : JsonValue, a.beq a = true
  | .null => rfl
  | .bool _ | .int _ | .fraction _ | .str _ | .half _ => by simp [beq]
  | .arr items => by simpa [beq] using beqItems_refl items
  | .obj members => by simpa [beq] using beqMembers_refl members

theorem beqItems_refl : ∀ as : List JsonValue, beqItems as as = true
  | [] => rfl
  | a :: as => by simp [beqItems, beq_refl a, beqItems_refl as]

theorem beqMembers_refl : ∀ as : List (String × JsonValue), beqMembers as as = true
  | [] => rfl
  | (k, a) :: as => by simp [beqMembers, beq_refl a, beqMembers_refl as]

end

mutual

theorem eq_of_beq : ∀ {a b : JsonValue}, a.beq b = true → a = b
  | .null, b, h => by cases b <;> simp_all [beq]
  | .bool _, b, h => by cases b <;> simp_all [beq]
  | .int _, b, h => by cases b <;> simp_all [beq]
  | .fraction _, b, h => by cases b <;> simp_all [beq]
  | .str _, b, h => by cases b <;> simp_all [beq]
  | .half _, b, h => by cases b <;> simp_all [beq]
  | .arr as, b, h => by
    cases b with
    | arr bs =>
      have hitems : beqItems as bs = true := by simpa [beq] using h
      rw [eq_of_beqItems hitems]
    | _ => simp [beq] at h
  | .obj as, b, h => by
    cases b with
    | obj bs =>
      have hmembers : beqMembers as bs = true := by simpa [beq] using h
      rw [eq_of_beqMembers hmembers]
    | _ => simp [beq] at h

theorem eq_of_beqItems : ∀ {as bs : List JsonValue}, beqItems as bs = true → as = bs
  | [], bs, h => by cases bs <;> simp_all [beqItems]
  | a :: as, bs, h => by
    cases bs with
    | nil => simp [beqItems] at h
    | cons b bs =>
      simp only [beqItems, Bool.and_eq_true] at h
      rw [eq_of_beq h.1, eq_of_beqItems h.2]

theorem eq_of_beqMembers :
    ∀ {as bs : List (String × JsonValue)}, beqMembers as bs = true → as = bs
  | [], bs, h => by cases bs <;> simp_all [beqMembers]
  | (k, a) :: as, bs, h => by
    cases bs with
    | nil => simp [beqMembers] at h
    | cons b bs =>
      obtain ⟨l, b⟩ := b
      simp only [beqMembers, Bool.and_eq_true, beq_iff_eq] at h
      rw [h.1.1, eq_of_beq h.1.2, eq_of_beqMembers h.2]

end

instance : DecidableEq JsonValue := fun a b =>
  decidable_of_iff (a.beq b = true) ⟨eq_of_beq, fun h => h ▸ beq_refl a⟩

/-! ## Reading -/

/-- `payload.key`, for a payload that is whatever it is: `none` is `undefined`. -/
def field? (payload : JsonValue) (key : String) : Option JsonValue :=
  match payload with
  | .obj members => (members.find? fun m => m.1 = key).map Prod.snd
  | _ => none

/-- Does the value count as true in a condition? -/
def truthy : JsonValue → Bool
  | .null => false
  | .bool b => b
  | .int n => n ≠ 0
  | .str s => s ≠ ""
  | .fraction _ | .half _ | .arr _ | .obj _ => true

/-- The text of one code unit. -/
def ofUnit (u : UInt16) : JsonValue :=
  if isHigh u || isLow u then .half u else .str (Char.ofNat u.toNat).toString

/-- The properties `{ ...value }` copies; those of a text are its code units. -/
def spread : JsonValue → List (String × JsonValue)
  | .obj members => members
  | .arr items => items.zipIdx.map fun e => (toString e.2, e.1)
  | .str s => (utf16 s).zipIdx.map fun e => (toString e.2, ofUnit e.1)
  | .half u => [(toString 0, .half u)]
  | _ => []

end JsonValue

end XBus
