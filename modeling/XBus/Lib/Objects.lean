import XBus.Lib.Live
import Mathlib.Data.List.Nodup

/-!
# `Lib/Objects.lean` — JSON values as a program handles them

A program reads a property, spreads an object into another, assigns and deletes members, and runs
over an array with a function that may throw. Members keep the order they stand in; `lookup?` reads,
`setMember` assigns, `without` deletes, and the lemmas here say what one of them sees of another.

A value that was read is not always a value that can be written: of a number that is infinite
`null` is written. `written` is what a value becomes that way, and `Finite` are the values that it
leaves as they are.
-/

set_option autoImplicit false

namespace XBus
namespace Lib
namespace Json

variable {ν : Type}

abbrev Members (ν : Type) := List (JsString × Json ν)

/-! ## Equality is decidable -/

section Equality

variable [DecidableEq ν]

mutual

def beq : Json ν → Json ν → Bool
  | .null, .null => true
  | .bool a, .bool b => a == b
  | .num a, .num b => a == b
  | .str a, .str b => a == b
  | .arr a, .arr b => beqItems a b
  | .obj a, .obj b => beqMembers a b
  | _, _ => false

def beqItems : List (Json ν) → List (Json ν) → Bool
  | [], [] => true
  | a :: as, b :: bs => a.beq b && beqItems as bs
  | _, _ => false

def beqMembers : Members ν → Members ν → Bool
  | [], [] => true
  | (k, a) :: as, (l, b) :: bs => k == l && a.beq b && beqMembers as bs
  | _, _ => false

end

mutual

theorem beq_refl : ∀ a : Json ν, a.beq a = true
  | .null => rfl
  | .bool _ | .num _ | .str _ => by simp [beq]
  | .arr items => by simpa [beq] using beqItems_refl items
  | .obj members => by simpa [beq] using beqMembers_refl members

theorem beqItems_refl : ∀ as : List (Json ν), beqItems as as = true
  | [] => rfl
  | a :: as => by simp [beqItems, beq_refl a, beqItems_refl as]

theorem beqMembers_refl : ∀ as : Members ν, beqMembers as as = true
  | [] => rfl
  | (k, a) :: as => by simp [beqMembers, beq_refl a, beqMembers_refl as]

end

mutual

theorem eq_of_beq : ∀ {a b : Json ν}, a.beq b = true → a = b
  | .null, b, h => by cases b <;> simp_all [beq]
  | .bool _, b, h => by cases b <;> simp_all [beq]
  | .num _, b, h => by cases b <;> simp_all [beq]
  | .str _, b, h => by cases b <;> simp_all [beq]
  | .arr as, b, h => by
    cases b with
    | arr bs =>
      have hitems : beqItems as bs = true := by simpa [beq] using h
      rw [eq_of_beqItems hitems]
    | _ => simp [beq] at h
  | .obj as, b, h => by
    cases b with
    | obj bs =>
      have hmembers : beqMembers as bs = true := by simpa [beq] using h
      rw [eq_of_beqMembers hmembers]
    | _ => simp [beq] at h

theorem eq_of_beqItems : ∀ {as bs : List (Json ν)}, beqItems as bs = true → as = bs
  | [], bs, h => by cases bs <;> simp_all [beqItems]
  | a :: as, bs, h => by
    cases bs with
    | nil => simp [beqItems] at h
    | cons b bs =>
      simp only [beqItems, Bool.and_eq_true] at h
      rw [eq_of_beq h.1, eq_of_beqItems h.2]

theorem eq_of_beqMembers : ∀ {as bs : Members ν}, beqMembers as bs = true → as = bs
  | [], bs, h => by cases bs <;> simp_all [beqMembers]
  | (k, a) :: as, bs, h => by
    cases bs with
    | nil => simp [beqMembers] at h
    | cons b bs =>
      obtain ⟨l, b⟩ := b
      simp only [beqMembers, Bool.and_eq_true, beq_iff_eq] at h
      rw [h.1.1, eq_of_beq h.1.2, eq_of_beqMembers h.2]

end

instance instDecidableEqJson : DecidableEq (Json ν) := fun a b =>
  decidable_of_iff (a.beq b = true) ⟨eq_of_beq, fun h => h ▸ beq_refl a⟩

end Equality

/-! ## Members by name -/

def lookup? (ms : Members ν) (k : JsString) : Option (Json ν) :=
  (ms.find? fun m => m.1 = k).map (·.2)

def without (ms : Members ν) (k : JsString) : Members ν := ms.filter fun m => m.1 ≠ k

/-- `v.k`, for a name that only an object can have. -/
def member? : Json ν → JsString → Option (Json ν)
  | .obj ms, k => lookup? ms k
  | _, _ => none

/-- The name of the `n`-th element of an array. -/
def indexKey (n : Nat) : JsString := (Nat.toDigits 10 n).map fun c => UInt16.ofNat c.toNat

def indexed (vs : List (Json ν)) : Members ν := vs.zipIdx.map fun v => (indexKey v.2, v.1)

/-- What `{ ...v }` takes over, and what `Object.entries(v)` lists. -/
def ownMembers : Json ν → Members ν
  | .obj ms => ms
  | .arr xs => indexed xs
  | .str s => indexed (s.map fun u => .str [u])
  | _ => []

@[simp] theorem ownMembers_obj (ms : Members ν) : (obj ms).ownMembers = ms := rfl

/-- An assignment `o[k] = v` of an object value: under this one name it sets the prototype instead,
    and no member comes of it. -/
def assign (ms : Members ν) (k : JsString) (v : Json ν) : Members ν :=
  if k = utf16 "__proto__" then ms else setMember ms k v

/-- `v ?? other` -/
def orElse (v : Option (Json ν)) (other : Json ν) : Json ν :=
  match v with
  | none => other
  | some .null => other
  | some v => v

/-- `v === s` -/
def isString (v : Option (Json ν)) (s : JsString) : Bool :=
  match v with
  | some (.str t) => t = s
  | _ => false

/-- Whether a value that is there counts as true. -/
def truthy [JsNumber ν] [DecidableEq ν] : Json ν → Bool
  | .null => false
  | .bool b => b
  | .num n => n ≠ JsNumber.ofText ['0']
  | .str s => s ≠ []
  | .arr _ => true
  | .obj _ => true

/-! ## What one access sees of another -/

section Access

variable {ms : Members ν} {k k' : JsString} {v w : Json ν}

theorem lookup_eq_none : lookup? ms k = none ↔ k ∉ ms.map (·.1) := by
  simp only [lookup?, Option.map_eq_none_iff, List.find?_eq_none, decide_eq_true_eq,
    List.mem_map, not_exists, not_and]

theorem lookup_mem (h : lookup? ms k = some v) : (k, v) ∈ ms := by
  obtain ⟨m, hfind, rfl⟩ := Option.map_eq_some_iff.mp h
  have hkey : m.1 = k := by simpa using List.find?_some hfind
  rw [← hkey]
  exact List.mem_of_find?_eq_some hfind

theorem lookup_cons (m : JsString × Json ν) (ms : Members ν) (k : JsString) :
    lookup? (m :: ms) k = if m.1 = k then some m.2 else lookup? ms k := by
  unfold lookup?
  rw [List.find?_cons]
  by_cases hk : m.1 = k <;> simp [hk]

theorem lookup_of_mem (hms : (ms.map (·.1)).Nodup) (h : (k, v) ∈ ms) : lookup? ms k = some v := by
  induction ms with
  | nil => cases h
  | cons m ms ih =>
    rw [List.map_cons, List.nodup_cons] at hms
    rw [lookup_cons]
    rcases List.mem_cons.mp h with rfl | hmem
    · rw [if_pos rfl]
    · have hkey : k ∈ ms.map (·.1) := List.mem_map_of_mem hmem
      have hne : m.1 ≠ k := by
        rintro rfl
        exact hms.1 hkey
      rw [if_neg hne, ih hms.2 hmem]

/-- Where the name is not, there is nothing to replace. -/
theorem map_replace_fresh (h : k ∉ ms.map (·.1)) (v : Json ν) :
    (ms.map fun m => if m.1 = k then (k, v) else m) = ms := by
  conv_rhs => rw [← List.map_id ms]
  apply List.map_congr_left
  intro m hm
  rw [if_neg, id]
  rintro rfl
  exact h (List.mem_map_of_mem hm)

theorem setMember_fresh (h : k ∉ ms.map (·.1)) (v : Json ν) :
    setMember ms k v = ms ++ [(k, v)] := by
  rw [setMember, if_neg h]

theorem lookup_append_single (h : k ∉ ms.map (·.1)) :
    lookup? (ms ++ [(k, v)]) k' = if k' = k then some v else lookup? ms k' := by
  induction ms with
  | nil =>
    rw [List.nil_append, lookup_cons]
    simp only [eq_comm]
  | cons m ms ih =>
    rw [List.map_cons, List.mem_cons, not_or] at h
    rw [List.cons_append, lookup_cons, lookup_cons, ih h.2]
    by_cases hm : m.1 = k'
    · have hne : k' ≠ k := fun hk => h.1 (hk.symm.trans hm.symm)
      simp [hm, hne]
    · simp [hm]

theorem lookup_setMember (ms : Members ν) (k k' : JsString) (v : Json ν) :
    lookup? (setMember ms k v) k' = if k' = k then some v else lookup? ms k' := by
  by_cases hk : k ∈ ms.map (·.1)
  · rw [setMember, if_pos hk]
    induction ms with
    | nil => cases hk
    | cons m ms ih =>
      rw [List.map_cons, lookup_cons, lookup_cons]
      by_cases hm : m.1 = k
      · by_cases hk' : k' = k
        · subst hk'
          simp [hm]
        · have hrest : lookup? (ms.map fun m => if m.1 = k then (k, v) else m) k'
              = lookup? ms k' := by
            by_cases hmem : k ∈ ms.map (·.1)
            · rw [ih hmem, if_neg hk']
            · rw [map_replace_fresh hmem]
          have hne : k ≠ k' := fun h => hk' h.symm
          simp [hm, hk', hne, hrest]
      · have hmem : k ∈ ms.map (·.1) := by
          rcases List.mem_cons.mp hk with h | h
          · exact absurd h.symm hm
          · exact h
        rw [if_neg hm, ih hmem]
        by_cases hk' : k' = k
        · subst hk'
          simp [hm]
        · simp [hk']
  · rw [setMember_fresh hk, lookup_append_single hk]

theorem lookup_setMember_self : lookup? (setMember ms k v) k = some v := by
  rw [lookup_setMember, if_pos rfl]

theorem lookup_setMember_ne (h : k' ≠ k) : lookup? (setMember ms k v) k' = lookup? ms k' := by
  rw [lookup_setMember, if_neg h]

/-- Only the member itself is another one after an assignment. -/
theorem mem_setMember_ne {m : JsString × Json ν} (hm : m ∈ ms) (h : m.1 ≠ k) :
    m ∈ setMember ms k v := by
  unfold setMember
  split
  · exact List.mem_map.mpr ⟨m, hm, if_neg h⟩
  · exact List.mem_append_left _ hm

/-- Assigning what is there changes nothing. -/
theorem setMember_same (hms : (ms.map (·.1)).Nodup) (h : lookup? ms k = some v) :
    setMember ms k v = ms := by
  have hmem := lookup_mem h
  have hkey : k ∈ ms.map (·.1) := List.mem_map_of_mem hmem
  rw [setMember, if_pos hkey]
  conv_rhs => rw [← List.map_id ms]
  apply List.map_congr_left
  intro m hm
  by_cases hk : m.1 = k
  · rw [if_pos hk, id]
    have hval := lookup_of_mem hms (k := m.1) (v := m.2) hm
    rw [hk, h] at hval
    rw [← hk, Option.some.inj hval]
  · rw [if_neg hk, id]

/-- The later assignment is the one that counts. -/
theorem setMember_setMember (ms : Members ν) (k : JsString) (v w : Json ν) :
    setMember (setMember ms k v) k w = setMember ms k w := by
  have hreplace : ∀ ms : Members ν, (ms.map fun m => if m.1 = k then (k, v) else m).map
      (fun m => if m.1 = k then (k, w) else m) = ms.map fun m => if m.1 = k then (k, w) else m := by
    intro ms
    rw [List.map_map]
    apply List.map_congr_left
    intro m _
    by_cases hm : m.1 = k <;> simp [hm]
  by_cases hk : k ∈ ms.map (·.1)
  · have hkeys : (ms.map fun m => if m.1 = k then (k, v) else m).map (·.1) = ms.map (·.1) := by
      rw [List.map_map]
      apply List.map_congr_left
      intro m _
      by_cases hm : m.1 = k <;> simp [hm]
    rw [setMember, setMember, if_pos hk, if_pos (by rw [hkeys]; exact hk), setMember, if_pos hk,
      hreplace]
  · rw [setMember_fresh hk, setMember_fresh hk, setMember, if_pos (by simp), List.map_append]
    rw [map_replace_fresh hk]
    simp

/-- An assignment is not seen by a pass that makes of the new value what it made of the old one. -/
theorem filterMap_setMember {β : Type} {f : JsString × Json ν → Option β}
    (hms : (ms.map (·.1)).Nodup) (hold : ∀ w, lookup? ms k = some w → f (k, v) = f (k, w))
    (hnew : lookup? ms k = none → f (k, v) = none) :
    (setMember ms k v).filterMap f = ms.filterMap f := by
  by_cases hk : k ∈ ms.map (·.1)
  · rw [setMember, if_pos hk, List.filterMap_map]
    apply List.filterMap_congr
    intro m hm
    simp only [Function.comp]
    by_cases hkey : m.1 = k
    · have hlook := lookup_of_mem hms (k := m.1) (v := m.2) hm
      rw [if_pos hkey, hold m.2 (hkey ▸ hlook), ← hkey]
    · rw [if_neg hkey]
  · rw [setMember_fresh hk, List.filterMap_append]
    simp [hnew (lookup_eq_none.mpr hk)]

theorem without_fresh (h : k ∉ ms.map (·.1)) : without ms k = ms := by
  apply List.filter_eq_self.mpr
  intro m hm
  simp only [decide_eq_true_eq]
  rintro rfl
  exact h (List.mem_map_of_mem hm)

theorem without_setMember (ms : Members ν) (k : JsString) (v : Json ν) :
    without (setMember ms k v) k = without ms k := by
  have hreplace : ∀ ms : Members ν,
      without (ms.map fun m => if m.1 = k then (k, v) else m) k = without ms k := by
    intro ms
    induction ms with
    | nil => rfl
    | cons m ms ih =>
      simp only [without] at ih ⊢
      rw [List.map_cons, List.filter_cons, List.filter_cons, ih]
      by_cases hm : m.1 = k <;> simp [hm]
  unfold setMember
  split
  · exact hreplace ms
  · simp [without]

theorem lookup_without (ms : Members ν) (k : JsString) : lookup? (without ms k) k = none := by
  rw [lookup_eq_none]
  simp [without]

theorem without_keys (h : (ms.map (·.1)).Nodup) : ((without ms k).map (·.1)).Nodup :=
  h.sublist (List.filter_sublist.map _)

theorem without_values (h : DistinctMembers ms) : DistinctMembers (without ms k) := by
  rw [distinctMembers_iff] at h ⊢
  intro m hm
  exact h m (List.mem_filter.mp hm).1

theorem distinct_obj (hkeys : (ms.map (·.1)).Nodup) (hvalues : DistinctMembers ms) :
    (obj ms).Distinct := by
  rw [Distinct]
  exact ⟨hkeys, hvalues⟩

theorem distinctItems_iff {xs : List (Json ν)} : DistinctItems xs ↔ ∀ x ∈ xs, x.Distinct := by
  induction xs with
  | nil => simp [DistinctItems]
  | cons x xs ih => rw [DistinctItems, ih, List.forall_mem_cons]

end Access

/-! ## Properties that the parts of a value share -/

theorem indexKey_inj {m n : Nat} (h : indexKey m = indexKey n) : m = n := by
  have hback : ∀ n, (indexKey n).map (fun u => Char.ofNat u.toNat) = Nat.toDigits 10 n := by
    intro n
    rw [indexKey, List.map_map]
    conv_rhs => rw [← List.map_id (Nat.toDigits 10 n)]
    apply List.map_congr_left
    intro c hc
    have hdigit : c.isDigit := Nat.isDigit_of_mem_toDigits (by decide) (by decide) hc
    have hlt : c.toNat < 65536 := by
      simp only [Char.isDigit, Bool.and_eq_true, decide_eq_true_eq] at hdigit
      have hval := UInt32.le_iff_toNat_le.mp hdigit.2
      have hdef : c.val.toNat = c.toNat := rfl
      have hnine : ('9' : Char).val.toNat = 57 := rfl
      omega
    simp only [Function.comp, UInt16.toNat_ofNat', Nat.mod_eq_of_lt (b := 2 ^ 16) hlt,
      Char.ofNat_toNat, id]
  have hdigits : Nat.toDigits 10 m = Nat.toDigits 10 n := by rw [← hback, ← hback, h]
  have hm : Nat.ofDigitChars 10 (Nat.toDigits 10 m) 0 = m := Nat.ofDigitChars_ten_toDigits
  have hn : Nat.ofDigitChars 10 (Nat.toDigits 10 n) 0 = n := Nat.ofDigitChars_ten_toDigits
  rw [← hm, ← hn, hdigits]

theorem indexed_keys (vs : List (Json ν)) : ((indexed vs).map (·.1)).Nodup := by
  have hkeys : (indexed vs).map (·.1) = (List.range' 0 vs.length).map indexKey := by
    rw [indexed, List.map_map, ← List.zipIdx_map_snd 0 vs, List.map_map]
    rfl
  rw [hkeys]
  exact List.Nodup.map (fun _ _ => indexKey_inj) List.nodup_range'

/-- An array has the property when its items have it. An object gives it to the values of its
    members, and gets it from them when no name is there twice; assigning and deleting keep it. -/
structure Hereditary (P : Json ν → Prop) : Prop where
  str : ∀ s, P (.str s)
  arr : ∀ {xs}, P (.arr xs) ↔ ∀ x ∈ xs, P x
  values : ∀ {ms}, P (.obj ms) → ∀ m ∈ ms, P m.2
  obj : ∀ {ms : Members ν}, (ms.map (·.1)).Nodup → (∀ m ∈ ms, P m.2) → P (.obj ms)
  set : ∀ {ms v} (k), P (.obj ms) → P v → P (.obj (setMember ms k v))
  without : ∀ {ms} (k), P (.obj ms) → P (.obj (without ms k))

namespace Hereditary

variable {P : Json ν → Prop}

theorem empty (hP : Hereditary P) : P (.obj []) :=
  hP.obj List.nodup_nil fun _ hm => absurd hm List.not_mem_nil

theorem member (hP : Hereditary P) {v w : Json ν} {k : JsString} (h : P v)
    (hw : v.member? k = some w) : P w := by
  cases v with
  | obj ms => exact hP.values h _ (lookup_mem hw)
  | _ => cases hw

theorem indexed (hP : Hereditary P) {vs : List (Json ν)} (h : ∀ v ∈ vs, P v) :
    P (.obj (indexed vs)) := by
  refine hP.obj (indexed_keys vs) fun m hm => ?_
  obtain ⟨v, hv, rfl⟩ := List.mem_map.mp hm
  exact h v.1 (List.fst_mem_of_mem_zipIdx hv)

theorem ownMembers (hP : Hereditary P) {v : Json ν} (h : P v) : P (.obj v.ownMembers) := by
  cases v with
  | obj ms => exact h
  | arr xs => exact hP.indexed (hP.arr.mp h)
  | str s =>
    apply hP.indexed
    intro v hv
    obtain ⟨u, -, rfl⟩ := List.mem_map.mp hv
    exact hP.str [u]
  | null => exact hP.empty
  | bool b => exact hP.empty
  | num n => exact hP.empty

theorem orElse (hP : Hereditary P) {v : Option (Json ν)} (h : ∀ x, v = some x → P x) :
    P (orElse v (.obj [])) := by
  cases v with
  | none => exact hP.empty
  | some x => cases x with
    | null => exact hP.empty
    | _ => exact h _ rfl

/-- `{ ...(v.k ?? {}) }` -/
theorem table (hP : Hereditary P) {v : Json ν} (h : P v) (k : JsString) :
    P (.obj (Json.orElse (v.member? k) (.obj [])).ownMembers) :=
  hP.ownMembers (hP.orElse fun _ hx => hP.member h hx)

end Hereditary

theorem hereditary_distinct : Hereditary (Distinct : Json ν → Prop) where
  str s := by simp [Distinct]
  arr := by
    intro xs
    rw [Distinct, distinctItems_iff]
  values := by
    intro ms h
    rw [Distinct, distinctMembers_iff] at h
    exact h.2
  obj hkeys hvalues := distinct_obj hkeys (distinctMembers_iff.mpr hvalues)
  set := by
    intro ms v k h hv
    rw [Distinct] at h
    exact distinct_obj (setMember_keys h.1) (setMember_values h.2 hv)
  without := by
    intro ms k h
    rw [Distinct] at h
    exact distinct_obj (without_keys h.1) (without_values h.2)

/-! ## What is written of a value -/

mutual

/-- What `JSON.stringify` writes of a value that `JSON.parse` has made. -/
def written [JsFloat ν] : Json ν → Json ν
  | .arr xs => .arr (writtenItems xs)
  | .obj ms => .obj (writtenMembers ms)
  | .num n => if JsFloat.isFinite n then .num n else .null
  | .null => .null
  | .bool b => .bool b
  | .str s => .str s

def writtenItems [JsFloat ν] : List (Json ν) → List (Json ν)
  | [] => []
  | x :: xs => x.written :: writtenItems xs

def writtenMembers [JsFloat ν] : Members ν → Members ν
  | [] => []
  | (k, x) :: ms => (k, x.written) :: writtenMembers ms

end

mutual

/-- No number in the value is infinite. -/
def Finite [JsFloat ν] : Json ν → Prop
  | .arr xs => FiniteItems xs
  | .obj ms => FiniteMembers ms
  | .num n => JsFloat.isFinite n = true
  | _ => True

def FiniteItems [JsFloat ν] : List (Json ν) → Prop
  | [] => True
  | x :: xs => x.Finite ∧ FiniteItems xs

def FiniteMembers [JsFloat ν] : Members ν → Prop
  | [] => True
  | (_, x) :: ms => x.Finite ∧ FiniteMembers ms

end

section Written

variable [JsFloat ν]

theorem writtenItems_eq (xs : List (Json ν)) : writtenItems xs = xs.map written := by
  induction xs with
  | nil => rw [writtenItems, List.map_nil]
  | cons x xs ih => rw [writtenItems, List.map_cons, ih]

theorem writtenMembers_eq (ms : Members ν) :
    writtenMembers ms = ms.map fun m => (m.1, m.2.written) := by
  induction ms with
  | nil => rw [writtenMembers, List.map_nil]
  | cons m ms ih => rw [writtenMembers, List.map_cons, ih]

@[simp] theorem written_arr (xs : List (Json ν)) : (arr xs).written = arr (xs.map written) := by
  rw [written, writtenItems_eq]

@[simp] theorem written_obj (ms : Members ν) :
    (obj ms).written = obj (ms.map fun m => (m.1, m.2.written)) := by
  rw [written, writtenMembers_eq]

@[simp] theorem written_str (s : JsString) : (str s : Json ν).written = str s := by
  rw [written]

theorem written_num (n : ν) :
    (num n : Json ν).written = num n ∨ (num n : Json ν).written = null := by
  rw [written]
  split
  · exact .inl rfl
  · exact .inr rfl

theorem finite_arr {xs : List (Json ν)} : (arr xs).Finite ↔ ∀ x ∈ xs, x.Finite := by
  rw [Finite]
  induction xs with
  | nil => simp [FiniteItems]
  | cons x xs ih => rw [FiniteItems, ih, List.forall_mem_cons]

theorem finite_obj {ms : Members ν} : (obj ms).Finite ↔ ∀ m ∈ ms, m.2.Finite := by
  rw [Finite]
  induction ms with
  | nil => simp [FiniteMembers]
  | cons m ms ih => rw [FiniteMembers, ih, List.forall_mem_cons]

theorem finite_str (s : JsString) : (str s : Json ν).Finite := by simp [Finite]

mutual

/-- What is written of a value can be written. -/
theorem finite_written : ∀ v : Json ν, v.written.Finite := by
  intro v
  match v with
  | .arr xs =>
    rw [written, Finite]
    exact finite_writtenItems xs
  | .obj ms =>
    rw [written, Finite]
    exact finite_writtenMembers ms
  | .num n =>
    rw [written]
    split
    · rename_i hn
      rwa [Finite]
    · simp [Finite]
  | .null => simp [written, Finite]
  | .bool b => simp [written, Finite]
  | .str s => simp [written, Finite]

theorem finite_writtenItems : ∀ xs : List (Json ν), FiniteItems (writtenItems xs) := by
  intro xs
  match xs with
  | [] => simp [writtenItems, FiniteItems]
  | x :: xs =>
    rw [writtenItems, FiniteItems]
    exact ⟨finite_written x, finite_writtenItems xs⟩

theorem finite_writtenMembers : ∀ ms : Members ν, FiniteMembers (writtenMembers ms) := by
  intro ms
  match ms with
  | [] => simp [writtenMembers, FiniteMembers]
  | (k, x) :: ms =>
    rw [writtenMembers, FiniteMembers]
    exact ⟨finite_written x, finite_writtenMembers ms⟩

end

mutual

/-- A value without infinite numbers is written as it is. -/
theorem written_eq : ∀ v : Json ν, v.Finite → v.written = v := by
  intro v h
  match v with
  | .arr xs =>
    rw [Finite] at h
    rw [written, writtenItems_same xs h]
  | .obj ms =>
    rw [Finite] at h
    rw [written, writtenMembers_same ms h]
  | .num n =>
    rw [Finite] at h
    rw [written, if_pos h]
  | .null => rw [written]
  | .bool b => rw [written]
  | .str s => rw [written]

theorem writtenItems_same : ∀ xs : List (Json ν), FiniteItems xs → writtenItems xs = xs := by
  intro xs h
  match xs with
  | [] => rw [writtenItems]
  | x :: xs =>
    rw [FiniteItems] at h
    rw [writtenItems, written_eq x h.1, writtenItems_same xs h.2]

theorem writtenMembers_same : ∀ ms : Members ν, FiniteMembers ms → writtenMembers ms = ms := by
  intro ms h
  match ms with
  | [] => rw [writtenMembers]
  | (k, x) :: ms =>
    rw [FiniteMembers] at h
    rw [writtenMembers, written_eq x h.1, writtenMembers_same ms h.2]

end

theorem written_eq_iff {v : Json ν} : v.written = v ↔ v.Finite :=
  ⟨fun h => h ▸ finite_written v, written_eq v⟩

mutual

theorem distinct_written : ∀ v : Json ν, v.Distinct → v.written.Distinct := by
  intro v h
  match v with
  | .arr xs =>
    rw [Distinct] at h
    rw [written, Distinct]
    exact distinct_writtenItems xs h
  | .obj ms =>
    rw [Distinct] at h
    rw [written, Distinct, writtenMembers_eq, List.map_map]
    exact ⟨h.1, writtenMembers_eq ms ▸ distinct_writtenMembers ms h.2⟩
  | .num n =>
    rw [written]
    split <;> simp [Distinct]
  | .null => simp [written, Distinct]
  | .bool b => simp [written, Distinct]
  | .str s => simp [written, Distinct]

theorem distinct_writtenItems : ∀ xs : List (Json ν), DistinctItems xs →
    DistinctItems (writtenItems xs) := by
  intro xs h
  match xs with
  | [] => simp [writtenItems, DistinctItems]
  | x :: xs =>
    rw [DistinctItems] at h
    rw [writtenItems, DistinctItems]
    exact ⟨distinct_written x h.1, distinct_writtenItems xs h.2⟩

theorem distinct_writtenMembers : ∀ ms : Members ν, DistinctMembers ms →
    DistinctMembers (writtenMembers ms) := by
  intro ms h
  match ms with
  | [] => simp [writtenMembers, DistinctMembers]
  | (k, x) :: ms =>
    rw [DistinctMembers] at h
    rw [writtenMembers, DistinctMembers]
    exact ⟨distinct_written x h.1, distinct_writtenMembers ms h.2⟩

end

/-! Names are written as they are, and each with what is written of its value. -/

theorem lookup_written (ms : Members ν) (k : JsString) :
    lookup? (ms.map fun m => (m.1, m.2.written)) k = (lookup? ms k).map written := by
  induction ms with
  | nil => rfl
  | cons m ms ih =>
    rw [List.map_cons, lookup_cons, lookup_cons, ih]
    split <;> rfl

theorem member_written (v : Json ν) (k : JsString) :
    v.written.member? k = (v.member? k).map written := by
  cases v with
  | obj ms => rw [written_obj, member?, member?, lookup_written]
  | arr xs => rw [written_arr]; rfl
  | num n => rcases written_num n with h | h <;> rw [h] <;> rfl
  | null => rw [written]; rfl
  | bool b => rw [written]; rfl
  | str s => rw [written]; rfl

theorem isString_written (v : Option (Json ν)) (s : JsString) :
    isString (v.map written) s = isString v s := by
  cases v with
  | none => rfl
  | some v =>
    rw [Option.map_some]
    cases v with
    | num n => rcases written_num n with h | h <;> simp [h, isString]
    | arr xs => rw [written]; rfl
    | obj ms => rw [written]; rfl
    | _ => rw [written]

/-- A member that stands in an object stands in what is written of it if it can be written. -/
theorem mem_written_iff {ms : Members ν} (hms : (ms.map (·.1)).Nodup) {m : JsString × Json ν}
    (hm : m ∈ ms) : m ∈ ms.map (fun m => (m.1, m.2.written)) ↔ m.2.Finite := by
  have hlook := lookup_of_mem hms (k := m.1) (v := m.2) hm
  have hkeys : ((ms.map fun m => (m.1, m.2.written)).map (·.1)).Nodup := by
    rwa [List.map_map]
  constructor
  · intro hmem
    have hlook' := lookup_of_mem hkeys (k := m.1) (v := m.2) hmem
    rw [lookup_written, hlook, Option.map_some, Option.some.injEq] at hlook'
    exact written_eq_iff.mp hlook'
  · intro hfin
    refine List.mem_map.mpr ⟨m, hm, ?_⟩
    rw [written_eq _ hfin]

/-- What is written of a list stands in its order for the list itself only if all can be written. -/
theorem sublist_written_iff {xs : List (Json ν)} :
    xs.Sublist (xs.map written) ↔ ∀ x ∈ xs, x.Finite := by
  constructor
  · intro hsub
    have hsame : xs = xs.map written := hsub.eq_of_length (List.length_map _).symm
    intro x hx
    rw [hsame] at hx
    obtain ⟨y, -, rfl⟩ := List.mem_map.mp hx
    exact finite_written y
  · intro hfin
    have hsame : xs.map written = xs := by
      conv_rhs => rw [← List.map_id xs]
      exact List.map_congr_left fun x hx => written_eq x (hfin x hx)
    rw [hsame]

theorem hereditary_finite : Hereditary (Finite : Json ν → Prop) where
  str := finite_str
  arr := finite_arr
  values h := finite_obj.mp h
  obj _ hvalues := finite_obj.mpr hvalues
  set := by
    intro ms v k h hv
    rw [finite_obj] at h ⊢
    intro m hm
    unfold setMember at hm
    split at hm
    · obtain ⟨m', hm', rfl⟩ := List.mem_map.mp hm
      split
      · exact hv
      · exact h m' hm'
    · rcases List.mem_append.mp hm with hm | hm
      · exact h m hm
      · rw [List.mem_singleton.mp hm]
        exact hv
  without := by
    intro ms k h
    rw [finite_obj] at h ⊢
    exact fun m hm => h m (List.mem_filter.mp hm).1

mutual

/-- A value that was read is written as `serialize` has it of any value of the program. -/
theorem serialize_ofJson : ∀ v :
    Json ν, Live.serialize true (Live.ofJson v) = some (some v.written) := by
  intro v
  match v with
  | .arr xs =>
    rw [Live.ofJson, Live.serialize, serializeItems_ofItems xs, written]
    rfl
  | .obj ms =>
    rw [Live.ofJson, Live.serialize, serializeMembers_ofMembers ms, written]
    rfl
  | .num n => rw [Live.ofJson, Live.serialize, written]
  | .null => rw [Live.ofJson, Live.serialize, written]
  | .bool b => rw [Live.ofJson, Live.serialize, written]
  | .str s => rw [Live.ofJson, Live.serialize, written]

theorem serializeItems_ofItems : ∀ xs : List (Json ν),
    Live.serializeItems (Live.ofItems xs) = some (writtenItems xs) := by
  intro xs
  match xs with
  | [] => rw [Live.ofItems, Live.serializeItems, writtenItems]
  | x :: xs =>
    rw [Live.ofItems, Live.serializeItems, serialize_ofJson x, serializeItems_ofItems xs,
      writtenItems]
    rfl

theorem serializeMembers_ofMembers : ∀ ms : Members ν,
    Live.serializeMembers (Live.ofMembers ms) = some (writtenMembers ms) := by
  intro ms
  match ms with
  | [] => rw [Live.ofMembers, Live.serializeMembers, writtenMembers]
  | (k, x) :: ms =>
    rw [Live.ofMembers, Live.serializeMembers, serialize_ofJson x, serializeMembers_ofMembers ms,
      writtenMembers]
    rfl

end

end Written

end Json

/-! ## Array methods whose function may throw -/

section Throwing

variable {α β ε : Type}

def filterE (keep : α → Except ε Bool) : List α → Except ε (List α)
  | [] => .ok []
  | x :: xs =>
    match keep x with
    | .error e => .error e
    | .ok k =>
      match filterE keep xs with
      | .error e => .error e
      | .ok kept => .ok (if k then x :: kept else kept)

def mapE (f : α → Except ε β) : List α → Except ε (List β)
  | [] => .ok []
  | x :: xs =>
    match f x with
    | .error e => .error e
    | .ok y =>
      match mapE f xs with
      | .error e => .error e
      | .ok ys => .ok (y :: ys)

/-- It stops at the first element it finds. -/
def anyE (p : α → Except ε Bool) : List α → Except ε Bool
  | [] => .ok false
  | x :: xs =>
    match p x with
    | .error e => .error e
    | .ok true => .ok true
    | .ok false => anyE p xs

/-- It stops at the first element that fails. -/
def allE (p : α → Except ε Bool) : List α → Except ε Bool
  | [] => .ok true
  | x :: xs =>
    match p x with
    | .error e => .error e
    | .ok true => allE p xs
    | .ok false => .ok false

/-- `f` throws where `fine` does not hold, and answers `g` where it does. -/
def Throws (f : α → Except ε β) (fine : α → Prop) (g : α → β) : Prop :=
  ∀ x, (fine x ∧ f x = .ok (g x)) ∨ (¬ fine x ∧ ∃ e, f x = .error e)

theorem Throws.ok_iff {f : α → Except ε β} {fine : α → Prop} {g : α → β} (h : Throws f fine g)
    (x : α) (y : β) : f x = .ok y ↔ fine x ∧ y = g x := by
  rcases h x with ⟨hfine, hx⟩ | ⟨hfine, e, hx⟩
  · rw [hx, Except.ok.injEq]
    exact ⟨fun hy => ⟨hfine, hy.symm⟩, fun hy => hy.2.symm⟩
  · rw [hx]
    constructor
    · intro hy
      cases hy
    · rintro ⟨hy, -⟩
      exact absurd hy hfine

theorem Throws.map_not {p : α → Except ε Bool} {fine : α → Prop} {q : α → Bool}
    (h : Throws p fine q) : Throws (fun x => (p x).map not) fine fun x => !q x := by
  intro x
  rcases h x with ⟨hfine, hx⟩ | ⟨hfine, e, hx⟩
  · exact .inl ⟨hfine, by simp only [hx]; rfl⟩
  · exact .inr ⟨hfine, e, by simp only [hx]; rfl⟩

theorem throws_filterE {keep : α → Except ε Bool} {fine : α → Prop} {q : α → Bool}
    (h : Throws keep fine q) :
    Throws (filterE keep) (fun xs => ∀ x ∈ xs, fine x) (List.filter q) := by
  intro xs
  induction xs with
  | nil => exact .inl ⟨by simp, rfl⟩
  | cons x xs ih =>
    rcases h x with ⟨hfine, hx⟩ | ⟨hfine, e, hx⟩
    · rcases ih with ⟨hall, hxs⟩ | ⟨hall, e, hxs⟩
      · refine .inl ⟨List.forall_mem_cons.mpr ⟨hfine, hall⟩, ?_⟩
        rw [filterE, hx, hxs, List.filter_cons]
      · refine .inr ⟨fun hcons => hall (List.forall_mem_cons.mp hcons).2, e, ?_⟩
        rw [filterE, hx, hxs]
    · refine .inr ⟨fun hcons => hfine (List.forall_mem_cons.mp hcons).1, e, ?_⟩
      rw [filterE, hx]

theorem throws_mapE {f : α → Except ε β} {fine : α → Prop} {g : α → β} (h : Throws f fine g) :
    Throws (mapE f) (fun xs => ∀ x ∈ xs, fine x) (List.map g) := by
  intro xs
  induction xs with
  | nil => exact .inl ⟨by simp, rfl⟩
  | cons x xs ih =>
    rcases h x with ⟨hfine, hx⟩ | ⟨hfine, e, hx⟩
    · rcases ih with ⟨hall, hxs⟩ | ⟨hall, e, hxs⟩
      · refine .inl ⟨List.forall_mem_cons.mpr ⟨hfine, hall⟩, ?_⟩
        rw [mapE, hx, hxs, List.map_cons]
      · refine .inr ⟨fun hcons => hall (List.forall_mem_cons.mp hcons).2, e, ?_⟩
        rw [mapE, hx, hxs]
    · refine .inr ⟨fun hcons => hfine (List.forall_mem_cons.mp hcons).1, e, ?_⟩
      rw [mapE, hx]

/-- A search that nothing in front disturbs finds the last element. -/
theorem anyE_last {p : α → Except ε Bool} {xs : List α} {y : α}
    (hxs : ∀ x ∈ xs, ∃ b, p x = .ok b) (hy : p y = .ok true) : anyE p (xs ++ [y]) = .ok true := by
  induction xs with
  | nil => rw [List.nil_append, anyE, hy]
  | cons x xs ih =>
    obtain ⟨⟨b, hx⟩, hrest⟩ := List.forall_mem_cons.mp hxs
    rw [List.cons_append, anyE, hx]
    cases b with
    | true => rfl
    | false => exact ih hrest

theorem anyE_ok {p : α → Except ε Bool} {xs : List α} (h : ∀ x ∈ xs, ∃ b, p x = .ok b) :
    ∃ b, anyE p xs = .ok b := by
  induction xs with
  | nil => exact ⟨false, rfl⟩
  | cons x xs ih =>
    obtain ⟨⟨b, hx⟩, hrest⟩ := List.forall_mem_cons.mp h
    cases b with
    | true => exact ⟨true, by rw [anyE, hx]⟩
    | false =>
      obtain ⟨b, hb⟩ := ih hrest
      exact ⟨b, by rw [anyE, hx]; exact hb⟩

theorem allE_true {p : α → Except ε Bool} {xs : List α} (h : ∀ x ∈ xs, p x = .ok true) :
    allE p xs = .ok true := by
  induction xs with
  | nil => rfl
  | cons x xs ih =>
    obtain ⟨hx, hrest⟩ := List.forall_mem_cons.mp h
    rw [allE, hx]
    exact ih hrest

end Throwing

end Lib
end XBus
