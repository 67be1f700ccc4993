import XBus.Ledger

/-!
# Canonical texts

`canonicalize` is applied to two kinds of values: to those of the program when a row is written, and
to what `JSON.parse` has made of the columns when it is verified. Where it accepts a value,
`JSON.stringify` writes that value, and what is read back is accepted with the same text
(`canonicalize_serialize`); only an array with a `toJSON` of its own is written as something else.

Of a value that was read, the canonical text is the JSON text with every object's members sorted by
their keys (`canonicalize_ofJson`), so it says what the value is up to the order of members.
-/

set_option autoImplicit false

namespace XBus

open Lib Live

namespace Proof

variable {ν : Type} [JsFloat ν]

/-! ## Parts -/

theorem collect_ok {α : Type} (as : List α) :
    collect (as.map .ok : List (Except JsString α)) = .ok as := by
  induction as with
  | nil => rfl
  | cons a as ih =>
    rw [List.map_cons, collect, ih]
    rfl

theorem collect_eq_ok {α : Type} {xs : List (Except JsString α)} {as : List α} :
    collect xs = .ok as ↔ xs = as.map .ok := by
  constructor
  · intro h
    induction xs generalizing as with
    | nil =>
      cases h
      rfl
    | cons x xs ih =>
      cases x with
      | error e => cases h
      | ok a =>
        cases hxs : collect xs with
        | error e => simp [collect, hxs, bind, Except.bind] at h
        | ok bs =>
          simp only [collect, hxs, bind, Except.bind, pure, Except.pure, Except.ok.injEq] at h
          rw [← h, ih hxs, List.map_cons]
  · rintro rfl
    exact collect_ok as

theorem map_eq_ok {α β : Type} {x : Except JsString α} {f : α → β} {b : β}
    (h : x.map f = .ok b) : ∃ a, x = .ok a ∧ f a = b := by
  cases x with
  | error e => cases h
  | ok a => exact ⟨a, rfl, Except.ok.inj h⟩

theorem of_toOption {α : Type} {x : Except JsString α} {a : α} (h : x.toOption = some a) :
    x = .ok a := by
  cases x with
  | error e => cases h
  | ok b => rw [Option.some.inj h]

/-- All members of an object are accepted if the object is. -/
theorem members_ok {ms : List (JsString × Except JsString (List Char))} {parts : List (List Char)}
    (h : collect ((sortByKey ms).map (·.2)) = .ok parts) : ∀ m ∈ ms, ∃ t, m.2 = .ok t := by
  intro m hm
  have hsorted : m.2 ∈ (sortByKey ms).map (·.2) :=
    List.mem_map_of_mem ((sortByKey_perm ms).mem_iff.mpr hm)
  rw [collect_eq_ok.mp h] at hsorted
  obtain ⟨t, -, ht⟩ := List.mem_map.mp hsorted
  exact ⟨t, ht.symm⟩

/-! ## What was read -/

section Read

omit [JsFloat ν]

@[simp] theorem isUndefined_ofJson (j : Json ν) : isUndefined (ofJson j) = false := by
  cases j <;> rfl

theorem firstHole_ofItems (xs : List (Json ν)) (i : Nat) : firstHole i (ofItems xs) = none := by
  induction xs generalizing i with
  | nil => rfl
  | cons x xs ih =>
    have hrest := ih (i + 1)
    cases x <;> exact hrest

end Read

/-! ## What is written is read back -/

mutual

theorem canonicalize_serialize : ∀ (v : Live ν) (path : JsString) (t : List Char), v.Proper →
    v.arrayToJSON = false → canonicalize path v = .ok t →
    ∃ j, serialize true v = some (some j) ∧ j.Distinct ∧ canonicalize path (ofJson j) = .ok t := by
  intro v path t hproper htold h
  match v with
  | .null => exact ⟨.null, by rw [serialize], by simp [Json.Distinct], by rw [ofJson]; exact h⟩
  | .bool b => exact ⟨.bool b, by rw [serialize], by simp [Json.Distinct], by rw [ofJson]; exact h⟩
  | .str s => exact ⟨.str s, by rw [serialize], by simp [Json.Distinct], by rw [ofJson]; exact h⟩
  | .num n =>
    have hfinite : JsFloat.isFinite n = true := by
      rw [canonicalize] at h
      split at h
      · assumption
      · cases h
    refine ⟨.num n, ?_, by simp [Json.Distinct], by rw [ofJson]; exact h⟩
    rw [serialize, if_pos hfinite]
  | .arr items =>
    rw [Proper] at hproper
    rw [arrayToJSON] at htold
    rw [canonicalize] at h
    cases hhole : firstHole 0 items with
    | some i => simp [hhole] at h
    | none =>
      simp only [hhole] at h
      obtain ⟨parts, hparts, ht⟩ := map_eq_ok h
      obtain ⟨js, hjs, hdistinct, hsame⟩ :=
        canonicalizeItems_serialize items path 0 parts hproper htold hparts
      refine ⟨.arr js, by rw [serialize, hjs]; rfl, by rw [Json.Distinct]; exact hdistinct, ?_⟩
      rw [ofJson, canonicalize, firstHole_ofItems]
      simp only [hsame, hparts, Except.map, ht]
  | .obj plain members =>
    rw [Proper] at hproper
    rw [arrayToJSON] at htold
    rw [canonicalize] at h
    cases plain with
    | false => simp at h
    | true =>
      simp only [if_true] at h
      obtain ⟨parts, hparts, ht⟩ := map_eq_ok h
      obtain ⟨js, hjs, hkeys, hdistinct, hsame⟩ :=
        canonicalizeMembers_serialize members path hproper.2.2 htold (members_ok hparts)
      refine ⟨.obj js, by rw [serialize, hjs]; rfl, ?_, ?_⟩
      · rw [Json.Distinct, hkeys]
        exact ⟨hproper.1, hdistinct⟩
      · rw [ofJson, canonicalize]
        simp only [if_true, hsame, hparts, Except.map, ht]
  | .withToJSON base result =>
    rw [Proper] at hproper
    -- an array is excluded, and of the other objects none is accepted
    cases base with
    | arr items => simp [arrayToJSON] at htold
    | obj plain members => cases plain <;> simp [canonicalize] at h
    | boxed v => simp [canonicalize] at h
    | function => simp [canonicalize] at h
    | _ => simp [isObject] at hproper
  | .undefined => simp [canonicalize] at h
  | .function => simp [canonicalize] at h
  | .symbol => simp [canonicalize] at h
  | .bigint => simp [canonicalize] at h
  | .nan => simp [canonicalize] at h
  | .hole => simp [canonicalize] at h
  | .boxed v => simp [canonicalize] at h

theorem canonicalizeItems_serialize : ∀ (vs : List (Live ν)) (path : JsString) (i : Nat)
    (parts : List (List Char)), ProperItems vs → arrayToJSONItems vs = false →
    collect (canonicalizeItems path i vs) = .ok parts →
    ∃ js, serializeItems vs = some js ∧ Json.DistinctItems js ∧
      canonicalizeItems path i (ofItems js) = canonicalizeItems path i vs := by
  intro vs path i parts hproper htold h
  match vs with
  | [] => exact ⟨[], by rw [serializeItems], by simp [Json.DistinctItems], by rw [ofItems]⟩
  | v :: vs =>
    rw [ProperItems] at hproper
    rw [arrayToJSONItems, Bool.or_eq_false_iff] at htold
    rw [collect_eq_ok, canonicalizeItems] at h
    cases parts with
    | nil => cases h
    | cons t parts =>
      obtain ⟨hv, hvs⟩ := List.cons.inj h
      obtain ⟨j, hj, hjdistinct, hjsame⟩ :=
        canonicalize_serialize v (atIndex path i) t hproper.1 htold.1 hv
      obtain ⟨js, hjs, hdistinct, hsame⟩ := canonicalizeItems_serialize vs path (i + 1) parts
        hproper.2 htold.2 (collect_eq_ok.mpr hvs)
      refine ⟨j :: js, by simp [serializeItems, hj, hjs], ?_, ?_⟩
      · rw [Json.DistinctItems]
        exact ⟨hjdistinct, hdistinct⟩
      · rw [ofItems, canonicalizeItems, canonicalizeItems, hjsame, hv, hsame]

theorem canonicalizeMembers_serialize : ∀ (ms : List (JsString × Live ν)) (path : JsString),
    ProperMembers ms → arrayToJSONMembers ms = false →
    (∀ m ∈ canonicalizeMembers path ms, ∃ t, m.2 = .ok t) →
    ∃ js, serializeMembers ms = some js ∧ js.map (·.1) = ms.map (·.1) ∧ Json.DistinctMembers js ∧
      canonicalizeMembers path (ofMembers js) = canonicalizeMembers path ms := by
  intro ms path hproper htold h
  match ms with
  | [] => exact
    ⟨[], by rw [serializeMembers], rfl, by simp [Json.DistinctMembers], by rw [ofMembers]⟩
  | (k, v) :: ms =>
    rw [ProperMembers] at hproper
    rw [arrayToJSONMembers, Bool.or_eq_false_iff] at htold
    rw [canonicalizeMembers, List.forall_mem_cons] at h
    obtain ⟨⟨t, ht⟩, hrest⟩ := h
    have hdefined : isUndefined v = false := by
      by_contra hundef
      rw [if_pos (by simpa using hundef)] at ht
      cases ht
    simp only [hdefined, Bool.false_eq_true, if_false] at ht
    obtain ⟨text, htext, -⟩ := map_eq_ok ht
    obtain ⟨j, hj, hjdistinct, hjsame⟩ :=
      canonicalize_serialize v (atKey path k) text hproper.1 htold.1 htext
    obtain ⟨js, hjs, hkeys, hdistinct, hsame⟩ :=
      canonicalizeMembers_serialize ms path hproper.2 htold.2 hrest
    refine ⟨(k, j) :: js, by simp [serializeMembers, hj, hjs], by simp [hkeys], ?_, ?_⟩
    · rw [Json.DistinctMembers]
      exact ⟨hjdistinct, hdistinct⟩
    · rw [ofMembers, canonicalizeMembers, canonicalizeMembers, hsame, hjsame, htext]
      simp [hdefined]

end

/-! ## The text of what was read -/

theorem joinParts_cons (p : List Char) (ps : List (List Char)) :
    joinParts (p :: ps) = p ++ ps.flatMap (',' :: ·) := by
  induction ps generalizing p with
  | nil => simp [joinParts]
  | cons q ps ih =>
    rw [joinParts, ih, List.flatMap_cons]
    · rfl
    · simp

section Joined

variable {ν : Type} [JsNumber ν]

theorem itemsText_eq (xs : List (Json ν)) :
    Json.itemsText true xs = joinParts (xs.map Json.text) ++ [']'] := by
  have hmore : ∀ xs : List (Json ν),
      Json.itemsText false xs = (xs.map Json.text).flatMap (',' :: ·) ++ [']'] := by
    intro xs
    induction xs with
    | nil => simp [Json.itemsText]
    | cons x xs ih => simp [Json.itemsText, Json.comma, ih]
  cases xs with
  | nil => simp [Json.itemsText, joinParts]
  | cons x xs => simp [Json.itemsText, Json.comma, hmore, joinParts_cons]

def memberText (m : JsString × Json ν) : List Char := quote m.1 ++ ':' :: m.2.text

theorem membersText_eq (ms : List (JsString × Json ν)) :
    Json.membersText true ms = joinParts (ms.map memberText) ++ ['}'] := by
  have hmore : ∀ ms : List (JsString × Json ν),
      Json.membersText false ms = (ms.map memberText).flatMap (',' :: ·) ++ ['}'] := by
    intro ms
    induction ms with
    | nil => simp [Json.membersText]
    | cons m ms ih => simp [Json.membersText, Json.comma, ih, memberText]
  cases ms with
  | nil => simp [Json.membersText, joinParts]
  | cons m ms => simp [Json.membersText, Json.comma, hmore, joinParts_cons, memberText]

end Joined

/-- What a member contributes, if it contributes anything. -/
def Contributes (m : JsString × Except JsString (List Char)) (n : JsString × Json ν) : Prop :=
  m.1 = n.1 ∧ ∀ t, m.2 = .ok t → t = memberText n

theorem contributes_parts {ms : List (JsString × Except JsString (List Char))}
    {ns : List (JsString × Json ν)} {parts : List (List Char)} (h : List.Forall₂ Contributes ms ns)
    (hparts : ms.map (·.2) = parts.map .ok) : parts = ns.map memberText := by
  induction h generalizing parts with
  | nil =>
    cases parts with
    | nil => rfl
    | cons p parts => cases hparts
  | cons hfirst _ ih =>
    cases parts with
    | nil => cases hparts
    | cons p parts =>
      obtain ⟨hp, hrest⟩ := List.cons.inj hparts
      rw [List.map_cons, ← hfirst.2 p hp, ih hrest]

mutual

theorem canonicalize_ofJson : ∀ (j : Json ν) (path : JsString) (t : List Char),
    canonicalize path (ofJson j) = .ok t → t = j.sortKeys.text := by
  intro j path t h
  match j with
  | .null =>
    cases h
    rw [Json.sortKeys, Json.text]
  | .bool true =>
    cases h
    rw [Json.sortKeys, Json.text]
  | .bool false =>
    cases h
    rw [Json.sortKeys, Json.text]
  | .str s =>
    cases h
    rw [Json.sortKeys, Json.text]
  | .num n =>
    rw [ofJson, canonicalize] at h
    split at h
    · cases h
      rw [Json.sortKeys, Json.text]
    · cases h
  | .arr xs =>
    rw [ofJson, canonicalize, firstHole_ofItems] at h
    obtain ⟨parts, hparts, ht⟩ := map_eq_ok h
    rw [Json.sortKeys, Json.text, itemsText_eq, ← canonicalizeItems_ofItems xs path 0 parts hparts,
      ← ht]
    rfl
  | .obj ms =>
    rw [ofJson, canonicalize, if_pos rfl] at h
    obtain ⟨parts, hparts, ht⟩ := map_eq_ok h
    have hsorted := sortByKey_forall₂ (fun _ _ h => h.1) (canonicalizeMembers_ofMembers ms path)
    rw [Json.sortKeys, Json.text, membersText_eq,
      ← contributes_parts hsorted (collect_eq_ok.mp hparts), ← ht]
    rfl

theorem canonicalizeItems_ofItems : ∀ (xs : List (Json ν)) (path : JsString) (i : Nat)
    (parts : List (List Char)), collect (canonicalizeItems path i (ofItems xs)) = .ok parts →
    parts = (Json.sortItems xs).map Json.text := by
  intro xs path i parts h
  match xs with
  | [] =>
    cases h
    rw [Json.sortItems]
    rfl
  | x :: xs =>
    rw [collect_eq_ok, ofItems, canonicalizeItems] at h
    cases parts with
    | nil => cases h
    | cons t parts =>
      obtain ⟨hx, hxs⟩ := List.cons.inj h
      rw [Json.sortItems, List.map_cons, ← canonicalize_ofJson x _ t hx,
        ← canonicalizeItems_ofItems xs path (i + 1) parts (collect_eq_ok.mpr hxs)]

theorem canonicalizeMembers_ofMembers : ∀ (ms : List (JsString × Json ν)) (path : JsString),
    List.Forall₂ Contributes (canonicalizeMembers path (ofMembers ms)) (Json.sortMembers ms) := by
  intro ms path
  match ms with
  | [] =>
    rw [ofMembers, canonicalizeMembers, Json.sortMembers]
    exact .nil
  | (k, x) :: ms =>
    rw [ofMembers, canonicalizeMembers, Json.sortMembers]
    refine .cons ⟨rfl, ?_⟩ (canonicalizeMembers_ofMembers ms path)
    intro t ht
    simp only [isUndefined_ofJson, Bool.false_eq_true, if_false] at ht
    obtain ⟨text, htext, rfl⟩ := map_eq_ok ht
    rw [canonicalize_ofJson x _ text htext]
    rfl

end

end Proof

end XBus
