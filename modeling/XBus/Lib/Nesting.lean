import XBus.Lib.Json

/-!
# `Lib/Nesting.lean` — where the text of an object ends

A JSON text is read from left to right with the depth of its brackets and whether it stands in a
string. The text of an object comes back to the depth it started from with its last character, and
not before. Reading that starts inside an object, or inside a string of it, cannot end with it: so
the text of an object is no proper end of another one's, and a text in front of it can be told off
(`append_text_inj`).
-/

set_option autoImplicit false

namespace XBus
namespace Lib

/-- Where a reader stands: outside of strings, right behind one, in one, behind a backslash. -/
inductive Scan where
  | out (depth : Nat)
  | closed (depth : Nat)
  | inString (depth : Nat)
  | escaped (depth : Nat)
deriving DecidableEq, Repr

namespace Scan

/-- At depth zero the text is over. Behind a string only a separator or a bracket can stand. -/
def next : Scan → Char → Option Scan
  | .out 0, _ => none
  | .out (k + 1), c =>
    if c = '"' then some (.inString (k + 1))
    else if c = '{' ∨ c = '[' then some (.out (k + 2))
    else if c = '}' ∨ c = ']' then some (.out k)
    else some (.out (k + 1))
  | .closed 0, _ => none
  | .closed (k + 1), c =>
    if c = ',' ∨ c = ':' then some (.out (k + 1))
    else if c = '}' ∨ c = ']' then some (.out k)
    else none
  | .inString k, c =>
    if c = '"' then some (.closed k) else if c = '\\' then some (.escaped k) else some (.inString k)
  | .escaped k, _ => some (.inString k)

def run (s : Scan) : List Char → Option Scan
  | [] => some s
  | c :: cs => (next s c).bind fun s' => run s' cs

/-- A value has been read at this depth. -/
def After (depth : Nat) (s : Scan) : Prop := s = .out depth ∨ s = .closed depth

theorem run_append (s : Scan) (xs ys : List Char) :
    run s (xs ++ ys) = (run s xs).bind fun s' => run s' ys := by
  induction xs generalizing s with
  | nil => rfl
  | cons x xs ih =>
    rw [List.cons_append, run, run, Option.bind_assoc]
    exact Option.bind_congr fun s' _ => ih s'

/-! ## Strings -/

theorem run_inString {k : Nat} {cs : List Char} (h : ∀ c ∈ cs, c ≠ '"' ∧ c ≠ '\\') :
    run (.inString k) cs = some (.inString k) := by
  induction cs with
  | nil => rfl
  | cons c cs ih =>
    obtain ⟨hc, hrest⟩ := List.forall_mem_cons.mp h
    simp [run, next, hc.1, hc.2, ih hrest]

theorem hexDigit_plain {d : Nat} (h : d < 16) : hexDigit d ≠ '"' ∧ hexDigit d ≠ '\\' := by
  have hall : ∀ d : Fin 16, hexDigit d ≠ '"' ∧ hexDigit d ≠ '\\' := by decide
  exact hall ⟨d, h⟩

theorem run_escapeUnit (k : Nat) (u : UInt16) :
    run (.inString k) (escapeUnit u) = some (.inString k) := by
  unfold escapeUnit
  cases hshort : shortEscape u with
  | some c => simp [run, next]
  | none =>
    dsimp only
    split
    · -- behind `\u`, which the automaton has left, four digits
      have hdigits :
        run (.inString k) [hexDigit (u.toNat / 4096 % 16), hexDigit (u.toNat / 256 % 16),
          hexDigit (u.toNat / 16 % 16), hexDigit (u.toNat % 16)] = some (.inString k) := by
        apply run_inString
        simp only [List.mem_cons, List.not_mem_nil, or_false]
        rintro c (rfl | rfl | rfl | rfl)
        all_goals exact hexDigit_plain (Nat.mod_lt _ (by decide))
      simpa [hexEscape, run, next] using hdigits
    · rename_i hplain
      have hlt := u.toNat_lt
      simp only [isHigh, isLow, Bool.or_eq_true, Bool.and_eq_true, decide_eq_true_eq, not_or,
        not_and] at hplain
      have hnat : (Char.ofNat u.toNat).toNat = u.toNat := toNat_ofNat_char (by omega)
      refine run_inString fun c hc => ?_
      rw [List.mem_singleton.mp hc]
      constructor
      · intro heq
        rw [heq] at hnat
        simp [shortEscape, ← hnat] at hshort
      · intro heq
        rw [heq] at hnat
        simp [shortEscape, ← hnat] at hshort

theorem run_quoted (k : Nat) (s : JsString) : run (.inString k) (quoted s) = some (.closed k) := by
  induction s using quoted.induct with
  | case1 => simp [quoted, run, next]
  | case2 u ih => rw [quoted, run_append, run_escapeUnit, Option.bind_some, ih]
  | case3 u v s hpair ih =>
    have hne : ∀ c : Char, c.toNat < 0x10000 → pairChar u v ≠ c := by
      intro c hc heq
      simp only [isHigh, isLow, Bool.and_eq_true, decide_eq_true_eq] at hpair
      have hnat : (pairChar u v).toNat
          = 0x10000 + (u.toNat - 0xd800) * 0x400 + (v.toNat - 0xdc00) :=
        toNat_ofNat_char (by omega)
      rw [heq] at hnat
      omega
    rw [quoted, if_pos hpair, run, next, if_neg (hne _ (by decide)), if_neg (hne _ (by decide)),
      Option.bind_some, ih]
  | case4 u v s hpair ih =>
    rw [quoted, if_neg hpair, run_append, run_escapeUnit, Option.bind_some, ih]

theorem run_quote (k : Nat) (s : JsString) :
    run (.out (k + 1)) (quote s) = some (.closed (k + 1)) := by
  rw [quote, run, next, if_pos rfl, Option.bind_some, run_quoted]

/-! ## Values -/

/-- Characters that change nothing outside of strings. -/
theorem run_out {k : Nat} {cs : List Char}
    (h : ∀ c ∈ cs, c ≠ '"' ∧ c ≠ '{' ∧ c ≠ '[' ∧ c ≠ '}' ∧ c ≠ ']') :
    run (.out (k + 1)) cs = some (.out (k + 1)) := by
  induction cs with
  | nil => rfl
  | cons c cs ih =>
    obtain ⟨⟨h₁, h₂, h₃, h₄, h₅⟩, hrest⟩ := List.forall_mem_cons.mp h
    simp [run, next, h₁, h₂, h₃, h₄, h₅, ih hrest]

theorem After.separator {k : Nat} {s : Scan} (h : After (k + 1) s) {c : Char}
    (hc : c = ',' ∨ c = ':') :
    next s c = some (.out (k + 1)) := by
  rcases h with rfl | rfl <;> rcases hc with rfl | rfl <;> simp [next]

theorem After.bracket {k : Nat} {s : Scan} (h : After (k + 1) s) {c : Char}
    (hc : c = '}' ∨ c = ']') :
    next s c = some (.out k) := by
  rcases h with rfl | rfl <;> rcases hc with rfl | rfl <;> simp [next]

variable {ν : Type} [JsNumber ν]

mutual

theorem run_text : ∀ (v : Json ν) (k : Nat), ∃ s, run (.out (k + 1)) v.text = some s ∧
    After (k + 1) s := by
  intro v k
  match v with
  | .null => exact ⟨_, by rw [Json.text, run_out (by simp)], .inl rfl⟩
  | .bool true => exact ⟨_, by rw [Json.text, run_out (by simp)], .inl rfl⟩
  | .bool false => exact ⟨_, by rw [Json.text, run_out (by simp)], .inl rfl⟩
  | .num n =>
    obtain ⟨c, cs, hcs, hc, hrest⟩ := Json.numeral_head (JsNumber.numeral_toText n)
    refine ⟨.out (k + 1), ?_, .inl rfl⟩
    rw [Json.text, run_out]
    intro d hd
    have hnumber : isNumberChar d := by
      rw [hcs, List.mem_cons] at hd
      rcases hd with rfl | hd
      · exact hc
      · exact hrest d hd
    obtain ⟨h₁, h₂, h₃, -, -, -, h₄, h₅, -⟩ := Json.numberChar_ne hnumber
    exact ⟨h₁, h₃, h₂, h₅, h₄⟩
  | .str s => exact ⟨_, by rw [Json.text, run_quote], .inr rfl⟩
  | .arr xs =>
    refine ⟨.out (k + 1), ?_, .inl rfl⟩
    rw [Json.text, run, next, if_neg (by decide), if_pos (by decide), Option.bind_some]
    exact run_items xs true (k + 1) _ (.inl rfl) fun _ => rfl
  | .obj ms =>
    refine ⟨.out (k + 1), ?_, .inl rfl⟩
    rw [Json.text, run, next, if_neg (by decide), if_pos (by decide), Option.bind_some]
    exact run_members ms true (k + 1) _ (.inl rfl) fun _ => rfl

/-- Up to the closing bracket. -/
theorem run_items : ∀ (xs : List (Json ν)) (first : Bool) (k : Nat) (s : Scan),
    After (k + 1) s → (first = true → s = .out (k + 1)) →
    run s (Json.itemsText first xs) = some (.out k) := by
  intro xs first k s hs hfirst
  match xs with
  | [] =>
    rw [Json.itemsText, run, hs.bracket (.inr rfl)]
    rfl
  | x :: xs =>
    have hcomma : run s (Json.comma first) = some (.out (k + 1)) := by
      cases first with
      | true => rw [hfirst rfl]; rfl
      | false => rw [Json.comma, if_neg (by decide), run, hs.separator (.inl rfl)]; rfl
    obtain ⟨s', hx, hs'⟩ := run_text x k
    rw [Json.itemsText, run_append, run_append, hcomma, Option.bind_some, hx, Option.bind_some,
      run_items xs false k s' hs' (by simp)]

theorem run_members : ∀ (ms : List (JsString × Json ν)) (first : Bool) (k : Nat) (s : Scan),
    After (k + 1) s → (first = true → s = .out (k + 1)) →
    run s (Json.membersText first ms) = some (.out k) := by
  intro ms first k s hs hfirst
  match ms with
  | [] =>
    rw [Json.membersText, run, hs.bracket (.inl rfl)]
    rfl
  | (key, v) :: ms =>
    have hcomma : run s (Json.comma first) = some (.out (k + 1)) := by
      cases first with
      | true => rw [hfirst rfl]; rfl
      | false => rw [Json.comma, if_neg (by decide), run, hs.separator (.inl rfl)]; rfl
    obtain ⟨s', hv, hs'⟩ := run_text v k
    have hcolon : After (k + 1) (.closed (k + 1)) := .inr rfl
    rw [Json.membersText, List.append_assoc, run_append, run_append, hcomma, Option.bind_some,
      run_quote, Option.bind_some, List.cons_append, run, hcolon.separator (.inr rfl),
      Option.bind_some, run_append, hv, Option.bind_some, run_members ms false k s' hs' (by simp)]

end

end Scan

/-! ## Ends of texts -/

namespace Json

open Scan

variable {ν : Type} [JsNumber ν] {ms ms' : List (JsString × Json ν)}

/-- The object has a first member, whose key does not start with a separator or a bracket. -/
def OpensWithKey (ms : List (JsString × Json ν)) : Prop :=
  ∃ c rest, text (.obj ms) = '{' :: '"' :: c :: rest ∧ c ≠ ',' ∧ c ≠ ':' ∧ c ≠ '}' ∧ c ≠ ']'

/-- Read from inside of an object, another object does not bring the reader out of it. -/
theorem run_text_ne (h : OpensWithKey ms) (s : Scan) :
    run s (text (.obj ms)) ≠ some (.out 0) := by
  obtain ⟨c, rest, htext, h₁, h₂, h₃, h₄⟩ := h
  have hstring : ∀ k, run (.inString k) ('"' :: c :: rest) = none := by
    intro k
    cases k <;> simp [run, next, h₁, h₂, h₃, h₄]
  match s with
  | .out 0 => simp [htext, run, next]
  | .out (k + 1) =>
    rw [text, run, next, if_neg (by decide), if_pos (by decide), Option.bind_some,
      run_members ms true (k + 1) _ (.inl rfl) fun _ => rfl]
    simp
  | .closed 0 => simp [htext, run, next]
  | .closed (k + 1) => simp [htext, run, next]
  | .inString k =>
    rw [htext, run, next, if_neg (by decide), if_neg (by decide), Option.bind_some, hstring]
    simp
  | .escaped k =>
    rw [htext, run, next, Option.bind_some, hstring]
    simp

/-- The text of an object is no proper end of another one's. -/
theorem text_suffix (h : OpensWithKey ms') {xs : List Char}
    (heq : text (.obj ms) = xs ++ text (.obj ms')) : xs = [] := by
  cases xs with
  | nil => rfl
  | cons x xs =>
    rw [text, List.cons_append] at heq
    have hbody := run_members ms true 0 (.out 1) (.inl rfl) fun _ => rfl
    rw [(List.cons.inj heq).2, run_append] at hbody
    obtain ⟨s, -, hs⟩ := Option.bind_eq_some_iff.mp hbody
    exact absurd hs (run_text_ne h s)

/-- **What stands in front of an object's text can be told off.** -/
theorem append_text_inj (h : OpensWithKey ms) (h' : OpensWithKey ms') {xs ys : List Char}
    (heq : xs ++ text (.obj ms) = ys ++ text (.obj ms')) :
    xs = ys ∧ text (.obj ms) = text (.obj ms') := by
  rcases List.append_eq_append_iff.mp heq with ⟨zs, rfl, htext⟩ | ⟨zs, rfl, htext⟩
  · have hnil := text_suffix h' htext
    subst hnil
    exact ⟨by simp, by simpa using htext⟩
  · have hnil := text_suffix h htext
    subst hnil
    exact ⟨by simp, by simpa using htext.symm⟩

end Json

end Lib
end XBus
