import XBus.Lib.Json

/-!
# `Lib/Pretty.lean` — JSON text over several lines

`JSON.stringify(v, null, 2)`: an item or a member to a line, two blanks for every level, and nothing
between the brackets of what is empty. The reader skips the white space where it stands, so the text
reads back as the value it was written from (**`read_pretty`**), a line end behind it or not.
-/

set_option autoImplicit false

namespace XBus
namespace Lib
namespace Json

variable {ν : Type} [JsNumber ν]

/-- A new line, at level `n`. -/
def line (n : Nat) : List Char := '\n' :: List.replicate (2 * n) ' '

mutual

def pretty (n : Nat) : Json ν → List Char
  | .arr xs => '[' :: itemsPretty n true xs
  | .obj ms => '{' :: membersPretty n true ms
  | .null => text (.null : Json ν)
  | .bool b => text (.bool b : Json ν)
  | .num x => text (.num x)
  | .str s => text (.str s : Json ν)

def itemsPretty (n : Nat) (first : Bool) : List (Json ν) → List Char
  | [] => if first then [']'] else line n ++ [']']
  | x :: xs => comma first ++ line (n + 1) ++ pretty (n + 1) x ++ itemsPretty n false xs

def membersPretty (n : Nat) (first : Bool) : List (JsString × Json ν) → List Char
  | [] => if first then ['}'] else line n ++ ['}']
  | (k, v) :: ms => comma first ++ line (n + 1) ++ quote k ++ ':' :: ' ' :: pretty (n + 1) v
      ++ membersPretty n false ms

end

/-! ## White space in front -/

omit [JsNumber ν] in
theorem skip_line (n : Nat) (r : List Char) : skip (line n ++ r) = skip r := by
  have hblanks : ∀ k, skip (List.replicate k ' ' ++ r) = skip r := by
    intro k
    induction k with
    | zero => rfl
    | succ k ih =>
      rw [List.replicate_succ, List.cons_append]
      simpa [skip, isSpace] using ih
  have hbreak : ∀ cs, skip ('\n' :: cs) = skip cs := by
    intro cs
    simp [skip, isSpace]
  rw [line, List.cons_append, hbreak, hblanks]

omit [JsNumber ν] in
theorem skip_blank (r : List Char) : skip (' ' :: r) = skip r := by
  simp [skip, isSpace]

/-- A value is read behind white space as it is without. -/
theorem readValue_skip {cs cs' : List Char} (h : skip cs = skip cs') (n : Nat) :
    (readValue n cs : Option (Json ν × List Char)) = readValue n cs' := by
  cases n with
  | zero => rw [readValue, readValue]
  | succ n => rw [readValue, readValue, h]

theorem readItems_skip {cs cs' : List Char} (h : skip cs = skip cs') (n : Nat) (first : Bool) :
    (readItems n first cs : Option (List (Json ν) × List Char)) = readItems n first cs' := by
  cases n with
  | zero => rw [readItems, readItems]
  | succ n => rw [readItems, readItems, h]

theorem readMembers_skip {cs cs' : List Char} (h : skip cs = skip cs') (n : Nat) (first : Bool) :
    (readMembers n first cs : Option (List (JsString × Json ν) × List Char)) =
      readMembers n first cs' := by
  cases n with
  | zero => rw [readMembers, readMembers]
  | succ n => rw [readMembers, readMembers, h]

/-! ## How the text begins -/

theorem pretty_head (n : Nat) (v : Json ν) :
    ∃ c r, pretty n v = c :: r ∧ isSpace c = false ∧ c ≠ ']' ∧ c ≠ '}' := by
  cases v with
  | arr xs => exact ⟨'[', _, by rw [pretty], by decide⟩
  | obj ms => exact ⟨'{', _, by rw [pretty], by decide⟩
  | null => simpa only [pretty] using text_head (.null : Json ν)
  | bool b => simpa only [pretty] using text_head (.bool b : Json ν)
  | num x => simpa only [pretty] using text_head (.num x)
  | str s => simpa only [pretty] using text_head (.str s : Json ν)

theorem pretty_length_pos (n : Nat) (v : Json ν) : 0 < (pretty n v).length := by
  obtain ⟨c, r, h, -⟩ := pretty_head n v
  simp [h]

theorem endsNumber_itemsPretty (n : Nat) (xs : List (Json ν)) (r : List Char) :
    EndsNumber (itemsPretty n false xs ++ r) := by
  intro c hc
  cases xs with
  | nil => rw [itemsPretty] at hc; cases hc; decide
  | cons x xs => rw [itemsPretty] at hc; cases hc; decide

theorem endsNumber_membersPretty (n : Nat) (ms : List (JsString × Json ν)) (r : List Char) :
    EndsNumber (membersPretty n false ms ++ r) := by
  intro c hc
  cases ms with
  | nil => rw [membersPretty] at hc; cases hc; decide
  | cons m ms => rw [membersPretty] at hc; cases hc; decide

/-! ## The round trip -/

-- As for the compact text: the induction is on the value, items and members go along with it.
mutual

theorem readValue_pretty : ∀ (v : Json ν) (l n : Nat) (r : List Char), v.Distinct →
    EndsNumber r → 2 * (pretty l v).length ≤ n → readValue n (pretty l v ++ r) = some (v, r) := by
  intro v l n r hv hr hn
  match v with
  | .null => simp only [pretty] at hn ⊢; exact readValue_text _ n r hv hr hn
  | .bool b => simp only [pretty] at hn ⊢; exact readValue_text _ n r hv hr hn
  | .num x => simp only [pretty] at hn ⊢; exact readValue_text _ n r hv hr hn
  | .str s => simp only [pretty] at hn ⊢; exact readValue_text _ n r hv hr hn
  | .arr xs =>
    have hlen : (pretty l (.arr xs)).length = (itemsPretty l true xs).length + 1 := by
      rw [pretty, List.length_cons]
    obtain ⟨n, rfl⟩ : ∃ m, n = m + 1 := ⟨n - 1, by omega⟩
    have hitems := readItems_pretty xs l true n r (by rwa [Distinct] at hv) (by omega)
    rw [pretty, List.cons_append, readValue_cons (by decide), if_neg (by decide), if_pos rfl,
      hitems]
    rfl
  | .obj ms =>
    have hlen : (pretty l (.obj ms)).length = (membersPretty l true ms).length + 1 := by
      rw [pretty, List.length_cons]
    obtain ⟨n, rfl⟩ : ∃ m, n = m + 1 := ⟨n - 1, by omega⟩
    rw [Distinct] at hv
    have hmembers := readMembers_pretty ms l true n r hv.2 (by omega)
    rw [pretty, List.cons_append, readValue_cons (by decide), if_neg (by decide),
      if_neg (by decide), if_pos rfl, hmembers]
    simp only [Option.map_some, setMembers_eq hv.1]

theorem readItems_pretty : ∀ (xs : List (Json ν)) (l : Nat) (first : Bool) (n : Nat)
    (r : List Char), DistinctItems xs → 2 * (itemsPretty l first xs).length ≤ n →
    readItems n first (itemsPretty l first xs ++ r) = some (xs, r) := by
  intro xs l first n r hxs hn
  match xs with
  | [] =>
    have hclose : ∀ m, readItems (m + 1) first (']' :: r) = some (([] : List (Json ν)), r) := by
      intro m
      rw [readItems, skip_cons (by decide)]
      rfl
    obtain ⟨n, rfl⟩ : ∃ m, n = m + 1 := by
      cases first <;> (rw [itemsPretty] at hn; simp at hn; exact ⟨n - 1, by omega⟩)
    cases first with
    | true => rw [itemsPretty, if_pos rfl, List.singleton_append, hclose]
    | false =>
      rw [itemsPretty, if_neg (by decide), List.append_assoc, List.singleton_append,
        readItems_skip (skip_line l _), hclose]
  | x :: xs =>
    have hpos := pretty_length_pos (l + 1) x
    have hlen : (itemsPretty l first (x :: xs)).length = (comma first).length
        + (line (l + 1)).length + (pretty (l + 1) x).length
        + (itemsPretty l false xs).length := by
      simp only [itemsPretty, List.length_append]
    have hmore : 0 < (itemsPretty l false xs).length := by
      cases xs <;> simp [itemsPretty, comma]
    obtain ⟨n, rfl⟩ : ∃ m, n = m + 1 := ⟨n - 1, by omega⟩
    rw [DistinctItems] at hxs
    have hx := readValue_pretty x (l + 1) n (itemsPretty l false xs ++ r) hxs.1
      (endsNumber_itemsPretty l xs r) (by omega)
    have hrest := readItems_pretty xs l false n r hxs.2 (by omega)
    cases first with
    | true =>
      obtain ⟨c, cs, hcs, hspace, hclose, -⟩ := pretty_head (l + 1) x
      have htext : itemsPretty l true (x :: xs) ++ r
          = line (l + 1) ++ c :: (cs ++ (itemsPretty l false xs ++ r)) := by
        simp [itemsPretty, comma, hcs]
      rw [hcs, List.cons_append] at hx
      rw [htext, readItems_skip (skip_line _ _), readItems, skip_cons hspace]
      simp [afterComma, hclose, hx, hrest]
    | false =>
      have htext : itemsPretty l false (x :: xs) ++ r
          = ',' :: (line (l + 1) ++ (pretty (l + 1) x ++ (itemsPretty l false xs ++ r))) := by
        simp [itemsPretty, comma]
      have hgap := readValue_skip (ν := ν)
        (skip_line (l + 1) (pretty (l + 1) x ++ (itemsPretty l false xs ++ r))) n
      rw [htext, readItems, skip_cons (by decide)]
      simp [afterComma, hgap, hx, hrest]

theorem readMembers_pretty : ∀ (ms : List (JsString × Json ν)) (l : Nat) (first : Bool) (n : Nat)
    (r : List Char), DistinctMembers ms → 2 * (membersPretty l first ms).length ≤ n →
    readMembers n first (membersPretty l first ms ++ r) = some (ms, r) := by
  intro ms l first n r hms hn
  match ms with
  | [] =>
    have hclose : ∀ m, readMembers (m + 1) first ('}' :: r)
        = some (([] : List (JsString × Json ν)), r) := by
      intro m
      rw [readMembers, skip_cons (by decide)]
      rfl
    obtain ⟨n, rfl⟩ : ∃ m, n = m + 1 := by
      cases first <;> (rw [membersPretty] at hn; simp at hn; exact ⟨n - 1, by omega⟩)
    cases first with
    | true => rw [membersPretty, if_pos rfl, List.singleton_append, hclose]
    | false =>
      rw [membersPretty, if_neg (by decide), List.append_assoc, List.singleton_append,
        readMembers_skip (skip_line l _), hclose]
  | (k, v) :: ms =>
    -- A member is a key, a colon, a value and the members behind it; each is read in turn.
    have hpos := pretty_length_pos (l + 1) v
    have hlen : (membersPretty l first ((k, v) :: ms)).length = (comma first).length
        + (line (l + 1)).length + (quote k).length + 2 + (pretty (l + 1) v).length
        + (membersPretty l false ms).length := by
      simp [membersPretty]
      omega
    obtain ⟨n, rfl⟩ : ∃ m, n = m + 1 := ⟨n - 1, by omega⟩
    rw [DistinctMembers] at hms
    have hv := readValue_pretty v (l + 1) n (membersPretty l false ms ++ r) hms.1
      (endsNumber_membersPretty l ms r) (by omega)
    have hrest := readMembers_pretty ms l false n r hms.2 (by omega)
    have hgap := readValue_skip (ν := ν)
      (skip_blank (pretty (l + 1) v ++ (membersPretty l false ms ++ r))) n
    have hkey := readString_quoted k
      (':' :: ' ' :: (pretty (l + 1) v ++ (membersPretty l false ms ++ r)))
    have hcolon : ∀ r, skip (':' :: r) = ':' :: r := skip_cons (by decide)
    have hquote : ∀ r, skip ('"' :: r) = '"' :: r := skip_cons (by decide)
    cases first with
    | true =>
      have htext : membersPretty l true ((k, v) :: ms) ++ r = line (l + 1) ++ '"' ::
          (quoted k ++ ':' :: ' ' :: (pretty (l + 1) v ++ (membersPretty l false ms ++ r))) := by
        simp [membersPretty, comma, quote]
      rw [htext, readMembers_skip (skip_line _ _), readMembers, skip_cons (by decide)]
      simp [afterComma, hquote, hcolon, hkey, hgap, hv, hrest]
    | false =>
      have htext : membersPretty l false ((k, v) :: ms) ++ r = ',' :: (line (l + 1) ++ '"' ::
          (quoted k ++ ':' :: ' ' :: (pretty (l + 1) v ++ (membersPretty l false ms ++ r)))) := by
        simp [membersPretty, comma, quote]
      rw [htext, readMembers, skip_cons (by decide)]
      simp [afterComma, skip_line, hquote, hcolon, hkey, hgap, hv, hrest]

end

/-- **Text over several lines is read back**, with the line end that a file closes with. -/
theorem read_pretty {v : Json ν} (h : v.Distinct) : read (pretty 0 v ++ ['\n']) = some v := by
  have hread := readValue_pretty v 0 (2 * (pretty 0 v ++ ['\n']).length + 1) ['\n'] h
    (by intro c hc; cases hc; decide) (by rw [List.length_append]; omega)
  rw [read, hread]
  exact if_pos (by decide)

end Json

namespace Value

variable {ν : Type} [JsNumber ν]

/-- The bytes of a file the value is written to: its text over several lines, and a line end. -/
def document (v : Value ν) : Bytes := utf8 (v.json.pretty 0 ++ ['\n'])

theorem parse_document (v : Value ν) : parse v.document = some v := by
  have hread := Json.read_pretty v.distinct
  unfold parse document
  split
  · rename_i j hj
    rw [readUtf8_utf8, hread] at hj
    cases hj
    rfl
  · rename_i hj
    rw [readUtf8_utf8, hread] at hj
    cases hj

end Value

end Lib
end XBus
