import XBus.Lib.Utf8
import Mathlib.Data.List.Forall2

/-!
# `Lib/Json.lean` — JSON values, their text, and reading it back

A string is what the language has: code units of sixteen bits, lone surrogates among them. Its text
is well-formed all the same, because a lone surrogate is written as an escape. Numbers stay
abstract: `JsNumber` says that a number is written as a numeral of the JSON grammar, and that
reading the numeral gives the number back. An object is its members in order; `Distinct` says that
no key of it occurs twice, and a `Value` carries that, since nothing else is an object.

`parse` reads any text (white space, escapes nobody needed, repeated keys where the last one
counts), and **`parse_text`** is the round trip.
-/

set_option autoImplicit false

namespace XBus
namespace Lib

/-! ## Strings -/

abbrev JsString := List UInt16

-- A name of its own, so that membership is decided by one term wherever strings are compared.
instance : LawfulBEq JsString := inferInstance

def isHigh (u : UInt16) : Bool := 0xd800 ≤ u.toNat && u.toNat < 0xdc00

def isLow (u : UInt16) : Bool := 0xdc00 ≤ u.toNat && u.toNat < 0xe000

/-- The code units of a character. -/
def units (c : Char) : JsString :=
  if c.toNat < 0x10000 then [UInt16.ofNat c.toNat]
  else [UInt16.ofNat (0xd800 + (c.toNat - 0x10000) / 0x400),
    UInt16.ofNat (0xdc00 + (c.toNat - 0x10000) % 0x400)]

/-- The character of a surrogate pair. -/
def pairChar (u v : UInt16) : Char :=
  Char.ofNat (0x10000 + (u.toNat - 0xd800) * 0x400 + (v.toNat - 0xdc00))

def utf16 (s : String) : JsString := s.toList.flatMap units

/-- White space and line terminators of the host language, which `trim` removes. -/
def isJsSpace (u : UInt16) : Bool :=
  (9 ≤ u && u ≤ 13) || u == 32 || u == 160 || u == 0x1680 || (0x2000 ≤ u && u ≤ 0x200a) ||
    u == 0x2028 || u == 0x2029 || u == 0x202f || u == 0x205f || u == 0x3000 || u == 0xfeff

def jsTrim (s : JsString) : JsString :=
  ((s.dropWhile isJsSpace).reverse.dropWhile isJsSpace).reverse

def hexDigit (d : Nat) : Char := Char.ofNat (if d < 10 then 48 + d else 87 + d)

def hexValue (c : Char) : Option Nat :=
  let n := c.toNat
  if 48 ≤ n ∧ n ≤ 57 then some (n - 48)
  else if 97 ≤ n ∧ n ≤ 102 then some (n - 87)
  else if 65 ≤ n ∧ n ≤ 70 then some (n - 55)
  else none

def hexEscape (u : UInt16) : List Char :=
  ['\\', 'u', hexDigit (u.toNat / 4096 % 16), hexDigit (u.toNat / 256 % 16),
    hexDigit (u.toNat / 16 % 16), hexDigit (u.toNat % 16)]

def readHex (a b c d : Char) : Option UInt16 :=
  match hexValue a, hexValue b, hexValue c, hexValue d with
  | some p, some q, some r, some s => some (UInt16.ofNat (p * 4096 + q * 256 + r * 16 + s))
  | _, _, _, _ => none

/-- The letter of a unit's two-character escape, if it has one. -/
def shortEscape (u : UInt16) : Option Char :=
  match u.toNat with
  | 8 => some 'b'
  | 9 => some 't'
  | 10 => some 'n'
  | 12 => some 'f'
  | 13 => some 'r'
  | 34 => some '"'
  | 92 => some '\\'
  | _ => none

def unescape (c : Char) : Option UInt16 :=
  if c = 'b' then some 8
  else if c = 't' then some 9
  else if c = 'n' then some 10
  else if c = 'f' then some 12
  else if c = 'r' then some 13
  else if c = '"' then some 34
  else if c = '\\' then some 92
  else if c = '/' then some 47
  else none

/-- A unit that is not the first of a pair. -/
def escapeUnit (u : UInt16) : List Char :=
  match shortEscape u with
  | some c => ['\\', c]
  | none => if u.toNat < 32 || isHigh u || isLow u then hexEscape u else [Char.ofNat u.toNat]

/-- The units, escaped, and the closing quote. -/
def quoted : JsString → List Char
  | [] => ['"']
  | u :: s =>
    match s with
    | [] => escapeUnit u ++ quoted []
    | v :: s' =>
      if isHigh u && isLow v then pairChar u v :: quoted s'
      else escapeUnit u ++ quoted (v :: s')

def quote (s : JsString) : List Char := '"' :: quoted s

/-- What stands behind an opening quote, up to the closing one. -/
def readString : List Char → Option (JsString × List Char)
  | [] => none
  | c :: r =>
    if c = '"' then some ([], r)
    else if c = '\\' then
      match r with
      | [] => none
      | e :: r' =>
        if e = 'u' then
          match r' with
          | p :: q :: s :: t :: r'' =>
            match readHex p q s t with
            | some u => (readString r'').map fun out => (u :: out.1, out.2)
            | none => none
          | _ => none
        else
          match unescape e with
          | some u => (readString r').map fun out => (u :: out.1, out.2)
          | none => none
    else if c.toNat < 32 then none
    else (readString r).map fun out => (units c ++ out.1, out.2)

theorem hexValue_hexDigit {d : Nat} (h : d < 16) : hexValue (hexDigit d) = some d := by
  have hall : ∀ d : Fin 16, hexValue (hexDigit d) = some d.val := by decide
  exact hall ⟨d, h⟩

theorem readString_hexEscape (u : UInt16) (r : List Char) :
    readString (hexEscape u ++ r) = (readString r).map fun out => (u :: out.1, out.2) := by
  have hu := u.toNat_lt
  have hread : readHex (hexDigit (u.toNat / 4096 % 16)) (hexDigit (u.toNat / 256 % 16))
      (hexDigit (u.toNat / 16 % 16)) (hexDigit (u.toNat % 16)) = some u := by
    simp only [readHex, hexValue_hexDigit (Nat.mod_lt _ (by decide : 0 < 16)), Option.some.injEq]
    rw [show u.toNat / 4096 % 16 * 4096 + u.toNat / 256 % 16 * 256 + u.toNat / 16 % 16 * 16
      + u.toNat % 16 = u.toNat by omega]
    exact UInt16.ofNat_toNat
  simp only [hexEscape, List.cons_append, List.nil_append]
  rw [readString.eq_def]
  simp [hread]

theorem shortEscape_spec {u : UInt16} {c : Char} (h : shortEscape u = some c) :
    unescape c = some u ∧ c ≠ 'u' := by
  have hu : UInt16.ofNat u.toNat = u := UInt16.ofNat_toNat
  unfold shortEscape at h
  split at h
  all_goals
    first
    | (rename_i heq; rw [heq] at hu; cases h; subst hu; decide)
    | cases h

theorem readString_short {u : UInt16} {c : Char} (h : shortEscape u = some c) (r : List Char) :
    readString ('\\' :: c :: r) = (readString r).map fun out => (u :: out.1, out.2) := by
  obtain ⟨hc, hne⟩ := shortEscape_spec h
  rw [readString.eq_def]
  simp [hne, hc]

theorem toNat_ofNat_char {n : Nat} (h : n < 0xd800 ∨ 0xdfff < n ∧ n < 0x110000) :
    (Char.ofNat n).toNat = n := by
  have hv : n.isValidChar := h
  have haux : Char.ofNat n = Char.ofNatAux n hv := dif_pos hv
  rw [haux]
  rfl

/-- A character that stands for itself in a string. -/
theorem readString_plain {c : Char} (hc : 32 ≤ c.toNat) (hquote : c.toNat ≠ 34)
    (hslash : c.toNat ≠ 92) (r : List Char) :
    readString (c :: r) = (readString r).map fun out => (units c ++ out.1, out.2) := by
  have hne : c ≠ '"' ∧ c ≠ '\\' := by
    constructor <;> (rintro rfl; simp at *)
  rw [readString.eq_def]
  simp [hne, Nat.not_lt.mpr hc]

theorem readString_escapeUnit (u : UInt16) (r : List Char) :
    readString (escapeUnit u ++ r) = (readString r).map fun out => (u :: out.1, out.2) := by
  unfold escapeUnit
  cases hshort : shortEscape u with
  | some c => exact readString_short hshort r
  | none =>
    by_cases hesc : (decide (u.toNat < 32) || isHigh u || isLow u) = true
    · simp only [hesc, if_true]
      exact readString_hexEscape u r
    · have hlt := u.toNat_lt
      have hplain : 32 ≤ u.toNat ∧ (u.toNat < 0xd800 ∨ 0xdfff < u.toNat) := by
        simp [isHigh, isLow] at hesc
        omega
      have hnat : (Char.ofNat u.toNat).toNat = u.toNat := toNat_ofNat_char (by omega)
      have h34 : u.toNat ≠ 34 := by
        intro h
        simp [shortEscape, h] at hshort
      have h92 : u.toNat ≠ 92 := by
        intro h
        simp [shortEscape, h] at hshort
      have hunits : units (Char.ofNat u.toNat) = [u] := by
        rw [units, hnat, if_pos (by omega), UInt16.ofNat_toNat]
      simp only [hesc, if_neg, List.singleton_append, Bool.false_eq_true, not_false_iff]
      rw [readString_plain (by omega) (by omega) (by omega), hunits]
      rfl

theorem units_pairChar {u v : UInt16} (hu : isHigh u) (hv : isLow v) :
    units (pairChar u v) = [u, v] := by
  simp only [isHigh, isLow, Bool.and_eq_true, decide_eq_true_eq] at hu hv
  have hnat : (pairChar u v).toNat
      = 0x10000 + (u.toNat - 0xd800) * 0x400 + (v.toNat - 0xdc00) :=
    toNat_ofNat_char (by omega)
  rw [units, hnat, if_neg (by omega)]
  rw [show 0xd800 + (0x10000 + (u.toNat - 0xd800) * 0x400 + (v.toNat - 0xdc00) - 0x10000) / 0x400
    = u.toNat by omega]
  rw [show 0xdc00 + (0x10000 + (u.toNat - 0xd800) * 0x400 + (v.toNat - 0xdc00) - 0x10000) % 0x400
    = v.toNat by omega]
  rw [UInt16.ofNat_toNat, UInt16.ofNat_toNat]

theorem readString_pair {u v : UInt16} (hu : isHigh u) (hv : isLow v) (r : List Char) :
    readString (pairChar u v :: r) = (readString r).map fun out => (u :: v :: out.1, out.2) := by
  have hunits := units_pairChar hu hv
  simp only [isHigh, isLow, Bool.and_eq_true, decide_eq_true_eq] at hu hv
  have hnat : (pairChar u v).toNat
      = 0x10000 + (u.toNat - 0xd800) * 0x400 + (v.toNat - 0xdc00) :=
    toNat_ofNat_char (by omega)
  rw [readString_plain (by omega) (by omega) (by omega), hunits]
  rfl

/-- **A quoted string is read back**, whatever follows the closing quote. -/
theorem readString_quoted (s : JsString) (r : List Char) :
    readString (quoted s ++ r) = some (s, r) := by
  induction s using quoted.induct with
  | case1 =>
    rw [quoted, List.singleton_append, readString.eq_def]
    rfl
  | case2 u ih => rw [quoted, List.append_assoc, readString_escapeUnit, ih]; rfl
  | case3 u v s hpair ih =>
    simp only [Bool.and_eq_true] at hpair
    rw [quoted, if_pos (by simp [hpair]), List.cons_append, readString_pair hpair.1 hpair.2, ih]
    rfl
  | case4 u v s hpair ih =>
    rw [quoted, if_neg hpair, List.append_assoc, readString_escapeUnit, ih]
    rfl

/-! Characters that are written as they are, in one byte. -/

def isPlain (c : Char) : Bool :=
  32 ≤ c.toNat && c.toNat < 127 && c.toNat != 34 && c.toNat != 92

theorem quoted_cons {u : UInt16} (h : isHigh u = false) (s : JsString) :
    quoted (u :: s) = escapeUnit u ++ quoted s := by
  cases s with
  | nil => rw [quoted.eq_def]
  | cons v s => rw [quoted, if_neg (by simp [h])]

theorem quoted_plain {cs : List Char} (h : ∀ c ∈ cs, isPlain c) :
    quoted (cs.flatMap units) = cs ++ ['"'] := by
  induction cs with
  | nil => simp [quoted]
  | cons c cs ih =>
    obtain ⟨hc, hrest⟩ := List.forall_mem_cons.mp h
    simp only [isPlain, Bool.and_eq_true, decide_eq_true_eq, bne_iff_ne, ne_eq] at hc
    have hunits : units c = [UInt16.ofNat c.toNat] := by rw [units, if_pos (by omega)]
    have hnat : (UInt16.ofNat c.toNat).toNat = c.toNat := by
      rw [UInt16.toNat_ofNat']
      omega
    have hhigh : isHigh (UInt16.ofNat c.toNat) = false := by
      simp only [isHigh, hnat, Bool.and_eq_false_iff, decide_eq_false_iff_not]
      omega
    have hshort : shortEscape (UInt16.ofNat c.toNat) = none := by
      unfold shortEscape
      rw [hnat]
      split <;> first | omega | rfl
    have hlow : isLow (UInt16.ofNat c.toNat) = false := by
      simp only [isLow, hnat, Bool.and_eq_false_iff, decide_eq_false_iff_not]
      omega
    have hesc : escapeUnit (UInt16.ofNat c.toNat) = [c] := by
      have h32 : ¬ c.toNat < 32 := by omega
      simp [escapeUnit, hshort, hnat, hhigh, hlow, h32, Char.ofNat_toNat]
    rw [List.flatMap_cons, hunits, List.singleton_append, quoted_cons hhigh, hesc, ih hrest]
    rfl

theorem length_utf8_plain {cs : List Char} (h : ∀ c ∈ cs, isPlain c) :
    (utf8 cs).length = cs.length := by
  induction cs with
  | nil => rfl
  | cons c cs ih =>
    obtain ⟨hc, hrest⟩ := List.forall_mem_cons.mp h
    simp only [isPlain, Bool.and_eq_true, decide_eq_true_eq] at hc
    have hsize : c.utf8Size = 1 := by
      rw [Char.utf8Size_eq_one_iff]
      have hval : c.val.toNat ≤ 127 := by
        have hdef : c.val.toNat = c.toNat := rfl
        omega
      exact UInt32.le_iff_toNat_le.mpr hval
    rw [utf8_cons, List.length_append, String.length_utf8EncodeChar, hsize, ih hrest,
      List.length_cons, Nat.add_comm]

/-! ## Numbers -/

def isNumberChar (c : Char) : Bool :=
  c.isDigit || c == '-' || c == '+' || c == '.' || c == 'e' || c == 'E'

def exponentPart : List Char → Bool
  | [] => true
  | c :: r =>
    let digits := match r with
      | '+' :: r' => r'
      | '-' :: r' => r'
      | r => r
    (c == 'e' || c == 'E') && !digits.isEmpty && digits.all Char.isDigit

def fractionPart : List Char → Bool
  | '.' :: r => !(r.takeWhile Char.isDigit).isEmpty && exponentPart (r.dropWhile Char.isDigit)
  | r => exponentPart r

def unsignedNumeral (cs : List Char) : Bool :=
  let whole := cs.takeWhile Char.isDigit
  !whole.isEmpty && (whole.head? != some '0' || whole.length == 1)
    && fractionPart (cs.dropWhile Char.isDigit)

/-- The number grammar of JSON. -/
def numeral (cs : List Char) : Bool :=
  cs.all isNumberChar && match cs with
    | '-' :: r => unsignedNumeral r
    | r => unsignedNumeral r

/-- Numbers, as far as JSON is concerned: a finite number is written as a numeral, and the numeral
    reads as the number. -/
class JsNumber (ν : Type) where
  toText : ν → List Char
  ofText : List Char → ν
  numeral_toText : ∀ n, numeral (toText n)
  ofText_toText : ∀ n, ofText (toText n) = n

/-! The integers among the numbers. -/

theorem toDigits_head {n : Nat} (hn : 0 < n) : (Nat.toDigits 10 n).head? ≠ some '0' := by
  have hdigit : ∀ m : Fin 10, 0 < m.val → m.val.digitChar ≠ '0' := by decide
  induction n using Nat.strongRecOn with
  | ind n ih =>
    rw [Nat.toDigits_eq_if (by decide)]
    split
    · rename_i hlt
      intro h
      exact hdigit ⟨n, hlt⟩ hn (Option.some.inj h)
    · have hne : Nat.toDigits 10 (n / 10) ≠ [] := Nat.toDigits_ne_nil
      rw [List.head?_append_of_ne_nil _ hne]
      exact ih (n / 10) (by omega) (by omega)

theorem unsignedNumeral_toDigits (n : Nat) : unsignedNumeral (Nat.toDigits 10 n) := by
  have hall : ∀ c ∈ Nat.toDigits 10 n, c.isDigit := fun c hc =>
    Nat.isDigit_of_mem_toDigits (by decide) (by decide) hc
  have htake : (Nat.toDigits 10 n).takeWhile Char.isDigit = Nat.toDigits 10 n := by
    rw [← List.append_nil (Nat.toDigits 10 n), List.takeWhile_append_of_pos hall]
    rfl
  have hdrop : (Nat.toDigits 10 n).dropWhile Char.isDigit = [] := by
    rw [← List.append_nil (Nat.toDigits 10 n), List.dropWhile_append_of_pos hall]
    rfl
  have hne : Nat.toDigits 10 n ≠ [] := Nat.toDigits_ne_nil
  have hhead : (Nat.toDigits 10 n).head? ≠ some '0' ∨ (Nat.toDigits 10 n).length = 1 := by
    rcases Nat.eq_zero_or_pos n with rfl | hn
    · exact .inr (by decide)
    · exact .inl (toDigits_head hn)
  simpa [unsignedNumeral, htake, hdrop, hne, fractionPart, exponentPart] using hhead

theorem numberChars_toDigits (n : Nat) : (Nat.toDigits 10 n).all isNumberChar := by
  rw [List.all_eq_true]
  intro c hc
  have hdigit := Nat.isDigit_of_mem_toDigits (by decide) (by decide) hc
  simp [isNumberChar, hdigit]

def intText (n : Int) : List Char :=
  if n < 0 then '-' :: Nat.toDigits 10 n.natAbs else Nat.toDigits 10 n.natAbs

def intOfText : List Char → Int
  | [] => 0
  | c :: r =>
    if c = '-' then - (Nat.ofDigitChars 10 (r.takeWhile Char.isDigit) 0 : Int)
    else Nat.ofDigitChars 10 ((c :: r).takeWhile Char.isDigit) 0

theorem toDigits_cons (n : Nat) : ∃ c r, Nat.toDigits 10 n = c :: r ∧ c ≠ '-' := by
  cases h : Nat.toDigits 10 n with
  | nil => exact absurd h Nat.toDigits_ne_nil
  | cons c r =>
    have hdigit : c.isDigit :=
      Nat.isDigit_of_mem_toDigits (by decide) (by decide) (h ▸ List.mem_cons_self ..)
    refine ⟨c, r, rfl, ?_⟩
    rintro rfl
    exact absurd hdigit (by decide)

theorem numeral_intText (n : Int) : numeral (intText n) := by
  have hdigits := unsignedNumeral_toDigits n.natAbs
  have hchars := numberChars_toDigits n.natAbs
  obtain ⟨c, r, hcons, hc⟩ := toDigits_cons n.natAbs
  unfold intText numeral
  split
  · simp [hdigits, hchars, isNumberChar]
  · rw [hcons] at hdigits hchars ⊢
    simp only [hchars, Bool.true_and]
    split
    · rename_i heq
      exact absurd (List.cons.inj heq).1 hc
    · exact hdigits

theorem intOfText_intText (n : Int) : intOfText (intText n) = n := by
  have hall : ∀ c ∈ Nat.toDigits 10 n.natAbs, c.isDigit := fun c hc =>
    Nat.isDigit_of_mem_toDigits (by decide) (by decide) hc
  have htake : (Nat.toDigits 10 n.natAbs).takeWhile Char.isDigit = Nat.toDigits 10 n.natAbs := by
    rw [← List.append_nil (Nat.toDigits 10 n.natAbs), List.takeWhile_append_of_pos hall]
    rfl
  have hvalue : Nat.ofDigitChars 10 (Nat.toDigits 10 n.natAbs) 0 = n.natAbs :=
    Nat.ofDigitChars_ten_toDigits
  unfold intText
  split
  · simp only [intOfText, if_true, htake, hvalue]
    omega
  · obtain ⟨c, r, hcons, hc⟩ := toDigits_cons n.natAbs
    rw [hcons] at htake hvalue ⊢
    simp only [intOfText, hc, if_false, htake, hvalue]
    omega

instance : JsNumber Int where
  toText := intText
  ofText := intOfText
  numeral_toText := numeral_intText
  ofText_toText := intOfText_intText

/-! ## Values and their text -/

inductive Json (ν : Type) where
  | null
  | bool (b : Bool)
  | num (n : ν)
  | str (s : JsString)
  | arr (items : List (Json ν))
  | obj (members : List (JsString × Json ν))

namespace Json

variable {ν : Type}

def comma (first : Bool) : List Char := if first then [] else [',']

mutual

def text [JsNumber ν] : Json ν → List Char
  | .null => ['n', 'u', 'l', 'l']
  | .bool true => ['t', 'r', 'u', 'e']
  | .bool false => ['f', 'a', 'l', 's', 'e']
  | .num n => JsNumber.toText n
  | .str s => quote s
  | .arr xs => '[' :: itemsText true xs
  | .obj ms => '{' :: membersText true ms

def itemsText [JsNumber ν] (first : Bool) : List (Json ν) → List Char
  | [] => [']']
  | x :: xs => comma first ++ text x ++ itemsText false xs

def membersText [JsNumber ν] (first : Bool) : List (JsString × Json ν) → List Char
  | [] => ['}']
  | (k, v) :: ms => comma first ++ quote k ++ ':' :: text v ++ membersText false ms

end

mutual

/-- No object in the value has a key twice. -/
def Distinct : Json ν → Prop
  | .arr xs => DistinctItems xs
  | .obj ms => (ms.map (·.1)).Nodup ∧ DistinctMembers ms
  | _ => True

def DistinctItems : List (Json ν) → Prop
  | [] => True
  | x :: xs => x.Distinct ∧ DistinctItems xs

def DistinctMembers : List (JsString × Json ν) → Prop
  | [] => True
  | (_, v) :: ms => v.Distinct ∧ DistinctMembers ms

end

/-! ## Reading -/

def isSpace (c : Char) : Bool := c == ' ' || c == '\t' || c == '\n' || c == '\r'

def skip (cs : List Char) : List Char := cs.dropWhile isSpace

/-- What stands behind `word`. -/
def behind (word cs : List Char) : Option (List Char) :=
  if word.isPrefixOf cs then some (cs.drop word.length) else none

def afterComma (first : Bool) (cs : List Char) : Option (List Char) :=
  if first then some cs else behind [','] cs

/-- A repeated key keeps its place and takes the new value. -/
def setMember (ms : List (JsString × Json ν)) (k : JsString) (v : Json ν) :
    List (JsString × Json ν) :=
  if k ∈ ms.map (·.1) then ms.map fun m => if m.1 = k then (k, v) else m else ms ++ [(k, v)]

def setMembers (ms : List (JsString × Json ν)) : List (JsString × Json ν) :=
  ms.foldl (fun out m => setMember out m.1 m.2) []

def readNumber [JsNumber ν] (cs : List Char) : Option (Json ν × List Char) :=
  let digits := cs.takeWhile isNumberChar
  if numeral digits then some (.num (JsNumber.ofText digits), cs.dropWhile isNumberChar) else none

mutual

/-- The first argument bounds the depth of the calls; two for every character are enough. -/
def readValue [JsNumber ν] : Nat → List Char → Option (Json ν × List Char)
  | 0, _ => none
  | n + 1, cs =>
    match skip cs with
    | [] => none
    | c :: r =>
      if c = '"' then (readString r).map fun out => (.str out.1, out.2)
      else if c = '[' then (readItems n true r).map fun out => (.arr out.1, out.2)
      else if c = '{' then (readMembers n true r).map fun out => (.obj (setMembers out.1), out.2)
      else if c = 'n' then (behind ['u', 'l', 'l'] r).map fun r => (.null, r)
      else if c = 't' then (behind ['r', 'u', 'e'] r).map fun r => (.bool true, r)
      else if c = 'f' then (behind ['a', 'l', 's', 'e'] r).map fun r => (.bool false, r)
      else readNumber (c :: r)

def readItems [JsNumber ν] : Nat → Bool → List Char → Option (List (Json ν) × List Char)
  | 0, _, _ => none
  | n + 1, first, cs =>
    match skip cs with
    | [] => none
    | c :: r =>
      if c = ']' then some ([], r)
      else do
        let r ← afterComma first (c :: r)
        let (x, r) ← readValue n r
        let (xs, r) ← readItems n false r
        return (x :: xs, r)

def readMembers [JsNumber ν] : Nat → Bool → List Char →
    Option (List (JsString × Json ν) × List Char)
  | 0, _, _ => none
  | n + 1, first, cs =>
    match skip cs with
    | [] => none
    | c :: r =>
      if c = '}' then some ([], r)
      else do
        let r ← afterComma first (c :: r)
        let r ← behind ['"'] (skip r)
        let (k, r) ← readString r
        let r ← behind [':'] (skip r)
        let (v, r) ← readValue n r
        let (ms, r) ← readMembers n false r
        return ((k, v) :: ms, r)

end

/-- A whole text: one value and white space around it. -/
def read [JsNumber ν] (cs : List Char) : Option (Json ν) :=
  match readValue (2 * cs.length + 1) cs with
  | some (v, r) => if skip r = [] then some v else none
  | none => none

/-! ## The round trip -/

/-- Nothing that would lengthen a number stands in front. -/
def EndsNumber (r : List Char) : Prop := ∀ c, r.head? = some c → isNumberChar c = false

theorem skip_cons {c : Char} (h : isSpace c = false) (r : List Char) : skip (c :: r) = c :: r := by
  simp [skip, h]

@[simp] theorem behind_nil (cs : List Char) : behind [] cs = some cs := rfl

@[simp] theorem behind_cons (c : Char) (word cs : List Char) :
    behind (c :: word) (c :: cs) = behind word cs := by
  simp [behind]

theorem numeral_head {cs : List Char} (h : numeral cs) :
    ∃ c r, cs = c :: r ∧ isNumberChar c ∧ ∀ d ∈ r, isNumberChar d := by
  simp only [numeral, Bool.and_eq_true] at h
  obtain ⟨hall, hgrammar⟩ := h
  cases cs with
  | nil => simp [unsignedNumeral] at hgrammar
  | cons c r =>
    rw [List.all_cons, Bool.and_eq_true, List.all_eq_true] at hall
    exact ⟨c, r, rfl, hall.1, hall.2⟩

theorem takeWhile_ends {cs r : List Char} (hcs : ∀ c ∈ cs, isNumberChar c) (hr : EndsNumber r) :
    (cs ++ r).takeWhile isNumberChar = cs ∧ (cs ++ r).dropWhile isNumberChar = r := by
  have hend : r.takeWhile isNumberChar = [] ∧ r.dropWhile isNumberChar = r := by
    cases r with
    | nil => exact ⟨rfl, rfl⟩
    | cons c r =>
      have hc := hr c rfl
      simp [hc]
  constructor
  · rw [List.takeWhile_append_of_pos hcs, hend.1, List.append_nil]
  · rw [List.dropWhile_append_of_pos hcs, hend.2]

/-- A character that starts a number starts nothing else. -/
theorem numberChar_ne {c : Char} (h : isNumberChar c) :
    c ≠ '"' ∧ c ≠ '[' ∧ c ≠ '{' ∧ c ≠ 'n' ∧ c ≠ 't' ∧ c ≠ 'f' ∧ c ≠ ']' ∧ c ≠ '}' ∧
      isSpace c = false := by
  refine ⟨?_, ?_, ?_, ?_, ?_, ?_, ?_, ?_, ?_⟩
  case refine_9 =>
    simp only [isSpace, Bool.or_eq_false_iff, beq_eq_false_iff_ne, ne_eq]
    refine ⟨⟨⟨?_, ?_⟩, ?_⟩, ?_⟩ <;> (rintro rfl; exact absurd h (by decide))
  all_goals (rintro rfl; exact absurd h (by decide))

variable [JsNumber ν]

theorem text_head (v : Json ν) :
    ∃ c r, text v = c :: r ∧ isSpace c = false ∧ c ≠ ']' ∧ c ≠ '}' := by
  cases v with
  | null => exact ⟨'n', _, by rw [text], by decide⟩
  | bool b => cases b with
    | true => exact ⟨'t', _, by rw [text], by decide⟩
    | false => exact ⟨'f', _, by rw [text], by decide⟩
  | num n =>
    obtain ⟨c, r, hcs, hc, -⟩ := numeral_head (JsNumber.numeral_toText n)
    have hne := numberChar_ne hc
    exact ⟨c, r, by rw [text, hcs], hne.2.2.2.2.2.2.2.2, hne.2.2.2.2.2.2.1, hne.2.2.2.2.2.2.2.1⟩
  | str s => exact ⟨'"', _, by rw [text, quote], by decide⟩
  | arr xs => exact ⟨'[', _, by rw [text], by decide⟩
  | obj ms => exact ⟨'{', _, by rw [text], by decide⟩

theorem text_length_pos (v : Json ν) : 0 < (text v).length := by
  obtain ⟨c, r, h, -⟩ := text_head v
  simp [h]

theorem readNumber_text (n : ν) {r : List Char} (hr : EndsNumber r) :
    readNumber (JsNumber.toText n ++ r) = some (.num n, r) := by
  obtain ⟨c, cs, hcs, hc, hrest⟩ := numeral_head (JsNumber.numeral_toText n)
  have hall : ∀ d ∈ JsNumber.toText n, isNumberChar d := by
    rw [hcs]
    simpa using ⟨hc, hrest⟩
  obtain ⟨htake, hdrop⟩ := takeWhile_ends hall hr
  simp only [readNumber, htake, hdrop, JsNumber.numeral_toText, if_true, JsNumber.ofText_toText]

theorem endsNumber_items (xs : List (Json ν)) (r : List Char) :
    EndsNumber (itemsText false xs ++ r) := by
  intro c hc
  cases xs with
  | nil => rw [itemsText] at hc; cases hc; decide
  | cons x xs => rw [itemsText] at hc; cases hc; decide

theorem endsNumber_members (ms : List (JsString × Json ν)) (r : List Char) :
    EndsNumber (membersText false ms ++ r) := by
  intro c hc
  cases ms with
  | nil => rw [membersText] at hc; cases hc; decide
  | cons m ms => rw [membersText] at hc; cases hc; decide

omit [JsNumber ν] in
theorem foldl_setMember (ms out : List (JsString × Json ν))
    (h : ((out ++ ms).map (·.1)).Nodup) :
    ms.foldl (fun out m => setMember out m.1 m.2) out = out ++ ms := by
  induction ms generalizing out with
  | nil => simp
  | cons m ms ih =>
    have hfresh : m.1 ∉ out.map (·.1) := by
      intro hm
      rw [List.map_append, List.map_cons] at h
      exact (List.nodup_append.mp h).2.2 _ hm _ (List.mem_cons_self ..) rfl
    have hset : setMember out m.1 m.2 = out ++ [m] := by rw [setMember, if_neg hfresh]
    rw [List.foldl_cons, hset, ih _ (by simpa using h)]
    simp

omit [JsNumber ν] in
theorem setMembers_eq {ms : List (JsString × Json ν)} (h : (ms.map (·.1)).Nodup) :
    setMembers ms = ms := foldl_setMember ms [] h

/-- What the reader does at a value that starts with `c`. -/
theorem readValue_cons {c : Char} (hc : isSpace c = false) (n : Nat) (r : List Char) :
    (readValue (n + 1) (c :: r) : Option (Json ν × List Char)) =
      if c = '"' then (readString r).map fun out => (.str out.1, out.2)
      else if c = '[' then (readItems n true r).map fun out => (.arr out.1, out.2)
      else if c = '{' then (readMembers n true r).map fun out => (.obj (setMembers out.1), out.2)
      else if c = 'n' then (behind ['u', 'l', 'l'] r).map fun r => (.null, r)
      else if c = 't' then (behind ['r', 'u', 'e'] r).map fun r => (.bool true, r)
      else if c = 'f' then (behind ['a', 'l', 's', 'e'] r).map fun r => (.bool false, r)
      else readNumber (c :: r) := by
  rw [readValue, skip_cons hc]

-- The induction is on the value; the lists inside arrays and objects go along with it.
mutual

theorem readValue_text : ∀ (v : Json ν) (n : Nat) (r : List Char), v.Distinct → EndsNumber r →
    2 * (text v).length ≤ n → readValue n (text v ++ r) = some (v, r) := by
  intro v n r hv hr hn
  obtain ⟨n, rfl⟩ : ∃ m, n = m + 1 := by
    have hpos := text_length_pos v
    exact ⟨n - 1, by omega⟩
  match v with
  | .null =>
    rw [text, List.cons_append, readValue_cons (by decide)]
    simp
  | .bool true =>
    rw [text, List.cons_append, readValue_cons (by decide)]
    simp
  | .bool false =>
    rw [text, List.cons_append, readValue_cons (by decide)]
    simp
  | .num m =>
    obtain ⟨c, cs, hcs, hc, -⟩ := numeral_head (JsNumber.numeral_toText m)
    obtain ⟨h1, h2, h3, h4, h5, h6, -, -, hspace⟩ := numberChar_ne hc
    have hread := readNumber_text m hr
    rw [hcs, List.cons_append] at hread
    rw [text, hcs, List.cons_append, readValue_cons hspace]
    simp only [h1, h2, h3, h4, h5, h6, if_false]
    exact hread
  | .str s =>
    rw [text, quote, List.cons_append, readValue_cons (by decide), if_pos rfl, readString_quoted]
    rfl
  | .arr xs =>
    have hlen : (text (.arr xs)).length = (itemsText true xs).length + 1 := by
      rw [text, List.length_cons]
    have hitems := readItems_text xs true n r (by rwa [Distinct] at hv) (by omega)
    rw [text, List.cons_append, readValue_cons (by decide), if_neg (by decide), if_pos rfl, hitems]
    rfl
  | .obj ms =>
    have hlen : (text (.obj ms)).length = (membersText true ms).length + 1 := by
      rw [text, List.length_cons]
    rw [Distinct] at hv
    have hmembers := readMembers_text ms true n r hv.2 (by omega)
    rw [text, List.cons_append, readValue_cons (by decide), if_neg (by decide), if_neg (by decide),
      if_pos rfl, hmembers]
    simp only [Option.map_some, setMembers_eq hv.1]

theorem readItems_text : ∀ (xs : List (Json ν)) (first : Bool) (n : Nat) (r : List Char),
    DistinctItems xs → 2 * (itemsText first xs).length ≤ n →
    readItems n first (itemsText first xs ++ r) = some (xs, r) := by
  intro xs first n r hxs hn
  match xs with
  | [] =>
    rw [itemsText, List.length_singleton] at hn
    obtain ⟨n, rfl⟩ : ∃ m, n = m + 1 := ⟨n - 1, by omega⟩
    rw [itemsText, List.singleton_append, readItems, skip_cons (by decide)]
    rfl
  | x :: xs =>
    have hpos := text_length_pos x
    have hlen : (itemsText first (x :: xs)).length
        = (comma first).length + (text x).length + (itemsText false xs).length := by
      rw [itemsText, List.length_append, List.length_append]
    have hmore : 0 < (itemsText false xs).length := by
      cases xs <;> simp [itemsText, comma]
    obtain ⟨n, rfl⟩ : ∃ m, n = m + 1 := ⟨n - 1, by omega⟩
    rw [DistinctItems] at hxs
    have hx := readValue_text x n (itemsText false xs ++ r) hxs.1 (endsNumber_items xs r)
      (by omega)
    have hrest := readItems_text xs false n r hxs.2 (by omega)
    obtain ⟨c, cs, hcs, hspace, hclose, -⟩ := text_head x
    cases first with
    | true =>
      have htext : itemsText true (x :: xs) ++ r = c :: (cs ++ (itemsText false xs ++ r)) := by
        simp [itemsText, comma, hcs]
      rw [hcs, List.cons_append] at hx
      rw [htext, readItems, skip_cons hspace]
      simp [afterComma, hclose, hx, hrest]
    | false =>
      have htext :
        itemsText false (x :: xs) ++ r = ',' :: (text x ++ (itemsText false xs ++ r)) := by
        simp [itemsText, comma]
      rw [htext, readItems, skip_cons (by decide)]
      simp [afterComma, hx, hrest]

theorem readMembers_text : ∀ (ms : List (JsString × Json ν)) (first : Bool) (n : Nat)
    (r : List Char), DistinctMembers ms → 2 * (membersText first ms).length ≤ n →
    readMembers n first (membersText first ms ++ r) = some (ms, r) := by
  intro ms first n r hms hn
  match ms with
  | [] =>
    rw [membersText, List.length_singleton] at hn
    obtain ⟨n, rfl⟩ : ∃ m, n = m + 1 := ⟨n - 1, by omega⟩
    rw [membersText, List.singleton_append, readMembers, skip_cons (by decide)]
    rfl
  | (k, v) :: ms =>
    have hpos := text_length_pos v
    have hlen : (membersText first ((k, v) :: ms)).length = (comma first).length
        + (quote k).length + (text v).length + 1 + (membersText false ms).length := by
      simp [membersText]
      omega
    obtain ⟨n, rfl⟩ : ∃ m, n = m + 1 := ⟨n - 1, by omega⟩
    rw [DistinctMembers] at hms
    have hv := readValue_text v n (membersText false ms ++ r) hms.1 (endsNumber_members ms r)
      (by omega)
    have hrest := readMembers_text ms false n r hms.2 (by omega)
    have hkey := readString_quoted k (':' :: (text v ++ (membersText false ms ++ r)))
    have hcolon : ∀ r, skip (':' :: r) = ':' :: r := skip_cons (by decide)
    have hquote : ∀ r, skip ('"' :: r) = '"' :: r := skip_cons (by decide)
    cases first with
    | true =>
      have htext : membersText true ((k, v) :: ms) ++ r
          = '"' :: (quoted k ++ ':' :: (text v ++ (membersText false ms ++ r))) := by
        simp [membersText, comma, quote]
      rw [htext, readMembers, skip_cons (by decide)]
      simp [afterComma, hquote, hcolon, hkey, hv, hrest]
    | false =>
      have htext : membersText false ((k, v) :: ms) ++ r
          = ',' :: '"' :: (quoted k ++ ':' :: (text v ++ (membersText false ms ++ r))) := by
        simp [membersText, comma, quote]
      rw [htext, readMembers, skip_cons (by decide)]
      simp [afterComma, hquote, hcolon, hkey, hv, hrest]

end

/-! ## What is read has no key twice -/

section Keys

omit [JsNumber ν]

variable {ms : List (JsString × Json ν)} {k : JsString} {v : Json ν}

theorem distinctMembers_iff : DistinctMembers ms ↔ ∀ m ∈ ms, m.2.Distinct := by
  induction ms with
  | nil => simp [DistinctMembers]
  | cons m ms ih => rw [DistinctMembers, ih, List.forall_mem_cons]

theorem setMember_keys (h : (ms.map (·.1)).Nodup) : ((setMember ms k v).map (·.1)).Nodup := by
  unfold setMember
  split
  · have hsame : (ms.map fun m => if m.1 = k then (k, v) else m).map (·.1) = ms.map (·.1) := by
      rw [List.map_map]
      apply List.map_congr_left
      intro m _
      simp only [Function.comp]
      split <;> simp_all
    rwa [hsame]
  · rename_i hk
    rw [List.map_append, List.nodup_append]
    refine ⟨h, by simp, ?_⟩
    intro a ha b hb hab
    simp only [List.map_cons, List.map_nil, List.mem_singleton] at hb
    exact hk (hb ▸ hab ▸ ha)

theorem setMember_values (h : DistinctMembers ms) (hv : v.Distinct) :
    DistinctMembers (setMember ms k v) := by
  rw [distinctMembers_iff] at h ⊢
  intro m hm
  unfold setMember at hm
  split at hm
  · obtain ⟨m₀, hm₀, rfl⟩ := List.mem_map.mp hm
    split
    · exact hv
    · exact h m₀ hm₀
  · rcases List.mem_append.mp hm with hm | hm
    · exact h m hm
    · rw [List.mem_singleton.mp hm]
      exact hv

theorem setMembers_distinct (h : DistinctMembers ms) : (obj (setMembers ms)).Distinct := by
  have hfold : ∀ (ms out : List (JsString × Json ν)), DistinctMembers ms →
      (obj out).Distinct →
      (obj (ms.foldl (fun out m => setMember out m.1 m.2) out)).Distinct := by
    intro ms
    induction ms with
    | nil => exact fun _ _ hout => hout
    | cons m ms ih =>
      intro out hms hout
      rw [DistinctMembers] at hms
      rw [Distinct] at hout
      apply ih _ hms.2
      rw [Distinct]
      exact ⟨setMember_keys hout.1, setMember_values hout.2 hms.1⟩
  exact hfold ms [] h (by simp [Distinct, DistinctMembers])

end Keys

/-- The three readers at one depth. -/
structure ReadsDistinct (ν : Type) [JsNumber ν] (n : Nat) : Prop where
  value : ∀ cs (v : Json ν) r, readValue n cs = some (v, r) → v.Distinct
  items : ∀ first cs (xs : List (Json ν)) r, readItems n first cs = some (xs, r) → DistinctItems xs
  members : ∀ first cs (ms : List (JsString × Json ν)) r,
    readMembers n first cs = some (ms, r) → DistinctMembers ms

theorem readNumber_distinct {cs : List Char} {v : Json ν} {r : List Char}
    (h : readNumber cs = some (v, r)) : v.Distinct := by
  simp only [readNumber] at h
  split at h
  · cases h
    simp [Distinct]
  · cases h

theorem ReadsDistinct.succ_value {n : Nat} (ih : ReadsDistinct ν n) (cs : List Char) (v : Json ν)
    (r : List Char) (h : readValue (n + 1) cs = some (v, r)) : v.Distinct := by
  rw [readValue] at h
  cases hskip : skip cs with
  | nil => simp [hskip] at h
  | cons c rest =>
    simp only [hskip] at h
    split_ifs at h
    · obtain ⟨out, -, hout⟩ := Option.map_eq_some_iff.mp h
      cases hout
      simp [Distinct]
    · obtain ⟨out, hread, hout⟩ := Option.map_eq_some_iff.mp h
      cases hout
      rw [Distinct]
      exact ih.items true rest out.1 out.2 hread
    · obtain ⟨out, hread, hout⟩ := Option.map_eq_some_iff.mp h
      cases hout
      exact setMembers_distinct (ih.members true rest out.1 out.2 hread)
    · obtain ⟨out, -, hout⟩ := Option.map_eq_some_iff.mp h
      cases hout
      simp [Distinct]
    · obtain ⟨out, -, hout⟩ := Option.map_eq_some_iff.mp h
      cases hout
      simp [Distinct]
    · obtain ⟨out, -, hout⟩ := Option.map_eq_some_iff.mp h
      cases hout
      simp [Distinct]
    · exact readNumber_distinct h

theorem readsDistinct (n : Nat) : ReadsDistinct ν n := by
  induction n with
  | zero =>
    constructor
    · intro cs v r h
      simp [readValue] at h
    · intro first cs xs r h
      simp [readItems] at h
    · intro first cs ms r h
      simp [readMembers] at h
  | succ n ih =>
    refine ⟨ih.succ_value, ?_, ?_⟩
    · intro first cs xs r h
      rw [readItems] at h
      cases hskip : skip cs with
      | nil => simp [hskip] at h
      | cons c rest =>
        simp only [hskip] at h
        split at h
        · cases h
          simp [DistinctItems]
        · simp only [Option.bind_eq_bind, Option.bind_eq_some_iff, Option.pure_def,
            Option.some.injEq, Prod.mk.injEq, Prod.exists] at h
          obtain ⟨r₁, -, x, r₂, hx, xs', r₃, hxs, rfl, -⟩ := h
          rw [DistinctItems]
          exact ⟨ih.value _ _ _ hx, ih.items _ _ _ _ hxs⟩
    · intro first cs ms r h
      rw [readMembers] at h
      cases hskip : skip cs with
      | nil => simp [hskip] at h
      | cons c rest =>
        simp only [hskip] at h
        split at h
        · cases h
          simp [DistinctMembers]
        · simp only [Option.bind_eq_bind, Option.bind_eq_some_iff, Option.pure_def,
            Option.some.injEq, Prod.mk.injEq, Prod.exists] at h
          obtain ⟨r₁, -, r₂, -, k, r₃, -, r₄, -, v, r₅, hv, ms', r₆, hms, rfl, -⟩ := h
          rw [DistinctMembers]
          exact ⟨ih.value _ _ _ hv, ih.members _ _ _ _ hms⟩

end Json

/-! ## Values and bytes -/

/-- A JSON value: no object in it has a key twice. -/
structure Value (ν : Type) where
  json : Json ν
  distinct : json.Distinct

namespace Value

variable {ν : Type} [JsNumber ν]

/-- The value as UTF-8 JSON text. -/
def stringify (v : Value ν) : Bytes := utf8 v.json.text

theorem read_distinct {cs : List Char} {j : Json ν} (h : Json.read cs = some j) : j.Distinct := by
  unfold Json.read at h
  split at h
  · rename_i v r hread
    split at h
    · cases h
      exact (Json.readsDistinct _).value _ _ _ hread
    · cases h
  · cases h

/-- The value that the bytes are the JSON text of. -/
def parse (bs : Bytes) : Option (Value ν) :=
  match h : Json.read (readUtf8 bs) with
  | some j => some ⟨j, read_distinct h⟩
  | none => none

theorem read_text {j : Json ν} (h : j.Distinct) : Json.read j.text = some j := by
  have hread := Json.readValue_text j (2 * j.text.length + 1) [] h
    (by intro c hc; cases hc) (by omega)
  rw [List.append_nil] at hread
  simp [Json.read, hread, Json.skip]

/-- **The round trip.** -/
theorem parse_stringify (v : Value ν) : parse v.stringify = some v := by
  have hread := read_text v.distinct
  unfold parse stringify
  split
  · rename_i j hj
    rw [readUtf8_utf8, hread] at hj
    cases hj
    rfl
  · rename_i hj
    rw [readUtf8_utf8, hread] at hj
    cases hj

theorem stringify_pos (v : Value ν) : 0 < v.stringify.length :=
  Nat.lt_of_lt_of_le (Json.text_length_pos v.json) (length_le_utf8 _)

end Value

/-! ## Sizes

How long the text of a value is, and what it takes for two values to be equally long. -/

namespace Json

variable {ν : Type} [JsNumber ν]

/-- The bytes of a value's text. -/
def size (v : Json ν) : Nat := (utf8 v.text).length

/-- Members with the same keys in the same order, whose values are equally long. -/
def SameSizes : List (JsString × Json ν) → List (JsString × Json ν) → Prop :=
  List.Forall₂ fun m m' => m.1 = m'.1 ∧ m.2.size = m'.2.size

theorem SameSizes.keys {ms ms' : List (JsString × Json ν)} (h : SameSizes ms ms') :
    ms.map (·.1) = ms'.map (·.1) := by
  induction h with
  | nil => rfl
  | cons h _ ih => rw [List.map_cons, List.map_cons, h.1, ih]

theorem itemsText_size {xs ys : List (Json ν)}
    (h : List.Forall₂ (fun x y => x.size = y.size) xs ys) (first : Bool) :
    (utf8 (itemsText first xs)).length = (utf8 (itemsText first ys)).length := by
  induction h generalizing first with
  | nil => rfl
  | cons h _ ih =>
    have hx := ih false
    simp only [size] at h
    simp [itemsText, h, hx]

theorem size_arr {xs ys : List (Json ν)} (h : List.Forall₂ (fun x y => x.size = y.size) xs ys) :
    (arr xs).size = (arr ys).size := by
  have hitems := itemsText_size h true
  simp [size, text, hitems]

theorem membersText_size {ms ms' : List (JsString × Json ν)} (h : SameSizes ms ms')
    (first : Bool) :
    (utf8 (membersText first ms)).length = (utf8 (membersText first ms')).length := by
  induction h generalizing first with
  | nil => rfl
  | cons h _ ih =>
    have hms := ih false
    obtain ⟨hkey, hsize⟩ := h
    simp only [size] at hsize
    simp [membersText, hkey, hsize, hms]

theorem size_obj {ms ms' : List (JsString × Json ν)} (h : SameSizes ms ms') :
    (obj ms).size = (obj ms').size := by
  have hmembers := membersText_size h true
  simp [size, text, hmembers]

theorem SameSizes.setMember {ms ms' : List (JsString × Json ν)} (h : SameSizes ms ms')
    {k : JsString} {v v' : Json ν} (hv : v.size = v'.size) :
    SameSizes (setMember ms k v) (setMember ms' k v') := by
  unfold Json.setMember
  rw [h.keys]
  split
  · rw [SameSizes, List.forall₂_map_left_iff, List.forall₂_map_right_iff]
    refine List.Forall₂.imp (fun m m' hm => ?_) h
    rw [← hm.1]
    split
    · exact ⟨rfl, hv⟩
    · exact hm
  · exact List.rel_append h (.cons ⟨rfl, hv⟩ .nil)

/-- Setting equally long members leaves equally long members. -/
theorem SameSizes.setMembers {ms ms' : List (JsString × Json ν)} (h : SameSizes ms ms') :
    SameSizes (setMembers ms) (setMembers ms') := by
  have hfold : ∀ out out' : List (JsString × Json ν), SameSizes out out' →
      SameSizes (ms.foldl (fun out m => Json.setMember out m.1 m.2) out)
        (ms'.foldl (fun out m => Json.setMember out m.1 m.2) out') := by
    induction h with
    | nil => exact fun _ _ hout => hout
    | cons hm _ ih =>
      intro out out' hout
      simp only [List.foldl_cons]
      rw [hm.1]
      exact ih _ _ (hout.setMember hm.2)
  exact hfold [] [] .nil

/-- An array is longer than its items together. -/
theorem sum_size_le_arr (xs : List (Json ν)) : (xs.map size).sum ≤ (arr xs).size := by
  have hitems : ∀ (xs : List (Json ν)) (first : Bool),
      (xs.map size).sum ≤ (utf8 (itemsText first xs)).length := by
    intro xs
    induction xs with
    | nil => simp
    | cons x xs ih =>
      intro first
      have hrest := ih false
      simp only [List.map_cons, List.sum_cons, itemsText, utf8_append, List.length_append, size]
        at hrest ⊢
      omega
  have hall := hitems xs true
  simp only [size, text, utf8_cons, List.length_append] at hall ⊢
  omega

/-- An object is longer than any of its members. -/
theorem size_le_obj {ms : List (JsString × Json ν)} {m : JsString × Json ν} (h : m ∈ ms) :
    m.2.size ≤ (obj ms).size := by
  have hmembers : ∀ (ms : List (JsString × Json ν)) (first : Bool), m ∈ ms →
      m.2.size ≤ (utf8 (membersText first ms)).length := by
    intro ms
    induction ms with
    | nil => simp
    | cons x ms ih =>
      obtain ⟨k, v⟩ := x
      intro first hm
      simp only [membersText, utf8_append, utf8_cons, List.length_append]
      rcases List.mem_cons.mp hm with rfl | hm
      · simp only [size]
        omega
      · have hrest := ih false hm
        omega
  have hall := hmembers ms true h
  simp only [size, text, utf8_cons, List.length_append] at hall ⊢
  omega

end Json

end Lib
end XBus
