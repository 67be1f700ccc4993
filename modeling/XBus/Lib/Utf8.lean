import Mathlib.Algebra.GroupWithZero.Nat
import Mathlib.Data.List.Basic
import Mathlib.Data.List.Infix
import Mathlib.Tactic.SplitIfs

/-!
# `Lib/Utf8.lean` — UTF-8, written strictly and read leniently

Writing is the standard one (`String.utf8EncodeChar`, character by character). Reading never fails:
where the bytes are no character, the longest start of one that is there is answered with U+FFFD
and reading goes on behind it. So reading undoes writing, and on bytes that nobody wrote it still
gives some text.
-/

set_option autoImplicit false

namespace XBus
namespace Lib

abbrev Bytes := List UInt8

def utf8 (cs : List Char) : Bytes := cs.flatMap String.utf8EncodeChar

@[simp] theorem utf8_nil : utf8 [] = [] := rfl

@[simp] theorem utf8_cons (c : Char) (cs : List Char) :
    utf8 (c :: cs) = String.utf8EncodeChar c ++ utf8 cs := rfl

@[simp] theorem utf8_append (xs ys : List Char) : utf8 (xs ++ ys) = utf8 xs ++ utf8 ys := by
  simp [utf8]

/-- U+FFFD, what is read where there is no character. -/
def replacement : Char := '\uFFFD'

/-- A byte that may continue a character: the range is narrower behind some first bytes. -/
def between (low high : Nat) (b : UInt8) : Bool := low ≤ b.toNat && b.toNat ≤ high

/-- The least second byte behind the first byte `b` (no overlong forms). -/
def leastSecond (b : UInt8) : Nat :=
  if b.toNat = 0xe0 then 0xa0 else if b.toNat = 0xf0 then 0x90 else 0x80

/-- The greatest second byte behind the first byte `b` (no surrogates, nothing above U+10FFFF). -/
def greatestSecond (b : UInt8) : Nat :=
  if b.toNat = 0xed then 0x9f else if b.toNat = 0xf4 then 0x8f else 0xbf

def second (b c : UInt8) : Bool := between (leastSecond b) (greatestSecond b) c

def further (c : UInt8) : Bool := between 0x80 0xbf c

def readUtf8 : Bytes → List Char
  | [] => []
  | b :: r =>
    if b.toNat < 0x80 then Char.ofNat b.toNat :: readUtf8 r
    else if between 0xc2 0xdf b then
      match r with
      | [] => [replacement]
      | c :: r' =>
        if further c then
          Char.ofNat (b.toNat % 32 * 64 + c.toNat % 64) :: readUtf8 r'
        else replacement :: readUtf8 (c :: r')
    else if between 0xe0 0xef b then
      match r with
      | [] => [replacement]
      | c :: r' =>
        if second b c then
          match r' with
          | [] => [replacement]
          | d :: r'' =>
            if further d then
              Char.ofNat (b.toNat % 16 * 4096 + c.toNat % 64 * 64 + d.toNat % 64) :: readUtf8 r''
            else replacement :: readUtf8 (d :: r'')
        else replacement :: readUtf8 (c :: r')
    else if between 0xf0 0xf4 b then
      match r with
      | [] => [replacement]
      | c :: r' =>
        if second b c then
          match r' with
          | [] => [replacement]
          | d :: r'' =>
            if further d then
              match r'' with
              | [] => [replacement]
              | e :: r''' =>
                if further e then
                  Char.ofNat (b.toNat % 8 * 262144 + c.toNat % 64 * 4096 + d.toNat % 64 * 64
                    + e.toNat % 64) :: readUtf8 r'''
                else replacement :: readUtf8 (e :: r''')
            else replacement :: readUtf8 (d :: r'')
        else replacement :: readUtf8 (c :: r')
    else replacement :: readUtf8 r

theorem toNat_scalar (c : Char) :
    c.toNat < 0xd800 ∨ 0xdfff < c.toNat ∧ c.toNat < 0x110000 := by
  have h := c.valid
  simp only [UInt32.isValidChar, Nat.isValidChar] at h
  exact h

section Reading

variable {b c d e : UInt8} (r : Bytes)

theorem readUtf8_one (hb : b.toNat < 0x80) :
    readUtf8 (b :: r) = Char.ofNat b.toNat :: readUtf8 r := by
  rw [readUtf8.eq_def]
  exact if_pos hb

theorem readUtf8_two (hb : 0xc2 ≤ b.toNat ∧ b.toNat ≤ 0xdf) (hc : further c) :
    readUtf8 (b :: c :: r) = Char.ofNat (b.toNat % 32 * 64 + c.toNat % 64) :: readUtf8 r := by
  rw [readUtf8.eq_def]
  dsimp only
  rw [if_neg (by omega), if_pos (by simpa [between] using hb)]
  exact if_pos hc

theorem readUtf8_three (hb : 0xe0 ≤ b.toNat ∧ b.toNat ≤ 0xef) (hc : second b c)
    (hd : further d) : readUtf8 (b :: c :: d :: r) =
      Char.ofNat (b.toNat % 16 * 4096 + c.toNat % 64 * 64 + d.toNat % 64) :: readUtf8 r := by
  rw [readUtf8.eq_def]
  dsimp only
  rw [if_neg (by omega), if_neg (by simp [between]; omega),
    if_pos (by simpa [between] using hb)]
  simp only [hc, hd, if_true]

theorem readUtf8_four (hb : 0xf0 ≤ b.toNat ∧ b.toNat ≤ 0xf4) (hc : second b c)
    (hd : further d) (he : further e) : readUtf8 (b :: c :: d :: e :: r) =
      Char.ofNat (b.toNat % 8 * 262144 + c.toNat % 64 * 4096 + d.toNat % 64 * 64 + e.toNat % 64)
        :: readUtf8 r := by
  rw [readUtf8.eq_def]
  dsimp only
  rw [if_neg (by omega), if_neg (by simp [between]; omega),
    if_neg (by simp [between]; omega), if_pos (by simpa [between] using hb)]
  simp only [hc, hd, he, if_true]

end Reading

/-- A byte behind the first, as it is written: the top bits `10`, then six of the character. -/
theorem further_ofNat (n : Nat) : further (UInt8.ofNat (n % 64 + 0x80)) := by
  simp only [further, between, UInt8.toNat_ofNat', Bool.and_eq_true, decide_eq_true_eq]
  omega

/-- A character's bytes are read as that character, whatever follows. -/
theorem readUtf8_char (c : Char) (r : Bytes) :
    readUtf8 (String.utf8EncodeChar c ++ r) = c :: readUtf8 r := by
  have hofNat : ∀ n, n = c.toNat → Char.ofNat n = c := by
    intro n hn
    rw [hn]
    exact Char.ofNat_toNat c
  have hscalar := toNat_scalar c
  have hval : c.val.toNat = c.toNat := rfl
  unfold String.utf8EncodeChar
  simp only [hval]
  split
  · rw [List.singleton_append, readUtf8_one r (by rw [UInt8.toNat_ofNat']; omega)]
    rw [hofNat _ (by rw [UInt8.toNat_ofNat']; omega)]
  · split
    · rw [List.cons_append, List.cons_append, List.nil_append,
        readUtf8_two r (by rw [UInt8.toNat_ofNat']; omega) (further_ofNat _)]
      rw [hofNat _ (by simp only [UInt8.toNat_ofNat']; omega)]
    · split
      · rw [List.cons_append, List.cons_append, List.cons_append, List.nil_append,
          readUtf8_three r (by rw [UInt8.toNat_ofNat']; omega) ?_ (further_ofNat _)]
        · rw [hofNat _ (by simp only [UInt8.toNat_ofNat']; omega)]
        · -- the two first bytes with a narrower range are those of overlong forms and surrogates
          simp only [second, between, leastSecond, greatestSecond, UInt8.toNat_ofNat',
            Bool.and_eq_true, decide_eq_true_eq]
          split_ifs <;> omega
      · rw [List.cons_append, List.cons_append, List.cons_append, List.cons_append, List.nil_append,
          readUtf8_four r (by rw [UInt8.toNat_ofNat']; omega) ?_ (further_ofNat _)
            (further_ofNat _)]
        · rw [hofNat _ (by simp only [UInt8.toNat_ofNat']; omega)]
        · simp only [second, between, leastSecond, greatestSecond, UInt8.toNat_ofNat',
            Bool.and_eq_true, decide_eq_true_eq]
          split_ifs <;> omega

theorem readUtf8_utf8_append (cs : List Char) (r : Bytes) :
    readUtf8 (utf8 cs ++ r) = cs ++ readUtf8 r := by
  induction cs with
  | nil => rfl
  | cons c cs ih => rw [utf8_cons, List.append_assoc, readUtf8_char, ih, List.cons_append]

/-- **Reading undoes writing.** -/
@[simp] theorem readUtf8_utf8 (cs : List Char) : readUtf8 (utf8 cs) = cs := by
  simpa [readUtf8] using readUtf8_utf8_append cs []

theorem utf8_injective : Function.Injective utf8 := fun xs ys h => by
  rw [← readUtf8_utf8 xs, ← readUtf8_utf8 ys, h]

theorem length_le_utf8 (cs : List Char) : cs.length ≤ (utf8 cs).length := by
  induction cs with
  | nil => exact Nat.le_refl 0
  | cons c cs ih =>
    have hc := Char.utf8Size_pos c
    simp only [utf8_cons, List.length_append, List.length_cons, String.length_utf8EncodeChar]
    omega

theorem length_utf8_le (cs : List Char) : (utf8 cs).length ≤ 4 * cs.length := by
  induction cs with
  | nil => exact Nat.le_refl 0
  | cons c cs ih =>
    have hc := Char.utf8Size_le_four c
    simp only [utf8_cons, List.length_append, List.length_cons, String.length_utf8EncodeChar]
    omega

/-! ## Bytes cut short -/

/-- No byte is read as more than one character. -/
theorem length_readUtf8_le (bs : Bytes) : (readUtf8 bs).length ≤ bs.length := by
  fun_induction readUtf8 bs <;> simp_all <;> omega

/-- Of a text whose end is missing, fewer characters are read. -/
theorem length_readUtf8_take_lt {cs : List Char} {k : Nat} (h : k + 16 ≤ (utf8 cs).length) :
    (readUtf8 ((utf8 cs).take k)).length < cs.length := by
  induction cs generalizing k with
  | nil => simp at h
  | cons c cs ih =>
    have hsize := Char.utf8Size_le_four c
    have hbytes := length_utf8_le (c :: cs)
    have hlength : (utf8 (c :: cs)).length = c.utf8Size + (utf8 cs).length := by
      rw [utf8_cons, List.length_append, String.length_utf8EncodeChar]
    by_cases hk : c.utf8Size ≤ k
    · -- The character is whole, and the rest is cut short.
      have htake : (utf8 (c :: cs)).take k =
          String.utf8EncodeChar c ++ (utf8 cs).take (k - c.utf8Size) := by
        rw [utf8_cons, List.take_append, String.length_utf8EncodeChar, List.take_of_length_le]
        rw [String.length_utf8EncodeChar]
        exact hk
      have hrest := ih (k := k - c.utf8Size) (by omega)
      rw [htake, readUtf8_char, List.length_cons, List.length_cons]
      omega
    · -- What is left of the character has three bytes at most, and more than that is missing.
      have hread := length_readUtf8_le ((utf8 (c :: cs)).take k)
      rw [List.length_take] at hread
      omega

/-- The bytes are those of a text. -/
def IsUtf8 (bs : Bytes) : Prop := ∃ cs, bs = utf8 cs

theorem isUtf8_iff {bs : Bytes} : IsUtf8 bs ↔ utf8 (readUtf8 bs) = bs := by
  constructor
  · rintro ⟨cs, rfl⟩
    rw [readUtf8_utf8]
  · intro h
    exact ⟨readUtf8 bs, h.symm⟩

instance (bs : Bytes) : Decidable (IsUtf8 bs) := decidable_of_iff _ isUtf8_iff.symm

end Lib
end XBus
