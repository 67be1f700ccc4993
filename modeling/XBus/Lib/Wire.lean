import XBus.Lib.Utf8

/-!
# `Lib/Wire.lean` — words and base64

Big-endian words of one, two and four bytes, and base64 as a text format for bytes. A word keeps the
low bits of the number it is given. Reading base64 passes over every character outside the alphabet
and takes the URL-safe letters for the two they stand for, so it never fails.
-/

set_option autoImplicit false

namespace XBus
namespace Lib

/-! ## Words -/

def u8 (n : Nat) : Bytes := [UInt8.ofNat n]

def u16 (n : Nat) : Bytes := [UInt8.ofNat (n / 256), UInt8.ofNat n]

def u32 (n : Nat) : Bytes :=
  [UInt8.ofNat (n / 16777216), UInt8.ofNat (n / 65536), UInt8.ofNat (n / 256), UInt8.ofNat n]

@[simp] theorem length_u8 (n : Nat) : (u8 n).length = 1 := rfl
@[simp] theorem length_u16 (n : Nat) : (u16 n).length = 2 := rfl
@[simp] theorem length_u32 (n : Nat) : (u32 n).length = 4 := rfl

/-- The number that big-endian bytes stand for. -/
def beNat (bs : Bytes) : Nat := bs.foldl (fun n b => n * 256 + b.toNat) 0

theorem beNat_u8 {n : Nat} (h : n < 256) : beNat (u8 n) = n := by
  simp [beNat, u8]
  omega

theorem beNat_u16 {n : Nat} (h : n < 65536) : beNat (u16 n) = n := by
  simp [beNat, u16]
  omega

theorem beNat_u32 {n : Nat} (h : n < 4294967296) : beNat (u32 n) = n := by
  simp [beNat, u32]
  omega

theorem u32_inj {m n : Nat} (hm : m < 4294967296) (hn : n < 4294967296) (h : u32 m = u32 n) :
    m = n := by
  rw [← beNat_u32 hm, ← beNat_u32 hn, h]

theorem u16_mod (n : Nat) : u16 (n % 65536) = u16 n := by
  simp only [u16, List.cons.injEq, and_true]
  constructor
  · apply UInt8.toNat_inj.mp
    simp only [UInt8.toNat_ofNat']
    omega
  · apply UInt8.toNat_inj.mp
    simp only [UInt8.toNat_ofNat']
    omega

theorem u32_mod (n : Nat) : u32 (n % 4294967296) = u32 n := by
  simp only [u32, List.cons.injEq, and_true]
  refine ⟨?_, ?_, ?_, ?_⟩ <;>
  · apply UInt8.toNat_inj.mp
    simp only [UInt8.toNat_ofNat']
    omega

/-! ## Base64 -/

def sextetChar (n : Nat) : Char :=
  Char.ofNat
    (if n < 26 then 65 + n else if n < 52 then 71 + n else if n < 62 then n - 4
      else if n = 62 then 43 else 47)

def sextet? (c : Char) : Option Nat :=
  let n := c.toNat
  if 65 ≤ n ∧ n ≤ 90 then some (n - 65)
  else if 97 ≤ n ∧ n ≤ 122 then some (n - 71)
  else if 48 ≤ n ∧ n ≤ 57 then some (n + 4)
  else if n = 43 ∨ n = 45 then some 62
  else if n = 47 ∨ n = 95 then some 63
  else none

def base64 : Bytes → List Char
  | [] => []
  | [a] => [sextetChar (a.toNat / 4), sextetChar (a.toNat % 4 * 16), '=', '=']
  | [a, b] => [sextetChar (a.toNat / 4), sextetChar (a.toNat % 4 * 16 + b.toNat / 16),
      sextetChar (b.toNat % 16 * 4), '=']
  | a :: b :: c :: r =>
    sextetChar (a.toNat / 4) :: sextetChar (a.toNat % 4 * 16 + b.toNat / 16) ::
      sextetChar (b.toNat % 16 * 4 + c.toNat / 64) :: sextetChar (c.toNat % 64) :: base64 r

def ofSextets : List Nat → Bytes
  | p :: q :: r :: s :: more =>
    UInt8.ofNat (p * 4 + q / 16) :: UInt8.ofNat (q * 16 + r / 4) :: UInt8.ofNat (r * 64 + s) ::
      ofSextets more
  | [p, q, r] => [UInt8.ofNat (p * 4 + q / 16), UInt8.ofNat (q * 16 + r / 4)]
  | [p, q] => [UInt8.ofNat (p * 4 + q / 16)]
  | _ => []

def ofBase64 (cs : List Char) : Bytes := ofSextets (cs.filterMap sextet?)

theorem sextet?_sextetChar {n : Nat} (h : n < 64) : sextet? (sextetChar n) = some n := by
  have hall : ∀ n : Fin 64, sextet? (sextetChar n) = some n.val := by decide
  exact hall ⟨n, h⟩

theorem ofNat_eq_of_mod {b : UInt8} {n : Nat} (h : n % 256 = b.toNat) : UInt8.ofNat n = b := by
  apply UInt8.toNat_inj.mp
  rw [UInt8.toNat_ofNat']
  exact h

/-- **Base64 is read back.** -/
theorem ofBase64_base64 (bs : Bytes) : ofBase64 (base64 bs) = bs := by
  have hpad : sextet? '=' = none := by decide
  unfold ofBase64
  induction bs using base64.induct with
  | case1 => rfl
  | case2 a =>
    have ha := a.toNat_lt
    simp only [base64, List.filterMap_cons, List.filterMap_nil, hpad,
      sextet?_sextetChar (show a.toNat / 4 < 64 by omega),
      sextet?_sextetChar (show a.toNat % 4 * 16 < 64 by omega), ofSextets]
    rw [ofNat_eq_of_mod (b := a) (by omega)]
  | case3 a b =>
    have ha := a.toNat_lt
    have hb := b.toNat_lt
    simp only [base64, List.filterMap_cons, List.filterMap_nil, hpad,
      sextet?_sextetChar (show a.toNat / 4 < 64 by omega),
      sextet?_sextetChar (show a.toNat % 4 * 16 + b.toNat / 16 < 64 by omega),
      sextet?_sextetChar (show b.toNat % 16 * 4 < 64 by omega), ofSextets]
    rw [ofNat_eq_of_mod (b := a) (by omega), ofNat_eq_of_mod (b := b) (by omega)]
  | case4 a b c r ih =>
    have ha := a.toNat_lt
    have hb := b.toNat_lt
    have hc := c.toNat_lt
    simp only [base64, List.filterMap_cons,
      sextet?_sextetChar (show a.toNat / 4 < 64 by omega),
      sextet?_sextetChar (show a.toNat % 4 * 16 + b.toNat / 16 < 64 by omega),
      sextet?_sextetChar (show b.toNat % 16 * 4 + c.toNat / 64 < 64 by omega),
      sextet?_sextetChar (show c.toNat % 64 < 64 by omega), ofSextets, ih]
    rw [ofNat_eq_of_mod (b := a) (by omega), ofNat_eq_of_mod (b := b) (by omega),
      ofNat_eq_of_mod (b := c) (by omega)]

theorem mem_base64 {bs : Bytes} {c : Char} (h : c ∈ base64 bs) :
    c = '=' ∨ ∃ n < 64, c = sextetChar n := by
  induction bs using base64.induct with
  | case1 => cases h
  | case2 a =>
    have ha := a.toNat_lt
    simp only [base64, List.mem_cons, List.not_mem_nil, or_false] at h
    rcases h with rfl | rfl | rfl | rfl
    · exact .inr ⟨_, by omega, rfl⟩
    · exact .inr ⟨_, by omega, rfl⟩
    · exact .inl rfl
    · exact .inl rfl
  | case3 a b =>
    have ha := a.toNat_lt
    have hb := b.toNat_lt
    simp only [base64, List.mem_cons, List.not_mem_nil, or_false] at h
    rcases h with rfl | rfl | rfl | rfl
    · exact .inr ⟨_, by omega, rfl⟩
    · exact .inr ⟨_, by omega, rfl⟩
    · exact .inr ⟨_, by omega, rfl⟩
    · exact .inl rfl
  | case4 a b d r ih =>
    have ha := a.toNat_lt
    have hb := b.toNat_lt
    have hd := d.toNat_lt
    simp only [base64, List.mem_cons] at h
    rcases h with rfl | rfl | rfl | rfl | h
    · exact .inr ⟨_, by omega, rfl⟩
    · exact .inr ⟨_, by omega, rfl⟩
    · exact .inr ⟨_, by omega, rfl⟩
    · exact .inr ⟨_, by omega, rfl⟩
    · exact ih h

theorem length_base64 (bs : Bytes) : (base64 bs).length = 4 * ((bs.length + 2) / 3) := by
  induction bs using base64.induct with
  | case1 => rfl
  | case2 a => simp [base64]
  | case3 a b => simp [base64]
  | case4 a b c r ih =>
    simp only [base64, List.length_cons, ih]
    omega

end Lib
end XBus
