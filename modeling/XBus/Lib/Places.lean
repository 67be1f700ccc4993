import XBus.Lib.Utf8

/-!
# `Lib/Places.lean` — chunks at their places

A binary format whose records point at each other is read by offsets into one buffer and written by
appending chunks. `At buf i chunk` says that the chunk stands at the offset; what is written one
after the other stands one after the other (`At.left`, `At.right`), and every read is answered by
what stands there (`word?_of_at`, `slice_of_at`). Words are little-endian, of any number of bytes.
-/

set_option autoImplicit false

namespace XBus
namespace Lib

/-! ## Words -/

/-- The low bytes of a number, the lowest first. -/
def leWord : Nat → Nat → Bytes
  | 0, _ => []
  | w + 1, n => UInt8.ofNat n :: leWord w (n / 256)

/-- The number that bytes stand for, the lowest first. -/
def leNat : Bytes → Nat
  | [] => 0
  | b :: bs => b.toNat + 256 * leNat bs

@[simp] theorem length_leWord (w n : Nat) : (leWord w n).length = w := by
  induction w generalizing n with
  | zero => rfl
  | succ w ih => rw [leWord, List.length_cons, ih]

theorem leNat_leWord {w n : Nat} (h : n < 256 ^ w) : leNat (leWord w n) = n := by
  induction w generalizing n with
  | zero =>
    rw [Nat.pow_zero, Nat.lt_one_iff] at h
    rw [h]
    rfl
  | succ w ih =>
    have hrest : n / 256 < 256 ^ w := Nat.div_lt_of_lt_mul (by rwa [← Nat.pow_succ'])
    rw [leWord, leNat, ih hrest, UInt8.toNat_ofNat']
    exact Nat.mod_add_div n 256

/-- The word of this many bytes at an offset, none where the buffer ends before it does. -/
def word? (w : Nat) (buf : Bytes) (i : Nat) : Option Nat :=
  let bs := (buf.drop i).take w
  if bs.length = w then some (leNat bs) else none

/-- The bytes from one offset to another, as many as there are. -/
def slice (buf : Bytes) (i j : Nat) : Bytes := (buf.drop i).take (j - i)

/-! ## What stands where -/

/-- The chunk stands at the offset. -/
def At (buf : Bytes) (i : Nat) (chunk : Bytes) : Prop := ∃ post, buf.drop i = chunk ++ post

variable {buf a b chunk : Bytes} {i w n : Nat}

theorem at_append (pre chunk post : Bytes) : At (pre ++ (chunk ++ post)) pre.length chunk :=
  ⟨post, List.drop_left⟩

theorem at_end (pre chunk : Bytes) : At (pre ++ chunk) pre.length chunk :=
  ⟨[], by rw [List.drop_left, List.append_nil]⟩

theorem At.left (h : At buf i (a ++ b)) : At buf i a := by
  obtain ⟨post, hpost⟩ := h
  exact ⟨b ++ post, by rw [hpost, List.append_assoc]⟩

theorem At.right (h : At buf i (a ++ b)) : At buf (i + a.length) b := by
  obtain ⟨post, hpost⟩ := h
  refine ⟨post, ?_⟩
  rw [← List.drop_drop, hpost, List.append_assoc, List.drop_left]

/-- A field behind the first bytes of a record. -/
theorem At.field (h : At buf i (a ++ b)) {k : Nat} (hk : a.length = k) : At buf (i + k) b :=
  hk ▸ h.right

theorem word?_of_at (h : At buf i (leWord w n)) (hn : n < 256 ^ w) : word? w buf i = some n := by
  obtain ⟨post, hpost⟩ := h
  have htake : (buf.drop i).take w = leWord w n := by
    rw [hpost, List.take_left' (length_leWord w n)]
  simp only [word?, htake, length_leWord, if_true, leNat_leWord hn]

theorem slice_of_at (h : At buf i chunk) {j : Nat} (hj : j = i + chunk.length) :
    slice buf i j = chunk := by
  obtain ⟨post, hpost⟩ := h
  rw [slice, hpost, hj, Nat.add_sub_cancel_left, List.take_left]

end Lib
end XBus
