import XBus.SecureChannel

/-!
# `Proof/Codec.lean` — what the readers of the codec read

For each reader two facts: what a successful read says about the bytes (`…_ok`), and that the
writer's bytes are read back, whatever follows (`…_append`).
-/

set_option autoImplicit false

namespace XBus
namespace Proof

open Lib

/-! ## Words -/

theorem u16_beNat {bs : Bytes} (h : bs.length = 2) : u16 (beNat bs) = bs := by
  match bs, h with
  | [a, b], _ =>
    have ha := a.toNat_lt
    have hb := b.toNat_lt
    simp only [beNat, List.foldl_cons, List.foldl_nil, u16]
    rw [ofNat_eq_of_mod (b := a) (by omega), ofNat_eq_of_mod (b := b) (by omega)]

theorem u32_beNat {bs : Bytes} (h : bs.length = 4) : u32 (beNat bs) = bs := by
  match bs, h with
  | [a, b, c, d], _ =>
    have ha := a.toNat_lt
    have hb := b.toNat_lt
    have hc := c.toNat_lt
    have hd := d.toNat_lt
    simp only [beNat, List.foldl_cons, List.foldl_nil, u32]
    rw [ofNat_eq_of_mod (b := a) (by omega), ofNat_eq_of_mod (b := b) (by omega),
      ofNat_eq_of_mod (b := c) (by omega), ofNat_eq_of_mod (b := d) (by omega)]

theorem beNat_lt (bs : Bytes) : beNat bs < 256 ^ bs.length := by
  have hfold : ∀ (bs : Bytes) (n : Nat),
      bs.foldl (fun n b => n * 256 + b.toNat) n < (n + 1) * 256 ^ bs.length := by
    intro bs
    induction bs with
    | nil => intro n; simp
    | cons b bs ih =>
      intro n
      have hb := b.toNat_lt
      calc (b :: bs).foldl (fun n b => n * 256 + b.toNat) n
          = bs.foldl (fun n b => n * 256 + b.toNat) (n * 256 + b.toNat) := rfl
        _ < (n * 256 + b.toNat + 1) * 256 ^ bs.length := ih _
        _ ≤ ((n + 1) * 256) * 256 ^ bs.length := Nat.mul_le_mul_right _ (by omega)
        _ = (n + 1) * 256 ^ (b :: bs).length := by
          rw [List.length_cons, Nat.pow_succ, Nat.mul_assoc, Nat.mul_comm 256]
  simpa [beNat] using hfold bs 0

/-! ## Readers -/

namespace Read

variable {α β : Type} {buf rest out : Bytes} {n : Nat}

theorem bind_ok {x : ByteReader α} {f : α → ByteReader β} {b : β} :
    (x >>= f) buf = .ok (b, rest) ↔ ∃ a mid, x buf = .ok (a, mid) ∧ f a mid = .ok (b, rest) := by
  show (x buf >>= fun p => f p.1 p.2) = .ok (b, rest) ↔ _
  cases x buf with
  | error e => simp [bind, Except.bind]
  | ok p =>
    obtain ⟨a, mid⟩ := p
    simp [bind, Except.bind]

theorem pure_ok {a b : α} : (pure a : ByteReader α) buf = .ok (b, rest) ↔ a = b ∧ buf = rest := by
  show (Except.ok (a, buf) : Except ChannelError (α × Bytes)) = .ok (b, rest) ↔ _
  simp

theorem bind_of_ok {x : ByteReader α} {f : α → ByteReader β} {a : α}
    (h : x buf = .ok (a, rest)) : (x >>= f) buf = f a rest := by
  show (x buf >>= fun p => f p.1 p.2) = _
  rw [h]
  rfl

theorem raw_ok (h : ByteReader.raw n buf = .ok (out, rest)) :
    out.length = n ∧ buf = out ++ rest := by
  unfold ByteReader.raw at h
  split at h
  · cases h
  · rename_i hlen
    cases h
    exact ⟨by simp; omega, (List.take_append_drop n buf).symm⟩

theorem raw_append (out rest : Bytes) :
    ByteReader.raw out.length (out ++ rest) = .ok (out, rest) := by
  simp [ByteReader.raw]

theorem u8_ok (h : ByteReader.u8 buf = .ok (n, rest)) : n < 256 := by
  obtain ⟨word, _, hraw, heq⟩ := bind_ok.mp h
  obtain ⟨rfl, rfl⟩ := pure_ok.mp heq
  have hlt := beNat_lt word
  rw [(raw_ok hraw).1] at hlt
  exact hlt

theorem u16_ok (h : ByteReader.u16 buf = .ok (n, rest)) : n < 65536 ∧ buf = u16 n ++ rest := by
  obtain ⟨word, _, hraw, heq⟩ := bind_ok.mp h
  obtain ⟨rfl, rfl⟩ := pure_ok.mp heq
  obtain ⟨hlen, hbuf⟩ := raw_ok hraw
  have hlt := beNat_lt word
  rw [hlen] at hlt
  exact ⟨hlt, by rw [u16_beNat hlen]; exact hbuf⟩

theorem u32_ok (h : ByteReader.u32 buf = .ok (n, rest)) :
    n < 4294967296 ∧ buf = u32 n ++ rest := by
  obtain ⟨word, _, hraw, heq⟩ := bind_ok.mp h
  obtain ⟨rfl, rfl⟩ := pure_ok.mp heq
  obtain ⟨hlen, hbuf⟩ := raw_ok hraw
  have hlt := beNat_lt word
  rw [hlen] at hlt
  exact ⟨hlt, by rw [u32_beNat hlen]; exact hbuf⟩

theorem u32_append (h : n < 4294967296) (rest : Bytes) :
    ByteReader.u32 (u32 n ++ rest) = .ok (n, rest) := by
  have hraw : ByteReader.raw 4 (u32 n ++ rest) = .ok (u32 n, rest) := raw_append (u32 n) rest
  rw [ByteReader.u32, bind_of_ok hraw, beNat_u32 h]
  rfl

end Read

end Proof
end XBus
