import Mathlib.Logic.Function.Basic
import XBus.Lib.Runs
import XBus.Proof.Codec

/-!
# `Proof/Channel.lean` — two sessions of one handshake

The two ends of a handshake as one system: either end seals, either end is offered any buffer at all
to open. The AEAD is ideal: a list of the encryptions made so far stands beside it, and decryption
opens exactly what is on the list (`ideal`).

The invariant (`DuplexInv`) says that the counters are the lengths of two histories: what an end
sealed, and what it opened. A buffer that opens is then the next one of the other end's history, and
that buffer always opens (`openFrame_iff`).
-/

set_option autoImplicit false

namespace XBus
namespace Proof

open Lib SecureSession

/-! ## Words, counters and associated data -/

theorem length_iv (base : Bytes) (seq : Nat) : (iv base seq).length = ivBytes := by
  simp [iv]

/-- The counter can be read off the IV. -/
theorem iv_inj {base : Bytes} {m n : Nat} (hm : m < 4294967296) (hn : n < 4294967296)
    (h : iv base m = iv base n) : m = n := by
  apply u32_inj hm hn
  simp only [iv, ivBytes, List.range, List.range.loop, List.map_cons, List.map_nil, List.cons.injEq,
    u32, List.replicate] at h
  simpa [u32] using h.2.2.2.2.2.2.2.2

theorem aad_inj {connId : Bytes} {dir dir' seq seq' len len' : Nat} (hdir : dir < 256)
    (hdir' : dir' < 256) (hseq : seq < 4294967296) (hseq' : seq' < 4294967296)
    (h : aad connId dir seq len = aad connId dir' seq' len') : dir = dir' ∧ seq = seq' := by
  simp only [aad, List.append_assoc] at h
  have htail := List.append_cancel_left (List.append_cancel_left h)
  obtain ⟨hd, htail⟩ := List.append_inj htail rfl
  obtain ⟨hs, -⟩ := List.append_inj htail rfl
  refine ⟨?_, u32_inj hseq hseq' hs⟩
  rw [← beNat_u8 hdir, ← beNat_u8 hdir', hd]

/-! ## The ideal AEAD -/

/-- One encryption. -/
structure Encryption where
  key : Bytes
  iv : Bytes
  aad : Bytes
  plaintext : Bytes
deriving DecidableEq

def Encryption.out (aead : Aead) (e : Encryption) : Bytes × Bytes :=
  aead.encrypt e.key e.iv e.aad e.plaintext

/-- Decryption opens what was encrypted, under the key, IV and associated data it was encrypted
    under, and nothing else. -/
def ideal (aead : Aead) (made : List Encryption) : Decrypt := fun key iv aad ct tag =>
  (made.find? fun e => e.key = key ∧ e.iv = iv ∧ e.aad = aad ∧ e.out aead = (ct, tag)).map
    (·.plaintext)

theorem ideal_some {aead : Aead} {made : List Encryption} {key iv aad ct tag pt : Bytes}
    (h : ideal aead made key iv aad ct tag = some pt) :
    ∃ e ∈ made, e = ⟨key, iv, aad, pt⟩ ∧ e.out aead = (ct, tag) := by
  obtain ⟨e, hfind, rfl⟩ := Option.map_eq_some_iff.mp h
  have hprop := List.find?_some hfind
  simp only [decide_eq_true_eq] at hprop
  obtain ⟨rfl, rfl, rfl, hout⟩ := hprop
  exact ⟨e, List.mem_of_find?_eq_some hfind, rfl, hout⟩

theorem ideal_of_mem (aead : Aead) {made : List Encryption} {e : Encryption} (he : e ∈ made) :
    ∃ pt, ideal aead made e.key e.iv e.aad (e.out aead).1 (e.out aead).2 = some pt := by
  have hfound : (made.find? fun e' => e'.key = e.key ∧ e'.iv = e.iv ∧ e'.aad = e.aad ∧
      e'.out aead = ((e.out aead).1, (e.out aead).2)).isSome := by
    rw [List.find?_isSome]
    exact ⟨e, he, by simp⟩
  obtain ⟨found, hfind⟩ := Option.isSome_iff_exists.mp hfound
  exact ⟨found.plaintext, by rw [ideal, hfind]; rfl⟩

/-! ## The two ends -/

def peer : Role → Role
  | .client => .server
  | .server => .client

/-- A sealed buffer and what is in it. -/
structure Sealing where
  plaintext : Bytes
  buf : Bytes
deriving DecidableEq

/-- Two sessions, the encryptions made, and for either end what it sealed and what it opened. -/
structure Duplex where
  session : Role → SecureSession
  made : List Encryption
  sent : Role → List Sealing
  got : Role → List Bytes

inductive DuplexEvent
  /-- An end seals a plaintext. -/
  | seals (role : Role) (plaintext : Bytes)
  /-- An end is offered a buffer. -/
  | opens (role : Role) (buf : Bytes)

/-- The encryption that sealing `plaintext` makes in session `s`. -/
def encryptionOf (s : SecureSession) (seq : Nat) (plaintext : Bytes) : Encryption :=
  { key := s.encKey, iv := iv s.encIvBase seq
    aad := aad s.connId s.sendDir seq plaintext.length, plaintext }

def Duplex.step (aead : Aead) (d : Duplex) :
    DuplexEvent → Except ChannelError Bytes × Duplex
  | .seals role plaintext =>
    match sealFrame aead plaintext (d.session role) with
    | (.ok buf, s) =>
      (.ok buf, { d with session := Function.update d.session role s
                         made := d.made ++
                           [encryptionOf (d.session role) (d.session role).sendSeq plaintext]
                         sent := Function.update d.sent role (d.sent role ++ [⟨plaintext, buf⟩]) })
    | (.error e, s) => (.error e, { d with session := Function.update d.session role s })
  | .opens role buf =>
    match openFrame (ideal aead d.made) buf (d.session role) with
    | (.ok pt, s) =>
      (.ok pt, { d with session := Function.update d.session role s
                        got := Function.update d.got role (d.got role ++ [pt]) })
    | (.error e, s) => (.error e, { d with session := Function.update d.session role s })

def Duplex.start (keys : DerivedKeys) (connId : Bytes) : Duplex :=
  { session := SecureSession.new keys connId, made := [], sent := fun _ => [], got := fun _ => [] }

/-! ## Opening and sealing, each in one statement -/

/-- The buffer of the encryption with number `seq`. -/
def bufferOf (aead : Aead) (seq : Nat) (e : Encryption) : Bytes :=
  u32 seq ++ e.iv ++ (e.out aead).2 ++ (e.out aead).1

theorem sealFrame_ok {aead : Aead} {s s' : SecureSession} {pt buf : Bytes}
    (h : sealFrame aead pt s = (.ok buf, s')) :
    pt.length ≤ maxPlaintext ∧ s.sendSeq < 0xffffffff ∧
      buf = bufferOf aead s.sendSeq (encryptionOf s s.sendSeq pt) ∧
      s' = { s with sendSeq := s.sendSeq + 1 } := by
  unfold sealFrame at h
  split at h
  · cases h
  · rename_i hlen
    split at h
    · cases h
    · rename_i hseq
      cases h
      exact ⟨Nat.not_lt.mp hlen, Nat.not_le.mp hseq, rfl, rfl⟩

theorem sealFrame_error {aead : Aead} {s s' : SecureSession} {pt : Bytes} {e : ChannelError}
    (h : sealFrame aead pt s = (.error e, s')) : s' = s := by
  unfold sealFrame at h
  split at h
  · cases h; rfl
  · split at h
    · cases h; rfl
    · cases h

/-- What a buffer that opens looks like. -/
theorem openFrame_ok {decrypt : Decrypt} {s s' : SecureSession} {buf pt : Bytes}
    (h : openFrame decrypt buf s = (.ok pt, s')) :
    ∃ tag ct, buf = u32 s.recvSeq ++ iv s.decIvBase s.recvSeq ++ tag ++ ct ∧
      decrypt s.decKey (iv s.decIvBase s.recvSeq) (aad s.connId s.recvDir s.recvSeq ct.length)
        ct tag = some pt ∧
      s' = { s with recvSeq := s.recvSeq + 1 } := by
  unfold openFrame at h
  simp only [Call.bind_ok, Call.get_ok, Call.lift_ok, Call.require_ok, Call.orThrow_ok,
    Call.modify_ok, Call.pure_ok, Prod.exists] at h
  obtain ⟨_, _, ⟨rfl, rfl⟩, seq, rest, _, ⟨hseq, rfl⟩, _, _, ⟨rfl, rfl⟩, iv', rest', _,
    ⟨hiv, rfl⟩, tag, ct, _, ⟨htag, rfl⟩, _, _, ⟨-, rfl⟩, _, _, ⟨rfl, rfl⟩, _, _, ⟨hpt, rfl⟩, _, _,
    rfl, rfl, rfl⟩ := h
  obtain ⟨-, hrest⟩ := Read.raw_ok hiv
  obtain ⟨-, hrest'⟩ := Read.raw_ok htag
  obtain ⟨-, hword⟩ := Read.u32_ok hseq
  exact ⟨tag, ct, by rw [hword, hrest, hrest']; simp, hpt, rfl⟩

theorem openFrame_of {decrypt : Decrypt} {s : SecureSession} {tag ct pt : Bytes}
    (hseq : s.recvSeq < 4294967296) (htag : tag.length = tagBytes)
    (hct : ct.length ≤ maxPlaintext + tagBytes)
    (hpt : decrypt s.decKey (iv s.decIvBase s.recvSeq)
      (aad s.connId s.recvDir s.recvSeq ct.length) ct tag = some pt) :
    openFrame decrypt (u32 s.recvSeq ++ iv s.decIvBase s.recvSeq ++ tag ++ ct) s =
      (.ok pt, { s with recvSeq := s.recvSeq + 1 }) := by
  have hiv := Read.raw_append (iv s.decIvBase s.recvSeq) (tag ++ ct)
  rw [length_iv] at hiv
  have htag' := Read.raw_append tag ct
  rw [htag] at htag'
  unfold openFrame
  simp only [Call.bind_ok, Call.get_ok, Call.lift_ok, Call.require_ok, Call.orThrow_ok,
    Call.modify_ok, Call.pure_ok, Prod.exists, List.append_assoc]
  exact ⟨s, s, ⟨rfl, rfl⟩, s.recvSeq, _, s, ⟨Read.u32_append hseq _, rfl⟩, (), s, ⟨rfl, rfl⟩,
    _, _, s, ⟨hiv, rfl⟩, tag, ct, s, ⟨htag', rfl⟩, (), s, ⟨hct, rfl⟩, (), s, ⟨rfl, rfl⟩, pt, s,
    ⟨hpt, rfl⟩, (), _, rfl, rfl, rfl⟩

/-- A buffer that does not open leaves the session as it was. -/
theorem openFrame_error {decrypt : Decrypt} {s s' : SecureSession} {buf : Bytes} {e : ChannelError}
    (h : openFrame decrypt buf s = (.error e, s')) : s' = s := by
  have hrefuses : Refuses Eq (openFrame decrypt buf) := by
    unfold openFrame
    refine .bind .get fun s => .bind .lift fun (seq, rest) => .bind .require fun _ => ?_
    refine .bind .lift fun (iv', rest') => .bind .lift fun (tag, ct) => .bind .require fun _ => ?_
    refine .bind .require fun _ => .bind .orThrow fun pt => ?_
    intro s e t hnever
    cases hnever
  exact (hrefuses s e s' h).symm

/-! ## The invariant -/

section Invariant

variable {aead : Aead} {keys : DerivedKeys} {connId : Bytes} {d : Duplex}

/-- The encryption of an end's `seq`-th sealing. -/
def encryptionAt (keys : DerivedKeys) (connId : Bytes) (role : Role) (seq : Nat)
    (plaintext : Bytes) : Encryption :=
  encryptionOf (SecureSession.new keys connId role) seq plaintext

structure DuplexInv (aead : Aead) (keys : DerivedKeys) (connId : Bytes) (d : Duplex) : Prop where
  session : ∀ r, d.session r =
    { SecureSession.new keys connId r with sendSeq := (d.sent r).length
                                           recvSeq := (d.got r).length }
  bound : ∀ r, (d.sent r).length ≤ 0xffffffff
  sealing : ∀ r i x, (d.sent r)[i]? = some x → x.plaintext.length ≤ maxPlaintext ∧
    x.buf = bufferOf aead i (encryptionAt keys connId r i x.plaintext)
  made : ∀ e, e ∈ d.made ↔
    ∃ r i x, (d.sent r)[i]? = some x ∧ e = encryptionAt keys connId r i x.plaintext
  order : ∀ r, d.got r <+: (d.sent (peer r)).map (·.plaintext)

theorem duplexInv_start : DuplexInv aead keys connId (Duplex.start keys connId) := by
  refine ⟨fun r => ?_, fun r => by simp [Duplex.start], fun r i x h => ?_, fun e => ?_, fun r => ?_⟩
  · cases r <;> rfl
  · simp [Duplex.start] at h
  · simp [Duplex.start]
  · simp [Duplex.start]

theorem encryptionAt_dir (r : Role) (seq : Nat) (pt : Bytes) :
    (encryptionAt keys connId r seq pt).aad
      = aad connId (SecureSession.new keys connId r).sendDir seq pt.length := by
  cases r <;> rfl

/-- What one end expects is what the other one does. -/
theorem new_peer (keys : DerivedKeys) (connId : Bytes) (r : Role) :
    (SecureSession.new keys connId r).decKey = (SecureSession.new keys connId (peer r)).encKey ∧
    (SecureSession.new keys connId r).decIvBase
      = (SecureSession.new keys connId (peer r)).encIvBase ∧
    (SecureSession.new keys connId r).recvDir
      = (SecureSession.new keys connId (peer r)).sendDir ∧
    (SecureSession.new keys connId r).connId = connId := by
  cases r <;> exact ⟨rfl, rfl, rfl, rfl⟩

theorem sendDir_lt (r : Role) : (SecureSession.new keys connId r).sendDir < 256 := by
  cases r
  · exact (by decide : 1 < 256)
  · exact (by decide : 2 < 256)

theorem sendDir_inj {r r' : Role} (h : (SecureSession.new keys connId r).sendDir
    = (SecureSession.new keys connId r').sendDir) : r = r' := by
  cases r <;> cases r' <;> first | rfl | cases h

theorem DuplexInv.got_le (inv : DuplexInv aead keys connId d) (r : Role) :
    (d.got r).length ≤ (d.sent (peer r)).length := by
  simpa using (inv.order r).length_le

theorem DuplexInv.index_lt (inv : DuplexInv aead keys connId d) {r : Role} {i : Nat} {x : Sealing}
    (h : (d.sent r)[i]? = some x) : i < 4294967296 := by
  have hlt := (List.getElem?_eq_some_iff.mp h).1
  have hbound := inv.bound r
  omega

/-- An encryption is made once: its associated data name the end and the number. -/
theorem DuplexInv.unique (inv : DuplexInv aead keys connId d) {r r' : Role} {i i' len : Nat}
    {x : Sealing} (hx : (d.sent r)[i]? = some x) (hi' : i' < 4294967296)
    (h : (encryptionAt keys connId r i x.plaintext).aad
      = aad connId (SecureSession.new keys connId r').sendDir i' len) : r = r' ∧ i = i' := by
  rw [encryptionAt_dir] at h
  obtain ⟨hdir, hseq⟩ := aad_inj (sendDir_lt r) (sendDir_lt r') (inv.index_lt hx) hi' h
  exact ⟨sendDir_inj hdir, hseq⟩

/-- **What opens is the next buffer of the other end**, and it gives what is in it. -/
theorem DuplexInv.openFrame_next (inv : DuplexInv aead keys connId d) {r : Role} {buf pt : Bytes}
    {s : SecureSession} (h : openFrame (ideal aead d.made) buf (d.session r) = (.ok pt, s)) :
    ∃ x, (d.sent (peer r))[(d.got r).length]? = some x ∧ x.buf = buf ∧ x.plaintext = pt ∧
      s = { d.session r with recvSeq := (d.got r).length + 1 } := by
  obtain ⟨hkey, hbase, hdir, hconn⟩ := new_peer keys connId r
  have hgot : (d.got r).length < 4294967296 := by
    have hle := inv.got_le r
    have hbound := inv.bound (peer r)
    omega
  obtain ⟨tag, ct, hbuf, hpt, hs⟩ := openFrame_ok h
  rw [inv.session r] at hbuf hpt hs
  dsimp only at hbuf hpt hs
  obtain ⟨e, he, rfl, hout⟩ := ideal_some hpt
  obtain ⟨r', i, x, hx, hex⟩ := (inv.made _).mp he
  have haad := congrArg Encryption.aad hex
  dsimp only at haad
  rw [hdir, hconn] at haad
  obtain ⟨rfl, rfl⟩ := inv.unique hx hgot haad.symm
  refine ⟨x, hx, ?_, ?_, ?_⟩
  · rw [(inv.sealing _ _ _ hx).2, ← hex, hbuf, bufferOf, hout]
  · exact (congrArg Encryption.plaintext hex).symm
  · rw [hs, inv.session r]

/-- **The next buffer of the other end opens.** -/
theorem DuplexInv.openFrame_genuine (inv : DuplexInv aead keys connId d) {r : Role} {x : Sealing}
    (hx : (d.sent (peer r))[(d.got r).length]? = some x) :
    openFrame (ideal aead d.made) x.buf (d.session r) =
      (.ok x.plaintext, { d.session r with recvSeq := (d.got r).length + 1 }) := by
  obtain ⟨hkey, hbase, hdir, hconn⟩ := new_peer keys connId r
  obtain ⟨hlen, hbuf⟩ := inv.sealing _ _ _ hx
  have hmem : encryptionAt keys connId (peer r) (d.got r).length x.plaintext ∈ d.made :=
    (inv.made _).mpr ⟨_, _, _, hx, rfl⟩
  obtain ⟨pt, hpt⟩ := ideal_of_mem aead hmem
  have hct : ((encryptionAt keys connId (peer r) (d.got r).length x.plaintext).out aead).1.length
      = x.plaintext.length := aead.length_ciphertext _ _ _ _
  -- The frame sealed under this number is one the ideal cipher has made, so it opens.
  have hopens : openFrame (ideal aead d.made) x.buf (d.session r) =
      (.ok pt, { d.session r with recvSeq := (d.session r).recvSeq + 1 }) := by
    have hiv : (encryptionAt keys connId (peer r) (d.got r).length x.plaintext).iv
        = iv (d.session r).decIvBase (d.session r).recvSeq := by
      rw [inv.session r]
      dsimp only
      rw [hbase]
      rfl
    have hseq : (d.session r).recvSeq = (d.got r).length := by rw [inv.session r]
    rw [hbuf, bufferOf, hiv, ← hseq]
    apply openFrame_of
    · rw [hseq]
      exact inv.index_lt hx
    · exact aead.length_tag _ _ _ _
    · rw [hseq, hct]
      omega
    · rw [hseq, hct, ← hpt, inv.session r]
      dsimp only
      rw [hkey, hbase, hdir, hconn, encryptionAt_dir]
      rfl
  obtain ⟨y, hy, -, hypt, -⟩ := inv.openFrame_next hopens
  rw [hx] at hy
  cases hy
  rw [hopens, hypt, inv.session r]

theorem getElem?_concat {α : Type} {xs : List α} {a x : α} {i : Nat} :
    (xs ++ [a])[i]? = some x ↔ xs[i]? = some x ∨ i = xs.length ∧ a = x := by
  rw [List.getElem?_append]
  split
  · rename_i hlt
    simp [Nat.ne_of_lt hlt]
  · rename_i hge
    have hnone : xs[i]? = none := List.getElem?_eq_none (Nat.not_lt.mp hge)
    rw [hnone, List.getElem?_singleton]
    constructor
    · intro h
      split at h
      · exact .inr ⟨by omega, Option.some.inj h⟩
      · cases h
    · rintro (h | ⟨rfl, rfl⟩)
      · cases h
      · simp

/-- An end that seals adds to its own history. -/
theorem DuplexInv.sealed (inv : DuplexInv aead keys connId d) {role : Role} {pt buf : Bytes}
    {s : SecureSession} (h : sealFrame aead pt (d.session role) = (.ok buf, s)) :
    DuplexInv aead keys connId
      { d with session := Function.update d.session role s
               made := d.made ++
                 [encryptionOf (d.session role) (d.session role).sendSeq pt]
               sent := Function.update d.sent role (d.sent role ++ [⟨pt, buf⟩]) } := by
  obtain ⟨hlen, hlimit, hbuf, hs⟩ := sealFrame_ok h
  have henc : encryptionOf (d.session role) (d.session role).sendSeq pt
      = encryptionAt keys connId role (d.sent role).length pt := by
    rw [inv.session role]
    rfl
  have hseq : (d.session role).sendSeq = (d.sent role).length := by rw [inv.session role]
  rw [henc, hseq] at hbuf
  rw [hseq] at hlimit
  -- Each clause holds of the other role as before, and of this one by its last frame.
  refine ⟨fun r => ?_, fun r => ?_, fun r i x hx => ?_, fun e => ?_, fun r => ?_⟩ <;>
    dsimp only at *
  · by_cases hr : r = role
    · subst hr
      rw [Function.update_self, Function.update_self, hs, inv.session r]
      simp
    · rw [Function.update_of_ne hr, Function.update_of_ne hr]
      exact inv.session r
  · by_cases hr : r = role
    · subst hr
      rw [Function.update_self, List.length_append, List.length_singleton]
      omega
    · rw [Function.update_of_ne hr]
      exact inv.bound r
  · by_cases hr : r = role
    · subst hr
      rw [Function.update_self] at hx
      rcases getElem?_concat.mp hx with hx | ⟨rfl, rfl⟩
      · exact inv.sealing r i x hx
      · exact ⟨hlen, hbuf⟩
    · rw [Function.update_of_ne hr] at hx
      exact inv.sealing r i x hx
  · rw [henc, List.mem_append, List.mem_singleton, inv.made]
    constructor
    · rintro (⟨r, i, x, hx, rfl⟩ | rfl)
      · by_cases hr : r = role
        · subst hr
          exact ⟨r, i, x, by rw [Function.update_self]; exact getElem?_concat.mpr (.inl hx), rfl⟩
        · exact ⟨r, i, x, by rwa [Function.update_of_ne hr], rfl⟩
      · exact ⟨role, _, ⟨pt, buf⟩,
          by rw [Function.update_self]; exact getElem?_concat.mpr (.inr ⟨rfl, rfl⟩), rfl⟩
    · rintro ⟨r, i, x, hx, rfl⟩
      by_cases hr : r = role
      · subst hr
        rw [Function.update_self] at hx
        rcases getElem?_concat.mp hx with hx | ⟨rfl, rfl⟩
        · exact .inl ⟨r, i, x, hx, rfl⟩
        · exact .inr rfl
      · rw [Function.update_of_ne hr] at hx
        exact .inl ⟨r, i, x, hx, rfl⟩
  · by_cases hr : peer r = role
    · subst hr
      rw [Function.update_self, List.map_append]
      exact (inv.order r).trans (List.prefix_append ..)
    · rw [Function.update_of_ne hr]
      exact inv.order r

/-- An end that opens a buffer takes the next one of the other end's history. -/
theorem DuplexInv.opened (inv : DuplexInv aead keys connId d) {role : Role} {pt buf : Bytes}
    {s : SecureSession}
    (h : openFrame (ideal aead d.made) buf (d.session role) = (.ok pt, s)) :
    DuplexInv aead keys connId
      { d with session := Function.update d.session role s
               got := Function.update d.got role (d.got role ++ [pt]) } := by
  obtain ⟨x, hx, -, rfl, hs⟩ := inv.openFrame_next h
  refine ⟨fun r => ?_, inv.bound, inv.sealing, inv.made, fun r => ?_⟩ <;> dsimp only at *
  · by_cases hr : r = role
    · subst hr
      rw [Function.update_self, Function.update_self, hs, inv.session r]
      simp
    · rw [Function.update_of_ne hr, Function.update_of_ne hr]
      exact inv.session r
  · by_cases hr : r = role
    · subst hr
      rw [Function.update_self]
      obtain ⟨rest, hrest⟩ := inv.order r
      have hnext : ((d.sent (peer r)).map (·.plaintext))[(d.got r).length]? = some x.plaintext := by
        rw [List.getElem?_map, hx]
        rfl
      rw [← hrest, List.getElem?_append_right (Nat.le_refl _), Nat.sub_self] at hnext
      cases rest with
      | nil => cases hnext
      | cons y rest =>
        cases hnext
        exact ⟨rest, by rw [← hrest]; simp⟩
    · rw [Function.update_of_ne hr]
      exact inv.order r

theorem step_seals (aead : Aead) (d : Duplex) (role : Role) (pt : Bytes) :
    (∃ buf s, sealFrame aead pt (d.session role) = (.ok buf, s) ∧
      d.step aead (.seals role pt) =
        (.ok buf, { d with session := Function.update d.session role s
                           made := d.made ++
                             [encryptionOf (d.session role) (d.session role).sendSeq pt]
                           sent := Function.update d.sent role (d.sent role ++ [⟨pt, buf⟩]) })) ∨
    ∃ e, d.step aead (.seals role pt) = (.error e, d) := by
  rcases hseal : sealFrame aead pt (d.session role) with ⟨e | buf, s⟩
  · have hs := sealFrame_error hseal
    exact .inr ⟨e, by simp only [Duplex.step, hseal, hs, Function.update_eq_self]⟩
  · exact .inl ⟨buf, s, rfl, by simp only [Duplex.step, hseal]⟩

theorem step_opens (aead : Aead) (d : Duplex) (role : Role) (buf : Bytes) :
    (∃ pt s, openFrame (ideal aead d.made) buf (d.session role) = (.ok pt, s) ∧
      d.step aead (.opens role buf) =
        (.ok pt, { d with session := Function.update d.session role s
                          got := Function.update d.got role (d.got role ++ [pt]) })) ∨
    ∃ e, d.step aead (.opens role buf) = (.error e, d) := by
  rcases hopen : openFrame (ideal aead d.made) buf (d.session role) with ⟨e | pt, s⟩
  · have hs := openFrame_error hopen
    exact .inr ⟨e, by simp only [Duplex.step, hopen, hs, Function.update_eq_self]⟩
  · exact .inl ⟨pt, s, rfl, by simp only [Duplex.step, hopen]⟩

theorem DuplexInv.step (inv : DuplexInv aead keys connId d) (ev : DuplexEvent) :
    DuplexInv aead keys connId (d.step aead ev).2 := by
  cases ev with
  | seals role pt =>
    rcases step_seals aead d role pt with ⟨buf, s, hseal, hstep⟩ | ⟨e, hstep⟩
    · rw [hstep]
      exact inv.sealed hseal
    · rw [hstep]
      exact inv
  | opens role buf =>
    rcases step_opens aead d role buf with ⟨pt, s, hopen, hstep⟩ | ⟨e, hstep⟩
    · rw [hstep]
      exact inv.opened hopen
    · rw [hstep]
      exact inv

/-- Opening all that is pending for an end, in order, gives all that is in it. -/
theorem DuplexInv.opens_in_order (r : Role) (pending : List Sealing) :
    ∀ {d : Duplex}, DuplexInv aead keys connId d →
      pending = (d.sent (peer r)).drop (d.got r).length →
      (runAll (Duplex.step aead) d (pending.map fun x => .opens r x.buf)).1.map (·.2) =
        pending.map fun x => .ok x.plaintext := by
  induction pending with
  | nil =>
    intro d _ _
    rfl
  | cons x pending ih =>
    intro d inv hpending
    have hx : (d.sent (peer r))[(d.got r).length]? = some x := by
      have hhead := congrArg List.head? hpending
      rw [List.head?_drop] at hhead
      exact hhead.symm
    have hopens := inv.openFrame_genuine hx
    rcases step_opens aead d r x.buf with ⟨pt, s, hopen, hstep⟩ | ⟨e, hstep⟩
    · rw [hopens] at hopen
      cases hopen
      have hrest : pending = (d.sent (peer r)).drop ((d.got r).length + 1) := by
        rw [← List.tail_drop, ← hpending, List.tail_cons]
      have hinv := inv.opened hopens
      have hnext := ih hinv (by rw [hrest]; simp)
      rw [List.map_cons, runAll]
      simp only [hstep, List.map_cons, hnext]
    · rw [Duplex.step, hopens] at hstep
      cases hstep

/-- With the two directions under different keys, no key meets an IV twice. -/
theorem DuplexInv.apart_step (inv : DuplexInv aead keys connId d)
    (hkeys : keys.c2sEnc ≠ keys.s2cEnc)
    (hd : (d.made.map fun e => (e.key, e.iv)).Nodup) (ev : DuplexEvent) :
    ((d.step aead ev).2.made.map fun e => (e.key, e.iv)).Nodup := by
  -- The two directions encrypt under keys of their own.
  have hrole : ∀ {r r' : Role} {i i' : Nat} {pt pt' : Bytes},
      (encryptionAt keys connId r i pt).key = (encryptionAt keys connId r' i' pt').key →
      r = r' := by
    intro r r' i i' pt pt' hkey
    cases r <;> cases r'
    · rfl
    · exact absurd hkey hkeys
    · exact absurd hkey.symm hkeys
    · rfl
  cases ev with
  | opens role buf =>
    rcases step_opens aead d role buf with ⟨pt, s, -, hstep⟩ | ⟨e, hstep⟩ <;>
      rw [hstep] <;> exact hd
  | seals role pt =>
    rcases step_seals aead d role pt with ⟨buf, s, hseal, hstep⟩ | ⟨e, hstep⟩
    · rw [hstep]
      have hlimit := (sealFrame_ok hseal).2.1
      have henc : encryptionOf (d.session role) (d.session role).sendSeq pt
          = encryptionAt keys connId role (d.sent role).length pt := by
        rw [inv.session role]
        rfl
      have hseq : (d.session role).sendSeq = (d.sent role).length := by rw [inv.session role]
      rw [hseq] at hlimit
      dsimp only
      rw [henc, List.map_append, List.nodup_append]
      refine ⟨hd, by simp, ?_⟩
      intro a ha b hb hab
      obtain ⟨e, he, rfl⟩ := List.mem_map.mp ha
      obtain ⟨r, i, x, hx, rfl⟩ := (inv.made e).mp he
      simp only [List.map_cons, List.map_nil, List.mem_singleton] at hb
      rw [hb] at hab
      obtain ⟨hkey, hiv⟩ := Prod.mk.inj hab
      obtain rfl := hrole hkey
      -- Under one key the nonces differ with the sequence numbers.
      have hi := inv.index_lt hx
      have hlt := (List.getElem?_eq_some_iff.mp hx).1
      have heq : i = (d.sent r).length := iv_inj hi (by omega) hiv
      omega
    · rw [hstep]
      exact hd

/-- **An ordered, replay-free duplex channel.** However the two ends seal and whatever they are
    offered: each has opened the first plaintexts of the other, in order; opening what is pending in
    order gives exactly what is in it; every buffer but the next one is refused and changes nothing;
    and, the directions' keys being different (HKDF under two labels), no key meets an IV twice. -/
theorem ordered_replay_free_channel {log : List (DuplexEvent × Except ChannelError Bytes)}
    (run : Run (Duplex.step aead) Any (Duplex.start keys connId) log d) :
    (∀ r, d.got r <+: (d.sent (peer r)).map (·.plaintext)) ∧
    (∀ r, (runAll (Duplex.step aead) d
        (((d.sent (peer r)).drop (d.got r).length).map fun x => .opens r x.buf)).1.map (·.2) =
      ((d.sent (peer r)).drop (d.got r).length).map fun x => .ok x.plaintext) ∧
    (∀ r buf, (∀ x, (d.sent (peer r))[(d.got r).length]? = some x → x.buf ≠ buf) →
      ∃ e, d.step aead (.opens r buf) = (.error e, d)) ∧
    (keys.c2sEnc ≠ keys.s2cEnc → (d.made.map fun e => (e.key, e.iv)).Nodup) := by
  have inv : DuplexInv aead keys connId d :=
    run.invariant duplexInv_start fun u ev hu _ => hu.step ev
  refine ⟨inv.order, fun r => inv.opens_in_order r _ rfl, fun r buf hother => ?_, fun hkeys => ?_⟩
  · rcases step_opens aead d r buf with ⟨pt, s, hopen, -⟩ | hrefused
    · obtain ⟨x, hx, hbuf, -⟩ := inv.openFrame_next hopen
      exact absurd hbuf (hother x hx)
    · exact hrefused
  · have hboth : DuplexInv aead keys connId d ∧ (d.made.map fun e => (e.key, e.iv)).Nodup :=
      run.invariant (P := fun d => DuplexInv aead keys connId d ∧
        (d.made.map fun e => (e.key, e.iv)).Nodup) ⟨duplexInv_start, by simp [Duplex.start]⟩
        fun u ev hu _ => ⟨hu.1.step ev, hu.1.apart_step hkeys hu.2 ev⟩
    exact hboth.2

end Invariant

/-! ## A short exchange -/

/-- A cipher that shifts every byte by the first one of the key, with the IV in its tag. -/
def plainAead : Aead where
  encrypt key iv _ pt :=
    (pt.map (· ^^^ key.headD 0), (iv ++ List.replicate tagBytes 0).take tagBytes)
  length_ciphertext _ _ _ _ := by simp
  length_tag _ _ _ _ := by simp [tagBytes]

def plainKeys : DerivedKeys :=
  { c2sEnc := [1], s2cEnc := [2], c2sIv := [3], s2cIv := [4], mkClient := [5], mkServer := [6] }

def firstFrame : Bytes := bufferOf plainAead 0 (encryptionAt plainKeys [7] .client 0 [104, 105])

/-- Both ends seal, and the server opens the client's first frame. Offered the same buffer again, it
    refuses it. -/
theorem replayed_frame_refused :
    let d := (runAll (Duplex.step plainAead) (Duplex.start plainKeys [7])
      [.seals .client [104, 105], .seals .server [106], .opens .server firstFrame]).2
    d.got .server = [[104, 105]] ∧ (d.made.map fun e => (e.key, e.iv)).Nodup ∧
      ∃ e, d.step plainAead (.opens .server firstFrame) = (.error e, d) := by
  intro d
  have run := Run.of_events (Duplex.step plainAead) (Duplex.start plainKeys [7])
    [.seals .client [104, 105], .seals .server [106], .opens .server firstFrame]
  obtain ⟨-, -, hrefuse, hapart⟩ := ordered_replay_free_channel run
  have hnone : (d.sent (peer .server))[(d.got .server).length]? = none := by decide +kernel
  refine ⟨by decide +kernel, hapart (by decide), hrefuse .server firstFrame ?_⟩
  intro x hx
  rw [hnone] at hx
  cases hx

end Proof
end XBus
