import XBus.Hello
import XBus.Proof.Codec

/-!
# The codec of the hellos

The writer masks: a length, a count or a number that is too large for its field keeps its low bits,
and a string keeps its characters. The reader takes what is there and stops behind the last field.
So a hello comes back exactly if every field fits (`hello_comes_back_iff`), and the bytes are those
of the hello that was read exactly if they are canonical (`hello_rewritten_iff`): texts in UTF-8 and
nothing behind them.
-/

set_option autoImplicit false

namespace XBus
namespace Proof

open Lib

/-! ## Field by field

Each field is read back if it fits, and only then; and then the reader stands behind it. -/

namespace Read

variable {buf rest rest' : Bytes}

theorem raw_back {n : Nat} {out bs : Bytes} (hlen : bs.length = n) :
    ByteReader.raw n (bs ++ rest) = .ok (out, rest') ↔ bs = out ∧ rest = rest' := by
  subst hlen
  rw [raw_append]
  simp

theorem u8_back {n m : Nat} :
    ByteReader.u8 (u8 n ++ rest) = .ok (m, rest') ↔ n % 256 = m ∧ rest = rest' := by
  have hword : u8 n = u8 (n % 256) := by
    apply congrArg (fun b => [b])
    apply UInt8.toNat_inj.mp
    simp only [UInt8.toNat_ofNat']
    omega
  have hraw : ByteReader.raw 1 (u8 n ++ rest) = .ok (u8 n, rest) := raw_append (u8 n) rest
  rw [ByteReader.u8, bind_of_ok hraw, pure_ok, hword, beNat_u8 (Nat.mod_lt n (by decide))]

theorem u16_back {n m : Nat} :
    ByteReader.u16 (u16 n ++ rest) = .ok (m, rest') ↔ n % 65536 = m ∧ rest = rest' := by
  have hraw : ByteReader.raw 2 (u16 n ++ rest) = .ok (u16 n, rest) := raw_append (u16 n) rest
  rw [ByteReader.u16, bind_of_ok hraw, pure_ok, ← u16_mod, beNat_u16 (Nat.mod_lt n (by decide))]

theorem u32_back {n m : Nat} :
    ByteReader.u32 (u32 n ++ rest) = .ok (m, rest') ↔ n % 4294967296 = m ∧ rest = rest' := by
  have hraw : ByteReader.raw 4 (u32 n ++ rest) = .ok (u32 n, rest) := raw_append (u32 n) rest
  rw [ByteReader.u32, bind_of_ok hraw, pure_ok, ← u32_mod, beNat_u32 (Nat.mod_lt n (by decide))]

/-- A length of sixteen bits or more loses its upper part, and with it the end of the bytes. -/
theorem bytes_read (bs rest : Bytes) :
    ByteReader.bytes (ByteWriter.bytes bs ++ rest) =
      .ok (bs.take (bs.length % 65536), bs.drop (bs.length % 65536) ++ rest) := by
  have hle : bs.length % 65536 ≤ bs.length := Nat.mod_le ..
  have hraw : ByteReader.raw (bs.length % 65536)
      (bs.take (bs.length % 65536) ++ (bs.drop (bs.length % 65536) ++ rest)) =
        .ok (bs.take (bs.length % 65536), bs.drop (bs.length % 65536) ++ rest) :=
    (raw_back (List.length_take_of_le hle)).mpr ⟨rfl, rfl⟩
  rw [← List.append_assoc, List.take_append_drop] at hraw
  unfold ByteReader.bytes ByteWriter.bytes
  rw [List.append_assoc, bind_of_ok (u16_back.mpr ⟨rfl, rfl⟩)]
  exact hraw

theorem bytes_back {bs : Bytes} : ByteReader.bytes (ByteWriter.bytes bs ++ rest) = .ok (bs, rest') ↔
    bs.length < 65536 ∧ rest = rest' := by
  rw [bytes_read]
  constructor
  · intro h
    obtain ⟨htake, hdrop⟩ := Prod.mk.inj (Except.ok.inj h)
    have hlen := congrArg List.length htake
    rw [List.length_take] at hlen
    have hlt : bs.length < 65536 := by omega
    rw [Nat.mod_eq_of_lt hlt, List.drop_length] at hdrop
    exact ⟨hlt, hdrop⟩
  · rintro ⟨hlt, rfl⟩
    rw [Nat.mod_eq_of_lt hlt, List.take_length, List.drop_length]
    rfl

/-- Of a text that is cut short, fewer characters are read: it does not come back by chance. -/
theorem str_back {s : String} : ByteReader.str (ByteWriter.str s ++ rest) = .ok (s, rest') ↔
    (utf8 s.toList).length < 65536 ∧ rest = rest' := by
  unfold ByteReader.str ByteWriter.str
  constructor
  · intro h
    obtain ⟨read, mid, hread, hpure⟩ := bind_ok.mp h
    obtain ⟨htext, rfl⟩ := pure_ok.mp hpure
    have hlt : (utf8 s.toList).length < 65536 := by
      by_contra hge
      rw [bytes_read] at hread
      obtain ⟨rfl, -⟩ := Prod.mk.inj (Except.ok.inj hread)
      have hshort : (readUtf8 ((utf8 s.toList).take ((utf8 s.toList).length % 65536))).length <
          s.toList.length := length_readUtf8_take_lt (by omega)
      rw [← String.toList_ofList (l := readUtf8 _), htext] at hshort
      exact Nat.lt_irrefl _ hshort
    have hback : ByteReader.bytes (ByteWriter.bytes (utf8 s.toList) ++ rest) =
        .ok (utf8 s.toList, rest) := bytes_back.mpr ⟨hlt, rfl⟩
    rw [hback] at hread
    exact ⟨hlt, (Prod.mk.inj (Except.ok.inj hread)).2⟩
  · rintro ⟨hlt, rfl⟩
    rw [bind_of_ok (bytes_back.mpr ⟨hlt, rfl⟩), readUtf8_utf8, String.ofList_toList]
    rfl

theorem u16s_back {arr out : List Nat} :
    ByteReader.u16s arr.length (arr.flatMap u16 ++ rest) = .ok (out, rest') ↔
      arr.map (· % 65536) = out ∧ rest = rest' := by
  induction arr generalizing out rest' with
  | nil =>
    rw [List.length_nil, ByteReader.u16s, pure_ok]
    rfl
  | cons n arr ih =>
    rw [List.length_cons, ByteReader.u16s, List.flatMap_cons, List.append_assoc,
      bind_of_ok (u16_back.mpr ⟨rfl, rfl⟩), bind_of_ok (ih.mpr ⟨rfl, rfl⟩), pure_ok]
    rfl

theorem u16s_ok {n : Nat} {out : List Nat} (h : ByteReader.u16s n buf = .ok (out, rest)) :
    out.length = n ∧ (∀ m ∈ out, m < 65536) ∧ buf = out.flatMap u16 ++ rest := by
  induction n generalizing buf out with
  | zero =>
    obtain ⟨rfl, rfl⟩ := pure_ok.mp h
    exact ⟨rfl, fun m hm => absurd hm List.not_mem_nil, rfl⟩
  | succ n ih =>
    obtain ⟨first, mid, hfirst, h⟩ := bind_ok.mp h
    obtain ⟨others, mid', hothers, h⟩ := bind_ok.mp h
    obtain ⟨rfl, rfl⟩ := pure_ok.mp h
    obtain ⟨hlt, rfl⟩ := u16_ok hfirst
    obtain ⟨hlen, hall, rfl⟩ := ih hothers
    refine ⟨congrArg Nat.succ hlen, ?_, ?_⟩
    · intro m hm
      rcases List.mem_cons.mp hm with rfl | hm
      · exact hlt
      · exact hall m hm
    · rw [List.flatMap_cons, List.append_assoc]

theorem u16Array_back {arr : List Nat} :
    ByteReader.u16Array (ByteWriter.u16Array arr ++ rest) = .ok (arr, rest') ↔
      (arr.length < 65536 ∧ ∀ n ∈ arr, n < 65536) ∧ rest = rest' := by
  unfold ByteReader.u16Array ByteWriter.u16Array
  rw [List.append_assoc, bind_of_ok (u16_back.mpr ⟨rfl, rfl⟩)]
  constructor
  · intro h
    obtain ⟨hlen, hall, -⟩ := u16s_ok h
    have hlt : arr.length < 65536 := by omega
    rw [Nat.mod_eq_of_lt hlt] at h
    exact ⟨⟨hlt, hall⟩, (u16s_back.mp h).2⟩
  · rintro ⟨⟨hlt, hall⟩, rfl⟩
    rw [Nat.mod_eq_of_lt hlt]
    refine u16s_back.mpr ⟨?_, rfl⟩
    rw [List.map_congr_left fun n hn => Nat.mod_eq_of_lt (hall n hn), List.map_id']

end Read

/-! ## `client_hello` -/

/-- The length of the text has sixteen bits. -/
def TextFits (s : String) : Prop := (utf8 s.toList).length < 65536

/-- The fields of an identity fit. -/
structure IdentityFits (i : HelloIdentity) : Prop where
  buildId : TextFits i.buildId
  appProtoRange : TextFits i.appProtoRange
  claimedRole : TextFits i.claimedRole
  claimedSessionId : TextFits i.claimedSessionId
  claimedEpoch : i.claimedEpoch < 4294967296
  capabilities : TextFits i.capabilities

/-- The fields of a hello fit. -/
structure HelloFits (h : ClientHello) : Prop where
  keyVersion : h.keyVersion < 4294967296
  count : h.offeredSuites.length < 65536
  suites : ∀ n ∈ h.offeredSuites, n < 65536
  identity : IdentityFits h.identity

open ByteWriter in
/-- The part of `encodeClientHello` that writes the identity. -/
def identityBytes (i : HelloIdentity) : Bytes :=
  str i.buildId ++ (str i.appProtoRange ++ (str i.claimedRole ++ (str i.claimedSessionId ++
    (u32 i.claimedEpoch ++ str i.capabilities))))

open ByteWriter in
theorem encodeClientHello_eq (h : ClientHello) : encodeClientHello h =
    str stpMagic ++ (u8 stpVersion ++ (u32 h.keyVersion ++ (u16Array h.offeredSuites ++
      (h.clientNonce ++ (bytes h.connId ++ identityBytes h.identity))))) := by
  unfold encodeClientHello identityBytes
  simp only [List.append_assoc]

theorem identity_back {i : HelloIdentity} {rest rest' : Bytes} :
    readIdentity (identityBytes i ++ rest) = .ok (i, rest') ↔ IdentityFits i ∧ rest = rest' := by
  unfold readIdentity identityBytes
  simp only [List.append_assoc]
  constructor
  · intro h
    obtain ⟨buildId, _, hbuild, h⟩ := Read.bind_ok.mp h
    obtain ⟨appProtoRange, _, hrange, h⟩ := Read.bind_ok.mp h
    obtain ⟨claimedRole, _, hrole, h⟩ := Read.bind_ok.mp h
    obtain ⟨claimedSessionId, _, hsession, h⟩ := Read.bind_ok.mp h
    obtain ⟨claimedEpoch, _, hepoch, h⟩ := Read.bind_ok.mp h
    obtain ⟨capabilities, _, hcaps, h⟩ := Read.bind_ok.mp h
    obtain ⟨rfl, rfl⟩ := Read.pure_ok.mp h
    obtain ⟨buildFits, rfl⟩ := Read.str_back.mp hbuild
    obtain ⟨rangeFits, rfl⟩ := Read.str_back.mp hrange
    obtain ⟨roleFits, rfl⟩ := Read.str_back.mp hrole
    obtain ⟨sessionFits, rfl⟩ := Read.str_back.mp hsession
    have hlt := (Read.u32_ok hepoch).1
    obtain ⟨-, rfl⟩ := Read.u32_back.mp hepoch
    obtain ⟨capsFits, rfl⟩ := Read.str_back.mp hcaps
    exact ⟨⟨buildFits, rangeFits, roleFits, sessionFits, hlt, capsFits⟩, rfl⟩
  · rintro ⟨hfits, rfl⟩
    rw [Read.bind_of_ok (Read.str_back.mpr ⟨hfits.buildId, rfl⟩),
      Read.bind_of_ok (Read.str_back.mpr ⟨hfits.appProtoRange, rfl⟩),
      Read.bind_of_ok (Read.str_back.mpr ⟨hfits.claimedRole, rfl⟩),
      Read.bind_of_ok (Read.str_back.mpr ⟨hfits.claimedSessionId, rfl⟩),
      Read.bind_of_ok (Read.u32_back.mpr ⟨Nat.mod_eq_of_lt hfits.claimedEpoch, rfl⟩),
      Read.bind_of_ok (Read.str_back.mpr ⟨hfits.capabilities, rfl⟩)]
    rfl

theorem mismatchUnless_ok {c : Prop} [Decidable c] {text : String} {buf rest : Bytes} :
    mismatchUnless c text buf = .ok ((), rest) ↔ c ∧ buf = rest := by
  unfold mismatchUnless
  split_ifs with hc <;> simp [hc]

/-- What the reader of a hello makes of the bytes of one. -/
theorem hello_back {h : ClientHello} {rest rest' : Bytes}
    (hnonce : h.clientNonce.length = nonceBytes) (hconn : h.connId.length = connIdBytes) :
    readClientHello (encodeClientHello h ++ rest) = .ok (h, rest') ↔
      HelloFits h ∧ rest = rest' := by
  have hmagic (rest : Bytes) : ByteReader.str (ByteWriter.str stpMagic ++ rest) =
      .ok (stpMagic, rest) := Read.str_back.mpr ⟨by decide, rfl⟩
  have hversion (rest : Bytes) : ByteReader.u8 (u8 stpVersion ++ rest) = .ok (stpVersion, rest) :=
    Read.u8_back.mpr ⟨rfl, rfl⟩
  have hconnLt : h.connId.length < 65536 := by
    rw [hconn]
    decide
  -- The magic and the version are constants, so they always come back.
  rw [encodeClientHello_eq]
  unfold readClientHello
  simp only [List.append_assoc]
  rw [Read.bind_of_ok (hmagic _), Read.bind_of_ok (mismatchUnless_ok.mpr ⟨rfl, rfl⟩),
    Read.bind_of_ok (hversion _), Read.bind_of_ok (mismatchUnless_ok.mpr ⟨rfl, rfl⟩)]
  constructor
  · intro hread
    obtain ⟨keyVersion, _, hkey, hread⟩ := Read.bind_ok.mp hread
    obtain ⟨offeredSuites, _, hsuites, hread⟩ := Read.bind_ok.mp hread
    obtain ⟨clientNonce, _, hrawNonce, hread⟩ := Read.bind_ok.mp hread
    obtain ⟨connId, _, hbytes, hread⟩ := Read.bind_ok.mp hread
    obtain ⟨_, _, hlength, hread⟩ := Read.bind_ok.mp hread
    obtain ⟨identity, _, hidentity, hread⟩ := Read.bind_ok.mp hread
    obtain ⟨rfl, rfl⟩ := Read.pure_ok.mp hread
    have hlt := (Read.u32_ok hkey).1
    obtain ⟨-, rfl⟩ := Read.u32_back.mp hkey
    obtain ⟨⟨hcount, hall⟩, rfl⟩ := Read.u16Array_back.mp hsuites
    obtain ⟨-, rfl⟩ := (Read.raw_back hnonce).mp hrawNonce
    obtain ⟨-, rfl⟩ := Read.bytes_back.mp hbytes
    obtain ⟨-, rfl⟩ := mismatchUnless_ok.mp hlength
    obtain ⟨hfits, rfl⟩ := identity_back.mp hidentity
    exact ⟨⟨hlt, hcount, hall, hfits⟩, rfl⟩
  · rintro ⟨hfits, rfl⟩
    rw [Read.bind_of_ok (Read.u32_back.mpr ⟨Nat.mod_eq_of_lt hfits.keyVersion, rfl⟩),
      Read.bind_of_ok (Read.u16Array_back.mpr ⟨⟨hfits.count, hfits.suites⟩, rfl⟩),
      Read.bind_of_ok ((Read.raw_back hnonce).mpr ⟨rfl, rfl⟩),
      Read.bind_of_ok (Read.bytes_back.mpr ⟨hconnLt, rfl⟩),
      Read.bind_of_ok (mismatchUnless_ok.mpr ⟨hconn, rfl⟩),
      Read.bind_of_ok (identity_back.mpr ⟨hfits.identity, rfl⟩)]
    rfl

theorem parse_ok_iff {buf : Bytes} {h : ClientHello} :
    parseClientHello buf = .ok h ↔ ∃ rest, readClientHello buf = .ok (h, rest) := by
  unfold parseClientHello
  cases readClientHello buf with
  | error e => simp [Except.map]
  | ok p =>
    obtain ⟨a, rest⟩ := p
    simp [Except.map]

/-! ## What a caller supplies -/

/-- The number is one that a word of so many values can be. -/
def IsWord (modulus : Nat) (n : AnyNumber) : Prop := ∃ k : ℕ, k < modulus ∧ n = .finite k

/-- The string is a text, and its length has sixteen bits. -/
def StringFits (s : JsString) : Prop := paired s = true ∧ (utf8 (scalars s)).length < 65536

theorem low_natCast (modulus k : Nat) : (AnyNumber.finite k).low modulus = k % modulus := by
  show (((k : ℚ).num.tdiv (k : ℚ).den) % (modulus : ℤ)).toNat = k % modulus
  rw [Rat.num_natCast, Rat.den_natCast, Int.ofNat_one, Int.tdiv_one, ← Int.natCast_emod,
    Int.toNat_natCast]

theorem IsWord.low {modulus : Nat} {n : AnyNumber} (h : IsWord modulus n) :
    n.low modulus < modulus ∧ .finite (n.low modulus) = n := by
  obtain ⟨k, hk, rfl⟩ := h
  rw [low_natCast, Nat.mod_eq_of_lt hk]
  exact ⟨hk, rfl⟩

theorem stringFits_utf16 {s : String} (h : TextFits s) : StringFits (utf16 s) := by
  unfold StringFits utf16
  rw [scalars_flatMap_units]
  exact ⟨paired_flatMap_units s.toList, h⟩

theorem textFits_textOf {s : JsString} (h : StringFits s) : TextFits (textOf s) := by
  unfold TextFits textOf
  rw [String.toList_ofList]
  exact h.2

/-- A hello whose every field fits. -/
structure HelloInputFits (h : ClientHelloInput) : Prop where
  keyVersion : IsWord (2 ^ 32) h.keyVersion
  count : h.offeredSuites.length < 65536
  suites : ∀ n ∈ h.offeredSuites, IsWord (2 ^ 16) n
  buildId : StringFits h.identity.buildId
  appProtoRange : StringFits h.identity.appProtoRange
  claimedRole : StringFits h.identity.claimedRole
  claimedSessionId : StringFits h.identity.claimedSessionId
  claimedEpoch : IsWord (2 ^ 32) h.identity.claimedEpoch
  capabilities : StringFits h.identity.capabilities

/-- What fits is taken as it is. -/
theorem value_taken {h : ClientHelloInput} (hfits : HelloInputFits h) : h.taken.value = h := by
  obtain ⟨keyVersion, suites, nonce, connId, identity⟩ := h
  have hsuites : (suites.map (AnyNumber.low (2 ^ 16))).map (fun n : ℕ => AnyNumber.finite n) =
      suites := by
    rw [List.map_map]
    exact (List.map_congr_left fun n hn => (hfits.suites n hn).low.2).trans (List.map_id' _)
  unfold ClientHelloInput.taken HelloIdentityInput.taken ClientHello.value HelloIdentity.value
  simp only [hsuites, hfits.keyVersion.low.2, hfits.claimedEpoch.low.2,
    utf16_textOf hfits.buildId.1, utf16_textOf hfits.appProtoRange.1,
    utf16_textOf hfits.claimedRole.1, utf16_textOf hfits.claimedSessionId.1,
    utf16_textOf hfits.capabilities.1]

theorem taken_fits {h : ClientHelloInput} (hfits : HelloInputFits h) : HelloFits h.taken := by
  refine ⟨hfits.keyVersion.low.1, ?_, ?_, ?_⟩
  · unfold ClientHelloInput.taken
    rw [List.length_map]
    exact hfits.count
  · intro n hn
    obtain ⟨m, hm, rfl⟩ := List.mem_map.mp hn
    exact (hfits.suites m hm).low.1
  · exact ⟨textFits_textOf hfits.buildId, textFits_textOf hfits.appProtoRange,
      textFits_textOf hfits.claimedRole, textFits_textOf hfits.claimedSessionId,
      hfits.claimedEpoch.low.1, textFits_textOf hfits.capabilities⟩

theorem value_fits {p : ClientHello} (hfits : HelloFits p) : HelloInputFits p.value := by
  refine ⟨⟨_, hfits.keyVersion, rfl⟩, ?_, ?_, stringFits_utf16 hfits.identity.buildId,
    stringFits_utf16 hfits.identity.appProtoRange, stringFits_utf16 hfits.identity.claimedRole,
    stringFits_utf16 hfits.identity.claimedSessionId, ⟨_, hfits.identity.claimedEpoch, rfl⟩,
    stringFits_utf16 hfits.identity.capabilities⟩
  · unfold ClientHello.value
    rw [List.length_map]
    exact hfits.count
  · intro n hn
    obtain ⟨m, hm, rfl⟩ := List.mem_map.mp hn
    exact ⟨m, hfits.suites m hm, rfl⟩

/-- The writer masks as the language does. -/
theorem encode_value (p : ClientHello) : p.value.encode = encodeClientHello p := by
  have hwords : ((p.offeredSuites.map fun n : ℕ => AnyNumber.finite n).map
      (AnyNumber.low (2 ^ 16))).flatMap u16 = p.offeredSuites.flatMap u16 := by
    rw [List.map_map, List.flatMap_map]
    apply List.flatMap_congr
    intro n _
    show u16 ((AnyNumber.finite n).low (2 ^ 16)) = u16 n
    rw [low_natCast]
    exact u16_mod n
  have hmask (n : ℕ) : u32 ((AnyNumber.finite n).low (2 ^ 32)) = u32 n := by
    rw [low_natCast]
    exact u32_mod n
  unfold ClientHelloInput.encode ClientHelloInput.taken HelloIdentityInput.taken
    ClientHello.value HelloIdentity.value encodeClientHello ByteWriter.u16Array
  simp only [hwords, hmask, textOf_utf16, List.length_map]

/-- A hello of the fixed widths comes back from its bytes exactly if every field of it fits. -/
theorem hello_value_iff {h : ClientHelloInput} (hnonce : h.clientNonce.length = nonceBytes)
    (hconn : h.connId.length = connIdBytes) :
    (∃ p, parseClientHello h.encode = .ok p ∧ p.value = h) ↔ HelloInputFits h := by
  constructor
  · rintro ⟨p, hparse, rfl⟩
    obtain ⟨rest, hread⟩ := parse_ok_iff.mp hparse
    rw [encode_value, ← List.append_nil (encodeClientHello p)] at hread
    exact value_fits ((hello_back hnonce hconn).mp hread).1
  · intro hfits
    refine ⟨h.taken, parse_ok_iff.mpr ⟨[], ?_⟩, value_taken hfits⟩
    have hback : readClientHello (encodeClientHello h.taken ++ []) = .ok (h.taken, []) :=
      (hello_back hnonce hconn).mpr ⟨taken_fits hfits, rfl⟩
    rw [List.append_nil] at hback
    exact hback

/-! ## `server_hello` -/

/-- A server's hello whose every field fits. -/
structure ServerHelloFits (h : ServerHelloInput) : Prop where
  stpVersion : IsWord (2 ^ 8) h.stpVersion
  keyVersion : IsWord (2 ^ 32) h.keyVersion
  selectedSuite : IsWord (2 ^ 16) h.selectedSuite
  brokerInstanceId : StringFits h.brokerInstanceId

theorem serverHello_parse_iff {buf : Bytes} {sh : ServerHelloParsed} :
    parseServerHello buf = .ok sh ↔ ∃ rest, readServerHello buf = .ok (sh, rest) := by
  unfold parseServerHello
  cases readServerHello buf with
  | error e => simp [Except.map]
  | ok p =>
    obtain ⟨a, rest⟩ := p
    simp [Except.map]

theorem serverHello_value_iff {h : ServerHelloInput} {proof : Bytes}
    (hnonce : h.serverNonce.length = nonceBytes) (hproof : proof.length = proofBytes) :
    (∃ sh, parseServerHello (h.encode ++ proof) = .ok sh ∧ sh.value = h ∧
      sh.serverProof = proof) ↔ ServerHelloFits h := by
  simp only [serverHello_parse_iff]
  unfold readServerHello ServerHelloInput.encode encodeServerHelloCore
  simp only [List.append_assoc]
  constructor
  · rintro ⟨sh, ⟨rest, hread⟩, rfl, rfl⟩
    obtain ⟨version, _, hversion, hread⟩ := Read.bind_ok.mp hread
    obtain ⟨keyVersion, _, hkey, hread⟩ := Read.bind_ok.mp hread
    obtain ⟨selectedSuite, _, hsuite, hread⟩ := Read.bind_ok.mp hread
    obtain ⟨serverNonce, _, hraw, hread⟩ := Read.bind_ok.mp hread
    obtain ⟨brokerInstanceId, _, hstr, hread⟩ := Read.bind_ok.mp hread
    obtain ⟨serverProof, _, -, hread⟩ := Read.bind_ok.mp hread
    obtain ⟨rfl, rfl⟩ := Read.pure_ok.mp hread
    -- Each number came out within its width and is the one that was written.
    have versionLt := Read.u8_ok hversion
    have keyLt := (Read.u32_ok hkey).1
    have suiteLt := (Read.u16_ok hsuite).1
    obtain ⟨-, rfl⟩ := Read.u8_back.mp hversion
    obtain ⟨-, rfl⟩ := Read.u32_back.mp hkey
    obtain ⟨-, rfl⟩ := Read.u16_back.mp hsuite
    obtain ⟨-, rfl⟩ := (Read.raw_back hnonce).mp hraw
    have hid : textOf (utf16 brokerInstanceId) = brokerInstanceId := textOf_utf16 _
    simp only [ServerHelloParsed.value, hid] at hstr
    exact ⟨⟨version, versionLt, rfl⟩, ⟨keyVersion, keyLt, rfl⟩, ⟨selectedSuite, suiteLt, rfl⟩,
      stringFits_utf16 (Read.str_back.mp hstr).1⟩
  · intro hfits
    -- A number that fits is its own low bits.
    refine ⟨⟨h.stpVersion.low (2 ^ 8), h.keyVersion.low (2 ^ 32), h.selectedSuite.low (2 ^ 16),
      h.serverNonce, textOf h.brokerInstanceId, proof⟩, ⟨[], ?_⟩, ?_, rfl⟩
    · rw [Read.bind_of_ok (Read.u8_back.mpr ⟨Nat.mod_eq_of_lt hfits.stpVersion.low.1, rfl⟩),
        Read.bind_of_ok (Read.u32_back.mpr ⟨Nat.mod_eq_of_lt hfits.keyVersion.low.1, rfl⟩),
        Read.bind_of_ok (Read.u16_back.mpr ⟨Nat.mod_eq_of_lt hfits.selectedSuite.low.1, rfl⟩),
        Read.bind_of_ok ((Read.raw_back hnonce).mpr ⟨rfl, rfl⟩),
        Read.bind_of_ok (Read.str_back.mpr ⟨textFits_textOf hfits.brokerInstanceId, rfl⟩)]
      have hraw : ByteReader.raw proofBytes (proof ++ []) = .ok (proof, []) :=
        (Read.raw_back hproof).mpr ⟨rfl, rfl⟩
      rw [List.append_nil] at hraw
      rw [Read.bind_of_ok hraw]
      rfl
    · unfold ServerHelloParsed.value
      rw [hfits.stpVersion.low.2, hfits.keyVersion.low.2, hfits.selectedSuite.low.2,
        utf16_textOf hfits.brokerInstanceId.1]

/-- A hello comes back exactly if its fields fit, the client's and the server's. -/
theorem hellos_come_back_iff (h : ClientHelloInput) (s : ServerHelloInput) (proof : Bytes)
    (hnonce : h.clientNonce.length = nonceBytes) (hconn : h.connId.length = connIdBytes)
    (hserver : s.serverNonce.length = nonceBytes) (hproof : proof.length = proofBytes) :
    ((∃ p, parseClientHello h.encode = .ok p ∧ p.value = h) ↔ HelloInputFits h) ∧
      ((∃ sh, parseServerHello (s.encode ++ proof) = .ok sh ∧ sh.value = s ∧
        sh.serverProof = proof) ↔ ServerHelloFits s) :=
  ⟨hello_value_iff hnonce hconn, serverHello_value_iff hserver hproof⟩

/-- The hello of a session, with its epoch and its capabilities. -/
def sessionHello (claimedEpoch : Nat) (capabilities : String) : ClientHello :=
  { keyVersion := 1, offeredSuites := [suiteAes256Gcm], clientNonce := List.replicate 32 7
    connId := List.replicate 16 9
    identity := { buildId := "build-é", appProtoRange := "1", claimedRole := "adapter"
                  claimedSessionId := "session-1", claimedEpoch, capabilities } }

theorem sessionHello_fits : HelloFits (sessionHello 4 "ack,reply") := by
  refine ⟨by decide, by decide, by decide, ⟨?_, ?_, ?_, ?_, by decide, ?_⟩⟩ <;>
  · unfold TextFits
    decide +kernel

theorem session_comes_back :
    (∃ p, parseClientHello (sessionHello 4 "ack,reply").value.encode = .ok p ∧
      p.value = (sessionHello 4 "ack,reply").value) ∧
    ∃ sh, parseServerHello ((ServerHelloInput.mk (.finite 1) (.finite 1) (.finite 1)
        (List.replicate 32 5) (utf16 "broker-1")).encode ++ List.replicate 32 6) = .ok sh ∧
      sh.value = ⟨.finite 1, .finite 1, .finite 1, List.replicate 32 5, utf16 "broker-1"⟩ ∧
      sh.serverProof = List.replicate 32 6 := by
  have hword {m : ℕ} (h : 1 < m) : IsWord m (.finite 1) := ⟨1, h, rfl⟩
  have hid : TextFits "broker-1" := by
    unfold TextFits
    decide +kernel
  obtain ⟨hclient, hserver⟩ := hellos_come_back_iff (sessionHello 4 "ack,reply").value
    ⟨.finite 1, .finite 1, .finite 1, List.replicate 32 5, utf16 "broker-1"⟩ (List.replicate 32 6)
    rfl rfl rfl rfl
  refine ⟨hclient.mpr (value_fits sessionHello_fits), hserver.mpr ⟨?_, ?_, ?_, ?_⟩⟩
  · exact hword (by decide)
  · exact hword (by decide)
  · exact hword (by decide)
  · exact stringFits_utf16 hid

/-- The epoch 2³² comes back as 0. A broker id that is an unpaired surrogate comes back as
    another text. -/
theorem hello_altered :
    ((parseClientHello (sessionHello 4294967296 "").value.encode).toOption.map
        fun p => p.identity.claimedEpoch) = some 0 ∧
      ¬ (∃ p, parseClientHello (sessionHello 4294967296 "").value.encode = .ok p ∧
        p.value = (sessionHello 4294967296 "").value) ∧
      ¬ ∃ sh, parseServerHello ((ServerHelloInput.mk (.finite 1) (.finite 1) (.finite 1)
          (List.replicate 32 5) [0xd800]).encode ++ List.replicate 32 6) = .ok sh ∧
        sh.value = ⟨.finite 1, .finite 1, .finite 1, List.replicate 32 5, [0xd800]⟩ ∧
        sh.serverProof = List.replicate 32 6 := by
  refine ⟨by decide +kernel, ?_, ?_⟩
  · intro h
    obtain ⟨k, hk, heq⟩ := ((hello_value_iff rfl rfl).mp h).claimedEpoch
    have hcast : ((4294967296 : ℕ) : ℚ) = k := AnyNumber.finite.inj heq
    have hnat : 4294967296 = k := by exact_mod_cast hcast
    omega
  · intro h
    have hpaired := ((serverHello_value_iff rfl rfl).mp h).brokerInstanceId.1
    exact absurd hpaired (by decide)

/-! ## What was read, written again -/

/-- The strings of a hello, as bytes. -/
def helloTexts : ByteReader (List Bytes) := do
  let magic ← ByteReader.bytes
  let _ ← ByteReader.u8
  let _ ← ByteReader.u32
  let _ ← ByteReader.u16Array
  let _ ← ByteReader.raw nonceBytes
  let _ ← ByteReader.bytes
  let buildId ← ByteReader.bytes
  let appProtoRange ← ByteReader.bytes
  let claimedRole ← ByteReader.bytes
  let claimedSessionId ← ByteReader.bytes
  let _ ← ByteReader.u32
  let capabilities ← ByteReader.bytes
  return [magic, buildId, appProtoRange, claimedRole, claimedSessionId, capabilities]

/-- Every string is in UTF-8, and nothing stands behind the last field. -/
def Canonical (buf : Bytes) : Prop :=
  ∃ texts, helloTexts buf = .ok (texts, []) ∧ ∀ t ∈ texts, IsUtf8 t

namespace Read

variable {buf rest : Bytes}

theorem u8_written {n : Nat} (h : ByteReader.u8 buf = .ok (n, rest)) : buf = u8 n ++ rest := by
  obtain ⟨word, _, hraw, hpure⟩ := bind_ok.mp h
  obtain ⟨rfl, rfl⟩ := pure_ok.mp hpure
  obtain ⟨hlen, rfl⟩ := raw_ok hraw
  obtain ⟨b, rfl⟩ := List.length_eq_one_iff.mp hlen
  simp [u8, beNat]

theorem bytes_ok {out : Bytes} (h : ByteReader.bytes buf = .ok (out, rest)) :
    buf = ByteWriter.bytes out ++ rest := by
  obtain ⟨n, mid, hlen, hraw⟩ := bind_ok.mp h
  obtain ⟨-, rfl⟩ := u16_ok hlen
  obtain ⟨rfl, rfl⟩ := raw_ok hraw
  unfold ByteWriter.bytes
  rw [List.append_assoc]

theorem u16Array_ok {out : List Nat} (h : ByteReader.u16Array buf = .ok (out, rest)) :
    buf = ByteWriter.u16Array out ++ rest := by
  obtain ⟨n, mid, hlen, hall⟩ := bind_ok.mp h
  obtain ⟨-, rfl⟩ := u16_ok hlen
  obtain ⟨rfl, -, rfl⟩ := u16s_ok hall
  unfold ByteWriter.u16Array
  rw [List.append_assoc]

/-- A string is read from its bytes, and written as they were if they are UTF-8. -/
theorem str_ok {s : String} (h : ByteReader.str buf = .ok (s, rest)) :
    ∃ bs, ByteReader.bytes buf = .ok (bs, rest) ∧
      (IsUtf8 bs → buf = ByteWriter.str s ++ rest) := by
  obtain ⟨bs, mid, hbytes, hpure⟩ := bind_ok.mp h
  obtain ⟨rfl, rfl⟩ := pure_ok.mp hpure
  refine ⟨bs, hbytes, ?_⟩
  intro hutf8
  unfold ByteWriter.str
  rw [String.toList_ofList, isUtf8_iff.mp hutf8]
  exact bytes_ok hbytes

end Read

/-- What the reader reads, it reads from the bytes the writer would write, if the texts are in
    UTF-8. -/
theorem readClientHello_ok {buf rest : Bytes} {h : ClientHello}
    (hread : readClientHello buf = .ok (h, rest)) :
    (h.clientNonce.length = nonceBytes ∧ h.connId.length = connIdBytes) ∧
      ∃ texts, helloTexts buf = .ok (texts, rest) ∧
        ((∀ t ∈ texts, IsUtf8 t) → buf = encodeClientHello h ++ rest) := by
  unfold readClientHello readIdentity at hread
  obtain ⟨magic, _, hmagic, hread⟩ := Read.bind_ok.mp hread
  obtain ⟨_, _, hmismatch, hread⟩ := Read.bind_ok.mp hread
  obtain ⟨version, _, hversion, hread⟩ := Read.bind_ok.mp hread
  obtain ⟨_, _, hmismatch', hread⟩ := Read.bind_ok.mp hread
  obtain ⟨keyVersion, _, hkey, hread⟩ := Read.bind_ok.mp hread
  obtain ⟨offeredSuites, _, hsuites, hread⟩ := Read.bind_ok.mp hread
  obtain ⟨clientNonce, _, hraw, hread⟩ := Read.bind_ok.mp hread
  obtain ⟨connId, _, hconn, hread⟩ := Read.bind_ok.mp hread
  obtain ⟨_, _, hlength, hread⟩ := Read.bind_ok.mp hread
  obtain ⟨identity, _, hidentity, hread⟩ := Read.bind_ok.mp hread
  obtain ⟨rfl, rfl⟩ := Read.pure_ok.mp hread
  obtain ⟨buildId, _, hbuild, hidentity⟩ := Read.bind_ok.mp hidentity
  obtain ⟨appProtoRange, _, hrange, hidentity⟩ := Read.bind_ok.mp hidentity
  obtain ⟨claimedRole, _, hrole, hidentity⟩ := Read.bind_ok.mp hidentity
  obtain ⟨claimedSessionId, _, hsession, hidentity⟩ := Read.bind_ok.mp hidentity
  obtain ⟨claimedEpoch, _, hepoch, hidentity⟩ := Read.bind_ok.mp hidentity
  obtain ⟨capabilities, _, hcaps, hidentity⟩ := Read.bind_ok.mp hidentity
  obtain ⟨rfl, rfl⟩ := Read.pure_ok.mp hidentity
  obtain ⟨rfl, rfl⟩ := mismatchUnless_ok.mp hmismatch
  obtain ⟨rfl, rfl⟩ := mismatchUnless_ok.mp hmismatch'
  obtain ⟨hconnLength, rfl⟩ := mismatchUnless_ok.mp hlength
  refine ⟨⟨(Read.raw_ok hraw).1, hconnLength⟩, ?_⟩
  -- Each text is read from bytes of its own.
  obtain ⟨magicBytes, readMagic, hmagic⟩ := Read.str_ok hmagic
  obtain ⟨buildBytes, readBuild, hbuild⟩ := Read.str_ok hbuild
  obtain ⟨rangeBytes, readRange, hrange⟩ := Read.str_ok hrange
  obtain ⟨roleBytes, readRole, hrole⟩ := Read.str_ok hrole
  obtain ⟨sessionBytes, readSession, hsession⟩ := Read.str_ok hsession
  obtain ⟨capsBytes, readCaps, hcaps⟩ := Read.str_ok hcaps
  refine ⟨[magicBytes, buildBytes, rangeBytes, roleBytes, sessionBytes, capsBytes], ?_, ?_⟩
  · unfold helloTexts
    rw [Read.bind_of_ok readMagic, Read.bind_of_ok hversion, Read.bind_of_ok hkey,
      Read.bind_of_ok hsuites, Read.bind_of_ok hraw, Read.bind_of_ok hconn,
      Read.bind_of_ok readBuild, Read.bind_of_ok readRange, Read.bind_of_ok readRole,
      Read.bind_of_ok readSession, Read.bind_of_ok hepoch, Read.bind_of_ok readCaps]
    rfl
  · -- Bytes that are UTF-8 are those their text is written as.
    intro hall
    simp only [List.forall_mem_cons] at hall
    obtain ⟨h₁, h₂, h₃, h₄, h₅, h₆, -⟩ := hall
    have hconnBytes := Read.bytes_ok hconn
    obtain ⟨-, hnonceBytes⟩ := Read.raw_ok hraw
    rw [encodeClientHello_eq, hmagic h₁, Read.u8_written hversion, (Read.u32_ok hkey).2,
      Read.u16Array_ok hsuites, hnonceBytes, hconnBytes, hbuild h₂, hrange h₃, hrole h₄,
      hsession h₅, (Read.u32_ok hepoch).2, hcaps h₆]
    unfold identityBytes
    simp only [List.append_assoc]

theorem helloTexts_encode {h : ClientHello} (hfits : HelloFits h)
    (hnonce : h.clientNonce.length = nonceBytes) (hconn : h.connId.length = connIdBytes)
    (rest : Bytes) : helloTexts (encodeClientHello h ++ rest) =
      .ok ([stpMagic, h.identity.buildId, h.identity.appProtoRange, h.identity.claimedRole,
        h.identity.claimedSessionId, h.identity.capabilities].map fun s =>
          utf8 s.toList, rest) := by
  have hstr {s : String} (hs : TextFits s) (rest : Bytes) :
      ByteReader.bytes (ByteWriter.str s ++ rest) = .ok (utf8 s.toList, rest) :=
    Read.bytes_back.mpr ⟨hs, rfl⟩
  have hmagic : TextFits stpMagic := by
    unfold TextFits
    decide
  have hconnLt : h.connId.length < 65536 := by
    rw [hconn]
    decide
  rw [encodeClientHello_eq]
  unfold helloTexts identityBytes
  simp only [List.append_assoc]
  rw [Read.bind_of_ok (hstr hmagic _), Read.bind_of_ok (Read.u8_back.mpr ⟨rfl, rfl⟩),
    Read.bind_of_ok (Read.u32_back.mpr ⟨rfl, rfl⟩),
    Read.bind_of_ok (Read.u16Array_back.mpr ⟨⟨hfits.count, hfits.suites⟩, rfl⟩),
    Read.bind_of_ok ((Read.raw_back hnonce).mpr ⟨rfl, rfl⟩),
    Read.bind_of_ok (Read.bytes_back.mpr ⟨hconnLt, rfl⟩),
    Read.bind_of_ok (hstr hfits.identity.buildId _),
    Read.bind_of_ok (hstr hfits.identity.appProtoRange _),
    Read.bind_of_ok (hstr hfits.identity.claimedRole _),
    Read.bind_of_ok (hstr hfits.identity.claimedSessionId _),
    Read.bind_of_ok (Read.u32_back.mpr ⟨rfl, rfl⟩),
    Read.bind_of_ok (hstr hfits.identity.capabilities _)]
  rfl

/-- The bytes of a hello that was read are those of its encoding exactly if they are canonical. -/
theorem hello_rewritten_iff {buf : Bytes} {h : ClientHello}
    (hparse : parseClientHello buf = .ok h) :
    encodeClientHello h = buf ↔ Canonical buf := by
  obtain ⟨rest, hread⟩ := parse_ok_iff.mp hparse
  obtain ⟨⟨hnonce, hconn⟩, texts, htexts, hwritten⟩ := readClientHello_ok hread
  constructor
  · intro heq
    -- The bytes are an encoding, so every field fits and nothing is left over.
    rw [← heq, ← List.append_nil (encodeClientHello h)] at hread
    obtain ⟨hfits, -⟩ := (hello_back hnonce hconn).mp hread
    have hencoded := helloTexts_encode hfits hnonce hconn []
    rw [List.append_nil, heq] at hencoded
    refine ⟨_, hencoded, ?_⟩
    intro t ht
    obtain ⟨s, -, rfl⟩ := List.mem_map.mp ht
    exact ⟨s.toList, rfl⟩
  · rintro ⟨texts', htexts', hall⟩
    rw [htexts] at htexts'
    obtain ⟨rfl, rfl⟩ := Prod.mk.inj (Except.ok.inj htexts')
    rw [hwritten hall, List.append_nil]

/-- The hello of a session is canonical. -/
theorem session_rewritten : Canonical (encodeClientHello (sessionHello 4 "ack,reply")) := by
  have hback : readClientHello (encodeClientHello (sessionHello 4 "ack,reply") ++ []) =
      .ok (sessionHello 4 "ack,reply", []) := (hello_back rfl rfl).mpr ⟨sessionHello_fits, rfl⟩
  rw [List.append_nil] at hback
  exact (hello_rewritten_iff (parse_ok_iff.mpr ⟨[], hback⟩)).mp rfl

/-- A hello is read with a byte behind it, and with capabilities that are not in UTF-8; neither is
    what its encoding would be. -/
theorem hello_not_rewritten :
    (∃ h, parseClientHello (encodeClientHello (sessionHello 4 "") ++ [0]) = .ok h ∧
      encodeClientHello h ≠ encodeClientHello (sessionHello 4 "") ++ [0]) ∧
    ∃ h, parseClientHello ((encodeClientHello (sessionHello 4 "")).dropLast.dropLast ++
        [0, 1, 0xff]) = .ok h ∧
      encodeClientHello h ≠ (encodeClientHello (sessionHello 4 "")).dropLast.dropLast ++
        [0, 1, 0xff] := by
  refine ⟨⟨sessionHello 4 "", ?_⟩, ⟨sessionHello 4 "\uFFFD", ?_⟩⟩
  · decide +kernel
  · decide +kernel

end Proof
end XBus
