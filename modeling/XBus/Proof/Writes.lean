import XBus.IpcServer
import XBus.Proof.Channel
import XBus.Proof.Framing

/-!
# `Proof/Writes.lean` — a write that fails

A frame on a secure connection is sealed first and put into a wire frame then. Either step may
refuse it for its size, and the two limits are the same number: `seal` takes up to `MAX_PLAINTEXT`
bytes, and `encodeFrame` takes up to `FRAME_BYTES` of JSON around their base64, which is a third
more. Between the two (`wireLimit`) lie the frames that are sealed, counted, and never sent.
-/

set_option autoImplicit false

namespace XBus
namespace Proof

open Lib SecureSession FrameDecoder

variable {ν : Type} [JsNumber ν]

/-! ## The size of a wire frame -/

theorem base64_plain (bs : Bytes) : ∀ c ∈ base64 bs, isPlain c := by
  have hsextet : ∀ n : Fin 64, isPlain (sextetChar n) := by decide
  intro c hc
  rcases mem_base64 hc with rfl | ⟨n, hn, rfl⟩
  · decide
  · exact hsextet ⟨n, hn⟩

/-- The JSON of a sealed buffer: `{"d":"…"}`. -/
theorem wrapped_text (buf : Bytes) : (wrapped buf : Value ν).json.text =
    ['{', '"', 'd', '"', ':', '"'] ++ base64 buf ++ ['"', '}'] := by
  have hkey : quote (utf16 "d") = ['"', 'd', '"'] := by decide
  have hd : quote ((base64 buf).flatMap units) = '"' :: (base64 buf ++ ['"']) := by
    rw [quote, quoted_plain (base64_plain buf)]
  simp [wrapped, stringJson, Json.text, Json.membersText, Json.comma, hkey, hd]

theorem wrapped_length (buf : Bytes) :
    (wrapped buf : Value ν).stringify.length = 4 * ((buf.length + 2) / 3) + 8 := by
  have hopen : (utf8 ['{', '"', 'd', '"', ':', '"']).length = 6 := by decide
  have hclose : (utf8 ['"', '}']).length = 2 := by decide
  rw [Value.stringify, wrapped_text, utf8_append, utf8_append, List.length_append,
    List.length_append, hopen, hclose, length_utf8_plain (base64_plain buf), length_base64]
  omega

theorem length_bufferOf (aead : Aead) (seq : Nat) (s : SecureSession) (pt : Bytes) :
    (bufferOf aead seq (encryptionOf s seq pt)).length = pt.length + 32 := by
  have htag : ((encryptionOf s seq pt).out aead).2.length = tagBytes := aead.length_tag _ _ _ _
  have hct : ((encryptionOf s seq pt).out aead).1.length = pt.length :=
    aead.length_ciphertext _ _ _ _
  have hiv : (encryptionOf s seq pt).iv.length = ivBytes := length_iv _ _
  simp only [bufferOf, List.length_append, length_u32, htag, hct, hiv, ivBytes, tagBytes]
  omega

/-- The first plaintext length whose wire frame is too long. -/
def wireLimit : Nat := 786395

theorem encodeFrame_wrapped (buf : Bytes) :
    (∃ e, encodeFrame (wrapped buf : Value ν) = .error e) ↔ wireLimit + 32 ≤ buf.length := by
  have hlen := wrapped_length (ν := ν) buf
  unfold encodeFrame
  dsimp only
  rw [hlen]
  by_cases h : wireLimit + 32 ≤ buf.length
  · rw [if_pos (by simp only [wireLimit, frameBytes] at *; omega)]
    exact ⟨fun _ => h, fun _ => ⟨_, rfl⟩⟩
  · rw [if_neg (by simp only [wireLimit, frameBytes] at *; omega),
      if_pos (by simp only [wireLimit] at h; omega)]
    exact ⟨fun ⟨_, he⟩ => (nomatch he), fun h' => absurd h' h⟩

/-! ## One write -/

section Write

variable {aead : Aead} {s s' : SecureSession} {frame : Value ν}

/-- What a write that succeeds did. -/
theorem secureWrite_ok {bytes : Bytes} (h : secureWrite aead frame s = (.ok bytes, s')) :
    ∃ buf, sealFrame aead frame.stringify s = (.ok buf, s') ∧
      encodeFrame (wrapped buf : Value ν) = .ok bytes := by
  unfold secureWrite at h
  split at h
  · cases h
  · rename_i buf s₁ hseal
    split at h
    · rename_i bytes' hencode
      cases h
      exact ⟨buf, hseal, hencode⟩
    · cases h

/-- A write that fails either sealed nothing, and nothing is changed, or sealed a frame that is too
    long for the wire, and the number is gone. -/
theorem secureWrite_error {e : WriteFault} (h : secureWrite aead frame s = (.error e, s')) :
    (s' = s ∧ (maxPlaintext < frame.stringify.length ∨ 0xffffffff ≤ s.sendSeq)) ∨
    (s'.sendSeq = s.sendSeq + 1 ∧ s.sendSeq < 0xffffffff ∧
      wireLimit ≤ frame.stringify.length ∧ frame.stringify.length ≤ maxPlaintext) := by
  unfold secureWrite at h
  split at h
  · rename_i e' s₁ hseal
    cases h
    left
    refine ⟨sealFrame_error hseal, ?_⟩
    unfold sealFrame at hseal
    split at hseal
    · rename_i hlen
      exact .inl hlen
    · split at hseal
      · rename_i hseq
        exact .inr hseq
      · cases hseal
  · rename_i buf s₁ hseal
    obtain ⟨hlen, hlimit, hbuf, hs⟩ := sealFrame_ok hseal
    right
    split at h
    · cases h
    · rename_i e' hencode
      cases h
      have hlong := (encodeFrame_wrapped (ν := ν) buf).mp ⟨e', hencode⟩
      rw [hbuf, length_bufferOf] at hlong
      exact ⟨by rw [hs], hlimit, by omega, hlen⟩

theorem secureWrite_too_large (h : maxPlaintext < frame.stringify.length) :
    secureWrite aead frame s = (.error (.channel .plaintextTooLarge), s) := by
  have hseal : sealFrame aead frame.stringify s = (.error .plaintextTooLarge, s) := if_pos h
  rw [secureWrite, hseal]

theorem secureWrite_between (hseq : s.sendSeq < 0xffffffff)
    (hlong : wireLimit ≤ frame.stringify.length) (hshort : frame.stringify.length ≤ maxPlaintext) :
    ∃ e, secureWrite aead frame s = (.error e, { s with sendSeq := s.sendSeq + 1 }) := by
  have hseal : sealFrame aead frame.stringify s =
      (.ok (bufferOf aead s.sendSeq (encryptionOf s s.sendSeq frame.stringify)),
        { s with sendSeq := s.sendSeq + 1 }) := by
    rw [sealFrame, if_neg (Nat.not_lt.mpr hshort), if_neg (Nat.not_le.mpr hseq)]
    rfl
  obtain ⟨e, hencode⟩ := (encodeFrame_wrapped (ν := ν)
    (bufferOf aead s.sendSeq (encryptionOf s s.sendSeq frame.stringify))).mpr
      (by rw [length_bufferOf]; omega)
  exact ⟨.framing e, by simp only [secureWrite, hseal, hencode]⟩

end Write

/-! ## Writing and reading a whole exchange -/

/-- Frame after frame, every one of them written. -/
def writeAll (aead : Aead) : List (Value ν) → SecureSession → Option (List Bytes × SecureSession)
  | [], s => some ([], s)
  | frame :: frames, s =>
    match secureWrite aead frame s with
    | (.ok bytes, s₁) => (writeAll aead frames s₁).map fun out => (bytes :: out.1, out.2)
    | (.error _, _) => none

/-- The sealed buffer in a wire frame, as server and client take it out. -/
def sealedIn (v : Value ν) : Option Bytes := (stringMember? v.json "d").map bufferFromBase64

/-- Opening buffer after buffer. -/
def opensAll (decrypt : Decrypt) : List Bytes → SecureSession → Option (List Bytes)
  | [], _ => some []
  | buf :: bufs, s =>
    match openFrame decrypt buf s with
    | (.ok pt, s₁) => (opensAll decrypt bufs s₁).map (pt :: ·)
    | (.error _, _) => none

/-- What the peer reads from chunks: the frames of the stream, unwrapped and opened in order; `none`
    if any step throws. -/
def peerReads (ν : Type) [JsNumber ν] (decrypt : Decrypt) (chunks : List Bytes)
    (s : SecureSession) : Option (List Bytes) :=
  match (receiveAll chunks : Call FrameDecoder Failure (List (DecodeResult ν))) {} with
  | (.ok results, _) =>
    ((results.flatMap (·.frames)).mapM sealedIn).bind fun bufs => opensAll decrypt bufs s
  | (.error _, _) => none

theorem latin_units {cs : List Char} (h : ∀ c ∈ cs, isPlain c) : latin (cs.flatMap units) = cs := by
  induction cs with
  | nil => rfl
  | cons c cs ih =>
    obtain ⟨hc, hrest⟩ := List.forall_mem_cons.mp h
    simp only [isPlain, Bool.and_eq_true, decide_eq_true_eq] at hc
    have hunits : units c = [UInt16.ofNat c.toNat] := by rw [units, if_pos (by omega)]
    have hnat : (UInt16.ofNat c.toNat).toNat = c.toNat := by
      rw [UInt16.toNat_ofNat']
      omega
    have htail := ih hrest
    simp only [latin] at htail ⊢
    rw [List.flatMap_cons, hunits, List.singleton_append, List.map_cons, htail, hnat,
      Char.ofNat_toNat]

omit [JsNumber ν] in
theorem sealedIn_wrapped (buf : Bytes) : sealedIn (wrapped buf : Value ν) = some buf := by
  have hbuf : bufferFromBase64 ((base64 buf).flatMap units) = buf := by
    rw [bufferFromBase64, latin_units (base64_plain buf), ofBase64_base64]
  simp [sealedIn, stringMember?, member?, wrapped, stringJson, hbuf]

/-- The AEAD opens what it sealed. -/
def Inverts (aead : Aead) (decrypt : Decrypt) : Prop := ∀ key iv aad pt,
  decrypt key iv aad (aead.encrypt key iv aad pt).1 (aead.encrypt key iv aad pt).2 = some pt

/-- The receiving end of what `s` sends: same key, base, direction and connection. -/
structure Faces (s t : SecureSession) : Prop where
  key : t.decKey = s.encKey
  base : t.decIvBase = s.encIvBase
  dir : t.recvDir = s.sendDir
  conn : t.connId = s.connId
  seq : t.recvSeq = s.sendSeq

theorem faces_new (keys : DerivedKeys) (connId : Bytes) (r : Role) :
    Faces (SecureSession.new keys connId r) (SecureSession.new keys connId (peer r)) := by
  cases r <;> exact ⟨rfl, rfl, rfl, rfl, rfl⟩

/-- The facing end opens what was just sealed, and faces it again. -/
theorem Faces.opens {aead : Aead} {decrypt : Decrypt} (hdec : Inverts aead decrypt)
    {s s' t : SecureSession} (h : Faces s t) {pt buf : Bytes}
    (hseal : sealFrame aead pt s = (.ok buf, s')) :
    ∃ t', openFrame decrypt buf t = (.ok pt, t') ∧ Faces s' t' := by
  obtain ⟨hlen, hlimit, hbuf, hs'⟩ := sealFrame_ok hseal
  have hct : ((encryptionOf s s.sendSeq pt).out aead).1.length = pt.length :=
    aead.length_ciphertext _ _ _ _
  refine ⟨{ t with recvSeq := t.recvSeq + 1 }, ?_, ?_⟩
  · have hiv : (encryptionOf s s.sendSeq pt).iv = iv t.decIvBase t.recvSeq := by
      rw [h.base, h.seq]
      rfl
    rw [hbuf, bufferOf, hiv, ← h.seq]
    apply openFrame_of
    · rw [h.seq]
      omega
    · exact aead.length_tag _ _ _ _
    · rw [h.seq, hct]
      omega
    · rw [h.seq, hct, h.key, h.base, h.dir, h.conn]
      exact hdec _ _ _ _
  · rw [hs']
    exact ⟨h.key, h.base, h.dir, h.conn, by rw [h.seq]⟩

theorem Faces.opensAll {aead : Aead} {decrypt : Decrypt} (hdec : Inverts aead decrypt)
    (frames : List (Value ν)) {s s' t : SecureSession} {wire : List Bytes} (h : Faces s t)
    (hwrite : writeAll aead frames s = some (wire, s')) :
    ∃ bufs, wire = bufs.map (fun buf => frameOf (wrapped buf : Value ν)) ∧
      (∀ buf ∈ bufs, Fits frameBytes (wrapped buf : Value ν)) ∧
      opensAll decrypt bufs t = some (frames.map (·.stringify)) := by
  induction frames generalizing s t wire with
  | nil =>
    cases hwrite
    exact ⟨[], rfl, fun _ hbuf => absurd hbuf (List.not_mem_nil), rfl⟩
  | cons frame frames ih =>
    unfold writeAll at hwrite
    split at hwrite
    · rename_i bytes s₁ hframe
      obtain ⟨⟨wire₁, s₂⟩, hrest, hout⟩ := Option.map_eq_some_iff.mp hwrite
      cases hout
      obtain ⟨buf, hseal, hencode⟩ := secureWrite_ok hframe
      obtain ⟨hfits, rfl⟩ := encodeFrame_ok hencode
      obtain ⟨t₁, hopen, hfaces⟩ := h.opens hdec hseal
      obtain ⟨bufs, hwire, hall, hopens⟩ := ih hfaces hrest
      refine ⟨buf :: bufs, by rw [hwire, List.map_cons], ?_, ?_⟩
      · exact List.forall_mem_cons.mpr ⟨hfits, hall⟩
      · simp only [Proof.opensAll, hopen, hopens, Option.map_some, List.map_cons]
    · cases hwrite

omit [JsNumber ν] in
theorem mapM_sealedIn (bufs : List Bytes) :
    (bufs.map (wrapped : Bytes → Value ν)).mapM sealedIn = some bufs := by
  induction bufs with
  | nil => rfl
  | cons buf bufs ih =>
    rw [List.map_cons, List.mapM_cons, sealedIn_wrapped, ih]
    rfl

/-- **All that is written is read**, in order and however the stream is cut. -/
theorem peerReads_written {aead : Aead} {decrypt : Decrypt} (hdec : Inverts aead decrypt)
    (frames : List (Value ν)) {s s' t : SecureSession} {wire : List Bytes} (h : Faces s t)
    (hwrite : writeAll aead frames s = some (wire, s')) {chunks : List Bytes}
    (hcut : chunks.flatten = wire.flatten) :
    peerReads ν decrypt chunks t = some (frames.map (·.stringify)) := by
  obtain ⟨bufs, rfl, hfits, hopens⟩ := h.opensAll hdec frames hwrite
  have hstream : chunks.flatten = (bufs.map (wrapped : Bytes → Value ν)).flatMap frameOf := by
    rw [hcut, List.flatMap_def, List.map_map]
    rfl
  have hall : ∀ v ∈ bufs.map (wrapped : Bytes → Value ν), Fits frameBytes v := by
    intro v hv
    obtain ⟨buf, hbuf, rfl⟩ := List.mem_map.mp hv
    exact hfits buf hbuf
  obtain ⟨results, hreceive, hvalues, -⟩ := receiveAll_stream 32 hall hstream
  simp only [peerReads, hreceive, hvalues, mapM_sealedIn, Option.bind_some, hopens]

theorem writeAll_append (aead : Aead) (first later : List (Value ν)) {s s₁ s₂ : SecureSession}
    {wire wire' : List Bytes} (hfirst : writeAll aead first s = some (wire, s₁))
    (hlater : writeAll aead later s₁ = some (wire', s₂)) :
    writeAll aead (first ++ later) s = some (wire ++ wire', s₂) := by
  induction first generalizing s wire with
  | nil =>
    cases hfirst
    exact hlater
  | cons frame first ih =>
    unfold writeAll at hfirst
    split at hfirst
    · rename_i bytes s₃ hframe
      obtain ⟨⟨wire₁, s₄⟩, hrest, hout⟩ := Option.map_eq_some_iff.mp hfirst
      cases hout
      simp only [List.cons_append, writeAll, hframe, ih hrest, Option.map_some]
    · cases hfirst

/-- The failed attempt left no trace: the number is as it was, and all that is written before and
    after it is read by the peer. -/
def LeftNoTrace (aead : Aead) (decrypt : Decrypt) (before : List (Value ν)) (wire : List Bytes)
    (peerSession s s' : SecureSession) : Prop :=
  s'.sendSeq = s.sendSeq ∧ ∀ (later : List (Value ν)) (wire' : List Bytes) (s'' : SecureSession),
    writeAll aead later s' = some (wire', s'') →
    ∀ chunks : List Bytes, chunks.flatten = (wire ++ wire').flatten →
      peerReads ν decrypt chunks peerSession = some ((before ++ later).map (·.stringify))

/-- **A failed write leaves the channel usable exactly if** the frame was not between the two
    limits, or no frame can be sealed any more. -/
theorem failed_write_harmless_iff {aead : Aead} {decrypt : Decrypt} (hdec : Inverts aead decrypt)
    {keys : DerivedKeys} {connId : Bytes} {role : Role} {before : List (Value ν)}
    {wire : List Bytes} {s s' : SecureSession}
    (hbefore : writeAll aead before (SecureSession.new keys connId role) = some (wire, s))
    {frame : Value ν} {e : WriteFault} (hfail : secureWrite aead frame s = (.error e, s')) :
    LeftNoTrace aead decrypt before wire (SecureSession.new keys connId (peer role)) s s' ↔
      ¬ (wireLimit ≤ frame.stringify.length ∧ frame.stringify.length ≤ maxPlaintext) ∨
        0xffffffff ≤ s.sendSeq := by
  rcases secureWrite_error hfail with ⟨rfl, hwhy⟩ | ⟨hgone, hseq, hlong, hshort⟩
  · constructor
    · intro _
      rcases hwhy with hlen | hseq
      · exact .inl fun h => absurd h.2 (by omega)
      · exact .inr hseq
    · intro _
      refine ⟨rfl, fun later wire' s'' hlater chunks hcut => ?_⟩
      have hwrite := writeAll_append aead before later hbefore hlater
      exact peerReads_written hdec _ (faces_new keys connId role) hwrite hcut
  · constructor
    · rintro ⟨hkept, -⟩
      omega
    · rintro (hout | hend)
      · exact absurd ⟨hlong, hshort⟩ hout
      · omega

/-! ## Frames of a given size -/

/-- A response with a text of `n` bytes in it. -/
def responseOf (n : Nat) : Value Int :=
  ⟨.obj [(utf16 "protocolVersion", .num 1), (utf16 "frameType", .str (utf16 "inbox_ack")),
      (utf16 "timestamp", .str (utf16 "1970-01-01T00:00:01.000Z")),
      (utf16 "payload", stringJson (List.replicate n 'a'))], by
    have hkeys : [utf16 "protocolVersion", utf16 "frameType", utf16 "timestamp",
      utf16 "payload"].Nodup := by decide
    simpa [Json.Distinct, Json.DistinctMembers, stringJson] using hkeys⟩

/-- The response up to the text. -/
def responseFront : List Char :=
  '\x7b' :: (Json.comma true ++ quote (utf16 "protocolVersion") ++
    ':' :: JsNumber.toText (1 : Int) ++
    Json.comma false ++ quote (utf16 "frameType") ++ ':' :: quote (utf16 "inbox_ack") ++
    Json.comma false ++ quote (utf16 "timestamp") ++
    ':' :: quote (utf16 "1970-01-01T00:00:01.000Z") ++
    Json.comma false ++ quote (utf16 "payload") ++ [':', '"'])

theorem responseOf_length (n : Nat) : (responseOf n).stringify.length = n + 97 := by
  have hplain : ∀ c ∈ List.replicate n 'a', isPlain c := by
    intro c hc
    rw [List.eq_of_mem_replicate hc]
    decide
  have hpayload : quote ((List.replicate n 'a').flatMap units)
      = '"' :: (List.replicate n 'a' ++ ['"']) := by
    rw [quote, quoted_plain hplain]
  have htext : (responseOf n).json.text =
      responseFront ++ List.replicate n 'a' ++ ['"', '\x7d'] := by
    simp [responseOf, responseFront, stringJson, Json.text, Json.membersText, hpayload]
  have hfront : (utf8 responseFront).length = 95 := by decide +kernel
  have hback : (utf8 ['"', '\x7d']).length = 2 := by decide
  rw [Value.stringify, htext, utf8_append, utf8_append, List.length_append, List.length_append,
    hfront, hback, length_utf8_plain hplain, List.length_replicate]
  omega

/-! ## On either side of the gap -/

def plainDecrypt : Decrypt := fun key iv _ ct tag =>
  if tag = (iv ++ List.replicate tagBytes 0).take tagBytes then some (ct.map (· ^^^ key.headD 0))
  else none

theorem plainDecrypt_inverts : Inverts plainAead plainDecrypt := by
  intro key iv aad pt
  have hxor : ∀ b k : UInt8, b ^^^ k ^^^ k = b := by
    intro b k
    rw [UInt8.xor_assoc, UInt8.xor_self, UInt8.xor_zero]
  simp [plainDecrypt, plainAead, Function.comp_def, hxor]

/-- A response too large to be sealed: the broker goes on as if it had not been there. -/
theorem refused_response_leaves_no_trace :
    LeftNoTrace plainAead plainDecrypt ([] : List (Value Int)) []
      (SecureSession.new plainKeys [7] .client) (SecureSession.new plainKeys [7] .server)
      (SecureSession.new plainKeys [7] .server) := by
  have hlen := responseOf_length 1100000
  have hfail : secureWrite plainAead (responseOf 1100000) (SecureSession.new plainKeys [7] .server)
      = (.error (.channel .plaintextTooLarge), SecureSession.new plainKeys [7] .server) :=
    secureWrite_too_large (by rw [hlen]; decide)
  have hbefore : writeAll plainAead ([] : List (Value Int))
      (SecureSession.new plainKeys [7] .server)
      = some ([], SecureSession.new plainKeys [7] .server) := rfl
  refine (failed_write_harmless_iff plainDecrypt_inverts hbefore hfail).mpr (.inl ?_)
  rw [hlen]
  decide

/-- A response of 800000 bytes is sealed as number 0 and not sent; the next one goes out as number
    1, and the client, which waits for 0, drops the connection. -/
theorem unsent_response_breaks_channel :
    ∃ e s', secureWrite plainAead (responseOf 800000) (SecureSession.new plainKeys [7] .server)
        = (.error e, s') ∧
      s'.sendSeq ≠ (SecureSession.new plainKeys [7] .server).sendSeq ∧
      ∃ wire s'', writeAll plainAead [responseOf 0] s' = some (wire, s'') ∧
        peerReads Int plainDecrypt wire (SecureSession.new plainKeys [7] .client) = none := by
  have hlen := responseOf_length 800000
  have hfail : ∃ e, secureWrite plainAead (responseOf 800000)
      (SecureSession.new plainKeys [7] .server)
      = (.error e, { SecureSession.new plainKeys [7] .server with sendSeq := 1 }) :=
    secureWrite_between (by decide) (by rw [hlen]; decide) (by rw [hlen]; decide)
  have hnext : ((writeAll plainAead [responseOf 0]
      { SecureSession.new plainKeys [7] .server with sendSeq := 1 }).map fun out =>
        peerReads Int plainDecrypt out.1
          (SecureSession.new plainKeys [7] .client)) = some none := by
    decide +kernel
  obtain ⟨e, hfail⟩ := hfail
  obtain ⟨⟨wire, s''⟩, hwrite, hread⟩ := Option.map_eq_some_iff.mp hnext
  exact ⟨e, _, hfail, by decide, wire, s'', hwrite, hread⟩

end Proof
end XBus
