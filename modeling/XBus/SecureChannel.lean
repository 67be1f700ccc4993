import XBus.Lib.Call
import XBus.Lib.Wire

/-!
# The secure transport (`ipc/codec.ts`, `ipc/secure-channel.ts`)

The handshake (`client_hello`, `server_hello`, `client_finish`) and the session of sealed frames it
ends in. SHA-256, HKDF, HMAC and AES-256-GCM are the runtime's: `Crypto` and `Aead` are parameters,
and `SecureSession.openFrame` takes the decryption it runs as an argument.

Identity strings are texts; `writeUInt32BE` and its kin keep the low bits, as `ByteWriter` masks
them.
-/

set_option autoImplicit false

namespace XBus

open Lib

/-- What the functions of the channel throw: `AuthFailed`, `ProtocolMismatch`, and the plain
    `Error`s by their texts. -/
inductive ChannelError
  | authFailed
  | protocolMismatch (text : String)
  /-- `STP_DECODE_UNDERRUN` -/
  | underrun
  /-- `PLAINTEXT_TOO_LARGE` -/
  | plaintextTooLarge
  /-- `SEQ_OVERFLOW` -/
  | seqOverflow
  /-- `REPLAY_OR_REORDER` -/
  | replayOrReorder
  /-- `FRAME_TOO_LARGE` -/
  | frameTooLarge
  /-- `IV_MISMATCH` -/
  | ivMismatch
  /-- `decipher.final()` throws. -/
  | tampered
deriving DecidableEq, Repr

/-! ## The codec -/

namespace ByteWriter

/-- Length-prefixed raw bytes. -/
def bytes (buf : Bytes) : Bytes := u16 buf.length ++ buf

/-- A length-prefixed UTF-8 string. -/
def str (s : String) : Bytes := bytes (utf8 s.toList)

def u16Array (arr : List Nat) : Bytes := u16 arr.length ++ arr.flatMap u16

end ByteWriter

abbrev ByteReader := StateT Bytes (Except ChannelError)

namespace ByteReader

def raw (n : Nat) : ByteReader Bytes := fun buf =>
  if buf.length < n then .error .underrun else .ok (buf.take n, buf.drop n)

def u8 : ByteReader Nat := do return beNat (← raw 1)

def u16 : ByteReader Nat := do return beNat (← raw 2)

def u32 : ByteReader Nat := do return beNat (← raw 4)

def bytes : ByteReader Bytes := do raw (← u16)

def str : ByteReader String := do return String.ofList (readUtf8 (← bytes))

def u16s : Nat → ByteReader (List Nat)
  | 0 => return []
  | n + 1 => do
    let first ← u16
    return first :: (← u16s n)

def u16Array : ByteReader (List Nat) := do u16s (← u16)

end ByteReader

/-! ## Messages -/

def stpMagic : String := "XBUS-STP"
def stpVersion : Nat := 1
def suiteAes256Gcm : Nat := 1
def nonceBytes : Nat := 32
def connIdBytes : Nat := 16
def proofBytes : Nat := 32
def ivBytes : Nat := 12
def tagBytes : Nat := 16
def encKeyBytes : Nat := 32
def maxPlaintext : Nat := 1024 * 1024

structure HelloIdentity where
  buildId : String
  appProtoRange : String
  claimedRole : String
  claimedSessionId : String := ""
  claimedEpoch : Nat := 0
  capabilities : String := ""
deriving DecidableEq, Repr

structure ClientHello where
  keyVersion : Nat
  offeredSuites : List Nat
  clientNonce : Bytes
  connId : Bytes
  identity : HelloIdentity
deriving DecidableEq, Repr

open ByteWriter in
def encodeClientHello (h : ClientHello) : Bytes :=
  str stpMagic ++ u8 stpVersion ++ u32 h.keyVersion ++ u16Array h.offeredSuites ++ h.clientNonce ++
    bytes h.connId ++ str h.identity.buildId ++ str h.identity.appProtoRange ++
    str h.identity.claimedRole ++ str h.identity.claimedSessionId ++ u32 h.identity.claimedEpoch ++
    str h.identity.capabilities

def encodeServerHelloCore (version keyVersion selectedSuite : Nat) (serverNonce : Bytes)
    (brokerInstanceId : String) : Bytes :=
  u8 version ++ u32 keyVersion ++ u16 selectedSuite ++ serverNonce ++
    ByteWriter.str brokerInstanceId

structure ServerHelloParsed where
  stpVersion : Nat
  keyVersion : Nat
  selectedSuite : Nat
  serverNonce : Bytes
  brokerInstanceId : String
  serverProof : Bytes
deriving DecidableEq, Repr

def readServerHello : ByteReader ServerHelloParsed := do
  let stpVersion ← ByteReader.u8
  let keyVersion ← ByteReader.u32
  let selectedSuite ← ByteReader.u16
  let serverNonce ← ByteReader.raw nonceBytes
  let brokerInstanceId ← ByteReader.str
  let serverProof ← ByteReader.raw proofBytes
  return { stpVersion, keyVersion, selectedSuite, serverNonce, brokerInstanceId, serverProof }

def parseServerHello (buf : Bytes) : Except ChannelError ServerHelloParsed :=
  (readServerHello buf).map (·.1)

def readIdentity : ByteReader HelloIdentity := do
  let buildId ← ByteReader.str
  let appProtoRange ← ByteReader.str
  let claimedRole ← ByteReader.str
  let claimedSessionId ← ByteReader.str
  let claimedEpoch ← ByteReader.u32
  let capabilities ← ByteReader.str
  return { buildId, appProtoRange, claimedRole, claimedSessionId, claimedEpoch, capabilities }

def mismatchUnless (c : Prop) [Decidable c] (text : String) : ByteReader Unit := fun buf =>
  if c then .ok ((), buf) else .error (.protocolMismatch text)

/-- Bytes behind the last field are not looked at. -/
def readClientHello : ByteReader ClientHello := do
  let magic ← ByteReader.str
  mismatchUnless (magic = stpMagic) "bad magic"
  let version ← ByteReader.u8
  mismatchUnless (version = stpVersion) "unsupported version"
  let keyVersion ← ByteReader.u32
  let offeredSuites ← ByteReader.u16Array
  let clientNonce ← ByteReader.raw nonceBytes
  let connId ← ByteReader.bytes
  mismatchUnless (connId.length = connIdBytes) "bad connId length"
  let identity ← readIdentity
  return { keyVersion, offeredSuites, clientNonce, connId, identity }

def parseClientHello (buf : Bytes) : Except ChannelError ClientHello :=
  (readClientHello buf).map (·.1)

/-! ## Keys and proofs -/

/-- The digests of the runtime. -/
structure Crypto where
  sha256 : Bytes → Bytes
  /-- `hkdfSync('sha256', ikm, salt, info, len)` -/
  hkdf : (ikm salt info : Bytes) → (len : Nat) → Bytes
  /-- `createHmac('sha256', key)` over a message -/
  hmac : (key message : Bytes) → Bytes

open ByteWriter in
def buildContext (th : Bytes) (brokerInstanceId : String) (h : ClientHello) (selectedSuite : Nat) :
    Bytes :=
  th ++ str brokerInstanceId ++ bytes h.connId ++ str h.identity.claimedRole ++
    str h.identity.claimedSessionId ++ u32 h.identity.claimedEpoch ++ str h.identity.buildId ++
    u16 selectedSuite ++ u8 stpVersion

structure DerivedKeys where
  c2sEnc : Bytes
  s2cEnc : Bytes
  c2sIv : Bytes
  s2cIv : Bytes
  mkClient : Bytes
  mkServer : Bytes
deriving DecidableEq, Repr

variable (crypto : Crypto)

def expand (prk : Bytes) (label : String) (context : Bytes) (len : Nat) : Bytes :=
  crypto.hkdf prk [] (utf8 ("XBUS-STP/v1/" ++ label).toList ++ context) len

def extract (rootSecret clientNonce serverNonce : Bytes) : Bytes :=
  crypto.hkdf rootSecret (clientNonce ++ serverNonce) (utf8 "XBUS-STP/v1/extract".toList) 32

def deriveAll (rootSecret clientNonce serverNonce context : Bytes) : DerivedKeys :=
  let prk := extract crypto rootSecret clientNonce serverNonce
  { c2sEnc := expand crypto prk "c2s-enc" context encKeyBytes
    s2cEnc := expand crypto prk "s2c-enc" context encKeyBytes
    c2sIv := expand crypto prk "c2s-iv" context ivBytes
    s2cIv := expand crypto prk "s2c-iv" context ivBytes
    mkClient := expand crypto prk "client-proof" context 32
    mkServer := expand crypto prk "server-proof" context 32 }

/-- `'server-finished' | 'client-finished'` -/
inductive ProofLabel
  | serverFinished | clientFinished
deriving DecidableEq, Repr

def ProofLabel.text : ProofLabel → String
  | .serverFinished => "server-finished"
  | .clientFinished => "client-finished"

def proof (mk : Bytes) (label : ProofLabel) (th : Bytes) : Bytes :=
  crypto.hmac mk (utf8 label.text.toList ++ th)

/-! ## The client's side -/

/-! ## The server's side -/

structure ServerHandshake where
  keys : DerivedKeys
  serverHelloBytes : Bytes
  serverNonce : Bytes
  selectedSuite : Nat
  th : Bytes
deriving DecidableEq, Repr

def serverHandshake (rootSecret : Bytes) (brokerInstanceId : String) (hello : ClientHello)
    (serverNonce : Bytes) : Except ChannelError ServerHandshake :=
  if suiteAes256Gcm ∉ hello.offeredSuites then .error (.protocolMismatch "no common suite")
  else
    let selectedSuite := suiteAes256Gcm
    let serverHelloCore := encodeServerHelloCore stpVersion hello.keyVersion selectedSuite
      serverNonce brokerInstanceId
    let th := crypto.sha256 (encodeClientHello hello ++ serverHelloCore)
    let context := buildContext th brokerInstanceId hello selectedSuite
    let keys := deriveAll crypto rootSecret hello.clientNonce serverNonce context
    .ok { keys, serverHelloBytes := serverHelloCore ++
      proof crypto keys.mkServer .serverFinished th,
          serverNonce, selectedSuite, th }

def serverVerifyFinish (keys : DerivedKeys) (th clientProof : Bytes) : Except ChannelError Unit :=
  if clientProof = proof crypto keys.mkClient .clientFinished th then .ok () else .error .authFailed

/-! ## Sealed frames -/

/-- AES-256-GCM's sealing: the ciphertext is as long as the plaintext, the tag has sixteen bytes. -/
structure Aead where
  encrypt : (key iv aad plaintext : Bytes) → Bytes × Bytes
  length_ciphertext : ∀ key iv aad pt, (encrypt key iv aad pt).1.length = pt.length
  length_tag : ∀ key iv aad pt, (encrypt key iv aad pt).2.length = tagBytes

/-- What a decipher answers on a key, an IV, associated data, a ciphertext and a tag. -/
abbrev Decrypt := (key iv aad ciphertext tag : Bytes) → Option Bytes

inductive Role
  | client | server
deriving DecidableEq, Repr

structure SecureSession where
  sendSeq : Nat := 0
  recvSeq : Nat := 0
  encKey : Bytes
  encIvBase : Bytes
  decKey : Bytes
  decIvBase : Bytes
  sendDir : Nat
  recvDir : Nat
  connId : Bytes
deriving DecidableEq, Repr

namespace SecureSession

def new (keys : DerivedKeys) (connId : Bytes) : Role → SecureSession
  | .client =>
    { encKey := keys.c2sEnc, encIvBase := keys.c2sIv, sendDir := 1
      decKey := keys.s2cEnc, decIvBase := keys.s2cIv, recvDir := 2, connId }
  | .server =>
    { encKey := keys.s2cEnc, encIvBase := keys.s2cIv, sendDir := 2
      decKey := keys.c2sEnc, decIvBase := keys.c2sIv, recvDir := 1, connId }

/-- The counter sits in the low four of the twelve bytes; a byte the base does not have is 0. -/
def iv (base : Bytes) (seq : Nat) : Bytes :=
  let ctr := List.replicate (ivBytes - 4) 0 ++ u32 seq
  (List.range ivBytes).map fun i => base.getD i 0 ^^^ ctr.getD i 0

def aad (connId : Bytes) (dir seq ctLen : Nat) : Bytes :=
  ByteWriter.str "XBUS-STP/v1" ++ ByteWriter.bytes connId ++ u8 dir ++ u32 seq ++ u32 ctLen

/-- `seal`. -/
def sealFrame (aead : Aead) (plaintext : Bytes) : Call SecureSession ChannelError Bytes := fun s =>
  if plaintext.length > maxPlaintext then (.error .plaintextTooLarge, s)
  else if s.sendSeq ≥ 0xffffffff then (.error .seqOverflow, s)
  else
    let seq := s.sendSeq
    let out := aead.encrypt s.encKey (iv s.encIvBase seq)
      (aad s.connId s.sendDir seq plaintext.length)
      plaintext
    (.ok (u32 seq ++ iv s.encIvBase seq ++ out.2 ++ out.1), { s with sendSeq := seq + 1 })

/-- `open`. The sequence number is compared before the rest of the buffer is read. -/
def openFrame (decrypt : Decrypt) (buf : Bytes) : Call SecureSession ChannelError Bytes := do
  let s ← Call.get
  let (seq, buf) ← Call.lift (ByteReader.u32 buf)
  Call.require (seq = s.recvSeq) .replayOrReorder
  let (iv, buf) ← Call.lift (ByteReader.raw ivBytes buf)
  let (tag, ct) ← Call.lift (ByteReader.raw tagBytes buf)
  Call.require (ct.length ≤ maxPlaintext + tagBytes) .frameTooLarge
  Call.require (iv = SecureSession.iv s.decIvBase seq) .ivMismatch
  let pt ← Call.orThrow
    (decrypt s.decKey iv (aad s.connId s.recvDir seq ct.length) ct tag) .tampered
  Call.modify fun s => { s with recvSeq := s.recvSeq + 1 }
  return pt

end SecureSession

end XBus
