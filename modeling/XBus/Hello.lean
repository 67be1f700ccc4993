import XBus.SecureChannel
import XBus.Lib.Live
import Mathlib.Data.Rat.Defs

/-!
# The hellos, as a caller builds them

`encodeClientHello` and `encodeServerHelloCore` of `ipc/secure-channel.ts` take whatever a caller
puts into the fields: any number of the language, any string, unpaired surrogates among its code
units. What the writer takes of them is a natural number and a text: `&` and `>>>` keep the low bits
of a number, `Buffer.from` keeps the characters of a string. From there on the encoders are those of
the secure transport.
-/

set_option autoImplicit false

namespace XBus

open Lib

/-- A number of the language: a finite one, or one of `NaN` and the infinities. -/
inductive AnyNumber
  | finite (q : ℚ)
  | nonFinite
deriving DecidableEq, Repr

/-- The low bits of a number: those of its whole part, and none of what is not finite. -/
def AnyNumber.low (modulus : Nat) : AnyNumber → Nat
  | .finite q => (q.num.tdiv q.den % modulus).toNat
  | .nonFinite => 0

/-! ## `client_hello` -/

/-- `HelloIdentity`. -/
structure HelloIdentityInput where
  buildId : JsString
  appProtoRange : JsString
  claimedRole : JsString
  claimedSessionId : JsString
  claimedEpoch : AnyNumber
  capabilities : JsString
deriving DecidableEq, Repr

/-- `ClientHello`. -/
structure ClientHelloInput where
  keyVersion : AnyNumber
  offeredSuites : List AnyNumber
  clientNonce : Bytes
  connId : Bytes
  identity : HelloIdentityInput
deriving DecidableEq, Repr

/-- What the writer takes of the fields. -/
def HelloIdentityInput.taken (i : HelloIdentityInput) : HelloIdentity :=
  { buildId := textOf i.buildId, appProtoRange := textOf i.appProtoRange
    claimedRole := textOf i.claimedRole, claimedSessionId := textOf i.claimedSessionId
    claimedEpoch := i.claimedEpoch.low (2 ^ 32), capabilities := textOf i.capabilities }

def ClientHelloInput.taken (h : ClientHelloInput) : ClientHello :=
  { keyVersion := h.keyVersion.low (2 ^ 32)
    offeredSuites := h.offeredSuites.map (AnyNumber.low (2 ^ 16))
    clientNonce := h.clientNonce, connId := h.connId, identity := h.identity.taken }

/-- `encodeClientHello`. -/
def ClientHelloInput.encode (h : ClientHelloInput) : Bytes := encodeClientHello h.taken

/-- A hello that was parsed, as a value of the language. -/
def HelloIdentity.value (i : HelloIdentity) : HelloIdentityInput :=
  { buildId := utf16 i.buildId, appProtoRange := utf16 i.appProtoRange
    claimedRole := utf16 i.claimedRole, claimedSessionId := utf16 i.claimedSessionId
    claimedEpoch := .finite i.claimedEpoch, capabilities := utf16 i.capabilities }

def ClientHello.value (h : ClientHello) : ClientHelloInput :=
  { keyVersion := .finite h.keyVersion
    offeredSuites := h.offeredSuites.map fun n : Nat => AnyNumber.finite n
    clientNonce := h.clientNonce, connId := h.connId, identity := h.identity.value }

/-! ## `server_hello` -/

/-- The arguments of `encodeServerHelloCore`. -/
structure ServerHelloInput where
  stpVersion : AnyNumber
  keyVersion : AnyNumber
  selectedSuite : AnyNumber
  serverNonce : Bytes
  brokerInstanceId : JsString
deriving DecidableEq, Repr

/-- `encodeServerHelloCore`. -/
def ServerHelloInput.encode (h : ServerHelloInput) : Bytes :=
  encodeServerHelloCore (h.stpVersion.low (2 ^ 8)) (h.keyVersion.low (2 ^ 32))
    (h.selectedSuite.low (2 ^ 16)) h.serverNonce (textOf h.brokerInstanceId)

/-- A hello that was parsed, as a value of the language, without its proof. -/
def ServerHelloParsed.value (sh : ServerHelloParsed) : ServerHelloInput :=
  { stpVersion := .finite sh.stpVersion, keyVersion := .finite sh.keyVersion
    selectedSuite := .finite sh.selectedSuite, serverNonce := sh.serverNonce
    brokerInstanceId := utf16 sh.brokerInstanceId }

end XBus
