import XBus.Lib.Rows
import XBus.Lib.Runs

/-!
# Tokens of the dashboard

`broker/dashboard/auth.ts`: a nonce is minted for a tab and exchanged once for a token, which the
tab then shows with every request. Both are kept by their hashes, in two maps that are swept when a
nonce is minted or exchanged, and a token that is shown too late is deleted on the spot.

A call reads the clock where the source reads it: minting and exchanging read it for the sweep and
again after it. The secrets are those of the host's generator, in the order they are drawn.
-/

set_option autoImplicit false

namespace XBus

open Lib

/-- The host's digest, and its generator: the secret that is drawn after `n` others. -/
structure AuthCrypto where
  sha256 : String → String
  mintSecret : Nat → String

structure NonceRecord where
  hash : String
  expiresAt : Int
  consumedAt : Option Int
deriving DecidableEq, Repr

structure TokenRecord where
  hash : String
  expiresAt : Int
deriving DecidableEq, Repr

structure AuthConfig where
  nonceTtlMs : Int := 60000
  tokenTtlMs : Int := 30 * 60000
deriving DecidableEq, Repr

structure DashboardAuth where
  nonces : List (String × NonceRecord) := []
  tokens : List (String × TokenRecord) := []
  /-- How many secrets have been drawn. -/
  drawn : Nat := 0
deriving DecidableEq, Repr

namespace DashboardAuth

def spent (cfg : AuthConfig) (now : Int) (v : NonceRecord) : Bool :=
  v.expiresAt ≤ now || v.consumedAt.any fun at' => at' + cfg.nonceTtlMs ≤ now

def sweep (cfg : AuthConfig) (now : Int) (a : DashboardAuth) : DashboardAuth :=
  { a with
    nonces := a.nonces.filter fun e => !spent cfg now e.2
    tokens := a.tokens.filter fun e => !decide (e.2.expiresAt ≤ now) }

def mintNonce (cr : AuthCrypto) (cfg : AuthConfig) (swept now : Int) (a : DashboardAuth) :
    String × DashboardAuth :=
  let a := a.sweep cfg swept
  let nonce := cr.mintSecret a.drawn
  let entry := (cr.sha256 nonce, NonceRecord.mk (cr.sha256 nonce) (now + cfg.nonceTtlMs) none)
  (nonce, { a with nonces := upsert Prod.fst entry (fun _ => entry) a.nonces
                   drawn := a.drawn + 1 })

/-- The nonce is consumed, and a token drawn. -/
def consume (cr : AuthCrypto) (cfg : AuthConfig) (key : String) (now : Int) (a : DashboardAuth) :
    (String × Int) × DashboardAuth :=
  let token := cr.mintSecret a.drawn
  let entry := (cr.sha256 token, TokenRecord.mk (cr.sha256 token) (now + cfg.tokenTtlMs))
  ((token, now + cfg.tokenTtlMs),
    { nonces := updateWhere (fun e => e.1 = key)
        (fun e => (e.1, { e.2 with consumedAt := some now })) a.nonces
      tokens := upsert Prod.fst entry (fun _ => entry) a.tokens
      drawn := a.drawn + 1 })

def exchange (cr : AuthCrypto) (cfg : AuthConfig) (nonce : String) (swept now : Int)
    (a : DashboardAuth) : Option (String × Int) × DashboardAuth :=
  if nonce = "" then (none, a)
  else
    let a := a.sweep cfg swept
    let key := cr.sha256 nonce
    match a.nonces.find? fun e => e.1 = key with
    | none => (none, a)
    | some e =>
      if e.2.consumedAt.isSome || e.2.expiresAt ≤ now then (none, a)
      else if e.2.hash ≠ key then (none, a)
      else
        let out := consume cr cfg key now a
        (some out.1, out.2)

def validateToken (cr : AuthCrypto) (token : String) (now : Int) (a : DashboardAuth) :
    Bool × DashboardAuth :=
  if token = "" then (false, a)
  else
    let key := cr.sha256 token
    match a.tokens.find? fun e => e.1 = key with
    | none => (false, a)
    | some e =>
      if e.2.expiresAt ≤ now then
        (false, { a with tokens := a.tokens.filter fun e => e.1 ≠ key })
      else (e.2.hash = key, a)

end DashboardAuth

/-! ## Calls -/

/-- A call, with what the clock showed for the sweep and after it. -/
inductive AuthCall
  | mintNonce (swept now : Int)
  | exchange (nonce : String) (swept now : Int)
  | validateToken (token : String) (now : Int)
deriving DecidableEq, Repr

inductive AuthAnswer
  | nonce (nonce : String)
  /-- The token and when it expires. -/
  | exchanged (result : Option (String × Int))
  | valid (ok : Bool)
deriving DecidableEq, Repr

namespace AuthCall

/-- The first and the last reading of the clock. -/
def readings : AuthCall → Int × Int
  | mintNonce swept now | exchange _ swept now => (swept, now)
  | validateToken _ now => (now, now)

end AuthCall

/-- The store, and the last reading of the clock. -/
structure AuthState where
  auth : DashboardAuth := {}
  clock : Int
deriving DecidableEq, Repr

def AuthState.step (cr : AuthCrypto) (cfg : AuthConfig) (s : AuthState) (c : AuthCall) :
    AuthAnswer × AuthState :=
  let clock := c.readings.2
  match c with
  | .mintNonce swept now =>
    let out := s.auth.mintNonce cr cfg swept now
    (.nonce out.1, ⟨out.2, clock⟩)
  | .exchange nonce swept now =>
    let out := s.auth.exchange cr cfg nonce swept now
    (.exchanged out.1, ⟨out.2, clock⟩)
  | .validateToken token now =>
    let out := s.auth.validateToken cr token now
    (.valid out.1, ⟨out.2, clock⟩)

/-- The clock does not go back. -/
def Forward (s : AuthState) (c : AuthCall) : Prop :=
  s.clock ≤ c.readings.1 ∧ c.readings.1 ≤ c.readings.2

instance (s : AuthState) (c : AuthCall) : Decidable (Forward s c) :=
  inferInstanceAs (Decidable (_ ∧ _))

end XBus
