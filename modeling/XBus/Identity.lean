import XBus.Protocol
import Mathlib.Data.List.Basic

/-!
# Names and aliases

`identity/session-name.ts` and `identity/aliases.ts`: the validation of the two kinds of
routable handle, the broker-minted automatic alias, and the parsing of a recipient.

The regular expressions are written out over the list of characters. Unicode normalisation
and case folding are two library functions of the host language that the program
applies to text it has not yet restricted to ASCII; with `trim` they are the fields of
`Text`, and nothing is assumed about them.
-/

set_option autoImplicit false

namespace XBus

/-- The host language's text functions: `String.prototype.normalize('NFC')`,
    `String.prototype.toLowerCase` and `String.prototype.trim`. -/
structure Text where
  nfc : String → String
  toLowerCase : String → String
  trim : String → String

/-- `[A-Za-z0-9]`. -/
def isAsciiAlnum (c : Char) : Bool := c.isAlphanum

/-- `[0-9a-f]` and, with `upper`, `[0-9a-fA-F]`. -/
def isHex (upper : Bool) (c : Char) : Bool :=
  c.isDigit || ('a' ≤ c && c ≤ 'f') || (upper && 'A' ≤ c && c ≤ 'F')

/-- The shape `8-4-4-4-12` over the characters `hex` accepts. -/
def isUuidShape (hex : Char → Bool) (s : String) : Bool :=
  let cs := s.toList
  cs.length = 36 && (cs.zipIdx.all fun ci =>
    if ci.2 = 8 ∨ ci.2 = 13 ∨ ci.2 = 18 ∨ ci.2 = 23 then ci.1 = '-' else hex ci.1)

/-! ## Session names -/

/-- `NormalizedSessionName`. -/
structure SessionName where
  display : String
  normalized : String
deriving DecidableEq, Repr

/-- `RESERVED_SESSION_NAMES`. -/
def reservedSessionNames : List String :=
  ["xbus", "broker", "admin", "system", "root", "all", "broadcast", "self", "none",
   "operator", "local-operator"]

/-- `GENERIC_SESSION_NAMES`. -/
def genericSessionNames : List String :=
  ["session", "agent", "claude", "codex", "hermes", "default", "test", "temp",
   "new-session", "new", "untitled", "example", "sample", "foo", "bar"]

/-- `[A-Za-z0-9._-]`. -/
def isNameChar (c : Char) : Bool := isAsciiAlnum c || c = '.' || c = '_' || c = '-'

/-- `[a-z0-9]`. -/
def isLowerAlnum (c : Char) : Bool := c.isLower || c.isDigit

/-- `^[a-z0-9][a-z0-9._-]{1,47}$`. -/
def matchesSessionName (s : String) : Bool :=
  match s.toList with
  | [] => false
  | c :: cs =>
    isLowerAlnum c && 1 ≤ cs.length && cs.length ≤ 47 &&
      cs.all fun d => isLowerAlnum d || d = '.' || d = '_' || d = '-'

private def badName (message : String) (detail : List (String × String) := []) : Failure :=
  xbusError .invalidSessionName message detail

/-- `validateSessionName`. -/
def validateSessionName (text : Text) (raw : String) : Except Failure SessionName :=
  if raw.isEmpty then .error (badName "session name must be a non-empty string")
  else
    let nfc := text.nfc raw
    -- The drive-letter alternative of the path pattern needs a colon, so it adds nothing.
    if nfc.toList.any fun c => c = ':' ∨ c = '/' ∨ c = '\\' then
      .error (badName
        "session name must not be filesystem-path-like (no \"/\", \"\\\", \":\", or drive letter)")
    else if ¬ (nfc.toList ≠ [] ∧ nfc.toList.all isNameChar) then
      .error (badName
        "session name must be ASCII [a-z0-9._-] (no spaces, symbols, or Unicode look-alikes)")
    else if nfc.length < 2 ∨ nfc.length > 48 then
      .error (badName "session name length must be 2..48" [("min", "2"), ("max", "48")])
    else
      let normalized := text.toLowerCase nfc
      if ¬ matchesSessionName normalized then
        .error (badName
          "session name must match [a-z0-9][a-z0-9._-]\x7b1,47\x7d (start with a letter or digit)")
      else if "session-".toList.isPrefixOf normalized.toList then
        .error (badName "the \"session-\" prefix is reserved for broker-minted aliases")
      else if reservedSessionNames.contains normalized then
        .error (badName ("reserved session name: " ++ normalized))
      else if genericSessionNames.contains normalized then
        .error (badName ("\"" ++ normalized ++
          "\" is too generic — choose a name that identifies this session"))
      else if normalized.toList.all Char.isDigit then
        .error (badName "session name must not be all digits")
      else if isUuidShape (isHex false) normalized then
        .error (badName "session name must not look like a generated id")
      else .ok { display := raw, normalized }

/-- A check that throws is passed where its condition fails, and then the rest decides. -/
theorem check_ok {ε α : Type} {p : Prop} [Decidable p] {e : ε} {x : Except ε α} {a : α} :
    (if p then .error e else x) = .ok a ↔ ¬ p ∧ x = .ok a := by
  by_cases hp : p <;> simp [hp]

/-- What the validator has seen of a text it takes. -/
theorem validateSessionName_ok {text : Text} {raw : String} {norm : SessionName}
    (h : validateSessionName text raw = .ok norm) :
    norm = { display := raw, normalized := text.toLowerCase (text.nfc raw) } ∧
      (text.nfc raw).toList.all isNameChar = true ∧ (text.nfc raw).length ≤ 48 ∧
      matchesSessionName norm.normalized = true ∧
      "session-".toList.isPrefixOf norm.normalized.toList = false ∧
      reservedSessionNames.contains norm.normalized = false ∧
      isUuidShape (isHex false) norm.normalized = false := by
  simp only [validateSessionName, check_ok] at h
  obtain ⟨-, -, hchars, hlength, hmatches, hchosen, hreserved, -, -, hid, hnorm⟩ := h
  obtain rfl := Except.ok.inj hnorm
  exact ⟨rfl, (not_not.mp hchars).2, by omega, not_not.mp hmatches, Bool.eq_false_iff.mpr hchosen,
    Bool.eq_false_iff.mpr hreserved, Bool.eq_false_iff.mpr hid⟩

/-! ## Aliases -/

/-- `NormalizedAlias`. -/
structure Alias where
  display : String
  ci : String
deriving DecidableEq, Repr

/-- `^[A-Za-z0-9_-]{1,128}$`. -/
def matchesAlias (s : String) : Bool :=
  s.toList ≠ [] && s.length ≤ 128 && s.toList.all fun c => isAsciiAlnum c || c = '_' || c = '-'

/-- `RESERVED_NAMES` of the alias pool. -/
def reservedAliases : List String :=
  ["all", "broadcast", "self", "main", "system", "everyone", "none"]

/-- `validateUserAlias`. -/
def validateUserAlias (text : Text) (raw : String) : Except Failure Alias :=
  if raw.isEmpty then .error (xbusError .invalidAlias "alias must be a non-empty string")
  else if raw.length > 128 then
    .error (xbusError .invalidAlias "alias too long" [("limit", "128")])
  else if ¬ matchesAlias raw then
    .error (xbusError .invalidAlias "alias must match [A-Za-z0-9_-] (ASCII only)")
  else
    let ci := text.toLowerCase raw
    if "session-".toList.isPrefixOf ci.toList then
      .error (xbusError .invalidAlias "the \"session-\" prefix is reserved")
    else if reservedAliases.contains ci then
      .error (xbusError .invalidAlias ("reserved alias: " ++ ci))
    else .ok { display := raw, ci }

/-- `automaticAlias`: `session-` and the first eight alphanumeric characters of the id. -/
def automaticAlias (text : Text) (sessionId : SessionId) : Alias :=
  let safe := text.toLowerCase (String.ofList ((sessionId.toList.filter isAsciiAlnum).take 8))
  let display := "session-" ++ (if safe.isEmpty then "unknown0" else safe)
  { display, ci := text.toLowerCase display }

/-! ## Recipients -/

/-- `RecipientRef`. -/
inductive RecipientRef
  | session (sessionId : SessionId)
  | qualified (projectAlias handle : String)
  | bare (handle : String)
deriving DecidableEq, Repr

/-- `validateRecipientAliasPart`. -/
def validateRecipientAliasPart (part : String) : Except Failure Unit :=
  if matchesAlias part then .ok ()
  else .error (xbusError .invalidAlias "invalid alias in recipient: charset/length")

/-- `parseRecipient`. No fuzzy matching: an exact session id, `project/alias`, or an alias. -/
def parseRecipient (text : Text) (raw : String) : Except Failure RecipientRef :=
  let r := text.trim raw
  if r.isEmpty then .error (xbusError .unknownRecipient "empty recipient")
  else if isUuidShape (isHex true) r then .ok (.session r)
  else
    match r.toList.splitOn '/' with
    | [_] => do
      validateRecipientAliasPart r
      .ok (.bare r)
    | [project, handle] => do
      validateRecipientAliasPart (String.ofList project)
      validateRecipientAliasPart (String.ofList handle)
      .ok (.qualified (String.ofList project) (String.ofList handle))
    | _ => .error (xbusError .invalidAlias "qualified recipient allows exactly one \"/\"")

end XBus
