import XBus.Store

/-!
# The inbound trust boundary

`protocol/schemas.ts`: what a peer may put into a message. `validateSendInput` looks at the
names of the raw metadata first, then has the schema parse the payload, and then measures what
was parsed. A payload is whatever JSON value came in.

The schema is a `strict` object of the `zod` library: every field that does not parse is one
issue (a number may have two), unknown fields are one issue together, and the error reports how
many issues there were.
-/

set_option autoImplicit false

namespace XBus

open Lib

/-! ## Limits -/

/-- `LIMITS`, as far as a validated payload is measured by them. Lengths are in UTF-8 bytes. -/
def Limits.textBytes : Nat := 64 * 1024
def Limits.metadataEntries : Nat := 32
def Limits.metadataKeyBytes : Nat := 64
def Limits.metadataValueBytes : Nat := 1024
def Limits.idempotencyKeyBytes : Nat := 128

/-- `byteLen`. -/
def byteLen (s : String) : Nat := s.utf8ByteSize

/-! ## Reserved metadata keys -/

/-- `RESERVED_METADATA_KEYS`. -/
def reservedMetadataKeys : List String :=
  ["permission", "permissions", "approve", "approval", "approved", "deny", "allow",
   "mode", "permissionmode", "policy", "authority", "grant", "escalate", "sudo",
   "system", "systemprompt", "prompt", "credential", "credentials", "secret",
   "token", "role", "__proto__", "prototype", "constructor"]

/-- `normalizeKey`. -/
def normalizeKey (text : Text) (key : String) : String :=
  text.toLowerCase (text.trim (text.nfc key))

/-- `isReservedMetadataKey`. -/
def isReservedMetadataKey (text : Text) (key : String) : Bool :=
  let k := normalizeKey text key
  reservedMetadataKeys.contains k || k.toList.contains '/' ||
    "claude".toList.isPrefixOf k.toList || "xbus".toList.isPrefixOf k.toList

/-- `Object.getOwnPropertyNames` of a value that is an object. -/
def JsonValue.ownPropertyNames : JsonValue → List String
  | .obj members => members.map Prod.fst
  | .arr items => items.zipIdx.map (fun e => toString e.2) ++ ["length"]
  | _ => []

/-- The first reserved name of the raw metadata. -/
def reservedName (text : Text) (payload : JsonValue) : Option String :=
  ((payload.field? "metadata").map JsonValue.ownPropertyNames).getD [] |>.find?
    (isReservedMetadataKey text)

/-! ## The schema -/

/-- One field of the schema: what it parses to, or the number of its issues. -/
abbrev Parsed (α : Type) := Except Nat α

/-- `z.string()`, of at least the given length. -/
def parseString (least : Nat) : JsonValue → Parsed String
  | .str s => if s.length < least then .error 1 else .ok s
  | _ => .error 1

/-- `z.boolean()`. -/
def parseBoolean : JsonValue → Parsed Bool
  | .bool b => .ok b
  | _ => .error 1

/-- The text of a kind. -/
def SendKind.text : SendKind → String
  | .request => "request"
  | .event => "event"

/-- `z.enum(['request', 'event'])`. -/
def parseKind : JsonValue → Parsed SendKind
  | .str s =>
    if s = SendKind.request.text then .ok .request
    else if s = SendKind.event.text then .ok .event
    else .error 1
  | _ => .error 1

/-- `z.number().int().positive()`: the two checks are made independently. -/
def parsePositiveInt : JsonValue → Parsed Nat
  | .int n => if 0 < n then .ok n.toNat else .error 1
  | .fraction text => .error (if "-".toList.isPrefixOf text.toList then 2 else 1)
  | _ => .error 1

/-- `z.record(z.string(), z.string())`: an issue for each value that is no string. The object
    it builds cannot have a property of its own named `__proto__`. -/
def parseRecord : JsonValue → Parsed (List (String × String))
  | .obj members =>
    match (members.filter fun m => ¬ (m.2 matches .str _)).length with
    | 0 => .ok ((members.filterMap fun m =>
        match m.2 with
        | .str v => some (m.1, v)
        | _ => none).filter fun e => e.1 ≠ "__proto__")
    | n => .error n
  | _ => .error 1

/-- A required field. -/
def required {α : Type} (parse : JsonValue → Parsed α) (value : Option JsonValue) : Parsed α :=
  match value with
  | some v => parse v
  | none => .error 1

/-- `.default(value)`. -/
def withDefault {α : Type} (fallback : α) (parse : JsonValue → Parsed α)
    (value : Option JsonValue) : Parsed α :=
  match value with
  | some v => parse v
  | none => .ok fallback

/-- `.optional()`. -/
def optional {α : Type} (parse : JsonValue → Parsed α) (value : Option JsonValue) :
    Parsed (Option α) :=
  match value with
  | some v => some <$> parse v
  | none => .ok none

/-- The number of issues of a field. -/
def Parsed.issues {α : Type} : Parsed α → Nat
  | .ok _ => 0
  | .error n => n

/-- The fields of `SendInputSchema`. -/
def sendFields : List String :=
  ["to", "text", "kind", "requiresAck", "requiresReply", "ttlSeconds", "idempotencyKey",
   "metadata"]

/-- `SendInputSchema.safeParse`. -/
def parseSendInput : JsonValue → Parsed SendInput
  | .obj members =>
    let payload := JsonValue.obj members
    let recipient := required (parseString 1) (payload.field? "to")
    let text := required (parseString 0) (payload.field? "text")
    let kind := withDefault .request parseKind (payload.field? "kind")
    let requiresAck := withDefault true parseBoolean (payload.field? "requiresAck")
    let requiresReply := withDefault false parseBoolean (payload.field? "requiresReply")
    let ttlSeconds := optional parsePositiveInt (payload.field? "ttlSeconds")
    let idempotencyKey := optional (parseString 0) (payload.field? "idempotencyKey")
    let metadata := optional parseRecord (payload.field? "metadata")
    let unknown := if members.all fun m => sendFields.contains m.1 then 0 else 1
    match recipient, text, kind, requiresAck, requiresReply, ttlSeconds, idempotencyKey,
        metadata, unknown with
    | .ok recipient, .ok text, .ok kind, .ok requiresAck, .ok requiresReply, .ok ttlSeconds,
        .ok idempotencyKey, .ok metadata, 0 =>
      .ok { recipient, text, kind, requiresAck, requiresReply, ttlSeconds, idempotencyKey
            metadata }
    | _, _, _, _, _, _, _, _, _ =>
      .error (recipient.issues + text.issues + kind.issues + requiresAck.issues +
        requiresReply.issues + ttlSeconds.issues + idempotencyKey.issues + metadata.issues +
        unknown)
  | _ => .error 1

/-! ## Validation -/

/-- `PEER_KINDS`. -/
def peerKinds : List MessageKind := [.request, .event, .reply, .cancel]

private def tooLarge (message : String) (detail : List (String × String)) : Failure :=
  xbusError .payloadTooLarge message detail

private def reservedKey (key : String) : Failure :=
  xbusError .reservedMetadataKey ("reserved metadata key: " ++ key)

/-- The checks of one metadata entry. -/
def checkEntry (text : Text) (e : String × String) : Except Failure Unit :=
  if isReservedMetadataKey text e.1 then .error (reservedKey e.1)
  else if Limits.metadataKeyBytes < byteLen e.1 then
    .error (tooLarge "metadata key exceeds limit"
      [("limit", toString Limits.metadataKeyBytes)])
  else if Limits.metadataValueBytes < byteLen e.2 then
    .error (tooLarge "metadata value exceeds limit"
      [("limit", toString Limits.metadataValueBytes)])
  else .ok ()

/-- The checks of the metadata: the number of entries, then entry by entry. -/
def checkMetadata (text : Text) (entries : List (String × String)) : Except Failure Unit :=
  if Limits.metadataEntries < entries.length then
    .error (tooLarge "too many metadata entries"
      [("limit", toString Limits.metadataEntries), ("actual", toString entries.length)])
  else entries.forM (checkEntry text)

/-- The checks of a parsed payload. -/
def checkSendInput (text : Text) (input : SendInput) : Except Failure Unit :=
  if ¬ peerKinds.contains input.kind.toMessageKind then
    .error (xbusError .reservedKind ("kind not permitted: " ++ input.kind.text))
  else if Limits.textBytes < byteLen input.text then
    .error (tooLarge "text exceeds limit"
      [("limit", toString Limits.textBytes), ("actual", toString (byteLen input.text))])
  else if input.idempotencyKey.any fun k => Limits.idempotencyKeyBytes < byteLen k then
    .error (tooLarge "idempotencyKey exceeds limit"
      [("limit", toString Limits.idempotencyKeyBytes)])
  else
    match input.metadata with
    | some entries => checkMetadata text entries
    | none => .ok ()

/-- `validateSendInput`. -/
def validateSendInput (text : Text) (raw : JsonValue) : Except Failure SendInput :=
  match reservedName text raw with
  | some key => .error (reservedKey key)
  | none =>
    match parseSendInput raw with
    | .error issues => .error (xbusError .protocolViolation "invalid send input"
        [("issues", toString issues)])
    | .ok input => (fun _ => input) <$> checkSendInput text input

/-! ## What validation admits -/

/-- The metadata of a message stays within the limits: an object of at most so many entries,
    all of them strings, none too long and none under a reserved key. -/
def JsonValue.boundedMetadata (text : Text) : JsonValue → Bool
  | .obj members => members.length ≤ Limits.metadataEntries ∧ members.all fun m =>
    match m.2 with
    | .str v => isReservedMetadataKey text m.1 = false ∧
        byteLen m.1 ≤ Limits.metadataKeyBytes ∧ byteLen v ≤ Limits.metadataValueBytes
    | _ => false
  | _ => false

theorem checkEntry_ok {text : Text} {e : String × String} (h : checkEntry text e = .ok ()) :
    isReservedMetadataKey text e.1 = false ∧ byteLen e.1 ≤ Limits.metadataKeyBytes ∧
      byteLen e.2 ≤ Limits.metadataValueBytes := by
  unfold checkEntry at h
  split at h
  · cases h
  · rename_i hreserved
    split at h
    · cases h
    · rename_i hkey
      split at h
      · cases h
      · rename_i hvalue
        exact ⟨by simpa using hreserved, Nat.not_lt.mp hkey, Nat.not_lt.mp hvalue⟩

theorem forM_checkEntry_ok {text : Text} {entries : List (String × String)}
    (h : entries.forM (checkEntry text) = .ok ()) : ∀ e ∈ entries, checkEntry text e = .ok () := by
  induction entries with
  | nil => simp
  | cons e entries ih =>
    change (checkEntry text e >>= fun _ => entries.forM (checkEntry text)) = .ok () at h
    cases he : checkEntry text e with
    | error failure =>
      rw [he] at h
      cases h
    | ok u =>
      rw [he] at h
      intro x hx
      rcases List.mem_cons.mp hx with rfl | hx
      · exact he
      · exact ih h x hx

theorem checkMetadata_ok {text : Text} {entries : List (String × String)}
    (h : checkMetadata text entries = .ok ()) :
    (stringRecord entries).boundedMetadata text = true := by
  unfold checkMetadata at h
  split at h
  · cases h
  · rename_i hcount
    have hentries := forM_checkEntry_ok h
    simp only [stringRecord, JsonValue.boundedMetadata, List.length_map, List.all_map,
      List.all_eq_true, Function.comp_apply, decide_eq_true_eq]
    exact ⟨Nat.not_lt.mp hcount, fun e he => checkEntry_ok (hentries e he)⟩

/-- A validated payload is within the limits, in its text and in its metadata. -/
theorem validateSendInput_ok {text : Text} {raw : JsonValue} {input : SendInput}
    (h : validateSendInput text raw = .ok input) : byteLen input.text ≤ Limits.textBytes ∧
      ∀ entries, input.metadata = some entries →
        (stringRecord entries).boundedMetadata text = true := by
  unfold validateSendInput at h
  split at h
  · cases h
  · split at h
    · cases h
    · rename_i parsed _
      cases hcheck : checkSendInput text parsed with
      | error failure =>
        rw [hcheck] at h
        cases h
      | ok u =>
        rw [hcheck] at h
        obtain rfl : parsed = input := Except.ok.inj h
        unfold checkSendInput at hcheck
        split at hcheck
        · cases hcheck
        · split at hcheck
          · cases hcheck
          · rename_i htext
            split at hcheck
            · cases hcheck
            · refine ⟨Nat.not_lt.mp htext, fun entries hentries => ?_⟩
              rw [hentries] at hcheck
              exact checkMetadata_ok hcheck

end XBus
