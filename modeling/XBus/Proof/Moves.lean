import XBus.System
import Mathlib.Logic.Relation

/-!
# What a step can do

Twenty-seven operations write the database, but between them they make only a handful of
kinds of write. `Move k b b'` names them: a bookkeeping write, the restatement of a set of
deliveries, the injection of one message, the posting of a new one, the advance of a
session's epoch, and so on. `Moves K` is any number of moves of the kinds in `K`.

The theorem of this module and the next is that every operation moves along `Moves`, with
the kinds `Op.kinds` says. Invariants are then proved against the moves, once for each kind,
and never against an operation's code.

A kind is as coarse as the invariants need it to be: the name of a session and its ownership
row are written by two statements, but no invariant holds between them, so the two are one
move.
-/

set_option autoImplicit false

namespace XBus
namespace Proof

open Lib

/-! ## Bookkeeping -/

/-- A session's row without the two columns that bookkeeping writes. -/
def core (s : Session) : Session := { s with readiness := .initializing, expiresAt := none }

/-- Where the cores agree, so does every lookup that reads the core only. -/
theorem session?_core {b b' : Broker} (h : b'.sessions.map core = b.sessions.map core)
    (sid : SessionId) : (b'.session? sid).map core = (b.session? sid).map core := by
  have hfind (rows : List Session) : (rows.find? fun s => s.sessionId = sid).map core =
      (rows.map core).find? fun s => s.sessionId = sid := by
    rw [List.find?_map]
    rfl
  rw [Broker.session?, Broker.session?, hfind, hfind, h]

theorem epochOf_core {b b' : Broker} (h : b'.sessions.map core = b.sessions.map core)
    (sid : SessionId) : b'.epochOf sid = b.epochOf sid := by
  have := congrArg (Option.map (·.activeEpoch)) (session?_core h sid)
  simpa [Broker.epochOf, Option.map_map, Function.comp_def, core] using this

theorem isSome_core {b b' : Broker} (h : b'.sessions.map core = b.sessions.map core)
    (sid : SessionId) : (b'.session? sid).isSome = (b.session? sid).isSome := by
  have := congrArg Option.isSome (session?_core h sid)
  simpa using this

/-- The thread tables are as they were. -/
structure SameThreads (b b' : Broker) : Prop where
  threads : b'.threads = b.threads
  threadSequences : b'.threadSequences = b.threadSequences
  threadParticipants : b'.threadParticipants = b.threadParticipants

instance : IsFrame SameThreads where
  refl _ := ⟨rfl, rfl, rfl⟩
  trans h₁ h₂ :=
    ⟨h₂.threads.trans h₁.threads, h₂.threadSequences.trans h₁.threadSequences,
      h₂.threadParticipants.trans h₁.threadParticipants⟩

/-- `b'` differs from `b` in nothing but bookkeeping and threads. -/
structure TurnKeeping (b b' : Broker) : Prop where
  ids : b.nextId ≤ b'.nextId
  sessions : b'.sessions.map core = b.sessions.map core
  components : b'.components = b.components
  nameOwnership : b'.nameOwnership = b.nameOwnership
  physicalMap : b'.physicalMap = b.physicalMap
  recipientSequences : b'.recipientSequences = b.recipientSequences
  messages : b'.messages = b.messages
  deliveries : b'.deliveries = b.deliveries
  injections : b'.injections = b.injections
  receipts : b.receipts ⊆ b'.receipts

instance : IsFrame TurnKeeping where
  refl _ := ⟨Nat.le_refl _, rfl, rfl, rfl, rfl, rfl, rfl, rfl, rfl, List.Subset.refl _⟩
  trans h₁ h₂ :=
    ⟨h₁.ids.trans h₂.ids, h₂.sessions.trans h₁.sessions, h₂.components.trans h₁.components,
      h₂.nameOwnership.trans h₁.nameOwnership, h₂.physicalMap.trans h₁.physicalMap,
      h₂.recipientSequences.trans h₁.recipientSequences, h₂.messages.trans h₁.messages,
      h₂.deliveries.trans h₁.deliveries, h₂.injections.trans h₁.injections,
      List.Subset.trans h₁.receipts h₂.receipts⟩

/-- `b'` differs from `b` in nothing but bookkeeping: audit rows, ids consumed, retention,
    readiness, aliases, controls, blocks and new receipts. -/
structure Bookkeeping (b b' : Broker) : Prop extends TurnKeeping b b', SameThreads b b'

instance : IsFrame Bookkeeping where
  refl b := ⟨IsFrame.refl b, rfl, rfl, rfl⟩
  trans h₁ h₂ :=
    ⟨IsFrame.trans h₁.toTurnKeeping h₂.toTurnKeeping,
      IsFrame.trans h₁.toSameThreads h₂.toSameThreads⟩

namespace Bookkeeping

variable {b b' : Broker}

theorem rfl' : Bookkeeping b b := IsFrame.refl b

theorem mint : Bookkeeping b b.mint :=
  ⟨⟨Nat.le_succ _, rfl, rfl, rfl, rfl, rfl, rfl, rfl, rfl, List.Subset.refl _⟩, rfl, rfl, rfl⟩

theorem audit {t : AuditType} {s : Option SessionId} {m : Option Id} :
    Bookkeeping b (b.audit t s m) :=
  ⟨⟨Nat.le_succ _, rfl, rfl, rfl, rfl, rfl, rfl, rfl, rfl, List.Subset.refl _⟩, rfl, rfl, rfl⟩

theorem refresh {sid : SessionId} {now : Iso} :
    Bookkeeping b (b.refreshMeaningfulActivity sid now) :=
  ⟨⟨Nat.le_refl _, map_updateWhere core fun _ _ => rfl, rfl, rfl, rfl, rfl, rfl, rfl, rfl,
    List.Subset.refl _⟩, rfl, rfl, rfl⟩

theorem setReadiness {sid : SessionId} {r : Readiness} :
    Bookkeeping b (b.updateSession sid fun s => { s with readiness := r }) :=
  ⟨⟨Nat.le_refl _, map_updateWhere core fun _ _ => rfl, rfl, rfl, rfl, rfl, rfl, rfl, rfl,
    List.Subset.refl _⟩, rfl, rfl, rfl⟩

theorem setControl {sid : SessionId} {mode : ReceiveControl} :
    Bookkeeping b (b.setControl sid mode) :=
  ⟨⟨Nat.le_refl _, rfl, rfl, rfl, rfl, rfl, rfl, rfl, rfl, List.Subset.refl _⟩, rfl, rfl, rfl⟩

theorem blockPeer {env : Env} {sid : SessionId} {handle : String} :
    Bookkeeping b (b.blockPeer env sid handle) :=
  ⟨⟨Nat.le_succ _, rfl, rfl, rfl, rfl, rfl, rfl, rfl, rfl, List.Subset.refl _⟩, rfl, rfl, rfl⟩

theorem unblockPeer {env : Env} {sid : SessionId} {handle : String} :
    Bookkeeping b (b.unblockPeer env sid handle) :=
  ⟨⟨Nat.le_refl _, rfl, rfl, rfl, rfl, rfl, rfl, rfl, rfl, List.Subset.refl _⟩, rfl, rfl, rfl⟩

theorem upsertAliasRow {handle : Alias} {sid : SessionId} :
    Bookkeeping b (b.upsertAliasRow handle sid) :=
  ⟨⟨Nat.le_succ _, rfl, rfl, rfl, rfl, rfl, rfl, rfl, rfl, List.Subset.refl _⟩, rfl, rfl, rfl⟩

theorem upsertAutomaticAliasSafe {handle : Alias} {sid : SessionId} :
    Bookkeeping b (b.upsertAutomaticAliasSafe handle sid) := by
  unfold Broker.upsertAutomaticAliasSafe
  split
  · split
    · exact audit
    · exact rfl'
  · split
    · exact ⟨⟨Nat.le_refl _, rfl, rfl, rfl, rfl, rfl, rfl, rfl, rfl, List.Subset.refl _⟩, rfl, rfl,
        rfl⟩
    · exact upsertAliasRow

theorem addReceipts {rs : List Receipt} (h : b.receipts ⊆ rs) :
    Bookkeeping b { b with receipts := rs } :=
  ⟨⟨Nat.le_refl _, rfl, rfl, rfl, rfl, rfl, rfl, rfl, rfl, h⟩, rfl, rfl, rfl⟩

end Bookkeeping

namespace TurnKeeping

variable {b b' : Broker}

theorem ensureThread {t m : Id} : TurnKeeping b (b.ensureThread t m) :=
  ⟨Nat.le_refl _, rfl, rfl, rfl, rfl, rfl, rfl, rfl, rfl, List.Subset.refl _⟩

theorem allocThreadSequence {t : Id} : TurnKeeping b (b.allocThreadSequence t) :=
  ⟨Nat.le_refl _, rfl, rfl, rfl, rfl, rfl, rfl, rfl, rfl, List.Subset.refl _⟩

theorem ensureParticipant {t : Id} {sid : SessionId} {k : AuthorType} {now : Iso} :
    TurnKeeping b (b.ensureParticipant t sid k now) :=
  ⟨Nat.le_succ _, rfl, rfl, rfl, rfl, rfl, rfl, rfl, rfl, List.Subset.refl _⟩

theorem touchThread {t : Id} {n : Nat} : TurnKeeping b (b.touchThread t n) :=
  ⟨Nat.le_refl _, rfl, rfl, rfl, rfl, rfl, rfl, rfl, rfl, List.Subset.refl _⟩

theorem participants {ps : List ThreadParticipant} :
    TurnKeeping b { b with threadParticipants := ps } :=
  ⟨Nat.le_refl _, rfl, rfl, rfl, rfl, rfl, rfl, rfl, rfl, List.Subset.refl _⟩

theorem openTurn {t m : Id} {s r : SessionId} {k : AuthorType} {now : Iso} :
    TurnKeeping b (b.openTurn t m s r k now) :=
  IsFrame.trans ensureThread (IsFrame.trans allocThreadSequence
    (IsFrame.trans ensureParticipant ensureParticipant))

theorem setSubject {input : OperatorSendInput} {t : Id} :
    TurnKeeping b (b.setSubject input t) := by
  unfold Broker.setSubject
  split
  · exact ⟨Nat.le_refl _, rfl, rfl, rfl, rfl, rfl, rfl, rfl, rfl, List.Subset.refl _⟩
  · exact IsFrame.refl b

end TurnKeeping

/-- `b'` differs from `b` in nothing but deliveries, injections and bookkeeping. -/
structure MailOnly (b b' : Broker) : Prop where
  ids : b.nextId ≤ b'.nextId
  sessions : b'.sessions.map core = b.sessions.map core
  components : b'.components = b.components
  nameOwnership : b'.nameOwnership = b.nameOwnership
  physicalMap : b'.physicalMap = b.physicalMap
  recipientSequences : b'.recipientSequences = b.recipientSequences
  messages : b'.messages = b.messages
  receipts : b.receipts ⊆ b'.receipts
  turns : SameThreads b b'

instance : IsFrame MailOnly where
  refl _ := ⟨Nat.le_refl _, rfl, rfl, rfl, rfl, rfl, rfl, List.Subset.refl _, IsFrame.refl _⟩
  trans h₁ h₂ :=
    ⟨h₁.ids.trans h₂.ids, h₂.sessions.trans h₁.sessions, h₂.components.trans h₁.components,
      h₂.nameOwnership.trans h₁.nameOwnership, h₂.physicalMap.trans h₁.physicalMap,
      h₂.recipientSequences.trans h₁.recipientSequences, h₂.messages.trans h₁.messages,
      List.Subset.trans h₁.receipts h₂.receipts, IsFrame.trans h₁.turns h₂.turns⟩

namespace MailOnly

variable {b b' : Broker}

theorem of_bookkeeping (h : Bookkeeping b b') : MailOnly b b' :=
  ⟨h.ids, h.sessions, h.components, h.nameOwnership, h.physicalMap, h.recipientSequences,
    h.messages, h.receipts, h.toSameThreads⟩

theorem updateDeliveries {p : Delivery → Bool} {f : Delivery → Delivery} :
    MailOnly b (b.updateDeliveries p f) :=
  ⟨Nat.le_refl _, rfl, rfl, rfl, rfl, rfl, rfl, List.Subset.refl _, rfl, rfl, rfl⟩

theorem injections {is : List Injection} : MailOnly b { b with injections := is } :=
  ⟨Nat.le_refl _, rfl, rfl, rfl, rfl, rfl, rfl, List.Subset.refl _, rfl, rfl, rfl⟩

theorem consume {id : Id} {op : ReceiptOp} : MailOnly b (b.consume id op) := injections

theorem issue {env : Env} {now : Iso} {mid : Id} {sid : SessionId} {epoch logical : Nat}
    {ck : CheckpointId} : MailOnly b (issue env now mid sid epoch ck logical b).2 := by
  unfold XBus.issue
  split
  · exact IsFrame.refl b
  · split
    · exact of_bookkeeping .mint
    · exact IsFrame.trans (of_bookkeeping .mint) injections

theorem complete {mid : Id} {ra rr : Bool} {now : Iso} :
    MailOnly b (b.completeIfNoResponseRequired mid ra rr now) := by
  unfold Broker.completeIfNoResponseRequired
  split
  · exact IsFrame.refl b
  · split
    · exact IsFrame.trans updateDeliveries (of_bookkeeping .audit)
    · exact IsFrame.refl b

end MailOnly

/-! ## Posting a message -/

/-- `b'` is `b` with one new message: a fresh id, the recipient's next sequence number, its
    row, its queued delivery, and the counter moved on. -/
structure Posted (b b' : Broker) (m : Message) : Prop where
  fresh : b.nextId ≤ m.messageId
  ids : m.messageId < b'.nextId
  owner : (b.session? m.recipientSessionId).isSome
  sequence : m.recipientSequence = b.nextSequence m.recipientSessionId
  recipientSequences : b'.recipientSequences = insertOrReplace (·.recipientSessionId)
    { recipientSessionId := m.recipientSessionId
      nextSequence := b.nextSequence m.recipientSessionId + 1 } b.recipientSequences
  messages : b'.messages = b.messages ++ [m]
  /-- `ux_recipseq`. -/
  newSequence : ∀ x ∈ b.messages, ¬ (x.recipientSessionId = m.recipientSessionId ∧
    x.recipientSequence = m.recipientSequence)
  /-- `ux_idem`. -/
  newKey : m.idempotencyKey = none ∨ ∀ x ∈ b.messages,
    ¬ (x.senderSessionId = m.senderSessionId ∧ x.idempotencyKey = m.idempotencyKey)
  deliveries : ∃ id now, b'.deliveries = b.deliveries ++ [{
    deliveryId := id, messageId := m.messageId, recipientSessionId := m.recipientSessionId
    state := .queued, updatedAt := now }]
  sessions : b'.sessions.map core = b.sessions.map core
  components : b'.components = b.components
  nameOwnership : b'.nameOwnership = b.nameOwnership
  physicalMap : b'.physicalMap = b.physicalMap
  injections : b'.injections = b.injections
  receipts : b.receipts ⊆ b'.receipts

/-! ## Moves -/

/-- If the broker minted the checkpoint id, it did so before the id `n`. -/
def MintedBefore (ck : CheckpointId) (n : Id) : Prop := ∀ p k, ck = .minted p k → k < n

theorem MintedBefore.mono {ck : CheckpointId} {n n' : Id} (h : MintedBefore ck n) (hn : n ≤ n') :
    MintedBefore ck n' := fun p k hck => Nat.lt_of_lt_of_le (h p k hck) hn

/-- A checkpoint id that has just been minted. -/
theorem mintedBefore_mint (b : Broker) (p : String) :
    MintedBefore (.minted p b.nextId) b.mint.nextId := by
  intro p' k h
  obtain ⟨-, rfl⟩ := CheckpointId.minted.inj h
  exact Nat.lt_succ_self _

/-- The kinds of move. -/
inductive Kind
  /-- `clean`: no row of the message at another epoch has the same checkpoint id. -/
  | inject (clean : Bool)
  | note | restate | redrive | consume | reissue | post | answer | create | dormant
  | advance | join | component | redirect | claim | rename | reclaim | tombstone | lapse
  | close | remove | operator
deriving DecidableEq, Repr

/-- One move. Each constructor carries what is known where the operations make it. -/
inductive Move (env : Env) : Kind → Broker → Broker → Prop
  | note {b b' : Broker} (h : Bookkeeping b b') : Move env .note b b'
  /-- Deliveries change state: never into flight, and never out of `completed`. -/
  | restate {b : Broker} (p : Delivery → Bool) (f : Delivery → Delivery)
      (key : ∀ d, (f d).messageId = d.messageId ∧
        (f d).recipientSessionId = d.recipientSessionId)
      (grounded : ∀ d, (f d).state ≠ .transportWritten)
      (open' : ∀ d, p d = true → d.state ≠ .completed) :
      Move env .restate b (b.updateDeliveries p f)
  /-- A dead letter is queued again. -/
  | redrive {b : Broker} (mid : Id) (f : Delivery → Delivery) {d : Delivery}
      (dead : b.delivery? mid = some d) (state : d.state = .deadLetter)
      (key : ∀ d, (f d).messageId = d.messageId ∧
        (f d).recipientSessionId = d.recipientSessionId)
      (grounded : ∀ d, (f d).state ≠ .transportWritten) :
      Move env .redrive b (b.updateDeliveries (fun d => d.messageId = mid) f)
  | consume {b : Broker} (id : Id) (op : ReceiptOp) : Move env .consume b (b.consume id op)
  /-- One message of a pull, by a holder of the current epoch of its recipient. -/
  | inject {b : Broker} (now : Iso) (auth : SessionAuthority) (ck : CheckpointId)
      (audited : Bool) (m : Message) (current : b.epochOf auth.sessionId = some auth.epoch)
      (addressed : ∃ d ∈ b.deliveries, d.messageId = m.messageId ∧
        d.recipientSessionId = auth.sessionId) (minted : MintedBefore ck b.nextId)
      (clean : Bool)
      (apart : clean = true → ∀ i ∈ b.injections, i.messageId = m.messageId →
        i.checkpointId = ck → i.recipientEpoch = auth.epoch) :
      Move env (.inject clean) b (injectOne env now auth ck audited m b).2
  /-- A further injection of a message already presented at the current epoch. -/
  | reissue {b : Broker} (now : Iso) (auth : SessionAuthority) (m : Message)
      (found : b.message? m.messageId = some m)
      (addressed : m.recipientSessionId = auth.sessionId)
      (presented : b.maxLogical m.messageId auth.epoch ≠ 0) :
      Move env .reissue b (issue env now m.messageId auth.sessionId auth.epoch
        (.minted "redeliver-" b.nextId) (b.maxLogical m.messageId auth.epoch + 1) b.mint).2
  | post {b b' : Broker} (m : Message) (h : Posted b b' m) (kind : m.kind ≠ .reply) :
      Move env .post b b'
  /-- A reply is posted. -/
  | answer {b b' : Broker} (m : Message) (h : Posted b b' m) (kind : m.kind = .reply) :
      Move env .answer b b'
  | create {b : Broker} (input : RegisterInput) (absent : b.session? input.sessionId = none) :
      Move env .create b (b.createSession env input)
  | dormant {b : Broker} (sid : SessionId) (mode : String) (rs : List RecipientSequence)
      (absent : b.session? sid = none)
      (counter : rs = b.recipientSequences ∨ rs = insertOrIgnore (·.recipientSessionId)
        { recipientSessionId := sid, nextSequence := 1 } b.recipientSequences) :
      Move env .dormant b { b with
        sessions := b.sessions ++ [dormantSession env sid mode], recipientSequences := rs }
  | advance {b : Broker} (now : Iso) (sid : SessionId) (resume : Bool) {s : Session}
      (found : b.session? sid = some s) :
      Move env .advance b (b.advanceEpoch env now sid (s.activeEpoch + 1) resume)
  | join {b : Broker} (now : Iso) (input : RegisterInput) :
      Move env .join b (b.joinEpoch now input)
  | component {b : Broker} (c : Component) :
      Move env .component b { b with components := b.components ++ [c] }
  | redirect {b : Broker} (edges : List PhysicalMap) :
      Move env .redirect b { b with physicalMap := edges }
  | claim {b : Broker} (mom : Moment) (sid : SessionId) (requested : Option String)
      (found : (b.session? sid).isSome) :
      Move env .claim b (claimNameForRegister env mom sid requested b).2
  | rename {b : Broker} (mom : Moment) (sid : SessionId) {raw : String} {norm : SessionName}
      (wasExpired : Bool) (found : (b.session? sid).isSome)
      (valid : validateSessionName env.text raw = .ok norm)
      (free : b.nameTaken norm.normalized sid = false) :
      Move env .rename b (b.rename env mom sid norm wasExpired).2
  | operatorRename {b : Broker} (mom : Moment) (sid : SessionId) {raw : String}
      {norm : SessionName} (found : (b.session? sid).isSome)
      (valid : validateSessionName env.text raw = .ok norm)
      (free : b.nameTaken norm.normalized sid = false) :
      Move env .rename b (b.operatorRename env mom sid norm)
  /-- The incumbent of a name forfeits it to a session that presented its secret. -/
  | reclaim {b : Broker} (mom : Moment) (sid : SessionId) {raw : String} {norm : SessionName}
      {own : NameOwnership} (wasExpired : Bool) (found : (b.session? sid).isSome)
      (valid : validateSessionName env.text raw = .ok norm)
      (taken : b.nameTaken norm.normalized sid = true)
      (owned : b.ownerOf norm.normalized = some own) :
      Move env .reclaim b ((b.forfeit norm.normalized (b.logicalIdOf sid)
        own.currentSessionId).rename env mom sid norm wasExpired).2
  | tombstone {b : Broker} (sid : SessionId) (now : Iso) (mortal : sid ≠ operatorSessionId) :
      Move env .tombstone b (b.tombstone sid now)
  | lapse {b : Broker} (now : Iso) : Move env .lapse b (reapStalePendingNames now b)
  | close {b : Broker} (auth : SessionAuthority) (conn : ConnId) :
      Move env .close b (b.connClosed auth conn)
  | remove {b : Broker} (sid : SessionId) (now : Iso) {s : Session}
      (mortal : sid ≠ operatorSessionId) (found : b.session? sid = some s)
      (idle : s.state ≠ .connected) : Move env .remove b (b.deleteSession sid now)
  | operator {b : Broker} : Move env .operator b (b.ensureOperatorSession env)

/-- Any number of moves of the given kinds. -/
def Moves (env : Env) (kinds : List Kind) : Broker → Broker → Prop :=
  Relation.ReflTransGen fun b b' => ∃ k ∈ kinds, Move env k b b'

instance (env : Env) (kinds : List Kind) : IsFrame (Moves env kinds) where
  refl _ := .refl
  trans := Relation.ReflTransGen.trans

namespace Moves

variable {env : Env} {kinds : List Kind} {b b' : Broker}

theorem one {k : Kind} (hk : k ∈ kinds) (h : Move env k b b') : Moves env kinds b b' :=
  .single ⟨k, hk, h⟩

theorem mono {kinds' : List Kind} (hk : ∀ k ∈ kinds, k ∈ kinds') (h : Moves env kinds b b') :
    Moves env kinds' b b' := by
  induction h with
  | refl => exact .refl
  | tail _ hm ih =>
    obtain ⟨k, hmem, hm⟩ := hm
    exact ih.tail ⟨k, hk k hmem, hm⟩

theorem note (hk : .note ∈ kinds) (h : Bookkeeping b b') : Moves env kinds b b' :=
  one hk (.note h)

/-- A preorder that every move of the given kinds respects, all of them together respect. -/
theorem frame {R : Broker → Broker → Prop} [IsFrame R] (h : Moves env kinds b b')
    (hR : ∀ b b' k, k ∈ kinds → Move env k b b' → R b b') : R b b' := by
  induction h with
  | refl => exact IsFrame.refl b
  | tail _ hm ih =>
    obtain ⟨k, hk, hm⟩ := hm
    exact IsFrame.trans ih (hR _ _ k hk hm)

/-- A property that every move of the given kinds keeps, all of them together keep. -/
theorem keeps {P : Broker → Prop} (h : Moves env kinds b b') (hb : P b)
    (hP : ∀ b b' k, k ∈ kinds → Move env k b b' → P b → P b') : P b' := by
  induction h with
  | refl => exact hb
  | tail _ hm ih =>
    obtain ⟨k, hk, hm⟩ := hm
    exact hP _ _ k hk hm ih

end Moves

end Proof
end XBus
