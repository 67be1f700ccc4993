import XBus.Proof.Injecting

/-!
# Walking the operations

Every operation of the stores moves along `Moves`, answered or refused: one walk for each,
collected in `exec_moves`. A walk follows the code top to bottom with the rules of
`Respects`; where a move carries a side condition, the condition is what a guard before it
has checked.

The pulls take a flag. Without it a walk says nothing about checkpoint ids; with it the
caller has to know that the checkpoint id does not stand for another epoch, and every
injection of the walk is a clean one.
-/

set_option autoImplicit false

namespace XBus
namespace Proof

open Lib

variable {env : Env} {mom : Moment} {now : Iso} {K : List Kind} {auth : SessionAuthority}
  {b : Broker}

theorem respects_note {α : Type} {x : BrokerCall α} (hk : .note ∈ K)
    (h : Respects Bookkeeping x) : Respects (Moves env K) x :=
  h.mono fun _ _ => Moves.note hk

/-! ## Fences -/

theorem assertAllowed_respects {R : Broker → Broker → Prop} [IsFrame R] {role : ComponentRole}
    {op : Operation} : Respects R (assertAllowed role op) := Respects.require

/-- Nothing but the audit trail and the ids it consumes. -/
def AuditTrail (b b' : Broker) : Prop := ∃ es n, b' = { b with auditEvents := es, nextId := n }

instance : IsFrame AuditTrail where
  refl b := ⟨b.auditEvents, b.nextId, rfl⟩
  trans := by
    rintro b _ _ ⟨es, n, rfl⟩ ⟨es', n', rfl⟩
    exact ⟨es', n', rfl⟩

theorem assertCurrentEpoch_auditTrail : Respects AuditTrail (assertCurrentEpoch auth) :=
  Respects.bind .get fun _ => Respects.bind .orThrow fun _ =>
    Respects.requireElse fun _ => ⟨_, _, rfl⟩

theorem assertCurrentEpoch_bookkeeping : Respects Bookkeeping (assertCurrentEpoch auth) :=
  Respects.bind .get fun _ => Respects.bind .orThrow fun _ =>
    Respects.requireElse fun _ => .audit

theorem assertCurrentEpoch_ok {u : Unit} {b' : Broker} :
    assertCurrentEpoch auth b = (.ok u, b') ↔
      b.epochOf auth.sessionId = some auth.epoch ∧ b = b' := by
  simp only [assertCurrentEpoch, Call.get_bind, Call.bind_ok, Call.orThrow_ok,
    Call.requireElse_ok, Broker.epochOf, Option.map_eq_some_iff]
  constructor
  · rintro ⟨s, t, ⟨hs, rfl⟩, he, rfl⟩
    exact ⟨⟨s, hs, he⟩, rfl⟩
  · rintro ⟨⟨s, hs, he⟩, rfl⟩
    exact ⟨s, b, ⟨hs, rfl⟩, he, rfl⟩

/-! ## Calls that only keep books -/

theorem registerAlias_respects {raw : String} :
    Respects Bookkeeping (registerAlias env auth raw) := by
  refine Respects.bind .lift fun handle => Respects.transaction ?_
  refine Respects.bind assertCurrentEpoch_bookkeeping fun _ => Respects.bind .get fun b => ?_
  have htail : Respects Bookkeeping (do
      Call.modify fun b => b.audit .aliasRegistered (some auth.sessionId)
      pure handle.display : BrokerCall String) :=
    Respects.bind (.modify fun _ => .audit) fun _ => .pure _
  split
  · exact Respects.bind .require fun _ => htail
  · exact Respects.bind (.modify fun _ => .upsertAliasRow) fun _ => htail

theorem signalReadiness_respects {hints : ReadinessHints} :
    Respects Bookkeeping (signalReadiness auth hints) := by
  refine Respects.transaction (Respects.bind .get fun _ => Respects.bind .orThrow fun _ =>
    Respects.bind .require fun _ => Respects.bind (.modify fun _ => ?_) fun _ => .pure _)
  exact IsFrame.trans Bookkeeping.setReadiness .audit

theorem setControl_respects {mode : ReceiveControl} :
    Respects Bookkeeping (setControl now auth mode) :=
  Respects.modify fun _ =>
    IsFrame.trans Bookkeeping.setControl (IsFrame.trans Bookkeeping.refresh .audit)

theorem blockPeer_respects {handle : String} {unblock : Bool} :
    Respects Bookkeeping (blockPeer env auth handle unblock) := by
  refine Respects.bind .require fun _ => Respects.modify fun b => ?_
  split
  · exact .unblockPeer
  · exact .blockPeer

theorem operatorSetControl_respects {sid : SessionId} {mode : ReceiveControl} :
    Respects Bookkeeping (operatorSetControl sid mode) :=
  Respects.transaction (Respects.bind .get fun _ => Respects.bind .require fun _ =>
    Respects.modify fun _ => .setControl)

theorem pendingForSession_respects {limit : Nat} :
    Respects Bookkeeping (pendingForSession now auth limit) :=
  Respects.bind assertCurrentEpoch_bookkeeping fun _ => Respects.bind .get fun _ => .pure _

/-! ## Posting -/

/-- The writes of a posting, in the order the three senders make them, with bookkeeping
    before, between and after. -/
theorem Posted.of_chain {b b₁ b₂ b₃ b₄ b₅ b' : Broker} {m : Message} {now : Iso}
    (first : TurnKeeping b b₁)
    (fresh : b.nextId ≤ m.messageId) (minted : m.messageId < b₁.nextId)
    (alloc : allocSequence m.recipientSessionId b₁ = (.ok m.recipientSequence, b₂))
    (second : TurnKeeping b₂ b₃) (insert : insertMessage m b₃ = (.ok (), b₄))
    (third : TurnKeeping b₄ b₅)
    (last : TurnKeeping (b₅.enqueue m.messageId m.recipientSessionId now) b') :
    Posted b b' m := by
  -- The two statements that may refuse, taken apart.
  simp only [allocSequence, Call.get_bind, Call.modify_bind, Call.bind_ok, Call.require_ok,
    Call.pure_ok] at alloc
  obtain ⟨_, _, ⟨howner, rfl⟩, hseq, rfl⟩ := alloc
  simp only [insertMessage, Call.get_bind, Call.bind_ok, Call.require_ok, Call.modify_ok]
    at insert
  obtain ⟨_, _, ⟨hnumber, rfl⟩, _, _, ⟨hkey, rfl⟩, rfl⟩ := insert
  -- All other steps keep the messages, the counters and the names.
  have hkept : b₃.messages = b.messages := second.messages.trans first.messages
  have hcount : b₁.nextSequence = b.nextSequence := by
    funext sid
    rw [Broker.nextSequence, Broker.nextSequence, first.recipientSequences]
  have hids : b₁.nextId ≤ b'.nextId :=
    second.ids.trans (third.ids.trans ((Nat.le_succ _).trans last.ids))
  refine ⟨fresh, Nat.lt_of_lt_of_le minted hids, ?_, ?_, ?_, ?_, ?_, ?_,
    ⟨b₅.nextId, now, ?_⟩, ?_, ?_, ?_, ?_, ?_, ?_⟩
  · rw [← isSome_core first.sessions]
    exact howner
  · rw [← hseq, hcount]
  · rw [last.recipientSequences, ← hcount, ← first.recipientSequences]
    exact third.recipientSequences.trans second.recipientSequences
  · rw [last.messages]
    show b₅.messages = _
    rw [third.messages]
    exact congrArg (· ++ [m]) hkept
  · intro x hx hsame
    rw [← hkept] at hx
    exact hnumber (List.any_eq_true.mpr ⟨x, hx, decide_eq_true hsame⟩)
  · refine hkey.imp id fun hnone x hx hsame => hnone ?_
    rw [← hkept] at hx
    exact List.any_eq_true.mpr ⟨x, hx, decide_eq_true hsame⟩
  · rw [last.deliveries]
    show b₅.deliveries ++ _ = _
    rw [third.deliveries]
    show b₃.deliveries ++ _ = _
    rw [second.deliveries]
    exact congrArg (· ++ _) first.deliveries
  · rw [last.sessions]
    exact third.sessions.trans (second.sessions.trans first.sessions)
  · rw [last.components]
    exact third.components.trans (second.components.trans first.components)
  · rw [last.nameOwnership]
    exact third.nameOwnership.trans (second.nameOwnership.trans first.nameOwnership)
  · rw [last.physicalMap]
    exact third.physicalMap.trans (second.physicalMap.trans first.physicalMap)
  · rw [last.injections]
    exact third.injections.trans (second.injections.trans first.injections)
  · have hbefore : b.receipts ⊆ b₃.receipts := List.Subset.trans first.receipts second.receipts
    exact List.Subset.trans hbefore (List.Subset.trans third.receipts last.receipts)

theorem SendKind.toMessageKind_ne_reply (k : SendKind) : k.toMessageKind ≠ .reply := by
  cases k <;> simp [SendKind.toMessageKind]

/-- What a new row takes from the call that made it, and what the call has checked of its
    recipient. -/
structure Authored (b : Broker) (author : AuthorType) (sender : SessionId) (text : String)
    (metadata : Option Metadata) (m : Message) : Prop where
  author : m.authorType = author
  sender : m.senderSessionId = sender
  text : m.text = text
  metadata : m.metadata = metadata
  reachable : b.isExpired m.recipientSessionId = false

/-- A send that posts: what it has checked, and the row it makes. -/
structure Sent (env : Env) (now : Iso) (auth : SessionAuthority) (input : SendInput) (b b' : Broker)
    (r : SendResult) (m : Message) : Prop where
  resolved : resolveRecipient env b input.recipient = .ok (m.recipientSessionId, m.recipientAlias)
  reachable : b.isExpired m.recipientSessionId = false
  unblocked : b.isBlocked env m.recipientSessionId
    (env.text.toLowerCase (b.aliasForSession auth.sessionId)) = false
  expiry : ttlExpiry now input.ttlSeconds = .ok m.expiresAt
  row : ∃ traceId sequence threadSequence, m = messageRow input auth.sessionId
    (b.aliasForSession auth.sessionId) (m.recipientSessionId, m.recipientAlias) .claude now b.nextId
    traceId b.nextId sequence threadSequence m.expiresAt none
  posted : Posted b b' m
  result : r = { messageId := m.messageId, correlationId := m.correlationId
                 recipientSessionId := m.recipientSessionId, recipientAlias := m.recipientAlias
                 sequence := m.recipientSequence, state := .queued, deduplicated := false }

/-- A send that answers replays a stored row, or posts a new one. -/
theorem send_posts {input : SendInput} {r : SendResult} {b' : Broker}
    (h : send env now auth input b = (.ok r, b')) :
    (∃ dup, b.duplicateOf auth.sessionId input.idempotencyKey = some dup ∧
        r = b.replaySend dup ∧ b' = b) ∨
      (b.duplicateOf auth.sessionId input.idempotencyKey = none ∧
        ∃ m, Sent env now auth input b b' r m) := by
  simp only [send, sendTransaction, Call.transaction_ok, Call.get_bind] at h
  cases hdup : b.duplicateOf auth.sessionId input.idempotencyKey with
  | some dup =>
    simp only [hdup, Call.bind_ok, Call.requireElse_ok, Call.pure_ok] at h
    obtain ⟨_, _, ⟨_, rfl⟩, rfl, rfl⟩ := h
    exact .inl ⟨dup, rfl, rfl, rfl⟩
  | none =>
    simp only [hdup, Call.bind_ok, Call.lift_ok, Call.requireElse_ok,
      Call.act_bind, Call.modify_bind,
      Call.pure_ok] at h
    obtain ⟨recipient, _, ⟨hto, rfl⟩, _, _, ⟨hlive, rfl⟩, _, _, ⟨hopen, rfl⟩, sequence, b₂, halloc,
      expiresAt, _, ⟨hexpiry, rfl⟩, _, b₄, hinsert, rfl, rfl⟩ := h
    -- The checks are passed: what is left is the chain of statements that post a turn.
    refine .inr ⟨rfl, _, hto, hlive, hopen, hexpiry, ⟨_, _, _, rfl⟩, Posted.of_chain
      (IsFrame.trans Bookkeeping.mint .mint : Bookkeeping _ _).toTurnKeeping ?_ ?_ halloc
      .openTurn hinsert .touchThread (IsFrame.trans Bookkeeping.refresh .audit :
        Bookkeeping _ _).toTurnKeeping, rfl⟩
    · exact Nat.le_refl _
    · exact Nat.lt_succ_of_lt (Nat.lt_succ_self _)

theorem send_ok {input : SendInput} {r : SendResult} {b' : Broker}
    (h : send env now auth input b = (.ok r, b')) :
    (r.deduplicated = true ∧ b' = b) ∨
      (r.deduplicated = false ∧ ∃ m, Posted b b' m ∧ m.kind ≠ .reply ∧
        r.messageId = m.messageId ∧ r.sequence = m.recipientSequence ∧
        Authored b .claude auth.sessionId input.text (input.metadata.map stringRecord) m) := by
  rcases send_posts h with ⟨dup, -, rfl, rfl⟩ | ⟨-, m, sent⟩
  · exact .inl ⟨rfl, rfl⟩
  · obtain ⟨traceId, sequence, threadSequence, hrow⟩ := sent.row
    have hresult := sent.result
    refine .inr ⟨by rw [hresult], m, sent.posted, ?_, by rw [hresult], by rw [hresult], ?_, ?_, ?_,
      ?_, sent.reachable⟩
    all_goals rw [hrow]
    · exact SendKind.toMessageKind_ne_reply _
    all_goals rfl

/-- The same for the operator's send. -/
theorem operatorSend_ok {input : OperatorSendInput} {r : SendResult} {b' : Broker}
    (h : operatorSend env now input b = (.ok r, b')) :
    (r.deduplicated = true ∧ b' = b) ∨
      (r.deduplicated = false ∧ ∃ m, Posted b b' m ∧ m.kind ≠ .reply ∧
        r.messageId = m.messageId ∧ r.sequence = m.recipientSequence ∧
        Authored b .operator operatorSessionId input.text (input.metadata.map stringRecord)
          m) := by
  simp only [operatorSend, Call.transaction_ok, Call.get_bind] at h
  cases hdup : b.duplicateOf operatorSessionId input.idempotencyKey with
  | some dup =>
    simp only [hdup, Call.pure_ok] at h
    obtain ⟨rfl, rfl⟩ := h
    exact .inl ⟨rfl, rfl⟩
  | none =>
    simp only [hdup, Call.bind_ok, Call.lift_ok, Call.require_ok, Call.act_bind,
      Call.modify_bind, Call.pure_ok] at h
    obtain ⟨recipient, _, ⟨_, rfl⟩, _, _, ⟨_, rfl⟩, _, _, ⟨hlive, rfl⟩, place, _, ⟨_, rfl⟩,
      sequence, b₂, halloc, expiresAt, _, ⟨_, rfl⟩, _, b₄, hinsert, rfl, rfl⟩ := h
    refine .inr ⟨rfl, _, Posted.of_chain (IsFrame.trans Bookkeeping.mint.toTurnKeeping
      (IsFrame.trans Bookkeeping.mint.toTurnKeeping (IsFrame.trans .openTurn .setSubject))) ?_ ?_
      halloc (IsFrame.refl _) hinsert .touchThread Bookkeeping.audit.toTurnKeeping,
        SendKind.toMessageKind_ne_reply _, rfl, rfl, rfl, rfl,
      rfl, rfl, hlive⟩
    · exact Nat.le_refl _
    · exact Nat.lt_of_lt_of_le (Nat.lt_succ_of_lt (Nat.lt_succ_self _))
        (IsFrame.trans (TurnKeeping.openTurn (b := b.mint.mint)) TurnKeeping.setSubject).ids

/-! ## Replying -/

/-- How a delivery comes out of the completing statement of `reply`. -/
def answered (mid : Id) (now : Iso) (d : Delivery) : Delivery :=
  if d.messageId = mid ∧ (d.state = .accepted ∨ d.state = .transportWritten) then
    { d with state := .completed, updatedAt := now }
  else d

/-- Where a reply that answers and is not a replay has gone: it was authorised, its row is
    posted to the asker, the delivery it answers has been through the completing statement,
    and the injection it used is marked. -/
structure Replied (env : Env) (now : Iso) (auth : SessionAuthority) (input : ReplyInput)
    (orig : Message) (b b' : Broker) (r : SendResult) : Prop where
  fresh : b.duplicateOf auth.sessionId input.idempotencyKey = none
  posted : ∃ b₁ row, Posted b b₁ row ∧ row.kind = .reply ∧
    row.causationId = some input.messageId ∧
    Authored b .claude auth.sessionId input.text (input.metadata.filter (·.truthy)) row ∧
    row.idempotencyKey = input.idempotencyKey ∧ row.recipientSessionId = orig.senderSessionId ∧
    r.replyMessageId = some row.messageId ∧ r.sequence = row.recipientSequence ∧
    b'.deliveries = b₁.deliveries.map (answered input.messageId now) ∧
    b'.messages = b₁.messages ∧ Moves env [.note, .restate, .consume] b₁ b'
  authorised : env.requireReceipt = true → ∃ i,
    authorize now .reply input.messageId auth.sessionId auth.epoch input.injectionId b = .ok i ∧
    b'.injections = (b.consume i.injectionId .reply).injections
  result : r.deduplicated = false
  receipt : ∃ x ∈ b'.receipts, x.messageId = input.messageId ∧ x.receiptType = .reply

theorem authorizeIfRequired_ok {op : ReceiptOp} {mid : Id} {given o : Option Id} {b' : Broker} :
    authorizeIfRequired env now op mid auth given b = (.ok o, b') ↔ b = b' ∧
      if env.requireReceipt then
        ∃ i, authorize now op mid auth.sessionId auth.epoch given b = .ok i ∧
          o = some i.injectionId
      else o = none := by
  simp only [authorizeIfRequired, Call.get_bind]
  split
  · simp only [Call.bind_ok, Call.lift_ok, Call.pure_ok]
    constructor
    · rintro ⟨i, _, ⟨hi, rfl⟩, rfl, rfl⟩
      exact ⟨rfl, i, hi, rfl⟩
    · rintro ⟨rfl, i, hi, rfl⟩
      exact ⟨i, b, ⟨hi, rfl⟩, rfl, rfl⟩
  · simp only [Call.pure_ok]
    exact ⟨fun h => ⟨h.2, h.1.symm⟩, fun h => ⟨h.2.symm, h.1⟩⟩

theorem moves_consumeIfAny {o : Option Id} {op : ReceiptOp} (hk : .consume ∈ K) :
    Moves env K b (b.consumeIfAny o op) := by
  cases o with
  | none => exact .refl
  | some i => exact .one hk (.consume i op)

theorem settleReply_moves {input : ReplyInput} {o : Option Id} :
    Moves env [.note, .restate, .consume] b (b.settleReply auth input now o) := by
  unfold Broker.settleReply
  extract_lets b₁ b₁' b₂
  have hcomplete : Moves env [.note, .restate, .consume] b b₁ :=
    .one (by simp) (.restate _ _ (fun _ => ⟨rfl, rfl⟩) (fun _ => by simp)
      fun d hd hc => by simp [hc] at hd)
  have hreceipt : Moves env [.note, .restate, .consume] b₁ b₂ :=
    .note (by simp) (IsFrame.trans Bookkeeping.mint (.addReceipts subset_insertOrIgnore))
  exact IsFrame.trans hcomplete (IsFrame.trans hreceipt (IsFrame.trans
    (moves_consumeIfAny (by simp)) (.note (by simp) (IsFrame.trans Bookkeeping.refresh .audit))))

theorem settleReply_deliveries {input : ReplyInput} {o : Option Id} :
    (b.settleReply auth input now o).deliveries =
      b.deliveries.map (answered input.messageId now) := by
  cases o <;>
    simp [Broker.settleReply, Broker.audit, Broker.refreshMeaningfulActivity,
      Broker.consumeIfAny, Broker.consume, Broker.mint, Broker.updateDeliveries, updateWhere,
      answered]

theorem settleReply_messages {input : ReplyInput} {o : Option Id} :
    (b.settleReply auth input now o).messages = b.messages := by
  cases o <;> rfl

theorem settleReply_receipt {input : ReplyInput} {o : Option Id} :
    ∃ x ∈ (b.settleReply auth input now o).receipts,
      x.messageId = input.messageId ∧ x.receiptType = .reply := by
  set row : Receipt := { messageId := input.messageId, receiverSessionId := auth.sessionId
                         receiptType := .reply, status := input.outcome } with hrow
  obtain ⟨x, hx, hkey⟩ : ∃ x ∈ insertOrIgnore (fun r : Receipt =>
      (r.messageId, r.receiverSessionId, r.receiptType)) row b.receipts,
      (x.messageId, x.receiverSessionId, x.receiptType) =
        (row.messageId, row.receiverSessionId, row.receiptType) := exists_key_insertOrIgnore
  refine ⟨x, ?_, congrArg Prod.fst hkey, congrArg (·.2.2) hkey⟩
  cases o <;> exact hx

theorem settleReply_injections {input : ReplyInput} {o : Option Id} :
    (b.settleReply auth input now o).injections = (b.consumeIfAny o .reply).injections := by
  cases o <;> rfl

/-- A reply that answers passed the fence, is to a message addressed to the caller, and
    either replays a row of the caller's own or has gone through in full. -/
theorem reply_ok {input : ReplyInput} {r : SendResult} {b' : Broker}
    (h : reply env now auth input b = (.ok r, b')) :
    b.epochOf auth.sessionId = some auth.epoch ∧
      ∃ orig, b.message? input.messageId = some orig ∧
        orig.recipientSessionId = auth.sessionId ∧
        ((∃ dup, b.duplicateOf auth.sessionId input.idempotencyKey = some dup ∧
            r.replyMessageId = some dup.messageId ∧ r.deduplicated = true ∧ b' = b) ∨
          Replied env now auth input orig b b' r) := by
  simp only [reply, replyTransaction, assertAllowed, Call.bind_ok, Call.require_ok,
    assertCurrentEpoch_ok,
    Call.transaction_ok, Call.get_bind, Call.orThrow_ok] at h
  obtain ⟨_, _, ⟨_, rfl⟩, _, _, ⟨hcur, rfl⟩, orig, _, ⟨horig, rfl⟩, _, _, ⟨hto, rfl⟩, h⟩ := h
  refine ⟨hcur, orig, horig, hto, ?_⟩
  -- An answer under the same key is given again; else one is written.
  cases hdup : b.duplicateOf auth.sessionId input.idempotencyKey with
  | some dup =>
    simp only [hdup, Call.pure_ok] at h
    obtain ⟨rfl, rfl⟩ := h
    exact .inl ⟨dup, rfl, rfl, rfl, rfl⟩
  | none =>
    simp only [hdup, Call.bind_ok, authorizeIfRequired_ok, Call.requireElse_ok,
      Call.modify_bind, Call.pure_ok] at h
    obtain ⟨injectionId, _, ⟨rfl, hauth⟩, _, _, ⟨hlive, rfl⟩, sequence, b₂, halloc, _, b₄,
      hinsert, rfl, rfl⟩ := h
    set row := replyRow auth input orig now b.nextId sequence
      (orig.threadId.getD orig.correlationId)
      (b.nextThreadSequence (orig.threadId.getD orig.correlationId))
    -- A reply takes the same chain of statements as a send.
    have hposted : Posted b (b₄.queueReply auth orig now b.nextId
        (orig.threadId.getD orig.correlationId)
        (b.nextThreadSequence (orig.threadId.getD orig.correlationId))) row :=
      Posted.of_chain Bookkeeping.mint.toTurnKeeping (Nat.le_refl _) (Nat.lt_succ_self _) halloc
        .allocThreadSequence hinsert (IsFrame.trans TurnKeeping.touchThread .participants)
        (IsFrame.refl _)
    refine .inr ⟨hdup, ⟨_, row, hposted, rfl, rfl, ⟨rfl, rfl, rfl, rfl, hlive⟩, rfl, rfl, rfl, rfl,
      settleReply_deliveries, settleReply_messages, settleReply_moves⟩, fun hreq => ?_, rfl,
      settleReply_receipt⟩
    rw [if_pos hreq] at hauth
    obtain ⟨i, hi, rfl⟩ := hauth
    refine ⟨i, hi, settleReply_injections.trans ?_⟩
    show updateWhere _ _ _ = updateWhere _ _ _
    rw [hposted.injections]

/-- A refused reply leaves an audit row at most. -/
theorem reply_refuses {input : ReplyInput} : Refuses Bookkeeping (reply env now auth input) :=
  Refuses.bind assertAllowed_respects fun _ =>
    Refuses.bind assertCurrentEpoch_bookkeeping fun _ => .transaction _

theorem reply_respects {input : ReplyInput} :
    Respects (Moves env [.note, .answer, .restate, .consume]) (reply env now auth input) := by
  refine reply_refuses.respects (fun _ _ => .note (by simp)) fun b r b' h => ?_
  obtain ⟨-, orig, -, -, ⟨dup, -, -, -, rfl⟩ | hr⟩ := reply_ok h
  · exact .refl
  · obtain ⟨b₁, row, hposted, hkind, -, -, -, -, -, -, -, -, hmoves⟩ := hr.posted
    exact IsFrame.trans (.one (by simp) (.answer row hposted hkind)) (hmoves.mono (by simp))

theorem send_respects {input : SendInput} :
    Respects (Moves env [.post]) (send env now auth input) := by
  refine Refuses.respects (.transaction _) (fun _ _ h => h) fun b r b' h => ?_
  obtain ⟨-, rfl⟩ | ⟨-, m, hposted, hkind, -, -⟩ := send_ok h
  · exact .refl
  · exact .one (by simp) (.post m hposted hkind)

theorem operatorSend_respects {input : OperatorSendInput} :
    Respects (Moves env [.post]) (operatorSend env now input) := by
  refine Refuses.respects (.transaction _) (fun _ _ h => h) fun b r b' h => ?_
  obtain ⟨-, rfl⟩ | ⟨-, m, hposted, hkind, -, -⟩ := operatorSend_ok h
  · exact .refl
  · exact .one (by simp) (.post m hposted hkind)

/-! ## Acknowledging and redelivering -/

theorem ack_respects {input : AckInput} :
    Respects (Moves env [.note, .restate, .consume]) (ack env now auth input) := by
  refine Respects.bind assertAllowed_respects fun _ => Respects.bind
    (respects_note (by simp) assertCurrentEpoch_bookkeeping) fun _ => Respects.transaction ?_
  refine Respects.bind .get fun b => Respects.bind .orThrow fun msg =>
    Respects.bind .require fun _ => ?_
  -- An acknowledgement that is on file is only answered; a new one settles the delivery.
  split
  · exact Respects.bind (.requireElse fun _ => .note (by simp) .audit) fun _ =>
      Respects.bind .orThrow fun _ => .pure _
  · have hauth : Respects (Moves env [.note, .restate, .consume])
        (authorizeIfRequired env now .ack input.messageId auth input.injectionId) :=
      Respects.bind .get fun _ => .ite (Respects.bind .lift fun _ => .pure _) (.pure _)
    refine Respects.bind hauth fun injectionId => Respects.bind
      (.requireElse fun _ => .note (by simp) .audit) fun _ => Respects.bind (.modify fun b => ?_)
      fun _ => Respects.bind (.modify fun b => .note (by simp) ?_) fun _ =>
      Respects.bind (.modify fun b => ?_) fun _ => .pure _
    · refine .one (by simp) (.restate _ _ (fun _ => ⟨rfl, rfl⟩) (fun d => ?_) fun d hd hc => ?_)
      · cases input.accept <;> simp
      · simp [hc] at hd
    · exact IsFrame.trans Bookkeeping.mint (.addReceipts (List.subset_append_left _ _))
    · exact IsFrame.trans (moves_consumeIfAny (by simp))
        (.note (by simp) (IsFrame.trans Bookkeeping.refresh .audit))

theorem redeliver_respects {mid : Id} :
    Respects (Moves env [.note, .reissue]) (redeliver env now auth mid) := by
  refine Respects.bind assertAllowed_respects fun _ => Respects.bind
    (respects_note (by simp) assertCurrentEpoch_bookkeeping) fun _ =>
    Respects.transaction_of_ok fun b r b' h => ?_
  simp only [Call.get_bind] at h
  cases hmsg : b.message? mid with
  | none =>
    simp only [hmsg, Call.pure_ok] at h
    exact h.2 ▸ .refl
  | some m =>
    have hid : m.messageId = mid := by simpa using List.find?_some hmsg
    subst hid
    simp only [hmsg] at h
    split at h
    · exact (Call.pure_ok.mp h).2 ▸ .refl
    · rename_i hto
      split at h
      · simp only [Call.modify_bind, Call.pure_ok] at h
        exact h.2 ▸ .note (by simp) .audit
      · rename_i hpres
        simp only [Call.act_bind, Call.bind_ok, Call.orThrow_ok, Call.modify_bind,
          Call.pure_ok] at h
        obtain ⟨id, _, ⟨-, rfl⟩, -, rfl⟩ := h
        exact IsFrame.trans
          (.one (by simp) (.reissue now auth m hmsg (not_not.mp hto) hpres))
          (.note (by simp) (IsFrame.trans Bookkeeping.refresh .audit))

/-! ## Pulling -/

/-- There is a delivery of the message to the session. -/
def Addressed (b : Broker) (sid : SessionId) (mid : Id) : Prop :=
  ∃ d ∈ b.deliveries, d.messageId = mid ∧ d.recipientSessionId = sid

/-- The checkpoint id stands for no other epoch of the caller's session. -/
def CleanFor (b : Broker) (auth : SessionAuthority) (ck : CheckpointId) : Prop :=
  ∀ i ∈ b.injections, Addressed b auth.sessionId i.messageId → i.checkpointId = ck →
    i.recipientEpoch = auth.epoch

/-- Every checkpoint id the broker minted is below the next one. -/
def MintedBelow (b : Broker) : Prop := ∀ i ∈ b.injections, MintedBefore i.checkpointId b.nextId

/-- A checkpoint id minted now is clean for everybody. -/
theorem MintedBelow.cleanFor {p : String} (h : MintedBelow b) :
    CleanFor b auth (.minted p b.nextId) := fun i hi _ hck =>
  absurd (h i hi p b.nextId hck) (Nat.lt_irrefl _)

theorem MintedBelow.bookkeeping {b b' : Broker} (h : MintedBelow b) (hb : Bookkeeping b b') :
    MintedBelow b' := fun i hi => by
  rw [hb.injections] at hi
  exact (h i hi).mono hb.ids

section InjectOne

variable {ck : CheckpointId} {m : Message} {r : Option Id × Broker}

theorem InjectSpec.addressed (h : InjectSpec env now auth ck m b r) {sid : SessionId} {mid : Id} :
    Addressed r.2 sid mid ↔ Addressed b sid mid := by
  obtain ⟨g, hdel, hg⟩ := h.deliveries
  simp only [Addressed, hdel, List.mem_map]
  constructor
  · rintro ⟨_, ⟨d, hd, rfl⟩, hm, hr⟩
    exact ⟨d, hd, (hg d).messageId.symm.trans hm, (hg d).recipient.symm.trans hr⟩
  · rintro ⟨d, hd, hm, hr⟩
    exact ⟨g d, ⟨d, hd, rfl⟩, (hg d).messageId.trans hm, (hg d).recipient.trans hr⟩

theorem InjectSpec.epochOf (h : InjectSpec env now auth ck m b r) (sid : SessionId) :
    r.2.epochOf sid = b.epochOf sid := epochOf_core h.rest.sessions sid

/-- An injection row of the result is an old one, or the one just recorded. -/
theorem InjectSpec.mem_injections (h : InjectSpec env now auth ck m b r) {i : Injection}
    (hi : i ∈ r.2.injections) :
    i ∈ b.injections ∨ ∃ id, r.1 = some id ∧ i = pulledRow env now auth ck m.messageId id := by
  cases hid : r.1 with
  | none =>
    rw [(h.silent hid).1] at hi
    exact .inl hi
  | some id =>
    rw [(h.presented id hid).2.2.1] at hi
    rcases List.mem_append.mp hi with hi | hi
    · exact .inl hi
    · exact .inr ⟨id, rfl, List.mem_singleton.mp hi⟩

theorem InjectSpec.injections_mono (h : InjectSpec env now auth ck m b r) {i : Injection}
    (hi : i ∈ b.injections) : i ∈ r.2.injections := by
  cases hid : r.1 with
  | none => rwa [(h.silent hid).1]
  | some id =>
    rw [(h.presented id hid).2.2.1]
    exact List.mem_append_left _ hi

theorem InjectSpec.cleanFor (h : InjectSpec env now auth ck m b r)
    (hc : CleanFor b auth ck) : CleanFor r.2 auth ck := by
  intro i hi haddr hck
  rcases h.mem_injections hi with hi | ⟨id, -, rfl⟩
  · exact hc i hi (h.addressed.mp haddr) hck
  · rfl

theorem InjectSpec.mintedBelow (h : InjectSpec env now auth ck m b r) (hb : MintedBelow b)
    (hck : MintedBefore ck b.nextId) : MintedBelow r.2 := by
  intro i hi
  rcases h.mem_injections hi with hi | ⟨id, -, rfl⟩
  · exact (hb i hi).mono h.rest.ids
  · exact hck.mono h.rest.ids

end InjectOne

/-- What a pull selects has a delivery that is addressed to the puller and waits. -/
theorem delivery_of_mem_pending {sid : SessionId} {limit : Nat} {m : Message}
    (h : m ∈ b.pendingForSessionId sid limit now) : ∃ d ∈ b.deliveries,
      d.messageId = m.messageId ∧ d.recipientSessionId = sid ∧ d.state.waiting = true := by
  have h := List.mem_of_mem_take h
  rw [Broker.eligible, List.mem_insertionSort] at h
  obtain ⟨d, hd, hm⟩ := List.mem_filterMap.mp (List.mem_of_mem_filter h)
  obtain ⟨hmem, hd⟩ := List.mem_filter.mp hd
  have hid : m.messageId = d.messageId := by simpa using List.find?_some hm
  simp only [decide_eq_true_eq] at hd
  exact ⟨d, hmem, hid.symm, hd.1, hd.2.1⟩

/-- What a pull selects is addressed to the puller. -/
theorem addressed_of_mem_pending {sid : SessionId} {limit : Nat} {m : Message}
    (h : m ∈ b.pendingForSessionId sid limit now) : Addressed b sid m.messageId := by
  obtain ⟨d, hd, hid, hsid, -⟩ := delivery_of_mem_pending h
  exact ⟨d, hd, hid, hsid⟩

theorem injectAll_moves {ck : CheckpointId} {audited clean : Bool} (ms : List Message)
    (b : Broker) (hcur : b.epochOf auth.sessionId = some auth.epoch)
    (haddr : ∀ m ∈ ms, Addressed b auth.sessionId m.messageId)
    (hck : MintedBefore ck b.nextId) (hclean : clean = true → CleanFor b auth ck) :
    Moves env [.inject clean] b (injectAll env now auth ck audited ms b).2 := by
  induction ms generalizing b with
  | nil => exact .refl
  | cons m ms ih =>
    have hspec := injectOne_spec env now auth ck audited m b
    have hone : Moves env [.inject clean] b (injectOne env now auth ck audited m b).2 :=
      .one (by simp) (.inject now auth ck audited m hcur (haddr m (by simp)) hck clean
        fun hc i hi hm hck => hclean hc i hi (hm ▸ haddr m (by simp)) hck)
    -- The first injection leaves the others as they were asked for.
    have hrest := ih (injectOne env now auth ck audited m b).2
      ((hspec.epochOf _).trans hcur)
      (fun x hx => hspec.addressed.mpr (haddr x (by simp [hx]))) (hck.mono hspec.rest.ids)
      (fun hc => hspec.cleanFor (hclean hc))
    simp only [injectAll]
    split <;> exact IsFrame.trans hone hrest

theorem pullForced_moves {ck : CheckpointId} {limit : Nat} {audited clean : Bool}
    (hcur : b.epochOf auth.sessionId = some auth.epoch) (hck : MintedBefore ck b.nextId)
    (hclean : clean = true → CleanFor b auth ck) :
    Moves env [.note, .inject clean] b
      (pullForced env now auth ck limit audited b).2 := by
  refine Respects.transaction_at fun r b' h => ?_
  obtain ⟨-, rfl⟩ := Prod.mk.inj (Call.act_ok.mp h)
  have hpull : Moves env [.inject clean] b (injectAll env now auth ck audited
      (b.pendingForSessionId auth.sessionId (min (max 1 limit) 50) now) b).2 :=
    injectAll_moves _ b hcur (fun m hm => addressed_of_mem_pending hm) hck hclean
  refine IsFrame.trans (hpull.mono (by simp)) ?_
  split
  · exact .refl
  · exact .note (by simp) .refresh

/-- A call behind the role check and the fence, followed from one state. -/
theorem gated_at {α : Type} {x : BrokerCall α} {role : ComponentRole} {op : Operation}
    (hk : .note ∈ K)
    (hx : b.epochOf auth.sessionId = some auth.epoch → Moves env K b (x b).2) :
    Moves env K b ((do
      assertAllowed role op
      assertCurrentEpoch auth
      x : BrokerCall α) b).2 := by
  refine Respects.bind_at (assertAllowed_respects b) fun _ t h => ?_
  obtain ⟨-, rfl⟩ := Call.require_ok.mp h
  refine Respects.bind_at (respects_note hk assertCurrentEpoch_bookkeeping b) fun _ t h => ?_
  obtain ⟨hcur, rfl⟩ := assertCurrentEpoch_ok.mp h
  exact hx hcur

theorem checkpointPull_moves {ck : CheckpointId} {limit : Nat} {clean : Bool}
    (hck : MintedBefore ck b.nextId) (hclean : clean = true → CleanFor b auth ck) :
    Moves env [.note, .inject clean] b (checkpointPull env now auth ck limit b).2 := by
  refine gated_at (by simp) fun hcur => ?_
  rw [Call.get_bind]
  split
  · split
    · exact pullForced_moves hcur hck hclean
    · exact .refl
  · exact .note (by simp) .audit

theorem processNext_moves {ck : CheckpointId} {clean : Bool}
    (hck : MintedBefore ck b.nextId) (hclean : clean = true → CleanFor b auth ck) :
    Moves env [.note, .inject clean] b (processNext env now auth ck b).2 := by
  refine gated_at (by simp) fun hcur => ?_
  rw [Call.get_bind]
  split
  · exact pullForced_moves hcur hck hclean
  · exact .note (by simp) .audit

theorem inboxView_moves {ck : CheckpointId} {limit : Nat} {clean : Bool}
    (hck : MintedBefore ck b.nextId) (hclean : clean = true → CleanFor b auth ck) :
    Moves env [.note, .inject clean] b (inboxView env now auth ck limit b).2 := by
  refine gated_at (by simp) fun _ => ?_
  exact Respects.bind_at (checkpointPull_moves hck hclean) fun fresh t _ => .refl

/-- The marking loop behind the daemon's `checkpoint_pull`: every message gets a checkpoint
    id of its own, so the loop is clean whenever minted ids are. -/
theorem markInjectedFor_moves {clean : Bool} (mids : List Id) (b : Broker)
    (hcur : b.epochOf auth.sessionId = some auth.epoch)
    (haddr : ∀ mid ∈ mids, Addressed b auth.sessionId mid)
    (hclean : clean = true → MintedBelow b) :
    Moves env [.note, .inject clean] b (markInjectedFor env now auth mids b).2 := by
  induction mids generalizing b with
  | nil => exact .refl
  | cons mid mids ih =>
    simp only [markInjectedFor]
    cases hmsg : b.message? mid with
    | none => exact ih b hcur (fun x hx => haddr x (by simp [hx])) hclean
    | some m =>
      have hid : m.messageId = mid := by simpa using List.find?_some hmsg
      have hmint : Bookkeeping b b.mint := .mint
      have haddr₁ : Addressed b.mint auth.sessionId m.messageId := by
        rw [hid]
        exact haddr mid (by simp)
      -- The checkpoint of each row is minted for it, so nothing was injected under it before.
      have hck := mintedBefore_mint b "mark-"
      have hspec := injectOne_spec env now auth (.minted "mark-" b.nextId) true m b.mint
      have hone : Moves env [.note, .inject clean] b.mint
          (injectOne env now auth (.minted "mark-" b.nextId) true m b.mint).2 :=
        Moves.one (k := .inject clean) (by simp) (.inject (b := b.mint) now auth _ true m hcur
          haddr₁ hck clean fun hc i hi _ hck => absurd (hclean hc i hi _ _ hck) (Nat.lt_irrefl _))
      have hrest := ih _ ((hspec.epochOf _).trans hcur)
        (fun x hx => hspec.addressed.mpr (haddr x (by simp [hx])))
        (fun hc => hspec.mintedBelow ((hclean hc).bookkeeping hmint) hck)
      have hall := IsFrame.trans (Moves.note (by simp) hmint) (IsFrame.trans hone hrest)
      dsimp only
      split <;> exact hall

theorem daemonCheckpointPull_moves {limit : Nat} {clean : Bool}
    (hclean : clean = true → MintedBelow b) :
    Moves env [.note, .inject clean] b (daemonCheckpointPull env now auth limit b).2 := by
  refine Respects.bind_at (respects_note (by simp) pendingForSession_respects b)
    fun pending t h => ?_
  simp only [pendingForSession, Call.bind_ok, assertCurrentEpoch_ok, Call.get_bind,
    Call.pure_ok] at h
  obtain ⟨_, _, ⟨hcur, rfl⟩, rfl, rfl⟩ := h
  have hmark : Moves env [.note, .inject clean] b (markInjected env now auth
      ((b.pendingForSessionId auth.sessionId limit now).map (·.messageId)) b).2 := by
    refine Respects.bind_at (respects_note (by simp) assertCurrentEpoch_bookkeeping b)
      fun _ t h => ?_
    obtain ⟨-, rfl⟩ := assertCurrentEpoch_ok.mp h
    refine Respects.transaction_at fun r b' h => ?_
    obtain ⟨-, rfl⟩ := Prod.mk.inj (Call.act_ok.mp h)
    refine markInjectedFor_moves _ b hcur (fun mid hmid => ?_) hclean
    obtain ⟨m, hm, rfl⟩ := List.mem_map.mp hmid
    exact addressed_of_mem_pending hm
  refine Respects.bind_at hmark fun marked t _ => ?_
  simp only [Call.modify_bind, Call.get_bind]
  show Moves env _ t (if marked.isEmpty then t else _)
  split
  · exact .refl
  · exact .note (by simp) .refresh

end Proof
end XBus
