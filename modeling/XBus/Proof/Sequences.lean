import XBus.Proof.Mail

/-!
# Recipient sequences

Each recipient numbers its messages. The counter is one row of `recipient_sequences`, made by
the first registration, replaced by every posting, and read as 1 where there is none; the
numbers given out are in `messages` for good. The invariant is that the counter is ahead of
them. Every move keeps it but one: the removal of a record deletes the counter and leaves the
messages, so that a session registered again under the same id counts from 1 and meets its
own old numbers at the unique index.

`sequences_ahead` is therefore about runs in which a record is removed only while no message
addressed to it is stored.
-/

set_option autoImplicit false

namespace XBus
namespace Proof

open Lib

variable {env : Env} {now : Iso} {auth : SessionAuthority} {k : Kind} {b b' : Broker}

/-- The counter of every recipient is ahead of its messages, and the numbers of one recipient
    increase in the order of posting. -/
structure SeqInv (b : Broker) : Prop where
  ahead : ∀ m ∈ b.messages, m.recipientSequence < b.nextSequence m.recipientSessionId
  increasing : b.messages.Pairwise fun m m' =>
    m.recipientSessionId = m'.recipientSessionId → m.recipientSequence < m'.recipientSequence

/-! ## Counters -/

/-- No message is added or lost, and no counter moves. -/
structure CountersKept (b b' : Broker) : Prop where
  messages : b'.messages = b.messages
  counters : ∀ r, b'.nextSequence r = b.nextSequence r

theorem CountersKept.of_eq (messages : b'.messages = b.messages)
    (rows : b'.recipientSequences = b.recipientSequences) : CountersKept b b' :=
  ⟨messages, fun r => by rw [Broker.nextSequence, Broker.nextSequence, rows]⟩

theorem CountersKept.mailOnly (h : MailOnly b b') : CountersKept b b' :=
  .of_eq h.messages h.recipientSequences

theorem CountersKept.namesOnly (h : NamesOnly b b') : CountersKept b b' :=
  .of_eq h.messages h.recipientSequences

/-- A fresh counter starts where a missing one is read. -/
theorem CountersKept.of_insertOrIgnore {sid : SessionId} (messages : b'.messages = b.messages)
    (rows : b'.recipientSequences = insertOrIgnore (·.recipientSessionId)
      { recipientSessionId := sid, nextSequence := 1 } b.recipientSequences) :
    CountersKept b b' := by
  refine ⟨messages, fun r => ?_⟩
  rw [Broker.nextSequence, Broker.nextSequence, rows, find?_insertOrIgnore]
  cases b.recipientSequences.find? fun x => x.recipientSessionId = r with
  | some x => rfl
  | none =>
    by_cases h : r = sid
    · simp [h]
    · simp [h]

/-- A posting moves the counter of its recipient on by one. -/
theorem Posted.nextSequence {m : Message} (h : Posted b b' m) (r : SessionId) :
    b'.nextSequence r =
      if r = m.recipientSessionId then b.nextSequence r + 1 else b.nextSequence r := by
  rw [Broker.nextSequence, h.recipientSequences, find?_insertOrReplace]
  by_cases hr : r = m.recipientSessionId
  · simp [hr]
  · simp [hr, Broker.nextSequence]

/-- What a move other than a removal does to messages and counters. -/
theorem Move.counters (h : Move env k b b') (hk : k ≠ .remove) :
    (∃ m, Posted b b' m) ∨ CountersKept b b' := by
  -- Only a post and an answer number a message.
  cases h with
  | note h => exact .inr (.of_eq h.messages h.recipientSequences)
  | restate => exact .inr (.of_eq rfl rfl)
  | redrive => exact .inr (.of_eq rfl rfl)
  | consume => exact .inr (.of_eq rfl rfl)
  | inject now auth ck audited m =>
    exact .inr (.mailOnly (injectOne_spec env now auth ck audited m b).rest)
  | reissue => exact .inr (.mailOnly (IsFrame.trans (.of_bookkeeping .mint) .issue))
  | post m h => exact .inl ⟨m, h⟩
  | answer m h => exact .inl ⟨m, h⟩
  | create input =>
    obtain ⟨as, es, n, hb', -⟩ := createSession_eq b env input
    rw [hb']
    exact .inr (.of_insertOrIgnore rfl rfl)
  | dormant sid mode rs absent counter =>
    rcases counter with rfl | rfl
    · exact .inr (.of_eq rfl rfl)
    · exact .inr (.of_insertOrIgnore rfl rfl)
  | @advance _ now sid resume s =>
    obtain ⟨is, as, es, n, hb', -⟩ := advanceEpoch_eq b env now sid (s.activeEpoch + 1) resume
    rw [hb']
    exact .inr (.of_eq rfl rfl)
  | join =>
    rw [joinEpoch_eq]
    exact .inr (.of_eq rfl rfl)
  | component => exact .inr (.of_eq rfl rfl)
  | redirect => exact .inr (.of_eq rfl rfl)
  | claim => exact .inr (.namesOnly .claim)
  | rename => exact .inr (.namesOnly .rename)
  | operatorRename => exact .inr (.namesOnly .operatorRename)
  | reclaim => exact .inr (.namesOnly (IsFrame.trans NamesOnly.forfeit .rename))
  | tombstone sid now =>
    obtain ⟨as, es, ds, hb', -⟩ := tombstone_eq b sid now
    rw [hb']
    exact .inr (.of_eq rfl rfl)
  | lapse => exact .inr (.namesOnly .lapse)
  | close => exact .inr (.of_eq rfl rfl)
  | remove => exact absurd rfl hk
  | operator =>
    unfold Broker.ensureOperatorSession
    split
    · exact .inr (.of_insertOrIgnore rfl rfl)
    · exact .inr (.of_insertOrIgnore rfl rfl)

/-! ## The invariant -/

theorem CountersKept.keeps (h : CountersKept b b') (inv : SeqInv b) : SeqInv b' := by
  refine ⟨fun m hm => ?_, h.messages ▸ inv.increasing⟩
  rw [h.counters]
  exact inv.ahead m (h.messages ▸ hm)

theorem Posted.seqInv {m : Message} (h : Posted b b' m) (inv : SeqInv b) : SeqInv b' := by
  refine ⟨fun x hx => ?_, ?_⟩
  · rw [h.nextSequence]
    rw [h.messages, List.mem_append, List.mem_singleton] at hx
    rcases hx with hx | rfl
    · have hlt := inv.ahead x hx
      split
      · exact hlt.trans (Nat.lt_succ_self _)
      · exact hlt
    · rw [if_pos rfl, h.sequence]
      exact Nat.lt_succ_self _
  · rw [h.messages, List.pairwise_append]
    refine ⟨inv.increasing, List.pairwise_singleton _ _, fun x hx y hy hto => ?_⟩
    obtain rfl := List.mem_singleton.mp hy
    rw [h.sequence, ← hto]
    exact inv.ahead x hx

/-- A removal keeps the invariant when no message is addressed to the removed session. -/
theorem SeqInv.deleteSession {sid : SessionId} (inv : SeqInv b)
    (hempty : ∀ m ∈ b.messages, m.recipientSessionId ≠ sid) :
    SeqInv (b.deleteSession sid now) := by
  refine ⟨fun m hm => ?_, inv.increasing⟩
  have hne : m.recipientSessionId ≠ sid := hempty m hm
  have hcounter : (b.deleteSession sid now).nextSequence m.recipientSessionId =
      b.nextSequence m.recipientSessionId := by
    have hrows : (b.deleteSession sid now).recipientSequences =
        b.recipientSequences.filter fun r => r.recipientSessionId ≠ sid := rfl
    rw [Broker.nextSequence, hrows, find?_deleted, if_neg hne, Broker.nextSequence]
  rw [hcounter]
  exact inv.ahead m hm

/-- The session a removal would delete. -/
def removalOf (b : Broker) : Op → Option SessionId
  | .operatorRemoveRecord sid =>
    if sid ≠ operatorSessionId ∧ (b.session? sid).any fun s => s.state ≠ .connected then some sid
    else none
  | _ => none

/-- A record is removed only while no message addressed to it is stored. -/
def RemovesEmptyInbox (b : Broker) (e : Event) : Prop :=
  ∀ sid ∈ (removalOf b e.1).toList, ∀ m ∈ b.messages, m.recipientSessionId ≠ sid

instance (b : Broker) (e : Event) : Decidable (RemovesEmptyInbox b e) :=
  inferInstanceAs (Decidable (∀ sid ∈ _, ∀ m ∈ _, _))

theorem SeqInv.moves {kinds : List Kind} (inv : SeqInv b) (h : Moves env kinds b b')
    (hk : .remove ∉ kinds) : SeqInv b' := by
  refine h.keeps inv fun u u' k hmem hmove hu => ?_
  rcases Move.counters hmove (fun heq => hk (heq ▸ hmem)) with ⟨m, hposted⟩ | hkept
  · exact hposted.seqInv hu
  · exact hkept.keeps hu

theorem SeqInv.step (inv : SeqInv b) {e : Event} (hok : RemovesEmptyInbox b e) :
    SeqInv (step env b e).2 := by
  have hother (h : .remove ∉ kindsOf false e.1) : SeqInv (XBus.step env b e).2 :=
    inv.moves (exec_moves env e.2 e.1 b false (by simp)) h
  obtain ⟨op, mom⟩ := e
  cases op with
  | operatorRemoveRecord sid =>
    show SeqInv (exec env mom (.operatorRemoveRecord sid) b).2
    rw [show (exec env mom (.operatorRemoveRecord sid) b).2 =
      (operatorRemoveRecord mom.now sid b).2 from Call.map_snd]
    rcases hr : operatorRemoveRecord mom.now sid b with ⟨f | found, b'⟩
    · exact operatorRemoveRecord_refuses b f b' hr ▸ inv
    · obtain ⟨hmortal, ⟨-, -, rfl⟩ | ⟨s, -, hs, hidle, rfl⟩⟩ := operatorRemoveRecord_ok hr
      · exact inv
      · refine inv.deleteSession (hok sid ?_)
        simp [removalOf, hmortal, hs, hidle]
  | _ => exact hother (by simp [kindsOf, registerKinds])

theorem seqInv_initial : SeqInv (initial env) := by
  have hempty : SeqInv {} := ⟨by simp, .nil⟩
  have hmove : Moves env [.operator] {} (initial env) := .one (by simp) .operator
  exact hempty.moves hmove (by simp)

/-! ## The unique index -/

/-- Anything but a violation of `ux_recipseq`. -/
def NoClash (f : Failure) : Prop := f ≠ .sqlite .recipientSequence

theorem noClash_xbus {code : ErrorCode} {message : String} {detail : List (String × String)} :
    NoClash (xbusError code message detail) := fun h => by cases h

theorem allocSequence_noClash {sid : SessionId} : ThrowsOnly NoClash (allocSequence sid) b :=
  .bind .get fun _ _ _ => .bind (.require fun _ h => by cases h) fun _ _ _ =>
    .bind .modify fun _ _ _ => .pure _

/-- A number that was just allocated is free. -/
theorem SeqInv.insertMessage_noClash (inv : SeqInv b) {m : Message} {b₁ b₂ b₃ : Broker}
    (first : TurnKeeping b b₁)
    (alloc : allocSequence m.recipientSessionId b₁ = (.ok m.recipientSequence, b₂))
    (second : TurnKeeping b₂ b₃) : ThrowsOnly NoClash (insertMessage m) b₃ := by
  simp only [allocSequence, Call.get_bind, Call.modify_bind, Call.bind_ok, Call.require_ok,
    Call.pure_ok] at alloc
  obtain ⟨_, _, ⟨-, rfl⟩, hseq, rfl⟩ := alloc
  have hmsgs : b₃.messages = b.messages := second.messages.trans first.messages
  have hcount : b.nextSequence m.recipientSessionId = m.recipientSequence := by
    rw [← hseq, Broker.nextSequence, Broker.nextSequence, first.recipientSequences]
  refine .bind .get fun u t h => ?_
  obtain ⟨rfl, rfl⟩ := Call.get_ok.mp h
  refine .bind (.require fun hclash => ?_) fun _ _ _ =>
    .bind (.require fun _ h => by cases h) fun _ _ _ => .modify
  rw [not_not, hmsgs] at hclash
  obtain ⟨x, hx, hsame⟩ := List.any_eq_true.mp hclash
  simp only [decide_eq_true_eq] at hsame
  have hlt := inv.ahead x hx
  rw [hsame.1, hcount, hsame.2] at hlt
  exact absurd hlt (Nat.lt_irrefl _)

theorem noClash_of_code {f : Failure} {code : ErrorCode} (h : f.code? = some code) :
    NoClash f := by
  rintro rfl
  cases h

theorem parseRecipient_code {raw : String} {f : Failure}
    (h : parseRecipient env.text raw = .error f) :
    f.code? = some .unknownRecipient ∨ f.code? = some .invalidAlias := by
  have hpart (part : String) (f : Failure) (h : validateRecipientAliasPart part = .error f) :
      f.code? = some .unknownRecipient ∨ f.code? = some .invalidAlias := by
    unfold validateRecipientAliasPart at h
    split at h
    · cases h
    · cases h
      exact .inr rfl
  unfold parseRecipient at h
  dsimp only at h
  split at h
  · cases h
    exact .inl rfl
  · split at h
    · cases h
    · split at h
      · rename_i part _
        cases hp : validateRecipientAliasPart (env.text.trim raw) with
        | ok u => simp [hp, bind, Except.bind] at h
        | error e =>
          simp only [hp, bind, Except.bind, Except.error.injEq] at h
          exact h ▸ hpart _ e hp
      · rename_i project handle _
        cases hp : validateRecipientAliasPart (String.ofList project) with
        | error e =>
          simp only [hp, bind, Except.bind, Except.error.injEq] at h
          exact h ▸ hpart _ e hp
        | ok u =>
          cases hq : validateRecipientAliasPart (String.ofList handle) with
          | error e =>
            simp only [hp, hq, bind, Except.bind, Except.error.injEq] at h
            exact h ▸ hpart _ e hq
          | ok u => simp [hp, hq, bind, Except.bind] at h
      · cases h
        exact .inr rfl

/-- A recipient that does not resolve: a malformed name, an unknown one, or an ambiguous one. -/
theorem resolveRecipient_code {raw : String} {f : Failure}
    (h : resolveRecipient env b raw = .error f) :
    f.code? = some .unknownRecipient ∨ f.code? = some .invalidAlias ∨
      f.code? = some .ambiguousRecipient := by
  unfold resolveRecipient at h
  split at h
  · rename_i e hparse
    cases h
    exact (parseRecipient_code hparse).imp_right .inl
  · split at h
    · cases h
      exact .inl rfl
    · cases h
  · dsimp only at h
    split at h
    · cases h
      exact .inl rfl
    · cases h
    · cases h
      exact .inr (.inr rfl)
  · split at h
    · cases h
      exact .inl rfl
    · cases h
    · cases h
      exact .inr (.inr rfl)

theorem resolveRecipient_noClash {raw : String} {f : Failure}
    (h : resolveRecipient env b raw = .error f) : NoClash f := by
  rcases resolveRecipient_code h with hc | hc | hc <;> exact noClash_of_code hc

theorem ttlExpiry_noClash {ttl : Option Nat} {f : Failure} (h : ttlExpiry now ttl = .error f) :
    NoClash f := by
  unfold ttlExpiry at h
  split at h
  · cases h
  · cases h
  · split at h
    · cases h
    · cases h
      exact fun h => by cases h

theorem placeTurn_noClash {input : OperatorSendInput} {sid : SessionId} {mid : Id} {f : Failure}
    (h : placeTurn input sid mid b = .error f) : NoClash f := by
  unfold placeTurn at h
  split at h
  · cases h
  · split at h
    · cases h
      exact noClash_xbus
    · split at h
      · cases h
        exact noClash_xbus
      · split at h
        · cases h
          exact noClash_xbus
        · dsimp only at h
          split at h
          · rename_i e hparent
            cases h
            split at hparent
            · split at hparent
              · cases hparent
              · cases hparent
                exact noClash_xbus
            · cases hparent
          · split at h
            · cases h
              exact noClash_xbus
            · cases h

/-- What a missing or unfit injection is refused with. -/
theorem authorize_code {op : ReceiptOp} {mid : Id} {sid : SessionId} {epoch : Nat}
    {given : Option Id} {f : Failure} (h : authorize now op mid sid epoch given b = .error f) :
    ∃ code ∈ [ErrorCode.injectionNotFound, .notRecipient, .epochMismatch, .receiptExpired,
      .receiptReplayed], f.code? = some code := by
  unfold authorize at h
  split at h
  · cases h
    exact ⟨_, by simp, rfl⟩
  · repeat' split at h
    all_goals cases h
    all_goals exact ⟨_, by simp, rfl⟩

theorem authorizeIfRequired_code {op : ReceiptOp} {mid : Id} {given : Option Id} :
    ThrowsOnly (fun f => ∃ code ∈ [ErrorCode.injectionNotFound, .notRecipient, .epochMismatch,
      .receiptExpired, .receiptReplayed], f.code? = some code)
      (authorizeIfRequired env now op mid auth given) b := by
  refine .bind .get fun _ t h => ?_
  split
  · exact .bind (.lift fun _ => authorize_code) fun _ _ _ => .pure _
  · exact .pure _

theorem SeqInv.send_noClash (inv : SeqInv b) {input : SendInput} :
    ThrowsOnly NoClash (send env now auth input) b := by
  refine .transaction (.bind .get fun b₀ t h => ?_)
  obtain ⟨rfl, rfl⟩ := Call.get_ok.mp h
  cases hdup : b.duplicateOf auth.sessionId input.idempotencyKey with
  | some dup =>
    exact .bind (.requireElse fun _ => noClash_xbus) fun _ _ _ => .pure _
  | none =>
    refine .bind (.lift fun _ => resolveRecipient_noClash) fun recipient t h => ?_
    obtain ⟨-, rfl⟩ := Call.lift_ok.mp h
    refine .bind (.requireElse fun _ => noClash_xbus) fun _ t h => ?_
    obtain ⟨-, rfl⟩ := Call.requireElse_ok.mp h
    refine .bind (.requireElse fun _ => noClash_xbus) fun _ t h => ?_
    obtain ⟨-, rfl⟩ := Call.requireElse_ok.mp h
    refine .bind .act fun messageId t h => ?_
    obtain ⟨rfl, rfl⟩ := Prod.mk.inj (Call.act_ok.mp h)
    refine .bind .act fun traceId t h => ?_
    obtain ⟨rfl, rfl⟩ := Prod.mk.inj (Call.act_ok.mp h)
    refine .bind allocSequence_noClash fun sequence b₂ halloc => ?_
    refine .bind (.lift fun _ => ttlExpiry_noClash) fun expiresAt t h => ?_
    obtain ⟨-, rfl⟩ := Call.lift_ok.mp h
    refine .bind .act fun threadSequence t h => ?_
    obtain ⟨rfl, rfl⟩ := Prod.mk.inj (Call.act_ok.mp h)
    refine .bind (inv.insertMessage_noClash
      (IsFrame.trans Bookkeeping.mint .mint : Bookkeeping _ _).toTurnKeeping halloc
      .openTurn) fun _ _ _ => .bind .modify fun _ _ _ => .pure _

theorem SeqInv.operatorSend_noClash (inv : SeqInv b) {input : OperatorSendInput} :
    ThrowsOnly NoClash (operatorSend env now input) b := by
  refine .transaction (.bind .get fun b₀ t h => ?_)
  obtain ⟨rfl, rfl⟩ := Call.get_ok.mp h
  cases hdup : b.duplicateOf operatorSessionId input.idempotencyKey with
  | some dup => exact .pure _
  | none =>
    refine .bind (.lift fun _ => resolveRecipient_noClash) fun recipient t h => ?_
    obtain ⟨-, rfl⟩ := Call.lift_ok.mp h
    refine .bind (.require fun _ => noClash_xbus) fun _ t h => ?_
    obtain ⟨-, rfl⟩ := Call.require_ok.mp h
    refine .bind (.require fun _ => noClash_xbus) fun _ t h => ?_
    obtain ⟨-, rfl⟩ := Call.require_ok.mp h
    refine .bind .act fun messageId t h => ?_
    obtain ⟨rfl, rfl⟩ := Prod.mk.inj (Call.act_ok.mp h)
    refine .bind .act fun traceId t h => ?_
    obtain ⟨rfl, rfl⟩ := Prod.mk.inj (Call.act_ok.mp h)
    refine .bind (.lift fun _ => placeTurn_noClash) fun place t h => ?_
    obtain ⟨-, rfl⟩ := Call.lift_ok.mp h
    refine .bind .act fun threadSequence t h => ?_
    obtain ⟨rfl, rfl⟩ := Prod.mk.inj (Call.act_ok.mp h)
    refine .bind allocSequence_noClash fun sequence b₂ halloc => ?_
    refine .bind (.lift fun _ => ttlExpiry_noClash) fun expiresAt t h => ?_
    obtain ⟨-, rfl⟩ := Call.lift_ok.mp h
    refine .bind (inv.insertMessage_noClash (IsFrame.trans Bookkeeping.mint.toTurnKeeping
      (IsFrame.trans Bookkeeping.mint.toTurnKeeping (IsFrame.trans .openTurn .setSubject))) halloc
        (IsFrame.refl _))
      fun _ _ _ => .bind .modify fun _ _ _ => .pure _

theorem SeqInv.reply_noClash (inv : SeqInv b) {input : ReplyInput} :
    ThrowsOnly NoClash (reply env now auth input) b := by
  refine .bind (.require fun _ => noClash_xbus) fun _ t h => ?_
  obtain ⟨-, rfl⟩ := Call.require_ok.mp h
  have hfence : ThrowsOnly NoClash (assertCurrentEpoch auth) b :=
    .bind .get fun _ _ _ => .bind (.orThrow noClash_xbus) fun _ _ _ =>
      .requireElse fun _ => noClash_xbus
  refine .bind hfence fun _ t h => ?_
  obtain ⟨-, rfl⟩ := assertCurrentEpoch_ok.mp h
  refine .transaction (.bind .get fun b₀ t h => ?_)
  obtain ⟨rfl, rfl⟩ := Call.get_ok.mp h
  refine .bind (.orThrow noClash_xbus) fun orig t h => ?_
  obtain ⟨-, rfl⟩ := Call.orThrow_ok.mp h
  refine .bind (.require fun _ => noClash_xbus) fun _ t h => ?_
  obtain ⟨-, rfl⟩ := Call.require_ok.mp h
  -- The checks have codes of their own; the insert meets no number that is taken.
  cases hdup : b.duplicateOf auth.sessionId input.idempotencyKey with
  | some dup => exact .pure _
  | none =>
    refine .bind (authorizeIfRequired_code.mono ?_) fun injectionId t h => ?_
    · rintro f _ ⟨code, -, hcode⟩
      exact noClash_of_code hcode
    obtain ⟨rfl, -⟩ := authorizeIfRequired_ok.mp h
    refine .bind (.requireElse fun _ => noClash_xbus) fun _ t h => ?_
    obtain ⟨-, rfl⟩ := Call.requireElse_ok.mp h
    refine .bind .modify fun _ t h => ?_
    obtain rfl := Call.modify_ok.mp h
    refine .bind allocSequence_noClash fun sequence b₂ halloc => ?_
    refine .bind .modify fun _ t h => ?_
    obtain rfl := Call.modify_ok.mp h
    exact .bind (inv.insertMessage_noClash Bookkeeping.mint.toTurnKeeping halloc
      .allocThreadSequence) fun _ _ _ => .bind .modify fun _ _ _ => .pure _

/-- **Sequences stay ahead.** In every run that removes only records no stored message is
    addressed to: the number the next message to a recipient gets is above the number of every
    message stored for it, so no send and no reply fails on the unique index, and the numbers
    of one recipient increase strictly in the order of sending. -/
theorem sequences_ahead {log : List (Event × Except Failure Response)}
    (run : Run (step env) RemovesEmptyInbox (initial env) log b) :
    (∀ r, ∀ m ∈ b.messages, m.recipientSessionId = r → m.recipientSequence < b.nextSequence r) ∧
    (∀ now auth input, (send env now auth input b).1 ≠ .error (.sqlite .recipientSequence)) ∧
    (∀ now input, (operatorSend env now input b).1 ≠ .error (.sqlite .recipientSequence)) ∧
    (∀ now auth input, (reply env now auth input b).1 ≠ .error (.sqlite .recipientSequence)) ∧
    b.messages.Pairwise fun m m' =>
      m.recipientSessionId = m'.recipientSessionId →
        m.recipientSequence < m'.recipientSequence := by
  have inv : SeqInv b := run.invariant seqInv_initial fun _ _ hu hok => hu.step hok
  have hclear {α : Type} {x : BrokerCall α} (h : ThrowsOnly NoClash x b) :
      (x b).1 ≠ .error (.sqlite .recipientSequence) := by
    intro hx
    exact h _ (x b).2 (Prod.ext hx rfl) rfl
  refine ⟨fun r m hm hr => hr ▸ inv.ahead m hm, fun now auth input => hclear inv.send_noClash,
    fun now input => hclear inv.operatorSend_noClash,
    fun now auth input => hclear inv.reply_noClash, inv.increasing⟩

/-- `beta`'s connection closes, and its record is removed. -/
def removeBeta : List Event :=
  [ (.connClosed (component "beta" .mcp 1 2) 2, { nowMs := 2000 }),
    (.operatorRemoveRecord "beta", { nowMs := 2001 }) ]

/-- `beta` registers again, under the same id. -/
def betaAgain : List Event :=
  [ (.register { sessionId := "beta", connectionId := 3, processId := 3
                 requestedSessionName := some "beta-name" }, { nowMs := 3000 }) ]

/-- The message of concrete runs. -/
def toBeta : SendInput := { recipient := "beta-name", text := "again" }

/-- A record removed before it has received anything: the session registered again receives
    as if for the first time. -/
theorem removed_empty_inbox_receives :
    let b := (runAll (step plainEnv) (initial plainEnv)
      (requestSent.take 3 ++ removeBeta ++ betaAgain ++ requestSent.drop 3)).2
    b.messages.map (·.recipientSequence) = [1] ∧
      (∀ m ∈ b.messages, m.recipientSessionId = "beta" → m.recipientSequence <
        b.nextSequence "beta") ∧
      (send plainEnv ⟨4000⟩ (component "alpha" .mcp 1 1) toBeta b).1 ≠
        .error (.sqlite .recipientSequence) := by
  intro b
  have hrun : Run (step plainEnv) RemovesEmptyInbox (initial plainEnv) _ b :=
    Run.of_runAll _ (by decide +kernel)
  obtain ⟨hahead, hsend, -⟩ := sequences_ahead hrun
  exact ⟨by decide +kernel, hahead "beta", hsend ⟨4000⟩ (component "alpha" .mcp 1 1) toBeta⟩

/-- `beta` has a message, is removed and registers again: its counter is back at 1, which the
    stored message has, and every send to it runs into the unique index. -/
theorem removed_record_restarts_sequence :
    ∃ log b, Run (step plainEnv) Any (initial plainEnv) log b ∧
      (∃ m ∈ b.messages, m.recipientSessionId = "beta" ∧
        ¬ m.recipientSequence < b.nextSequence "beta") ∧
      (send plainEnv ⟨4000⟩ (component "alpha" .mcp 1 1) toBeta b).1 =
        .error (.sqlite .recipientSequence) := by
  refine ⟨_, _, Run.of_events (step plainEnv) (initial plainEnv)
    (requestSent ++ removeBeta ++ betaAgain), ?_, ?_⟩
  · decide +kernel
  · decide +kernel

end Proof
end XBus
