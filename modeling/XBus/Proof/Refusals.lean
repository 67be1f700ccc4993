import XBus.Proof.Replies
import XBus.Proof.Sequences

/-!
# Refusals that are audited

Several operations write to the audit trail and then throw. `auditOf` lists them: the operation and
what it throws, with the type of the row. Each of them writes its row inside the transaction that
its own exception then aborts (`connection.ts` rolls back and rethrows), so the row never reaches
the committed database. `transactionOf` is the body of that transaction, run without the rollback:
there the row is.
-/

set_option autoImplicit false

namespace XBus

open Lib

/-- The row that is written before the operation throws. -/
def auditOf : Op → Failure → Option AuditType
  | .send _ _, f =>
    if f.code? = some .recipientSessionExpired then some .sendRejectedRecipientExpired
    else if f.code? = some .blocked then some .blockedSendRejected
    else none
  | .reply _ _, f =>
    if f.code? = some .recipientSessionExpired then some .replyRejectedRecipientExpired else none
  | .ack _ _, f =>
    if f = xbusError .illegalStateTransition "conflicting acknowledgement" then
      some .conflictingAckRejected
    else if f.code? = some .illegalStateTransition then some .casConflict
    else none
  | .register _, f =>
    if f.code? = some .sessionAlreadyActive then some .sessionAlreadyActive else none
  | .operatorRedeliver _ _, f =>
    if f = xbusError .illegalStateTransition
        "replaying already-accepted work is destructive/duplicate; pass confirmReplayAccepted to proceed"
      then some .operatorAcceptedReplayRefusedUnconfirmed
    else none
  | .registerAlias _ _, f =>
    if f.code? = some .epochMismatch then some .epochMismatchRejected else none
  | _, _ => none

/-- The body of an operation's transaction, once what comes before it has passed. -/
def transactionOf (env : Env) (mom : Moment) : Op → Option (BrokerCall Unit)
  | .send auth input => some ((fun _ => ()) <$> sendTransaction env mom.now auth input)
  | .reply auth input => some ((fun _ => ()) <$> replyTransaction env mom.now auth input)
  | .ack auth input => some ((fun _ => ()) <$> ackTransaction env mom.now auth input)
  | .register input => some ((fun _ => ()) <$> registerTransaction env mom input)
  | .operatorRedeliver mid confirm =>
    some ((fun _ => ()) <$> operatorRedeliverTransaction mom.now mid confirm)
  | .registerAlias auth raw =>
    match validateUserAlias env.text raw with
    | .ok handle => some ((fun _ => ()) <$> registerAliasTransaction auth handle)
    | .error _ => none
  | _ => none

/-- A row of the type has been added to the audit trail. -/
def Audited (t : AuditType) (b b' : Broker) : Prop :=
  ∃ e ∈ b'.auditEvents.drop b.auditEvents.length, e.eventType = t

namespace Proof

variable {env : Env} {mom : Moment} {now : Iso} {auth : SessionAuthority} {b b' : Broker}

theorem operatorRedeliver_refuses {mid : Id} {confirm : Bool} :
    Refuses Eq (operatorRedeliver now mid confirm) :=
  Refuses.transaction _

/-- Only a stale epoch is recorded, before the transaction opens. -/
theorem ack_refuses_auditTrail {input : AckInput} : Refuses AuditTrail (ack env now auth input) :=
  Refuses.bind assertAllowed_respects fun _ =>
    Refuses.bind assertCurrentEpoch_auditTrail fun _ => .transaction _

/-! ## What the body writes before it throws -/

theorem audited_audit {t : AuditType} {sid : Option SessionId} {mid : Option Id} {c : Broker}
    (h : c.auditEvents = b.auditEvents) : Audited t b (c.audit t sid mid) :=
  ⟨{ eventType := t, sessionId := sid, messageId := mid }, by simp [Broker.audit, h], rfl⟩

/-- The row that goes with the exception is in the audit trail. -/
def Heard (op : Op) (b : Broker) (f : Failure) (c : Broker) : Prop :=
  ∀ t, auditOf op f = some t → Audited t b c

theorem heard_of_none {op : Op} {f : Failure} {c : Broker} (h : auditOf op f = none) :
    Heard op b f c := by
  intro t ht
  rw [h] at ht
  cases ht

theorem heard_audit {op : Op} {f : Failure} {t : AuditType} {sid : Option SessionId}
    {mid : Option Id} {c : Broker} (hf : auditOf op f = some t)
    (h : c.auditEvents = b.auditEvents) : Heard op b f (c.audit t sid mid) := by
  intro t' ht
  obtain rfl := Option.some.inj (hf.symm.trans ht)
  exact audited_audit h

theorem allocSequence_code {sid : SessionId} :
    ThrowsOnly (fun f => f.code? = none) (allocSequence sid) b :=
  .bind .get fun _ _ _ => .bind (.require fun _ => rfl) fun _ _ _ =>
    .bind .modify fun _ _ _ => .pure _

theorem insertMessage_code {m : Message} :
    ThrowsOnly (fun f => f.code? = none) (insertMessage m) b :=
  .bind .get fun _ _ _ => .bind (.require fun _ => rfl) fun _ _ _ =>
    .bind (.require fun _ => rfl) fun _ _ _ => .modify

theorem ttlExpiry_code {ttl : Option Nat} {f : Failure} (h : ttlExpiry now ttl = .error f) :
    f.code? = none := by
  unfold ttlExpiry at h
  split at h
  · cases h
  · cases h
  · split at h
    · cases h
    · cases h
      rfl

/-- `send` audits two codes and no other. -/
theorem auditOf_send_none {input : SendInput} {f : Failure}
    (hexpired : f.code? ≠ some .recipientSessionExpired) (hblocked : f.code? ≠ some .blocked) :
    auditOf (.send auth input) f = none := by
  rw [auditOf, if_neg hexpired, if_neg hblocked]

theorem auditOf_reply_none {input : ReplyInput} {f : Failure}
    (hexpired : f.code? ≠ some .recipientSessionExpired) :
    auditOf (.reply auth input) f = none := by
  rw [auditOf, if_neg hexpired]

theorem auditOf_ack_none {input : AckInput} {f : Failure}
    (hstate : f.code? ≠ some .illegalStateTransition) : auditOf (.ack auth input) f = none := by
  rw [auditOf, if_neg (fun hf => hstate (by rw [hf]; rfl)), if_neg hstate]

theorem sendTransaction_heard {input : SendInput} :
    RefusesInto (Heard (.send auth input) b) (sendTransaction env now auth input) b := by
  have hnone (f : Failure) (c : Broker) (h : f.code? = none) : Heard (.send auth input) b f c :=
    heard_of_none (auditOf_send_none (by simp [h]) (by simp [h]))
  refine .bind .get fun b₀ t h => ?_
  obtain ⟨rfl, rfl⟩ := Call.get_ok.mp h
  cases hdup : b.duplicateOf auth.sessionId input.idempotencyKey with
  | some dup =>
    exact .bind (.requireElse fun _ => heard_audit rfl rfl) fun _ _ _ => .pure _
  | none =>
    refine .bind (.lift fun f hf => ?_) fun recipient t h => ?_
    · rcases resolveRecipient_code hf with hc | hc | hc <;>
        exact heard_of_none (auditOf_send_none (by simp [hc]) (by simp [hc]))
    obtain ⟨-, rfl⟩ := Call.lift_ok.mp h
    refine .bind (.requireElse fun _ => heard_audit rfl rfl) fun _ t h => ?_
    obtain ⟨-, rfl⟩ := Call.requireElse_ok.mp h
    refine .bind (.requireElse fun _ => heard_audit rfl rfl) fun _ t h => ?_
    obtain ⟨-, rfl⟩ := Call.requireElse_ok.mp h
    -- From here on only the database and the clock can refuse.
    exact .bind .act fun _ _ _ => .bind .act fun _ _ _ =>
      .bind (allocSequence_code.mono hnone) fun _ _ _ =>
      .bind (.lift fun _ hf => hnone _ _ (ttlExpiry_code hf)) fun _ _ _ =>
      .bind .act fun _ _ _ => .bind (insertMessage_code.mono hnone) fun _ _ _ =>
      .bind .modify fun _ _ _ => .pure _

theorem replyTransaction_heard {input : ReplyInput} :
    RefusesInto (Heard (.reply auth input) b) (replyTransaction env now auth input) b := by
  have hnone (f : Failure) (c : Broker) (h : f.code? = none) : Heard (.reply auth input) b f c :=
    heard_of_none (auditOf_reply_none (by simp [h]))
  refine .bind .get fun b₀ t h => ?_
  obtain ⟨rfl, rfl⟩ := Call.get_ok.mp h
  refine .bind (.orThrow (heard_of_none rfl)) fun orig t h => ?_
  obtain ⟨-, rfl⟩ := Call.orThrow_ok.mp h
  refine .bind (.require fun _ => heard_of_none rfl) fun _ t h => ?_
  obtain ⟨-, rfl⟩ := Call.require_ok.mp h
  cases hdup : b.duplicateOf auth.sessionId input.idempotencyKey with
  | some dup => exact .pure _
  | none =>
    refine .bind (authorizeIfRequired_code.mono ?_) fun _ t h => ?_
    · rintro f c ⟨code, hmem, hcode⟩
      refine heard_of_none (auditOf_reply_none fun hexpired => ?_)
      obtain rfl := Option.some.inj (hcode.symm.trans hexpired)
      simp at hmem
    obtain ⟨rfl, -⟩ := authorizeIfRequired_ok.mp h
    refine .bind (.requireElse fun _ => heard_audit rfl rfl) fun _ t h => ?_
    exact .bind .modify fun _ _ _ => .bind (allocSequence_code.mono hnone) fun _ _ _ =>
      .bind .modify fun _ _ _ => .bind (insertMessage_code.mono hnone) fun _ _ _ =>
      .bind .modify fun _ _ _ => .pure _

/-- The two refusals that `ack` audits share their code; the text tells them apart. -/
theorem cas_text_ne {state : String} :
    "cannot ack from state " ++ state ≠ "conflicting acknowledgement" := by
  intro h
  have hlist := congrArg (fun s => s.toList.take 2) h
  simp at hlist

theorem ackTransaction_heard {input : AckInput} :
    RefusesInto (Heard (.ack auth input) b) (ackTransaction env now auth input) b := by
  refine .bind .get fun b₀ t h => ?_
  obtain ⟨rfl, rfl⟩ := Call.get_ok.mp h
  refine .bind (.orThrow (heard_of_none rfl)) fun msg t h => ?_
  obtain ⟨-, rfl⟩ := Call.orThrow_ok.mp h
  refine .bind (.require fun _ => heard_of_none rfl) fun _ t h => ?_
  obtain ⟨-, rfl⟩ := Call.require_ok.mp h
  dsimp only
  split
  · refine .bind (.requireElse fun _ => heard_audit rfl rfl) fun _ t h => ?_
    exact .bind (.orThrow (heard_of_none rfl)) fun _ _ _ => .pure _
  · refine .bind (authorizeIfRequired_code.mono ?_) fun _ t h => ?_
    · rintro f c ⟨code, hmem, hcode⟩
      refine heard_of_none (auditOf_ack_none fun hstate => ?_)
      obtain rfl := Option.some.inj (hcode.symm.trans hstate)
      simp at hmem
    obtain ⟨rfl, -⟩ := authorizeIfRequired_ok.mp h
    refine .bind (.requireElse fun _ => heard_audit ?_ rfl) fun _ _ _ =>
      .bind .modify fun _ _ _ => .bind .modify fun _ _ _ => .bind .modify fun _ _ _ => .pure _
    rw [auditOf, if_neg]
    · rfl
    · simp [xbusError, cas_text_ne]

/-- The edges a registration may have changed before it meets another owner are not rows of the
    audit trail. -/
theorem registerTransaction_heard {raw : RegisterInput} :
    RefusesInto (Heard (.register raw) b) (registerTransaction env mom raw) b := by
  intro f c h
  simp only [registerTransaction, Call.act_bind, Call.modify_bind] at h
  obtain ⟨es, hes⟩ := edges_eq b raw.sessionId
    (reclaimOf env mom (b.mint.purgeStaleEdge raw.sessionId) raw)
  rw [hes] at h
  have henter {input : RegisterInput} {c : Broker} (hc : c.auditEvents = b.auditEvents) :
      RefusesInto (Heard (.register raw) b) (enterSession env mom.now input) c := by
    refine .bind .get fun _ t h => ?_
    obtain ⟨rfl, rfl⟩ := Call.get_ok.mp h
    split
    · exact .bind .modify fun _ _ _ => .pure _
    · split
      · exact .bind .modify fun _ _ _ => .pure _
      · exact .bind (.requireElse fun _ => heard_audit rfl hc) fun _ _ _ =>
          .bind .modify fun _ _ _ => .pure _
  -- Nothing after the entry throws.
  have hheard := RefusesInto.bind (henter (c := { b.mint with physicalMap := es }) rfl)
    (fun _ _ _ => .bind .modify fun _ _ _ =>
    .bind .act fun _ _ _ => .bind .modify fun _ _ _ => .bind .get fun _ _ _ => .pure _) f c h
  exact hheard

/-- So do the two refusals of an operator's redelivery. -/
theorem redeliver_text_ne {state : String} :
    "cannot redeliver a delivery in terminal state " ++ state ≠
      "replaying already-accepted work is destructive/duplicate; pass confirmReplayAccepted to proceed" := by
  intro h
  have hlist := congrArg (fun s => s.toList.take 1) h
  simp at hlist

theorem operatorRedeliverTransaction_heard {mid : Id} {confirm : Bool} :
    RefusesInto (Heard (.operatorRedeliver mid confirm) b)
      (operatorRedeliverTransaction now mid confirm) b := by
  refine .bind .get fun b₀ t h => ?_
  obtain ⟨rfl, rfl⟩ := Call.get_ok.mp h
  split
  · exact .pure _
  · split
    · exact .bind (.requireElse fun _ => heard_audit (by rw [auditOf, if_pos rfl]) rfl)
        fun _ _ _ => .bind .act fun _ _ _ => .bind .modify fun _ _ _ => .pure _
    · refine .bind (.require fun _ => heard_of_none ?_) fun _ _ _ =>
        .bind .modify fun _ _ _ => .pure _
      rw [auditOf, if_neg]
      simp [xbusError, redeliver_text_ne]

theorem registerAliasTransaction_heard {raw : String} {handle : Alias} :
    RefusesInto (Heard (.registerAlias auth raw) b) (registerAliasTransaction auth handle) b := by
  have hfence : RefusesInto (Heard (.registerAlias auth raw) b) (assertCurrentEpoch auth) b := by
    refine .bind .get fun b₀ t h => ?_
    obtain ⟨rfl, rfl⟩ := Call.get_ok.mp h
    refine .bind (.orThrow (heard_of_none rfl)) fun _ t h => ?_
    obtain ⟨-, rfl⟩ := Call.orThrow_ok.mp h
    exact .requireElse fun _ => heard_audit rfl rfl
  refine .bind hfence fun _ _ _ => .bind .get fun _ _ _ => ?_
  split
  · exact .bind (.require fun _ => heard_of_none rfl) fun _ _ _ =>
      .bind .modify fun _ _ _ => .pure _
  · exact .bind .modify fun _ _ _ => .bind .modify fun _ _ _ => .pure _

theorem transactionOf_heard {op : Op} {x : BrokerCall Unit}
    (hx : transactionOf env mom op = some x) : RefusesInto (Heard op b) x b := by
  have hmap {α : Type} {y : BrokerCall α} (hy : RefusesInto (Heard op b) y b) :
      RefusesInto (Heard op b) ((fun _ => ()) <$> y) b :=
    fun f c h => hy f c (Call.map_error.mp h)
  cases op
  case send =>
    obtain rfl := Option.some.inj hx
    exact hmap sendTransaction_heard
  case reply =>
    obtain rfl := Option.some.inj hx
    exact hmap replyTransaction_heard
  case ack =>
    obtain rfl := Option.some.inj hx
    exact hmap ackTransaction_heard
  case register =>
    obtain rfl := Option.some.inj hx
    exact hmap registerTransaction_heard
  case operatorRedeliver =>
    obtain rfl := Option.some.inj hx
    exact hmap operatorRedeliverTransaction_heard
  case registerAlias =>
    rw [transactionOf] at hx
    split at hx
    · obtain rfl := Option.some.inj hx
      exact hmap registerAliasTransaction_heard
    · cases hx
  all_goals cases hx

/-! ## What is left of it -/

/-- What the two fences of an operation throw, they throw before its transaction opens. -/
theorem fenced_error {α : Type} {x : BrokerCall α} {op : Operation} {f : Failure}
    (h : (do
      assertAllowed auth.role op
      assertCurrentEpoch auth
      Call.transaction x : BrokerCall α) b = (.error f, b')) :
    (∃ code ∈ [ErrorCode.forbiddenRole, .sessionNotRegistered, .epochMismatch],
      f.code? = some code) ∨ Call.transaction x b = (.error f, b') := by
  refine RefusesInto.bind (P := fun f b' => (∃ code ∈ [ErrorCode.forbiddenRole,
    .sessionNotRegistered, .epochMismatch], f.code? = some code) ∨
      Call.transaction x b = (.error f, b')) (.require fun _ => .inl ⟨_, by simp, rfl⟩)
    (fun _ t ht => ?_) f b' h
  obtain ⟨-, rfl⟩ := Call.require_ok.mp ht
  refine .bind (.bind .get fun _ _ _ => .bind (.orThrow (.inl ⟨_, by simp, rfl⟩)) fun _ _ _ =>
    .requireElse fun _ => .inl ⟨_, by simp, rfl⟩) fun _ t ht => ?_
  obtain ⟨-, rfl⟩ := assertCurrentEpoch_ok.mp ht
  exact fun _ _ h => .inr h

theorem validateUserAlias_code {raw : String} {f : Failure}
    (h : validateUserAlias env.text raw = .error f) : f.code? = some .invalidAlias := by
  unfold validateUserAlias at h
  dsimp only at h
  repeat' split at h
  all_goals cases h
  all_goals rfl

/-- **An audited refusal comes out of the transaction**, so it is rolled back. -/
theorem refused_in_transaction {op : Op} {f : Failure} {t : AuditType}
    (ht : auditOf op f = some t) (h : exec env mom op b = (.error f, b')) :
    ∃ x, transactionOf env mom op = some x ∧ Call.transaction x b = (.error f, b') := by
  have hbody {α : Type} {y : BrokerCall α} (hy : Call.transaction y b = (.error f, b')) :
      Call.transaction ((fun _ => ()) <$> y) b = (.error f, b') := by
    obtain ⟨⟨c, hc⟩, hb⟩ := Call.transaction_error_iff.mp hy
    exact Call.transaction_error_iff.mpr ⟨⟨c, Call.map_error.mpr hc⟩, hb⟩
  -- Six operations audit a refusal; what they check outside the transaction has other codes.
  cases op
  case send => exact ⟨_, rfl, hbody (Call.map_error.mp h)⟩
  case reply =>
    rcases fenced_error (Call.map_error.mp h) with ⟨code, hmem, hcode⟩ | hy
    · rw [auditOf_reply_none (fun hexpired => by
        obtain rfl := Option.some.inj (hcode.symm.trans hexpired)
        simp at hmem)] at ht
      cases ht
    · exact ⟨_, rfl, hbody hy⟩
  case ack =>
    rcases fenced_error (Call.map_error.mp h) with ⟨code, hmem, hcode⟩ | hy
    · rw [auditOf_ack_none (fun hstate => by
        obtain rfl := Option.some.inj (hcode.symm.trans hstate)
        simp at hmem)] at ht
      cases ht
    · exact ⟨_, rfl, hbody hy⟩
  case register raw =>
    have hcases : auditOf (.register raw) f = none ∨
        Call.transaction (registerTransaction env mom raw) b = (.error f, b') := by
      refine RefusesInto.bind (P := fun f b' => auditOf (.register raw) f = none ∨
        Call.transaction (registerTransaction env mom raw) b = (.error f, b'))
        (.require fun _ => .inl rfl) (fun _ t hreq => ?_) f b' (Call.map_error.mp h)
      obtain ⟨-, rfl⟩ := Call.require_ok.mp hreq
      exact fun _ _ h => .inr h
    rcases hcases with hnone | hy
    · rw [hnone] at ht
      cases ht
    · exact ⟨_, rfl, hbody hy⟩
  case operatorRedeliver => exact ⟨_, rfl, hbody (Call.map_error.mp h)⟩
  case registerAlias auth raw =>
    have hrun := Call.map_error.mp h
    cases hvalid : validateUserAlias env.text raw with
    | error e =>
      simp only [registerAlias, hvalid] at hrun
      obtain ⟨he, -⟩ := Prod.mk.inj hrun
      obtain rfl := Except.error.inj he
      rw [auditOf, if_neg (by rw [validateUserAlias_code hvalid]; simp)] at ht
      cases ht
    | ok handle =>
      simp only [registerAlias, hvalid, Call.lift_ok_bind] at hrun
      exact ⟨_, by rw [transactionOf, hvalid], hbody hrun⟩
  all_goals cases ht

/-- **No audited refusal is in the committed database.** From every state: the body of the
    transaction throws with its row in the audit trail, and the rollback takes back the row with
    everything else. -/
theorem audited_refusal_rolled_back {op : Op} {f : Failure} {t : AuditType}
    (ht : auditOf op f = some t) (h : exec env mom op b = (.error f, b')) :
    (∃ x c, transactionOf env mom op = some x ∧ x b = (.error f, c) ∧ Audited t b c) ∧
      b' = b ∧ ¬ (Audited t b b' ∧ AuditTrail b b') := by
  obtain ⟨x, hx, hy⟩ := refused_in_transaction ht h
  obtain ⟨⟨c, hc⟩, rfl⟩ := Call.transaction_error_iff.mp hy
  refine ⟨⟨x, c, hx, hc, transactionOf_heard hx f c hc t ht⟩, rfl, ?_⟩
  rintro ⟨⟨e, he, -⟩, -⟩
  simp at he

/-- `beta` blocks `alpha`. -/
def alphaBlocked : List Event :=
  requestSent ++ [(.blockPeer (component "beta" .mcp 1 2) "session-alpha" false, { nowMs := 1001 })]

def blockedSend : Op :=
  .send (component "alpha" .mcp 1 1) { recipient := "beta-name", text := "again" }

theorem blockedSend_refused :
    exec plainEnv { nowMs := 1002 } blockedSend
        (runAll (step plainEnv) (initial plainEnv) alphaBlocked).2 =
      (.error (xbusError .blocked "recipient has blocked this sender"),
        (exec plainEnv { nowMs := 1002 } blockedSend
          (runAll (step plainEnv) (initial plainEnv) alphaBlocked).2).2) := by
  refine Prod.ext ?_ rfl
  decide +kernel

/-- A blocked send leaves the database as it was. -/
theorem blocked_send_rolled_back :
    (exec plainEnv { nowMs := 1002 } blockedSend
      (runAll (step plainEnv) (initial plainEnv) alphaBlocked).2).2 =
      (runAll (step plainEnv) (initial plainEnv) alphaBlocked).2 :=
  (audited_refusal_rolled_back (t := .blockedSendRejected) rfl blockedSend_refused).2.1

/-- The row of a blocked send is rolled back with the send. -/
theorem blocked_send_unaudited :
    ¬ ∀ (b : Broker), Reachable plainEnv Any b → ∀ (mom : Moment) (op : Op) (f : Failure)
      (b' : Broker) (t : AuditType), exec plainEnv mom op b = (.error f, b') →
      auditOf op f = some t → Audited t b b' ∧ AuditTrail b b' := by
  intro hall
  obtain ⟨⟨e, he, -⟩, -⟩ :=
    hall _ ⟨_, Run.of_events (step plainEnv) (initial plainEnv) alphaBlocked⟩ _ _ _
    _ .blockedSendRejected blockedSend_refused rfl
  have hnone : (exec plainEnv { nowMs := 1002 } blockedSend
      (runAll (step plainEnv) (initial plainEnv) alphaBlocked).2).2.auditEvents.drop
      (runAll (step plainEnv) (initial plainEnv) alphaBlocked).2.auditEvents.length = [] := by
    decide +kernel
  rw [hnone] at he
  cases he

end Proof

end XBus
