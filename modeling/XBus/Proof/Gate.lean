import XBus.Proof.Machine
import XBus.Proof.Signals

/-!
# The readiness gate

A pull is behind two gates: the session must have signalled that it is ready, and, unless the
pull is the operator's manual step, its receive control must be active. Three of the four
frames that pull go through `checkpointPull` or `processNext`, which ask; `checkpoint_pull`
goes through `pendingForSession` and `markInjected`, which do not.

So the gate holds over a run exactly as far as the callers of `checkpoint_pull` keep it
themselves. No other frame, and nothing the broker does of its own accord, takes a waiting
delivery into flight: `presented` is a set of states no hop enters.
-/

set_option autoImplicit false

namespace XBus

open Lib

/-- The frames that pull bodies. The peek of the inbox marks nothing. -/
def Request.pulls : Request → Bool
  | .checkpointPull _ | .checkpointPullHook _ _ | .inbox true _ _ | .processNext => true
  | _ => false

/-- Both gates of a pull for a session are open; the second does not apply to the manual
    step. -/
def Broker.gateOpen (b : Broker) (r : Request) (sid : SessionId) : Bool :=
  (b.readinessOf sid = .readyCheckpoint ∨ b.readinessOf sid = .readyLive) ∧
    (r = .processNext ∨ b.getControl sid = .active)

/-- The authority a frame on the connection acts under. -/
def Daemon.authOf (d : Daemon) (conn : ConnId) : Option SessionAuthority :=
  (d.conn? conn).bind (·.auth)

/-- A `checkpoint_pull` that finds something to present finds both gates open. -/
def pullsReady (d : Daemon) (e : DaemonEvent) : Bool :=
  match e.1 with
  | .frame conn (.request (.checkpointPull limit)) =>
    (d.authOf conn).all fun auth =>
      d.db.epochOf auth.sessionId ≠ some auth.epoch ∨
      d.db.pendingForSessionId auth.sessionId (limit.getD 50) e.2.now = [] ∨
      d.db.gateOpen (.checkpointPull limit) auth.sessionId
  | _ => true

namespace Proof

variable {env : Env} {mom : Moment} {now : Iso} {auth : SessionAuthority} {b b' : Broker}
  {d d' : Daemon}

/-- Between the two states the delivery went from waiting into flight, or through it and on
    to `completed`. -/
def Launched (b b' : Broker) (x : Delivery) : Prop :=
  x ∈ b.deliveries ∧ x.state.waiting = true ∧ ∃ x' ∈ b'.deliveries,
    x'.messageId = x.messageId ∧ (x'.state = .transportWritten ∨ x'.state = .completed)

/-- What the gate promises of one step. -/
structure GateKept (d : Daemon) (s : Signal) (d' : Daemon) : Prop where
  /-- A delivery goes into flight by a pull whose gates are open for its recipient. -/
  launched : ∀ x, Launched d.db d'.db x → ∃ conn r, s = .frame conn (.request r) ∧
    r.pulls = true ∧ d.db.gateOpen r x.recipientSessionId = true
  /-- A pull at a shut gate leaves every delivery, with its deadline and its attempts, and
      every record of a presentation as it was. -/
  shut : ∀ conn r auth, s = .frame conn (.request r) → r.pulls = true →
    d.authOf conn = some auth → d.db.gateOpen r auth.sessionId = false →
    d'.db.deliveries = d.db.deliveries ∧ d'.db.injections = d.db.injections

/-! ## What does not pull -/

/-- The operations that pull. -/
def pullsOp : Op → Bool
  | .checkpointPull _ _ _ | .processNext _ _ | .inboxView _ _ _ | .daemonCheckpointPull _ _ =>
    true
  | _ => false

theorem reply_presented {input : ReplyInput} :
    Respects (Backed presented) (reply env now auth input) := by
  refine reply_refuses.respects (fun _ _ => .bookkeeping) fun b r b' h => ?_
  obtain ⟨-, orig, -, -, ⟨dup, -, -, -, rfl⟩ | hr⟩ := reply_ok h
  · exact IsFrame.refl _
  · obtain ⟨b₁, row, hposted, -, hrest⟩ := hr.backed presented_sealed
    exact IsFrame.trans (Backed.posted rfl hposted) hrest

theorem redrive_presented {mid : Id} {validate : SessionId → String → Option String} :
    Respects (Backed presented) (redrive env now mid validate) := by
  refine Respects.transaction (Respects.bind .get fun b => ?_)
  split
  · exact .pure _
  · exact .pure _
  · refine Respects.ite (.pure _) ?_
    split
    · exact .pure _
    · refine Respects.bind (.act fun _ => .of_eq rfl) fun id =>
        Respects.bind (.modify fun b => .audited (.update (fun _ => rfl) fun d _ _ hq => ?_))
          fun _ => .pure _
      simp [presented] at hq

/-- Outside a pull, nothing is presented that was not presented before. -/
theorem exec_presented (env : Env) (mom : Moment) {op : Op} (hop : pullsOp op = false)
    (b : Broker) : Backed presented b (exec env mom op b).2 := by
  have hmoves (hk : (kindsOf false op).all hops = true) :
      Backed presented b (exec env mom op b).2 :=
    (exec_moves env mom op b false (by simp)).backed presented_sealed hk
  have hposts {α : Type} {x : BrokerCall α} (hx : Respects (Moves env [.post]) x) :
      Respects (Backed presented) x := by
    refine hx.mono fun s t h => h.frame fun b b' k hk hmove => ?_
    obtain rfl := List.mem_singleton.mp hk
    cases hmove with
    | post m h => exact .posted rfl h
  cases op with
  | checkpointPull | processNext | inboxView | daemonCheckpointPull => cases hop
  | send => exact (hposts send_respects).map b
  | operatorSend => exact (hposts operatorSend_respects).map b
  | ack => exact (ack_backed presented_sealed).map b
  | reply => exact reply_presented.map b
  | sweep => exact (sweep_backed presented_sealed).map b
  | operatorRedeliver =>
    exact (operatorRedeliver_backed presented_sealed fun h => nomatch h).map b
  | redrive => exact redrive_presented.map b
  | discard => exact (discard_backed presented_sealed).map b
  | register | peek | redeliver | registerAlias | renameSession | signalReadiness | setControl
  | blockPeer | connClosed | operatorRenameAlias | operatorSetControl | operatorRemoveRecord
  | recordManagedSession | importDormantSession | ensureOperatorSession => exact hmoves rfl

/-- Nothing goes into flight where nothing new is presented. -/
theorem not_launched (inv : MailInv b) (h : Backed presented b b') (x : Delivery) :
    ¬ Launched b b' x := by
  rintro ⟨hx, hwaits, x', hx', hid, hstate⟩
  have hpresented : presented x'.state = true := by
    rcases hstate with h | h <;> rw [h] <;> rfl
  obtain ⟨x₀, hx₀, hpair, hbefore⟩ := h x' hx' hpresented
  obtain rfl : x₀ = x := inv.delivery_eq hx₀ hx ((congrArg Prod.fst hpair).trans hid)
  cases hs : x₀.state <;> simp [hs, presented, DeliveryState.waiting] at hbefore hwaits

/-! ## What a pull reaches -/

/-- The deliveries of other sessions are as they were. -/
def Within (sid : SessionId) (b b' : Broker) : Prop :=
  ∀ x ∈ b.deliveries, x.recipientSessionId ≠ sid → x ∈ b'.deliveries

instance {sid : SessionId} : IsFrame (Within sid) where
  refl _ := fun _ hx _ => hx
  trans h h' := fun x hx hne => h' x (h x hx hne) hne

theorem Within.of_eq {sid : SessionId} (h : b'.deliveries = b.deliveries) : Within sid b b' :=
  fun _ hx _ => h ▸ hx

theorem InjectSpec.within {ck : CheckpointId} {m : Message} {r : Option Id × Broker}
    (inv : MailInv b) (addressed : Addressed b auth.sessionId m.messageId)
    (h : InjectSpec env now auth ck m b r) : Within auth.sessionId b r.2 := by
  intro x hx hne
  obtain ⟨g, hdel, hg⟩ := h.deliveries
  have hother : x.messageId ≠ m.messageId := by
    intro hid
    exact hne (inv.addressed_unique ⟨x, hx, hid, rfl⟩ addressed)
  rw [hdel, ← (hg x).other hother]
  exact List.mem_map_of_mem hx

theorem injectAll_within {ck : CheckpointId} {audited : Bool} (ms : List Message) (b : Broker)
    (inv : MailInv b) (hcur : b.epochOf auth.sessionId = some auth.epoch)
    (haddr : ∀ m ∈ ms, Addressed b auth.sessionId m.messageId)
    (hck : MintedBefore ck b.nextId) :
    Within auth.sessionId b (injectAll env now auth ck audited ms b).2 := by
  induction ms generalizing b with
  | nil => exact IsFrame.refl b
  | cons m ms ih =>
    have hspec := injectOne_spec env now auth ck audited m b
    have hmove : Move env (.inject false) b (injectOne env now auth ck audited m b).2 :=
      .inject now auth ck audited m hcur (haddr m (by simp)) hck false (by simp)
    have hone := hspec.within inv (haddr m (by simp))
    have hrest := ih (injectOne env now auth ck audited m b).2 (hmove.mailInv inv)
      ((hspec.epochOf _).trans hcur)
      (fun x hx => hspec.addressed.mpr (haddr x (by simp [hx]))) (hck.mono hspec.rest.ids)
    simp only [injectAll]
    split <;> exact IsFrame.trans hone hrest

theorem pullForced_within {ck : CheckpointId} {limit : Nat} {audited : Bool} (inv : MailInv b)
    (hcur : b.epochOf auth.sessionId = some auth.epoch) (hck : MintedBefore ck b.nextId) :
    Within auth.sessionId b (pullForced env now auth ck limit audited b).2 := by
  refine Respects.transaction_at fun r b' h => ?_
  obtain ⟨-, rfl⟩ := Prod.mk.inj (Call.act_ok.mp h)
  have hpull : Within auth.sessionId b (injectAll env now auth ck audited
      (b.pendingForSessionId auth.sessionId (min (max 1 limit) 50) now) b).2 :=
    injectAll_within _ b inv hcur (fun m hm => addressed_of_mem_pending hm) hck
  refine IsFrame.trans hpull ?_
  split
  · exact IsFrame.refl _
  · exact .of_eq rfl

/-- A call behind the role check and the fence. -/
theorem gated_within {α : Type} {x : BrokerCall α} {role : ComponentRole} {op : Operation}
    {sid : SessionId}
    (hx : b.epochOf auth.sessionId = some auth.epoch → Within sid b (x b).2) :
    Within sid b ((do
      assertAllowed role op
      assertCurrentEpoch auth
      x : BrokerCall α) b).2 := by
  refine Respects.bind_at (assertAllowed_respects b) fun _ t h => ?_
  obtain ⟨-, rfl⟩ := Call.require_ok.mp h
  refine Respects.bind_at (.of_eq (assertCurrentEpoch_bookkeeping b).deliveries) fun _ t h => ?_
  obtain ⟨hcur, rfl⟩ := assertCurrentEpoch_ok.mp h
  exact hx hcur

theorem checkpointPull_within {ck : CheckpointId} {limit : Nat} (inv : MailInv b)
    (hck : MintedBefore ck b.nextId) :
    Within auth.sessionId b (checkpointPull env now auth ck limit b).2 := by
  refine gated_within fun hcur => ?_
  rw [Call.get_bind]
  split
  · split
    · exact pullForced_within inv hcur hck
    · exact IsFrame.refl b
  · exact .of_eq rfl

theorem processNext_within {ck : CheckpointId} (inv : MailInv b)
    (hck : MintedBefore ck b.nextId) :
    Within auth.sessionId b (processNext env now auth ck b).2 := by
  refine gated_within fun hcur => ?_
  rw [Call.get_bind]
  split
  · exact pullForced_within inv hcur hck
  · exact .of_eq rfl

theorem inboxView_within {ck : CheckpointId} {limit : Nat} (inv : MailInv b)
    (hck : MintedBefore ck b.nextId) :
    Within auth.sessionId b (inboxView env now auth ck limit b).2 := by
  refine gated_within fun _ => ?_
  let hook : SessionAuthority := { auth with role := .hook }
  have hpull : Within hook.sessionId b (checkpointPull env now hook ck limit b).2 :=
    checkpointPull_within inv hck
  exact Respects.bind_at hpull fun fresh t _ => IsFrame.refl t

theorem markInjectedFor_within (mids : List Id) (b : Broker) (inv : MailInv b)
    (hcur : b.epochOf auth.sessionId = some auth.epoch)
    (haddr : ∀ mid ∈ mids, Addressed b auth.sessionId mid) :
    Within auth.sessionId b (markInjectedFor env now auth mids b).2 := by
  induction mids generalizing b with
  | nil => exact IsFrame.refl b
  | cons mid mids ih =>
    simp only [markInjectedFor]
    cases hmsg : b.message? mid with
    | none => exact ih b inv hcur fun x hx => haddr x (by simp [hx])
    | some m =>
      have hid : m.messageId = mid := by simpa using List.find?_some hmsg
      have hnote : Move env .note b b.mint := .note .mint
      have hinv : MailInv b.mint := hnote.mailInv inv
      have haddr₁ : Addressed b.mint auth.sessionId m.messageId := by
        rw [hid]
        exact haddr mid (by simp)
      have hck := mintedBefore_mint b "mark-"
      have hspec := injectOne_spec env now auth (.minted "mark-" b.nextId) true m b.mint
      have hmove : Move env (.inject false) b.mint
          (injectOne env now auth (.minted "mark-" b.nextId) true m b.mint).2 :=
        .inject (b := b.mint) now auth _ true m hcur haddr₁ hck false (by simp)
      have hone : Within auth.sessionId b
          (injectOne env now auth (.minted "mark-" b.nextId) true m b.mint).2 :=
        IsFrame.trans (s := b) (t := b.mint) (.of_eq rfl) (hspec.within hinv haddr₁)
      have hrest := ih _ (hmove.mailInv hinv) ((hspec.epochOf _).trans hcur)
        fun x hx => hspec.addressed.mpr (haddr x (by simp [hx]))
      dsimp only
      split <;> exact IsFrame.trans hone hrest

/-- What `checkpoint_pull` does: nothing at a stale epoch, and otherwise it marks what it
    selected. -/
theorem daemonCheckpointPull_snd (env : Env) (now : Iso) (auth : SessionAuthority) (limit : Nat)
    (b : Broker) : AuditTrail b (daemonCheckpointPull env now auth limit b).2 ∨
      b.epochOf auth.sessionId = some auth.epoch ∧
        ∃ ss, (daemonCheckpointPull env now auth limit b).2 = { (markInjectedFor env now auth
          ((b.pendingForSessionId auth.sessionId limit now).map (·.messageId)) b).2 with
            sessions := ss } := by
  rcases hfence : assertCurrentEpoch auth b with ⟨e | u, b₁⟩
  · have htrail : AuditTrail b (assertCurrentEpoch auth b).2 := assertCurrentEpoch_auditTrail b
    rw [hfence] at htrail
    have hpending : pendingForSession now auth limit b = (.error e, b₁) :=
      Call.bind_of_error hfence
    refine .inl ?_
    rw [daemonCheckpointPull, Call.bind_of_error hpending]
    exact htrail
  · obtain ⟨hcur, rfl⟩ := assertCurrentEpoch_ok.mp hfence
    have hpending : pendingForSession now auth limit b =
        (.ok (b.pendingForSessionId auth.sessionId limit now), b) := Call.bind_of_ok hfence
    set mids := (b.pendingForSessionId auth.sessionId limit now).map (·.messageId)
    have hmark : markInjected env now auth mids b = (.ok (markInjectedFor env now auth mids b).1,
        (markInjectedFor env now auth mids b).2) := Call.bind_of_ok hfence
    refine .inr ⟨hcur, ?_⟩
    rw [daemonCheckpointPull, Call.bind_of_ok hpending, Call.bind_of_ok hmark, Call.modify_bind,
      Call.get_bind]
    show ∃ ss, (if (markInjectedFor env now auth mids b).1.isEmpty then _ else _) = _
    split
    · exact ⟨_, rfl⟩
    · exact ⟨_, rfl⟩

theorem daemonCheckpointPull_within {limit : Nat} (inv : MailInv b) :
    Within auth.sessionId b (daemonCheckpointPull env now auth limit b).2 := by
  rcases daemonCheckpointPull_snd env now auth limit b with htrail | ⟨hcur, ss, heq⟩
  · obtain ⟨es, n, heq⟩ := htrail
    exact .of_eq (by rw [heq])
  · have hmark : Within auth.sessionId b (markInjectedFor env now auth
        ((b.pendingForSessionId auth.sessionId limit now).map (·.messageId)) b).2 := by
      refine markInjectedFor_within _ b inv hcur fun mid hmid => ?_
      obtain ⟨m, hm, rfl⟩ := List.mem_map.mp hmid
      exact addressed_of_mem_pending hm
    rw [heq]
    exact IsFrame.trans hmark (.of_eq rfl)

/-- Under a checkpoint id of the caller's or a fresh one. -/
theorem withCheckpoint_within {α : Type} {x : CheckpointId → BrokerCall α}
    {given : Option String} {sid : SessionId} (inv : MailInv b)
    (hx : ∀ b ck, MailInv b → MintedBefore ck b.nextId → Within sid b (x ck b).2) :
    Within sid b ((checkpointOf given >>= x) b).2 := by
  cases given with
  | some ck => exact hx b (.given ck) inv fun _ _ h => by cases h
  | none =>
    have hnote : Move plainEnv .note b b.mint := .note .mint
    have hmint : Within sid b b.mint := .of_eq rfl
    exact IsFrame.trans hmint (hx b.mint _ (hnote.mailInv inv) (mintedBefore_mint b _))

/-- A pull leaves the deliveries of other sessions alone. -/
theorem exec_within {r : Request} (hr : r.pulls = true) (inv : MailInv b) :
    Within auth.sessionId b (exec env mom (r.op auth) b).2 := by
  cases r with
  | checkpointPull limit =>
    simp only [Request.op, exec, Call.map_snd]
    exact daemonCheckpointPull_within inv
  | checkpointPullHook ck limit =>
    refine withCheckpoint_within inv fun b ck inv hck => ?_
    rw [Call.map_snd]
    exact checkpointPull_within inv hck
  | inbox markInjected ck limit =>
    cases markInjected with
    | false => cases hr
    | true =>
      refine withCheckpoint_within inv fun b ck inv hck => ?_
      rw [Call.map_snd]
      exact inboxView_within inv hck
  | processNext =>
    refine withCheckpoint_within inv fun b ck inv hck => ?_
    rw [Call.map_snd]
    exact processNext_within inv hck
  | _ => cases hr

/-! ## What a shut gate lets through -/

/-- A call behind the role check and the fence writes at most an audit row before it. -/
theorem gated_trail {α : Type} {x : BrokerCall α} {role : ComponentRole} {op : Operation}
    (hx : AuditTrail b (x b).2) :
    AuditTrail b ((do
      assertAllowed role op
      assertCurrentEpoch auth
      x : BrokerCall α) b).2 := by
  refine Respects.bind_at (assertAllowed_respects b) fun _ t h => ?_
  obtain ⟨-, rfl⟩ := Call.require_ok.mp h
  refine Respects.bind_at (assertCurrentEpoch_auditTrail b) fun _ t h => ?_
  obtain ⟨-, rfl⟩ := assertCurrentEpoch_ok.mp h
  exact hx

theorem checkpointPull_shut {ck : CheckpointId} {limit : Nat}
    (shut : acceptsInjection (b.readinessOf auth.sessionId) = false ∨
      b.autoDeliveryEnabled auth.sessionId = false) :
    AuditTrail b (checkpointPull env now auth ck limit b).2 := by
  refine gated_trail ?_
  rw [Call.get_bind]
  split
  · rename_i hready
    rcases shut with h | h
    · rw [h] at hready
      cases hready
    · rw [if_neg (by simp [h])]
      exact IsFrame.refl b
  · exact ⟨_, _, rfl⟩

theorem processNext_shut {ck : CheckpointId}
    (shut : acceptsInjection (b.readinessOf auth.sessionId) = false) :
    AuditTrail b (processNext env now auth ck b).2 := by
  refine gated_trail ?_
  rw [Call.get_bind, if_neg (by simp [shut])]
  exact ⟨_, _, rfl⟩

theorem inboxView_shut {ck : CheckpointId} {limit : Nat}
    (shut : acceptsInjection (b.readinessOf auth.sessionId) = false ∨
      b.autoDeliveryEnabled auth.sessionId = false) :
    AuditTrail b (inboxView env now auth ck limit b).2 := by
  refine gated_trail ?_
  have hpull : AuditTrail b (checkpointPull env now { auth with role := .hook } ck limit b).2 :=
    checkpointPull_shut shut
  exact Respects.bind_at hpull fun fresh t _ => IsFrame.refl t

theorem withCheckpoint_trail {α : Type} {x : CheckpointId → BrokerCall α}
    {given : Option String}
    (hx : ∀ n ck, AuditTrail { b with nextId := n } (x ck { b with nextId := n }).2) :
    AuditTrail b ((checkpointOf given >>= x) b).2 := by
  cases given with
  | some ck => exact hx b.nextId (.given ck)
  | none => exact IsFrame.trans (s := b) (t := b.mint) ⟨_, _, rfl⟩ (hx (b.nextId + 1) _)

/-- A gate that is shut for the manual step is shut by readiness; another pull may find it
    shut by the receive control as well. -/
theorem shut_cases {r : Request} {sid : SessionId} (shut : b.gateOpen r sid = false) :
    acceptsInjection (b.readinessOf sid) = false ∨
      r ≠ .processNext ∧ b.autoDeliveryEnabled sid = false := by
  by_cases hready : acceptsInjection (b.readinessOf sid) = true
  · refine .inr ?_
    simp only [acceptsInjection, decide_eq_true_eq] at hready
    simp only [Broker.gateOpen, decide_eq_false_iff_not, hready, true_and, not_or] at shut
    simpa [Broker.autoDeliveryEnabled] using shut
  · exact .inl (by simpa using hready)

/-- A pull at a shut gate writes nothing but the audit trail, where `checkpoint_pull` finds
    nothing to present. -/
theorem exec_shut {r : Request} (hr : r.pulls = true)
    (shut : b.gateOpen r auth.sessionId = false)
    (hpull : ∀ limit, r = .checkpointPull limit →
      b.epochOf auth.sessionId = some auth.epoch →
      b.pendingForSessionId auth.sessionId (limit.getD 50) mom.now = []) :
    b.deliveries = (exec env mom (r.op auth) b).2.deliveries ∧
      b.injections = (exec env mom (r.op auth) b).2.injections := by
  have htrail {b' : Broker} (h : AuditTrail b b') :
      b.deliveries = b'.deliveries ∧ b.injections = b'.injections := by
    obtain ⟨es, n, rfl⟩ := h
    exact ⟨rfl, rfl⟩
  -- Behind a shut gate only audit rows are written.
  have hgate := shut_cases shut
  cases r with
  | checkpointPull limit =>
    simp only [Request.op, exec, Call.map_snd]
    rcases daemonCheckpointPull_snd env mom.now auth (limit.getD 50) b with h | ⟨hcur, ss, heq⟩
    · exact htrail h
    · rw [heq, hpull limit rfl hcur]
      exact ⟨rfl, rfl⟩
  | checkpointPullHook ck limit =>
    refine htrail (withCheckpoint_trail fun n ck => ?_)
    rw [Call.map_snd]
    exact checkpointPull_shut (hgate.imp_right And.right)
  | inbox markInjected ck limit =>
    cases markInjected with
    | false => cases hr
    | true =>
      refine htrail (withCheckpoint_trail fun n ck => ?_)
      rw [Call.map_snd]
      exact inboxView_shut (hgate.imp_right And.right)
  | processNext =>
    refine htrail (withCheckpoint_trail fun n ck => ?_)
    rw [Call.map_snd]
    have hready : acceptsInjection (b.readinessOf auth.sessionId) = false :=
      hgate.elim id fun h => absurd rfl h.1
    exact processNext_shut hready
  | _ => cases hr

/-! ## The gate over a run -/

theorem MailInv.daemon {ok : Daemon → DaemonEvent → Prop}
    {log : List (DaemonEvent × Except Failure Response)}
    (run : Run (Daemon.step env) ok (Daemon.initial env) log d) : MailInv d.db :=
  daemon_of_moves mailInv_initial (fun _ _ _ hmove => hmove.mailInv) run

/-- A pull launches only what is addressed to the puller. -/
theorem launched_by_pull {r : Request} (hr : r.pulls = true) (inv : MailInv b) {x : Delivery}
    (h : Launched b (exec env mom (r.op auth) b).2 x) : x.recipientSessionId = auth.sessionId := by
  obtain ⟨hx, hwaits, x', hx', hid, hstate⟩ := h
  by_contra hne
  have hinv : MailInv (exec env mom (r.op auth) b).2 :=
    (exec_moves env mom (r.op auth) b false (by simp)).mailInv inv
  obtain rfl : x' = x := hinv.delivery_eq hx' (exec_within hr inv x hx hne) hid
  rcases hstate with h | h <;> simp [h, DeliveryState.waiting] at hwaits

theorem launched_moves {x : Delivery} (inv : MailInv b) (h : Launched b b' x) :
    b.deliveries ≠ b'.deliveries := by
  obtain ⟨hx, hwaits, x', hx', hid, hstate⟩ := h
  intro heq
  rw [← heq] at hx'
  obtain rfl : x' = x := inv.delivery_eq hx' hx hid
  rcases hstate with h | h <;> simp [h, DeliveryState.waiting] at hwaits

/-- What the guard says of a `checkpoint_pull` at a shut gate. -/
theorem nothing_pending {conn : ConnId} {limit : Option Nat}
    (hok : pullsReady d (.frame conn (.request (.checkpointPull limit)), mom) = true)
    (hauth : d.authOf conn = some auth)
    (shut : d.db.gateOpen (.checkpointPull limit) auth.sessionId = false)
    (hcur : d.db.epochOf auth.sessionId = some auth.epoch) :
    d.db.pendingForSessionId auth.sessionId (limit.getD 50) mom.now = [] := by
  simp only [pullsReady, hauth, Option.all_some, decide_eq_true_eq] at hok
  rcases hok with h | h | h
  · exact absurd hcur h
  · exact h
  · rw [shut] at h
    cases h

/-- The pulls of a run that meets the condition keep the gate. -/
theorem gateKept_requested {c : Conn} {r : Request} (inv : MailInv d.db)
    (found : d.conn? c.id = some c) (hauth : c.auth = some auth)
    (hok : pullsReady d (.frame c.id (.request r), mom) = true) :
    GateKept d (.frame c.id (.request r))
      { d with db := (onRequest env mom auth r d.db).2 } := by
  have hconn : d.authOf c.id = some auth := by simp [Daemon.authOf, found, hauth]
  rcases onRequest_snd env mom auth r d.db with hsame | hexec
  · rw [hsame]
    exact ⟨fun x hx => absurd rfl (launched_moves inv hx), fun _ _ _ _ _ _ _ => ⟨rfl, rfl⟩⟩
  · rw [hexec]
    -- Behind a shut gate nothing is written out.
    have hshut (hr : r.pulls = true) (shut : d.db.gateOpen r auth.sessionId = false) :
        d.db.deliveries = (exec env mom (r.op auth) d.db).2.deliveries ∧
          d.db.injections = (exec env mom (r.op auth) d.db).2.injections := by
      refine exec_shut hr shut fun limit hlimit hcur => ?_
      subst hlimit
      exact nothing_pending hok hconn shut hcur
    refine ⟨fun x hx => ?_, fun conn r' auth' hs hr hauth' shut => ?_⟩
    · by_cases hr : r.pulls = true
      · have hto := launched_by_pull hr inv hx
        refine ⟨c.id, r, rfl, hr, ?_⟩
        rw [hto]
        by_contra hne
        exact launched_moves inv hx (hshut hr (by simpa using hne)).1
      · have hop : pullsOp (r.op auth) = false := by
          cases r with
          | inbox markInjected => cases markInjected <;>
            simp_all [Request.pulls, Request.op, pullsOp]
          | _ => simp_all [Request.pulls, Request.op, pullsOp]
        exact absurd hx (not_launched inv (exec_presented env mom hop d.db) x)
    · obtain ⟨rfl, hreq⟩ := Signal.frame.inj hs
      obtain rfl := Frame.request.inj hreq
      obtain rfl : auth' = auth := Option.some.inj (hauth'.symm.trans hconn)
      exact (hshut hr shut).imp Eq.symm Eq.symm

/-- Where no request is made, the gate is kept by launching nothing. -/
theorem gateKept_quiet {s : Signal} (inv : MailInv d.db)
    (h : Backed presented d.db d'.db) (hs : ∀ conn r, s = .frame conn (.request r) →
      AuditTrail d.db d'.db) : GateKept d s d' := by
  refine ⟨fun x hx => absurd hx (not_launched inv h x), fun conn r auth hsr _ _ _ => ?_⟩
  obtain ⟨es, n, heq⟩ := hs conn r hsr
  rw [heq]
  exact ⟨rfl, rfl⟩

theorem gateKept_stepped {s : Signal} {answer : Except Failure Response} (inv : MailInv d.db)
    (h : Stepped env mom d s answer d') (hok : pullsReady d (s, mom) = true) :
    GateKept d s d' := by
  cases h with
  | noted h =>
    obtain ⟨b, hb, rfl⟩ := h
    exact gateKept_quiet inv (.bookkeeping hb.bookkeeping) fun _ _ _ => hb.trail
  | accepted =>
    refine gateKept_quiet inv (.of_eq rfl) fun _ _ h => ?_
    cases h
  | greeted =>
    refine gateKept_quiet inv (.of_eq rfl) fun _ _ h => ?_
    cases h
  | @registered c p a b found answered =>
    refine gateKept_quiet inv ?_ fun _ _ h => by cases h
    have hmoves : Moves env registerKinds d.db (register env mom (p.input c.id) d.db).2 :=
      register_respects d.db
    rw [answered] at hmoves
    exact hmoves.backed presented_sealed rfl
  | requested found hauth => exact gateKept_requested inv found hauth hok
  | @closed c =>
    refine gateKept_quiet inv ?_ fun _ _ h => by cases h
    cases hauth : c.auth with
    | none => simp only [Daemon.close, hauth]; exact IsFrame.refl _
    | some a => simp only [Daemon.close, hauth]; exact .of_eq rfl
  | upkept u =>
    refine gateKept_quiet inv (exec_presented env mom ?_ d.db) fun _ _ h => by cases h
    cases u <;> rfl
  | restarted =>
    refine gateKept_quiet inv ?_ fun _ _ h => by cases h
    have hmove : Move env .operator d.db (d.db.ensureOperatorSession env) := .operator
    exact hmove.backed presented_sealed rfl

/-- **The readiness gate.** In every run whose `checkpoint_pull` frames find both gates open
    or nothing to present, a delivery goes into flight only by a pull, and only while its
    recipient is ready and, but for the manual step, its receive control active; a pull in any
    other state changes no delivery and records no presentation. -/
theorem injection_behind_gate {log : List (DaemonEvent × Except Failure Response)}
    (run : Run (Daemon.step env) (fun d e => pullsReady d e = true) (Daemon.initial env) log d)
    (e : DaemonEvent) (he : pullsReady d e = true) : GateKept d e.1 (d.step env e).2 :=
  gateKept_stepped (.daemon run) (step_stepped env d e) he

/-- `alpha` and `beta` register, and `alpha` asks `beta` something. Nobody has signalled that
    `beta` is ready. -/
def askedBeforeReady : List DaemonEvent :=
  arrives 1 { sessionId := "alpha", processId := 1 } ++
    arrives 2 { sessionId := "beta", processId := 2, capabilities := ["ack"]
                requestedSessionName := some "beta-name" } ++
    [(.frame 1 (.request (.sendMessage { recipient := "beta-name", text := "please" })),
      { nowMs := 1000 })]

/-- The inbox pull of `beta` at the shut gate changes nothing. -/
theorem inbox_waits_for_ready :
    let d := (runAll (Daemon.step plainEnv) (Daemon.initial plainEnv) askedBeforeReady).2
    let d' := (d.step plainEnv (.frame 2 (.request (.inbox true none none)), { nowMs := 1001 })).2
    (d.db.deliveries.any fun x => x.recipientSessionId = "beta" ∧ x.state.waiting) ∧
      d'.db.deliveries = d.db.deliveries ∧ d'.db.injections = d.db.injections := by
  intro d d'
  have hrun : Run (Daemon.step plainEnv) (fun d e => pullsReady d e = true)
      (Daemon.initial plainEnv) _ d := Run.of_runAll askedBeforeReady (by decide +kernel)
  have hkept : GateKept d _ d' := injection_behind_gate hrun
    (.frame 2 (.request (.inbox true none none)), { nowMs := 1001 }) rfl
  refine ⟨by decide +kernel, ?_⟩
  obtain ⟨auth, hauth, hshut⟩ : ∃ auth, d.authOf 2 = some auth ∧
      d.db.gateOpen (.inbox true none none) auth.sessionId = false := by
    refine ⟨(d.authOf 2).get (by decide +kernel), by simp, ?_⟩
    decide +kernel
  exact hkept.shut 2 _ auth rfl rfl hauth hshut

/-- `beta` has not signalled that it is ready, and its `checkpoint_pull` takes the request
    into flight, with the deadline of its acknowledgement armed. -/
theorem checkpoint_pull_before_ready :
    ∃ log d, Run (Daemon.step plainEnv) Any (Daemon.initial plainEnv) log d ∧
      ¬ GateKept d (.frame 2 (.request (.checkpointPull none)))
        (d.step plainEnv (.frame 2 (.request (.checkpointPull none)), { nowMs := 1001 })).2 := by
  refine ⟨_, _, Run.of_events (Daemon.step plainEnv) (Daemon.initial plainEnv) askedBeforeReady,
    fun hkept => ?_⟩
  have hlaunched : ∃ x ∈ (runAll (Daemon.step plainEnv) (Daemon.initial plainEnv)
      askedBeforeReady).2.db.deliveries, x.state.waiting = true ∧
      x.recipientSessionId = "beta" ∧
      ∃ x' ∈ ((runAll (Daemon.step plainEnv) (Daemon.initial plainEnv) askedBeforeReady).2.step
        plainEnv (.frame 2 (.request (.checkpointPull none)), { nowMs := 1001 })).2.db.deliveries,
        x'.messageId = x.messageId ∧ x'.state = .transportWritten ∧ x'.leaseExpiresAt.isSome := by
    decide +kernel
  obtain ⟨x, hx, hwaits, hto, x', hx', hid, hstate, -⟩ := hlaunched
  obtain ⟨_, r, -, -, hopen⟩ := hkept.launched x ⟨hx, hwaits, x', hx', hid, .inl hstate⟩
  rw [hto, Broker.gateOpen] at hopen
  have hready : (runAll (Daemon.step plainEnv) (Daemon.initial plainEnv)
      askedBeforeReady).2.db.readinessOf "beta" = .initializing := by decide +kernel
  simp [hready] at hopen

end Proof
end XBus
