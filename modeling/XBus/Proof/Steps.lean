import XBus.Proof.Walks
import XBus.Proof.Lifecycle

/-!
# Every step is a sequence of moves

The walks of the registry half of the stores and of the sweep, and `exec_moves`, which
collects all walks: an operation moves along the kinds `Op.kinds` lists for it.
-/

set_option autoImplicit false

namespace XBus
namespace Proof

open Lib

variable {env : Env} {mom : Moment} {now : Iso} {K : List Kind} {auth : SessionAuthority}
  {b : Broker}

/-! ## Registering -/

/-- Whether a registration begins a lifecycle of its session. -/
def beginsLifecycle (input : RegisterInput) (b : Broker) : Bool :=
  match b.session? input.sessionId with
  | none => true
  | some existing => input.supersede || existing.expiredAt.isSome

/-- A registration that answered, stage by stage: what it resolved to, the state `b₁` in
    which it entered the session, and the state `b₂` it entered into. -/
structure Registered (env : Env) (mom : Moment) (raw : RegisterInput) (b : Broker)
    (a : SessionAuthority) (b' : Broker) (reclaim : ReclaimOutcome) (input : RegisterInput)
    (b₁ b₂ : Broker) : Prop where
  mortal : raw.sessionId ≠ operatorSessionId
  reclaim_eq : reclaim = reclaimOf env mom (b.mint.purgeStaleEdge raw.sessionId) raw
  input_eq : input = redirected raw reclaim (b.mint.redirectOf raw.sessionId)
  before : b₁ = (b.mint.purgeStaleEdge raw.sessionId).recordReclaim raw.sessionId reclaim
  entered : Entered env mom.now input b₁ a.epoch b₂
  after : b' = (settleName env mom input (beginsLifecycle input b₁)
    (b₂.insertComponent input b.nextId a.epoch mom.now)).2.audit .componentRegistered
      (some input.sessionId)
  sessionId : a.sessionId = input.sessionId
  role : a.role = input.role
  connectionId : a.connectionId = input.connectionId
  componentId : a.componentInstanceId = b.nextId
  name : a.sessionNameState = (settleName env mom input (beginsLifecycle input b₁)
    (b₂.insertComponent input b.nextId a.epoch mom.now)).1.state
  outcome : a.reclaimOutcome = reportedOutcome raw reclaim

theorem register_ok {raw : RegisterInput} {a : SessionAuthority} {b' : Broker}
    (h : register env mom raw b = (.ok a, b')) :
    ∃ reclaim input b₁ b₂, Registered env mom raw b a b' reclaim input b₁ b₂ := by
  simp only [register, registerTransaction, Call.bind_ok, Call.require_ok,
    Call.transaction_ok, Call.act_bind,
    Call.modify_bind, Call.get_bind, Call.pure_ok] at h
  obtain ⟨_, _, ⟨hmortal, rfl⟩, epoch, b₂, henter, rfl, rfl⟩ := h
  exact ⟨_, _, _, b₂, hmortal, rfl, rfl, rfl, enterSession_ok henter, rfl, rfl, rfl, rfl, rfl, rfl,
    rfl⟩

theorem purgeStaleEdge_eq (b : Broker) (sid : SessionId) :
    ∃ es, b.purgeStaleEdge sid = { b with physicalMap := es } := by
  unfold Broker.purgeStaleEdge
  split
  · exact ⟨_, rfl⟩
  · exact ⟨_, rfl⟩

theorem recordReclaim_eq (b : Broker) (sid : SessionId) (reclaim : ReclaimOutcome) :
    ∃ es, b.recordReclaim sid reclaim = { b with physicalMap := es } := by
  unfold Broker.recordReclaim
  split
  · split
    · exact ⟨_, rfl⟩
    · exact ⟨_, rfl⟩
  · exact ⟨_, rfl⟩

/-- Until it enters its session, a registration has consumed an id and moved edges. -/
theorem edges_eq (b : Broker) (sid : SessionId) (reclaim : ReclaimOutcome) :
    ∃ es, (b.mint.purgeStaleEdge sid).recordReclaim sid reclaim =
      { b.mint with physicalMap := es } := by
  obtain ⟨es₁, h₁⟩ := purgeStaleEdge_eq b.mint sid
  obtain ⟨es₂, h₂⟩ := recordReclaim_eq (b.mint.purgeStaleEdge sid) sid reclaim
  exact ⟨es₂, by rw [h₂, h₁]⟩

theorem Registered.before_eq {raw input : RegisterInput} {a : SessionAuthority}
    {reclaim : ReclaimOutcome} {b' b₁ b₂ : Broker}
    (h : Registered env mom raw b a b' reclaim input b₁ b₂) :
    ∃ es, b₁ = { b.mint with physicalMap := es } :=
  h.before ▸ edges_eq b raw.sessionId reclaim

theorem Entered.moves {input : RegisterInput} {epoch : Nat} {b' : Broker}
    (h : Entered env now input b epoch b') :
    Moves env [.create, .advance, .join] b b' := by
  cases h with
  | created absent => exact .one (by simp) (.create input absent)
  | advanced found => exact .one (by simp) (.advance now input.sessionId _ found)
  | joined => exact .one (by simp) (.join now input)

theorem settleName_moves {input : RegisterInput} {isNew : Bool}
    (found : (b.session? input.sessionId).isSome) :
    Moves env [.note, .claim] b (settleName env mom input isNew b).2 := by
  unfold settleName
  split
  · exact IsFrame.trans (.one (by simp) (.claim mom input.sessionId _ found))
      (.note (by simp) .refresh)
  · split
    · exact .refl
    · split
      · exact .one (by simp) (.claim mom input.sessionId _ found)
      · exact .refl

/-- Once it has entered its session, a registration seats its component and settles the name. -/
theorem Registered.seats {raw input : RegisterInput} {a : SessionAuthority}
    {reclaim : ReclaimOutcome} {b' b₁ b₂ : Broker}
    (h : Registered env mom raw b a b' reclaim input b₁ b₂) :
    Moves env [.note, .component, .claim] b₂ b' := by
  have hepoch := h.entered.epochOf
  set b₃ := b₂.insertComponent input b.nextId a.epoch mom.now with hb₃
  have hcomp : Moves env [.note, .component, .claim] b₂ b₃ := .one (by decide) (.component _)
  have hfound : (b₃.session? input.sessionId).isSome := by
    obtain ⟨s, hs, -⟩ := Option.map_eq_some_iff.mp hepoch
    exact Option.isSome_iff_exists.mpr ⟨s, hs⟩
  have hname : Moves env [.note, .component, .claim] b₃
      (settleName env mom input (beginsLifecycle input b₁) b₃).2 :=
    (settleName_moves hfound).mono (by decide)
  rw [h.after, ← hb₃]
  exact IsFrame.trans hcomp (IsFrame.trans hname (.note (by decide) .audit))

theorem Registered.moves {raw input : RegisterInput} {a : SessionAuthority}
    {reclaim : ReclaimOutcome} {b' b₁ b₂ : Broker}
    (h : Registered env mom raw b a b' reclaim input b₁ b₂) :
    Moves env [.note, .create, .advance, .join, .component, .claim] b₁ b' :=
  IsFrame.trans (h.entered.moves.mono (by decide)) (h.seats.mono (by decide))

/-- The moves of a registration. -/
def registerKinds : List Kind := [.note, .redirect, .create, .advance, .join, .component, .claim]

/-- A refused registration leaves nothing behind. -/
theorem register_refuses {raw : RegisterInput} : Refuses Eq (register env mom raw) :=
  Refuses.bind .require fun _ => .transaction _

theorem register_respects {raw : RegisterInput} :
    Respects (Moves env registerKinds) (register env mom raw) := by
  refine register_refuses.respects (fun _ _ h => h ▸ .refl) fun b a b' h => ?_
  obtain ⟨reclaim, input, b₁, b₂, hreg⟩ := register_ok h
  obtain ⟨es, hb₁⟩ := hreg.before_eq
  have hedges : Moves env registerKinds b b₁ := by
    rw [hb₁]
    exact IsFrame.trans (.note (by decide) .mint) (.one (by decide) (.redirect es))
  exact IsFrame.trans hedges (hreg.moves.mono (by decide))

/-! ## Renaming -/

/-- The reclaim of a rename that went through: the caller had the secret of the name's
    owner, and the owner's session has no mcp component that may be alive. -/
structure Reclaimed (env : Env) (mom : Moment) (auth : SessionAuthority) (norm : SessionName)
    (secret : Option String) (b b' : Broker) (own : NameOwnership) : Prop where
  owned : b.ownerOf norm.normalized = some own
  credential : ∃ s, secret = some s ∧ own.ownerSecretHash = some (env.hashSecret s)
  dead : ∀ csid, own.currentSessionId = some csid → b.hasProvenLiveMcp mom csid = false
  state : b' = b.forfeit norm.normalized (b.logicalIdOf auth.sessionId) own.currentSessionId

theorem reclaimForRename_ok {norm : SessionName} {secret : Option String} {u : Unit} {b' : Broker}
    (h : reclaimForRename env mom auth norm secret b = (.ok u, b')) :
    ∃ own, Reclaimed env mom auth norm secret b b' own := by
  simp only [reclaimForRename, Call.get_bind] at h
  cases hown : b.ownerOf norm.normalized with
  | none => cases secret <;> simp [hown] at h
  | some own =>
    cases hhash : own.ownerSecretHash with
    | none => cases secret <;> simp [hown, hhash] at h
    | some hash =>
      cases secret with
      | none => simp [hown, hhash] at h
      | some s =>
        simp only [hown, Option.bind_some, hhash, Call.bind_ok, Call.require_ok,
          Call.modify_ok] at h
        obtain ⟨_, _, ⟨rfl, rfl⟩, _, _, ⟨hdead, rfl⟩, rfl⟩ := h
        refine ⟨own, hown, ⟨s, rfl, hhash⟩, fun csid hcsid => ?_, rfl⟩
        simpa [hcsid] using hdead

/-- A rename that answered: the caller holds the current epoch in the mcp role, and the name
    was free or has been reclaimed. -/
theorem renameSession_ok {raw : String} {secret : Option String} {r : RenameResult} {b' : Broker}
    (h : renameSession env mom auth raw secret b = (.ok r, b')) :
    auth.role = .mcp ∧ b.epochOf auth.sessionId = some auth.epoch ∧
      ∃ norm s b₁, validateSessionName env.text raw = .ok norm ∧
        b.session? auth.sessionId = some s ∧
        b' = (b₁.rename env mom auth.sessionId norm s.expiredAt.isSome).2 ∧
        ((b.nameTaken norm.normalized auth.sessionId = false ∧ b₁ = b) ∨
          (b.nameTaken norm.normalized auth.sessionId = true ∧
            ∃ own, Reclaimed env mom auth norm secret b b₁ own)) := by
  simp only [renameSession, Call.bind_ok, Call.require_ok, Call.lift_ok, Call.transaction_ok,
    Call.get_bind, Call.orThrow_ok] at h
  obtain ⟨_, _, ⟨hrole, rfl⟩, norm, _, ⟨hnorm, rfl⟩, s, _, ⟨hs, rfl⟩, _, _, ⟨hepoch, rfl⟩, h⟩ := h
  refine ⟨hrole, by simp [Broker.epochOf, hs, hepoch], norm, s, ?_⟩
  split at h
  · rename_i htaken
    simp only [Call.bind_ok, Call.act_bind, Call.pure_ok] at h
    obtain ⟨_, b₁, hreclaim, -, rfl⟩ := h
    exact ⟨b₁, hnorm, hs, rfl, .inr ⟨htaken, reclaimForRename_ok hreclaim⟩⟩
  · rename_i hfree
    simp only [Call.act_bind, Call.pure_ok] at h
    exact ⟨b, hnorm, hs, h.2.symm, .inl ⟨by simpa using hfree, rfl⟩⟩

theorem renameSession_refuses {raw : String} {secret : Option String} :
    Refuses Eq (renameSession env mom auth raw secret) :=
  Refuses.bind .require fun _ => Refuses.bind .lift fun _ => .transaction _

theorem renameSession_respects {raw : String} {secret : Option String} :
    Respects (Moves env [.rename, .reclaim]) (renameSession env mom auth raw secret) := by
  refine renameSession_refuses.respects (fun _ _ h => h ▸ .refl) fun b r b' h => ?_
  obtain ⟨-, -, norm, s, b₁, hnorm, hs, rfl, ⟨hfree, rfl⟩ | ⟨htaken, own, hown⟩⟩ :=
    renameSession_ok h
  · exact .one (by simp) (.rename mom auth.sessionId _ (by simp [hs]) hnorm hfree)
  · rw [hown.state]
    exact .one (by simp) (.reclaim mom auth.sessionId _ (by simp [hs]) hnorm htaken hown.owned)

theorem operatorRenameAlias_ok {sid : SessionId} {raw : String} {r : NameStatus} {b' : Broker}
    (h : operatorRenameAlias env mom sid raw b = (.ok r, b')) :
    ∃ norm, (b.session? sid).isSome ∧ validateSessionName env.text raw = .ok norm ∧
      b.nameTaken norm.normalized sid = false ∧ b' = b.operatorRename env mom sid norm := by
  simp only [operatorRenameAlias, Call.transaction_ok, Call.get_bind, Call.bind_ok,
    Call.require_ok, Call.lift_ok, Call.modify_bind, Call.pure_ok] at h
  obtain ⟨_, _, ⟨hfound, rfl⟩, norm, _, ⟨hnorm, rfl⟩, _, _, ⟨hfree, rfl⟩, -, rfl⟩ := h
  exact ⟨norm, hfound, hnorm, by simpa using hfree, rfl⟩

theorem operatorRenameAlias_refuses {sid : SessionId} {raw : String} :
    Refuses Eq (operatorRenameAlias env mom sid raw) := .transaction _

theorem operatorRenameAlias_respects {sid : SessionId} {raw : String} :
    Respects (Moves env [.rename]) (operatorRenameAlias env mom sid raw) := by
  refine operatorRenameAlias_refuses.respects (fun _ _ h => h ▸ .refl) fun b r b' h => ?_
  obtain ⟨norm, hfound, hnorm, hfree, rfl⟩ := operatorRenameAlias_ok h
  exact .one (by simp) (.operatorRename mom sid hfound hnorm hfree)

/-! ## The sweep -/

/-- A restatement of deliveries that is written into the audit trail. -/
theorem moves_restated {p : Delivery → Bool} {f : Delivery → Delivery} {t : AuditType}
    {s : Option SessionId} {m : Option Id} (hn : .note ∈ K) (hr : .restate ∈ K)
    (key : ∀ d, (f d).messageId = d.messageId ∧ (f d).recipientSessionId = d.recipientSessionId)
    (grounded : ∀ d, (f d).state ≠ .transportWritten)
    (open' : ∀ d, p d = true → d.state ≠ .completed) :
    Moves env K b ((b.updateDeliveries p f).audit t s m) :=
  IsFrame.trans (.one hr (.restate p f key grounded open')) (.note hn .audit)

theorem reapAckTimeout_moves (acc : AckSweep) (r : Delivery) :
    Moves env [.note, .restate] acc.db (reapAckTimeout env mom acc r).db := by
  have hopen (b : Broker) (d : Delivery) (hd : b.awaitingAck r.messageId d = true) :
      d.state ≠ .completed := by
    intro hc
    simp [Broker.awaitingAck, hc] at hd
  unfold reapAckTimeout
  split
  · exact .refl
  · dsimp only
    split
    · exact .refl
    · split
      · exact moves_restated (by simp) (by simp) (fun _ => ⟨rfl, rfl⟩) (fun _ => by simp)
          (hopen acc.db)
      · exact moves_restated (by simp) (by simp) (fun _ => ⟨rfl, rfl⟩) (fun _ => by simp)
          (hopen acc.db)

theorem expireWaiting_moves (acc : Nat × Broker) (r : Delivery) :
    Moves env [.note, .restate] acc.2 (expireWaiting now acc r).2 := by
  unfold expireWaiting
  split
  · refine moves_restated (by simp) (by simp) (fun _ => ⟨rfl, rfl⟩) (fun _ => by simp)
      fun d hd hc => ?_
    simp [hc, DeliveryState.waiting] at hd
  · exact .refl

theorem expireSession_moves (acc : Nat × Broker) {s : Session}
    (mortal : s.sessionId ≠ operatorSessionId) :
    Moves env [.tombstone] acc.2 (expireSession now acc s).2 := by
  unfold expireSession
  split
  · exact .one (by simp) (.tombstone s.sessionId now mortal)
  · exact .refl

theorem mortal_of_mem_dueSessions {s : Session} (h : s ∈ b.dueSessions now) :
    s.sessionId ≠ operatorSessionId := by
  rw [Broker.dueSessions, List.mem_insertionSort] at h
  have := (List.mem_filter.mp h).2
  simp only [decide_eq_true_eq] at this
  exact this.2.2

theorem sweep_respects :
    Respects (Moves env [.note, .restate, .tombstone, .lapse]) (sweep env mom) := by
  refine Respects.transaction (.act fun b => ?_)
  have hacks : Moves env [.note, .restate] b (reapAckTimeouts env mom b).db :=
    IsFrame.foldl AckSweep.db (b.lapsed mom.now) { db := b } fun acc r _ =>
      reapAckTimeout_moves acc r
  have httl (b : Broker) : Moves env [.note, .restate] b (reapAcceptanceTtl mom.now b).2 :=
    IsFrame.foldl Prod.snd (b.pastTtl mom.now) (0, b) fun acc r _ => expireWaiting_moves acc r
  have hgone (b : Broker) : Moves env [.tombstone] b (reapExpiredSessions mom.now b).2 :=
    IsFrame.foldl Prod.snd (b.dueSessions mom.now) (0, b) fun acc s hs =>
      expireSession_moves acc (mortal_of_mem_dueSessions hs)
  have hnames (b : Broker) : Moves env [.note, .restate, .tombstone, .lapse] b
      (reapStalePendingNames mom.now b) := .one (by simp) (.lapse mom.now)
  exact IsFrame.trans (hacks.mono (by simp)) (IsFrame.trans ((httl _).mono (by simp))
    (IsFrame.trans ((hgone _).mono (by simp)) (hnames _)))

/-! ## The operator's hand -/

theorem operatorRedeliver_respects {mid : Id} {confirm : Bool} :
    Respects (Moves env [.note, .restate]) (operatorRedeliver now mid confirm) := by
  have hrearm (b : Broker) (p : DeliveryState → Bool) (hp : p .completed = false) {t : AuditType}
      {s : Option SessionId} {m : Option Id} :
      Moves env [.note, .restate] b ((b.rearm mid p now).audit t s m) := by
    refine moves_restated (by simp) (by simp) (fun _ => ⟨rfl, rfl⟩) (fun _ => by simp)
      fun d hd hc => ?_
    simp [hc, hp] at hd
  refine Respects.transaction (Respects.bind .get fun b => ?_)
  split
  · exact .pure _
  · refine Respects.ite ?_ ?_
    · refine Respects.bind (.requireElse fun _ => .note (by simp) .audit) fun _ =>
        Respects.bind (.act fun _ => .note (by simp) .mint) fun _ =>
        Respects.bind (.modify fun b => ?_) fun _ => .pure _
      exact hrearm b _ (by decide)
    · refine Respects.bind .require fun _ => Respects.bind (.modify fun b => ?_) fun _ => .pure _
      exact hrearm b _ (by decide)

theorem redrive_respects {mid : Id} {validate : SessionId → String → Option String} :
    Respects (Moves env [.note, .redrive]) (redrive env now mid validate) := by
  refine Respects.transaction_of_ok fun b r b' h => ?_
  simp only [Call.get_bind] at h
  -- Nothing is written unless the delivery is dead and the peer may be written to.
  cases hm : b.message? mid with
  | none =>
    simp only [hm, Call.pure_ok] at h
    exact h.2 ▸ .refl
  | some m =>
    cases hd : b.delivery? mid with
    | none =>
      simp only [hm, hd, Call.pure_ok] at h
      exact h.2 ▸ .refl
    | some d =>
      simp only [hm, hd] at h
      split at h
      · exact (Call.pure_ok.mp h).2 ▸ .refl
      · rename_i hdead
        cases hv : validate m.recipientSessionId (env.text.toLowerCase m.senderAlias) with
        | some reason =>
          simp only [hv, Call.pure_ok] at h
          exact h.2 ▸ .refl
        | none =>
          simp only [hv, Call.act_bind, Call.modify_bind, Call.pure_ok] at h
          obtain ⟨-, rfl⟩ := h
          have hdead' : b.mint.delivery? mid = some d := hd
          have hmint : Moves env [.note, .redrive] b b.mint := .note (by simp) .mint
          have hredrive (f : Delivery → Delivery)
              (key : ∀ d, (f d).messageId = d.messageId ∧
                (f d).recipientSessionId = d.recipientSessionId)
              (grounded : ∀ d, (f d).state ≠ .transportWritten) :
              Moves env [.note, .redrive] b.mint
                ((b.mint.updateDeliveries (fun d => d.messageId = mid) f).audit
                  .deadLetterRedrive none (some mid)) :=
            IsFrame.trans (.one (by simp) (.redrive mid f hdead' (not_not.mp hdead) key grounded))
              (.note (by simp) .audit)
          exact IsFrame.trans hmint (hredrive _ (fun _ => ⟨rfl, rfl⟩) fun _ => by simp)

theorem discard_respects {mid : Id} : Respects (Moves env [.note, .restate]) (discard now mid) := by
  refine Respects.act fun b => ?_
  split
  · refine moves_restated (by simp) (by simp) (fun _ => ⟨rfl, rfl⟩) (fun _ => by simp)
      fun d hd hc => ?_
    simp [hc] at hd
  · exact .refl

/-- A removal that found a row: the session was not connected, and is not the operator. -/
theorem operatorRemoveRecord_ok {sid : SessionId} {found : Bool} {b' : Broker}
    (h : operatorRemoveRecord now sid b = (.ok found, b')) :
    sid ≠ operatorSessionId ∧ ((found = false ∧ b.session? sid = none ∧ b' = b) ∨
      ∃ s, found = true ∧ b.session? sid = some s ∧ s.state ≠ .connected ∧
        b' = b.deleteSession sid now) := by
  simp only [operatorRemoveRecord, Call.bind_ok, Call.require_ok, Call.transaction_ok,
    Call.get_bind] at h
  obtain ⟨_, _, ⟨hmortal, rfl⟩, h⟩ := h
  refine ⟨hmortal, ?_⟩
  cases hs : b.session? sid with
  | none =>
    simp only [hs, Call.pure_ok] at h
    exact .inl ⟨h.1.symm, rfl, h.2.symm⟩
  | some s =>
    simp only [hs, Call.bind_ok, Call.require_ok, Call.modify_bind, Call.pure_ok] at h
    obtain ⟨_, _, ⟨hidle, rfl⟩, rfl, rfl⟩ := h
    exact .inr ⟨s, rfl, rfl, hidle, rfl⟩

theorem operatorRemoveRecord_refuses {sid : SessionId} :
    Refuses Eq (operatorRemoveRecord now sid) :=
  Refuses.bind .require fun _ => .transaction _

theorem operatorRemoveRecord_respects {sid : SessionId} :
    Respects (Moves env [.remove]) (operatorRemoveRecord now sid) := by
  refine operatorRemoveRecord_refuses.respects (fun _ _ h => h ▸ .refl) fun b r b' h => ?_
  obtain ⟨hmortal, ⟨-, -, rfl⟩ | ⟨s, -, hs, hidle, rfl⟩⟩ := operatorRemoveRecord_ok h
  · exact .refl
  · exact .one (by simp) (.remove sid now hmortal hs hidle)

theorem recordManagedSession_respects {sid : SessionId} :
    Respects (Moves env [.dormant]) (recordManagedSession env sid) := by
  refine Respects.modify fun b => ?_
  split
  · exact .refl
  · rename_i habsent
    exact .one (by simp) (.dormant sid _ _ habsent (.inr rfl))

theorem importDormantSession_respects {sid : SessionId} :
    Respects (Moves env [.dormant]) (importDormantSession env sid) := by
  refine Respects.modify fun b => ?_
  split
  · exact .refl
  · rename_i habsent
    exact .one (by simp) (.dormant sid _ _ habsent (.inl rfl))

/-! ## Every operation -/

/-- The caller and the checkpoint id of a pull that names one. -/
def checkpointGiven : Op → Option (SessionAuthority × String)
  | .checkpointPull auth (some ck) _ => some (auth, ck)
  | .processNext auth (some ck) => some (auth, ck)
  | .inboxView auth (some ck) _ => some (auth, ck)
  | _ => none

/-- The moves an operation is made of. -/
def kindsOf (clean : Bool) : Op → List Kind
  | .register _ => registerKinds
  | .send _ _ | .operatorSend _ => [.post]
  | .checkpointPull _ _ _ | .processNext _ _ | .inboxView _ _ _ | .daemonCheckpointPull _ _ =>
    [.note, .inject clean]
  | .peek _ _ | .registerAlias _ _ | .signalReadiness _ _ | .setControl _ _ | .blockPeer _ _ _
  | .operatorSetControl _ _ => [.note]
  | .ack _ _ => [.note, .restate, .consume]
  | .reply _ _ => [.note, .answer, .restate, .consume]
  | .redeliver _ _ => [.note, .reissue]
  | .renameSession _ _ _ => [.rename, .reclaim]
  | .connClosed _ _ => [.close]
  | .sweep => [.note, .restate, .tombstone, .lapse]
  | .operatorRedeliver _ _ | .discard _ => [.note, .restate]
  | .redrive _ _ => [.note, .redrive]
  | .operatorRenameAlias _ _ => [.rename]
  | .operatorRemoveRecord _ => [.remove]
  | .recordManagedSession _ | .importDormantSession _ => [.dormant]
  | .ensureOperatorSession => [.operator]

/-- A pull that runs under the caller's checkpoint id or a fresh one. -/
theorem withCheckpoint_moves {α : Type} {x : CheckpointId → BrokerCall α} {given : Option String}
    {clean : Bool} (auth : SessionAuthority)
    (hx : ∀ b ck, MintedBefore ck b.nextId → (clean = true → CleanFor b auth ck) →
      Moves env [.note, .inject clean] b (x ck b).2)
    (hclean : clean = true →
      MintedBelow b ∧ ∀ ck, given = some ck → CleanFor b auth (.given ck)) :
    Moves env [.note, .inject clean] b ((checkpointOf given >>= x) b).2 := by
  cases given with
  | some ck => exact hx b (.given ck) (fun _ _ h => by cases h) fun hc => (hclean hc).2 ck rfl
  | none =>
    exact IsFrame.trans (.note (by simp) .mint) (hx b.mint _ (mintedBefore_mint b _)
      fun hc => (hclean hc).1.cleanFor)

/-- Every operation is a sequence of moves. With `clean`, the operation meets only minted ids
    below the next one and, if it names a checkpoint id, a clean one; then so is every
    injection it makes. -/
theorem exec_moves (env : Env) (mom : Moment) (op : Op) (b : Broker) (clean : Bool)
    (hclean : clean = true → MintedBelow b ∧
      ∀ auth ck, checkpointGiven op = some (auth, ck) → CleanFor b auth (.given ck)) :
    Moves env (kindsOf clean op) b (exec env mom op b).2 := by
  -- One walk per operation. Pulls under a checkpoint also need it to be clean.
  cases op with
  | register input => exact register_respects.map b
  | send auth input => exact send_respects.map b
  | operatorSend input => exact operatorSend_respects.map b
  | checkpointPull auth given limit =>
    refine withCheckpoint_moves auth (fun b ck hck h => ?_)
      fun hc => ⟨(hclean hc).1, fun ck hck => (hclean hc).2 auth ck (by rw [hck]; rfl)⟩
    rw [Call.map_snd]
    exact checkpointPull_moves hck h
  | processNext auth given =>
    refine withCheckpoint_moves auth (fun b ck hck h => ?_)
      fun hc => ⟨(hclean hc).1, fun ck hck => (hclean hc).2 auth ck (by rw [hck]; rfl)⟩
    rw [Call.map_snd]
    exact processNext_moves hck h
  | inboxView auth given limit =>
    refine withCheckpoint_moves auth (fun b ck hck h => ?_)
      fun hc => ⟨(hclean hc).1, fun ck hck => (hclean hc).2 auth ck (by rw [hck]; rfl)⟩
    rw [Call.map_snd]
    exact inboxView_moves hck h
  | daemonCheckpointPull auth limit =>
    simp only [exec, Call.map_snd]
    exact daemonCheckpointPull_moves fun hc => (hclean hc).1
  | peek auth limit => exact (respects_note (by simp [kindsOf]) pendingForSession_respects).map b
  | ack auth input => exact ack_respects.map b
  | reply auth input => exact reply_respects.map b
  | redeliver auth mid => exact redeliver_respects.map b
  | registerAlias auth raw =>
    exact (respects_note (by simp [kindsOf]) registerAlias_respects).map b
  | renameSession auth raw secret => exact renameSession_respects.map b
  | signalReadiness auth hints =>
    exact (respects_note (by simp [kindsOf]) signalReadiness_respects).map b
  | setControl auth mode => exact (respects_note (by simp [kindsOf]) setControl_respects).map b
  | blockPeer auth handle unblock =>
    exact (respects_note (by simp [kindsOf]) blockPeer_respects).map b
  | connClosed auth conn => exact .one (by simp [kindsOf]) (.close auth conn)
  | sweep => exact sweep_respects.map b
  | operatorRedeliver mid confirm => exact operatorRedeliver_respects.map b
  | redrive mid validate => exact redrive_respects.map b
  | discard mid => exact discard_respects.map b
  | operatorRenameAlias sid raw => exact operatorRenameAlias_respects.map b
  | operatorSetControl sid mode =>
    exact (respects_note (by simp [kindsOf]) operatorSetControl_respects).map b
  | operatorRemoveRecord sid => exact operatorRemoveRecord_respects.map b
  | recordManagedSession sid => exact recordManagedSession_respects.map b
  | importDormantSession sid => exact importDormantSession_respects.map b
  | ensureOperatorSession => exact .one (by simp [kindsOf]) .operator

/-- A property every kind of move keeps holds in every reachable state. -/
theorem reachable_of_moves {P : Broker → Prop} {ok : Broker → Event → Prop}
    (hinit : P (initial env)) (hmove : ∀ b b' k, Move env k b b' → P b → P b')
    (h : Reachable env ok b) : P b := by
  obtain ⟨log, run⟩ := h
  refine run.invariant hinit fun u e hu _ => ?_
  exact (exec_moves env e.2 e.1 u false (by simp)).keeps hu fun b b' k _ => hmove b b' k

end Proof
end XBus
