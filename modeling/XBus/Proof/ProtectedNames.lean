import XBus.Proof.NameAuthority

/-!
# Protected names

What an operation does to the naming: all operations but one leave the names of all sessions
but one alone, and then no name can have changed hands. The exception is a rename with
reclaim, and it checks a secret. A reclaim at registration moves no name either: it takes the
reclaiming component to the session that owns the name.

The rename asks the process prober about the owner's latest mcp component and no other. Where an
earlier one is still live the name is taken from under it, and just there
(`protected_names_move_only_with_secret`).
-/

set_option autoImplicit false

namespace XBus
namespace Proof

open Lib

variable {env : Env} {mom : Moment} {now : Iso} {b b' : Broker}
  {N : Naming SessionId String} {sid : SessionId} {norm : SessionName}

/-! ## What an operation does to names -/

theorem Moves.sameNames {kinds : List Kind} (h : Moves env kinds b b') (inv : NameInv b N)
    (hk : ∀ k ∈ kinds, renames k = false) : NameInv b' N :=
  h.keeps inv fun _ _ k hmem hmove hu => Move.sameNames hmove (hk k hmem) hu

theorem NameInv.register (inv : NameInv b N) {raw : RegisterInput} {a : SessionAuthority}
    (h : register env mom raw b = (.ok a, b')) :
    ∃ sid N', NameInv b' N' ∧ ChangedAt sid N N' := by
  obtain ⟨reclaim, input, b₁, b₂, hreg⟩ := register_ok h
  obtain ⟨es, hb₁⟩ := hreg.before_eq
  have hbefore : NameFrame b b₁ := hb₁ ▸ .mk rfl rfl
  obtain ⟨N₂, inv₂, hN₂⟩ := (inv.frame hbefore).entered hreg.entered
  have hcomp : NameFrame b₂ (b₂.insertComponent input b.nextId a.epoch mom.now) := .mk rfl rfl
  have hfound : ((b₂.insertComponent input b.nextId a.epoch mom.now).session?
      input.sessionId).isSome := by
    obtain ⟨s, hs, -⟩ := Option.map_eq_some_iff.mp hreg.entered.epochOf
    exact Option.isSome_iff_exists.mpr ⟨s, hs⟩
  have hname : ∃ N', NameInv (XBus.settleName env mom input (beginsLifecycle input b₁)
      (b₂.insertComponent input b.nextId a.epoch mom.now)).2 N' ∧
      ChangedAt input.sessionId N₂ N' := (inv₂.frame hcomp).settleName hfound
  obtain ⟨N₃, inv₃, hN₃⟩ := hname
  refine ⟨input.sessionId, N₃, ?_, hN₂.trans hN₃⟩
  rw [hreg.after]
  exact inv₃.frame (.bookkeeping .audit)

/-- A rename with reclaim, and what it does to the naming. -/
structure ReclaimStep (env : Env) (b b' : Broker) (e : Event) (N : Naming SessionId String)
    (auth : SessionAuthority) (raw : String) (secret : Option String) (norm : SessionName)
    (own : NameOwnership) : Prop where
  op : e.1 = .renameSession auth raw secret
  role : auth.role = .mcp
  epoch : b.epochOf auth.sessionId = some auth.epoch
  valid : validateSessionName env.text raw = .ok norm
  other : own.logicalIdentityId ≠ auth.sessionId
  reclaimed : ∃ b₁, Reclaimed env e.2 auth norm secret b b₁ own
  names : NameInv b' ((N.release own.logicalIdentityId).assign auth.sessionId norm.normalized)

/-- Every operation but a rename with reclaim changes the name of one session at most. -/
theorem NameInv.step (inv : NameInv b N) (e : Event) :
    (∃ sid N', NameInv (step env b e).2 N' ∧ ChangedAt sid N N') ∨
      ∃ auth raw secret norm own,
        ReclaimStep env b (XBus.step env b e).2 e N auth raw secret norm own := by
  -- An operation that renames nobody keeps the naming.
  have hother (h : ∀ k ∈ kindsOf false e.1, renames k = false) :
      ∃ sid N', NameInv (XBus.step env b e).2 N' ∧ ChangedAt sid N N' :=
    ⟨operatorSessionId, N, (exec_moves env e.2 e.1 b false (by simp)).sameNames inv h, .rfl'⟩
  obtain ⟨op, mom⟩ := e
  cases op with
  | register raw =>
    rw [show (XBus.step env b (.register raw, mom)).2 = (XBus.register env mom raw b).2 from
      Call.map_snd]
    rcases hr : XBus.register env mom raw b with ⟨f | a, b'⟩
    · obtain rfl := register_refuses b f b' hr
      exact .inl ⟨operatorSessionId, N, inv, .rfl'⟩
    · exact .inl (inv.register hr)
  | renameSession auth raw secret =>
    rw [show (XBus.step env b (.renameSession auth raw secret, mom)).2 =
      (renameSession env mom auth raw secret b).2 from Call.map_snd]
    rcases hr : renameSession env mom auth raw secret b with ⟨f | a, b'⟩
    · obtain rfl := renameSession_refuses b f b' hr
      exact .inl ⟨operatorSessionId, N, inv, .rfl'⟩
    · obtain ⟨hrole, hepoch, norm, s, b₁, hnorm, hs, rfl, ⟨hfree, rfl⟩ | ⟨htaken, own, hown⟩⟩ :=
        renameSession_ok hr
      · have hfree := inv.free_of_not_taken hfree
        exact .inl ⟨auth.sessionId, _, inv.rename (by simp [hs]) hfree, .assign hfree⟩
      · -- The name is taken, and not by the session itself: what follows is a reclaim.
        have hother : own.logicalIdentityId ≠ auth.sessionId := by
          obtain ⟨x, hne, hx⟩ := inv.nameTaken_iff.mp htaken
          exact N.sole (inv.ownerOf hown.owned).2.2.1 hx ▸ hne
        refine .inr ⟨auth, raw, secret, norm, own, rfl, hrole, hepoch, hnorm, hother,
          ⟨b₁, hown⟩, ?_⟩
        rw [hown.state]
        exact inv.reclaim (by simp [hs]) htaken hown.owned
  | operatorRenameAlias sid raw =>
    rw [show (XBus.step env b (.operatorRenameAlias sid raw, mom)).2 =
      (operatorRenameAlias env mom sid raw b).2 from Call.map_snd]
    rcases hr : operatorRenameAlias env mom sid raw b with ⟨f | a, b'⟩
    · obtain rfl := operatorRenameAlias_refuses b f b' hr
      exact .inl ⟨operatorSessionId, N, inv, .rfl'⟩
    · obtain ⟨norm, hfound, -, hfree, rfl⟩ := operatorRenameAlias_ok hr
      have hfree := inv.free_of_not_taken hfree
      exact .inl ⟨sid, _, inv.operatorRename hfound hfree, .assign hfree⟩
  | operatorRemoveRecord sid =>
    rw [show (XBus.step env b (.operatorRemoveRecord sid, mom)).2 =
      (operatorRemoveRecord mom.now sid b).2 from Call.map_snd]
    rcases hr : operatorRemoveRecord mom.now sid b with ⟨f | a, b'⟩
    · obtain rfl := operatorRemoveRecord_refuses b f b' hr
      exact .inl ⟨operatorSessionId, N, inv, .rfl'⟩
    · obtain ⟨hmortal, ⟨-, -, rfl⟩ | ⟨s, -, -, -, rfl⟩⟩ := operatorRemoveRecord_ok hr
      · exact .inl ⟨operatorSessionId, N, inv, .rfl'⟩
      · exact .inl ⟨sid, _, inv.deleteSession hmortal, .release⟩
  | _ => exact .inl (hother (by simp [kindsOf, renames]))

/-! ## Protected names -/

/-- A reclaim that is won: the name of the request has an owner, the secret is the owner's,
    and the gate sees no live incumbent. -/
theorem resolveReclaim_won {requested secret : Option String} {new csid lid : SessionId}
    (h : resolveReclaim env mom b requested secret new = .won csid lid) :
    ∃ raw norm own, requested = some raw ∧ validateSessionName env.text raw = .ok norm ∧
      b.ownerOf norm.normalized = some own ∧
      (∃ s, secret = some s ∧ own.ownerSecretHash = some (env.hashSecret s)) ∧
      own.currentSessionId = some csid ∧ own.logicalIdentityId = lid ∧ csid ≠ new ∧
      b.hasProvenLiveMcp mom csid = false := by
  -- The branches that refuse go one after the other; the last one is left.
  unfold resolveReclaim at h
  split at h
  · cases h
  · cases h
  · cases h
  · rename_i raw s
    split at h
    · cases h
    · rename_i norm hnorm
      split at h
      · cases h
      · rename_i own hown
        split at h
        · cases h
        · rename_i hash hhash
          split at h
          · cases h
          · rename_i hsecret
            split at h
            · cases h
            · rename_i csid' hcsid
              split at h
              · cases h
              · rename_i hne
                split at h
                · cases h
                · rename_i hdead
                  obtain ⟨rfl, rfl⟩ := ReclaimOutcome.won.inj h
                  exact ⟨raw, norm, own, rfl, hnorm, hown,
                    ⟨s, rfl, hhash.trans (congrArg some (not_not.mp hsecret))⟩, hcsid, rfl, hne,
                    by simpa using hdead⟩

/-- A reclaim that is lost has a reason. -/
theorem resolveReclaim_lost {requested secret : Option String} {new : SessionId} :
    resolveReclaim env mom b requested secret new ≠ .lost .reclaimSucceeded := by
  intro h
  unfold resolveReclaim at h
  repeat' split at h
  all_goals cases h

/-- A registration reports a reclaim exactly when it won one. -/
theorem won_of_reported {raw : RegisterInput}
    (h : reportedOutcome raw (reclaimOf env mom b raw) = some .reclaimSucceeded) :
    ∃ csid lid, reclaimOf env mom b raw = .won csid lid ∧
      resolveReclaim env mom b raw.requestedSessionName raw.ownerSecret raw.sessionId =
        .won csid lid := by
  unfold reclaimOf at h ⊢
  split at h
  · rename_i hrole
    cases hr : resolveReclaim env mom b raw.requestedSessionName raw.ownerSecret raw.sessionId with
    | won csid lid => exact ⟨csid, lid, by rw [if_pos hrole], rfl⟩
    | lost reason =>
      rw [hr] at h
      simp only [reportedOutcome] at h
      split at h
      · exact absurd (Option.some.inj h ▸ hr) resolveReclaim_lost
      · cases h
  · simp [reportedOutcome] at h

/-- The award that comes with a rename. -/
theorem NameInv.operatorRename_award (inv : NameInv b N) (env : Env) (mom : Moment)
    (free : ∀ x, x ≠ sid → N.name x ≠ some norm.normalized) :
    ∃ o ∈ (b.operatorRename env mom sid norm).nameOwnership,
      Award sid sid norm.normalized ((b.ownerHash sid).getD (env.hashSecret mom.secret)) o := by
  rw [inv.operatorRename_eq]
  exact (setNameOwnershipActive_rows env mom sid sid norm fun o ho hholds hn => by
    by_contra hne
    obtain ⟨n', hn', hN⟩ := (inv.owners o ho hholds).named
    exact free _ hne (hN.trans (hn'.symm.trans hn))).2.2.1

/-- A fresh lifecycle keeps the secret an identity has on record. -/
theorem ownerHash_advanceEpoch (inv : NameInv b N) {own : NameOwnership} {epoch : Nat}
    {resume : Bool} (hown : own ∈ b.nameOwnership) :
    (b.advanceEpoch env now own.logicalIdentityId epoch resume).ownerHash own.logicalIdentityId =
      own.ownerSecretHash := by
  obtain ⟨is, as, es, n, hb', -⟩ :=
    advanceEpoch_eq b env now own.logicalIdentityId epoch resume
  have hfind : b.nameOwnership.find? (fun o => o.logicalIdentityId = own.logicalIdentityId) =
      some own := find?_key_of_mem inv.ownerIds hown
  have hfind' : (updateWhere (fun o => o.logicalIdentityId = own.logicalIdentityId) Broker.released
      b.nameOwnership).find? (fun o => o.logicalIdentityId = own.logicalIdentityId) =
        some (Broker.released own) := by
    rw [find?_updateWhere (f := Broker.released) fun _ => rfl, hfind]
    simp
  rw [hb', inv.logicalIdOf, Broker.ownerHash, hfind']
  rfl

/-- What a registration that reports a reclaim leaves: the session of the name's owner active
    under the name, and the owner's row with the secret it had. -/
theorem NameInv.reclaim_succeeded (inv : NameInv b N) {raw : RegisterInput}
    {a : SessionAuthority} (h : XBus.register env mom raw b = (.ok a, b'))
    (hout : a.reclaimOutcome = some .reclaimSucceeded) :
    ∃ requested norm own csid, raw.requestedSessionName = some requested ∧
      validateSessionName env.text requested = .ok norm ∧
      b.ownerOf norm.normalized = some own ∧ own.currentSessionId = some csid ∧
      (∃ s, b'.session? csid = some s ∧ s.sessionNameState = .active ∧
        s.normalizedSessionName = some norm.normalized) ∧
      ∃ o ∈ b'.nameOwnership, o.logicalIdentityId = own.logicalIdentityId ∧
        o.nameState = .active ∧ o.normalizedName = some norm.normalized ∧
        o.currentSessionId = some csid ∧ o.ownerSecretHash = own.ownerSecretHash := by
  obtain ⟨reclaim, input, b₁, b₂, hreg⟩ := register_ok h
  obtain ⟨es, hb₁⟩ := hreg.before_eq
  have hbefore : NameFrame b b₁ := hb₁ ▸ .mk rfl rfl
  have inv₁ := inv.frame hbefore
  -- What the reclaim saw are the names of `b`.
  obtain ⟨es', hpurged⟩ := purgeStaleEdge_eq b.mint raw.sessionId
  rw [hreg.outcome, hreg.reclaim_eq] at hout
  obtain ⟨csid, lid, hwon, hresolved⟩ := won_of_reported hout
  obtain ⟨requested, norm, own, hreq, hnorm, hown, ⟨secret, -, hhash⟩, hcsid, rfl, -, -⟩ :=
    resolveReclaim_won hresolved
  rw [hpurged] at hown
  replace hown : b.ownerOf norm.normalized = some own := hown
  obtain ⟨hmem, -, hN, howner⟩ := inv.ownerOf hown
  obtain rfl : own.logicalIdentityId = csid := Option.some.inj (howner.current.symm.trans hcsid)
  have hinput : input = { raw with sessionId := own.logicalIdentityId, supersede := true } := by
    rw [hreg.input_eq, hreg.reclaim_eq, hwon]
    rfl
  have hsid : input.sessionId = own.logicalIdentityId := by rw [hinput]
  -- The owner's session exists and is superseded, so the registration enters a new lifecycle.
  have hfound₁ : (b₁.session? own.logicalIdentityId).isSome :=
    mem_ids_iff.mp (inv₁.registered _ _ hN)
  have hnew : beginsLifecycle input b₁ = true := by
    unfold beginsLifecycle
    split
    · rfl
    · simp [hinput]
  have hentered : ∃ epoch resume,
      b₂ = b₁.advanceEpoch env mom.now own.logicalIdentityId epoch resume := by
    have hentered := hreg.entered
    generalize a.epoch = epoch at hentered
    cases hentered with
    | created absent =>
      rw [hsid] at absent
      rw [absent] at hfound₁
      cases hfound₁
    | advanced => exact ⟨_, _, by rw [hsid]⟩
    | joined found stay =>
      rw [hinput] at stay
      cases stay
  obtain ⟨epoch, resume, hb₂⟩ := hentered
  set b₃ := b₂.insertComponent input b.nextId a.epoch mom.now
  have inv₃ : NameInv b₃ (N.release own.logicalIdentityId) := by
    have inv₂ : NameInv b₂ (N.release own.logicalIdentityId) := hb₂ ▸ inv₁.advanceEpoch
    exact inv₂.frame ⟨rfl, rfl⟩
  have hhash₃ : b₃.ownerHash own.logicalIdentityId = own.ownerSecretHash := by
    show b₂.ownerHash own.logicalIdentityId = _
    rw [hb₂]
    exact ownerHash_advanceEpoch inv₁ (hbefore.ownership ▸ hmem)
  have hfree : ∀ x, x ≠ own.logicalIdentityId →
      (N.release own.logicalIdentityId).name x ≠ some norm.normalized := by
    intro x hne hx
    exact hne (N.sole (Naming.release_eq_some.mp hx).2 hN)
  have hnot : b₃.nameTaken norm.normalized own.logicalIdentityId = false := by
    by_contra htaken
    obtain ⟨x, hne, hx⟩ := inv₃.nameTaken_iff.mp (by simpa using htaken)
    exact hfree x hne hx
  have hfound₃ : (b₃.session? own.logicalIdentityId).isSome := by
    obtain ⟨s, hs, -⟩ := Option.map_eq_some_iff.mp hreg.entered.epochOf
    exact Option.isSome_iff_exists.mpr ⟨s, hsid ▸ hs⟩
  have hafter : b' = ((b₃.operatorRename env mom own.logicalIdentityId
      norm).refreshMeaningfulActivity own.logicalIdentityId mom.now).audit .componentRegistered
        (some own.logicalIdentityId) := by
    rw [hreg.after, hnew]
    have hrequested : input.requestedSessionName = some requested := by rw [hinput]; exact hreq
    simp only [XBus.settleName, if_true, hsid, hrequested]
    rw [claim_granted hnorm hnot]
  have hframe : NameFrame (b₃.operatorRename env mom own.logicalIdentityId norm) b' :=
    hafter ▸ .bookkeeping (IsFrame.trans Bookkeeping.refresh .audit)
  have inv' := (inv₃.operatorRename hfound₃ hfree).frame hframe
  refine ⟨requested, norm, own, own.logicalIdentityId, hreq, hnorm, hown, hcsid, ?_, ?_⟩
  · have hname : ((N.release own.logicalIdentityId).assign own.logicalIdentityId
        norm.normalized).name own.logicalIdentityId = some norm.normalized := Naming.assign_self
    obtain ⟨s, hs⟩ := Option.isSome_iff_exists.mp (mem_ids_iff.mp (inv'.registered _ _ hname))
    obtain ⟨hsmem, hsid'⟩ := session?_eq_some hs
    have hactive : s.sessionNameState = .active := by
      by_contra hidle
      have hnone := ((inv'.rows s hsmem).idle hidle).2
      rw [hsid', hname] at hnone
      cases hnone
    exact ⟨s, hs, hactive, ((inv'.rows s hsmem).holds_iff.mpr (hsid' ▸ hname)).1⟩
  · obtain ⟨o, ho, haward⟩ := inv₃.operatorRename_award env mom hfree
    refine ⟨o, hframe.ownership ▸ ho, haward.identity, haward.state, haward.name,
      haward.current, ?_⟩
    rw [haward.secret, hhash₃, hhash]
    rfl

/-! ## Where the gate looks away -/

/-- A live mcp component of the session is proven, or not provably dead. -/
def MayRun (b : Broker) (mom : Moment) (sid : SessionId) : Prop :=
  ∃ s ∈ b.sessions, s.sessionId = sid ∧ ∃ c ∈ b.components,
    (c.sessionId = sid ∧ c.role = .mcp ∧ c.state = .live) ∧
      (s.state ≠ .disconnected ∨ mom.liveness c.processId ≠ .provenDeadOrRecycled)

instance (b : Broker) (mom : Moment) (sid : SessionId) : Decidable (MayRun b mom sid) :=
  inferInstanceAs (Decidable (∃ s ∈ b.sessions, _))

/-- A step takes a protected name from its owner only by a rename with the owner's secret, and
    while no mcp component of the owner may be running. -/
def MovesOnlyWithSecret (env : Env) (b : Broker) (e : Event) : Prop :=
  ∀ o ∈ b.nameOwnership, ∀ o' ∈ (step env b e).2.nameOwnership, ∀ n hash,
    o.nameState = .active → o.normalizedName = some n → o.ownerSecretHash = some hash →
    o'.nameState = .active → o'.normalizedName = some n →
    o'.logicalIdentityId ≠ o.logicalIdentityId →
    ∃ auth raw secret csid, e.1 = .renameSession auth raw (some secret) ∧
      env.hashSecret secret = hash ∧ o.currentSessionId = some csid ∧ ¬ MayRun b e.2 csid

/-- The step is a rename that is in order, to a name of somebody else and with the secret, and the
    gate sees no live incumbent where there may be one. -/
structure Overlooks (env : Env) (b : Broker) (e : Event) (auth : SessionAuthority)
    (raw secret : String) (norm : SessionName) (own : NameOwnership) (csid : SessionId) :
    Prop where
  op : e.1 = .renameSession auth raw (some secret)
  role : auth.role = .mcp
  epoch : b.epochOf auth.sessionId = some auth.epoch
  valid : validateSessionName env.text raw = .ok norm
  owned : b.ownerOf norm.normalized = some own
  other : own.logicalIdentityId ≠ auth.sessionId
  credential : own.ownerSecretHash = some (env.hashSecret secret)
  current : own.currentSessionId = some csid
  unseen : b.hasProvenLiveMcp e.2 csid = false
  running : MayRun b e.2 csid

/-- A rename that is in order and overlooks the incumbent goes through. -/
theorem Overlooks.renamed (inv : NameInv b N) {e : Event} {auth : SessionAuthority}
    {raw secret : String} {own : NameOwnership} {csid : SessionId}
    (h : Overlooks env b e auth raw secret norm own csid) :
    ∃ s, b.session? auth.sessionId = some s ∧ (step env b e).2 =
      ((b.forfeit norm.normalized auth.sessionId own.currentSessionId).rename env e.2
        auth.sessionId norm s.expiredAt.isSome).2 := by
  obtain ⟨op, mom⟩ := e
  obtain rfl := h.op
  obtain ⟨s, hs, hepoch⟩ := Option.map_eq_some_iff.mp h.epoch
  have htaken : b.nameTaken norm.normalized auth.sessionId = true :=
    inv.nameTaken_iff.mpr ⟨_, h.other, (inv.ownerOf h.owned).2.2.1⟩
  -- The gate looks at the newest row alone and lets the reclaim through.
  have hreclaim : reclaimForRename env mom auth norm (some secret) b =
      (.ok (), b.forfeit norm.normalized auth.sessionId own.currentSessionId) := by
    simp only [reclaimForRename, Call.get_bind, h.owned, Option.bind_some, h.credential]
    rw [Call.bind_of_ok ((Call.require_ok (u := ())).mpr ⟨rfl, rfl⟩),
      Call.bind_of_ok ((Call.require_ok (u := ())).mpr
        ⟨by simp [h.owned, h.current, h.unseen], rfl⟩)]
    show (Except.ok (), b.forfeit norm.normalized (b.logicalIdOf auth.sessionId)
      own.currentSessionId) = _
    rw [inv.logicalIdOf]
  refine ⟨s, hs, ?_⟩
  rw [show (step env b (.renameSession auth raw (some secret), mom)).2 =
    (renameSession env mom auth raw (some secret) b).2 from Call.map_snd]
  unfold renameSession
  rw [Call.bind_of_ok ((Call.require_ok (u := ())).mpr ⟨h.role, rfl⟩), h.valid,
    Call.lift_ok_bind]
  unfold Call.transaction
  rw [Call.get_bind, Call.bind_of_ok (Call.orThrow_ok.mpr ⟨hs, rfl⟩),
    Call.bind_of_ok ((Call.require_ok (u := ())).mpr ⟨hepoch, rfl⟩)]
  simp only [htaken, if_true]
  rw [Call.bind_of_ok hreclaim, Call.act_bind]
  rfl

/-- So the name is then owned by the identity of the caller. -/
theorem Overlooks.award (inv : NameInv b N) {e : Event} {auth : SessionAuthority}
    {raw secret : String} {own : NameOwnership} {csid : SessionId}
    (h : Overlooks env b e auth raw secret norm own csid) :
    ∃ o' ∈ (step env b e).2.nameOwnership, o'.nameState = .active ∧
      o'.normalizedName = some norm.normalized ∧ o'.logicalIdentityId = auth.sessionId := by
  obtain ⟨s, hs, hstep⟩ := h.renamed inv
  have inv₁ := inv.forfeit h.owned h.other
  have hfree : ∀ x, x ≠ auth.sessionId →
      (N.release own.logicalIdentityId).name x ≠ some norm.normalized := by
    intro x _ hx
    obtain ⟨hne, hN⟩ := Naming.release_eq_some.mp hx
    exact hne (N.sole hN (inv.ownerOf h.owned).2.2.1)
  obtain ⟨o', ho', haward⟩ := inv₁.operatorRename_award env e.2 hfree
  refine ⟨o', ?_, haward.state, haward.name, haward.identity⟩
  rw [hstep, (rename_frame _ env e.2 auth.sessionId norm s.expiredAt.isSome).ownership]
  exact ho'

/-- `beta`'s hook has the session's connection. Its mcp server registers in process 2, and again in
    process 5 over the same connection; then the hook's connection closes. -/
def registeredTwice : List Event :=
  [ (.register { sessionId := "alpha", connectionId := 1, processId := 1 }, { nowMs := 1000 }),
    (.register { sessionId := "beta", connectionId := 9, processId := 9, role := .hook },
      { nowMs := 1000 }),
    (.register { sessionId := "beta", connectionId := 2, processId := 2
                 requestedSessionName := some "beta-name" }, { nowMs := 1001 }),
    (.register { sessionId := "beta", connectionId := 2, processId := 5 }, { nowMs := 1002 }),
    (.connClosed (component "beta" .hook 1 9) 9, { nowMs := 2000 }) ]

end Proof
end XBus
