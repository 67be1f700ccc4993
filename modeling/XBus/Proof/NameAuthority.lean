import XBus.Proof.NameTables

/-!
# Name authority

Every move takes tables that represent a naming to tables that represent one, so the two
tables agree in every reachable state (`name_authority`).
-/

set_option autoImplicit false

namespace XBus
namespace Proof

open Lib

variable {env : Env} {mom : Moment} {now : Iso} {k : Kind} {b b' : Broker}
  {N N' : Naming SessionId String} {sid : SessionId} {norm : SessionName}

/-! ## Renames -/

theorem NameFrame.logicalIdOf (h : NameFrame b b') (sid : SessionId) :
    b'.logicalIdOf sid = b.logicalIdOf sid := by
  have hfind (rows : List Session) : (rows.find? fun s => s.sessionId = sid).map nameCols =
      (rows.map nameCols).find? fun c => c.1 = sid := by
    rw [List.find?_map]
    rfl
  have hcols : (b'.session? sid).map nameCols = (b.session? sid).map nameCols := by
    rw [Broker.session?, Broker.session?, hfind, hfind, h.sessions]
  have hlid (o : Option Session) :
      o.bind (·.logicalIdentityId) = (o.map nameCols).bind fun c => c.2.1 := by
    cases o <;> rfl
  rw [Broker.logicalIdOf, Broker.logicalIdOf, hlid, hlid, hcols]

theorem NameInv.operatorRename_eq (inv : NameInv b N) : b.operatorRename env mom sid norm =
    ((b.setSessionName sid norm).setNameOwnershipActive env mom sid sid norm).2 := by
  have hsame : (b.setSessionName sid norm).logicalIdOf sid = b.logicalIdOf sid :=
    logicalIdOf_updateSession (fun _ => rfl) fun _ => rfl
  rw [Broker.operatorRename, hsame, inv.logicalIdOf]

theorem NameInv.operatorRename (inv : NameInv b N) (found : (b.session? sid).isSome)
    (free : ∀ x, x ≠ sid → N.name x ≠ some norm.normalized) :
    NameInv (b.operatorRename env mom sid norm) (N.assign sid norm.normalized) := by
  rw [inv.operatorRename_eq]
  exact inv.assigned (f := fun s => { s with
    sessionName := some norm.display, normalizedSessionName := some norm.normalized
    sessionNameState := .active, pendingNameExpiresAt := none })
    ⟨fun _ => rfl, fun _ => rfl, fun _ => rfl, fun _ => rfl⟩ found free rfl rfl

/-- As far as names go, a rename is the operator's rename. -/
theorem rename_frame (b : Broker) (env : Env) (mom : Moment) (sid : SessionId) (norm : SessionName)
    (wasExpired : Bool) : NameFrame (b.operatorRename env mom sid norm)
      (b.rename env mom sid norm wasExpired).2 := by
  unfold Broker.rename
  extract_lets b₁ b₂ b₃
  have hrevive : NameFrame (b.setSessionName sid norm) b₁ := .updateWhere rfl rfl fun _ => rfl
  have halias : NameFrame b₁ b₂ := by
    show NameFrame b₁ (if wasExpired then _ else _)
    split
    · exact .bookkeeping .upsertAutomaticAliasSafe
    · exact IsFrame.refl b₁
  have hframe : NameFrame (b.setSessionName sid norm) b₃ :=
    IsFrame.trans hrevive (IsFrame.trans halias (.bookkeeping .refresh))
  refine ⟨hframe.sessions, ?_⟩
  rw [hframe.logicalIdOf]
  simp only [Broker.operatorRename, Broker.setNameOwnershipActive, Broker.ownerHash,
    Broker.releaseNameOwnershipOf, hframe.ownership]

theorem NameInv.rename (inv : NameInv b N) {wasExpired : Bool} (found : (b.session? sid).isSome)
    (free : ∀ x, x ≠ sid → N.name x ≠ some norm.normalized) :
    NameInv (b.rename env mom sid norm wasExpired).2 (N.assign sid norm.normalized) :=
  (inv.operatorRename found free).frame (rename_frame b env mom sid norm wasExpired)

/-- A reclaim releases the incumbent and assigns the name. -/
theorem NameInv.reclaim (inv : NameInv b N) {wasExpired : Bool} {own : NameOwnership}
    (found : (b.session? sid).isSome) (taken : b.nameTaken norm.normalized sid = true)
    (owned : b.ownerOf norm.normalized = some own) :
    NameInv ((b.forfeit norm.normalized (b.logicalIdOf sid) own.currentSessionId).rename env mom
      sid norm wasExpired).2 ((N.release own.logicalIdentityId).assign sid norm.normalized) := by
  obtain ⟨-, -, hN, -⟩ := inv.ownerOf owned
  obtain ⟨x, hne, hx⟩ := inv.nameTaken_iff.mp taken
  have hother : own.logicalIdentityId ≠ sid := N.sole hN hx ▸ hne
  rw [inv.logicalIdOf]
  refine (inv.forfeit owned hother).rename ?_ fun y _ hy => ?_
  · have hids : (b.forfeit norm.normalized sid own.currentSessionId).sessions.map (·.sessionId) =
        b.sessions.map (·.sessionId) := map_updateWhere _ fun _ _ => rfl
    rw [← mem_ids_iff, hids, mem_ids_iff]
    exact found
  · by_cases hy' : y = own.logicalIdentityId
    · rw [hy', Naming.release_self] at hy
      cases hy
    · rw [Naming.release_of_ne hy'] at hy
      exact hy' (N.sole hy hN)

/-! ## Claims at registration -/

/-- At most the name of `sid` is another one. -/
def ChangedAt (sid : SessionId) (N N' : Naming SessionId String) : Prop :=
  ∀ x, x ≠ sid → N'.name x = N.name x

theorem ChangedAt.rfl' : ChangedAt sid N N := fun _ _ => rfl

theorem ChangedAt.trans {N'' : Naming SessionId String} (h : ChangedAt sid N N')
    (h' : ChangedAt sid N' N'') : ChangedAt sid N N'' :=
  fun x hx => (h' x hx).trans (h x hx)

theorem ChangedAt.release : ChangedAt sid N (N.release sid) :=
  fun _ hx => Naming.release_of_ne hx

theorem ChangedAt.assign {n : String} (free : ∀ x, x ≠ sid → N.name x ≠ some n) :
    ChangedAt sid N (N.assign sid n) := fun _ hx => Naming.assign_of_ne free hx

/-- The names a caller can choose: what the validator makes of some text. -/
def Chosen (env : Env) (n : String) : Prop :=
  ∃ raw norm, validateSessionName env.text raw = .ok norm ∧ norm.normalized = n

/-- Whoever goes by another name than before goes by one that was chosen. -/
def Granted (env : Env) (N N' : Naming SessionId String) : Prop :=
  ∀ x n, N'.name x = some n → N.name x = some n ∨ Chosen env n

theorem Granted.rfl' : Granted env N N := fun _ _ h => .inl h

theorem Granted.release : Granted env N (N.release sid) :=
  fun _ _ h => .inl (Naming.release_eq_some.mp h).2

theorem Granted.assign {raw : String} (valid : validateSessionName env.text raw = .ok norm) :
    Granted env N (N.assign sid norm.normalized) := by
  intro x n h
  rcases Naming.eq_some_of_assign h with ⟨-, rfl⟩ | hbefore
  · exact .inr ⟨raw, norm, valid, rfl⟩
  · exact .inl hbefore

theorem Granted.trans {N'' : Naming SessionId String} (h : Granted env N N')
    (h' : Granted env N' N'') : Granted env N N'' := by
  intro x n hn
  rcases h' x n hn with hbefore | hchosen
  · exact h x n hbefore
  · exact .inr hchosen

/-- A claim of a free and valid name is the operator's rename. -/
theorem claim_granted {raw : String} (valid : validateSessionName env.text raw = .ok norm)
    (free : b.nameTaken norm.normalized sid = false) :
    (claimNameForRegister env mom sid (some raw) b).2 = b.operatorRename env mom sid norm := by
  simp [claimNameForRegister, valid, free, Broker.operatorRename]

theorem NameInv.claim (inv : NameInv b N) {requested : Option String}
    (found : (b.session? sid).isSome) :
    ∃ N', NameInv (claimNameForRegister env mom sid requested b).2 N' ∧ ChangedAt sid N N' ∧
      Granted env N N' := by
  cases requested with
  | none => exact ⟨N, inv, .rfl', .rfl'⟩
  | some raw =>
    cases hv : validateSessionName env.text raw with
    | error e =>
      refine ⟨N.release sid, ?_, .release, .release⟩
      simp only [claimNameForRegister, hv]
      exact inv.markPending
    | ok norm =>
      by_cases htaken : b.nameTaken norm.normalized sid = true
      · refine ⟨N.release sid, ?_, .release, .release⟩
        simp only [claimNameForRegister, hv, if_pos htaken]
        exact inv.markPending
      · have hfree := inv.free_of_not_taken (by simpa using htaken)
        rw [claim_granted hv (by simpa using htaken)]
        exact ⟨_, inv.operatorRename found hfree, .assign hfree, .assign hv⟩

theorem NameInv.settleName (inv : NameInv b N) {input : RegisterInput} {isNew : Bool}
    (found : (b.session? input.sessionId).isSome) :
    ∃ N', NameInv (settleName env mom input isNew b).2 N' ∧ ChangedAt input.sessionId N N' := by
  unfold XBus.settleName
  split
  · have hclaim : ∃ N', NameInv (claimNameForRegister env mom input.sessionId
        input.requestedSessionName b).2 N' ∧ ChangedAt input.sessionId N N' ∧ Granted env N N' :=
      inv.claim found
    obtain ⟨N', inv', hN', -⟩ := hclaim
    exact ⟨N', inv'.frame (.bookkeeping .refresh), hN'⟩
  · split
    · exact ⟨N, inv, .rfl'⟩
    · split
      · obtain ⟨N', inv', hN', -⟩ := inv.claim found
        exact ⟨N', inv', hN'⟩
      · exact ⟨N, inv, .rfl'⟩

theorem NameInv.createSession (inv : NameInv b N) {input : RegisterInput}
    (absent : b.session? input.sessionId = none) : NameInv (b.createSession env input) N := by
  obtain ⟨as, es, n, hb', -⟩ := createSession_eq b env input
  rw [hb']
  exact inv.append (s := firstRow env input) absent (.inr rfl) (by simp [firstRow]) rfl rfl rfl

theorem joinEpoch_frame {input : RegisterInput} : NameFrame b (b.joinEpoch now input) := by
  rw [joinEpoch_eq]
  exact .updateWhere rfl rfl fun _ => rfl

theorem NameInv.entered (inv : NameInv b N) {input : RegisterInput} {epoch : Nat}
    (h : Entered env now input b epoch b') :
    ∃ N', NameInv b' N' ∧ ChangedAt input.sessionId N N' := by
  cases h with
  | created absent => exact ⟨N, inv.createSession absent, .rfl'⟩
  | advanced => exact ⟨_, inv.advanceEpoch, .release⟩
  | joined => exact ⟨N, inv.frame joinEpoch_frame, .rfl'⟩

/-! ## Every move -/

/-- A reservation that lapses held no name. -/
theorem NameInv.lapse (inv : NameInv b N) : NameInv (reapStalePendingNames now b) N := by
  unfold reapStalePendingNames
  split
  · refine NameInv.frame ?_ (.bookkeeping .audit)
    set f : Session → Session := fun s => { s with
      sessionNameState := .unnamed, sessionName := none, normalizedSessionName := none
      pendingNameExpiresAt := none }
    have hids : (updateWhere (fun s => s.pendingLapsed now) f b.sessions).map (·.sessionId) =
        b.sessions.map (·.sessionId) := map_updateWhere _ fun _ _ => rfl
    refine ⟨hids ▸ inv.sessionIds, ?_, ?_, inv.ownerIds, inv.owners,
      fun x n hN => hids ▸ inv.registered x n hN, inv.backed, hids ▸ inv.operator⟩
    · exact forall_mem_updateWhere inv.identities fun s hs _ => inv.identities s hs
    · refine forall_mem_updateWhere inv.rows fun s hs hlapsed => ?_
      have hpending : s.sessionNameState = .pending := (of_decide_eq_true hlapsed).1
      have hidle := (inv.rows s hs).idle (by rw [hpending]; simp)
      exact ⟨fun h => (nomatch h), fun _ => ⟨rfl, hidle.2⟩⟩
  · exact inv

/-- Once it is there, provisioning the operator again writes no name. -/
theorem NameInv.ensureOperator (inv : NameInv b N) : NameFrame b (b.ensureOperatorSession env) := by
  have hfound := mem_ids_iff.mp inv.operator
  unfold Broker.ensureOperatorSession
  split
  · rename_i hnone
    rw [hnone] at hfound
    cases hfound
  · exact .updateWhere rfl rfl fun _ => rfl

/-- The moves that change who is called what. -/
def renames (k : Kind) : Bool :=
  k = .advance ∨ k = .claim ∨ k = .rename ∨ k = .reclaim ∨ k = .remove

theorem Move.sameNames (h : Move env k b b') (hk : renames k = false) (inv : NameInv b N) :
    NameInv b' N := by
  cases h with
  | note h => exact inv.frame (.bookkeeping h)
  | restate => exact inv.frame (.mailOnly .updateDeliveries)
  | redrive => exact inv.frame (.mailOnly .updateDeliveries)
  | consume => exact inv.frame (.mailOnly .consume)
  | inject now auth ck audited m =>
    exact inv.frame (.mailOnly (injectOne_spec env now auth ck audited m b).rest)
  | reissue => exact inv.frame (.mailOnly (IsFrame.trans (.of_bookkeeping .mint) .issue))
  | post m h => exact inv.frame (.of_core h.sessions h.nameOwnership)
  | answer m h => exact inv.frame (.of_core h.sessions h.nameOwnership)
  | create input absent => exact inv.createSession absent
  | dormant sid mode rs absent =>
    exact inv.append (s := dormantSession env sid mode) absent (.inl rfl)
      (by simp [dormantSession]) rfl rfl rfl
  | join => exact inv.frame joinEpoch_frame
  | component => exact inv.frame ⟨rfl, rfl⟩
  | redirect => exact inv.frame ⟨rfl, rfl⟩
  | tombstone sid now =>
    obtain ⟨as, es, ds, hb', -⟩ := tombstone_eq b sid now
    rw [hb']
    exact inv.frame (.updateWhere rfl rfl fun _ => rfl)
  | lapse => exact inv.lapse
  | close => exact inv.frame (.updateWhere rfl rfl fun _ => rfl)
  | operator => exact inv.frame inv.ensureOperator
  | _ => cases hk

/-- Every move takes a represented naming to a represented naming, and gives nobody a name
    that was not chosen. -/
theorem Move.granted (h : Move env k b b') (inv : NameInv b N) :
    ∃ N', NameInv b' N' ∧ Granted env N N' := by
  cases hk : renames k with
  | false => exact ⟨N, Move.sameNames h hk inv, .rfl'⟩
  | true =>
    cases h with
    | advance => exact ⟨_, inv.advanceEpoch, .release⟩
    | claim mom sid requested found =>
      obtain ⟨N', inv', -, hgranted⟩ := inv.claim found
      exact ⟨N', inv', hgranted⟩
    | rename mom sid wasExpired found valid free =>
      exact ⟨_, inv.rename found (inv.free_of_not_taken free), .assign valid⟩
    | operatorRename mom sid found valid free =>
      exact ⟨_, inv.operatorRename found (inv.free_of_not_taken free), .assign valid⟩
    | reclaim mom sid wasExpired found valid taken owned =>
      exact ⟨_, inv.reclaim found taken owned, Granted.release.trans (.assign valid)⟩
    | remove sid now mortal => exact ⟨_, inv.deleteSession mortal, .release⟩
    | _ => cases hk

theorem Move.names (h : Move env k b b') (inv : NameInv b N) : ∃ N', NameInv b' N' := by
  obtain ⟨N', inv', -⟩ := h.granted inv
  exact ⟨N', inv'⟩

/-- A fresh database has one name, the operator's. -/
theorem nameInv_initial :
    NameInv (initial env) (.single operatorSessionId operatorSessionId) := by
  have hmem : operatorSessionId ∈ (initial env).sessions.map (·.sessionId) :=
    List.mem_singleton_self _
  refine ⟨List.nodup_singleton _, fun s hs => ?_, fun s hs => ?_, List.nodup_nil,
    fun o ho => (List.not_mem_nil ho).elim, fun x n h => (Naming.single_eq_some.mp h).1 ▸ hmem,
    fun x n h => .inl (Naming.single_eq_some.mp h), hmem⟩
  · obtain rfl := List.mem_singleton.mp hs
    exact .inl rfl
  · obtain rfl := List.mem_singleton.mp hs
    exact ⟨fun _ => ⟨operatorSessionId, rfl, Naming.single_eq_some.mpr ⟨rfl, rfl⟩⟩,
      fun h => absurd rfl h⟩

/-- The tables of every reachable state represent a naming. -/
theorem nameInv_of_reachable {ok : Broker → Event → Prop} (h : Reachable env ok b) :
    ∃ N, NameInv b N := by
  refine reachable_of_moves (P := fun b => ∃ N, NameInv b N) ⟨_, nameInv_initial⟩ ?_ h
  rintro b b' k hmove ⟨N, inv⟩
  exact Move.names hmove inv

/-- **Name authority is one to one.** In every reachable state a session other than the
    operator's is active under a name exactly when the ownership row of its identity is active
    under that name for that session, and no two sessions are active under one name. -/
theorem name_authority {ok : Broker → Event → Prop} (h : Reachable env ok b) :
    (∀ s ∈ b.sessions, s.sessionId ≠ operatorSessionId → ∀ n,
      (s.sessionNameState = .active ∧ s.normalizedSessionName = some n) ↔
        ∃ o ∈ b.nameOwnership, o.logicalIdentityId = b.logicalIdOf s.sessionId ∧
          o.nameState = .active ∧ o.normalizedName = some n ∧
          o.currentSessionId = some s.sessionId) ∧
    ∀ s ∈ b.sessions, ∀ s' ∈ b.sessions, ∀ n,
      s.sessionNameState = .active → s.normalizedSessionName = some n →
      s'.sessionNameState = .active → s'.normalizedSessionName = some n → s = s' := by
  obtain ⟨N, inv⟩ := nameInv_of_reachable h
  -- Both tables say what the naming says.
  have hname {s : Session} (hs : s ∈ b.sessions) {n : String} :
      (s.sessionNameState = .active ∧ s.normalizedSessionName = some n) ↔
        N.name s.sessionId = some n := by
    constructor
    · rintro ⟨hactive, hn⟩
      exact (inv.rows s hs).holds_iff.mp ⟨hn, by rw [hactive]; rfl⟩
    · intro hN
      have hactive : s.sessionNameState = .active := by
        by_contra hidle
        rw [((inv.rows s hs).idle hidle).2] at hN
        cases hN
      exact ⟨hactive, ((inv.rows s hs).holds_iff.mpr hN).1⟩
  refine ⟨fun s hs hmortal n => ?_, fun s hs s' hs' n ha hn ha' hn' => ?_⟩
  · rw [hname hs, inv.logicalIdOf]
    constructor
    · intro hN
      rcases inv.backed _ n hN with ⟨hop, -⟩ | ⟨o, ho, hlid, hholds⟩
      · exact absurd hop hmortal
      · have howner := inv.owners o ho hholds
        obtain ⟨n', hn', hN'⟩ := howner.named
        rw [hlid, hN] at hN'
        exact ⟨o, ho, hlid, howner.active, hn'.trans hN'.symm, howner.current.trans
          (congrArg some hlid)⟩
    · rintro ⟨o, ho, hlid, hactive, hn, -⟩
      rw [← hlid]
      exact inv.owner_of_name ho hactive hn
  · have hid := N.sole ((hname hs).mp ⟨ha, hn⟩) ((hname hs').mp ⟨ha', hn'⟩)
    exact eq_of_key_eq inv.sessionIds hs hs' hid

/-- `beta` asked for a name when it registered, and owns it. -/
theorem beta_owns_its_name :
    let b := (runAll (step plainEnv) (initial plainEnv) requestSent).2
    ∃ s ∈ b.sessions, s.sessionId = "beta" ∧ s.sessionNameState = .active ∧
      s.normalizedSessionName = some "beta-name" ∧
      ∃ o ∈ b.nameOwnership, o.logicalIdentityId = b.logicalIdOf s.sessionId ∧
        o.nameState = .active ∧ o.normalizedName = some "beta-name" ∧
        o.currentSessionId = some s.sessionId := by
  intro b
  have hrow : ∃ s ∈ b.sessions, s.sessionId = "beta" ∧ s.sessionNameState = .active ∧
      s.normalizedSessionName = some "beta-name" := by decide +kernel
  obtain ⟨s, hs, hid, hactive, hn⟩ := hrow
  have hreach : Reachable plainEnv Any b := ⟨_, Run.of_events _ _ requestSent⟩
  obtain ⟨hiff, -⟩ := name_authority hreach
  have hmortal : s.sessionId ≠ operatorSessionId := by rw [hid]; decide
  exact ⟨s, hs, hid, hactive, hn, (hiff s hs hmortal "beta-name").mp ⟨hactive, hn⟩⟩

end Proof
end XBus
