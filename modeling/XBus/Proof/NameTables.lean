import XBus.Proof.Steps
import XBus.Lib.Naming

/-!
# The two tables of names

A name is in the columns of its session's row and in the ownership row of the session's
identity. What both are for is one `Naming`: `NameInv b N` says that the tables of `b`
represent `N`, each on its own terms. A session is active under `n` exactly when `N` calls it
`n`; an ownership row that holds a name holds the one `N` gives its identity, for the session
of the same id.

Every write to names is a `release` or an `assign` of the naming, and the lemmas here say
which. The one name without an ownership row is the operator's own, provisioned with the
database.
-/

set_option autoImplicit false

namespace XBus
namespace Proof

open Lib

variable {env : Env} {mom : Moment} {now : Iso} {b b' : Broker} {N : Naming SessionId String}
  {sid : SessionId} {norm : SessionName}

/-- The name columns of a row agree with the naming. -/
structure RowNamed (N : Naming SessionId String) (s : Session) : Prop where
  active : s.sessionNameState = .active →
    ∃ n, s.normalizedSessionName = some n ∧ N.name s.sessionId = some n
  idle : s.sessionNameState ≠ .active →
    s.normalizedSessionName = none ∧ N.name s.sessionId = none

/-- An ownership row that holds a name agrees with the naming. -/
structure OwnerNamed (N : Naming SessionId String) (o : NameOwnership) : Prop where
  active : o.nameState = .active
  named : ∃ n, o.normalizedName = some n ∧ N.name o.logicalIdentityId = some n
  current : o.currentSessionId = some o.logicalIdentityId

theorem RowNamed.congr {N' : Naming SessionId String} {s : Session} (h : RowNamed N s)
    (hN : N'.name s.sessionId = N.name s.sessionId) : RowNamed N' s :=
  ⟨by rw [hN]; exact h.active, by rw [hN]; exact h.idle⟩

theorem OwnerNamed.congr {N' : Naming SessionId String} {o : NameOwnership} (h : OwnerNamed N o)
    (hN : N'.name o.logicalIdentityId = N.name o.logicalIdentityId) : OwnerNamed N' o :=
  ⟨h.active, by rw [hN]; exact h.named, h.current⟩

/-- The tables of `b` represent the naming `N`. -/
structure NameInv (b : Broker) (N : Naming SessionId String) : Prop where
  sessionIds : (b.sessions.map (·.sessionId)).Nodup
  identities : ∀ s ∈ b.sessions,
    s.logicalIdentityId = none ∨ s.logicalIdentityId = some s.sessionId
  rows : ∀ s ∈ b.sessions, RowNamed N s
  ownerIds : (b.nameOwnership.map (·.logicalIdentityId)).Nodup
  owners : ∀ o ∈ b.nameOwnership, o.nameState.holds = true → OwnerNamed N o
  registered : ∀ x n, N.name x = some n → x ∈ b.sessions.map (·.sessionId)
  backed : ∀ x n, N.name x = some n → (x = operatorSessionId ∧ n = operatorSessionId) ∨
    ∃ o ∈ b.nameOwnership, o.logicalIdentityId = x ∧ o.nameState.holds = true
  operator : operatorSessionId ∈ b.sessions.map (·.sessionId)

theorem mem_ids_iff : sid ∈ b.sessions.map (·.sessionId) ↔ (b.session? sid).isSome := by
  rw [Broker.session?, List.find?_isSome, List.mem_map]
  simp

theorem RowNamed.holds_iff {s : Session} (h : RowNamed N s) {n : String} :
    (s.normalizedSessionName = some n ∧ s.sessionNameState.holds = true) ↔
      N.name s.sessionId = some n := by
  by_cases hs : s.sessionNameState = .active
  · obtain ⟨n', hn', hN⟩ := h.active hs
    simp [hs, hn', hN, NameState.holds]
  · obtain ⟨hn', hN⟩ := h.idle hs
    simp [hn', hN]

namespace NameInv

/-- The durable identity of a session is its own id. -/
theorem logicalIdOf (inv : NameInv b N) (sid : SessionId) : b.logicalIdOf sid = sid := by
  unfold Broker.logicalIdOf
  cases hs : b.session? sid with
  | none => rfl
  | some s =>
    obtain ⟨hmem, rfl⟩ := session?_eq_some hs
    rcases inv.identities s hmem with h | h
    · simp [h]
    · simp [h]

/-- The code's test for a taken name is about the naming. -/
theorem nameTaken_iff (inv : NameInv b N) {n : String} :
    b.nameTaken n sid = true ↔ ∃ x, x ≠ sid ∧ N.name x = some n := by
  rw [Broker.nameTaken, List.any_eq_true]
  constructor
  · rintro ⟨s, hs, hp⟩
    obtain ⟨hn, hholds, hne⟩ := of_decide_eq_true hp
    exact ⟨s.sessionId, hne, (inv.rows s hs).holds_iff.mp ⟨hn, hholds⟩⟩
  · rintro ⟨x, hne, hN⟩
    obtain ⟨s, hs, rfl⟩ := List.mem_map.mp (inv.registered x n hN)
    obtain ⟨hn, hholds⟩ := (inv.rows s hs).holds_iff.mpr hN
    exact ⟨s, hs, decide_eq_true ⟨hn, hholds, hne⟩⟩

theorem free_of_not_taken (inv : NameInv b N) {n : String} (h : b.nameTaken n sid = false) :
    ∀ x, x ≠ sid → N.name x ≠ some n := fun x hne hN => by
  rw [inv.nameTaken_iff.mpr ⟨x, hne, hN⟩] at h
  cases h

/-- The row the code takes for the owner of a name. -/
theorem ownerOf (inv : NameInv b N) {n : String} {own : NameOwnership}
    (h : b.ownerOf n = some own) :
    own ∈ b.nameOwnership ∧ own.normalizedName = some n ∧ N.name own.logicalIdentityId = some n ∧
      OwnerNamed N own := by
  have hmem : own ∈ b.nameOwnership := List.mem_of_find?_eq_some h
  obtain ⟨hn, hholds⟩ : own.normalizedName = some n ∧ own.nameState.holds = true := by
    simpa using List.find?_some h
  have howner := inv.owners own hmem hholds
  obtain ⟨n', hn', hN⟩ := howner.named
  obtain rfl := Option.some.inj (hn.symm.trans hn')
  exact ⟨hmem, hn, hN, howner⟩

/-- An ownership row with a name of the naming, read back. -/
theorem owner_of_name (inv : NameInv b N) {o : NameOwnership} (ho : o ∈ b.nameOwnership)
    (hactive : o.nameState = .active) {n : String} (hn : o.normalizedName = some n) :
    N.name o.logicalIdentityId = some n := by
  obtain ⟨n', hn', hN⟩ := (inv.owners o ho (by rw [hactive]; rfl)).named
  exact hN.trans (hn'.symm.trans hn)

end NameInv

/-! ## Frames -/

/-- The columns of a session that say who it is and what it is called. -/
def nameCols (s : Session) : SessionId × Option SessionId × NameState × Option String :=
  (s.sessionId, s.logicalIdentityId, s.sessionNameState, s.normalizedSessionName)

/-- No name is written. -/
structure NameFrame (b b' : Broker) : Prop where
  sessions : b'.sessions.map nameCols = b.sessions.map nameCols
  ownership : b'.nameOwnership = b.nameOwnership

instance : IsFrame NameFrame where
  refl _ := ⟨rfl, rfl⟩
  trans h₁ h₂ := ⟨h₂.sessions.trans h₁.sessions, h₂.ownership.trans h₁.ownership⟩

namespace NameFrame

theorem of_core (sessions : b'.sessions.map core = b.sessions.map core)
    (ownership : b'.nameOwnership = b.nameOwnership) : NameFrame b b' := by
  refine ⟨?_, ownership⟩
  have := congrArg (List.map nameCols) sessions
  rwa [List.map_map, List.map_map] at this

theorem bookkeeping (h : Bookkeeping b b') : NameFrame b b' := .of_core h.sessions h.nameOwnership

theorem mailOnly (h : MailOnly b b') : NameFrame b b' := .of_core h.sessions h.nameOwnership

theorem updateWhere {p : Session → Bool} {f : Session → Session}
    (sessions : b'.sessions = Lib.updateWhere p f b.sessions)
    (ownership : b'.nameOwnership = b.nameOwnership) (hf : ∀ s, nameCols (f s) = nameCols s) :
    NameFrame b b' := by
  refine ⟨?_, ownership⟩
  rw [sessions]
  exact map_updateWhere nameCols fun s _ => hf s

theorem ids (h : NameFrame b b') :
    b'.sessions.map (·.sessionId) = b.sessions.map (·.sessionId) := by
  have := congrArg (List.map Prod.fst) h.sessions
  rwa [List.map_map, List.map_map] at this

/-- A row of the result has the columns of a row from before. -/
theorem row (h : NameFrame b b') {s : Session} (hs : s ∈ b'.sessions) :
    ∃ s₀ ∈ b.sessions, nameCols s₀ = nameCols s := by
  have : nameCols s ∈ b.sessions.map nameCols := h.sessions ▸ List.mem_map_of_mem hs
  exact List.mem_map.mp this

end NameFrame

theorem NameInv.frame (inv : NameInv b N) (h : NameFrame b b') : NameInv b' N := by
  refine ⟨h.ids ▸ inv.sessionIds, fun s hs => ?_, fun s hs => ?_, h.ownership ▸ inv.ownerIds,
    fun o ho => inv.owners o (h.ownership ▸ ho), fun x n hN => h.ids ▸ inv.registered x n hN,
    fun x n hN => h.ownership ▸ inv.backed x n hN, h.ids ▸ inv.operator⟩
  · obtain ⟨s₀, hs₀, hcols⟩ := h.row hs
    simp only [nameCols, Prod.mk.injEq] at hcols
    obtain ⟨hid, hlid, -, -⟩ := hcols
    rw [← hid, ← hlid]
    exact inv.identities s₀ hs₀
  · obtain ⟨s₀, hs₀, hcols⟩ := h.row hs
    simp only [nameCols, Prod.mk.injEq] at hcols
    obtain ⟨hid, -, hstate, hname⟩ := hcols
    refine ⟨fun ha => ?_, fun ha => ?_⟩
    · rw [← hid, ← hname]
      exact (inv.rows s₀ hs₀).active (hstate.trans ha)
    · rw [← hid, ← hname]
      exact (inv.rows s₀ hs₀).idle fun h => ha (hstate.symm.trans h)

/-! ## Rows that come and go -/

/-- A new row without a name. -/
theorem NameInv.append (inv : NameInv b N) {s : Session} (absent : b.session? s.sessionId = none)
    (hid : s.logicalIdentityId = none ∨ s.logicalIdentityId = some s.sessionId)
    (hstate : s.sessionNameState ≠ .active) (hname : s.normalizedSessionName = none)
    (hs : b'.sessions = b.sessions ++ [s]) (ho : b'.nameOwnership = b.nameOwnership) :
    NameInv b' N := by
  have hnew : s.sessionId ∉ b.sessions.map (·.sessionId) := by
    rw [mem_ids_iff, absent]
    simp
  have hids : b'.sessions.map (·.sessionId) = b.sessions.map (·.sessionId) ++ [s.sessionId] := by
    rw [hs, List.map_append]
    rfl
  refine ⟨?_, fun x hx => ?_, fun x hx => ?_, ho ▸ inv.ownerIds,
    fun o h => inv.owners o (ho ▸ h), fun x n hN => ?_, fun x n hN => ho ▸ inv.backed x n hN, ?_⟩
  · rw [hids, List.nodup_append]
    refine ⟨inv.sessionIds, List.nodup_singleton _, fun x hx y hy hxy => ?_⟩
    rw [List.mem_singleton.mp hy] at hxy
    exact hnew (hxy ▸ hx)
  · rw [hs, List.mem_append, List.mem_singleton] at hx
    rcases hx with hx | rfl
    · exact inv.identities x hx
    · exact hid
  · rw [hs, List.mem_append, List.mem_singleton] at hx
    rcases hx with hx | rfl
    · exact inv.rows x hx
    · refine ⟨fun h => absurd h hstate, fun _ => ⟨hname, ?_⟩⟩
      cases hN : N.name x.sessionId with
      | none => rfl
      | some n => exact absurd (inv.registered _ n hN) hnew
  · rw [hids]
    exact List.mem_append_left _ (inv.registered x n hN)
  · rw [hids]
    exact List.mem_append_left _ inv.operator

/-- The removal of a session's rows releases its name. -/
theorem NameInv.deleteSession (inv : NameInv b N) (mortal : sid ≠ operatorSessionId) :
    NameInv (b.deleteSession sid now) (N.release sid) := by
  have hsess : (b.deleteSession sid now).sessions = b.sessions.filter fun s => s.sessionId ≠ sid :=
    rfl
  have hids {x : SessionId} (hx : x ∈ b.sessions.map (·.sessionId)) (hne : x ≠ sid) :
      x ∈ (b.deleteSession sid now).sessions.map (·.sessionId) := by
    obtain ⟨s, hs, rfl⟩ := List.mem_map.mp hx
    rw [hsess]
    exact List.mem_map_of_mem (List.mem_filter.mpr ⟨hs, by simpa using hne⟩)
  refine ⟨?_, fun s hs => ?_, fun s hs => ?_, ?_, fun o ho hholds => ?_, fun x n hN => ?_,
    fun x n hN => ?_, hids inv.operator (Ne.symm mortal)⟩
  · exact inv.sessionIds.sublist (List.filter_sublist.map _)
  · exact inv.identities s (List.mem_of_mem_filter hs)
  · obtain ⟨hs, hne⟩ := List.mem_filter.mp hs
    have hne : s.sessionId ≠ sid := by simpa using hne
    exact (inv.rows s hs).congr (Naming.release_of_ne hne)
  · exact inv.ownerIds.sublist (List.filter_sublist.map _)
  · obtain ⟨ho, hkeep⟩ := List.mem_filter.mp ho
    have howner := inv.owners o ho hholds
    have hne : o.logicalIdentityId ≠ sid := fun h => by
      simp [howner.current, h] at hkeep
    exact howner.congr (Naming.release_of_ne hne)
  · obtain ⟨hne, hN⟩ := Naming.release_eq_some.mp hN
    exact hids (inv.registered x n hN) hne
  · obtain ⟨hne, hN⟩ := Naming.release_eq_some.mp hN
    rcases inv.backed x n hN with h | ⟨o, ho, rfl, hholds⟩
    · exact .inl h
    · refine .inr ⟨o, List.mem_filter.mpr ⟨ho, ?_⟩, rfl, hholds⟩
      -- A row that goes with the session is the session's own, or holds no name.
      have hcur := (inv.owners o ho hholds).current
      have hlid : some o.logicalIdentityId ≠ (b.session? sid).bind (·.logicalIdentityId) := by
        cases hs : b.session? sid with
        | none => simp
        | some s =>
          obtain ⟨hmem, rfl⟩ := session?_eq_some hs
          rcases inv.identities s hmem with h | h
          · simp [h]
          · simpa [h] using hne
      simp [hcur, hne, hlid]

/-! ## Releasing -/

/-- A write that takes the name off a row. -/
structure Unnames (f : Session → Session) : Prop where
  sessionId : ∀ s, (f s).sessionId = s.sessionId
  identity : ∀ s, (f s).logicalIdentityId = s.logicalIdentityId
  state : ∀ s, (f s).sessionNameState ≠ .active
  name : ∀ s, (f s).normalizedSessionName = none

/-- Both tables drop the name of `sid`, each found by a condition of its own. -/
theorem NameInv.releaseWhere (inv : NameInv b N) {p : Session → Bool} {q : NameOwnership → Bool}
    {f : Session → Session} (hf : Unnames f)
    (hp : ∀ s ∈ b.sessions, p s = true ↔ s.sessionId = sid)
    (hq : ∀ o ∈ b.nameOwnership, q o = true → o.logicalIdentityId = sid)
    (hq' : ∀ o ∈ b.nameOwnership, o.logicalIdentityId = sid → o.nameState.holds = true →
      q o = true)
    (hs : b'.sessions = updateWhere p f b.sessions)
    (ho : b'.nameOwnership = updateWhere q Broker.released b.nameOwnership) :
    NameInv b' (N.release sid) := by
  have hids : b'.sessions.map (·.sessionId) = b.sessions.map (·.sessionId) := by
    rw [hs]
    exact map_updateWhere _ fun s _ => hf.sessionId s
  -- Clause by clause: `sid` has no name any more, all others have theirs.
  refine ⟨hids ▸ inv.sessionIds, ?_, ?_, ?_, ?_, fun x n hN => ?_, fun x n hN => ?_,
    hids ▸ inv.operator⟩
  · rw [hs]
    refine forall_mem_updateWhere inv.identities fun s hmem _ => ?_
    rw [hf.identity, hf.sessionId]
    exact inv.identities s hmem
  · rw [hs]
    intro s' hs'
    obtain ⟨s, hmem, rfl⟩ := mem_updateWhere.mp hs'
    by_cases hsid : s.sessionId = sid
    · rw [if_pos ((hp s hmem).mpr hsid)]
      refine ⟨fun h => absurd h (hf.state s), fun _ => ⟨hf.name s, ?_⟩⟩
      rw [hf.sessionId, hsid, Naming.release_self]
    · rw [if_neg fun h => hsid ((hp s hmem).mp h)]
      exact (inv.rows s hmem).congr (Naming.release_of_ne hsid)
  · have hkeys : (updateWhere q Broker.released b.nameOwnership).map (·.logicalIdentityId) =
        b.nameOwnership.map (·.logicalIdentityId) := map_updateWhere _ fun _ _ => rfl
    rw [ho, hkeys]
    exact inv.ownerIds
  · rw [ho]
    intro o' ho' hholds
    obtain ⟨o, hmem, rfl⟩ := mem_updateWhere.mp ho'
    by_cases hqo : q o = true
    · rw [if_pos hqo] at hholds
      cases hholds
    · rw [if_neg hqo] at hholds ⊢
      have hne : o.logicalIdentityId ≠ sid := fun h => hqo (hq' o hmem h hholds)
      exact (inv.owners o hmem hholds).congr (Naming.release_of_ne hne)
  · exact hids ▸ inv.registered x n (Naming.release_eq_some.mp hN).2
  · obtain ⟨hne, hN⟩ := Naming.release_eq_some.mp hN
    rcases inv.backed x n hN with h | ⟨o, hmem, rfl, hholds⟩
    · exact .inl h
    · refine .inr ⟨o, ?_, rfl, hholds⟩
      rw [ho]
      exact mem_updateWhere.mpr ⟨o, hmem, if_neg fun h => hne (hq o hmem h)⟩

/-- Both tables drop the name of `sid`, by id. -/
theorem NameInv.released (inv : NameInv b N) {f : Session → Session} (hf : Unnames f)
    (hs : b'.sessions = updateWhere (fun s => s.sessionId = sid) f b.sessions)
    (ho : b'.nameOwnership = updateWhere (fun o => o.logicalIdentityId = sid) Broker.released
      b.nameOwnership) : NameInv b' (N.release sid) :=
  inv.releaseWhere hf (fun s _ => by simp) (fun o _ h => by simpa using h)
    (fun o _ h _ => by simpa using h) hs ho

theorem NameInv.markPending (inv : NameInv b N) :
    NameInv (b.markPending sid now) (N.release sid) := by
  refine inv.released (f := fun s => { s with
    sessionName := none, normalizedSessionName := none, sessionNameState := .pending
    pendingNameExpiresAt := some (now.plus (5 * 60000)) })
    ⟨fun _ => rfl, fun _ => rfl, fun _ => by simp, fun _ => rfl⟩ rfl ?_
  show updateWhere (fun o : NameOwnership => o.logicalIdentityId = b.logicalIdOf sid) _
    b.nameOwnership = _
  rw [inv.logicalIdOf]

theorem NameInv.advanceEpoch (inv : NameInv b N) {epoch : Nat} {resume : Bool} :
    NameInv (b.advanceEpoch env now sid epoch resume) (N.release sid) := by
  obtain ⟨is, as, es, n, hb', -⟩ := advanceEpoch_eq b env now sid epoch resume
  rw [hb']
  refine inv.released (f := Broker.resetForLifecycle epoch)
    ⟨fun _ => rfl, fun _ => rfl, fun _ => by simp [Broker.resetForLifecycle], fun _ => rfl⟩ rfl ?_
  show updateWhere (fun o : NameOwnership => o.logicalIdentityId = b.logicalIdOf sid) _ _ = _
  rw [inv.logicalIdOf]

/-- The incumbent of a name loses it. -/
theorem NameInv.forfeit (inv : NameInv b N) {own : NameOwnership} {n : String}
    (howned : b.ownerOf n = some own) (hother : own.logicalIdentityId ≠ sid) :
    NameInv (b.forfeit n sid own.currentSessionId) (N.release own.logicalIdentityId) := by
  obtain ⟨-, -, hN, howner⟩ := inv.ownerOf howned
  refine inv.releaseWhere (f := fun s => { s with
      sessionName := none, normalizedSessionName := none, sessionNameState := .unnamed })
    ⟨fun _ => rfl, fun _ => rfl, fun _ => by simp, fun _ => rfl⟩ (fun s hs => ?_)
    (fun o ho hq => ?_) (fun o ho hlid hholds => ?_) rfl rfl
  · rw [howner.current, decide_eq_true_iff]
    constructor
    · exact fun h => Option.some.inj h.1
    · intro hsid
      exact ⟨congrArg some hsid, ((inv.rows s hs).holds_iff.mpr (hsid ▸ hN)).1⟩
  · obtain ⟨hn, -, hholds⟩ := of_decide_eq_true hq
    obtain ⟨n', hn', hN'⟩ := (inv.owners o ho hholds).named
    obtain rfl := Option.some.inj (hn.symm.trans hn')
    exact N.sole hN' hN
  · obtain ⟨n', hn', hN'⟩ := (inv.owners o ho hholds).named
    rw [hlid, hN] at hN'
    exact decide_eq_true ⟨hn'.trans hN'.symm, hlid ▸ hother, hholds⟩

/-! ## Assigning -/

/-- The ownership row an identity has once a name was awarded to it. -/
structure Award (lid sid : SessionId) (n : String) (hash : String) (o : NameOwnership) : Prop where
  identity : o.logicalIdentityId = lid
  state : o.nameState = .active
  name : o.normalizedName = some n
  current : o.currentSessionId = some sid
  secret : o.ownerSecretHash = some hash

/-- What `setNameOwnershipActive` makes of the ownership table when no other identity holds
    the name: the rows of other identities, and the award. -/
theorem setNameOwnershipActive_rows (env : Env) (mom : Moment) (lid sid : SessionId)
    (norm : SessionName) (free : ∀ o ∈ b.nameOwnership, o.nameState.holds = true →
      o.normalizedName = some norm.normalized → o.logicalIdentityId = lid) :
    let rows := (b.setNameOwnershipActive env mom lid sid norm).2.nameOwnership
    let hash := (b.ownerHash lid).getD (env.hashSecret mom.secret)
    (∀ o ∈ rows, (o ∈ b.nameOwnership ∧ o.logicalIdentityId ≠ lid) ∨
        Award lid sid norm.normalized hash o) ∧
      (∀ o ∈ b.nameOwnership, o.logicalIdentityId ≠ lid → o ∈ rows) ∧
      (∃ o ∈ rows, Award lid sid norm.normalized hash o) ∧
      ((b.nameOwnership.map (·.logicalIdentityId)).Nodup →
        (rows.map (·.logicalIdentityId)).Nodup) := by
  intro rows hash
  -- Nobody else holds the name, so there is nobody to release it from.
  have hsame : (b.releaseNameOwnershipOf norm.normalized lid).nameOwnership = b.nameOwnership := by
    refine updateWhere_of_none fun o ho => decide_eq_false ?_
    rintro ⟨hn, hne, hholds⟩
    exact hne (free o ho hholds hn)
  set row : NameOwnership :=
    { logicalIdentityId := lid, normalizedName := some norm.normalized
      displayName := some norm.display, ownerSecretHash := some hash
      nameState := .active, currentSessionId := some sid }
  set write : NameOwnership → NameOwnership := fun o => { o with
    normalizedName := some norm.normalized, displayName := some norm.display
    ownerSecretHash := some hash, nameState := .active, currentSessionId := some sid }
  have hrows : rows = upsert (·.logicalIdentityId) row write b.nameOwnership := by
    rw [← hsame]
    rfl
  have hwritten {o : NameOwnership} (h : o.logicalIdentityId = lid) :
      Award lid sid norm.normalized hash (write o) := ⟨h, rfl, rfl, rfl, rfl⟩
  have hnew : Award lid sid norm.normalized hash row := ⟨rfl, rfl, rfl, rfl, rfl⟩
  rw [hrows]
  refine ⟨fun o ho => ?_, fun o ho hne => mem_upsert_of_ne ho hne, ?_, nodup_upsert fun _ => rfl⟩
  · rcases mem_upsert ho with h | rfl | ⟨o₀, -, hlid, rfl⟩
    · exact .inl h
    · exact .inr hnew
    · exact .inr (hwritten hlid)
  · rcases exists_mem_upsert (·.logicalIdentityId) row write b.nameOwnership with
      h | ⟨o₀, -, hlid, h⟩
    · exact ⟨row, h, hnew⟩
    · exact ⟨_, h, hwritten hlid⟩

/-- A row's columns after it was given a name. -/
structure NamesRow (n : String) (f : Session → Session) : Prop where
  sessionId : ∀ s, (f s).sessionId = s.sessionId
  identity : ∀ s, (f s).logicalIdentityId = s.logicalIdentityId
  state : ∀ s, (f s).sessionNameState = .active
  name : ∀ s, (f s).normalizedSessionName = some n

/-- Both tables give `sid` a name nobody else has. -/
theorem NameInv.assigned (inv : NameInv b N) {f : Session → Session}
    (hf : NamesRow norm.normalized f) (found : (b.session? sid).isSome)
    (free : ∀ x, x ≠ sid → N.name x ≠ some norm.normalized)
    (hs : b'.sessions = updateWhere (fun s => s.sessionId = sid) f b.sessions)
    (ho : b'.nameOwnership = (b.setNameOwnershipActive env mom sid sid norm).2.nameOwnership) :
    NameInv b' (N.assign sid norm.normalized) := by
  have hids : b'.sessions.map (·.sessionId) = b.sessions.map (·.sessionId) := by
    rw [hs]
    exact map_updateWhere _ fun s _ => hf.sessionId s
  have hother {x : SessionId} (hx : x ≠ sid) :
      (N.assign sid norm.normalized).name x = N.name x := Naming.assign_of_ne free hx
  -- Nobody else has the name, so the upsert touches the row of `sid` alone.
  obtain ⟨hrows, hkeep, ⟨award, hmem, haward⟩, hnodup⟩ :=
    setNameOwnershipActive_rows env mom sid sid norm fun o ho hholds hn => by
        by_contra hne
        obtain ⟨n', hn', hN⟩ := (inv.owners o ho hholds).named
        exact free _ hne (hN.trans (hn'.symm.trans hn))
  rw [← ho] at hrows hkeep hmem hnodup
  refine ⟨hids ▸ inv.sessionIds, ?_, ?_, hnodup inv.ownerIds, fun o hmem hholds => ?_,
    fun x n hN => ?_, fun x n hN => ?_, hids ▸ inv.operator⟩
  · rw [hs]
    refine forall_mem_updateWhere inv.identities fun s hmem _ => ?_
    rw [hf.identity, hf.sessionId]
    exact inv.identities s hmem
  · rw [hs]
    intro s' hs'
    obtain ⟨s, hmem, rfl⟩ := mem_updateWhere.mp hs'
    by_cases hsid : s.sessionId = sid
    · rw [if_pos (by simpa using hsid)]
      refine ⟨fun _ => ⟨norm.normalized, hf.name s, ?_⟩, fun h => absurd (hf.state s) h⟩
      rw [hf.sessionId, hsid, Naming.assign_self]
    · rw [if_neg (by simpa using hsid)]
      exact (inv.rows s hmem).congr (hother hsid)
  · rcases hrows o hmem with ⟨hold, hne⟩ | haw
    · exact (inv.owners o hold hholds).congr (hother hne)
    · refine ⟨haw.state, ⟨norm.normalized, haw.name, ?_⟩, ?_⟩
      · rw [haw.identity, Naming.assign_self]
      · rw [haw.current, haw.identity]
  · by_cases hx : x = sid
    · rw [hids, hx, mem_ids_iff]
      exact found
    · rw [hother hx] at hN
      exact hids ▸ inv.registered x n hN
  · by_cases hx : x = sid
    · exact .inr ⟨award, hmem, haward.identity.trans hx.symm, by rw [haward.state]; rfl⟩
    · rw [hother hx] at hN
      rcases inv.backed x n hN with h | ⟨o, hold, rfl, hholds⟩
      · exact .inl h
      · exact .inr ⟨o, hkeep o hold hx, rfl, hholds⟩

end Proof
end XBus
