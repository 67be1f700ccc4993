import XBus.Proof.Expiry
import XBus.Proof.ProtectedNames
import XBus.Proof.Standing

/-!
# Canonical ids

`physical_session_map` says which session a physical id stands for once it has reclaimed a
name. Its readers follow one edge and stop: the registration, the activation diagnosis and the
dashboard. That is right as long as no target of an edge is itself redirected.

Nothing but a won reclaim adds an edge, and it looks at neither end of it in the map: a session
that has been reclaimed may reclaim in turn, and a session that has reclaimed may be reclaimed.
`edgeFits` is what a reclaim would have to ask.
-/

set_option autoImplicit false

namespace XBus

open Lib

/-- The session a registration under a physical id goes to without a reclaim. -/
def Broker.resolve (b : Broker) (physical : SessionId) : SessionId :=
  (b.redirectOf physical).getD physical

/-- The session exists and is not expired. -/
def Broker.alive (b : Broker) (sid : SessionId) : Bool :=
  (b.session? sid).any fun s => s.expiredAt = none

/-- A new edge would neither lead to the source of one nor leave from the target of one; the
    edge it replaces does not count. -/
def Broker.edgeFits (b : Broker) (physical canonical : SessionId) : Bool :=
  b.physicalMap.all fun e => e.physicalSessionId ≠ canonical ∧
    (e.physicalSessionId = physical ∨ e.canonicalSessionId ≠ physical)

/-- The condition on the steps of a run: a reclaim that is won adds an edge that fits. -/
def reclaimsFit (env : Env) (b : Broker) (e : Event) : Bool :=
  match e.1 with
  | .register raw =>
    match reclaimOf env e.2 b raw with
    | .won canonical _ => (b.purgeStaleEdge raw.sessionId).edgeFits raw.sessionId canonical
    | .lost _ => true
  | _ => true

namespace Proof

variable {env : Env} {mom : Moment} {now : Iso} {k : Kind} {b b' : Broker} {sid : SessionId}

theorem alive_iff : b.alive sid = true ↔ sid ∈ b.sessions.map (·.sessionId) ∧
    b.isExpired sid = false := by
  rw [mem_ids_iff, Broker.alive, Broker.isExpired]
  cases b.session? sid with
  | none => simp
  | some s => simp

/-! ## Sessions stay -/

/-- No session is gone. -/
def Stays (b b' : Broker) : Prop :=
  ∀ sid ∈ b.sessions.map (·.sessionId), sid ∈ b'.sessions.map (·.sessionId)

theorem Stays.of_eq (h : b'.sessions.map (·.sessionId) = b.sessions.map (·.sessionId)) :
    Stays b b' := fun _ hsid => h ▸ hsid

theorem Stays.of_core (h : b'.sessions.map core = b.sessions.map core) : Stays b b' := by
  have hids := congrArg (List.map (·.sessionId)) h
  rw [List.map_map, List.map_map] at hids
  exact .of_eq hids

theorem Stays.namesOnly (h : NamesOnly b b') : Stays b b' := by
  have hids := congrArg (List.map Prod.fst) h.links
  rw [List.map_map, List.map_map] at hids
  exact .of_eq hids

theorem Stays.updateWhere {p : Session → Bool} {f : Session → Session}
    (h : b'.sessions = updateWhere p f b.sessions) (hf : ∀ s, (f s).sessionId = s.sessionId) :
    Stays b b' := by
  refine .of_eq ?_
  rw [h]
  exact map_updateWhere _ fun s _ => hf s

theorem Stays.append {s : Session} (h : b'.sessions = b.sessions ++ [s]) : Stays b b' := by
  intro sid hsid
  rw [h, List.map_append]
  exact List.mem_append_left _ hsid

theorem Move.stays (h : Move env k b b') (hk : k ≠ .remove) : Stays b b' := by
  cases h with
  | note h => exact .of_core h.sessions
  | restate | redrive | consume | component | redirect => exact .of_eq rfl
  | inject now auth ck audited m =>
    exact .of_core (injectOne_spec env now auth ck audited m b).rest.sessions
  | reissue => exact .of_core (MailOnly.issue (b := b.mint)).sessions
  | post m h => exact .of_core h.sessions
  | answer m h => exact .of_core h.sessions
  | create input =>
    obtain ⟨as, es, n, hb', -⟩ := createSession_eq b env input
    rw [hb']
    exact .append rfl
  | dormant => exact .append rfl
  | @advance _ now sid resume s =>
    obtain ⟨is, as, es, n, hb', -⟩ := advanceEpoch_eq b env now sid (s.activeEpoch + 1) resume
    rw [hb']
    exact .updateWhere rfl fun _ => rfl
  | join now input =>
    rw [joinEpoch_eq]
    exact .updateWhere rfl fun _ => rfl
  | claim => exact .namesOnly .claim
  | rename => exact .namesOnly .rename
  | operatorRename => exact .namesOnly .operatorRename
  | reclaim => exact .namesOnly (IsFrame.trans NamesOnly.forfeit .rename)
  | tombstone => exact .updateWhere rfl fun _ => rfl
  | lapse => exact .namesOnly .lapse
  | close => exact .updateWhere rfl fun _ => rfl
  | remove => exact absurd rfl hk
  | operator =>
    unfold Broker.ensureOperatorSession
    split
    · exact .append rfl
    · exact .updateWhere rfl fun _ => rfl

/-! ## Edges -/

/-- The kinds of move that touch no edge. -/
def edgesStay (k : Kind) : Bool := k ∉ [.redirect, .tombstone, .remove]

theorem Move.edges (h : Move env k b b') (hk : edgesStay k = true) :
    b'.physicalMap = b.physicalMap := by
  cases h with
  | note h => exact h.physicalMap
  | redirect | tombstone | remove => simp [edgesStay] at hk
  | restate | redrive | consume | component | dormant | close => rfl
  | inject now auth ck audited m =>
    exact (injectOne_spec env now auth ck audited m b).rest.physicalMap
  | reissue => exact (MailOnly.issue (b := b.mint)).physicalMap
  | post m h => exact h.physicalMap
  | answer m h => exact h.physicalMap
  | create input =>
    obtain ⟨as, es, n, hb', -⟩ := createSession_eq b env input
    rw [hb']
  | @advance _ now sid resume s =>
    obtain ⟨is, as, es, n, hb', -⟩ := advanceEpoch_eq b env now sid (s.activeEpoch + 1) resume
    rw [hb']
  | join now input => rw [joinEpoch_eq]
  | claim => exact NamesOnly.claim.physicalMap
  | rename => exact NamesOnly.rename.physicalMap
  | operatorRename => exact NamesOnly.operatorRename.physicalMap
  | reclaim => exact (IsFrame.trans NamesOnly.forfeit NamesOnly.rename).physicalMap
  | lapse => exact NamesOnly.lapse.physicalMap
  | operator =>
    unfold Broker.ensureOperatorSession
    split <;> rfl

theorem Moves.edges {kinds : List Kind} (h : Moves env kinds b b')
    (hk : kinds.all edgesStay = true) : b'.physicalMap = b.physicalMap :=
  h.keeps (P := fun u => u.physicalMap = b.physicalMap) rfl fun _ _ k hmem hmove hu =>
    (hmove.edges (List.all_eq_true.mp hk k hmem)).trans hu

/-- No edge is new, and the target of one that is left is as alive as before. -/
structure EdgesKept (b b' : Broker) : Prop where
  edges : ∀ e ∈ b'.physicalMap, e ∈ b.physicalMap
  alive : ∀ e ∈ b'.physicalMap, b.alive e.canonicalSessionId = true →
    b'.alive e.canonicalSessionId = true

instance : IsFrame EdgesKept where
  refl _ := ⟨fun _ he => he, fun _ _ h => h⟩
  trans h h' := ⟨fun e he => h.edges e (h'.edges e he), fun e he halive =>
    h'.alive e he (h.alive e (h'.edges e he) halive)⟩

theorem EdgesKept.tombstone : EdgesKept b (b.tombstone sid now) := by
  have hmem {e : PhysicalMap} (he : e ∈ (b.tombstone sid now).physicalMap) :
      e ∈ b.physicalMap ∧ e.canonicalSessionId ≠ sid := by
    obtain ⟨hmem, hp⟩ := List.mem_filter.mp he
    simp only [decide_eq_true_eq, not_or] at hp
    exact ⟨hmem, hp.1⟩
  refine ⟨fun e he => (hmem he).1, fun e he halive => ?_⟩
  obtain ⟨hin, hlive⟩ := alive_iff.mp halive
  refine alive_iff.mpr ⟨?_, ?_⟩
  · have hstays : Stays b (b.tombstone sid now) := .updateWhere rfl fun _ => rfl
    exact hstays _ hin
  · rw [tombstone_isExpired (hmem he).2]
    exact hlive

theorem EdgesKept.remove : EdgesKept b (b.deleteSession sid now) := by
  have hmem {e : PhysicalMap} (he : e ∈ (b.deleteSession sid now).physicalMap) :
      e ∈ b.physicalMap ∧ e.canonicalSessionId ≠ sid := by
    obtain ⟨hmem, hp⟩ := List.mem_filter.mp he
    simp only [decide_eq_true_eq, not_or] at hp
    exact ⟨hmem, hp.1⟩
  refine ⟨fun e he => (hmem he).1, fun e he halive => ?_⟩
  rw [Broker.alive, deleteSession_session? (hmem he).2]
  exact halive

theorem Move.edgesKept (h : Move env k b b') (hk : k ≠ .redirect) : EdgesKept b b' := by
  by_cases hstay : edgesStay k = true
  · have hedges := h.edges hstay
    have hkinds : k ≠ .tombstone ∧ k ≠ .remove := by
      constructor <;> rintro rfl <;> simp [edgesStay] at hstay
    refine ⟨fun e he => hedges ▸ he, fun e _ halive => ?_⟩
    obtain ⟨hin, hlive⟩ := alive_iff.mp halive
    refine alive_iff.mpr ⟨h.stays hkinds.2 _ hin, ?_⟩
    by_contra hexp
    have hexp' := h.waking hkinds.1 _ (by simpa using hexp)
    rw [hlive] at hexp'
    cases hexp'
  · cases h with
    | tombstone => exact .tombstone
    | remove => exact .remove
    | redirect => exact absurd rfl hk
    | _ => simp [edgesStay] at hstay

/-! ## The invariant -/

/-- No target of an edge is the source of one, and every target is alive. -/
structure MapInv (b : Broker) : Prop where
  apart : ∀ e ∈ b.physicalMap, ∀ e' ∈ b.physicalMap, e.canonicalSessionId ≠ e'.physicalSessionId
  alive : ∀ e ∈ b.physicalMap, b.alive e.canonicalSessionId = true

theorem MapInv.kept (inv : MapInv b) (h : EdgesKept b b') : MapInv b' :=
  ⟨fun e he e' he' => inv.apart e (h.edges e he) e' (h.edges e' he'),
    fun e he => h.alive e he (inv.alive e (h.edges e he))⟩

theorem redirectOf_found {e : PhysicalMap}
    (h : b.physicalMap.find? (fun e => e.physicalSessionId = sid) = some e)
    (halive : b.alive e.canonicalSessionId = true) :
    b.redirectOf sid = some e.canonicalSessionId := by
  rw [Broker.redirectOf, h]
  rw [Broker.alive] at halive
  cases hs : b.session? e.canonicalSessionId with
  | none => simp [hs] at halive
  | some s =>
    have hlive : s.expiredAt = none := by simpa [hs] using halive
    dsimp only
    rw [hs]
    exact if_pos hlive

theorem redirectOf_absent
    (h : b.physicalMap.find? (fun e => e.physicalSessionId = sid) = none) :
    b.redirectOf sid = none := by
  rw [Broker.redirectOf, h]

theorem redirectOf_some {canonical : SessionId} (h : b.redirectOf sid = some canonical) :
    ∃ e, b.physicalMap.find? (fun e => e.physicalSessionId = sid) = some e ∧
      e.canonicalSessionId = canonical := by
  unfold Broker.redirectOf at h
  split at h
  · cases h
  · rename_i e he
    refine ⟨e, he, ?_⟩
    split at h
    · cases h
    · split at h
      · exact Option.some.inj h
      · cases h

theorem purgeStaleEdge_subset {e : PhysicalMap} (h : e ∈ (b.purgeStaleEdge sid).physicalMap) :
    e ∈ b.physicalMap := by
  unfold Broker.purgeStaleEdge at h
  split at h
  · exact h
  · exact List.mem_of_mem_filter h

/-! ## Registering -/

/-- The edges a registration leaves: those of its physical id purged if stale, and the edge of
    a reclaim. -/
theorem register_edges {raw : RegisterInput} {a : SessionAuthority}
    (h : register env mom raw b = (.ok a, b')) : b'.physicalMap =
      ((b.purgeStaleEdge raw.sessionId).recordReclaim raw.sessionId
        (reclaimOf env mom b raw)).physicalMap := by
  obtain ⟨reclaim, input, b₁, b₂, hreg⟩ := register_ok h
  rw [hreg.moves.edges rfl, hreg.before, hreg.reclaim_eq, reclaimOf_edges]
  have hpurge : (b.mint.purgeStaleEdge raw.sessionId).physicalMap =
      (b.purgeStaleEdge raw.sessionId).physicalMap := by
    unfold Broker.purgeStaleEdge
    split
    · rename_i hsome
      rw [if_pos (show (b.redirectOf raw.sessionId).isSome from hsome)]
      rfl
    · rename_i hnone
      rw [if_neg (show ¬ (b.redirectOf raw.sessionId).isSome from hnone)]
      rfl
  unfold Broker.recordReclaim
  split
  · split
    · exact hpurge
    · rw [hpurge]
  · exact hpurge

/-- The target of a registration is alive afterwards, and so is whatever was. -/
theorem register_alive {raw : RegisterInput} {a : SessionAuthority}
    (h : register env mom raw b = (.ok a, b')) :
    b'.alive a.sessionId = true ∧ ∀ sid, b.alive sid = true → b'.alive sid = true := by
  obtain ⟨cs, hseated⟩ := register_seated h
  obtain ⟨s, hs, -, -, hexp⟩ := hseated.here
  have hhere : b'.alive a.sessionId = true := by simp [Broker.alive, hs, hexp]
  refine ⟨hhere, fun sid halive => ?_⟩
  by_cases hsid : sid = a.sessionId
  · rw [hsid]
    exact hhere
  · rw [Broker.alive, hseated.others sid hsid]
    exact halive

theorem reclaimOf_won {raw : RegisterInput} {canonical lid : SessionId}
    (h : reclaimOf env mom b raw = .won canonical lid) : canonical ≠ raw.sessionId := by
  unfold reclaimOf at h
  split at h
  · obtain ⟨-, -, -, -, -, -, -, -, -, hne, -⟩ := resolveReclaim_won h
    exact hne
  · cases h

theorem MapInv.register {raw : RegisterInput} {a : SessionAuthority} (inv : MapInv b)
    (hfits : reclaimsFit env b (.register raw, mom) = true)
    (h : register env mom raw b = (.ok a, b')) : MapInv b' := by
  have hedges := register_edges h
  obtain ⟨hhere, halive⟩ := register_alive h
  obtain ⟨cs, hseated⟩ := register_seated h
  -- A lost reclaim only purges an edge; a won one adds one where it fits.
  cases hreclaim : reclaimOf env mom b raw with
  | lost reason =>
    rw [hreclaim] at hedges
    have hsub (e : PhysicalMap) (he : e ∈ b'.physicalMap) : e ∈ b.physicalMap :=
      purgeStaleEdge_subset (hedges ▸ he)
    exact inv.kept ⟨hsub, fun e _ => halive _⟩
  | won canonical lid =>
    have hne := reclaimOf_won hreclaim
    have htarget : a.sessionId = canonical := by
      rw [hseated.target, targetOf, hreclaim]
      rfl
    rw [hreclaim, Broker.recordReclaim, if_neg hne.symm] at hedges
    have hfits : ∀ e ∈ (b.purgeStaleEdge raw.sessionId).physicalMap,
        e.physicalSessionId ≠ canonical ∧
          (e.physicalSessionId = raw.sessionId ∨ e.canonicalSessionId ≠ raw.sessionId) := by
      simpa [reclaimsFit, hreclaim, Broker.edgeFits] using hfits
    refine ⟨fun e he e' he' => ?_, fun e he => ?_⟩
    · rw [hedges] at he he'
      rcases mem_insertOrReplace.mp he with ⟨hold, hkey⟩ | rfl
      · rcases mem_insertOrReplace.mp he' with ⟨hold', -⟩ | rfl
        · exact inv.apart e (purgeStaleEdge_subset hold) e' (purgeStaleEdge_subset hold')
        · exact (hfits e hold).2.resolve_left hkey
      · rcases mem_insertOrReplace.mp he' with ⟨hold', -⟩ | rfl
        · exact (hfits e' hold').1.symm
        · exact hne
    · rw [hedges] at he
      rcases mem_insertOrReplace.mp he with ⟨hold, -⟩ | rfl
      · exact halive _ (inv.alive e (purgeStaleEdge_subset hold))
      · rw [← htarget]
        exact hhere

/-- The session a registration went to is the one its physical id resolves to from then on. -/
theorem register_resolves {raw : RegisterInput} {a : SessionAuthority} (inv' : MapInv b')
    (h : register env mom raw b = (.ok a, b')) : b'.resolve raw.sessionId = a.sessionId := by
  have hedges := register_edges h
  obtain ⟨cs, hseated⟩ := register_seated h
  have hfound {e : PhysicalMap}
      (he : b'.physicalMap.find? (fun e => e.physicalSessionId = raw.sessionId) = some e) :
      b'.resolve raw.sessionId = e.canonicalSessionId := by
    rw [Broker.resolve, redirectOf_found he (inv'.alive e (List.mem_of_find?_eq_some he))]
    rfl
  rw [hseated.target, targetOf]
  cases hreclaim : reclaimOf env mom b raw with
  | won canonical lid =>
    rw [hreclaim, Broker.recordReclaim, if_neg (reclaimOf_won hreclaim).symm] at hedges
    exact hfound (by rw [hedges, find?_insertOrReplace, if_pos rfl])
  | lost reason =>
    rw [hreclaim, Broker.recordReclaim, Broker.purgeStaleEdge] at hedges
    cases hredirect : b.redirectOf raw.sessionId with
    | some canonical =>
      obtain ⟨e, he, rfl⟩ := redirectOf_some hredirect
      rw [hredirect, Option.isSome_some, if_pos rfl] at hedges
      exact hfound (by rw [hedges, he])
    | none =>
      rw [hredirect, Option.isSome_none, if_neg (by simp)] at hedges
      have habsent :
        b'.physicalMap.find? (fun e => e.physicalSessionId = raw.sessionId) = none := by
        rw [hedges, find?_deleted, if_pos rfl]
      rw [Broker.resolve, redirectOf_absent habsent]
      rfl

/-! ## Runs -/

theorem mapInv_step {e : Event} (inv : MapInv b) (he : reclaimsFit env b e = true) :
    MapInv (step env b e).2 := by
  obtain ⟨op, mom⟩ := e
  have hmoves (hk : (kindsOf false op).contains .redirect = false) :
      MapInv (step env b (op, mom)).2 := by
    have hmoved := exec_moves env mom op b false (by simp)
    refine inv.kept (hmoved.frame fun _ _ k hmem hmove => hmove.edgesKept ?_)
    rintro rfl
    simp [hmem] at hk
  cases op with
  | register raw =>
    show MapInv (exec env mom (.register raw) b).2
    simp only [exec, Call.map_snd]
    rcases hreg : XBus.register env mom raw b with ⟨failure | a, b'⟩
    · rw [← register_refuses b failure b' hreg]
      exact inv
    · exact inv.register he hreg
  | _ => exact hmoves rfl

/-- One edge of the map. -/
def Edge (b : Broker) (physical canonical : SessionId) : Prop :=
  ∃ e ∈ b.physicalMap, e.physicalSessionId = physical ∧ e.canonicalSessionId = canonical

/-- What the readers of the map rely on. -/
structure CanonicalIds (b : Broker) : Prop where
  apart : ∀ e ∈ b.physicalMap, ∀ e' ∈ b.physicalMap, e.canonicalSessionId ≠ e'.physicalSessionId
  acyclic : ∀ sid, ¬ Relation.TransGen (Edge b) sid sid
  /-- Resolving a second time changes nothing. -/
  idempotent : ∀ sid, b.resolve (b.resolve sid) = b.resolve sid
  /-- A registration and a diagnosis of one id are about one session. -/
  agree : ∀ sid, b.diagnosedSession sid = b.resolve sid
  /-- The session that stands for a redirected id is on the dashboard. -/
  listed : ∀ e ∈ b.physicalMap, e.canonicalSessionId ∈ b.listedSessions

/-- The target of an edge has no edge of its own. -/
theorem MapInv.find?_canonical (inv : MapInv b) {e : PhysicalMap} (he : e ∈ b.physicalMap) :
    b.physicalMap.find? (fun x => x.physicalSessionId = e.canonicalSessionId) = none := by
  rw [List.find?_eq_none]
  intro e' he' hkey
  exact inv.apart e he e' he' (of_decide_eq_true hkey).symm

theorem MapInv.canonicalIds (inv : MapInv b) : CanonicalIds b := by
  refine ⟨inv.apart, fun sid hcycle => ?_, fun sid => ?_, fun sid => ?_, fun e he => ?_⟩
  · obtain ⟨c, ⟨e, he, hfrom, -⟩, -⟩ := Relation.TransGen.head'_iff.mp hcycle
    obtain ⟨c', -, ⟨e', he', -, hto⟩⟩ := Relation.TransGen.tail'_iff.mp hcycle
    exact inv.apart e' he' e he (hto.trans hfrom.symm)
  · cases hredirect : b.redirectOf sid with
    | none => simp [Broker.resolve, hredirect]
    | some canonical =>
      obtain ⟨e, he, rfl⟩ := redirectOf_some hredirect
      have hnone := redirectOf_absent (inv.find?_canonical (List.mem_of_find?_eq_some he))
      simp [Broker.resolve, hredirect, hnone]
  · unfold Broker.diagnosedSession
    split
    · rename_i habsent
      rw [Broker.resolve, redirectOf_absent habsent]
      rfl
    · rename_i e he
      have halive := inv.alive e (List.mem_of_find?_eq_some he)
      rw [if_pos (mem_ids_iff.mp (alive_iff.mp halive).1), Broker.resolve,
        redirectOf_found he halive]
      rfl
  · obtain ⟨s, hs, hid⟩ := List.mem_map.mp (alive_iff.mp (inv.alive e he)).1
    refine List.mem_map.mpr ⟨s, List.mem_filter.mpr ⟨hs, ?_⟩, hid⟩
    have hkey : ∀ x ∈ b.physicalMap, x.physicalSessionId ≠ e.canonicalSessionId :=
      fun x hx heq => inv.apart e he x hx heq.symm
    simpa [hid] using hkey

/-- **Canonical ids.** In every run whose won reclaims add edges that fit, no target of an edge
    is the source of one. So the one step every reader takes is the whole way, the three readers
    agree, and a component that registers under a physical id goes where its next one will. -/
theorem canonical_ids {log : List (Event × Except Failure Response)}
    (run : Run (step env) (fun b e => reclaimsFit env b e = true) (initial env) log b) :
    CanonicalIds b ∧ ∀ mom raw a b', reclaimsFit env b (.register raw, mom) = true →
      register env mom raw b = (.ok a, b') → b'.resolve raw.sessionId = a.sessionId := by
  have hinit : MapInv (initial env) := ⟨fun _ he => (nomatch he), fun _ he => (nomatch he)⟩
  have inv : MapInv b := run.invariant hinit fun u e hu he => mapInv_step hu he
  refine ⟨inv.canonicalIds, fun mom raw a b' hfits h => ?_⟩
  exact register_resolves (inv.register hfits h) h

/-- `alpha` and `beta` register under names of their own and leave; then `beta` reclaims the
    name of `alpha`. -/
def reclaimedOnce : List Event :=
  [ (.register { sessionId := "alpha", connectionId := 1, processId := 1
                 requestedSessionName := some "alpha-name" }, { nowMs := 1000, secret := "a" }),
    (.register { sessionId := "beta", connectionId := 2, processId := 2
                 requestedSessionName := some "beta-name" }, { nowMs := 1000, secret := "b" }),
    (.connClosed (component "alpha" .mcp 1 1) 1, { nowMs := 1001 }),
    (.connClosed (component "beta" .mcp 1 2) 2, { nowMs := 1001 }),
    (.register { sessionId := "beta", connectionId := 3, processId := 3
                 requestedSessionName := some "alpha-name", ownerSecret := some "a" },
      { nowMs := 1002 }) ]

/-- From then on `beta` stands for `alpha`, for a hook as for a diagnosis. -/
theorem reclaimed_id_resolves :
    let b := (runAll (step plainEnv) (initial plainEnv) reclaimedOnce).2
    b.resolve "beta" = "alpha" ∧ CanonicalIds b := by
  intro b
  have hrun : Run (step plainEnv) (fun b e => reclaimsFit plainEnv b e = true)
      (initial plainEnv) _ b := Run.of_runAll reclaimedOnce (by decide +kernel)
  exact ⟨by decide +kernel, (canonical_ids hrun).1⟩

/-- Then `alpha` comes back under the name of `beta`. -/
def reclaimedTwice : List Event :=
  reclaimedOnce ++
    [ (.connClosed (component "alpha" .mcp 2 3) 3, { nowMs := 1003 }),
      (.register { sessionId := "alpha", connectionId := 4, processId := 4
                   requestedSessionName := some "beta-name", ownerSecret := some "b" },
        { nowMs := 1004 }) ]

/-- Each of the two stands for the other, and the dashboard lists neither. -/
theorem reclaims_cross :
    ∃ log b, Run (step plainEnv) Any (initial plainEnv) log b ∧ ¬ CanonicalIds b := by
  refine ⟨_, _, Run.of_events (step plainEnv) (initial plainEnv) reclaimedTwice, fun hids => ?_⟩
  have hcross : ∃ e ∈ (runAll (step plainEnv) (initial plainEnv) reclaimedTwice).2.physicalMap,
      ∃ e' ∈ (runAll (step plainEnv) (initial plainEnv) reclaimedTwice).2.physicalMap,
        e.canonicalSessionId = e'.physicalSessionId := by
    decide +kernel
  obtain ⟨e, he, e', he', hclash⟩ := hcross
  exact hids.apart e he e' he' hclash

end Proof
end XBus
