import XBus.Proof.Steps

/-!
# Where sessions and components stand

Who is connected to what is written in four columns of a session (its epoch, its link, the
connection it is bound to, its expiry) and in the component rows. Most operations touch none
of these; the frames here say so, from the most quiet to the least:

* `Settled`: the four columns and the components are the same;
* `SameLinks`: the expiry aside (renaming an expired session revives it);
* `Calm`: no epoch moves and no component comes alive.

Registration is none of them, and has a spec of its own, `Seated`.
-/

set_option autoImplicit false

namespace XBus
namespace Proof

open Lib

variable {env : Env} {mom : Moment} {now : Iso} {k : Kind} {b b' : Broker} {sid : SessionId}

/-! ## Frames -/

/-- The link of a session: its epoch, its state, and the connection it is bound to. -/
def link (s : Session) : Nat × LinkState × Option ConnId :=
  (s.activeEpoch, s.state, s.boundConnectionId)

structure Settled (b b' : Broker) : Prop where
  sessions : ∀ sid, (b'.session? sid).map (fun s => (link s, s.expiredAt)) =
    (b.session? sid).map fun s => (link s, s.expiredAt)
  components : b'.components = b.components

structure SameLinks (b b' : Broker) : Prop where
  sessions : ∀ sid, (b'.session? sid).map link = (b.session? sid).map link
  components : b'.components = b.components

structure Calm (b b' : Broker) : Prop where
  epochs : ∀ sid e, b'.epochOf sid = some e → b.epochOf sid = some e
  live : ∀ c ∈ b'.components, c.state = .live → c ∈ b.components

instance : IsFrame Settled where
  refl _ := ⟨fun _ => rfl, rfl⟩
  trans h h' := ⟨fun sid => (h'.sessions sid).trans (h.sessions sid),
    h'.components.trans h.components⟩

instance : IsFrame SameLinks where
  refl _ := ⟨fun _ => rfl, rfl⟩
  trans h h' := ⟨fun sid => (h'.sessions sid).trans (h.sessions sid),
    h'.components.trans h.components⟩

instance : IsFrame Calm where
  refl _ := ⟨fun _ _ h => h, fun _ h _ => h⟩
  trans h h' := ⟨fun sid e he => h.epochs sid e (h'.epochs sid e he),
    fun c hc hlive => h.live c (h'.live c hc hlive) hlive⟩

theorem Settled.sameLinks (h : Settled b b') : SameLinks b b' := by
  refine ⟨fun sid => ?_, h.components⟩
  have := congrArg (Option.map Prod.fst) (h.sessions sid)
  rwa [Option.map_map, Option.map_map] at this

theorem SameLinks.epochOf (h : SameLinks b b') (sid : SessionId) :
    b'.epochOf sid = b.epochOf sid := by
  have := congrArg (Option.map Prod.fst) (h.sessions sid)
  rwa [Option.map_map, Option.map_map] at this

theorem SameLinks.calm (h : SameLinks b b') : Calm b b' :=
  ⟨fun sid _ he => (h.epochOf sid).symm.trans he, fun _ hc _ => h.components ▸ hc⟩

namespace Settled

theorem of_core (sessions : b'.sessions.map core = b.sessions.map core)
    (components : b'.components = b.components) : Settled b b' := by
  refine ⟨fun sid => ?_, components⟩
  have := congrArg (Option.map fun s => (link s, s.expiredAt)) (session?_core sessions sid)
  rwa [Option.map_map, Option.map_map] at this

theorem bookkeeping (h : Bookkeeping b b') : Settled b b' := .of_core h.sessions h.components

theorem mailOnly (h : MailOnly b b') : Settled b b' := .of_core h.sessions h.components

/-- A write of session columns other than these four. -/
theorem updateSessions {p : Session → Bool} {f : Session → Session}
    (hid : ∀ s, (f s).sessionId = s.sessionId)
    (hf : ∀ s, (link (f s), (f s).expiredAt) = (link s, s.expiredAt)) :
    Settled b { b with sessions := updateWhere p f b.sessions } := by
  refine ⟨fun sid => ?_, rfl⟩
  have hfind : Broker.session? { b with sessions := updateWhere p f b.sessions } sid =
      (b.session? sid).map fun s => if p s then f s else s :=
    find?_updateWhere fun s => by simp [hid]
  rw [hfind, Option.map_map]
  refine congrArg (fun g => (b.session? sid).map g) (funext fun s => ?_)
  by_cases hp : p s = true
  · simp [hp, hf]
  · simp [hp]

theorem ownership {os : List NameOwnership} : Settled b { b with nameOwnership := os } :=
  ⟨fun _ => rfl, rfl⟩

theorem setSessionName {norm : SessionName} : Settled b (b.setSessionName sid norm) :=
  updateSessions (fun _ => rfl) fun _ => rfl

theorem markPending : Settled b (b.markPending sid now) := by
  have hrow : Settled b (b.updateSession sid fun s =>
      { s with sessionName := none, normalizedSessionName := none, sessionNameState := .pending
               pendingNameExpiresAt := some (now.plus (5 * 60000)) }) :=
    updateSessions (fun _ => rfl) fun _ => rfl
  exact IsFrame.trans hrow ownership

theorem claim {requested : Option String} :
    Settled b (claimNameForRegister env mom sid requested b).2 := by
  unfold claimNameForRegister
  split
  · exact IsFrame.refl b
  · split
    · exact markPending
    · split
      · exact markPending
      · exact IsFrame.trans setSessionName ownership

theorem lapse : Settled b (reapStalePendingNames now b) := by
  unfold reapStalePendingNames
  split
  · have hrow : Settled b { b with
        sessions := updateWhere (fun s => s.pendingLapsed now)
          (fun s => { s with sessionNameState := .unnamed, sessionName := none
                             normalizedSessionName := none
                             pendingNameExpiresAt := none }) b.sessions } :=
      updateSessions (fun _ => rfl) fun _ => rfl
    exact IsFrame.trans hrow (.bookkeeping .audit)
  · exact IsFrame.refl b

end Settled

theorem SameLinks.namesOnly (h : NamesOnly b b') : SameLinks b b' := by
  refine ⟨fun sid => ?_, h.components⟩
  have hfind (rows : List Session) : (rows.find? fun s => s.sessionId = sid).map linkCols =
      (rows.map linkCols).find? fun c => c.1 = sid := by
    rw [List.find?_map]
    rfl
  have heq : (b'.session? sid).map linkCols = (b.session? sid).map linkCols := by
    rw [Broker.session?, Broker.session?, hfind, hfind, h.links]
  have := congrArg (Option.map Prod.snd) heq
  rwa [Option.map_map, Option.map_map] at this

/-! ## Moves -/

/-- The kinds of move that settle. -/
def settles (k : Kind) : Bool :=
  k ∉ [.create, .dormant, .advance, .join, .component, .rename, .reclaim, .tombstone, .close,
    .remove, .operator]

theorem Move.settled (h : Move env k b b') (hk : settles k = true) : Settled b b' := by
  cases h with
  | note h => exact .bookkeeping h
  | restate => exact .mailOnly .updateDeliveries
  | redrive => exact .mailOnly .updateDeliveries
  | consume => exact .mailOnly .consume
  | inject now auth ck audited m =>
    exact .mailOnly (injectOne_spec env now auth ck audited m b).rest
  | reissue => exact .mailOnly (IsFrame.trans (.of_bookkeeping .mint) .issue)
  | post m h => exact .of_core h.sessions h.components
  | answer m h => exact .of_core h.sessions h.components
  | redirect => exact ⟨fun _ => rfl, rfl⟩
  | claim => exact .claim
  | lapse => exact .lapse
  | create | dormant | advance | join | component | rename | operatorRename | reclaim
  | tombstone | close | remove | operator => simp [settles] at hk

/-- The kinds of move that leave links alone. -/
def linksStay (k : Kind) : Bool := settles k || k = .rename || k = .reclaim

theorem Move.sameLinks (h : Move env k b b') (hk : linksStay k = true) : SameLinks b b' := by
  by_cases hs : settles k = true
  · exact (h.settled hs).sameLinks
  · cases h with
    | rename => exact .namesOnly .rename
    | operatorRename => exact .namesOnly .operatorRename
    | reclaim => exact .namesOnly (IsFrame.trans NamesOnly.forfeit .rename)
    | _ => simp_all [linksStay, settles]

/-- An update that takes components out of life brings none to life. -/
theorem live_of_updateWhere {p : Component → Bool} {st : ComponentState} (hst : st ≠ .live)
    {cs : List Component} {c : Component} (hlive : c.state = .live)
    (hc : c ∈ updateWhere p (fun c => { c with state := st }) cs) : c ∈ cs :=
  mem_of_mem_updateWhere (fun _ _ _ heq => hst (by rw [← heq] at hlive; exact hlive)) hc

/-- The kinds of move that are calm. -/
def calms (k : Kind) : Bool :=
  k ∉ [.create, .dormant, .advance, .component, .operator]

theorem Move.calm (h : Move env k b b') (hk : calms k = true) : Calm b b' := by
  by_cases hs : linksStay k = true
  · exact (h.sameLinks hs).calm
  · cases h with
    | join now input =>
      rw [joinEpoch_eq]
      refine ⟨fun sid e he => (epochOf_updateWhere rfl ?_ sid).symm.trans he, fun c hc _ => hc⟩
      exact fun _ => rfl
    | tombstone sid now =>
      obtain ⟨as, es, ds, hb', -⟩ := tombstone_eq b sid now
      rw [hb']
      refine ⟨fun sid e he => (epochOf_updateWhere rfl ?_ sid).symm.trans he,
        fun c hc hlive => live_of_updateWhere (by decide) hlive hc⟩
      exact fun _ => rfl
    | close auth conn =>
      refine ⟨fun sid e he => (epochOf_updateWhere rfl ?_ sid).symm.trans he,
        fun c hc hlive => live_of_updateWhere (by decide) hlive hc⟩
      exact fun _ => rfl
    | remove sid now =>
      refine ⟨fun sid' e he => ?_, fun c hc _ => List.mem_of_mem_filter hc⟩
      by_cases hne : sid' = sid
      · subst hne
        obtain ⟨s, hs, -⟩ := Option.map_eq_some_iff.mp he
        have : s ∈ b.sessions.filter fun s => s.sessionId ≠ sid' := List.mem_of_find?_eq_some hs
        simp [(session?_eq_some hs).2] at this
      · rwa [Broker.epochOf, deleteSession_session? hne] at he
    | _ => simp_all [calms, linksStay, settles]

/-! ## The rows of other sessions -/

/-- No row but the session's own was written. -/
def OthersKept (sid : SessionId) (b b' : Broker) : Prop :=
  ∀ sid', sid' ≠ sid → b'.session? sid' = b.session? sid'

instance : IsFrame (OthersKept sid) where
  refl _ _ _ := rfl
  trans h h' sid' hne := (h' sid' hne).trans (h sid' hne)

namespace OthersKept

theorem of_eq (h : b'.sessions = b.sessions) : OthersKept sid b b' := fun _ _ => by
  rw [Broker.session?, h, Broker.session?]

theorem updateWhere {p : Session → Bool} {f : Session → Session}
    (hid : ∀ s, (f s).sessionId = s.sessionId) (hp : ∀ s, p s = true → s.sessionId = sid) :
    OthersKept sid b { b with sessions := Lib.updateWhere p f b.sessions } := by
  intro sid' hne
  have hfind : Broker.session? { b with sessions := Lib.updateWhere p f b.sessions } sid' =
      (b.session? sid').map fun s => if p s then f s else s :=
    find?_updateWhere fun s => by simp [hid]
  rw [hfind]
  cases hs : b.session? sid' with
  | none => rfl
  | some s =>
    have hnp : ¬ p s = true := fun h => hne ((session?_eq_some hs).2.symm.trans (hp s h))
    simp [hnp]

theorem updateSession {f : Session → Session} (hid : ∀ s, (f s).sessionId = s.sessionId) :
    OthersKept sid b (b.updateSession sid f) :=
  updateWhere hid fun _ h => by simpa using h

theorem refresh : OthersKept sid b (b.refreshMeaningfulActivity sid now) :=
  updateWhere (fun _ => rfl) fun _ h => by simp only [decide_eq_true_eq] at h; exact h.1

theorem claim {requested : Option String} :
    OthersKept sid b (claimNameForRegister env mom sid requested b).2 := by
  have hpending : OthersKept sid b (b.markPending sid mom.now) := by
    have hrow : OthersKept sid b (b.updateSession sid fun s =>
        { s with sessionName := none, normalizedSessionName := none, sessionNameState := .pending
                 pendingNameExpiresAt := some (mom.now.plus (5 * 60000)) }) :=
      updateSession fun _ => rfl
    exact IsFrame.trans hrow (of_eq rfl)
  unfold claimNameForRegister
  split
  · exact IsFrame.refl b
  · split
    · exact hpending
    · split
      · exact hpending
      · have hnamed {norm : SessionName} : OthersKept sid b (b.setSessionName sid norm) :=
          updateSession fun _ => rfl
        exact IsFrame.trans hnamed (of_eq rfl)

end OthersKept

/-! ## Registering -/

/-- The session a registration resolves to. -/
def targetOf (env : Env) (mom : Moment) (b : Broker) (raw : RegisterInput) : SessionId :=
  (redirected raw (reclaimOf env mom b raw) (b.redirectOf raw.sessionId)).sessionId

/-- A reclaim does not depend on the edges. -/
theorem reclaimOf_edges (env : Env) (mom : Moment) (b : Broker) (raw : RegisterInput) :
    reclaimOf env mom (b.mint.purgeStaleEdge raw.sessionId) raw = reclaimOf env mom b raw := by
  obtain ⟨es, hes⟩ := purgeStaleEdge_eq b.mint raw.sessionId
  rw [hes]
  rfl

/-- The component row of a registration. -/
def seat (raw : RegisterInput) (a : SessionAuthority) (now : Iso) : Component :=
  { componentInstanceId := a.componentInstanceId, sessionId := a.sessionId, epoch := a.epoch
    role := raw.role, processId := raw.processId, connectionId := raw.connectionId
    connectedAt := now, state := .live }

/-- The three ways into a session, with the component rows each leaves beside the new one. -/
inductive Way (env : Env) (mom : Moment) (raw : RegisterInput) (b : Broker)
    (a : SessionAuthority) (b' : Broker) : List Component → Prop
  | created (absent : b.session? a.sessionId = none) : Way env mom raw b a b' b.components
  | advanced {s : Session} (found : b.session? a.sessionId = some s)
      (epoch : a.epoch = s.activeEpoch + 1)
      (fresh : raw.supersede = true ∨ s.expiredAt ≠ none ∨
        ∃ lid, reclaimOf env mom b raw = .won a.sessionId lid) :
      Way env mom raw b a b' (updateWhere (fun c => c.sessionId = a.sessionId ∧ c.state = .live)
        (fun c => { c with state := .superseded }) b.components)
  | joined {s : Session} (found : b.session? a.sessionId = some s) (alive : s.expiredAt = none)
      (epoch : a.epoch = s.activeEpoch)
      (sole : raw.role = .mcp → ∀ c ∈ b.liveMcp a.sessionId s.activeEpoch,
        c.connectionId = raw.connectionId)
      (named : s.sessionNameState = .active → ∃ s', b'.session? a.sessionId = some s' ∧
        s'.sessionNameState = .active ∧ s'.sessionName = s.sessionName ∧
        s'.normalizedSessionName = s.normalizedSessionName) :
      Way env mom raw b a b' b.components

/-- What a registration that answered did to sessions and components. -/
structure Seated (env : Env) (mom : Moment) (raw : RegisterInput) (b : Broker)
    (a : SessionAuthority) (b' : Broker) (cs : List Component) : Prop where
  target : a.sessionId = targetOf env mom b raw
  role : a.role = raw.role
  others : OthersKept a.sessionId b b'
  here : ∃ s', b'.session? a.sessionId = some s' ∧ s'.activeEpoch = a.epoch ∧
    s'.state = .connected ∧ s'.expiredAt = none
  way : Way env mom raw b a b' cs
  components : b'.components = cs ++ [seat raw a mom.now]

/-- The component rows of other sessions are not touched. -/
theorem Seated.otherRows {raw : RegisterInput} {a : SessionAuthority} {cs : List Component}
    (h : Seated env mom raw b a b' cs) {row : Component} (hne : row.sessionId ≠ a.sessionId) :
    row ∈ b'.components ↔ row ∈ b.components := by
  have hseat : row ≠ seat raw a mom.now := fun heq => hne (by rw [heq]; rfl)
  have hcs : row ∈ cs ↔ row ∈ b.components := by
    cases h.way with
    | created | joined => exact Iff.rfl
    | advanced =>
      refine ⟨mem_of_mem_updateWhere fun x _ hx heq => hne ?_, fun hrow =>
        mem_updateWhere_of_mem hrow (by simp [hne])⟩
      simp only [decide_eq_true_eq] at hx
      rw [← heq]
      exact hx.1
  rw [h.components, List.mem_append, List.mem_singleton, hcs]
  exact or_iff_left hseat

theorem redirected_fields (raw : RegisterInput) (reclaim : ReclaimOutcome)
    (redirect : Option SessionId) :
    (redirected raw reclaim redirect).role = raw.role ∧
      (redirected raw reclaim redirect).processId = raw.processId ∧
      (redirected raw reclaim redirect).connectionId = raw.connectionId := by
  cases reclaim with
  | won => exact ⟨rfl, rfl, rfl⟩
  | lost => cases redirect <;> exact ⟨rfl, rfl, rfl⟩

/-- A registration supersedes because it says so, or because it reclaims. -/
theorem redirected_supersede {raw : RegisterInput} {reclaim : ReclaimOutcome}
    {redirect : Option SessionId} (h : (redirected raw reclaim redirect).supersede = true) :
    raw.supersede = true ∨ ∃ lid, reclaim =
      .won (redirected raw reclaim redirect).sessionId lid := by
  cases reclaim with
  | won csid lid => exact .inr ⟨lid, rfl⟩
  | lost =>
    left
    cases redirect <;> exact h

theorem settleName_settled {input : RegisterInput} {isNew : Bool} :
    Settled b (settleName env mom input isNew b).2 := by
  unfold settleName
  split
  · exact IsFrame.trans .claim (.bookkeeping .refresh)
  · split
    · exact IsFrame.refl b
    · split
      · exact .claim
      · exact IsFrame.refl b

theorem settleName_others {input : RegisterInput} {isNew : Bool} :
    OthersKept input.sessionId b (settleName env mom input isNew b).2 := by
  unfold settleName
  split
  · exact IsFrame.trans OthersKept.claim .refresh
  · split
    · exact IsFrame.refl b
    · split
      · exact .claim
      · exact IsFrame.refl b

/-- The name of a session that has one is left to it by those who join. -/
theorem settleName_named {input : RegisterInput} {s : Session}
    (found : b.session? input.sessionId = some s) (named : s.sessionNameState = .active) :
    (settleName env mom input false b).2 = b := by
  simp [settleName, found, named]

theorem Entered.others {input : RegisterInput} {epoch : Nat}
    (h : Entered env now input b epoch b') : OthersKept input.sessionId b b' := by
  intro sid hne
  cases h with
  | created absent => rw [createSession_session? absent, if_neg hne]
  | advanced => rw [advanceEpoch_session?]; simp [hne]
  | joined => rw [joinEpoch_session?]; simp [hne]

theorem Entered.here {input : RegisterInput} {epoch : Nat}
    (h : Entered env now input b epoch b') :
    ∃ s', b'.session? input.sessionId = some s' ∧ s'.activeEpoch = epoch ∧
      s'.state = .connected ∧ s'.expiredAt = none := by
  cases h with
  | created absent => exact ⟨firstRow env input, by simp [createSession_session? absent],
      rfl, rfl, rfl⟩
  | @advanced s found =>
    exact ⟨Broker.resetForLifecycle (s.activeEpoch + 1) s, by simp [advanceEpoch_session?, found],
      rfl, rfl, rfl⟩
  | @joined s found _ alive =>
    exact ⟨Proof.joined input.connectionId s, by simp [joinEpoch_session?, found], rfl, rfl, alive⟩

/-- The three branches, by what they found and what they left of the components. -/
theorem Entered.components {input : RegisterInput} {epoch : Nat}
    (h : Entered env now input b epoch b') :
    (b.session? input.sessionId = none ∧ b'.components = b.components) ∨
    (∃ s, b.session? input.sessionId = some s ∧ epoch = s.activeEpoch + 1 ∧
      (input.supersede = true ∨ s.expiredAt.isSome = true) ∧
      b'.components = updateWhere (fun c => c.sessionId = input.sessionId ∧ c.state = .live)
        (fun c => { c with state := .superseded }) b.components) ∨
    (∃ s, b.session? input.sessionId = some s ∧ epoch = s.activeEpoch ∧ input.supersede = false ∧
      s.expiredAt = none ∧ (input.role = .mcp → ∀ c ∈ b.liveMcp input.sessionId s.activeEpoch,
        c.connectionId = input.connectionId) ∧
      b'.components = b.components ∧
      b'.session? input.sessionId = some (Proof.joined input.connectionId s)) := by
  cases h with
  | created absent =>
    obtain ⟨as, es, n, hb', -⟩ := createSession_eq b env input
    exact .inl ⟨absent, by rw [hb']⟩
  | @advanced s found fresh =>
    obtain ⟨is, as, es, n, hb', -⟩ := advanceEpoch_eq b env now input.sessionId
      (s.activeEpoch + 1) s.expiredAt.isSome
    exact .inr (.inl ⟨s, found, rfl, fresh, by rw [hb']⟩)
  | @joined s found stay alive sole =>
    exact .inr (.inr ⟨s, found, rfl, stay, alive, sole, by rw [joinEpoch_eq],
      by simp [joinEpoch_session?, found]⟩)

theorem register_seated {raw : RegisterInput} {a : SessionAuthority}
    (h : register env mom raw b = (.ok a, b')) : ∃ cs, Seated env mom raw b a b' cs := by
  obtain ⟨reclaim, input, b₁, b₂, hreg⟩ := register_ok h
  obtain ⟨es, hb₁⟩ := hreg.before_eq
  have hinput : input = redirected raw (reclaimOf env mom b raw) (b.redirectOf raw.sessionId) := by
    rw [hreg.input_eq, hreg.reclaim_eq, reclaimOf_edges]
    rfl
  obtain ⟨hrole, hpid, hconn⟩ := redirected_fields raw (reclaimOf env mom b raw)
    (b.redirectOf raw.sessionId)
  rw [← hinput] at hrole hpid hconn
  have hrow : { componentInstanceId := b.nextId, sessionId := input.sessionId, epoch := a.epoch
                role := input.role, processId := input.processId
                connectionId := input.connectionId, connectedAt := mom.now
                state := .live : Component } = seat raw a mom.now := by
    simp [seat, hreg.componentId, hreg.sessionId, hrole, hpid, hconn]
  have hbefore : ∀ sid, b₁.session? sid = b.session? sid := fun sid => by rw [hb₁]; rfl
  have hcomponents : b₁.components = b.components := by rw [hb₁]; rfl
  -- What follows the entry writes names and the audit trail.
  set b₃ := b₂.insertComponent input b.nextId a.epoch mom.now
  have hafter : Settled b₃ b' := by
    rw [hreg.after]
    exact IsFrame.trans settleName_settled (.bookkeeping .audit)
  have hcs : b'.components = b₂.components ++ [seat raw a mom.now] := by
    rw [hafter.components, ← hrow]
    rfl
  refine ⟨b₂.components, by rw [hreg.sessionId, hinput]; rfl, by rw [hreg.role, hrole], ?_, ?_, ?_,
    hcs⟩
  · rw [hreg.sessionId]
    intro sid hne
    have hname : b'.session? sid = b₃.session? sid := by
      rw [hreg.after]
      exact settleName_others sid hne
    exact hname.trans ((hreg.entered.others sid hne).trans (hbefore sid))
  · obtain ⟨s₂, hs₂, hepoch, hstate, halive⟩ := hreg.entered.here
    have heq := hafter.sessions input.sessionId
    rw [show b₃.session? input.sessionId = some s₂ from hs₂] at heq
    obtain ⟨s', hs', hcols⟩ := Option.map_eq_some_iff.mp heq
    simp only [link, Prod.mk.injEq] at hcols
    obtain ⟨⟨hep, hst, -⟩, hexp⟩ := hcols
    exact ⟨s', hreg.sessionId ▸ hs', hep.trans hepoch, hst.trans hstate, hexp.trans halive⟩
  · rcases hreg.entered.components with ⟨absent, hcs₂⟩ | ⟨s, found, hepoch, fresh, hcs₂⟩ |
      ⟨s, found, hepoch, stay, alive, sole, hcs₂, hjoined⟩
    · rw [hbefore, ← hreg.sessionId] at absent
      rw [hcs₂, hcomponents]
      exact .created absent
    · rw [hbefore, ← hreg.sessionId] at found
      rw [hcs₂, hcomponents, ← hreg.sessionId]
      refine .advanced found hepoch ?_
      rcases fresh with fresh | fresh
      · rw [hinput] at fresh
        refine (redirected_supersede fresh).imp id fun ⟨lid, hlid⟩ => .inr ⟨lid, ?_⟩
        rw [hreg.sessionId, hinput]
        exact hlid
      · exact .inr (.inl (Option.isSome_iff_ne_none.mp fresh))
    · have hjoins : beginsLifecycle input b₁ = false := by
        simp [beginsLifecycle, found, stay, alive]
      rw [hbefore, ← hreg.sessionId] at found
      rw [hcs₂, hcomponents]
      refine .joined found alive hepoch (fun hmcp c hc => ?_) fun hnamed => ?_
      · rw [← hconn]
        refine sole (hrole ▸ hmcp) c ?_
        rw [← hreg.sessionId, Broker.liveMcp, hcomponents]
        exact hc
      · refine ⟨Proof.joined input.connectionId s, ?_, hnamed, rfl, rfl⟩
        have hkept : (settleName env mom input false b₃).2 = b₃ := settleName_named hjoined hnamed
        rw [hreg.after, hjoins, hreg.sessionId, hkept]
        exact hjoined

end Proof
end XBus
