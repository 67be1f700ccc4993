import XBus.Proof.Moves

/-!
# The specs of a session's lifecycle writes

`createSession`, `advanceEpoch` and the rest write many tables at once. Each gets one
equation here that says what became of every table the invariants read, with the rest
existentially quantified away; the invariants are proved from the equations.
-/

set_option autoImplicit false

namespace XBus
namespace Proof

open Lib

variable {env : Env} {now : Iso} {b : Broker} {sid : SessionId}

/-! ## Sessions by id -/

theorem session?_eq_some {s : Session} (h : b.session? sid = some s) :
    s ∈ b.sessions ∧ s.sessionId = sid :=
  ⟨List.mem_of_find?_eq_some h, by simpa using List.find?_some h⟩

/-- An update that keeps ids is seen by a lookup. -/
theorem find?_updateSession {f : Session → Session} {sid sid' : SessionId} {rows : List Session}
    (hf : ∀ s, (f s).sessionId = s.sessionId) :
    (updateWhere (fun s => s.sessionId = sid') f rows).find? (fun s => s.sessionId = sid) =
      (rows.find? fun s => s.sessionId = sid).map fun s => if sid = sid' then f s else s := by
  rw [find?_updateWhere (fun r => by simp [hf])]
  cases hfind : rows.find? fun s => s.sessionId = sid with
  | none => rfl
  | some s =>
    have hs : s.sessionId = sid := by simpa using List.find?_some hfind
    simp [hs]

/-- The durable identity does not change with columns other than its own. -/
theorem logicalIdOf_updateSession {f : Session → Session} {sid' : SessionId}
    (hf : ∀ s, (f s).sessionId = s.sessionId)
    (hl : ∀ s, (f s).logicalIdentityId = s.logicalIdentityId) :
    (b.updateSession sid' f).logicalIdOf sid = b.logicalIdOf sid := by
  unfold Broker.logicalIdOf Broker.session? Broker.updateSession
  rw [find?_updateSession hf]
  cases b.sessions.find? fun s => s.sessionId = sid with
  | none => rfl
  | some s => by_cases h : sid = sid' <;> simp [h, hl]

/-! ## Aliases -/

theorem upsertAutomaticAliasSafe_eq (b : Broker) (handle : Alias) (sid : SessionId) :
    ∃ as es n, b.upsertAutomaticAliasSafe handle sid =
      { b with aliases := as, auditEvents := es, nextId := n } ∧ b.nextId ≤ n := by
  unfold Broker.upsertAutomaticAliasSafe
  split
  · split
    · exact ⟨_, _, _, rfl, Nat.le_succ _⟩
    · exact ⟨_, _, _, rfl, Nat.le_refl _⟩
  · split
    · exact ⟨_, _, _, rfl, Nat.le_refl _⟩
    · exact ⟨_, _, _, rfl, Nat.le_succ _⟩

/-! ## Creation -/

/-- The row of a first registration. -/
def firstRow (env : Env) (input : RegisterInput) : Session :=
  { sessionId := input.sessionId, logicalIdentityId := some input.sessionId, activeEpoch := 1
    boundConnectionId := some input.connectionId
    automaticAlias := (automaticAlias env.text input.sessionId).display
    receiveMode := input.receiveMode, capabilities := input.capabilities, state := .connected }

theorem createSession_eq (b : Broker) (env : Env) (input : RegisterInput) :
    ∃ as es n, b.createSession env input = { b with
      sessions := b.sessions ++ [firstRow env input]
      recipientSequences := insertOrIgnore (·.recipientSessionId)
        { recipientSessionId := input.sessionId, nextSequence := 1 } b.recipientSequences
      aliases := as, auditEvents := es, nextId := n } ∧ b.nextId ≤ n :=
  upsertAutomaticAliasSafe_eq _ _ _

theorem createSession_session? {input : RegisterInput} (absent : b.session? input.sessionId = none)
    (sid : SessionId) : (b.createSession env input).session? sid =
      if sid = input.sessionId then some (firstRow env input) else b.session? sid := by
  obtain ⟨as, es, n, hb', -⟩ := createSession_eq b env input
  have hfind : (b.createSession env input).session? sid =
      (b.session? sid).or ([firstRow env input].find? fun s => s.sessionId = sid) := by
    rw [hb']
    exact List.find?_append
  rw [hfind]
  by_cases hsid : sid = input.sessionId
  · subst hsid
    simp [absent, firstRow]
  · have hne : ¬ input.sessionId = sid := fun h => hsid h.symm
    simp [hsid, hne, firstRow]

/-! ## Deliveries that stay on the ground -/

/-- How a delivery comes out of a write that takes nothing into flight and nothing out of
    `completed`. -/
structure Grounded (d d' : Delivery) : Prop where
  messageId : d'.messageId = d.messageId
  recipient : d'.recipientSessionId = d.recipientSessionId
  flying : d'.state = .transportWritten → d' = d
  settled : d.state = .completed → d' = d

namespace Grounded

variable {d d' d'' : Delivery}

theorem rfl' : Grounded d d := ⟨rfl, rfl, fun _ => rfl, fun _ => rfl⟩

theorem trans (h : Grounded d d') (h' : Grounded d' d'') : Grounded d d'' := by
  refine ⟨h'.messageId.trans h.messageId, h'.recipient.trans h.recipient, fun htw => ?_,
    fun hc => ?_⟩
  · have heq := h'.flying htw
    rw [heq] at htw ⊢
    exact h.flying htw
  · have heq := h.settled hc
    rw [heq] at h'
    exact h'.settled hc

/-- One statement: the rows it matches are not completed, and land on the ground. -/
theorem ite {p : Prop} [Decidable p]
    (key : d'.messageId = d.messageId ∧ d'.recipientSessionId = d.recipientSessionId)
    (grounded : d'.state ≠ .transportWritten) (open' : p → d.state ≠ .completed) :
    Grounded d (if p then d' else d) := by
  split
  · rename_i hp
    exact ⟨key.1, key.2, fun h => absurd h grounded, fun h => absurd h (open' hp)⟩
  · exact rfl'

theorem comp {g g' : Delivery → Delivery} (h : ∀ d, Grounded d (g d))
    (h' : ∀ d, Grounded d (g' d)) (d : Delivery) : Grounded d ((g' ∘ g) d) := (h d).trans (h' _)

end Grounded

/-! ## A fresh lifecycle -/

/-- The injections `rehomeAcceptedReplyAuthority` adds. -/
structure Rehomed (sid : SessionId) (epoch lo hi : Nat) (i : Injection) : Prop where
  recipient : i.recipientSessionId = sid
  epoch : i.recipientEpoch = epoch
  logical : i.logicalInjectionNumber = 1
  minted : ∃ p n, i.checkpointId = .minted p n ∧ lo ≤ n ∧ n < hi
  id : lo ≤ i.injectionId ∧ i.injectionId < hi

theorem Rehomed.mono {epoch lo hi lo' hi' : Nat} {i : Injection}
    (h : Rehomed sid epoch lo hi i) (hlo : lo' ≤ lo) (hhi : hi ≤ hi') :
    Rehomed sid epoch lo' hi' i := by
  obtain ⟨p, n, hck, hn, hn'⟩ := h.minted
  exact ⟨h.recipient, h.epoch, h.logical, ⟨p, n, hck, hlo.trans hn, Nat.lt_of_lt_of_le hn' hhi⟩,
    hlo.trans h.id.1, Nat.lt_of_lt_of_le h.id.2 hhi⟩

theorem rehomeOne_eq (b : Broker) (sid : SessionId) (epoch : Nat) (now : Iso) (mid : Id) :
    ∃ is es n, b.rehomeOne sid epoch now mid =
        { b with injections := b.injections ++ is, auditEvents := es, nextId := n } ∧
      b.nextId ≤ n ∧ ∀ i ∈ is, i.messageId = mid ∧ Rehomed sid epoch b.nextId n i := by
  unfold Broker.rehomeOne
  split
  · exact ⟨[], b.auditEvents, b.nextId, by simp, Nat.le_refl _, by simp⟩
  · refine ⟨_, _, b.nextId + 3, rfl, Nat.le_add_right _ 3, fun i hi => ?_⟩
    obtain rfl := List.mem_singleton.mp hi
    have hck : b.nextId + 1 < b.nextId + 3 := Nat.add_lt_add_left (by decide) _
    exact ⟨rfl, rfl, rfl, rfl, ⟨_, _, rfl, Nat.le_succ _, hck⟩, Nat.le_refl _,
      (Nat.lt_succ_self _).trans hck⟩

theorem rehomeAll_eq (mids : List Id) (b : Broker) (sid : SessionId) (epoch : Nat) (now : Iso) :
    ∃ is es n, mids.foldl (fun b mid => b.rehomeOne sid epoch now mid) b =
        { b with injections := b.injections ++ is, auditEvents := es, nextId := n } ∧
      b.nextId ≤ n ∧ ∀ i ∈ is, i.messageId ∈ mids ∧ Rehomed sid epoch b.nextId n i := by
  induction mids generalizing b with
  | nil => exact ⟨[], b.auditEvents, b.nextId, by simp, Nat.le_refl _, by simp⟩
  | cons mid mids ih =>
    obtain ⟨is₁, es₁, n₁, h₁, hn₁, his₁⟩ := rehomeOne_eq b sid epoch now mid
    obtain ⟨is₂, es₂, n₂, h₂, hn₂, his₂⟩ := ih (b.rehomeOne sid epoch now mid)
    rw [h₁] at h₂ hn₂ his₂
    refine ⟨is₁ ++ is₂, es₂, n₂, ?_, hn₁.trans hn₂, fun i hi => ?_⟩
    · rw [List.foldl_cons, h₁, h₂]
      simp
    · rcases List.mem_append.mp hi with hi | hi
      · obtain ⟨hmid, hr⟩ := his₁ i hi
        exact ⟨by simp [hmid], hr.mono (Nat.le_refl _) hn₂⟩
      · obtain ⟨hmid, hr⟩ := his₂ i hi
        exact ⟨by simp [hmid], hr.mono hn₁ (Nat.le_refl _)⟩

/-- How a delivery comes out of a requeueing. -/
def requeued (sid : SessionId) (now : Iso) (abandoned : Delivery → Bool) (d : Delivery) :
    Delivery :=
  if d.recipientSessionId = sid ∧ d.state = .transportWritten ∧ abandoned d then
    { d with state := .queued, updatedAt := now }
  else d

theorem requeued_grounded {sid : SessionId} {now : Iso} {abandoned : Delivery → Bool}
    (d : Delivery) : Grounded d (requeued sid now abandoned d) := by
  unfold requeued
  exact .ite ⟨rfl, rfl⟩ (by simp) fun hp hc => by simp [hc] at hp

theorem requeueInFlight_eq (b : Broker) (sid : SessionId) (now : Iso)
    (abandoned : Delivery → Bool) : b.requeueInFlight sid now abandoned =
      { b with deliveries := b.deliveries.map (requeued sid now abandoned) } := by
  simp [Broker.requeueInFlight, Broker.updateDeliveries, updateWhere, requeued]

/-- A fresh lifecycle up to the rehoming. -/
def Broker.begun (b : Broker) (now : Iso) (sid : SessionId) (epoch : Nat) : Broker :=
  { b with
    sessions := updateWhere (fun s => s.sessionId = sid) (Broker.resetForLifecycle epoch)
      b.sessions
    nameOwnership := updateWhere (fun o => o.logicalIdentityId = b.logicalIdOf sid)
      Broker.released b.nameOwnership
    components := updateWhere (fun c => c.sessionId = sid ∧ c.state = .live)
      (fun c => { c with state := .superseded }) b.components
    deliveries := b.deliveries.map (requeued sid now fun _ => true) }

/-- After the rehoming come an alias and its audit row at most. -/
theorem advanceEpoch_begun (b : Broker) (env : Env) (now : Iso) (sid : SessionId) (epoch : Nat)
    (resume : Bool) :
    ∃ as es n, b.advanceEpoch env now sid epoch resume =
        { (Broker.begun b now sid epoch).rehomeAcceptedReplyAuthority sid epoch now with
          aliases := as, auditEvents := es, nextId := n } ∧
      ((Broker.begun b now sid epoch).rehomeAcceptedReplyAuthority sid epoch now).nextId ≤ n := by
  have hlid : (b.updateSession sid (Broker.resetForLifecycle epoch)).logicalIdOf sid =
      b.logicalIdOf sid := logicalIdOf_updateSession (fun _ => rfl) fun _ => rfl
  set b₅ := (Broker.begun b now sid epoch).rehomeAcceptedReplyAuthority sid epoch now with hb₅
  have hadv : b.advanceEpoch env now sid epoch resume =
      if resume then b₅.upsertAutomaticAliasSafe (automaticAlias env.text sid) sid else b₅ := by
    simp only [Broker.advanceEpoch, hlid, requeueInFlight_eq]
    rfl
  rw [hadv]
  split
  · exact upsertAutomaticAliasSafe_eq b₅ _ _
  · exact ⟨_, _, _, rfl, Nat.le_refl _⟩

/-- What a fresh lifecycle does to every table. -/
theorem advanceEpoch_eq (b : Broker) (env : Env) (now : Iso) (sid : SessionId) (epoch : Nat)
    (resume : Bool) :
    ∃ is as es n, b.advanceEpoch env now sid epoch resume = { b with
        sessions := updateWhere (fun s => s.sessionId = sid) (Broker.resetForLifecycle epoch)
          b.sessions
        nameOwnership := updateWhere (fun o => o.logicalIdentityId = b.logicalIdOf sid)
          Broker.released b.nameOwnership
        components := updateWhere (fun c => c.sessionId = sid ∧ c.state = .live)
          (fun c => { c with state := .superseded }) b.components
        deliveries := b.deliveries.map (requeued sid now fun _ => true)
        injections := b.injections ++ is
        aliases := as, auditEvents := es, nextId := n } ∧
      b.nextId ≤ n ∧ ∀ i ∈ is, Rehomed sid epoch b.nextId n i ∧
        ∃ d ∈ b.deliveries, d.messageId = i.messageId ∧ d.recipientSessionId = sid ∧
          d.state = .accepted := by
  obtain ⟨as, es', n', hfin, hn'⟩ := advanceEpoch_begun b env now sid epoch resume
  obtain ⟨is, es, n, h₅, hn, his⟩ := rehomeAll_eq
    ((Broker.begun b now sid epoch).acceptedOwingReply sid) (Broker.begun b now sid epoch) sid epoch
    now
  have hb₅ : ((Broker.begun b now sid epoch).rehomeAcceptedReplyAuthority sid epoch now).nextId =
      n := congrArg Broker.nextId h₅
  rw [hb₅] at hn'
  refine ⟨is, as, es', n', ?_, hn.trans hn', fun i hi => ?_⟩
  · rw [hfin, Broker.rehomeAcceptedReplyAuthority, h₅]
    rfl
  · obtain ⟨hmid, hr⟩ := his i hi
    obtain ⟨d, hd, hdm⟩ := List.mem_map.mp hmid
    obtain ⟨hmem, hto⟩ := List.mem_filter.mp hd
    obtain ⟨d₀, hd₀, rfl⟩ := List.mem_map.mp hmem
    have hkey : Grounded d₀ (requeued sid now (fun _ => true) d₀) := requeued_grounded d₀
    simp only [decide_eq_true_eq] at hto
    -- Requeueing leaves no delivery accepted, so this one was before.
    have hstate : d₀.state = .accepted := by
      have hacc := hto.2.1
      unfold requeued at hacc
      split at hacc
      · cases hacc
      · exact hacc
    exact ⟨hr.mono (Nat.le_refl _) hn', d₀, hd₀, hkey.messageId.symm.trans hdm,
      hkey.recipient.symm.trans hto.1, hstate⟩

theorem advanceEpoch_session? {sid : SessionId} {epoch : Nat} {resume : Bool} (sid' : SessionId) :
    (b.advanceEpoch env now sid epoch resume).session? sid' =
      (b.session? sid').map fun s =>
        if sid' = sid then Broker.resetForLifecycle epoch s else s := by
  obtain ⟨is, as, es, n, hb', -⟩ := advanceEpoch_eq b env now sid epoch resume
  rw [hb']
  exact find?_updateSession fun _ => rfl

/-! ## Joining -/

/-- The row of a session a component joins. -/
def joined (conn : ConnId) (s : Session) : Session :=
  { s with state := .connected, boundConnectionId := some (s.boundConnectionId.getD conn) }

theorem joinEpoch_eq (b : Broker) (now : Iso) (input : RegisterInput) :
    b.joinEpoch now input = { b with
      sessions := updateWhere (fun s => s.sessionId = input.sessionId)
        (joined input.connectionId) b.sessions
      deliveries := b.deliveries.map (requeued input.sessionId now
        fun d => d.leaseExpiresAt.all fun t => t.le now) } :=
  requeueInFlight_eq _ _ _ _

theorem joinEpoch_session? {input : RegisterInput} (sid : SessionId) :
    (b.joinEpoch now input).session? sid = (b.session? sid).map fun s =>
      if sid = input.sessionId then joined input.connectionId s else s := by
  rw [joinEpoch_eq]
  exact find?_updateSession fun _ => rfl

/-! ## Entering a session -/

/-- Which of the three branches a registration took, and where it left the database. -/
inductive Entered (env : Env) (now : Iso) (input : RegisterInput) (b : Broker) :
    Nat → Broker → Prop
  | created (absent : b.session? input.sessionId = none) :
      Entered env now input b 1 (b.createSession env input)
  | advanced {s : Session} (found : b.session? input.sessionId = some s)
      (fresh : input.supersede = true ∨ s.expiredAt.isSome = true) :
      Entered env now input b (s.activeEpoch + 1)
        (b.advanceEpoch env now input.sessionId (s.activeEpoch + 1) s.expiredAt.isSome)
  | joined {s : Session} (found : b.session? input.sessionId = some s)
      (stay : input.supersede = false) (alive : s.expiredAt = none)
      (sole : input.role = .mcp → ∀ c ∈ b.liveMcp input.sessionId s.activeEpoch,
        c.connectionId = input.connectionId) :
      Entered env now input b s.activeEpoch (b.joinEpoch now input)

theorem enterSession_ok {input : RegisterInput} {epoch : Nat} {b' : Broker}
    (h : enterSession env now input b = (.ok epoch, b')) : Entered env now input b epoch b' := by
  simp only [enterSession, Call.get_bind] at h
  cases hs : b.session? input.sessionId with
  | none =>
    simp only [hs, Call.modify_bind, Call.pure_ok] at h
    obtain ⟨rfl, rfl⟩ := h
    exact .created hs
  | some s =>
    simp only [hs] at h
    split at h
    · rename_i hfresh
      simp only [Call.modify_bind, Call.pure_ok] at h
      obtain ⟨rfl, rfl⟩ := h
      exact .advanced hs hfresh
    · rename_i hstay
      simp only [Call.bind_ok, Call.requireElse_ok, Call.modify_bind, Call.pure_ok] at h
      obtain ⟨_, _, ⟨hsole, rfl⟩, rfl, rfl⟩ := h
      obtain ⟨hsup, halive⟩ := not_or.mp hstay
      refine .joined hs (by simpa using hsup) (by simpa using halive) fun hrole c hc => ?_
      rcases hsole with hsole | hsole
      · exact absurd hrole hsole
      · by_contra hne
        exact hsole (List.any_eq_true.mpr ⟨c, hc, by simpa using hne⟩)

/-- After entering, the session exists at the epoch of the answer. -/
theorem Entered.epochOf {input : RegisterInput} {epoch : Nat} {b' : Broker}
    (h : Entered env now input b epoch b') : b'.epochOf input.sessionId = some epoch := by
  cases h with
  | created absent => rw [Broker.epochOf, createSession_session? absent, if_pos rfl]; rfl
  | advanced found fresh =>
    rw [Broker.epochOf, advanceEpoch_session?, found]
    simp [Broker.resetForLifecycle]
  | joined found => rw [Broker.epochOf, joinEpoch_session?, found]; simp [Proof.joined]

/-! ## Naming -/

/-- The columns of a session that say where it is in its lifecycle and who is bound to it. -/
def linkCols (s : Session) : SessionId × Nat × LinkState × Option ConnId :=
  (s.sessionId, s.activeEpoch, s.state, s.boundConnectionId)

/-- `b'` differs from `b` in names, name ownership, expiry and bookkeeping only. -/
structure NamesOnly (b b' : Broker) : Prop where
  ids : b.nextId ≤ b'.nextId
  links : b'.sessions.map linkCols = b.sessions.map linkCols
  components : b'.components = b.components
  physicalMap : b'.physicalMap = b.physicalMap
  recipientSequences : b'.recipientSequences = b.recipientSequences
  messages : b'.messages = b.messages
  deliveries : b'.deliveries = b.deliveries
  injections : b'.injections = b.injections
  receipts : b.receipts ⊆ b'.receipts
  turns : SameThreads b b'

instance : IsFrame NamesOnly where
  refl _ := ⟨Nat.le_refl _, rfl, rfl, rfl, rfl, rfl, rfl, rfl, List.Subset.refl _, IsFrame.refl _⟩
  trans h₁ h₂ :=
    ⟨h₁.ids.trans h₂.ids, h₂.links.trans h₁.links, h₂.components.trans h₁.components,
      h₂.physicalMap.trans h₁.physicalMap, h₂.recipientSequences.trans h₁.recipientSequences,
      h₂.messages.trans h₁.messages, h₂.deliveries.trans h₁.deliveries,
      h₂.injections.trans h₁.injections, List.Subset.trans h₁.receipts h₂.receipts,
      IsFrame.trans h₁.turns h₂.turns⟩

theorem links_core {b b' : Broker} (h : b'.sessions.map core = b.sessions.map core) :
    b'.sessions.map linkCols = b.sessions.map linkCols := by
  have := congrArg (List.map linkCols) h
  rwa [List.map_map, List.map_map] at this

/-- The epoch of a session is read off two columns. -/
def epochCols (s : Session) : SessionId × Nat := (s.sessionId, s.activeEpoch)

theorem epochOf_cols {b b' : Broker} (h : b'.sessions.map epochCols = b.sessions.map epochCols)
    (sid : SessionId) : b'.epochOf sid = b.epochOf sid := by
  have hfind (rows : List Session) : (rows.find? fun s => s.sessionId = sid).map epochCols =
      (rows.map epochCols).find? fun c => c.1 = sid := by
    rw [List.find?_map]
    rfl
  have heq : (b'.session? sid).map epochCols = (b.session? sid).map epochCols := by
    rw [Broker.session?, Broker.session?, hfind, hfind, h]
  have := congrArg (Option.map Prod.snd) heq
  rwa [Option.map_map, Option.map_map] at this

/-- A write to sessions that moves no epoch. -/
theorem epochOf_updateWhere {b b' : Broker} {p : Session → Bool} {f : Session → Session}
    (h : b'.sessions = updateWhere p f b.sessions) (hf : ∀ s, epochCols (f s) = epochCols s)
    (sid : SessionId) : b'.epochOf sid = b.epochOf sid := by
  refine epochOf_cols ?_ sid
  rw [h]
  exact map_updateWhere epochCols fun s _ => hf s

theorem epochOf_links {b b' : Broker} (h : b'.sessions.map linkCols = b.sessions.map linkCols)
    (sid : SessionId) : b'.epochOf sid = b.epochOf sid := by
  refine epochOf_cols ?_ sid
  have := congrArg (List.map fun c => (c.1, c.2.1)) h
  rwa [List.map_map, List.map_map] at this

/-- Appending a row does not change what was found before. -/
theorem epochOf_append {b b' : Broker} {s : Session} {sid : SessionId} {e : Nat}
    (h : b'.sessions = b.sessions ++ [s]) (he : b.epochOf sid = some e) :
    b'.epochOf sid = some e := by
  obtain ⟨x, hx, hxe⟩ := Option.map_eq_some_iff.mp he
  have hfind : b.sessions.find? (fun s => s.sessionId = sid) = some x := hx
  rw [Broker.epochOf, Broker.session?, h, List.find?_append, hfind]
  simpa using hxe

namespace NamesOnly

variable {b : Broker} {mom : Moment} {lid : SessionId} {norm : SessionName}

theorem of_bookkeeping {b' : Broker} (h : Bookkeeping b b') : NamesOnly b b' :=
  ⟨h.ids, links_core h.sessions, h.components, h.physicalMap, h.recipientSequences, h.messages,
    h.deliveries, h.injections, h.receipts, h.toSameThreads⟩

theorem ownership {os : List NameOwnership} : NamesOnly b { b with nameOwnership := os } :=
  ⟨Nat.le_refl _, rfl, rfl, rfl, rfl, rfl, rfl, rfl, List.Subset.refl _, rfl, rfl, rfl⟩

theorem setNameOwnershipReleased : NamesOnly b (b.setNameOwnershipReleased lid) := ownership

theorem setNameOwnershipActive :
    NamesOnly b (b.setNameOwnershipActive env mom lid sid norm).2 := ownership

/-- A write of session columns other than the links. -/
theorem sessions {p : Session → Bool} {f : Session → Session}
    (h : ∀ s, linkCols (f s) = linkCols s) :
    NamesOnly b { b with sessions := updateWhere p f b.sessions } :=
  ⟨Nat.le_refl _, map_updateWhere linkCols fun s _ => h s, rfl, rfl, rfl, rfl, rfl, rfl,
    List.Subset.refl _, rfl, rfl, rfl⟩

theorem setSessionName : NamesOnly b (b.setSessionName sid norm) := sessions fun _ => rfl

theorem markPending : NamesOnly b (b.markPending sid now) := by
  have hrow : NamesOnly b (b.updateSession sid fun s =>
      { s with sessionName := none, normalizedSessionName := none, sessionNameState := .pending
               pendingNameExpiresAt := some (now.plus (5 * 60000)) }) := sessions fun _ => rfl
  exact IsFrame.trans hrow setNameOwnershipReleased

theorem claim {requested : Option String} :
    NamesOnly b (claimNameForRegister env mom sid requested b).2 := by
  unfold claimNameForRegister
  split
  · exact IsFrame.refl b
  · split
    · exact markPending
    · split
      · exact markPending
      · exact IsFrame.trans setSessionName setNameOwnershipActive

theorem rename {wasExpired : Bool} : NamesOnly b (b.rename env mom sid norm wasExpired).2 := by
  unfold Broker.rename
  extract_lets b₁ b₂ b₃
  have hrevive : NamesOnly (b.setSessionName sid norm) b₁ := sessions fun _ => rfl
  have halias : NamesOnly b₁ b₂ := by
    show NamesOnly b₁ (if wasExpired then _ else _)
    split
    · exact of_bookkeeping .upsertAutomaticAliasSafe
    · exact IsFrame.refl b₁
  have hrefresh : NamesOnly b₂ b₃ := of_bookkeeping .refresh
  exact IsFrame.trans setSessionName (IsFrame.trans hrevive (IsFrame.trans halias
    (IsFrame.trans hrefresh setNameOwnershipActive)))

theorem operatorRename : NamesOnly b (b.operatorRename env mom sid norm) :=
  IsFrame.trans setSessionName setNameOwnershipActive

theorem forfeit {normalized : String} {csid : Option SessionId} :
    NamesOnly b (b.forfeit normalized lid csid) := by
  have hrelease : NamesOnly b (b.releaseNameOwnershipOf normalized lid) := ownership
  have hrow : NamesOnly (b.releaseNameOwnershipOf normalized lid)
      (b.forfeit normalized lid csid) := sessions fun _ => rfl
  exact IsFrame.trans hrelease hrow

theorem lapse : NamesOnly b (reapStalePendingNames now b) := by
  unfold reapStalePendingNames
  split
  · have hrow : NamesOnly b { b with
        sessions := updateWhere (fun s => s.pendingLapsed now)
          (fun s => { s with sessionNameState := .unnamed, sessionName := none
                             normalizedSessionName := none
                             pendingNameExpiresAt := none }) b.sessions } := sessions fun _ => rfl
    exact IsFrame.trans hrow (of_bookkeeping .audit)
  · exact IsFrame.refl b

end NamesOnly

/-! ## Burial -/

/-- What the expiry of a session does to the tables the mail and link invariants read. -/
theorem tombstone_eq (b : Broker) (sid : SessionId) (now : Iso) :
    ∃ as es ds, b.tombstone sid now = { b with
        sessions := updateWhere (fun s => s.sessionId = sid ∧ s.expiredAt = none)
          (fun s => { s with expiredAt := some now, readiness := .disconnected
                             pendingNameExpiresAt := none }) b.sessions
        components := updateWhere (fun c => c.sessionId = sid ∧ c.state = .live)
          (fun c => { c with state := .closed }) b.components
        physicalMap := b.physicalMap.filter fun e => ¬ (e.canonicalSessionId = sid ∨
          e.physicalSessionId = sid ∨
          some e.logicalIdentityId = (b.session? sid).bind (·.logicalIdentityId))
        deliveries := ds, aliases := as, auditEvents := es, nextId := b.nextId + 1 } ∧
      ∃ g, ds = b.deliveries.map g ∧ ∀ d, Grounded d (g d) := by
  refine ⟨_, _, _, rfl, _, List.map_map, Grounded.comp (fun d => ?_) fun d => ?_⟩
  · exact .ite ⟨rfl, rfl⟩ (by simp) fun hp hc => by simp [hc, DeliveryState.waiting] at hp
  · exact .ite ⟨rfl, rfl⟩ (by simp) fun hp hc => by simp [hc] at hp

/-- Removing one session leaves the others. -/
theorem deleteSession_session? {sid sid' : SessionId} (h : sid' ≠ sid) :
    (b.deleteSession sid now).session? sid' = b.session? sid' := by
  show (b.sessions.filter fun s => s.sessionId ≠ sid).find? (fun s => s.sessionId = sid') =
    b.sessions.find? fun s => s.sessionId = sid'
  rw [find?_deleted, if_neg h]

/-- What the removal of a session does to deliveries: none of its own stays in flight. -/
theorem deleteSession_deliveries (b : Broker) (sid : SessionId) (now : Iso) :
    ∃ g, (b.deleteSession sid now).deliveries = b.deliveries.map g ∧
      ∀ d, Grounded d (g d) ∧ (d.recipientSessionId = sid → (g d).state ≠ .transportWritten) := by
  refine ⟨_, rfl, fun d => ⟨.ite ⟨rfl, rfl⟩ (by simp) fun hp hc => ?_, fun hr => ?_⟩⟩
  · simp [hc] at hp
  · split
    · simp
    · rename_i hp
      intro htw
      simp [hr, htw] at hp

end Proof
end XBus
