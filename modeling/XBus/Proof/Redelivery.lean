import XBus.Proof.NameAuthority
import XBus.Proof.Reports

/-!
# What a pull shows again

A delivery that waits is pulled, but its body comes back only if it was not shown before at the
epoch of the pull, or under its checkpoint id: the unique indexes of `context_injections` keep it
back. What is about to be pulled again says nothing of that. `hasEligibleDelivery` looks at the
deliveries alone, and so wakes sessions for bodies no pull will return; an operator's redelivery and
a redrive reset the delivery alone, and so re-present nothing while the epoch stands.
-/

set_option autoImplicit false

namespace XBus
namespace Proof

open Lib

variable {env : Env} {mom : Moment} {now : Iso} {auth : SessionAuthority} {b b' : Broker} {mid : Id}
  {given : Option String}

/-! ## Eligibility -/

/-- The gates of an automatic pull are open. -/
def Open (b : Broker) (sid : SessionId) : Prop :=
  acceptsInjection (b.readinessOf sid) = true ∧ b.autoDeliveryEnabled sid = true

theorem mem_eligible {sid : SessionId} {m : Message} : m ∈ b.eligible sid now ↔
    ∃ d ∈ b.deliveries, d.recipientSessionId = sid ∧ d.state.waiting = true ∧ d.due now = true ∧
      b.message? d.messageId = some m ∧ m.unexpired now = true := by
  simp only [Broker.eligible, List.mem_insertionSort, List.mem_filter, List.mem_filterMap,
    decide_eq_true_eq]
  constructor
  · rintro ⟨⟨d, ⟨hd, hto, hwaits, hdue⟩, found⟩, hfresh⟩
    exact ⟨d, hd, hto, hwaits, hdue, found, hfresh⟩
  · rintro ⟨d, hd, hto, hwaits, hdue, found, hfresh⟩
    exact ⟨⟨d, ⟨hd, hto, hwaits, hdue⟩, found⟩, hfresh⟩

/-- `hasEligibleDelivery`, through what a pull goes through. -/
theorem hasEligibleDelivery_iff {sid : SessionId} : b.hasEligibleDelivery sid now = true ↔
    Open b sid ∧ b.eligible sid now ≠ [] := by
  have hsome : b.eligible sid now ≠ [] ↔ ∃ m, m ∈ b.eligible sid now :=
    ⟨List.exists_mem_of_ne_nil _, fun ⟨m, hm⟩ => List.ne_nil_of_mem hm⟩
  simp only [hsome, mem_eligible]
  unfold Broker.hasEligibleDelivery
  split
  · rename_i hready
    simp [Open, hready]
  · rename_i hready
    split
    · rename_i hauto
      simp [Open, hauto]
    · rename_i hauto
      simp only [not_not] at hready hauto
      simp only [Open, hready, hauto, and_self, true_and, List.any_eq_true, decide_eq_true_eq,
        Option.any_eq_true]
      constructor
      · rintro ⟨d, hd, hto, hwaits, ⟨m, found, hfresh⟩, hdue⟩
        exact ⟨m, d, hd, hto, hwaits, hdue, found, hfresh⟩
      · rintro ⟨m, d, hd, hto, hwaits, hdue, found, hfresh⟩
        exact ⟨d, hd, hto, hwaits, ⟨m, found, hfresh⟩, hdue⟩

/-- A pull by a hook at the current epoch answers, with what it was due. -/
theorem hookPull_foretold (inv : MailInv b) (hrole : auth.role = .hook)
    (hcurrent : b.epochOf auth.sessionId = some auth.epoch) (limit : Nat) :
    ∃ ms b', exec env mom (.checkpointPull auth given limit) b = (.ok (.bodies ms), b') ∧
      Foretold b (if acceptsInjection (b.readinessOf auth.sessionId) &&
          b.autoDeliveryEnabled auth.sessionId then
            b.pendingForSessionId auth.sessionId (min (max 1 limit) 50) mom.now else [])
        (fun mid => b.shown auth.epoch given mid = true) ms b' := by
  obtain ⟨ck, b₁, hck⟩ : ∃ ck b₁, checkpointOf given b = (.ok ck, b₁) := by
    cases given with
    | some text => exact ⟨_, _, rfl⟩
    | none => exact ⟨_, _, rfl⟩
  have hcurrent₁ : b₁.epochOf auth.sessionId = some auth.epoch := by
    rcases checkpointOf_ok hck with rfl | rfl <;> exact hcurrent
  obtain ⟨ms, b', hpull⟩ : Succeeds (checkpointPull env mom.now auth ck limit) b₁ :=
    checkpointPull_succeeds.mpr ⟨by rw [hrole]; rfl, hcurrent₁⟩
  refine ⟨ms, b', ?_, ?_⟩
  · simp only [exec, Call.bind_ok, Call.map_ok]
    exact ⟨ck, b₁, hck, ms, hpull, rfl⟩
  · have did := (checkpointPull_foretold (inv.minting hck) hpull).unminted inv hck
    rcases checkpointOf_ok hck with rfl | rfl <;> exact did

/-- Bodies come back if something is pulled that was not shown before. -/
theorem Foretold.nonempty {rows : List Message} {seen : Id → Prop} [DecidablePred seen]
    {ms : List PendingMessage} (h : Foretold b rows seen ms b') :
    ms ≠ [] ↔ ∃ m ∈ rows, ¬ seen m.messageId := by
  have hlength := congrArg List.length h.bodies
  simp only [List.length_map] at hlength
  rw [← List.length_pos_iff, hlength, List.length_pos_iff_exists_mem]
  simp only [List.mem_filter, decide_eq_true_eq]

/-! ## Waking -/

/-- Every body the next pull with the default limit comes to was shown before, at this epoch or
    under this checkpoint id. -/
def ShownOut (b : Broker) (auth : SessionAuthority) (given : Option String) (now : Iso) : Prop :=
  ∀ m ∈ b.pendingForSessionId auth.sessionId 10 now, b.shown auth.epoch given m.messageId = true

/-- **Wake eligibility and the pull agree**, except where the gates are open and there are
    deliveries to pull, all of them shown before. -/
theorem wake_agrees_with_pull_iff {u : Desk} (hreach : u.Reachable env Any)
    (hrole : auth.role = .hook) (hcurrent : u.db.epochOf auth.sessionId = some auth.epoch) :
    ∃ ms b', exec env mom (.checkpointPull auth given 10) u.db = (.ok (.bodies ms), b') ∧
      ((u.db.hasEligibleDelivery auth.sessionId mom.now = true ↔ ms ≠ []) ↔
        ¬ (Open u.db auth.sessionId ∧ u.db.eligible auth.sessionId mom.now ≠ [] ∧
          ShownOut u.db auth given mom.now)) := by
  obtain ⟨ms, b', hexec, did⟩ := hookPull_foretold (mailInv_of_desk hreach) hrole hcurrent 10
  refine ⟨ms, b', hexec, ?_⟩
  rw [hasEligibleDelivery_iff, did.nonempty]
  by_cases hopen : Open u.db auth.sessionId
  · have hgates : (acceptsInjection (u.db.readinessOf auth.sessionId) &&
        u.db.autoDeliveryEnabled auth.sessionId) = true := by
      rw [hopen.1, hopen.2]
      rfl
    rw [if_pos hgates]
    have hlimit : min (max 1 10) 50 = 10 := rfl
    rw [hlimit]
    by_cases helig : u.db.eligible auth.sessionId mom.now = []
    · simp [helig, Broker.pendingForSessionId]
    · simp [hopen, helig, ShownOut]
  · have hgates : ¬ (acceptsInjection (u.db.readinessOf auth.sessionId) &&
        u.db.autoDeliveryEnabled auth.sessionId) = true := by
      simpa [Open] using hopen
    rw [if_neg hgates]
    simp [hopen]

/-- The request waits to be pulled for the first time: `beta` is woken for its body. -/
theorem woken_for_request :
    let u := deskAfter (atDesk requestSent)
    let beta := component "beta" .hook 1 2
    ∃ ms b', exec plainEnv { nowMs := 1001 } (.checkpointPull beta none 10) u.db =
        (.ok (.bodies ms), b') ∧
      (u.db.hasEligibleDelivery beta.sessionId ⟨1001⟩ = true ↔ ms ≠ []) := by
  intro u beta
  have hcurrent : u.db.epochOf beta.sessionId = some beta.epoch := by decide +kernel
  obtain ⟨ms, b', hexec, hiff⟩ : ∃ ms b', exec plainEnv { nowMs := 1001 }
      (.checkpointPull beta none 10) u.db = (.ok (.bodies ms), b') ∧ (_ ↔ _) :=
    wake_agrees_with_pull_iff (reachable_deskAfter _) rfl hcurrent
  refine ⟨ms, b', hexec, hiff.mpr fun hshown => absurd hshown.2.2 ?_⟩
  unfold ShownOut
  decide +kernel

/-- The acknowledgement of the request has timed out, and the time to try again has come: `beta` is
    woken, and pulls nothing. -/
theorem woken_for_nothing :
    let u := deskAfter (atDesk (requestPulled ++ [(.sweep, { nowMs := 400000 })]))
    let beta := component "beta" .hook 1 2
    u.Reachable plainEnv Any ∧ beta.role = .hook ∧
      u.db.epochOf beta.sessionId = some beta.epoch ∧
      u.db.hasEligibleDelivery beta.sessionId ⟨402000⟩ = true ∧
      (exec plainEnv { nowMs := 402000 } (.checkpointPull beta none 10) u.db).1.toOption =
        some (.bodies []) := by
  intro u beta
  refine ⟨reachable_deskAfter _, rfl, ?_⟩
  decide +kernel

/-! ## The operator's hand, and sweeps after it -/

/-- The messages, the injections and the receipts are as they were. -/
structure SameRecords (b b' : Broker) : Prop where
  messages : b'.messages = b.messages
  injections : b'.injections = b.injections
  receipts : b'.receipts = b.receipts

instance : IsFrame SameRecords where
  refl _ := ⟨rfl, rfl, rfl⟩
  trans h₁ h₂ := ⟨h₂.messages.trans h₁.messages, h₂.injections.trans h₁.injections,
    h₂.receipts.trans h₁.receipts⟩

theorem DeliveriesOnly.records (h : DeliveriesOnly b b') : SameRecords b b' := by
  obtain ⟨_, _, _, rfl⟩ := h
  exact ⟨rfl, rfl, rfl⟩

/-- A delivery of the message waits for the session, and can be pulled at any time. -/
def Ready (b : Broker) (mid : Id) (sid : SessionId) : Prop :=
  ∃ d ∈ b.deliveries, d.messageId = mid ∧ d.recipientSessionId = sid ∧ d.state = .queued ∧
    d.nextAttemptAt = none

/-- The answers that say that a message was redelivered. -/
inductive Redelivers (mid : Id) : Op → Response → Prop
  | redelivered (confirm : Bool) :
      Redelivers mid (.operatorRedeliver mid confirm) (.operatorRedelivered .redelivered)
  | replayed (confirm : Bool) (attemptId : Id) :
      Redelivers mid (.operatorRedeliver mid confirm) (.operatorRedelivered (.replayed attemptId))
  | redriven (validate : SessionId → String → Option String) (newDeliveryId : Id)
      (warning : Bool) :
      Redelivers mid (.redrive mid validate) (.redriven (.redriven newDeliveryId warning))

theorem operatorRedeliver_readied {confirm : Bool} {r : RedeliverOutcome}
    (h : operatorRedeliver now mid confirm b = (.ok r, b')) (hr : r ≠ .notFound) :
    DeliveriesOnly b b' ∧ ∃ d, b.delivery? mid = some d ∧ Ready b' mid d.recipientSessionId := by
  simp only [operatorRedeliver, operatorRedeliverTransaction, Call.transaction_ok, Call.get_bind]
    at h
  cases hd : b.delivery? mid with
  | none =>
    simp only [hd, Call.pure_ok] at h
    exact absurd h.1.symm hr
  | some d =>
    have hid : d.messageId = mid := by simpa using List.find?_some hd
    have hmem : d ∈ b.deliveries := List.mem_of_find?_eq_some hd
    simp only [hd] at h
    split at h
    · rename_i haccepted
      simp only [Call.bind_ok, Call.requireElse_ok, Call.act_bind, Call.modify_bind,
        Call.pure_ok] at h
      obtain ⟨_, _, ⟨-, rfl⟩, -, rfl⟩ := h
      refine ⟨⟨_, _, _, rfl⟩, d, rfl, _, List.mem_map_of_mem hmem, ?_⟩
      rw [if_pos (by simp [hid, haccepted])]
      exact ⟨hid, rfl, rfl, rfl⟩
    · simp only [Call.bind_ok, Call.require_ok, Call.modify_bind, Call.pure_ok] at h
      obtain ⟨_, _, ⟨hstate, rfl⟩, -, rfl⟩ := h
      refine ⟨⟨_, _, _, rfl⟩, d, rfl, _, List.mem_map_of_mem hmem, ?_⟩
      rw [if_pos (by simp [hid, hstate])]
      exact ⟨hid, rfl, rfl, rfl⟩

theorem redrive_readied {validate : SessionId → String → Option String} {r : RedriveResult}
    (h : redrive env now mid validate b = (.ok r, b')) (hr : ∀ reason, r ≠ .refused reason) :
    DeliveriesOnly b b' ∧ ∃ d, b.delivery? mid = some d ∧ Ready b' mid d.recipientSessionId := by
  simp only [redrive, Call.transaction_ok, Call.get_bind] at h
  cases hmsg : b.message? mid with
  | none =>
    simp only [hmsg] at h
    exact absurd (Call.pure_ok.mp h).1.symm (hr _)
  | some m =>
  cases hd : b.delivery? mid with
  | none =>
    simp only [hmsg, hd] at h
    exact absurd (Call.pure_ok.mp h).1.symm (hr _)
  | some d =>
    have hid : d.messageId = mid := by simpa using List.find?_some hd
    have hmem : d ∈ b.deliveries := List.mem_of_find?_eq_some hd
    simp only [hmsg, hd] at h
    split at h
    · exact absurd (Call.pure_ok.mp h).1.symm (hr _)
    · cases hvalid : validate m.recipientSessionId (env.text.toLowerCase m.senderAlias) with
      | some reason =>
        simp only [hvalid] at h
        exact absurd (Call.pure_ok.mp h).1.symm (hr _)
      | none =>
        simp only [hvalid, Call.act_bind, Call.modify_bind, Call.pure_ok] at h
        obtain ⟨-, rfl⟩ := h
        refine ⟨⟨_, _, _, rfl⟩, d, rfl, _, List.mem_map_of_mem hmem, ?_⟩
        rw [if_pos (by simp [hid])]
        exact ⟨hid, rfl, rfl, rfl⟩

/-- What was redelivered waits for its recipient, and nothing else has changed. -/
theorem Redelivers.readied {op : Op} {r : Response} (hop : Redelivers mid op r)
    (inv : MailInv b) {m : Message} (found : b.message? mid = some m)
    (h : exec env mom op b = (.ok r, b')) :
    DeliveriesOnly b b' ∧ Ready b' mid m.recipientSessionId := by
  have hto {d : Delivery} (hd : b.delivery? mid = some d) :
      d.recipientSessionId = m.recipientSessionId := by
    have hid : d.messageId = mid := by simpa using List.find?_some hd
    have hmid : m.messageId = mid := by simpa using List.find?_some found
    exact inv.addressed_unique ⟨d, List.mem_of_find?_eq_some hd, hid, rfl⟩
      (hmid ▸ inv.addressed_of_mem (List.mem_of_find?_eq_some found))
  cases hop with
  | redelivered | replayed =>
    simp only [exec, Call.map_ok] at h
    obtain ⟨outcome, h, houtcome⟩ := h
    obtain ⟨honly, d, hd, hready⟩ := operatorRedeliver_readied h (by rintro rfl; cases houtcome)
    exact ⟨honly, hto hd ▸ hready⟩
  | redriven =>
    simp only [exec, Call.map_ok] at h
    obtain ⟨result, h, hresult⟩ := h
    obtain ⟨honly, d, hd, hready⟩ := redrive_readied h (by rintro _ rfl; cases hresult)
    exact ⟨honly, hto hd ▸ hready⟩

/-! ### Sweeps -/

theorem reapExpiredSessions_records : SameRecords b (reapExpiredSessions now b).2 := by
  refine IsFrame.foldl Prod.snd (b.dueSessions now) (0, b) fun acc s _ => ?_
  unfold expireSession
  split
  · exact ⟨rfl, rfl, rfl⟩
  · exact IsFrame.refl _

theorem reapStalePendingNames_records : SameRecords b (reapStalePendingNames now b) := by
  unfold reapStalePendingNames
  split
  · exact ⟨rfl, rfl, rfl⟩
  · exact IsFrame.refl _

theorem sweep_records : SameRecords b (sweep env mom b).2 := by
  rw [sweep_snd]
  exact IsFrame.trans reapAckTimeouts_only.records (IsFrame.trans reapAcceptanceTtl_only.records
    (IsFrame.trans reapExpiredSessions_records reapStalePendingNames_records))

/-- A delivery that waits was not in flight, and has no acknowledgement to time out. -/
theorem reapAckTimeouts_ready {sid : SessionId} (inv : MailInv b) (h : Ready b mid sid) :
    Ready (reapAckTimeouts env mom b).db mid sid := by
  obtain ⟨d, hd, hid, hto, hqueued, hdue⟩ := h
  refine ⟨d, ?_, hid, hto, hqueued, hdue⟩
  rw [(reapAckTimeouts_rows inv).2]
  refine List.mem_map.mpr ⟨d, hd, if_neg fun hserved => ?_⟩
  rw [(served_lapsed hserved).flies] at hqueued
  cases hqueued

/-- The TTL pass takes nothing whose message has not expired. -/
theorem reapAcceptanceTtl_ready {sid : SessionId} {m : Message} (found : b.message? mid = some m)
    (hfresh : m.unexpired now = true) (h : Ready b mid sid) :
    Ready (reapAcceptanceTtl now b).2 mid sid := by
  obtain ⟨d, hd, hid, hrow⟩ := h
  refine ⟨d, ?_, hid, hrow⟩
  refine List.foldlRecOn (motive := fun acc => d ∈ acc.2.deliveries) (b.pastTtl now)
    (expireWaiting now) (b := (0, b)) hd fun acc hacc r hr => ?_
  have hother : d.messageId ≠ r.messageId := by
    intro heq
    rw [Broker.pastTtl, List.mem_insertionSort, List.mem_filter, ← heq, hid, found] at hr
    simp only [decide_eq_true_eq, Option.any_some] at hr
    obtain ⟨e, he, hpast⟩ := (Option.any_eq_true ..).mp hr.2.2
    rw [Message.unexpired, he, Option.all_some, Iso.gt, hpast] at hfresh
    cases hfresh
  unfold expireWaiting
  split
  · exact mem_updateWhere_of_mem hacc (by simp [hother])
  · exact hacc

/-- The delivery waits for its recipient, or the recipient has expired. -/
def StillReady (b : Broker) (mid : Id) (sid : SessionId) : Prop :=
  Ready b mid sid ∨ b.readinessOf sid = .disconnected

theorem DeliveriesOnly.readinessOf (h : DeliveriesOnly b b') (sid : SessionId) :
    b'.readinessOf sid = b.readinessOf sid := by
  obtain ⟨_, _, _, rfl⟩ := h
  rfl

theorem tombstone_sessionIds {sid : SessionId} :
    (b.tombstone sid now).sessions.map (·.sessionId) = b.sessions.map (·.sessionId) :=
  map_updateWhere _ fun _ _ => rfl

theorem tombstone_session? {sid sid' : SessionId} : (b.tombstone sid' now).session? sid =
    (b.session? sid).map fun s => if s.sessionId = sid' ∧ s.expiredAt = none then
      { s with expiredAt := some now, readiness := .disconnected, pendingNameExpiresAt := none }
      else s := by
  simp only [Broker.session?, Broker.tombstone, Broker.audit, Broker.updateDeliveries]
  rw [find?_updateWhere]
  · exact Option.map_congr fun s _ => by simp
  · exact fun _ => rfl

theorem expireSession_stillReady {sid : SessionId} {acc : Nat × Broker} {s : Session}
    (hids : (acc.2.sessions.map (·.sessionId)).Nodup) (h : StillReady acc.2 mid sid) :
    StillReady (expireSession now acc s).2 mid sid := by
  unfold expireSession
  split
  · rename_i hany
    dsimp only
    by_cases hsid : s.sessionId = sid
    · -- The recipient itself expires.
      obtain ⟨x, hx, hrow⟩ := List.any_eq_true.mp hany
      obtain ⟨hxid, hlive⟩ := of_decide_eq_true hrow
      have hfound : acc.2.session? sid = some x := by
        rw [← hsid, ← hxid]
        exact find?_key_of_mem hids hx
      right
      simp [Broker.readinessOf, tombstone_session?, hfound, hxid, hlive]
    · rcases h with ⟨d, hd, hid, hto, hqueued, hdue⟩ | hgone
      · left
        have hnot : d.recipientSessionId ≠ s.sessionId := by
          rw [hto]
          exact Ne.symm hsid
        refine ⟨d, ?_, hid, hto, hqueued, hdue⟩
        refine mem_updateWhere_of_mem (mem_updateWhere_of_mem hd ?_) ?_
        · simp [hnot]
        · simp [hnot]
      · right
        have hsame : ((acc.2.tombstone s.sessionId now).session? sid).map (·.readiness) =
            (acc.2.session? sid).map (·.readiness) := by
          rw [tombstone_session?, Option.map_map]
          refine Option.map_congr fun x hx => ?_
          have hxid : x.sessionId = sid := by simpa using List.find?_some hx
          have hnot : ¬ (x.sessionId = s.sessionId ∧ x.expiredAt = none) := fun h =>
            hsid (h.1.symm.trans hxid)
          simp [hnot]
        rw [Broker.readinessOf, hsame]
        exact hgone
  · exact h

theorem reapExpiredSessions_stillReady {sid : SessionId}
    (hids : (b.sessions.map (·.sessionId)).Nodup) (h : StillReady b mid sid) :
    StillReady (reapExpiredSessions now b).2 mid sid := by
  refine (List.foldlRecOn (motive := fun acc => (acc.2.sessions.map (·.sessionId)).Nodup ∧
    StillReady acc.2 mid sid) (b.dueSessions now) (expireSession now) (b := (0, b)) ⟨hids, h⟩
    fun acc hacc s _ => ⟨?_, expireSession_stillReady hacc.1 hacc.2⟩).2
  unfold expireSession
  split
  · rw [tombstone_sessionIds]
    exact hacc.1
  · exact hacc.1

theorem reapStalePendingNames_stillReady {sid : SessionId} (h : StillReady b mid sid) :
    StillReady (reapStalePendingNames now b) mid sid := by
  unfold reapStalePendingNames
  split
  · refine h.imp id fun hgone => ?_
    have hsame : ∀ x : Session, (if x.pendingLapsed now = true then
        { x with sessionNameState := .unnamed, sessionName := none, normalizedSessionName := none
                 pendingNameExpiresAt := none } else x).readiness = x.readiness := by
      intro x
      split <;> rfl
    rw [Broker.readinessOf, Broker.session?, Broker.audit]
    dsimp only
    rw [find?_updateWhere, Option.map_map]
    · simpa [Function.comp_def, hsame, Broker.readinessOf, Broker.session?] using hgone
    · exact fun _ => rfl
  · exact h

/-- **A sweep within the TTL of the message** leaves its delivery waiting, unless the recipient
    expires. -/
theorem sweep_stillReady {sid : SessionId} {m : Message} (inv : MailInv b)
    (hids : (b.sessions.map (·.sessionId)).Nodup) (found : b.message? mid = some m)
    (hfresh : m.unexpired mom.now = true) (h : StillReady b mid sid) :
    StillReady (sweep env mom b).2 mid sid := by
  rw [sweep_snd]
  set b₁ := (reapAckTimeouts env mom b).db with hb₁
  have honly₁ : DeliveriesOnly b b₁ := reapAckTimeouts_only
  have honly₂ : DeliveriesOnly b₁ (reapAcceptanceTtl mom.now b₁).2 := reapAcceptanceTtl_only
  refine reapStalePendingNames_stillReady (reapExpiredSessions_stillReady ?_ ?_)
  · obtain ⟨_, _, _, heq⟩ := IsFrame.trans honly₁ honly₂
    rw [heq]
    exact hids
  · rcases h with hready | hgone
    · have found₁ : b₁.message? mid = some m := by
        rw [Broker.message?, honly₁.records.messages]
        exact found
      exact .inl (reapAcceptanceTtl_ready found₁ hfresh (reapAckTimeouts_ready inv hready))
    · right
      rw [honly₂.readinessOf, honly₁.readinessOf]
      exact hgone

/-! ### The pull -/

/-- What a pull wrote for the bodies it answers with: a row each, new and unused. Receipts are left
    alone. -/
structure Issues (env : Env) (now : Iso) (auth : SessionAuthority) (b b' : Broker)
    (ms : List PendingMessage) : Prop where
  receipts : b'.receipts = b.receipts
  rows : ∀ pm ∈ ms, ∃ id ck, pm.injectionId = some id ∧ b.nextId ≤ id ∧
    pulledRow env now auth ck pm.messageId id ∈ b'.injections

theorem injectOne_receipts {ck : CheckpointId} {audited : Bool} {m : Message} :
    (injectOne env now auth ck audited m b).2.receipts = b.receipts := by
  have hissue (b : Broker) :
      (issue env now m.messageId auth.sessionId auth.epoch ck 1 b).2.receipts = b.receipts := by
    unfold issue
    split
    · rfl
    · split <;> rfl
  have hcomplete (b : Broker) : (b.completeIfNoResponseRequired m.messageId m.requiresAck
      m.requiresReply now).receipts = b.receipts := by
    unfold Broker.completeIfNoResponseRequired
    split
    · rfl
    · split <;> rfl
  unfold injectOne
  split
  · dsimp only
    split
    · cases audited with
      | true => exact hissue _
      | false => exact hissue _
    · rw [hcomplete]
      cases audited with
      | true => exact hissue _
      | false => exact hissue _
  · rfl

theorem injectAll_issues {ck : CheckpointId} {audited : Bool} (rows : List Message) (b : Broker) :
    Issues env now auth b (injectAll env now auth ck audited rows b).2
      (injectAll env now auth ck audited rows b).1 := by
  induction rows generalizing b with
  | nil => exact ⟨rfl, by simp [injectAll]⟩
  | cons m rows ih =>
    have hspec := injectOne_spec env now auth ck audited m b
    have hrest := ih (injectOne env now auth ck audited m b).2
    have hkept : ∀ i ∈ (injectOne env now auth ck audited m b).2.injections, i ∈
        (injectAll env now auth ck audited rows
          (injectOne env now auth ck audited m b).2).2.injections :=
      (injectAll_answers rows _).presents.kept
    -- What the later injections issue was minted later still.
    have hlater : ∀ pm ∈ (injectAll env now auth ck audited rows
        (injectOne env now auth ck audited m b).2).1, ∃ id ck', pm.injectionId = some id ∧
        b.nextId ≤ id ∧ pulledRow env now auth ck' pm.messageId id ∈
          (injectAll env now auth ck audited rows
            (injectOne env now auth ck audited m b).2).2.injections := by
      intro pm hpm
      obtain ⟨id, ck', hid, hnew, hrow⟩ := hrest.rows pm hpm
      exact ⟨id, ck', hid, hspec.rest.ids.trans hnew, hrow⟩
    have hreceipts := hrest.receipts.trans injectOne_receipts
    cases hid : (injectOne env now auth ck audited m b).1 with
    | none =>
      simp only [injectAll, hid]
      exact ⟨hreceipts, hlater⟩
    | some id =>
      simp only [injectAll, hid]
      refine ⟨hreceipts, List.forall_mem_cons.mpr ⟨⟨id, ck, rfl, ?_, ?_⟩, hlater⟩⟩
      · exact (hspec.presented id hid).1
      · refine hkept _ ?_
        rw [(hspec.presented id hid).2.2.1]
        exact List.mem_append_right _ (List.mem_singleton_self _)

theorem checkpointPull_issues {ck : CheckpointId} {limit : Nat} {ms : List PendingMessage}
    (h : checkpointPull env now auth ck limit b = (.ok ms, b')) : Issues env now auth b b' ms := by
  simp only [checkpointPull, assertAllowed, Call.bind_ok, Call.require_ok, assertCurrentEpoch_ok,
    Call.get_bind] at h
  obtain ⟨_, _, ⟨_, rfl⟩, _, _, ⟨_, rfl⟩, h⟩ := h
  split at h
  · split at h
    · simp only [pullForced, Call.transaction_ok, Call.act_ok] at h
      obtain ⟨rfl, rfl⟩ := Prod.mk.inj h
      obtain ⟨hreceipts, hrows⟩ : Issues env now auth b (injectAll env now auth ck true
          (b.pendingForSessionId auth.sessionId (min (max 1 limit) 50) now) b).2 _ :=
        injectAll_issues _ b
      split
      · exact ⟨hreceipts, hrows⟩
      · exact ⟨hreceipts, hrows⟩
    · obtain ⟨rfl, rfl⟩ := Call.pure_ok.mp h
      exact ⟨rfl, by simp⟩
  · simp only [Call.modify_bind, Call.pure_ok] at h
    obtain ⟨rfl, rfl⟩ := h
    exact ⟨rfl, by simp⟩

theorem exec_issues {limit : Nat} {ms : List PendingMessage}
    (h : exec env mom (.checkpointPull auth given limit) b = (.ok (.bodies ms), b')) :
    Issues env mom.now auth b b' ms := by
  simp only [exec, Call.bind_ok, Call.map_ok] at h
  obtain ⟨ck, b₁, hck, ms', hpull, heq⟩ := h
  obtain rfl := Response.bodies.inj heq
  have hissues := checkpointPull_issues hpull
  rcases checkpointOf_ok hck with rfl | rfl
  · exact hissues
  · refine ⟨hissues.receipts, fun pm hpm => ?_⟩
    obtain ⟨id, ck', hid, hnew, hrow⟩ := hissues.rows pm hpm
    exact ⟨id, ck', hid, (Nat.le_succ _).trans hnew, hrow⟩

/-! ### The ack -/

/-- An ack that accepts, naming the injection, moves the delivery from `transport_written` to
    `accepted`. -/
def Acknowledges (env : Env) (mom : Moment) (auth : SessionAuthority) (b : Broker) (mid id : Id) :
    Prop :=
  (∃ d, b.delivery? mid = some d ∧ d.state = .transportWritten) ∧
    ∃ r b', exec env mom
        (.ack auth { messageId := mid, accept := true, injectionId := some id }) b = (.ok r, b') ∧
      ∃ d, b'.delivery? mid = some d ∧ d.state = .accepted

/-- The recipient has acknowledged the message before. -/
def AckOnFile (b : Broker) (mid : Id) (sid : SessionId) : Prop :=
  ∃ r ∈ b.receipts, r.messageId = mid ∧ r.receiverSessionId = sid ∧ r.receiptType = .ack

/-- A row of the caller's own, unused, authorises an ack as long as it is good. -/
theorem authorize_own {i : Injection} (ids : InjectionIds b) (hi : i ∈ b.injections)
    (hsid : i.recipientSessionId = auth.sessionId) (hepoch : i.recipientEpoch = auth.epoch)
    (hunused : i.consumedOp = none) : (∃ o, authorizeIfRequired env now .ack i.messageId auth
        (some i.injectionId) b = (.ok o, b)) ↔
      (env.requireReceipt = true → i.expiresAt.le now = false) := by
  have hfound : b.authorizingInjection i.messageId auth.sessionId auth.epoch
      (some i.injectionId) = some i := find?_key_of_mem ids.unique hi
  have hauthorize : authorize now .ack i.messageId auth.sessionId auth.epoch
      (some i.injectionId) b = if i.expiresAt.le now then
        .error (xbusError .receiptExpired "injection expired") else .ok i := by
    simp [authorize, hfound, hsid, hepoch, hunused]
  simp only [authorizeIfRequired_ok, true_and, hauthorize]
  by_cases hreq : env.requireReceipt = true
  · simp only [hreq, if_true, forall_const]
    cases hlate : i.expiresAt.le now with
    | true => simp
    | false => simp
  · simp [hreq]

/-- An ack of what the caller received, in flight and not acknowledged before. -/
theorem ack_accepts {m : Message} {id : Id} {o : Option Id} (found : b.message? mid = some m)
    (hto : m.recipientSessionId = auth.sessionId) (hrole : isAllowed auth.role .ack = true)
    (hcurrent : b.epochOf auth.sessionId = some auth.epoch)
    (hnew : ¬ AckOnFile b mid auth.sessionId)
    (hgranted : authorizeIfRequired env now .ack mid auth (some id) b = (.ok o, b))
    (hflies : ∃ d ∈ b.deliveries, d.messageId = mid ∧ d.state = .transportWritten) :
    ∃ r b', ack env now auth { messageId := mid, accept := true, injectionId := some id } b =
        (.ok r, b') ∧ b'.deliveries = (b.updateDeliveries
          (fun d => d.messageId = mid ∧ d.state = .transportWritten)
          fun d => { d with state := .accepted, updatedAt := now }).deliveries := by
  have hreceipt : (b.receipts.find? fun r => r.messageId = mid ∧
      r.receiverSessionId = auth.sessionId ∧ r.receiptType = .ack) = none :=
    List.find?_eq_none.mpr fun x hx hrow => hnew ⟨x, hx, by simpa using hrow⟩
  have hany : (b.deliveries.any fun d =>
      d.messageId = mid ∧ d.state = .transportWritten) = true := by
    obtain ⟨d, hd, hid, hflies⟩ := hflies
    exact List.any_eq_true.mpr ⟨d, hd, by simp [hid, hflies]⟩
  have hallowed : assertAllowed auth.role .ack b = (.ok (), b) :=
    Call.require_ok.mpr ⟨hrole, rfl⟩
  have hfence : assertCurrentEpoch auth b = (.ok (), b) := assertCurrentEpoch_ok.mpr ⟨hcurrent, rfl⟩
  rw [ack, Call.bind_of_ok hallowed, Call.bind_of_ok hfence]
  simp only [Call.transaction_ok, ackTransaction]
  rw [Call.get_bind, Call.bind_of_ok (Call.orThrow_ok.mpr ⟨found, rfl⟩),
    Call.bind_of_ok ((Call.require_ok (u := ())).mpr ⟨hto, rfl⟩), hreceipt]
  dsimp only
  rw [Call.bind_of_ok hgranted,
    Call.bind_of_ok ((Call.requireElse_ok (u := ())).mpr ⟨hany, rfl⟩)]
  refine ⟨_, _, rfl, ?_⟩
  cases o with
  | none => rfl
  | some id => rfl

/-- **When an ack takes effect** that names a row of the caller's own, unused. -/
theorem acknowledges_iff {m : Message} {i : Injection} (ids : InjectionIds b)
    (found : b.message? i.messageId = some m) (hto : m.recipientSessionId = auth.sessionId)
    (hrole : isAllowed auth.role .ack = true)
    (hcurrent : b.epochOf auth.sessionId = some auth.epoch) (hi : i ∈ b.injections)
    (hsid : i.recipientSessionId = auth.sessionId) (hepoch : i.recipientEpoch = auth.epoch)
    (hunused : i.consumedOp = none) :
    Acknowledges env mom auth b i.messageId i.injectionId ↔
      (∃ d, b.delivery? i.messageId = some d ∧ d.state = .transportWritten) ∧
        ¬ AckOnFile b i.messageId auth.sessionId ∧
        (env.requireReceipt = true → i.expiresAt.le mom.now = false) := by
  refine and_congr_right fun ⟨d, hd, hflies⟩ => ?_
  rw [← authorize_own ids hi hsid hepoch hunused]
  constructor
  · rintro ⟨r, b', hexec, d', hd', haccepted⟩
    simp only [exec, Call.map_ok, ack, ackTransaction, assertAllowed, Call.bind_ok, Call.require_ok,
      assertCurrentEpoch_ok, Call.transaction_ok, Call.get_bind, Call.orThrow_ok] at hexec
    obtain ⟨_, ⟨_, _, ⟨_, rfl⟩, _, _, ⟨-, rfl⟩, msg, _, ⟨-, rfl⟩, _, _, ⟨-, rfl⟩, hack⟩, -⟩ := hexec
    cases hreceipt : b.receipts.find? fun r => r.messageId = i.messageId ∧
        r.receiverSessionId = auth.sessionId ∧ r.receiptType = .ack with
    | some existing =>
      -- Acknowledged before: the answer repeats the state, and nothing moves.
      simp only [hreceipt, Call.bind_ok, Call.requireElse_ok, Call.orThrow_ok,
        Call.pure_ok] at hack
      obtain ⟨_, _, ⟨-, rfl⟩, _, _, ⟨-, rfl⟩, -, rfl⟩ := hack
      obtain rfl := Option.some.inj (hd.symm.trans hd')
      rw [hflies] at haccepted
      cases haccepted
    | none =>
      simp only [hreceipt, Call.bind_ok] at hack
      obtain ⟨o, b₁, hgranted, -⟩ := hack
      obtain rfl := (authorizeIfRequired_ok.mp hgranted).1
      refine ⟨?_, o, hgranted⟩
      rintro ⟨x, hx, hrow⟩
      exact List.find?_eq_none.mp hreceipt x hx (by simpa using hrow)
  · rintro ⟨hnew, o, hgranted⟩
    have hid : d.messageId = i.messageId := by simpa using List.find?_some hd
    obtain ⟨r, b', hack, hdel⟩ := ack_accepts found hto hrole hcurrent hnew hgranted
      ⟨d, List.mem_of_find?_eq_some hd, hid, hflies⟩
    refine ⟨.acked r, b', Call.map_ok.mpr ⟨r, hack, rfl⟩,
      { d with state := .accepted, updatedAt := mom.now }, ?_, rfl⟩
    rw [Broker.delivery?, hdel, Broker.updateDeliveries]
    dsimp only
    rw [find?_updateWhere]
    · rw [Broker.delivery?] at hd
      simp [hd, hid, hflies]
    · exact fun _ => rfl

/-! ## Redelivery -/

/-- What holds of the stores at any time: one delivery to a message, one row to an injection id, one
    row to a session id. -/
structure StoreInv (b : Broker) : Prop where
  mail : MailInv b
  ids : InjectionIds b
  names : ∃ N, NameInv b N

theorem StoreInv.sessionIds (inv : StoreInv b) : (b.sessions.map (·.sessionId)).Nodup := by
  obtain ⟨N, names⟩ := inv.names
  exact names.sessionIds

theorem Move.storeInv {k : Kind} (h : Move env k b b') (inv : StoreInv b) : StoreInv b' := by
  obtain ⟨N, names⟩ := inv.names
  exact ⟨h.mailInv inv.mail, h.injectionIds inv.mail inv.ids, h.names names⟩

theorem Moves.storeInv {kinds : List Kind} (h : Moves env kinds b b') (inv : StoreInv b) :
    StoreInv b' :=
  h.keeps inv fun _ _ _ _ hmove hu => hmove.storeInv hu

theorem storeInv_of_desk {ok : Desk → DeskEvent → Prop} {u : Desk} (h : u.Reachable env ok) :
    StoreInv u.db := by
  have hids : InjectionIds (initial env) := by
    have hnone : (initial env).injections = [] := rfl
    exact ⟨by rw [hnone]; exact List.nodup_nil, fun i hi => by rw [hnone] at hi; cases hi⟩
  exact desk_of_moves ⟨mailInv_initial, hids, _, nameInv_initial⟩
    (fun _ _ _ hmove hb => hmove.storeInv hb) h

/-- The stores after sweeps at these moments. -/
def swept (env : Env) (moms : List Moment) (b : Broker) : Broker :=
  moms.foldl (fun b mom => (sweep env mom b).2) b

/-- Through sweeps within the TTL of the message, it stays ready, or its recipient expires. -/
theorem swept_stillReady {moms : List Moment} {sid : SessionId} {m : Message} (inv : StoreInv b)
    (found : b.message? mid = some m) (hfresh : ∀ mom ∈ moms, m.unexpired mom.now = true)
    (h : StillReady b mid sid) :
    StoreInv (swept env moms b) ∧ SameRecords b (swept env moms b) ∧
      StillReady (swept env moms b) mid sid := by
  induction moms generalizing b with
  | nil => exact ⟨inv, IsFrame.refl _, h⟩
  | cons mom moms ih =>
    obtain ⟨hnow, hlater⟩ := List.forall_mem_cons.mp hfresh
    have hrecords : SameRecords b (sweep env mom b).2 := sweep_records
    have found' : (sweep env mom b).2.message? mid = some m := by
      rw [Broker.message?, hrecords.messages]
      exact found
    obtain ⟨inv', hrecords', hready⟩ := ih ((sweep_respects b).storeInv inv) found' hlater
      (sweep_stillReady inv.mail inv.sessionIds found hnow h)
    have hcons : swept env (mom :: moms) b = swept env moms (sweep env mom b).2 := rfl
    rw [hcons]
    exact ⟨inv', IsFrame.trans hrecords hrecords', hready⟩

theorem StillReady.of_open {sid : SessionId} (h : StillReady b mid sid) (hopen : Open b sid) :
    Ready b mid sid := by
  refine h.resolve_right fun hgone => ?_
  have haccepts := hopen.1
  rw [hgone] at haccepts
  cases haccepts

/-- What is ready and within its TTL is pulled, given the limit. -/
theorem Ready.pulled {sid : SessionId} {m : Message} {limit : Nat} (h : Ready b mid sid)
    (found : b.message? mid = some m) (hfresh : m.unexpired now = true)
    (hlimit : (b.eligible sid now).length ≤ limit) : m ∈ b.pendingForSessionId sid limit now := by
  obtain ⟨d, hd, hid, hto, hqueued, hdue⟩ := h
  rw [Broker.pendingForSessionId, List.take_of_length_le hlimit]
  refine mem_eligible.mpr ⟨d, hd, hto, by rw [hqueued]; rfl, ?_, by rw [hid]; exact found, hfresh⟩
  rw [Delivery.due, hdue]
  rfl

/-- `b` is where the stores are once `m` was redelivered and nothing but sweeps has run since, all
    of them within the TTL of the message. -/
def Redelivered (env : Env) (b₀ : Broker) (m : Message) (b : Broker) : Prop :=
  ∃ op r mom b₁ moms, b₀.message? m.messageId = some m ∧ Redelivers m.messageId op r ∧
    exec env mom op b₀ = (.ok r, b₁) ∧ (∀ mom ∈ moms, m.unexpired mom.now = true) ∧
    b = swept env moms b₁

/-- The pull from `b` to `b'` returned the body under a new injection id, and the ack that names the
    id takes the delivery from `transport_written` to `accepted`. -/
def Represents (env : Env) (ackAt : Moment) (acker : SessionAuthority) (m : Message) (b b' : Broker)
    (ms : List PendingMessage) : Prop :=
  ∃ pm ∈ ms, pm.messageId = m.messageId ∧ pm.text = m.text ∧ ∃ id, pm.injectionId = some id ∧
    (∀ i ∈ b.injections, i.injectionId ≠ id) ∧ Acknowledges env ackAt acker b' m.messageId id

theorem Redelivered.readied {b₀ : Broker} {m : Message} (h : Redelivered env b₀ m b)
    (inv : StoreInv b₀) : StoreInv b ∧ SameRecords b₀ b ∧
      StillReady b m.messageId m.recipientSessionId := by
  obtain ⟨op, r, mom, b₁, moms, found, hop, hexec, hfresh, rfl⟩ := h
  obtain ⟨honly, hready⟩ := hop.readied inv.mail found hexec
  have hmoves := exec_moves env mom op b₀ false (by simp)
  rw [hexec] at hmoves
  have found₁ : b₁.message? m.messageId = some m := by
    rw [Broker.message?, honly.records.messages]
    exact found
  obtain ⟨inv', hrecords, hstill⟩ := swept_stillReady (hmoves.storeInv inv) found₁ hfresh
    (.inl hready)
  exact ⟨inv', IsFrame.trans honly.records hrecords, hstill⟩

theorem shown_congr {b₀ : Broker} {epoch : Nat} (h : SameRecords b₀ b) :
    b.shown epoch given mid = b₀.shown epoch given mid := by
  rw [Broker.shown, Broker.shown, h.injections]

theorem ackOnFile_congr {b₀ : Broker} {sid : SessionId} (h : b.receipts = b₀.receipts) :
    AckOnFile b mid sid ↔ AckOnFile b₀ mid sid := by
  rw [AckOnFile, AckOnFile, h]

theorem exec_checkpointPull_mailOnly {limit : Nat} :
    MailOnly b (exec env mom (.checkpointPull auth given limit) b).2 := by
  refine (exec_moves env mom (.checkpointPull auth given limit) b false (by simp)).frame
    fun b b' k hk hmove => ?_
  simp only [kindsOf, List.mem_cons, List.not_mem_nil, or_false] at hk
  rcases hk with rfl | rfl
  · cases hmove with | note h => exact .of_bookkeeping h
  · cases hmove with
    | inject now auth ck audited m => exact (injectOne_spec env now auth ck audited m b).rest

/-- A body that came back is of a message that was pulled and not seen before. -/
theorem Foretold.of_mem {rows : List Message} {seen : Id → Prop} [DecidablePred seen]
    {ms : List PendingMessage} (h : Foretold b rows seen ms b') {pm : PendingMessage}
    (hpm : pm ∈ ms) : ∃ m ∈ rows, ¬ seen m.messageId ∧ pm.blur = freshBody m := by
  have hmem : pm.blur ∈ ms.map (·.blur) := List.mem_map_of_mem hpm
  rw [h.bodies] at hmem
  obtain ⟨m, hm, hbody⟩ := List.mem_map.mp hmem
  obtain ⟨hrow, hseen⟩ := List.mem_filter.mp hm
  exact ⟨m, hrow, of_decide_eq_true hseen, hbody.symm⟩

/-- A message that was pulled and not seen before comes back. -/
theorem Foretold.mem {rows : List Message} {seen : Id → Prop} [DecidablePred seen]
    {ms : List PendingMessage} (h : Foretold b rows seen ms b') {m : Message} (hm : m ∈ rows)
    (hseen : ¬ seen m.messageId) : ∃ pm ∈ ms, pm.blur = freshBody m := by
  have hmem : freshBody m ∈ ms.map (·.blur) := by
    rw [h.bodies]
    exact List.mem_map_of_mem (List.mem_filter.mpr ⟨hm, by simp [hseen]⟩)
  exact List.mem_map.mp hmem

/-- A body that was shown for the first time is in flight if a response is asked for. -/
theorem Foretold.flies_iff {rows : List Message} {seen : Id → Prop} [DecidablePred seen]
    {ms : List PendingMessage} (h : Foretold b rows seen ms b') (inv' : MailInv b') {m : Message}
    (hm : m ∈ rows) (hseen : ¬ seen m.messageId) (hwaits : Awaits b m.messageId) :
    (∃ d, b'.delivery? m.messageId = some d ∧ d.state = .transportWritten) ↔
      m.requiresAck = true ∨ m.requiresReply = true := by
  obtain ⟨d, hd, hid, hwait⟩ := hwaits
  obtain ⟨g, hdel, hsettles⟩ := h.deliveries
  have hset := hsettles d hd
  have hstate : (g d).state = landed m false := by
    simpa [hseen] using hset.state m hm hid.symm hwait
  have hfound : b'.delivery? m.messageId = some (g d) := by
    rw [← hid, ← hset.messageId]
    exact inv'.delivery?_of_mem (hdel ▸ List.mem_map_of_mem hd)
  simp only [hfound, Option.some.injEq, exists_eq_left', hstate]
  cases hack : m.requiresAck with
  | true => simp [landed, hack]
  | false =>
    cases hreply : m.requiresReply with
    | true => simp [landed, hack, hreply]
    | false => simp [landed, hack, hreply]

/-- **The ack after a pull.** The body that came back has a new injection id, and the ack that names
    it takes effect exactly if the message asks for a response, was not acknowledged before, and the
    injection is still good. -/
theorem pulled_acknowledges_iff {limit : Nat} {ms : List PendingMessage} {m : Message}
    {rows : List Message} {seen : Id → Prop} [DecidablePred seen] {acker : SessionAuthority}
    {ackAt : Moment} (inv : StoreInv b) (found : b.message? m.messageId = some m)
    (hto : m.recipientSessionId = auth.sessionId)
    (hcurrent : b.epochOf auth.sessionId = some auth.epoch)
    (hsame : acker.sessionId = auth.sessionId ∧ acker.epoch = auth.epoch)
    (hacks : isAllowed acker.role .ack = true)
    (hexec : exec env mom (.checkpointPull auth given limit) b = (.ok (.bodies ms), b'))
    (did : Foretold b rows seen ms b') (hpulled : m ∈ rows) (hwaits : Awaits b m.messageId)
    (hseen : ¬ seen m.messageId) {pm : PendingMessage} (hpm : pm ∈ ms)
    (hid : pm.messageId = m.messageId) :
    ∃ id, pm.injectionId = some id ∧ (∀ i ∈ b.injections, i.injectionId ≠ id) ∧
      (Acknowledges env ackAt acker b' m.messageId id ↔
        (m.requiresAck = true ∨ m.requiresReply = true) ∧
          ¬ AckOnFile b m.messageId m.recipientSessionId ∧
          (env.requireReceipt = true →
            (mom.now.plus env.injectionTtlMs).le ackAt.now = false)) := by
  have hissues : Issues env mom.now auth b b' ms := exec_issues hexec
  have hmail : MailOnly b (exec env mom (.checkpointPull auth given limit) b).2 :=
    exec_checkpointPull_mailOnly
  have inv' : StoreInv (exec env mom (.checkpointPull auth given limit) b).2 :=
    (exec_moves env mom _ b false (by simp)).storeInv inv
  rw [hexec] at hmail inv'
  obtain ⟨id, ck, hrow, hnew, hmem⟩ := hissues.rows pm hpm
  refine ⟨id, hrow, fun i hi heq => ?_, ?_⟩
  · exact absurd (inv.ids.below i hi) (Nat.not_lt.mpr (heq ▸ hnew))
  · -- The acknowledgement meets the message, the epoch and the receipts of before the pull.
    have found' : b'.message? m.messageId = some m := by
      rw [Broker.message?, hmail.messages]
      exact found
    have hcurrent' : b'.epochOf acker.sessionId = some acker.epoch := by
      rw [hsame.1, hsame.2, epochOf_core hmail.sessions]
      exact hcurrent
    have hfiled : AckOnFile b' m.messageId acker.sessionId ↔
        AckOnFile b m.messageId m.recipientSessionId := by
      rw [hsame.1, ← hto]
      exact ackOnFile_congr hissues.receipts
    rw [hid] at hmem
    rw [← did.flies_iff inv'.mail hpulled hseen hwaits, ← hfiled]
    exact acknowledges_iff inv'.ids found' (hto.trans hsame.1.symm) hacks hcurrent' hmem
      hsame.1.symm hsame.2.symm rfl

/-- **Redelivery re-presents** exactly what was not shown before, at the epoch of the pull or under
    its checkpoint id; and the ack that follows takes effect exactly if the message asks for a
    response, was never acknowledged before, and the new injection is still good. -/
theorem redelivery_represents_iff {u : Desk} (hreach : u.Reachable env Any) {m : Message}
    (hredelivered : Redelivered env u.db m b) (hrole : auth.role = .hook)
    (hto : m.recipientSessionId = auth.sessionId)
    (hcurrent : b.epochOf auth.sessionId = some auth.epoch) (hopen : Open b auth.sessionId)
    (hfresh : m.unexpired mom.now = true) {limit : Nat}
    (hlimit : (b.eligible auth.sessionId mom.now).length ≤ min (max 1 limit) 50)
    {acker : SessionAuthority} (hsame : acker.sessionId = auth.sessionId ∧ acker.epoch = auth.epoch)
    (hacks : isAllowed acker.role .ack = true) (ackAt : Moment) :
    ∃ ms b', exec env mom (.checkpointPull auth given limit) b = (.ok (.bodies ms), b') ∧
      (Represents env ackAt acker m b b' ms ↔
        u.db.shown auth.epoch given m.messageId = false ∧
          (m.requiresAck = true ∨ m.requiresReply = true) ∧
          ¬ AckOnFile u.db m.messageId m.recipientSessionId ∧
          (env.requireReceipt = true →
            (mom.now.plus env.injectionTtlMs).le ackAt.now = false)) := by
  obtain ⟨inv, hrecords, hstill⟩ := hredelivered.readied (storeInv_of_desk hreach)
  obtain ⟨-, -, -, -, -, found₀, -⟩ := hredelivered
  have found : b.message? m.messageId = some m := by
    rw [Broker.message?, hrecords.messages]
    exact found₀
  have hready : Ready b m.messageId auth.sessionId := (hto ▸ hstill).of_open hopen
  obtain ⟨ms, b', hexec, did⟩ := hookPull_foretold inv.mail hrole hcurrent limit
  -- The pull finds both gates open and the row within its limit.
  have hgates : (acceptsInjection (b.readinessOf auth.sessionId) &&
      b.autoDeliveryEnabled auth.sessionId) = true := by
    rw [hopen.1, hopen.2]
    rfl
  rw [if_pos hgates] at did
  refine ⟨ms, b', hexec, ?_⟩
  have hpulled : m ∈ b.pendingForSessionId auth.sessionId (min (max 1 limit) 50) mom.now :=
    hready.pulled found hfresh hlimit
  have hwaits : Awaits b m.messageId := waiting_of_mem_pending hpulled
  -- What is on record is as it was before the redelivery.
  rw [← shown_congr hrecords, ← ackOnFile_congr hrecords.receipts]
  constructor
  · rintro ⟨pm, hpm, hid, -, id, hrow, -, hacked⟩
    obtain ⟨m', -, hseen, hbody⟩ := did.of_mem hpm
    have hmid : m'.messageId = m.messageId :=
      (congrArg PendingMessage.messageId hbody).symm.trans hid
    rw [hmid] at hseen
    obtain ⟨id', hrow', -, hiff⟩ := pulled_acknowledges_iff inv found hto hcurrent hsame hacks hexec
      did hpulled hwaits hseen hpm hid
    obtain rfl := Option.some.inj (hrow.symm.trans hrow')
    exact ⟨Bool.not_eq_true _ ▸ hseen, hiff.mp hacked⟩
  · rintro ⟨hunseen, hcond⟩
    have hseen : ¬ b.shown auth.epoch given m.messageId = true := by
      rw [hunseen]
      exact Bool.false_ne_true
    obtain ⟨pm, hpm, hbody⟩ := did.mem hpulled hseen
    have hid : pm.messageId = m.messageId := congrArg PendingMessage.messageId hbody
    obtain ⟨id, hrow, hnew, hiff⟩ := pulled_acknowledges_iff inv found hto hcurrent hsame hacks
      hexec did hpulled hwaits hseen hpm hid
    exact ⟨pm, hpm, hid, congrArg PendingMessage.text hbody, id, hrow, hnew, hiff.mpr hcond⟩

/-- The operator has the request of `alpha` to `beta` redelivered, and a sweep runs afterwards. -/
theorem request_redelivered (events : List Event)
    (h : (exec plainEnv { nowMs := 1002 } (.operatorRedeliver 8 false)
        (deskAfter (atDesk events)).db).1 = .ok (.operatorRedelivered .redelivered) ∧
      ((deskAfter (atDesk events)).db.message? 8).any fun m => m.messageId = 8 ∧
        m.recipientSessionId = "beta" ∧ m.requiresAck ∧ m.expiresAt = none) :
    ∃ m, (deskAfter (atDesk events)).db.message? 8 = some m ∧ m.messageId = 8 ∧
      m.recipientSessionId = "beta" ∧ m.requiresAck = true ∧ m.expiresAt = none ∧
      Redelivered plainEnv (deskAfter (atDesk events)).db m (swept plainEnv [{ nowMs := 1003 }]
        (exec plainEnv { nowMs := 1002 } (.operatorRedeliver 8 false)
          (deskAfter (atDesk events)).db).2) := by
  obtain ⟨hok, hmsg⟩ := h
  obtain ⟨m, found, hm⟩ := (Option.any_eq_true ..).mp hmsg
  obtain ⟨hid, hto, hack, hlasts⟩ := of_decide_eq_true hm
  refine ⟨m, found, hid, hto, hack, hlasts, _, _, { nowMs := 1002 }, _, _, ?_, ?_,
    Prod.ext hok rfl, ?_, rfl⟩
  · rw [hid]
    exact found
  · rw [hid]
    exact .redelivered false
  · intro mom _
    rw [Message.unexpired, hlasts]
    rfl

/-- The request was not shown yet: the redelivery shows it, and the ack is taken. -/
theorem waiting_request_represented :
    let u := deskAfter (atDesk requestSent)
    let b := swept plainEnv [{ nowMs := 1003 }]
      (exec plainEnv { nowMs := 1002 } (.operatorRedeliver 8 false) u.db).2
    ∃ m ms b', u.db.message? 8 = some m ∧ Redelivered plainEnv u.db m b ∧
      exec plainEnv { nowMs := 1004 } (.checkpointPull (component "beta" .hook 1 2) (some "ck") 10)
        b = (.ok (.bodies ms), b') ∧
      Represents plainEnv { nowMs := 1005 } (component "beta" .mcp 1 2) m b b' ms := by
  intro u b
  obtain ⟨m, found, hid, hto, hack, hlasts, hredelivered⟩ :=
    request_redelivered requestSent (by decide +kernel)
  have hb : b.epochOf "beta" = some 1 ∧ acceptsInjection (b.readinessOf "beta") = true ∧
      b.autoDeliveryEnabled "beta" = true ∧ (b.eligible "beta" ⟨1004⟩).length ≤ 10 ∧
      u.db.shown 1 (some "ck") 8 = false ∧ u.db.receipts = [] := by decide +kernel
  obtain ⟨hcurrent, haccepts, hauto, hlimit, hunseen, hnone⟩ := hb
  have hfresh : m.unexpired ⟨1004⟩ = true := by
    rw [Message.unexpired, hlasts]
    rfl
  obtain ⟨ms, b', hexec, hiff⟩ := @redelivery_represents_iff plainEnv { nowMs := 1004 }
    (component "beta" .hook 1 2) b (some "ck") u (reachable_deskAfter _) m hredelivered rfl hto
    hcurrent ⟨haccepts, hauto⟩ hfresh 10 hlimit (component "beta" .mcp 1 2) ⟨rfl, rfl⟩ rfl
    { nowMs := 1005 }
  refine ⟨m, ms, b', found, hredelivered, hexec, hiff.mpr ⟨?_, .inl hack, ?_, fun _ => rfl⟩⟩
  · rw [hid]
    exact hunseen
  · rintro ⟨r, hr, -⟩
    rw [show u.db.receipts = [] from hnone] at hr
    cases hr

/-- The request was shown, at an epoch that still stands: the redelivery shows nothing. -/
theorem shown_request_not_represented :
    let u := deskAfter (atDesk requestPulled)
    let b := swept plainEnv [{ nowMs := 1003 }]
      (exec plainEnv { nowMs := 1002 } (.operatorRedeliver 8 false) u.db).2
    u.Reachable plainEnv Any ∧ ∃ m, u.db.message? 8 = some m ∧ Redelivered plainEnv u.db m b ∧
      m.recipientSessionId = "beta" ∧ m.unexpired ⟨1004⟩ = true ∧
      b.epochOf "beta" = some 1 ∧ Open b "beta" ∧ (b.eligible "beta" ⟨1004⟩).length ≤ 10 ∧
      (exec plainEnv { nowMs := 1004 }
        (.checkpointPull (component "beta" .hook 1 2) (some "ck2") 10) b).1 = .ok (.bodies []) := by
  intro u b
  obtain ⟨m, found, hid, hto, hack, hlasts, hredelivered⟩ :=
    request_redelivered requestPulled (by decide +kernel)
  have hb : b.epochOf "beta" = some 1 ∧ (acceptsInjection (b.readinessOf "beta") = true ∧
      b.autoDeliveryEnabled "beta" = true) ∧ (b.eligible "beta" ⟨1004⟩).length ≤ 10 ∧
      (exec plainEnv { nowMs := 1004 }
        (.checkpointPull (component "beta" .hook 1 2) (some "ck2") 10) b).1 = .ok (.bodies []) := by
    decide +kernel
  obtain ⟨hcurrent, hopen, hlimit, hpull⟩ := hb
  have hfresh : m.unexpired ⟨1004⟩ = true := by
    rw [Message.unexpired, hlasts]
    rfl
  exact ⟨reachable_deskAfter _, m, found, hredelivered, hto, hfresh, hcurrent, hopen, hlimit, hpull⟩

end Proof
end XBus
