import XBus.Proof.Rewrites

/-!
# The passes of a sweep, row by row

`Rewrites` says which statements may lead a row of `deliveries` where it is. For the passes of
the sweep more is true: each is a map over the rows, and this file says which one. The loops of
the source select first and update by message id afterwards, so that a round may meet rows the
earlier rounds have written; that the maps come out all the same is what the inductions are for.
-/

set_option autoImplicit false

namespace XBus
namespace Proof

open Lib

variable {env : Env} {mom : Moment} {now : Iso} {b b' : Broker}

/-! ## Before sessions expire -/

/-- Nothing but deliveries was written, and the trail of the audit. -/
def DeliveriesOnly (b b' : Broker) : Prop :=
  ∃ ds es n, b' = { b with deliveries := ds, auditEvents := es, nextId := n }

instance : IsFrame DeliveriesOnly where
  refl _ := ⟨_, _, _, rfl⟩
  trans := by
    rintro _ _ _ ⟨_, _, _, rfl⟩ ⟨_, _, _, rfl⟩
    exact ⟨_, _, _, rfl⟩

theorem reapAckTimeouts_only : DeliveriesOnly b (reapAckTimeouts env mom b).db := by
  refine IsFrame.foldl AckSweep.db (b.lapsed mom.now) { db := b } fun acc r _ => ?_
  unfold reapAckTimeout
  split
  · exact IsFrame.refl _
  · dsimp only
    split
    · exact IsFrame.refl _
    · split
      · exact ⟨_, _, _, rfl⟩
      · exact ⟨_, _, _, rfl⟩

theorem reapAcceptanceTtl_only : DeliveriesOnly b (reapAcceptanceTtl now b).2 := by
  refine IsFrame.foldl Prod.snd (b.pastTtl now) (0, b) fun acc r _ => ?_
  unfold expireWaiting
  split
  · exact ⟨_, _, _, rfl⟩
  · exact IsFrame.refl _

/-! ## Acceptance TTL -/

/-- The acceptance TTL of the message has passed. -/
def ttlPassed (b : Broker) (now : Iso) (mid : Id) : Bool :=
  (b.message? mid).any fun m => m.expiresAt.any fun e => e.le now

/-- A row that has waited past its message's TTL, as the pass leaves it. -/
def ttlExpired (now : Iso) (d : Delivery) : Delivery :=
  { d with state := .expired, failureCategory := some .expiredBeforeInjection, updatedAt := now }

theorem mem_pastTtl {d : Delivery} : d ∈ b.pastTtl now ↔
    d ∈ b.deliveries ∧ d.state.waiting = true ∧ ttlPassed b now d.messageId = true := by
  rw [Broker.pastTtl, List.mem_insertionSort, List.mem_filter, decide_eq_true_eq]
  exact Iff.rfl

/-- The rounds of the pass, from any state of its loop. -/
theorem expireWaiting_fold (rows : List Delivery) (acc : Nat × Broker) :
    (rows.foldl (expireWaiting now) acc).2.deliveries = acc.2.deliveries.map fun d =>
      if d.state.waiting = true ∧ ∃ r ∈ rows, r.messageId = d.messageId then ttlExpired now d
      else d := by
  induction rows generalizing acc with
  | nil => simp
  | cons r rows ih =>
    have hround : (expireWaiting now acc r).2.deliveries = acc.2.deliveries.map fun d =>
        if d.messageId = r.messageId ∧ d.state.waiting = true then ttlExpired now d else d := by
      unfold expireWaiting
      split
      · exact List.map_congr_left fun d _ => by simp only [decide_eq_true_eq, ttlExpired]
      · rename_i hnone
        refine (List.map_id _).symm.trans (List.map_congr_left fun d hd => ?_)
        rw [if_neg fun h => hnone (List.any_eq_true.mpr ⟨d, hd, by simpa using h⟩)]
        rfl
    rw [List.foldl_cons, ih, hround, List.map_map]
    refine List.map_congr_left fun d _ => ?_
    simp only [Function.comp_apply]
    by_cases hnow : d.messageId = r.messageId ∧ d.state.waiting = true
    · -- Written in this round, and no longer waiting in the later ones.
      have hlater : ¬ ((ttlExpired now d).state.waiting = true ∧
          ∃ x ∈ rows, x.messageId = (ttlExpired now d).messageId) := fun h => nomatch h.1
      have hthen : d.state.waiting = true ∧ ∃ x ∈ r :: rows, x.messageId = d.messageId :=
        ⟨hnow.2, r, List.mem_cons_self, hnow.1.symm⟩
      rw [if_pos hnow, if_neg hlater, if_pos hthen]
    · rw [if_neg hnow]
      refine if_congr ⟨?_, ?_⟩ rfl rfl
      · rintro ⟨hwaits, x, hx, hid⟩
        exact ⟨hwaits, x, List.mem_cons_of_mem r hx, hid⟩
      · rintro ⟨hwaits, x, hx, hid⟩
        rcases List.mem_cons.mp hx with rfl | hx
        · exact absurd ⟨hid.symm, hwaits⟩ hnow
        · exact ⟨hwaits, x, hx, hid⟩

/-- The pass expires the rows that wait past their TTL. -/
theorem reapAcceptanceTtl_rows : (reapAcceptanceTtl now b).2.deliveries = b.deliveries.map fun d =>
    if d.state.waiting = true ∧ ttlPassed b now d.messageId =
      true then ttlExpired now d else d := by
  rw [reapAcceptanceTtl, expireWaiting_fold]
  refine List.map_congr_left fun d hd => if_congr ⟨?_, ?_⟩ rfl rfl
  · rintro ⟨hwaits, r, hr, hid⟩
    rw [← hid]
    exact ⟨hwaits, (mem_pastTtl.mp hr).2.2⟩
  · rintro ⟨hwaits, hpast⟩
    exact ⟨hwaits, d, mem_pastTtl.mpr ⟨hd, hwaits, hpast⟩, rfl⟩

/-! ## Sessions -/

/-- The session has a row without a tombstone. -/
def live (b : Broker) (sid : SessionId) : Bool :=
  b.sessions.any fun s => s.sessionId = sid ∧ s.expiredAt = none

/-- A delivery to a session that expires, as the tombstone leaves it. -/
def laidToRest (b : Broker) (now : Iso) (d : Delivery) : Delivery :=
  if d.state.waiting = true ∨ d.state = .transportWritten then
    { d with state := .deadLetter, failureCategory := some .recipientInactive15Days
             nextAttemptAt := none, leaseExpiresAt := none, updatedAt := now }
  else if d.state = .accepted ∧ b.requiresReply d.messageId = true then
    { d with state := .expired, nextAttemptAt := none, leaseExpiresAt := none
             failureCategory := some .replyPendingUnanswered15Days, updatedAt := now }
  else d

theorem laidToRest_state {d : Delivery} (h : d.state.waiting = true) :
    (laidToRest b now d).state = .deadLetter := by
  simp [laidToRest, h]

theorem laidToRest_expired {d : Delivery} (h : d.state = .expired) : laidToRest b now d = d := by
  simp [laidToRest, h, DeliveryState.waiting]

theorem tombstone_rows {sid : SessionId} : (b.tombstone sid now).deliveries =
    b.deliveries.map fun d => if d.recipientSessionId = sid then laidToRest b now d else d := by
  have hrows : (b.tombstone sid now).deliveries = updateWhere
      (fun d => d.recipientSessionId = sid ∧ d.state = .accepted ∧
        b.requiresReply d.messageId = true)
      (fun d => { d with state := .expired, nextAttemptAt := none, leaseExpiresAt := none
                         failureCategory := some .replyPendingUnanswered15Days, updatedAt := now })
      (updateWhere
        (fun d => d.recipientSessionId = sid ∧ (d.state.waiting ∨ d.state = .transportWritten))
        (fun d => { d with state := .deadLetter, failureCategory := some .recipientInactive15Days
                           nextAttemptAt := none, leaseExpiresAt := none, updatedAt := now })
        b.deliveries) := rfl
  rw [hrows, updateWhere, updateWhere, List.map_map]
  refine List.map_congr_left fun d _ => ?_
  simp only [Function.comp_apply, decide_eq_true_eq]
  unfold laidToRest
  by_cases hto : d.recipientSessionId = sid
  · by_cases hopen : d.state.waiting = true ∨ d.state = .transportWritten
    · simp [hto, hopen]
    · simp [hto, hopen]
  · simp [hto]

theorem tombstone_live {sid sid' : SessionId} :
    live (b.tombstone sid now) sid' = true ↔ live b sid' = true ∧ sid' ≠ sid := by
  have hsessions : (b.tombstone sid now).sessions = updateWhere
      (fun s => s.sessionId = sid ∧ s.expiredAt = none)
      (fun s => { s with expiredAt := some now, readiness := .disconnected
                         pendingNameExpiresAt := none }) b.sessions := rfl
  simp only [live, List.any_eq_true, decide_eq_true_eq, hsessions]
  constructor
  · rintro ⟨x, hx, hid, hnone⟩
    obtain ⟨s, hs, rfl⟩ := mem_updateWhere.mp hx
    by_cases hsid : s.sessionId = sid ∧ s.expiredAt = none
    · simp [hsid] at hnone
    · simp only [decide_eq_true_eq, if_neg hsid] at hid hnone
      exact ⟨⟨s, hs, hid, hnone⟩, fun heq => hsid ⟨hid.trans heq, hnone⟩⟩
  · rintro ⟨⟨s, hs, hid, hnone⟩, hne⟩
    refine ⟨s, mem_updateWhere_of_mem hs ?_, hid, hnone⟩
    simp [hid, hne]

/-- The rounds of the expiry pass, from any state of its loop. -/
theorem expireSession_fold (rows : List Session) (acc : Nat × Broker) :
    (rows.foldl (expireSession now) acc).2.deliveries = acc.2.deliveries.map fun d =>
      if live acc.2 d.recipientSessionId = true ∧ ∃ s ∈ rows, s.sessionId = d.recipientSessionId
      then laidToRest acc.2 now d else d := by
  induction rows generalizing acc with
  | nil => simp
  | cons s rows ih =>
    rw [List.foldl_cons, ih]
    unfold expireSession
    -- Expiring `s` lays its deliveries to rest, unless it is expired already.
    by_cases hlive : live acc.2 s.sessionId = true
    · rw [if_pos (show (acc.2.sessions.any fun x => x.sessionId = s.sessionId ∧
        x.expiredAt = none) = true from hlive)]
      simp only [tombstone_rows, tombstone_live, List.map_map]
      refine List.map_congr_left fun d _ => ?_
      simp only [Function.comp_apply]
      by_cases hto : d.recipientSessionId = s.sessionId
      · have hrow : (laidToRest acc.2 now d).recipientSessionId = d.recipientSessionId := by
          unfold laidToRest
          split_ifs <;> rfl
        rw [if_pos hto, hrow, if_neg fun h => h.1.2 hto, if_pos]
        exact ⟨by rw [hto]; exact hlive, s, List.mem_cons_self, hto.symm⟩
      · rw [if_neg hto]
        refine if_congr ⟨?_, ?_⟩ rfl rfl
        · rintro ⟨⟨hl, -⟩, x, hx, hid⟩
          exact ⟨hl, x, List.mem_cons_of_mem s hx, hid⟩
        · rintro ⟨hl, x, hx, hid⟩
          rcases List.mem_cons.mp hx with rfl | hx
          · exact absurd hid.symm hto
          · exact ⟨⟨hl, hto⟩, x, hx, hid⟩
    · rw [if_neg (show ¬ (acc.2.sessions.any fun x => x.sessionId = s.sessionId ∧
        x.expiredAt = none) = true from hlive)]
      refine List.map_congr_left fun d _ => if_congr ⟨?_, ?_⟩ rfl rfl
      · rintro ⟨hl, x, hx, hid⟩
        exact ⟨hl, x, List.mem_cons_of_mem s hx, hid⟩
      · rintro ⟨hl, x, hx, hid⟩
        rcases List.mem_cons.mp hx with rfl | hx
        · rw [← hid] at hl
          exact absurd hl hlive
        · exact ⟨hl, x, hx, hid⟩

/-- The session is due to expire. -/
def dueToExpire (b : Broker) (now : Iso) (sid : SessionId) : Bool :=
  (b.dueSessions now).any fun s => s.sessionId = sid

theorem mem_dueSessions {s : Session} : s ∈ b.dueSessions now ↔ s ∈ b.sessions ∧
    s.expiredAt = none ∧ s.expiresAt.any (fun e => e.le now) = true ∧
      s.sessionId ≠ operatorSessionId := by
  rw [Broker.dueSessions, List.mem_insertionSort, List.mem_filter, decide_eq_true_eq]

/-- The pass lays to rest what is addressed to the sessions that are due. -/
theorem reapExpiredSessions_rows : (reapExpiredSessions now b).2.deliveries =
    b.deliveries.map fun d =>
      if dueToExpire b now d.recipientSessionId = true then laidToRest b now d else d := by
  rw [reapExpiredSessions, expireSession_fold]
  refine List.map_congr_left fun d _ => if_congr ⟨?_, ?_⟩ rfl rfl
  · rintro ⟨-, s, hs, hid⟩
    exact List.any_eq_true.mpr ⟨s, hs, decide_eq_true hid⟩
  · intro hdue
    obtain ⟨s, hs, hid⟩ := List.any_eq_true.mp hdue
    have hid := of_decide_eq_true hid
    obtain ⟨hstored, hnone, -⟩ := mem_dueSessions.mp hs
    exact ⟨List.any_eq_true.mpr ⟨s, hstored, decide_eq_true ⟨hid, hnone⟩⟩, s, hs, hid⟩

/-! ## The whole sweep -/

/-- Where a sweep leaves a row: acknowledgements first, then the acceptance TTL, then what is
    addressed to a session that expires. -/
def sweptRow (env : Env) (mom : Moment) (b : Broker) (d : Delivery) : Delivery :=
  let d := if d ∈ served b env mom.now then ackTimedOut env mom d else d
  let d := if d.state.waiting = true ∧ ttlPassed b mom.now d.messageId = true then
    ttlExpired mom.now d else d
  if dueToExpire b mom.now d.recipientSessionId = true then laidToRest b mom.now d else d

theorem sweptRow_messageId {d : Delivery} : (sweptRow env mom b d).messageId = d.messageId := by
  -- Each of the three passes leaves the id alone.
  have hacks : (if d ∈ served b env mom.now then ackTimedOut env mom d else d).messageId =
      d.messageId := by
    split
    · exact ackTimedOut_messageId
    · rfl
  have httl (d : Delivery) : (if d.state.waiting = true ∧ ttlPassed b mom.now d.messageId = true
      then ttlExpired mom.now d else d).messageId = d.messageId := by
    split <;> rfl
  have hgone (d : Delivery) : (if dueToExpire b mom.now d.recipientSessionId = true
      then laidToRest b mom.now d else d).messageId = d.messageId := by
    split
    · unfold laidToRest
      split_ifs <;> rfl
    · rfl
  unfold sweptRow
  rw [hgone, httl, hacks]

theorem sweep_rows (inv : MailInv b) :
    (sweep env mom b).2.deliveries = b.deliveries.map (sweptRow env mom b) := by
  obtain ⟨hmsgs, hacks⟩ := @reapAckTimeouts_rows env mom b inv
  obtain ⟨_, _, _, honly₁⟩ := @reapAckTimeouts_only env mom b
  set b₁ := (reapAckTimeouts env mom b).db with hb₁
  obtain ⟨_, _, _, honly₂⟩ := @reapAcceptanceTtl_only mom.now b₁
  have hrows₂ := @reapAcceptanceTtl_rows mom.now b₁
  set b₂ := (reapAcceptanceTtl mom.now b₁).2 with hb₂
  have hpassed (mid : Id) : ttlPassed b₁ mom.now mid = ttlPassed b mom.now mid := by
    rw [ttlPassed, Broker.message?, hmsgs]
    rfl
  have hmsgs₂ : b₂.messages = b.messages := by
    rw [honly₂]
    exact hmsgs
  have hdue (sid : SessionId) : dueToExpire b₂ mom.now sid = dueToExpire b mom.now sid := by
    rw [honly₂, honly₁]
    rfl
  have hrest (d : Delivery) : laidToRest b₂ mom.now d = laidToRest b mom.now d := by
    rw [laidToRest, requiresReply_congr hmsgs₂]
    rfl
  have hlast : (sweep env mom b).2.deliveries = (reapExpiredSessions mom.now b₂).2.deliveries := by
    rw [sweep_snd]
    unfold reapStalePendingNames
    split <;> rfl
  rw [hlast, reapExpiredSessions_rows, hrows₂, hacks, List.map_map, List.map_map]
  refine List.map_congr_left fun d _ => ?_
  simp only [Function.comp_apply, hpassed, hdue, hrest]
  rfl

/-! ### The sessions -/

/-- The rows of the sessions are where they were, and none of them came back to life. -/
structure Dying (b b' : Broker) : Prop where
  ids : b'.sessions.map (·.sessionId) = b.sessions.map (·.sessionId)
  live (sid : SessionId) : live b' sid = true → live b sid = true

instance : IsFrame Dying where
  refl _ := ⟨rfl, fun _ h => h⟩
  trans h₁ h₂ := ⟨h₂.ids.trans h₁.ids, fun sid h => h₁.live sid (h₂.live sid h)⟩

theorem Dying.update {p : Session → Bool} {f : Session → Session}
    (h : b'.sessions = updateWhere p f b.sessions) (hid : ∀ s, (f s).sessionId = s.sessionId)
    (hexpired : ∀ s, (f s).expiredAt = none → s.expiredAt = none) : Dying b b' := by
  refine ⟨?_, fun sid hlive => ?_⟩
  · rw [h, updateWhere, List.map_map]
    refine List.map_congr_left fun s _ => ?_
    simp only [Function.comp_apply]
    split
    · exact hid s
    · rfl
  · obtain ⟨x, hx, hlive⟩ := List.any_eq_true.mp hlive
    obtain ⟨hsid, hnone⟩ := of_decide_eq_true hlive
    rw [h] at hx
    obtain ⟨s, hs, rfl⟩ := mem_updateWhere.mp hx
    refine List.any_eq_true.mpr ⟨s, hs, decide_eq_true ?_⟩
    split at hsid <;> rename_i hp
    · rw [if_pos hp] at hnone
      exact ⟨(hid s).symm.trans hsid, hexpired s hnone⟩
    · rw [if_neg hp] at hnone
      exact ⟨hsid, hnone⟩

theorem tombstone_dying {sid : SessionId} : Dying b (b.tombstone sid now) :=
  .update (p := fun s => s.sessionId = sid ∧ s.expiredAt = none)
    (f := fun s => { s with expiredAt := some now, readiness := .disconnected
                            pendingNameExpiresAt := none })
    rfl (fun _ => rfl) (fun _ h => by cases h)

theorem expireSession_dying {acc : Nat × Broker} {s : Session} :
    Dying acc.2 (expireSession now acc s).2 := by
  unfold expireSession
  split
  · exact tombstone_dying
  · exact IsFrame.refl _

theorem reapStalePendingNames_dying : Dying b (reapStalePendingNames now b) := by
  unfold reapStalePendingNames
  split
  · exact .update (p := fun s => s.pendingLapsed now)
      (f := fun s => { s with sessionNameState := .unnamed, sessionName := none
                              normalizedSessionName := none, pendingNameExpiresAt := none })
      rfl (fun _ => rfl) (fun _ h => h)
  · exact IsFrame.refl _

/-- A session the expiry pass selected is not alive after it. -/
theorem expireSession_dead (rows : List Session) (acc : Nat × Broker) {s : Session}
    (hs : s ∈ rows) : ¬ live (rows.foldl (expireSession now) acc).2 s.sessionId = true := by
  induction rows generalizing acc with
  | nil => cases hs
  | cons r rows ih =>
    rcases List.mem_cons.mp hs with rfl | hs
    · have hround : ¬ live (expireSession now acc s).2 s.sessionId = true := by
        unfold expireSession
        split
        · exact fun h => (tombstone_live.mp h).2 rfl
        · rename_i hdead
          exact hdead
      have hrest : Dying (expireSession now acc s).2
          (rows.foldl (expireSession now) (expireSession now acc s)).2 :=
        IsFrame.foldl Prod.snd rows _ fun _ _ _ => expireSession_dying
      exact fun h => hround (hrest.live _ h)
    · exact ih _ hs

theorem isExpired_of_dead {sid : SessionId} (hrow : sid ∈ b.sessions.map (·.sessionId))
    (hdead : ¬ live b sid = true) : b.isExpired sid = true := by
  obtain ⟨s, hs, hsid⟩ := List.mem_map.mp hrow
  obtain ⟨x, hx⟩ := Option.isSome_iff_exists.mp
    (List.find?_isSome (p := fun s => s.sessionId = sid).mpr ⟨s, hs, decide_eq_true hsid⟩)
  have hxid : x.sessionId = sid := by simpa using List.find?_some hx
  rw [Broker.isExpired, Broker.session?, hx]
  cases hexpired : x.expiredAt with
  | some t => simp [hexpired]
  | none =>
    exact absurd (List.any_eq_true.mpr ⟨x, List.mem_of_find?_eq_some hx,
      decide_eq_true ⟨hxid, hexpired⟩⟩) hdead

/-- A sweep expires the sessions that are due. -/
theorem sweep_expires {sid : SessionId} (h : dueToExpire b mom.now sid = true) :
    (sweep env mom b).2.isExpired sid = true := by
  obtain ⟨s, hs, hsid⟩ := List.any_eq_true.mp h
  obtain rfl := of_decide_eq_true hsid
  obtain ⟨_, _, _, honly₁⟩ := @reapAckTimeouts_only env mom b
  set b₁ := (reapAckTimeouts env mom b).db with hb₁
  obtain ⟨_, _, _, honly₂⟩ := @reapAcceptanceTtl_only mom.now b₁
  set b₂ := (reapAcceptanceTtl mom.now b₁).2 with hb₂
  have hsessions : b₂.sessions = b.sessions := by rw [honly₂, honly₁]
  have hdue : s ∈ b₂.dueSessions mom.now := by
    rw [mem_dueSessions, hsessions]
    exact mem_dueSessions.mp hs
  have hpass : Dying b₂ (reapExpiredSessions mom.now b₂).2 :=
    IsFrame.foldl Prod.snd _ _ fun _ _ _ => expireSession_dying
  have hlast : Dying (reapExpiredSessions mom.now b₂).2 (sweep env mom b).2 := by
    rw [sweep_snd, ← hb₁, ← hb₂]
    exact reapStalePendingNames_dying
  refine isExpired_of_dead ?_ fun hlive =>
    expireSession_dead _ (0, b₂) hdue (hlast.live _ hlive)
  rw [hlast.ids, hpass.ids, hsessions]
  exact List.mem_map_of_mem (mem_dueSessions.mp hs).1

end Proof
end XBus
