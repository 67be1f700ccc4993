import XBus.Proof.Presentation

/-!
# What a pull answers

The bodies a pull returns are new at the caller's epoch: before it there was no first
injection row of any of them at that epoch, after it there is one of each, and no body is
returned twice. `Presents` says this of a list of message ids; loops compose it, and the
four pulls are followed to it from their code.
-/

set_option autoImplicit false

namespace XBus
namespace Proof

open Lib

variable {env : Env} {now : Iso} {auth : SessionAuthority} {sid : SessionId} {epoch : Nat}
  {b b' b'' : Broker}

/-- The row of the first presentation of a message to a session at an epoch. -/
structure FirstRow (sid : SessionId) (epoch : Nat) (mid : Id) (i : Injection) : Prop where
  messageId : i.messageId = mid
  recipient : i.recipientSessionId = sid
  atEpoch : i.recipientEpoch = epoch
  logical : i.logicalInjectionNumber = 1

/-- Between the two states, the messages were presented to the session for the first time at
    the epoch, each once. -/
structure Presents (sid : SessionId) (epoch : Nat) (b b' : Broker) (mids : List Id) : Prop where
  kept : ∀ i ∈ b.injections, i ∈ b'.injections
  nodup : mids.Nodup
  fresh : ∀ mid ∈ mids, ∀ i ∈ b.injections, ¬ (i.messageId = mid ∧
    i.recipientEpoch = epoch ∧ i.logicalInjectionNumber = 1)
  first : ∀ mid ∈ mids, ∃ i ∈ b'.injections, FirstRow sid epoch mid i

/-- The injection id stands for a row of the message, the session and the epoch. -/
def Carries (b : Broker) (sid : SessionId) (epoch : Nat) (mid : Id) (injectionId : Option Id) :
    Prop :=
  ∃ i ∈ b.injections, injectionId = some i.injectionId ∧ i.messageId = mid ∧
    i.recipientSessionId = sid ∧ i.recipientEpoch = epoch

theorem Carries.mono {mid : Id} {o : Option Id} (h : Carries b sid epoch mid o)
    (kept : ∀ i ∈ b.injections, i ∈ b'.injections) : Carries b' sid epoch mid o := by
  obtain ⟨i, hi, hrow⟩ := h
  exact ⟨i, kept i hi, hrow⟩

namespace Presents

theorem nil (kept : ∀ i ∈ b.injections, i ∈ b'.injections) : Presents sid epoch b b' [] :=
  ⟨kept, List.nodup_nil, by simp, by simp⟩

/-- What is presented first has a row by the time of the rest, so the rest does not present
    it again. -/
theorem append {mids mids' : List Id} (h : Presents sid epoch b b' mids)
    (h' : Presents sid epoch b' b'' mids') : Presents sid epoch b b'' (mids ++ mids') := by
  refine ⟨fun i hi => h'.kept i (h.kept i hi), ?_, fun mid hmid i hi => ?_, fun mid hmid => ?_⟩
  · rw [List.nodup_append]
    refine ⟨h.nodup, h'.nodup, fun mid hmid mid' hmid' heq => ?_⟩
    obtain ⟨i, hi, hrow⟩ := h.first mid hmid
    exact h'.fresh mid' hmid' i hi ⟨hrow.messageId.trans heq, hrow.atEpoch, hrow.logical⟩
  · rcases List.mem_append.mp hmid with hmid | hmid
    · exact h.fresh mid hmid i hi
    · exact h'.fresh mid hmid i (h.kept i hi)
  · rcases List.mem_append.mp hmid with hmid | hmid
    · obtain ⟨i, hi, hrow⟩ := h.first mid hmid
      exact ⟨i, h'.kept i hi, hrow⟩
    · exact h'.first mid hmid

/-- Fewer messages, in any order, as long as none is there twice. -/
theorem subset {mids mids' : List Id} (h : Presents sid epoch b b' mids)
    (hsub : ∀ m ∈ mids', m ∈ mids)
    (hnd : mids'.Nodup) : Presents sid epoch b b' mids' :=
  ⟨h.kept, hnd, fun mid hmid => h.fresh mid (hsub mid hmid),
    fun mid hmid => h.first mid (hsub mid hmid)⟩

theorem congr_left {mids : List Id} {b₀ : Broker} (h : Presents sid epoch b b' mids)
    (heq : b.injections = b₀.injections) : Presents sid epoch b₀ b' mids :=
  ⟨heq ▸ h.kept, h.nodup, heq ▸ h.fresh, h.first⟩

theorem congr_right {mids : List Id} (h : Presents sid epoch b b' mids)
    (heq : b''.injections = b'.injections) : Presents sid epoch b b'' mids :=
  ⟨heq ▸ h.kept, h.nodup, h.fresh, heq ▸ h.first⟩

end Presents

/-- One round of a loop: the message is presented exactly if an id comes back. -/
theorem InjectSpec.presents {ck : CheckpointId} {m : Message} {r : Option Id × Broker}
    (h : InjectSpec env now auth ck m b r) :
    Presents auth.sessionId auth.epoch b r.2 (r.1.toList.map fun _ => m.messageId) ∧
      ∀ id, r.1 = some id → Carries r.2 auth.sessionId auth.epoch m.messageId (some id) := by
  cases hid : r.1 with
  | none => exact ⟨.nil fun i hi => h.injections_mono hi, fun id h => by cases h⟩
  | some id =>
    obtain ⟨-, -, hinj, hnew⟩ := h.presented id hid
    have hmem : pulledRow env now auth ck m.messageId id ∈ r.2.injections := by
      rw [hinj]
      exact List.mem_append_right _ (List.mem_singleton_self _)
    refine ⟨⟨fun i hi => h.injections_mono hi, List.nodup_singleton _, fun mid hmid i hi => ?_,
      fun mid hmid => ⟨_, hmem, ?_⟩⟩, fun id' hid' => ?_⟩
    · rw [List.mem_singleton.mp hmid]
      exact hnew i hi
    · rw [List.mem_singleton.mp hmid]
      exact ⟨rfl, rfl, rfl, rfl⟩
    · obtain rfl := Option.some.inj hid'
      exact ⟨_, hmem, rfl, rfl, rfl, rfl⟩

/-! ## The hook pulls -/

/-- What a pull answers: new bodies, each with the id of its row. -/
structure Answers (sid : SessionId) (epoch : Nat) (b b' : Broker) (ms : List PendingMessage) :
    Prop where
  presents : Presents sid epoch b b' (ms.map (·.messageId))
  carries : ∀ m ∈ ms, Carries b' sid epoch m.messageId m.injectionId

theorem Answers.nil (kept : ∀ i ∈ b.injections, i ∈ b'.injections) : Answers sid epoch b b' [] :=
  ⟨.nil kept, by simp⟩

theorem injectAll_answers {ck : CheckpointId} {audited : Bool} (ms : List Message) (b : Broker) :
    Answers auth.sessionId auth.epoch b (injectAll env now auth ck audited ms b).2
      (injectAll env now auth ck audited ms b).1 := by
  induction ms generalizing b with
  | nil => exact .nil fun _ hi => hi
  | cons m ms ih =>
    obtain ⟨hone, hcarries⟩ := (injectOne_spec env now auth ck audited m b).presents
    have hrest := ih (injectOne env now auth ck audited m b).2
    simp only [injectAll]
    cases hid : (injectOne env now auth ck audited m b).1 with
    | none =>
      rw [hid] at hone
      exact ⟨hone.append hrest.presents, hrest.carries⟩
    | some id =>
      rw [hid] at hone
      refine ⟨hone.append hrest.presents, fun x hx => ?_⟩
      rcases List.mem_cons.mp hx with rfl | hx
      · exact (hcarries id hid).mono hrest.presents.kept
      · exact hrest.carries x hx

theorem Answers.congr {ms : List PendingMessage} (h : Answers sid epoch b b' ms)
    (heq : b''.injections = b'.injections) : Answers sid epoch b b'' ms :=
  ⟨h.presents.congr_right heq, fun m hm => (h.carries m hm).mono fun _ hi => heq ▸ hi⟩

theorem pullForced_ok {ck : CheckpointId} {limit : Nat} {audited : Bool}
    {ms : List PendingMessage} (h : pullForced env now auth ck limit audited b = (.ok ms, b')) :
    Answers auth.sessionId auth.epoch b b' ms := by
  simp only [pullForced, Call.transaction_ok, Call.act_ok] at h
  obtain ⟨rfl, rfl⟩ := Prod.mk.inj h
  refine (injectAll_answers _ b).congr ?_
  split
  · rfl
  · rfl

theorem checkpointPull_ok {ck : CheckpointId} {limit : Nat} {ms : List PendingMessage}
    (h : checkpointPull env now auth ck limit b = (.ok ms, b')) :
    Answers auth.sessionId auth.epoch b b' ms := by
  simp only [checkpointPull, assertAllowed, Call.bind_ok, Call.require_ok, assertCurrentEpoch_ok,
    Call.get_bind] at h
  obtain ⟨_, _, ⟨_, rfl⟩, _, _, ⟨_, rfl⟩, h⟩ := h
  split at h
  · split at h
    · exact pullForced_ok h
    · obtain ⟨rfl, rfl⟩ := Call.pure_ok.mp h
      exact .nil fun _ hi => hi
  · simp only [Call.modify_bind, Call.pure_ok] at h
    obtain ⟨rfl, rfl⟩ := h
    exact .nil fun _ hi => hi

theorem processNext_ok {ck : CheckpointId} {ms : List PendingMessage}
    (h : processNext env now auth ck b = (.ok ms, b')) :
    Answers auth.sessionId auth.epoch b b' ms := by
  simp only [processNext, assertAllowed, Call.bind_ok, Call.require_ok, assertCurrentEpoch_ok,
    Call.get_bind] at h
  obtain ⟨_, _, ⟨_, rfl⟩, _, _, ⟨_, rfl⟩, h⟩ := h
  split at h
  · exact pullForced_ok h
  · simp only [Call.modify_bind, Call.pure_ok] at h
    obtain ⟨rfl, rfl⟩ := h
    exact .nil fun _ hi => hi

/-- An inbox view is a pull in the hook role, and then what was presented before. -/
theorem inboxView_fresh {ck : CheckpointId} {limit : Nat} {es : List InboxEntry}
    (h : inboxView env now auth ck limit b = (.ok es, b')) :
    ∃ ms, checkpointPull env now { auth with role := .hook } ck limit b = (.ok ms, b') ∧
      es = ms.map (·.freshEntry) ++ (b'.recoveredEntries auth limit now).filter fun e =>
        ¬ (ms.any fun m => m.messageId = e.messageId) := by
  simp only [inboxView, assertAllowed, Call.bind_ok, Call.require_ok, assertCurrentEpoch_ok,
    Call.get_bind, Call.pure_ok] at h
  obtain ⟨_, _, ⟨_, rfl⟩, _, _, ⟨_, rfl⟩, ms, _, hpull, rfl, rfl⟩ := h
  exact ⟨ms, hpull, rfl⟩

/-- Of the entries of an inbox view, exactly the fresh ones have a body. -/
theorem filter_bodyIncluded {ms : List PendingMessage} {limit : Nat} {p : InboxEntry → Bool} :
    (ms.map (·.freshEntry) ++ (b.recoveredEntries auth limit now).filter p).filter
      (·.bodyIncluded) = ms.map (·.freshEntry) := by
  rw [List.filter_append]
  have hfresh : (ms.map (·.freshEntry)).filter (·.bodyIncluded) = ms.map (·.freshEntry) := by
    rw [List.filter_eq_self]
    intro e he
    obtain ⟨m, -, rfl⟩ := List.mem_map.mp he
    rfl
  rw [hfresh, List.append_right_eq_self, List.filter_eq_nil_iff]
  intro e he
  obtain ⟨dm, -, rfl⟩ := List.mem_map.mp (List.mem_of_mem_filter he)
  simp [InboxEntry.bodyIncluded, Broker.recoveredEntry]

theorem inboxView_ok {ck : CheckpointId} {limit : Nat} {es : List InboxEntry}
    (h : inboxView env now auth ck limit b = (.ok es, b')) :
    ∃ ms, Answers auth.sessionId auth.epoch b b' ms ∧
      es.filter (·.bodyIncluded) = ms.map (·.freshEntry) := by
  obtain ⟨ms, hpull, rfl⟩ := inboxView_fresh h
  have hanswers := checkpointPull_ok hpull
  exact ⟨ms, hanswers, filter_bodyIncluded⟩

/-! ## The daemon's pull -/

theorem markInjectedFor_presents (mids : List Id) (b : Broker) :
    Presents auth.sessionId auth.epoch b (markInjectedFor env now auth mids b).2
      (markInjectedFor env now auth mids b).1 := by
  induction mids generalizing b with
  | nil => exact .nil fun _ hi => hi
  | cons mid mids ih =>
    simp only [markInjectedFor]
    cases hmsg : b.message? mid with
    | none => exact ih b
    | some m =>
      have hid : m.messageId = mid := by simpa using List.find?_some hmsg
      obtain ⟨hone, -⟩ :=
        (injectOne_spec env now auth (.minted "mark-" b.nextId) true m b.mint).presents
      have hrest := ih (injectOne env now auth (.minted "mark-" b.nextId) true m b.mint).2
      have hsame : b.mint.injections = b.injections := rfl
      have hall := (hone.append hrest).congr_left hsame
      dsimp only
      split
      · rename_i hnone
        rwa [hnone] at hall
      · rename_i id hsome
        rw [hsome] at hall
        exact hid ▸ hall

theorem MailInv.eligible_nodup (inv : MailInv b) :
    ((b.eligible sid now).map (·.messageId)).Nodup := by
  refine ((List.perm_insertionSort _ _).map _).nodup_iff.mpr ?_
  refine List.Sublist.nodup ?_ inv.deliveryIds
  refine List.Sublist.trans (List.filter_sublist.map _) ?_
  refine List.Sublist.trans (map_filterMap_sublist (fun d m hm => ?_) _)
    (List.filter_sublist.map _)
  simpa using List.find?_some hm

/-- A pull selects no message twice. -/
theorem MailInv.pending_nodup (inv : MailInv b) {limit : Nat} :
    ((b.pendingForSessionId sid limit now).map (·.messageId)).Nodup :=
  inv.eligible_nodup.sublist ((List.take_sublist _ _).map _)

theorem injectionIdFor_some {mid id : Id} (h : b.injectionIdFor mid epoch = some id) :
    ∃ i ∈ b.injections, i.injectionId = id ∧ i.messageId = mid ∧ i.recipientEpoch = epoch := by
  obtain ⟨i, hi, rfl⟩ := Option.map_eq_some_iff.mp h
  have hmem := List.mem_of_head? hi
  rw [List.mem_insertionSort] at hmem
  obtain ⟨hi, hrow⟩ := List.mem_filter.mp hmem
  simp only [decide_eq_true_eq] at hrow
  exact ⟨i, hi, rfl, hrow⟩

/-- The daemon's pull answers the messages it marked, each with the id of a row of the
    message at the caller's epoch. That the row is the caller's is the mail invariant. -/
theorem daemonCheckpointPull_ok {limit : Nat} {ms : List PendingMessage} (inv : MailInv b)
    (inv' : MailInv b') (h : daemonCheckpointPull env now auth limit b = (.ok ms, b')) :
    Answers auth.sessionId auth.epoch b b' ms := by
  simp only [daemonCheckpointPull, pendingForSession, markInjected, Call.bind_ok,
    assertCurrentEpoch_ok, Call.get_bind, Call.pure_ok, Call.transaction_ok, Call.act_ok,
    Call.modify_bind] at h
  obtain ⟨_, _, ⟨_, _, ⟨_, rfl⟩, rfl, rfl⟩, marked, b₁, ⟨_, _, ⟨_, rfl⟩, hmark⟩, rfl, rfl⟩ := h
  set pending := b.pendingForSessionId auth.sessionId limit now
  set b₂ := if marked.isEmpty then b₁ else b₁.refreshMeaningfulActivity auth.sessionId now
  have hinj : b₂.injections = b₁.injections := by
    show (if marked.isEmpty then b₁ else _).injections = _
    split
    · rfl
    · rfl
  have hmarked : b₂.injections =
      (markInjectedFor env now auth (pending.map (·.messageId)) b).2.injections := by
    rw [hmark]
    exact hinj
  have hpres := (markInjectedFor_presents (pending.map (·.messageId)) b).congr_right hmarked
  rw [hmark] at hpres
  -- What comes back is some of the selected messages, and all of it was marked.
  have hback (m : PendingMessage) (hm : m ∈ b₂.markedBodies auth marked pending) :
      ∃ x ∈ pending, x.messageId ∈ marked ∧
        ∃ id, b₂.injectionIdFor x.messageId auth.epoch = some id ∧
          m = (rowToPending x).withInjection id := by
    obtain ⟨x, hx, hsome⟩ := List.mem_filterMap.mp hm
    obtain ⟨hmem, hmarked⟩ := List.mem_filter.mp hx
    obtain ⟨id, hid, rfl⟩ := Option.map_eq_some_iff.mp hsome
    exact ⟨x, hmem, by simpa using hmarked, id, hid, rfl⟩
  refine ⟨hpres.subset (fun mid hmid => ?_) ?_, fun m hm => ?_⟩
  · obtain ⟨m, hm, rfl⟩ := List.mem_map.mp hmid
    obtain ⟨x, -, hmarked, id, -, rfl⟩ := hback m hm
    exact hmarked
  · have hnodup : (pending.map (·.messageId)).Nodup := inv.pending_nodup
    refine List.Sublist.nodup ?_ hnodup
    refine List.Sublist.trans (map_filterMap_sublist (fun x m hm => ?_) _)
      (List.filter_sublist.map _)
    obtain ⟨id, -, rfl⟩ := Option.map_eq_some_iff.mp hm
    rfl
  · obtain ⟨x, -, hmarked, id, hid, rfl⟩ := hback m hm
    obtain ⟨i, hi, rfl, him, hie⟩ := injectionIdFor_some hid
    obtain ⟨i₁, hi₁, hfirst⟩ := hpres.first x.messageId hmarked
    have hto : i.recipientSessionId = i₁.recipientSessionId := inv'.addressed_unique
      (inv'.rows i hi) (him.trans hfirst.messageId.symm ▸ inv'.rows i₁ hi₁)
    exact ⟨i, hi, rfl, him, hto.trans hfirst.recipient, hie⟩

/-! ## What a pull selects -/

/-- The answer of a pull is made of some of the rows it selected, in their order. -/
inductive Selected : List Message → List PendingMessage → Prop
  | nil : Selected [] []
  | skip (m : Message) {rows : List Message} {ms : List PendingMessage} (h : Selected rows ms) :
      Selected (m :: rows) ms
  | keep (m : Message) (id : Id) {rows : List Message} {ms : List PendingMessage}
      (h : Selected rows ms) : Selected (m :: rows) ((rowToPending m).withInjection id :: ms)

theorem Selected.none : ∀ rows : List Message, Selected rows []
  | [] => .nil
  | m :: rows => .skip m (Selected.none rows)

theorem Selected.mem {rows : List Message} {ms : List PendingMessage} (h : Selected rows ms)
    {x : PendingMessage} (hx : x ∈ ms) : ∃ m ∈ rows, x.messageId = m.messageId := by
  induction h with
  | nil => cases hx
  | skip m _ ih =>
    obtain ⟨y, hy, hid⟩ := ih hx
    exact ⟨y, List.mem_cons_of_mem m hy, hid⟩
  | keep m id _ ih =>
    rcases List.mem_cons.mp hx with rfl | hx
    · exact ⟨m, List.mem_cons_self, rfl⟩
    · obtain ⟨y, hy, hid⟩ := ih hx
      exact ⟨y, List.mem_cons_of_mem m hy, hid⟩

theorem injectAll_selected {ck : CheckpointId} {audited : Bool} (rows : List Message) (b : Broker) :
    Selected rows (injectAll env now auth ck audited rows b).1 := by
  induction rows generalizing b with
  | nil => exact .nil
  | cons m rows ih =>
    simp only [injectAll]
    split
    · exact (ih _).skip m
    · exact (ih _).keep m _

theorem pullForced_selected {ck : CheckpointId} {limit : Nat} {audited : Bool}
    {ms : List PendingMessage} (h : pullForced env now auth ck limit audited b = (.ok ms, b')) :
    Selected (b.pendingForSessionId auth.sessionId (min (max 1 limit) 50) now) ms := by
  simp only [pullForced, Call.transaction_ok, Call.act_ok] at h
  obtain ⟨rfl, -⟩ := Prod.mk.inj h
  exact injectAll_selected _ b

theorem checkpointPull_selected {ck : CheckpointId} {limit : Nat} {ms : List PendingMessage}
    (h : checkpointPull env now auth ck limit b = (.ok ms, b')) :
    Selected (b.pendingForSessionId auth.sessionId (min (max 1 limit) 50) now) ms := by
  simp only [checkpointPull, assertAllowed, Call.bind_ok, Call.require_ok, assertCurrentEpoch_ok,
    Call.get_bind] at h
  obtain ⟨_, _, ⟨_, rfl⟩, _, _, ⟨_, rfl⟩, h⟩ := h
  split at h
  · split at h
    · exact pullForced_selected h
    · obtain ⟨rfl, -⟩ := Call.pure_ok.mp h
      exact .none _
  · simp only [Call.modify_bind, Call.pure_ok] at h
    obtain ⟨rfl, -⟩ := h
    exact .none _

theorem processNext_selected {ck : CheckpointId} {ms : List PendingMessage}
    (h : processNext env now auth ck b = (.ok ms, b')) :
    Selected (b.pendingForSessionId auth.sessionId 1 now) ms := by
  simp only [processNext, assertAllowed, Call.bind_ok, Call.require_ok, assertCurrentEpoch_ok,
    Call.get_bind] at h
  obtain ⟨_, _, ⟨_, rfl⟩, _, _, ⟨_, rfl⟩, h⟩ := h
  split at h
  · exact pullForced_selected h
  · simp only [Call.modify_bind, Call.pure_ok] at h
    obtain ⟨rfl, -⟩ := h
    exact .none _

theorem inboxView_selected {ck : CheckpointId} {limit : Nat} {es : List InboxEntry}
    (h : inboxView env now auth ck limit b = (.ok es, b')) :
    ∃ ms, Selected (b.pendingForSessionId auth.sessionId (min (max 1 limit) 50) now) ms ∧
      es.filter (·.bodyIncluded) = ms.map (·.freshEntry) := by
  obtain ⟨ms, hpull, rfl⟩ := inboxView_fresh h
  have hselected := checkpointPull_selected hpull
  exact ⟨ms, hselected, filter_bodyIncluded⟩

theorem markedBodies_selected {marked : List Id} (rows : List Message) :
    Selected rows (b.markedBodies auth marked rows) := by
  induction rows with
  | nil => exact .nil
  | cons m rows ih =>
    unfold Broker.markedBodies at ih ⊢
    rw [List.filter_cons]
    split
    · rw [List.filterMap_cons]
      cases b.injectionIdFor m.messageId auth.epoch with
      | none => exact ih.skip m
      | some id => exact ih.keep m id
    · exact ih.skip m

theorem daemonCheckpointPull_selected {limit : Nat} {ms : List PendingMessage}
    (h : daemonCheckpointPull env now auth limit b = (.ok ms, b')) :
    Selected (b.pendingForSessionId auth.sessionId limit now) ms := by
  simp only [daemonCheckpointPull, pendingForSession, markInjected, Call.bind_ok,
    assertCurrentEpoch_ok, Call.get_bind, Call.pure_ok, Call.transaction_ok, Call.act_ok,
    Call.modify_bind] at h
  obtain ⟨_, _, ⟨_, _, ⟨_, rfl⟩, rfl, rfl⟩, marked, b₁, ⟨_, _, ⟨_, rfl⟩, -⟩, rfl, -⟩ := h
  exact markedBodies_selected _

/-- What is selected waits. -/
theorem waiting_of_mem_pending {sid : SessionId} {limit : Nat} {m : Message}
    (h : m ∈ b.pendingForSessionId sid limit now) :
    ∃ d ∈ b.deliveries, d.messageId = m.messageId ∧ d.state.waiting = true := by
  obtain ⟨d, hd, hid, -, hwaits⟩ := delivery_of_mem_pending h
  exact ⟨d, hd, hid, hwaits⟩

end Proof
end XBus
