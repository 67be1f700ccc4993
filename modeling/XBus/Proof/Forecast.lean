import XBus.Proof.Rounds
import XBus.Proof.Expiry

/-!
# What a pull will answer

The answer of a pull, read off the state it starts in. The pulled messages are the pending ones up
to the limit; of these, the bodies of those that were not shown before come back, and an inbox view
adds what stands presented then. `Broker.foreseen` is that answer but for the ids of the injections,
which do not exist yet: it has `0` in their place, and `Response.blur` puts `0` in the place of
theirs.

`onRequest_foreseen` is the result: no pull answers anything else.
-/

set_option autoImplicit false

namespace XBus

open Lib

/-! ## The forecast -/

/-- The checkpoint id a pull names. -/
def Request.checkpoint : Request → Option String
  | .checkpointPullHook ck _ | .inbox _ ck _ => ck
  | _ => none

/-- The messages a pull goes through. -/
def Broker.pulled (b : Broker) (auth : SessionAuthority) (now : Iso) (r : Request) :
    List Message :=
  match r with
  | .checkpointPull limit => b.pendingForSessionId auth.sessionId (limit.getD 50) now
  | .checkpointPullHook _ limit =>
    if b.gateOpen r auth.sessionId then
      b.pendingForSessionId auth.sessionId (min (max 1 (limit.getD 10)) 50) now
    else []
  | .inbox true _ limit =>
    if b.gateOpen r auth.sessionId then
      b.pendingForSessionId auth.sessionId (min (max 1 (limit.getD 50)) 50) now
    else []
  | .processNext =>
    if b.gateOpen r auth.sessionId then b.pendingForSessionId auth.sessionId 1 now else []
  | _ => []

/-- Those of them whose body comes back. -/
def Broker.fresh (b : Broker) (auth : SessionAuthority) (now : Iso) (r : Request) :
    List Message :=
  (b.pulled auth now r).filter fun m => ! b.shown auth.epoch r.checkpoint m.messageId

/-- Whether an inbox view lists the message as presented: it stands presented before, or this
    view pulls it and it does not complete on the spot. -/
def Broker.standing (b : Broker) (auth : SessionAuthority) (now : Iso) (r : Request)
    (dm : Delivery × Message) : Bool :=
  if (b.pulled auth now r).any fun m => m.messageId = dm.2.messageId then
    b.shown auth.epoch r.checkpoint dm.2.messageId || dm.2.requiresAck || dm.2.requiresReply
  else dm.1.state = .transportWritten ∨ (dm.1.state = .accepted ∧ dm.2.requiresReply ∧
    dm.1.targetGeneration.any fun g => g < auth.epoch)

/-- The entry with the ids of injections put out. -/
def InboxEntry.blur (e : InboxEntry) : InboxEntry :=
  { e with injectionId := e.injectionId.map fun _ => 0 }

/-- The entries without a body of an inbox view. -/
def Broker.recovered (b : Broker) (auth : SessionAuthority) (now : Iso) (r : Request)
    (limit : Nat) : List InboxEntry :=
  ((((((b.deliveries.filter fun d => d.recipientSessionId = auth.sessionId).filterMap fun d =>
      (b.message? d.messageId).map fun m => (d, m)).filter fun dm =>
      b.standing auth now r dm ∧ dm.2.unexpired now).insertionSort
    fun x y => x.2.recipientSequence ≤ y.2.recipientSequence).take limit).filter fun dm =>
    ! (b.fresh auth now r).any fun m => m.messageId = dm.2.messageId).map
      fun dm => (b.recoveredEntry auth.epoch dm.1 dm.2).blur

/-- The entry of an explicit redelivery. -/
def redeliveredEntry (m : Message) : InboxEntry :=
  { (rowToPending m).freshEntry with
    injectionId := some 0, state := .contextInjectedUnacknowledged, bodyAlreadyPresented := true }

/-- What a pull will answer. -/
def Broker.foreseen (b : Broker) (auth : SessionAuthority) (now : Iso) (r : Request) : Response :=
  match r with
  | .checkpointPull _ | .checkpointPullHook _ _ | .processNext =>
    .bodies ((b.fresh auth now r).map freshBody)
  | .inbox true _ limit =>
    .inbox ((b.fresh auth now r).map (fun m => (freshBody m).freshEntry) ++
      b.recovered auth now r (limit.getD 50))
  | .inbox false _ limit => .listed (b.pendingForSessionId auth.sessionId (limit.getD 50) now)
  | .redeliver mid => .redelivered ((b.message? mid).map redeliveredEntry)
  | _ => .done

/-- An answer with the ids of injections put out. -/
def Response.blur : Response → Response
  | .bodies ms => .bodies (ms.map (·.blur))
  | .inbox es => .inbox (es.map (·.blur))
  | .redelivered e => .redelivered (e.map (·.blur))
  | r => r

namespace Proof

variable {env : Env} {mom : Moment} {now : Iso} {auth : SessionAuthority} {ck : CheckpointId}
  {audited : Bool} {b b' : Broker}

/-! ## What stands presented after a pull -/

section Recovered

variable {rows : List Message} {seen : Id → Prop} [DecidablePred seen] {ms : List PendingMessage}

/-- Deliveries to a session with their messages. -/
def mailOf (b : Broker) (sid : SessionId) : List (Delivery × Message) :=
  (b.deliveries.filter fun d => d.recipientSessionId = sid).filterMap fun d =>
    (b.message? d.messageId).map fun m => (d, m)

theorem mem_mailOf {sid : SessionId} {dm : Delivery × Message} (h : dm ∈ mailOf b sid) :
    dm.1 ∈ b.deliveries ∧ b.message? dm.1.messageId = some dm.2 ∧
      dm.2.messageId = dm.1.messageId := by
  obtain ⟨d, hd, hsome⟩ := List.mem_filterMap.mp h
  obtain ⟨m, hm, rfl⟩ := Option.map_eq_some_iff.mp hsome
  exact ⟨List.mem_of_mem_filter hd, hm, by simpa using List.find?_some hm⟩

theorem mailOf_map {g : Delivery → Delivery} {sid : SessionId} (hmsgs : b'.messages = b.messages)
    (hdel : b'.deliveries = b.deliveries.map g) (hid : ∀ d ∈ b.deliveries,
      (g d).messageId = d.messageId ∧ (g d).recipientSessionId = d.recipientSessionId) :
    mailOf b' sid = (mailOf b sid).map fun dm => (g dm.1, dm.2) := by
  have hfound (mid : Id) : b'.message? mid = b.message? mid := by
    rw [Broker.message?, Broker.message?, hmsgs]
  unfold mailOf
  rw [hdel, List.filter_map, List.filterMap_map, List.map_filterMap]
  have hkept : (b.deliveries.filter ((fun d => decide (d.recipientSessionId = sid)) ∘ g)) =
      b.deliveries.filter fun d => d.recipientSessionId = sid := by
    refine List.filter_congr fun d hd => ?_
    simp [(hid d hd).2]
  rw [hkept]
  refine List.filterMap_congr fun d hd => ?_
  simp only [Function.comp_def, (hid d (List.mem_of_mem_filter hd)).1, hfound, Option.map_map]

/-- Whether the message of a row stands presented, for a pull through `rows`. -/
def standsFor (rows : List Message) (seen : Id → Prop) [DecidablePred seen] (epoch : Nat)
    (dm : Delivery × Message) : Bool :=
  if rows.any fun m => m.messageId = dm.2.messageId then
    seen dm.2.messageId || dm.2.requiresAck || dm.2.requiresReply
  else dm.1.state = .transportWritten ∨ (dm.1.state = .accepted ∧ dm.2.requiresReply ∧
    dm.1.targetGeneration.any fun g => g < epoch)

/-- A delivery whose message is pulled waits. -/
theorem Pullable.waiting (h : Pullable b rows) (inv : MailInv b) {m : Message} (hm : m ∈ rows)
    {d : Delivery} (hd : d ∈ b.deliveries) (hid : m.messageId = d.messageId) :
    d.state.waiting = true := by
  obtain ⟨d', hd', hid', hwait⟩ := h.waits m hm
  rw [inv.delivery_eq hd hd' (hid.symm.trans hid'.symm)]
  exact hwait

theorem Settles.accepted (inv : MailInv b) (hpull : Pullable b rows) {d d' : Delivery}
    (hd : d ∈ b.deliveries) (h : Settles rows seen d d') :
    d'.state = .accepted ↔ d.state = .accepted := by
  by_cases hrow : ∃ m ∈ rows, m.messageId = d.messageId
  · obtain ⟨m, hm, hid⟩ := hrow
    have hwait := hpull.waiting inv hm hd hid
    have hstate := h.state m hm hid hwait
    have hnot : d.state ≠ .accepted := by
      intro hacc
      simp [hacc, DeliveryState.waiting] at hwait
    refine ⟨fun hacc => ?_, fun hacc => absurd hacc hnot⟩
    rw [hstate, landed] at hacc
    split at hacc <;> cases hacc
  · rw [h.other fun m hm hid => hrow ⟨m, hm, hid⟩]

/-- After the pull a message stands presented exactly if it was to. -/
theorem Settles.stands (inv : MailInv b) (hpull : Pullable b rows) {dm : Delivery × Message}
    {d' : Delivery} {sid : SessionId} {epoch : Nat} (hdm : dm ∈ mailOf b sid)
    (h : Settles rows seen dm.1 d') :
    (decide (d'.state = .transportWritten ∨ (d'.state = .accepted ∧ dm.2.requiresReply ∧
      d'.targetGeneration.any fun g => g < epoch))) = standsFor rows seen epoch dm := by
  obtain ⟨hd, hfound, hid⟩ := mem_mailOf hdm
  unfold standsFor
  by_cases hrow : ∃ m ∈ rows, m.messageId = dm.1.messageId
  · obtain ⟨m, hm, hmid⟩ := hrow
    have hmsg : m = dm.2 := Option.some.inj ((hpull.found m hm).symm.trans (hmid ▸ hfound))
    have hany : (rows.any fun m => m.messageId = dm.2.messageId) = true :=
      List.any_eq_true.mpr ⟨m, hm, by simp [hmsg]⟩
    have hstate := h.state m hm hmid (hpull.waiting inv hm hd hmid)
    rw [if_pos hany, hstate, landed, hmsg]
    by_cases hstay : (decide (seen dm.2.messageId) || dm.2.requiresAck || dm.2.requiresReply) = true
    · rw [if_pos hstay, hstay]
      simp
    · rw [if_neg hstay, Bool.eq_false_iff.mpr hstay]
      simp
  · have hany : ¬ (rows.any fun m => m.messageId = dm.2.messageId) = true := by
      intro hany
      obtain ⟨m, hm, heq⟩ := List.any_eq_true.mp hany
      exact hrow ⟨m, hm, (of_decide_eq_true heq).trans hid⟩
    rw [if_neg hany, h.other fun m hm hmid => hrow ⟨m, hm, hmid⟩]

/-- The rows of a message no body of which came back are as they were. -/
theorem Foretold.injectionIdFor (h : Foretold b rows seen ms b') {mid : Id} {epoch : Nat}
    (hmid : mid ∉ ms.map (·.messageId)) :
    b'.injectionIdFor mid epoch = b.injectionIdFor mid epoch := by
  obtain ⟨is, his, hids⟩ := h.injections
  have hnone : (is.filter fun i => i.messageId = mid ∧ i.recipientEpoch = epoch) = [] := by
    refine List.filter_eq_nil_iff.mpr fun i hi hp => hmid ?_
    rw [← (of_decide_eq_true hp).1]
    exact hids i hi
  rw [Broker.injectionIdFor, Broker.injectionIdFor, his, List.filter_append, hnone,
    List.append_nil]

/-- **The entries without a body**, read off the state before the pull. -/
theorem Foretold.recovered (inv : MailInv b) (hpull : Pullable b rows)
    (h : Foretold b rows seen ms b') {limit : Nat} :
    ((b'.recoveredEntries auth limit now).filter fun e =>
      ¬ (ms.any fun m => m.messageId = e.messageId)).map (·.blur) =
    ((((mailOf b auth.sessionId).filter fun dm =>
        standsFor rows seen auth.epoch dm ∧ dm.2.unexpired now).insertionSort
      fun x y => x.2.recipientSequence ≤ y.2.recipientSequence).take limit |>.filter fun dm =>
      ¬ (ms.any fun m => m.messageId = dm.2.messageId)).map
        fun dm => (b.recoveredEntry auth.epoch dm.1 dm.2).blur := by
  obtain ⟨g, hdel, hg⟩ := h.deliveries
  let after : Delivery × Message → Delivery × Message := fun dm => (g dm.1, dm.2)
  have hmail : mailOf b' auth.sessionId = (mailOf b auth.sessionId).map after :=
    mailOf_map h.messages hdel fun d hd => ⟨(hg d hd).messageId, (hg d hd).recipient⟩
  -- Selecting, ordering and cutting go the same way before and after.
  have hselect : ((mailOf b' auth.sessionId).filter fun dm =>
      (dm.1.state = .transportWritten ∨ (dm.1.state = .accepted ∧ dm.2.requiresReply ∧
        dm.1.targetGeneration.any fun g => g < auth.epoch)) ∧ dm.2.unexpired now) =
      ((mailOf b auth.sessionId).filter fun dm =>
        standsFor rows seen auth.epoch dm ∧ dm.2.unexpired now).map after := by
    rw [hmail, List.filter_map]
    congr 1
    refine List.filter_congr fun dm hdm => ?_
    have hstands : _ = standsFor rows seen auth.epoch dm :=
      (hg dm.1 (mem_mailOf hdm).1).stands inv hpull hdm
    simp only [Function.comp_apply, after, ← hstands, decide_eq_true_eq]
  have hsort := List.map_insertionSort
    (fun x y : Delivery × Message => x.2.recipientSequence ≤ y.2.recipientSequence)
    (fun x y : Delivery × Message => x.2.recipientSequence ≤ y.2.recipientSequence) after
    ((mailOf b auth.sessionId).filter fun dm =>
        standsFor rows seen auth.epoch dm ∧ dm.2.unexpired now) fun _ _ _ _ => Iff.rfl
  have hrows : b'.recoveredEntries auth limit now =
      ((((mailOf b auth.sessionId).filter fun dm =>
        standsFor rows seen auth.epoch dm ∧ dm.2.unexpired now).insertionSort
      fun x y => x.2.recipientSequence ≤ y.2.recipientSequence).take limit).map
        fun dm => b'.recoveredEntry auth.epoch (g dm.1) dm.2 := by
    show (((((mailOf b' auth.sessionId).filter _).insertionSort _).take limit).map _) = _
    rw [hselect, ← hsort, ← List.map_take, List.map_map]
    rfl
  rw [hrows, List.filter_map, List.map_map]
  refine List.map_congr_left fun dm hdm => ?_
  obtain ⟨htaken, hold⟩ := List.mem_filter.mp hdm
  have hin : dm ∈ mailOf b auth.sessionId := by
    have hmem := List.mem_of_mem_take htaken
    rw [List.mem_insertionSort] at hmem
    exact List.mem_of_mem_filter hmem
  obtain ⟨hd, -, hid⟩ := mem_mailOf hin
  have hnot : dm.2.messageId ∉ ms.map (·.messageId) := by
    intro hmem
    obtain ⟨m, hm, heq⟩ := List.mem_map.mp hmem
    refine of_decide_eq_true hold (List.any_eq_true.mpr ⟨m, hm, ?_⟩)
    exact decide_eq_true heq
  have hacc := (hg dm.1 hd).accepted inv hpull hd
  simp only [Function.comp_apply, Broker.recoveredEntry, h.injectionIdFor hnot, hacc]

theorem Foretold.congr {seen' : Id → Prop} [DecidablePred seen'] (h : Foretold b rows seen ms b')
    (hseen : ∀ mid, seen mid ↔ seen' mid) : Foretold b rows seen' ms b' := by
  obtain rfl : seen = seen' := funext fun mid => propext (hseen mid)
  convert h

end Recovered

/-! ## Every pull -/

/-- The gate as the pulls ask for it. -/
theorem gateOpen_eq {r : Request} (hr : r ≠ .processNext) (sid : SessionId) :
    b.gateOpen r sid = (acceptsInjection (b.readinessOf sid) && b.autoDeliveryEnabled sid) := by
  simp [Broker.gateOpen, acceptsInjection, Broker.autoDeliveryEnabled, hr]

theorem gateOpen_step (sid : SessionId) :
    b.gateOpen .processNext sid = acceptsInjection (b.readinessOf sid) := by
  simp [Broker.gateOpen, acceptsInjection]

/-- The checkpoint id of a pull, and what was seen under it. -/
theorem checkpointOf_shown {given : Option String} {b₁ : Broker} (inv : MailInv b)
    (h : checkpointOf given b = (.ok ck, b₁)) (mid : Id) :
    SeenBefore b₁ auth ck mid ↔ b.shown auth.epoch given mid = true := by
  cases given with
  | some text =>
    obtain ⟨rfl, rfl⟩ := Call.pure_ok.mp h
    exact seenBefore_given
  | none =>
    obtain ⟨rfl, rfl⟩ := Prod.mk.inj (Call.act_ok.mp h)
    exact seenBefore_minted inv

/-- Minting a checkpoint id changes nothing a pull looks at. -/
theorem Foretold.unminted {given : Option String} {b₁ : Broker} {rows : List Message}
    {ms : List PendingMessage} (inv : MailInv b) (hck : checkpointOf given b = (.ok ck, b₁))
    (h : Foretold b₁ rows (SeenBefore b₁ auth ck) ms b') :
    Foretold b rows (fun mid => b.shown auth.epoch given mid = true) ms b' := by
  have h := h.congr (checkpointOf_shown inv hck)
  rcases checkpointOf_ok hck with rfl | rfl
  · exact h
  · exact ⟨h.bodies, h.messages, h.deliveries, h.injections⟩

/-- What a pull did, read off the state it started in. -/
structure PullForetold (b : Broker) (auth : SessionAuthority) (now : Iso) (r : Request)
    (response : Response) (b' : Broker) (ms : List PendingMessage) : Prop where
  did : Foretold b (b.pulled auth now r)
    (fun mid => b.shown auth.epoch r.checkpoint mid = true) ms b'
  bodies : response.bodyIds = ms.map (·.messageId)
  answered : response.blur = b.foreseen auth now r

theorem pulled_pullable (inv : MailInv b) (r : Request) : Pullable b (b.pulled auth now r) := by
  have hnil : Pullable b [] := ⟨List.nodup_nil, by simp, by simp⟩
  unfold Broker.pulled
  split
  · exact inv.pullable
  · split
    · exact inv.pullable
    · exact hnil
  · split
    · exact inv.pullable
    · exact hnil
  · split
    · exact inv.pullable
    · exact hnil
  · exact hnil

theorem fresh_eq (r : Request) : b.fresh auth now r = (b.pulled auth now r).filter fun m =>
    ¬ b.shown auth.epoch r.checkpoint m.messageId = true := by
  unfold Broker.fresh
  congr 1
  funext m
  simp

/-- The ids of the bodies that come back. -/
theorem Foretold.ids {r : Request} {ms : List PendingMessage}
    (h : Foretold b (b.pulled auth now r)
      (fun mid => b.shown auth.epoch r.checkpoint mid = true) ms b') :
    ms.map (·.messageId) = (b.fresh auth now r).map (·.messageId) := by
  have hkeys := congrArg (List.map (·.messageId)) h.bodies
  rw [List.map_map, List.map_map, ← fresh_eq] at hkeys
  exact hkeys

theorem Foretold.answered {r : Request} {ms : List PendingMessage}
    (h : Foretold b (b.pulled auth now r)
      (fun mid => b.shown auth.epoch r.checkpoint mid = true) ms b') :
    (Response.bodies ms).blur = .bodies ((b.fresh auth now r).map freshBody) := by
  rw [Response.blur, h.bodies, fresh_eq]

/-- The whole view: the bodies that come back, then what stands presented. -/
theorem Foretold.viewed {given : Option String} {limit : Option Nat} {ms : List PendingMessage}
    (inv : MailInv b) (h : Foretold b (b.pulled auth now (.inbox true given limit))
      (fun mid => b.shown auth.epoch given mid = true) ms b') :
    (Response.inbox (ms.map (·.freshEntry) ++
      (b'.recoveredEntries auth (limit.getD 50) now).filter fun e =>
        ¬ (ms.any fun m => m.messageId = e.messageId))).blur =
      b.foreseen auth now (.inbox true given limit) := by
  set r : Request := .inbox true given limit
  have hrecovered : _ = ((((mailOf b auth.sessionId).filter fun dm =>
      standsFor (b.pulled auth now r) _ auth.epoch dm ∧ dm.2.unexpired now).insertionSort
      _).take (limit.getD 50) |>.filter _).map _ :=
    h.recovered inv (pulled_pullable inv r)
  have hstanding : b.standing auth now r = standsFor (b.pulled auth now r)
      (fun mid => b.shown auth.epoch given mid = true) auth.epoch := by
    funext dm
    simp [Broker.standing, standsFor, r, Request.checkpoint]
  have hany (mid : Id) : (ms.any fun m => m.messageId = mid) =
      (b.fresh auth now r).any fun m => m.messageId = mid := by
    have hids := congrArg (List.any · fun x => decide (x = mid)) (Foretold.ids h)
    simpa [List.any_map, Function.comp_def] using hids
  have hfresh : ms.map (fun m => m.freshEntry.blur) =
      (b.fresh auth now r).map fun m => (freshBody m).freshEntry := by
    have hbodies := congrArg (List.map PendingMessage.freshEntry) h.bodies
    rw [List.map_map, List.map_map] at hbodies
    rw [fresh_eq]
    exact hbodies
  show Response.inbox _ = Response.inbox _
  rw [List.map_append, List.map_map, hrecovered]
  refine congrArg Response.inbox (congrArg₂ (· ++ ·) hfresh ?_)
  unfold Broker.recovered
  rw [hstanding]
  simp only [hany, decide_not, Bool.decide_eq_true]
  rfl

theorem MailInv.minting {given : Option String} {b₁ : Broker} (inv : MailInv b)
    (hck : checkpointOf given b = (.ok ck, b₁)) : MailInv b₁ := by
  rcases checkpointOf_ok hck with rfl | rfl
  · exact inv
  · exact (MailFrame.bookkeeping .mint).keeps inv

/-- What a gated pull goes through is the same once its checkpoint id is minted. -/
theorem gated_minting {given : Option String} {b₁ : Broker} {limit : Nat}
    (hck : checkpointOf given b = (.ok ck, b₁)) {r : Request} (hr : r ≠ .processNext) :
    (if b.gateOpen r auth.sessionId then b.pendingForSessionId auth.sessionId limit now else []) =
      if acceptsInjection (b₁.readinessOf auth.sessionId) &&
        b₁.autoDeliveryEnabled auth.sessionId then
          b₁.pendingForSessionId auth.sessionId limit now
      else [] := by
  rw [gateOpen_eq hr]
  rcases checkpointOf_ok hck with rfl | rfl
  · rfl
  · rfl

/-- **A pull that answers does what was foreseen.** -/
theorem exec_foretold {r : Request} {response : Response} (inv : MailInv b) (hr : r.pulls = true)
    (h : exec env mom (r.op auth) b = (.ok response, b')) :
    ∃ ms, PullForetold b auth mom.now r response b' ms := by
  -- Each pull comes to its rows in its own way; naming the checkpoint changes none of them.
  cases r with
  | checkpointPull limit =>
    simp only [Request.op, exec, Call.map_ok] at h
    obtain ⟨ms, hpull, rfl⟩ := h
    have did := daemonCheckpointPull_foretold inv hpull
    exact ⟨ms, did, rfl, Foretold.answered (r := .checkpointPull limit) did⟩
  | checkpointPullHook given limit =>
    simp only [Request.op, exec, Call.bind_ok, Call.map_ok] at h
    obtain ⟨ck, b₁, hck, ms, hpull, rfl⟩ := h
    have did := (checkpointPull_foretold (inv.minting hck) hpull).unminted inv hck
    rw [← gated_minting (r := .checkpointPullHook given limit) hck (by simp)] at did
    exact ⟨ms, did, rfl, Foretold.answered (r := .checkpointPullHook given limit) did⟩
  | processNext =>
    simp only [Request.op, exec, Call.bind_ok, Call.map_ok] at h
    obtain ⟨ck, b₁, hck, ms, hpull, rfl⟩ := h
    have hrows : b.pulled auth mom.now .processNext =
        if acceptsInjection (b₁.readinessOf auth.sessionId) then
          b₁.pendingForSessionId auth.sessionId 1 mom.now else [] := by
      rw [Broker.pulled, gateOpen_step]
      rcases checkpointOf_ok hck with rfl | rfl
      · rfl
      · rfl
    have did := (processNext_foretold (inv.minting hck) hpull).unminted inv hck
    rw [← hrows] at did
    exact ⟨ms, did, rfl, Foretold.answered (r := .processNext) did⟩
  | inbox markInjected given limit =>
    cases markInjected with
    | false => cases hr
    | true =>
      simp only [Request.op, exec, Call.bind_ok, Call.map_ok] at h
      obtain ⟨ck, b₁, hck, es, hview, rfl⟩ := h
      obtain ⟨ms, hpull, rfl⟩ := inboxView_fresh hview
      have did := (checkpointPull_foretold (inv.minting hck) hpull).unminted inv hck
      rw [← gated_minting (r := .inbox true given limit) hck (by simp)] at did
      refine ⟨ms, did, ?_, Foretold.viewed inv did⟩
      rw [Response.bodyIds, filter_bodyIncluded, List.map_map]
      rfl
  | _ => cases hr

theorem redeliver_foretold {mid : Id} {e : InboxEntry}
    (h : redeliver env now auth mid b = (.ok (some e), b')) :
    ∃ m, b.message? mid = some m ∧ e.blur = redeliveredEntry m := by
  simp only [redeliver, assertAllowed, Call.bind_ok, Call.require_ok, assertCurrentEpoch_ok,
    Call.transaction_ok, Call.get_bind] at h
  obtain ⟨_, _, ⟨_, rfl⟩, _, _, ⟨-, rfl⟩, h⟩ := h
  cases hm : b.message? mid with
  | none => simp [hm] at h
  | some m =>
    refine ⟨m, rfl, ?_⟩
    simp only [hm] at h
    split at h
    · simp at h
    · split at h
      · simp at h
      · simp only [Call.act_bind, Call.bind_ok, Call.orThrow_ok, Call.modify_bind,
          Call.pure_ok, Option.some.injEq] at h
        obtain ⟨_, _, -, rfl, -⟩ := h
        rfl

/-- A request that is answered was executed, and found what it asked for. -/
theorem onRequest_ok {r : Request} {response : Response}
    (h : onRequest env mom auth r b = (.ok response, b')) :
    exec env mom (r.op auth) b = (.ok response, b') ∧ response ≠ .redelivered none := by
  have hjudged {answer : Response} {b₁ : Broker} (h : judge answer b₁ = (.ok response, b')) :
      answer = response ∧ b₁ = b' ∧ response ≠ .redelivered none := by
    unfold judge at h
    split at h
    · simp at h
    · rename_i hfound
      obtain ⟨rfl, rfl⟩ := Call.pure_ok.mp h
      exact ⟨rfl, rfl, hfound⟩
  have hlast {x : BrokerCall Unit}
      (h : (x >>= fun _ => exec env mom (r.op auth) >>= judge) b = (.ok response, b'))
      (hx : ∀ u b₁, x b = (.ok u, b₁) → b = b₁) :
      exec env mom (r.op auth) b = (.ok response, b') ∧ response ≠ .redelivered none := by
    obtain ⟨u, b₁, hpass, answer, b₂, hexec, hdone⟩ := by simpa only [Call.bind_ok] using h
    obtain rfl := hx u b₁ hpass
    obtain ⟨rfl, rfl, hne⟩ := hjudged hdone
    exact ⟨hexec, hne⟩
  cases r with
  | sendMessage input => exact hlast h fun _ _ hpass => (Call.require_ok.mp hpass).2
  | _ => exact hlast (x := pure ()) h fun _ _ hpass => (Call.pure_ok.mp hpass).2

/-- **No pull answers anything but what was foreseen**, ids of injections apart. -/
theorem onRequest_foreseen {r : Request} {response : Response} (inv : MailInv b)
    (hr : r.ackType.isSome) (h : onRequest env mom auth r b = (.ok response, b')) :
    response.blur = b.foreseen auth mom.now r := by
  obtain ⟨hexec, hfound⟩ := onRequest_ok h
  by_cases hpulls : r.pulls = true
  · obtain ⟨ms, hpull⟩ := exec_foretold inv hpulls hexec
    exact hpull.answered
  · cases r with
    | redeliver mid =>
      simp only [Request.op, exec, Call.map_ok] at hexec
      obtain ⟨answer, hredeliver, rfl⟩ := hexec
      cases answer with
      | none => exact absurd rfl hfound
      | some e =>
        obtain ⟨m, hm, hblur⟩ := redeliver_foretold hredeliver
        simp only [Response.blur, Broker.foreseen, hm, Option.map_some, hblur]
    | inbox markInjected given limit =>
      cases markInjected with
      | true => exact absurd rfl hpulls
      | false =>
        simp only [Request.op, exec, pendingForSession, Call.map_ok, Call.bind_ok,
          assertCurrentEpoch_ok, Call.get_bind, Call.pure_ok] at hexec
        obtain ⟨_, ⟨_, _, ⟨-, rfl⟩, rfl, -⟩, rfl⟩ := hexec
        rfl
    | _ => simp_all [Request.pulls, Request.ackType]

/-! ## Which pulls are answered -/

/-- The pulls that are not refused: at the current epoch, by a component that may make them; and a
    redelivery, of a message to the session that was shown at that epoch. -/
def admits (b : Broker) (auth : SessionAuthority) : Request → Bool
  | .checkpointPull _ | .inbox false _ _ => b.epochOf auth.sessionId = some auth.epoch
  | .checkpointPullHook _ _ | .processNext =>
    isAllowed auth.role .pullHookCheckpoint ∧ b.epochOf auth.sessionId = some auth.epoch
  | .inbox true _ _ => isAllowed auth.role .listInbox ∧ b.epochOf auth.sessionId = some auth.epoch
  | .redeliver mid => isAllowed auth.role .listInbox ∧ Broker.represents b auth mid
  | _ => false

/-- The call answers. -/
def Succeeds {α : Type} (x : BrokerCall α) (b : Broker) : Prop := ∃ a b', x b = (.ok a, b')

theorem succeeds_map {α β : Type} {f : α → β} {x : BrokerCall α} :
    Succeeds (f <$> x) b ↔ Succeeds x b := by
  simp only [Succeeds, Call.map_ok]
  constructor
  · rintro ⟨_, t, a, hx, -⟩
    exact ⟨a, t, hx⟩
  · rintro ⟨a, t, hx⟩
    exact ⟨f a, t, a, hx, rfl⟩

theorem succeeds_gated {α : Type} {x : BrokerCall α} {role : ComponentRole} {op : Operation} :
    Succeeds (do
      assertAllowed role op
      assertCurrentEpoch auth
      x : BrokerCall α) b ↔
      isAllowed role op = true ∧ b.epochOf auth.sessionId = some auth.epoch ∧ Succeeds x b := by
  simp only [Succeeds, assertAllowed, Call.bind_ok, Call.require_ok, assertCurrentEpoch_ok]
  constructor
  · rintro ⟨a, t, _, _, ⟨hallowed, rfl⟩, _, _, ⟨hcur, rfl⟩, hx⟩
    exact ⟨hallowed, hcur, a, t, hx⟩
  · rintro ⟨hallowed, hcur, a, t, hx⟩
    exact ⟨a, t, (), b, ⟨hallowed, rfl⟩, (), b, ⟨hcur, rfl⟩, hx⟩

theorem pullForced_succeeds {limit : Nat} : Succeeds (pullForced env now auth ck limit audited) b :=
  ⟨_, _, rfl⟩

theorem checkpointPull_succeeds {limit : Nat} : Succeeds (checkpointPull env now auth ck limit) b ↔
    isAllowed auth.role .pullHookCheckpoint = true ∧
      b.epochOf auth.sessionId = some auth.epoch := by
  refine succeeds_gated.trans (and_congr_right' (and_iff_left ?_))
  rw [Succeeds, Call.get_bind]
  split
  · split
    · exact pullForced_succeeds
    · exact ⟨_, _, rfl⟩
  · exact ⟨_, _, rfl⟩

theorem processNext_succeeds : Succeeds (processNext env now auth ck) b ↔
    isAllowed auth.role .pullHookCheckpoint = true ∧
      b.epochOf auth.sessionId = some auth.epoch := by
  refine succeeds_gated.trans (and_congr_right' (and_iff_left ?_))
  rw [Succeeds, Call.get_bind]
  split
  · exact pullForced_succeeds
  · exact ⟨_, _, rfl⟩

theorem inboxView_succeeds {limit : Nat} : Succeeds (inboxView env now auth ck limit) b ↔
    isAllowed auth.role .listInbox = true ∧ b.epochOf auth.sessionId = some auth.epoch := by
  refine succeeds_gated.trans (and_congr_right' (and_iff_left_of_imp fun hcur => ?_))
  have hhook : Succeeds (checkpointPull env now { auth with role := .hook } ck limit) b :=
    checkpointPull_succeeds.mpr ⟨rfl, hcur⟩
  obtain ⟨ms, b₁, hpull⟩ := hhook
  exact ⟨_, _, Call.bind_of_ok hpull⟩

theorem pendingForSession_succeeds {limit : Nat} : Succeeds (pendingForSession now auth limit) b ↔
    b.epochOf auth.sessionId = some auth.epoch := by
  simp only [Succeeds, pendingForSession, Call.bind_ok, assertCurrentEpoch_ok, Call.get_bind,
    Call.pure_ok]
  constructor
  · rintro ⟨_, _, _, _, ⟨hcur, rfl⟩, -⟩
    exact hcur
  · intro hcur
    exact ⟨_, _, (), b, ⟨hcur, rfl⟩, rfl, rfl⟩

theorem daemonCheckpointPull_succeeds {limit : Nat} :
    Succeeds (daemonCheckpointPull env now auth limit) b ↔
      b.epochOf auth.sessionId = some auth.epoch := by
  constructor
  · rintro ⟨ms, b', h⟩
    obtain ⟨pending, b₁, hpending, -⟩ := Call.bind_ok.mp h
    exact pendingForSession_succeeds.mp ⟨pending, b₁, hpending⟩
  · intro hcur
    have hfence : assertCurrentEpoch auth b = (.ok (), b) := assertCurrentEpoch_ok.mpr ⟨hcur, rfl⟩
    have hpending : pendingForSession now auth limit b =
        (.ok (b.pendingForSessionId auth.sessionId limit now), b) := Call.bind_of_ok hfence
    refine ⟨_, _, (Call.bind_of_ok hpending).trans (Call.bind_of_ok (Call.bind_of_ok hfence))⟩

/-- Under a checkpoint id of the caller's or a fresh one. -/
theorem succeeds_checkpoint {α : Type} {x : CheckpointId → BrokerCall α} {given : Option String}
    {P : Prop} (hx : ∀ ck b₁, checkpointOf given b = (.ok ck, b₁) → (Succeeds (x ck) b₁ ↔ P)) :
    Succeeds (checkpointOf given >>= x) b ↔ P := by
  have hck : ∃ ck b₁, checkpointOf given b = (.ok ck, b₁) := by
    cases given with
    | some text => exact ⟨_, _, rfl⟩
    | none => exact ⟨_, _, rfl⟩
  obtain ⟨ck, b₁, hck⟩ := hck
  rw [← hx ck b₁ hck, Succeeds, Succeeds, Call.bind_of_ok hck]

theorem checkpointOf_epochOf {given : Option String} {b₁ : Broker}
    (h : checkpointOf given b = (.ok ck, b₁)) (sid : SessionId) :
    b₁.epochOf sid = b.epochOf sid := by
  rcases checkpointOf_ok h with rfl | rfl
  · rfl
  · rfl

theorem le_foldl_max (l : List Nat) (init : Nat) : init ≤ l.foldl max init ∧
    ∀ n ∈ l, n ≤ l.foldl max init := by
  induction l generalizing init with
  | nil => exact ⟨Nat.le_refl _, by simp⟩
  | cons x l ih =>
    obtain ⟨hinit, hall⟩ := ih (max init x)
    refine ⟨(Nat.le_max_left _ _).trans hinit, fun n hn => ?_⟩
    rcases List.mem_cons.mp hn with rfl | hn
    · exact (Nat.le_max_right _ _).trans hinit
    · exact hall n hn

theorem logical_le_maxLogical {i : Injection} (hi : i ∈ b.injections) :
    i.logicalInjectionNumber ≤ b.maxLogical i.messageId i.recipientEpoch := by
  refine (le_foldl_max _ 0).2 _ (List.mem_map.mpr ⟨i, List.mem_filter.mpr ⟨hi, ?_⟩, rfl⟩)
  simp

/-- The next logical number under a fresh checkpoint id is free. -/
theorem issue_next (env : Env) (now : Iso) (inv : MailInv b) (mid : Id)
    (sid : SessionId) (epoch : Nat) :
    ∃ id b', issue env now mid sid epoch (.minted "redeliver-" b.nextId)
      (b.maxLogical mid epoch + 1) b.mint = (some id, b') := by
  rcases hissue : issue env now mid sid epoch (.minted "redeliver-" b.nextId)
    (b.maxLogical mid epoch + 1) b.mint with ⟨_ | id, b'⟩
  · obtain ⟨-, i, hi, rfl, ⟨rfl, hlogical⟩ | hck⟩ := issue_none hissue
    · have hle : i.logicalInjectionNumber ≤ b.maxLogical i.messageId i.recipientEpoch :=
        logical_le_maxLogical hi
      omega
    · exact absurd (inv.minted i hi _ _ hck) (Nat.lt_irrefl _)
  · exact ⟨id, b', rfl⟩

theorem redeliver_answers (env : Env) (now : Iso) (inv : MailInv b) {mid : Id} :
    (∃ e b', redeliver env now auth mid b = (.ok (some e), b')) ↔
      isAllowed auth.role .listInbox = true ∧ Broker.represents b auth mid = true := by
  constructor
  · rintro ⟨e, b', h⟩
    have hgate : Succeeds (redeliver env now auth mid) b := ⟨some e, b', h⟩
    exact ⟨(succeeds_gated.mp hgate).1, (redeliver_represents h).2⟩
  · rintro ⟨hallowed, hrep⟩
    simp only [Broker.represents, decide_eq_true_eq, Option.any_eq_true] at hrep
    obtain ⟨⟨m, hm, hto⟩, hcur, hpres⟩ := hrep
    obtain ⟨id, b₁, hissue⟩ := issue_next env now inv mid auth.sessionId auth.epoch
    simp only [redeliver, assertAllowed, Call.bind_ok, Call.require_ok, assertCurrentEpoch_ok,
      Call.transaction_ok, Call.get_bind]
    refine ⟨{ (rowToPending m).freshEntry with injectionId := some id
                                               state := .contextInjectedUnacknowledged
                                               bodyAlreadyPresented := true },
      (b₁.refreshMeaningfulActivity auth.sessionId now).audit .explicitRedelivery
        (some auth.sessionId) (some mid), (), b, ⟨hallowed, rfl⟩, (), b, ⟨hcur, rfl⟩, ?_⟩
    simp only [hm]
    rw [if_neg (by simpa using hto), if_neg hpres]
    simp only [Call.act_bind, hissue]
    rfl

/-- What a pull's call answers, the daemon passes on, unless nothing was found. -/
theorem onRequest_of_exec {r : Request} (hr : r.ackType.isSome) {response : Response}
    (h : exec env mom (r.op auth) b = (.ok response, b')) (hfound : response ≠ .redelivered none) :
    onRequest env mom auth r b = (.ok response, b') := by
  have hpass (answer : Response) : answer ≠ .redelivered none →
      judge answer b' = (.ok answer, b') := by
    intro hne
    unfold judge
    split
    · exact absurd rfl hne
    · rfl
  have hafter : (exec env mom (r.op auth) >>= judge) b = (.ok response, b') :=
    (Call.bind_of_ok h).trans (hpass response hfound)
  cases r with
  | sendMessage => cases hr
  | _ => exact hafter

/-- A pull other than a redelivery is answered if its call is. -/
theorem onRequest_succeeds {r : Request} (hr : r.ackType.isSome)
    (hshape : ∀ e b', exec env mom (r.op auth) b ≠ (.ok (.redelivered e), b')) :
    Succeeds (onRequest env mom auth r) b ↔ Succeeds (exec env mom (r.op auth)) b := by
  refine ⟨fun ⟨response, b', h⟩ => ⟨response, b', (onRequest_ok h).1⟩, fun ⟨response, b', h⟩ => ?_⟩
  refine ⟨response, b', onRequest_of_exec hr h ?_⟩
  rintro rfl
  exact hshape none b' h

/-- **A pull is answered exactly if it is admitted.** -/
theorem onRequest_answers (inv : MailInv b) {r : Request} (hr : r.ackType.isSome) :
    Succeeds (onRequest env mom auth r) b ↔ admits b auth r = true := by
  cases r with
  | checkpointPull limit =>
    rw [onRequest_succeeds hr (by simp [Request.op, exec])]
    simp only [Request.op, exec, succeeds_map, daemonCheckpointPull_succeeds, admits,
      decide_eq_true_eq]
  | checkpointPullHook given limit =>
    rw [onRequest_succeeds hr (by simp [Request.op, exec])]
    refine succeeds_checkpoint fun ck b₁ hck => ?_
    simp only [succeeds_map, checkpointPull_succeeds, checkpointOf_epochOf hck, admits,
      decide_eq_true_eq]
  | processNext =>
    rw [onRequest_succeeds hr (by simp [Request.op, exec])]
    refine succeeds_checkpoint fun ck b₁ hck => ?_
    simp only [succeeds_map, processNext_succeeds, checkpointOf_epochOf hck, admits,
      decide_eq_true_eq]
  | inbox markInjected given limit =>
    cases markInjected with
    | true =>
      rw [onRequest_succeeds hr (by simp [Request.op, exec])]
      refine succeeds_checkpoint fun ck b₁ hck => ?_
      simp only [succeeds_map, inboxView_succeeds, checkpointOf_epochOf hck, admits,
        decide_eq_true_eq]
    | false =>
      rw [onRequest_succeeds hr (by simp [Request.op, exec])]
      simp only [Request.op, exec, succeeds_map, pendingForSession_succeeds, admits,
        decide_eq_true_eq]
  | redeliver mid =>
    simp only [admits, decide_eq_true_eq, ← redeliver_answers env mom.now inv]
    constructor
    · rintro ⟨response, b', h⟩
      obtain ⟨hexec, hfound⟩ := onRequest_ok h
      obtain ⟨answer, hredeliver, rfl⟩ := Call.map_ok.mp hexec
      cases answer with
      | none => exact absurd rfl hfound
      | some e => exact ⟨e, b', hredeliver⟩
    · rintro ⟨e, b', h⟩
      exact ⟨_, b', onRequest_of_exec hr (Call.map_ok.mpr ⟨some e, h, rfl⟩) (by simp)⟩
  | _ => cases hr

end Proof
end XBus
