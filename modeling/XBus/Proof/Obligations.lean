import XBus.Proof.Redelivery

/-!
# Obligations in the inbox

An inbox view pulls what waits, and then lists what the session was shown and still has to answer:
what is in flight, and what an earlier epoch accepted without replying. It never lists a message
twice. But the second query keeps the acceptance TTL of the first, which says how long a message may
wait and nothing about how long it may be answered, and the id it gives is whatever row has the
highest logical number at the epoch: there may be none, or it may be out of date or used up. An
obligation is discoverable exactly while its message has not expired and that row is good.
-/

set_option autoImplicit false

namespace XBus
namespace Proof

open Lib

variable {env : Env} {mom : Moment} {now : Iso} {auth : SessionAuthority} {b b' : Broker} {mid : Id}
  {given : Option String} {epoch : Nat} {limit : Nat}

/-! ## Logical numbers -/

/-- The columns of `ux_injection_logical`. -/
def logicalKey (i : Injection) : Id × Nat × Nat :=
  (i.messageId, i.recipientEpoch, i.logicalInjectionNumber)

/-- A logical number is given out once for a message and an epoch. -/
def LogicalKeys (b : Broker) : Prop := (b.injections.map logicalKey).Nodup

namespace LogicalKeys

theorem same (inv : LogicalKeys b) (h : b'.injections = b.injections) : LogicalKeys b' := by
  rw [LogicalKeys, h]
  exact inv

theorem snoc (inv : LogicalKeys b) {i : Injection} (h : b'.injections = b.injections ++ [i])
    (hnew : ∀ j ∈ b.injections, logicalKey j ≠ logicalKey i) : LogicalKeys b' := by
  rw [LogicalKeys, h, List.map_append, List.nodup_append]
  refine ⟨inv, List.nodup_singleton _, fun x hx y hy hxy => ?_⟩
  obtain ⟨j, hj, rfl⟩ := List.mem_map.mp hx
  exact hnew j hj (hxy.trans (List.mem_singleton.mp hy))

theorem issue (inv : LogicalKeys b) {sid : SessionId} {logical : Nat} {ck : CheckpointId} :
    LogicalKeys (issue env now mid sid epoch ck logical b).2 := by
  rcases hissue : XBus.issue env now mid sid epoch ck logical b with ⟨_ | id, b₁⟩
  · exact inv.same (issue_none hissue).1.injections
  · obtain ⟨-, rfl, hnew, -⟩ := issue_some hissue
    refine inv.snoc rfl fun j hj heq => hnew j hj ?_
    simpa [logicalKey] using heq

theorem rehomeOne (inv : LogicalKeys b) {sid : SessionId} :
    LogicalKeys (b.rehomeOne sid epoch now mid) := by
  unfold Broker.rehomeOne
  split
  · exact inv
  · rename_i hnone
    refine inv.snoc rfl fun j hj heq => hnone (List.any_eq_true.mpr ⟨j, hj, ?_⟩)
    simpa [logicalKey] using heq

theorem rehomeAll (inv : LogicalKeys b) {sid : SessionId} (mids : List Id) :
    LogicalKeys (mids.foldl (fun b mid => b.rehomeOne sid epoch now mid) b) := by
  induction mids generalizing b with
  | nil => exact inv
  | cons mid mids ih => exact ih inv.rehomeOne

end LogicalKeys

theorem Move.logicalKeys {k : Kind} (h : Move env k b b') (inv : LogicalKeys b) :
    LogicalKeys b' := by
  by_cases hsame : writesRows k = false
  · exact inv.same (Move.sameRows h hsame)
  cases h with
  | inject now auth ck audited m =>
    have hspec := injectOne_spec env now auth ck audited m b
    cases hid : (injectOne env now auth ck audited m b).1 with
    | none => exact inv.same (hspec.silent hid).1
    | some id =>
      obtain ⟨-, -, hrows, hnew⟩ := hspec.presented id hid
      refine inv.snoc hrows fun j hj heq => hnew j hj ?_
      simpa [logicalKey, pulledRow] using heq
  | reissue =>
    have hmint : LogicalKeys b.mint := inv.same rfl
    exact hmint.issue
  | consume =>
    have hmap : ∀ id op, (b.consume id op).injections.map logicalKey =
        b.injections.map logicalKey := fun id op => map_updateWhere _ fun _ _ => rfl
    rw [LogicalKeys, hmap]
    exact inv
  | @advance _ now sid resume s found =>
    obtain ⟨as, es, n, hb', -⟩ := advanceEpoch_begun b env now sid (s.activeEpoch + 1) resume
    have hbegun : LogicalKeys (Broker.begun b now sid (s.activeEpoch + 1)) := inv.same rfl
    have hrehomed : LogicalKeys ((Broker.begun b now sid
        (s.activeEpoch + 1)).rehomeAcceptedReplyAuthority sid (s.activeEpoch + 1) now) :=
      hbegun.rehomeAll _
    rw [hb']
    exact hrehomed.same rfl
  | _ => exact absurd rfl hsame

/-! ## The row of an obligation -/

/-- The row of the message with the highest logical number at the epoch. -/
structure CurrentRow (b : Broker) (mid : Id) (epoch : Nat) (i : Injection) : Prop where
  stored : i ∈ b.injections
  messageId : i.messageId = mid
  atEpoch : i.recipientEpoch = epoch
  highest : ∀ j ∈ b.injections, j.messageId = mid → j.recipientEpoch = epoch →
    j.logicalInjectionNumber ≤ i.logicalInjectionNumber

theorem CurrentRow.unique (keys : LogicalKeys b) {i j : Injection} (hi : CurrentRow b mid epoch i)
    (hj : CurrentRow b mid epoch j) : i = j := by
  refine eq_of_key_eq keys hi.stored hj.stored ?_
  have hle := hj.highest i hi.stored hi.messageId hi.atEpoch
  have hge := hi.highest j hj.stored hj.messageId hj.atEpoch
  simp only [logicalKey, hi.messageId, hi.atEpoch, hj.messageId, hj.atEpoch,
    Nat.le_antisymm hle hge]

/-- `injectionIdFor` finds the current row. -/
theorem injectionIdFor_iff (keys : LogicalKeys b) {id : Id} :
    b.injectionIdFor mid epoch = some id ↔ ∃ i, CurrentRow b mid epoch i ∧ i.injectionId = id := by
  have htotal : Std.Total fun x y : Injection =>
      y.logicalInjectionNumber ≤ x.logicalInjectionNumber := ⟨fun x y => Nat.le_total _ _⟩
  have htrans : IsTrans Injection fun x y =>
      y.logicalInjectionNumber ≤ x.logicalInjectionNumber := ⟨fun _ _ _ h h' => Nat.le_trans h' h⟩
  have hfirst {i : Injection} (h : ((b.injections.filter fun x => x.messageId = mid ∧
      x.recipientEpoch = epoch).insertionSort fun x y =>
        y.logicalInjectionNumber ≤ x.logicalInjectionNumber).head? = some i) :
      CurrentRow b mid epoch i := by
    obtain ⟨hi, hhighest⟩ := head?_insertionSort h
    obtain ⟨hi, hrow⟩ := List.mem_filter.mp hi
    obtain ⟨him, hie⟩ := of_decide_eq_true hrow
    exact ⟨hi, him, hie, fun j hj hjm hje =>
      hhighest j (List.mem_filter.mpr ⟨hj, by simp [hjm, hje]⟩)⟩
  constructor
  · intro h
    obtain ⟨i, hi, rfl⟩ := Option.map_eq_some_iff.mp h
    exact ⟨i, hfirst hi, rfl⟩
  · rintro ⟨i, hi, rfl⟩
    obtain ⟨id, hid⟩ := injectionIdFor_isSome hi.stored
    rw [hi.messageId, hi.atEpoch] at hid
    obtain ⟨j, hj, rfl⟩ := Option.map_eq_some_iff.mp hid
    rw [hid, (hfirst hj).unique keys hi]

/-- A row that is named, of the caller's own, authorises while it is good and not used for the
    same. -/
theorem authorize_named {op : ReceiptOp} {i : Injection} (ids : InjectionIds b)
    (hi : i ∈ b.injections) : (∃ r, authorize now op i.messageId i.recipientSessionId
        i.recipientEpoch (some i.injectionId) b = .ok r) ↔
      i.expiresAt.le now = false ∧ i.consumedOp ≠ some op := by
  have hfound : b.authorizingInjection i.messageId i.recipientSessionId i.recipientEpoch
      (some i.injectionId) = some i := find?_key_of_mem ids.unique hi
  simp only [authorize, hfound, ne_eq, not_true_eq_false, if_false]
  cases hlate : i.expiresAt.le now with
  | true => simp
  | false =>
    by_cases hused : i.consumedOp = some op
    · simp [hused]
    · simp [hused]

/-! ## The view -/

/-- The delivery is an obligation at the epoch: in flight, or accepted in an earlier epoch with the
    reply still owed. -/
def obliges (epoch : Nat) (dm : Delivery × Message) : Bool :=
  dm.1.state = .transportWritten ∨ (dm.1.state = .accepted ∧ dm.2.requiresReply ∧
    dm.1.targetGeneration.any fun g => g < epoch)

/-- What the receiver may still do about it. -/
def owedOps (d : Delivery) : List ReceiptOp :=
  if d.state = .transportWritten then [.ack, .reply] else [.reply]

/-- The entries list the obligation once, without a body, under an id that authorises what is
    owed. -/
def Discoverable (b : Broker) (now : Iso) (auth : SessionAuthority) (es : List InboxEntry)
    (d : Delivery) : Prop :=
  ∃ e, es.filter (fun e => e.messageId = d.messageId) = [e] ∧ e.text = none ∧
    ∃ id, e.injectionId = some id ∧ ∀ op ∈ owedOps d,
      ∃ i, authorize now op d.messageId auth.sessionId auth.epoch (some id) b = .ok i

/-- A row is on record that authorises what is owed, and none has a higher number. -/
def Answerable (b : Broker) (now : Iso) (epoch : Nat) (d : Delivery) : Prop :=
  ∃ i, CurrentRow b d.messageId epoch i ∧ i.expiresAt.le now = false ∧
    ∀ op ∈ owedOps d, i.consumedOp ≠ some op

/-- An inbox view pulls, and then lists. -/
theorem exec_inboxView (inv : MailInv b) (hrole : isAllowed auth.role .listInbox = true)
    (hcurrent : b.epochOf auth.sessionId = some auth.epoch) :
    ∃ rows ms b', Pullable b rows ∧
      Foretold b rows (fun mid => b.shown auth.epoch given mid = true) ms b' ∧
      exec env mom (.inboxView auth given limit) b = (.ok (.inbox (ms.map (·.freshEntry) ++
        (b'.recoveredEntries auth limit mom.now).filter fun e =>
          ¬ (ms.any fun m => m.messageId = e.messageId))), b') := by
  obtain ⟨ck, b₁, hck⟩ : ∃ ck b₁, checkpointOf given b = (.ok ck, b₁) := by
    cases given with
    | some text => exact ⟨_, _, rfl⟩
    | none => exact ⟨_, _, rfl⟩
  obtain ⟨es, b', hview⟩ : Succeeds (inboxView env mom.now auth ck limit) b₁ :=
    inboxView_succeeds.mpr ⟨hrole, (checkpointOf_epochOf hck _).trans hcurrent⟩
  obtain ⟨ms, hpull, hes⟩ := inboxView_fresh hview
  have did := (checkpointPull_foretold (inv.minting hck) hpull).unminted inv hck
  refine ⟨_, ms, b', ?_, did, ?_⟩
  · rcases checkpointOf_ok hck with rfl | rfl
    · exact pending_pullable inv
    · exact pending_pullable inv
  · simp only [exec, Call.bind_ok, Call.map_ok]
    exact ⟨ck, b₁, hck, es, hview, by rw [hes]⟩

/-- The rows the second query of a view selects, in its order. -/
def recoverable (b : Broker) (auth : SessionAuthority) (now : Iso) : List (Delivery × Message) :=
  ((mailOf b auth.sessionId).filter fun dm =>
    obliges auth.epoch dm ∧ dm.2.unexpired now).insertionSort
      fun x y => x.2.recipientSequence ≤ y.2.recipientSequence

theorem recoveredEntries_eq : b.recoveredEntries auth limit now =
    ((recoverable b auth now).take limit).map fun dm => b.recoveredEntry auth.epoch dm.1 dm.2 := by
  simp only [Broker.recoveredEntries, recoverable, mailOf, obliges, decide_eq_true_eq]

theorem mailOf_nodup (inv : MailInv b) {sid : SessionId} :
    ((mailOf b sid).map (·.2.messageId)).Nodup := by
  have hjoin : ((mailOf b sid).map (·.2.messageId)).Sublist
      ((b.deliveries.filter fun d => d.recipientSessionId = sid).map (·.messageId)) := by
    refine map_filterMap_sublist (fun d dm h => ?_) _
    obtain ⟨m, hm, rfl⟩ := Option.map_eq_some_iff.mp h
    simpa using List.find?_some hm
  exact (inv.deliveryIds.sublist (List.filter_sublist.map _)).sublist hjoin

theorem recoverable_nodup (inv : MailInv b) :
    ((recoverable b auth now).map (·.2.messageId)).Nodup := by
  have hperm := (List.perm_insertionSort (fun x y : Delivery × Message =>
    x.2.recipientSequence ≤ y.2.recipientSequence) ((mailOf b auth.sessionId).filter fun dm =>
      obliges auth.epoch dm ∧ dm.2.unexpired now)).map (·.2.messageId)
  exact hperm.nodup_iff.mpr ((mailOf_nodup inv).sublist (List.filter_sublist.map _))

theorem mem_recoverable {dm : Delivery × Message} : dm ∈ recoverable b auth now ↔
    dm ∈ mailOf b auth.sessionId ∧ obliges auth.epoch dm = true ∧ dm.2.unexpired now = true := by
  rw [recoverable, List.mem_insertionSort, List.mem_filter, decide_eq_true_eq]

theorem recoveredEntries_nodup (inv : MailInv b) :
    ((b.recoveredEntries auth limit now).map (·.messageId)).Nodup := by
  rw [recoveredEntries_eq, List.map_map]
  exact (recoverable_nodup inv).sublist ((List.take_sublist _ _).map _)

theorem Foretold.nodup {rows : List Message} {seen : Id → Prop} [DecidablePred seen]
    {ms : List PendingMessage} (h : Foretold b rows seen ms b') (hpull : Pullable b rows) :
    (ms.map (·.messageId)).Nodup := by
  have hids := congrArg (List.map PendingMessage.messageId) h.bodies
  rw [List.map_map, List.map_map] at hids
  have heq : ms.map (·.messageId) =
      (rows.filter fun m => ¬ seen m.messageId).map (·.messageId) := hids
  rw [heq]
  exact hpull.nodup.sublist (List.filter_sublist.map _)

/-- **No message is listed twice.** -/
theorem entries_nodup {rows : List Message} {seen : Id → Prop} [DecidablePred seen]
    {ms : List PendingMessage} (h : Foretold b rows seen ms b') (hpull : Pullable b rows)
    (inv' : MailInv b') : ((ms.map (·.freshEntry) ++ (b'.recoveredEntries auth limit now).filter
      fun e => ¬ (ms.any fun m => m.messageId = e.messageId)).map (·.messageId)).Nodup := by
  rw [List.map_append, List.map_map, List.nodup_append]
  refine ⟨h.nodup hpull, (recoveredEntries_nodup inv').sublist (List.filter_sublist.map _),
    fun x hx y hy hxy => ?_⟩
  obtain ⟨m, hm, rfl⟩ := List.mem_map.mp hx
  obtain ⟨e, he, rfl⟩ := List.mem_map.mp hy
  refine of_decide_eq_true (List.mem_filter.mp he).2 (List.any_eq_true.mpr ⟨m, hm, ?_⟩)
  exact decide_eq_true hxy

/-- An obligation is not among what the view pulls, and stays as it is. -/
theorem Foretold.obliged {rows : List Message} {seen : Id → Prop} [DecidablePred seen]
    {ms : List PendingMessage} (h : Foretold b rows seen ms b') (hpull : Pullable b rows)
    (inv : MailInv b) {dm : Delivery × Message} (hdm : dm ∈ mailOf b auth.sessionId)
    (howes : obliges epoch dm = true) :
    dm ∈ mailOf b' auth.sessionId ∧ dm.1.messageId ∉ ms.map (·.messageId) := by
  obtain ⟨hd, found, hid⟩ := mem_mailOf hdm
  have hapart : ∀ m ∈ rows, m.messageId ≠ dm.1.messageId := by
    intro m hm heq
    have hwaits := hpull.waiting inv hm hd heq
    simp only [obliges, decide_eq_true_eq] at howes
    rcases howes with hstate | ⟨hstate, -⟩
    · rw [hstate] at hwaits
      cases hwaits
    · rw [hstate] at hwaits
      cases hwaits
  obtain ⟨g, hdel, hsettles⟩ := h.deliveries
  constructor
  · rw [mailOf_map h.messages hdel fun d hd =>
      ⟨(hsettles d hd).messageId, (hsettles d hd).recipient⟩]
    refine List.mem_map.mpr ⟨dm, hdm, ?_⟩
    rw [(hsettles dm.1 hd).other hapart]
  · intro hmem
    obtain ⟨pm, hpm, heq⟩ := List.mem_map.mp hmem
    obtain ⟨m, hm, -, hbody⟩ := h.of_mem hpm
    exact hapart m hm ((congrArg PendingMessage.messageId hbody).symm.trans heq)

/-- What a view lists of an obligation: its entry, unless its message has expired. -/
theorem listed_obligation {ms : List PendingMessage} (inv : MailInv b)
    {dm : Delivery × Message} (hdm : dm ∈ mailOf b auth.sessionId)
    (howes : obliges auth.epoch dm = true) (hnot : dm.1.messageId ∉ ms.map (·.messageId))
    (hlimit : ((mailOf b auth.sessionId).filter (obliges auth.epoch)).length ≤ limit) :
    (ms.map (·.freshEntry) ++ (b.recoveredEntries auth limit now).filter fun e =>
      ¬ (ms.any fun m => m.messageId = e.messageId)).filter
        (fun e => e.messageId = dm.1.messageId) =
      if dm.2.unexpired now then [b.recoveredEntry auth.epoch dm.1 dm.2] else [] := by
  obtain ⟨hd, found, hid⟩ := mem_mailOf hdm
  -- The fresh entries are of other messages.
  have hfresh : (ms.map (·.freshEntry)).filter (fun e => e.messageId = dm.1.messageId) = [] := by
    refine List.filter_eq_nil_iff.mpr fun e he heq => hnot ?_
    obtain ⟨m, hm, rfl⟩ := List.mem_map.mp he
    exact List.mem_map.mpr ⟨m, hm, of_decide_eq_true heq⟩
  -- So the recovered one is not left out as listed already.
  have hold : ((b.recoveredEntries auth limit now).filter fun e =>
      ¬ (ms.any fun m => m.messageId = e.messageId)).filter
        (fun e => e.messageId = dm.1.messageId) =
      (b.recoveredEntries auth limit now).filter fun e => e.messageId = dm.1.messageId := by
    have hnone : ¬ (ms.any fun m => m.messageId = dm.1.messageId) = true := by
      intro hany
      obtain ⟨m, hm, hmid⟩ := List.any_eq_true.mp hany
      exact hnot (List.mem_map.mpr ⟨m, hm, of_decide_eq_true hmid⟩)
    rw [List.filter_filter]
    refine List.filter_congr fun e _ => ?_
    by_cases heq : e.messageId = dm.1.messageId
    · rw [heq, decide_eq_true rfl, decide_eq_true hnone]
      rfl
    · simp [heq]
  -- And the limit cuts none off.
  have hall : (recoverable b auth now).take limit = recoverable b auth now := by
    refine List.take_of_length_le (Nat.le_trans ?_ hlimit)
    rw [recoverable, List.length_insertionSort]
    exact (List.monotone_filter_right _ fun x hx => (of_decide_eq_true hx).1).length_le
  rw [List.filter_append, hfresh, List.nil_append, hold, recoveredEntries_eq, hall, List.filter_map,
    ← hid]
  by_cases hlasts : dm.2.unexpired now = true
  · rw [if_pos hlasts]
    have hone : (recoverable b auth now).filter (fun x => x.2.messageId = dm.2.messageId) = [dm] :=
      filter_key_of_mem (recoverable_nodup inv) (mem_recoverable.mpr ⟨hdm, howes, hlasts⟩)
    exact congrArg (List.map fun dm => b.recoveredEntry auth.epoch dm.1 dm.2) hone
  · rw [if_neg hlasts, List.map_eq_nil_iff]
    refine List.filter_eq_nil_iff.mpr fun x hx heq => hlasts ?_
    obtain ⟨hmail, -, hfresh⟩ := mem_recoverable.mp hx
    have hsame : x = dm := eq_of_key_eq (mailOf_nodup inv) hmail hdm (of_decide_eq_true heq)
    rw [← hsame]
    exact hfresh

theorem CurrentRow.congr (h : ∀ i : Injection, i.messageId = mid →
    (i ∈ b'.injections ↔ i ∈ b.injections)) {i : Injection} (hi : CurrentRow b mid epoch i) :
    CurrentRow b' mid epoch i :=
  ⟨(h i hi.messageId).mpr hi.stored, hi.messageId, hi.atEpoch, fun j hj hjm hje =>
    hi.highest j ((h j hjm).mp hj) hjm hje⟩

/-- A view writes no row for a message whose body it does not return. -/
theorem Foretold.sameRows {rows : List Message} {seen : Id → Prop} [DecidablePred seen]
    {ms : List PendingMessage} (h : Foretold b rows seen ms b')
    (hnot : mid ∉ ms.map (·.messageId)) (i : Injection) (hi : i.messageId = mid) :
    i ∈ b'.injections ↔ i ∈ b.injections := by
  obtain ⟨is, his, hids⟩ := h.injections
  rw [his, List.mem_append]
  exact or_iff_left fun hnew => hnot (hi ▸ hids i hnew)

theorem logicalKeys_of_desk {ok : Desk → DeskEvent → Prop} {u : Desk} (h : u.Reachable env ok) :
    LogicalKeys u.db :=
  desk_of_moves (P := LogicalKeys) List.nodup_nil (fun _ _ _ hmove hb => hmove.logicalKeys hb) h

/-- Among the entries there is one for the obligation, and its id authorises what is owed. -/
theorem discoverable_iff {es : List InboxEntry} {dm : Delivery × Message} (inv : StoreInv b)
    (keys : LogicalKeys b) (hdm : dm ∈ mailOf b auth.sessionId)
    (hes : es.filter (fun e => e.messageId = dm.1.messageId) =
      if dm.2.unexpired now then [b.recoveredEntry auth.epoch dm.1 dm.2] else []) :
    Discoverable b now auth es dm.1 ↔
      dm.2.unexpired now = true ∧ Answerable b now auth.epoch dm.1 := by
  obtain ⟨hd, found, hid⟩ := mem_mailOf hdm
  have hto : dm.1.recipientSessionId = auth.sessionId := by
    obtain ⟨d, hmem, hsome⟩ := List.mem_filterMap.mp hdm
    obtain ⟨m, -, rfl⟩ := Option.map_eq_some_iff.mp hsome
    exact of_decide_eq_true (List.mem_filter.mp hmem).2
  -- The row at the current epoch authorises unless it has lapsed or was used for this.
  have hrow {i : Injection} (hi : CurrentRow b dm.1.messageId auth.epoch i) (op : ReceiptOp) :
      (∃ r, authorize now op dm.1.messageId auth.sessionId auth.epoch (some i.injectionId) b =
        .ok r) ↔ i.expiresAt.le now = false ∧ i.consumedOp ≠ some op := by
    have hown : i.recipientSessionId = auth.sessionId := by
      rw [← hto]
      exact inv.mail.addressed_unique (inv.mail.rows i hi.stored)
        ⟨dm.1, hd, hi.messageId.symm, rfl⟩
    have hnamed : (∃ r, authorize now op i.messageId i.recipientSessionId i.recipientEpoch
        (some i.injectionId) b = .ok r) ↔ _ := authorize_named inv.ids hi.stored
    rw [hi.messageId, hown, hi.atEpoch] at hnamed
    exact hnamed
  have hsome : owedOps dm.1 ≠ [] := by
    unfold owedOps
    split <;> nofun
  obtain ⟨op₀, hop₀⟩ := List.exists_mem_of_ne_nil _ hsome
  rw [Discoverable, hes]
  by_cases hlasts : dm.2.unexpired now = true
  · simp only [hlasts, if_true, List.cons.injEq, and_true, true_and, exists_eq_left']
    constructor
    · rintro ⟨-, id, hentry, hall⟩
      have hcurrent : b.injectionIdFor dm.1.messageId auth.epoch = some id := hid ▸ hentry
      obtain ⟨i, hi, rfl⟩ := (injectionIdFor_iff keys).mp hcurrent
      exact ⟨i, hi, ((hrow hi op₀).mp (hall op₀ hop₀)).1,
        fun op hop => ((hrow hi op).mp (hall op hop)).2⟩
    · rintro ⟨i, hi, hlive, hunused⟩
      refine ⟨rfl, i.injectionId, ?_, fun op hop => (hrow hi op).mpr ⟨hlive, hunused op hop⟩⟩
      show b.injectionIdFor dm.2.messageId auth.epoch = some i.injectionId
      rw [hid]
      exact (injectionIdFor_iff keys).mpr ⟨i, hi, rfl⟩
  · simp [hlasts]

/-- **Obligations are discoverable** exactly while their message has not expired and the row with
    the highest logical number at the epoch authorises what is owed. No message is listed twice. -/
theorem obligations_discoverable_iff {u : Desk} (hreach : u.Reachable env Any)
    (hrole : isAllowed auth.role .listInbox = true)
    (hcurrent : u.db.epochOf auth.sessionId = some auth.epoch) :
    ∃ es b', exec env mom (.inboxView auth given limit) u.db = (.ok (.inbox es), b') ∧
      (es.map (·.messageId)).Nodup ∧
      (((mailOf b' auth.sessionId).filter (obliges auth.epoch)).length ≤ limit →
        ∀ dm ∈ mailOf u.db auth.sessionId, obliges auth.epoch dm = true →
          (Discoverable b' mom.now auth es dm.1 ↔
            dm.2.unexpired mom.now = true ∧ Answerable u.db mom.now auth.epoch dm.1)) := by
  have inv : StoreInv u.db := storeInv_of_desk hreach
  obtain ⟨rows, ms, b', hpull, did, hexec⟩ := exec_inboxView inv.mail hrole hcurrent
  have hmoves := exec_moves env mom (.inboxView auth given limit) u.db false (by simp)
  rw [hexec] at hmoves
  have inv' : StoreInv b' := hmoves.storeInv inv
  have keys' : LogicalKeys b' := hmoves.keeps (P := LogicalKeys) (logicalKeys_of_desk hreach)
    fun _ _ _ _ hmove hb => hmove.logicalKeys hb
  refine ⟨_, b', hexec, entries_nodup did hpull inv'.mail, fun hlimit dm hdm howes => ?_⟩
  obtain ⟨hdm', hnot⟩ := did.obliged hpull inv.mail hdm howes
  rw [discoverable_iff inv' keys' hdm' (listed_obligation inv'.mail hdm' howes hnot hlimit)]
  refine and_congr_right fun _ => ?_
  have hsame := did.sameRows hnot
  constructor
  · rintro ⟨i, hi, hgood⟩
    exact ⟨i, hi.congr fun j hj => (hsame j hj).symm, hgood⟩
  · rintro ⟨i, hi, hgood⟩
    exact ⟨i, hi.congr hsame, hgood⟩

/-- `beta` has pulled the request, and finds it in its inbox. -/
theorem pulled_request_discoverable :
    let u := deskAfter (atDesk requestPulled)
    let beta := component "beta" .mcp 1 2
    ∃ es b' dm, exec plainEnv { nowMs := 1002 } (.inboxView beta none 50) u.db =
        (.ok (.inbox es), b') ∧ dm ∈ mailOf u.db "beta" ∧ dm.1.messageId = 8 ∧
      Discoverable b' ⟨1002⟩ beta es dm.1 := by
  intro u beta
  have hu : u.db.epochOf "beta" = some 1 ∧
      ((mailOf (exec plainEnv { nowMs := 1002 } (.inboxView beta none 50) u.db).2 "beta").filter
        (obliges 1)).length ≤ 50 ∧
      ((mailOf u.db "beta").any fun dm => dm.1.messageId = 8 ∧ obliges 1 dm ∧
        dm.2.unexpired ⟨1002⟩) = true ∧
      (u.db.injections.any fun i => i.messageId = 8 ∧ i.recipientEpoch = 1 ∧
        i.expiresAt.le ⟨1002⟩ = false ∧ i.consumedOp = none ∧ u.db.injections.all fun j =>
          j.logicalInjectionNumber ≤ i.logicalInjectionNumber) = true := by decide +kernel
  obtain ⟨hcurrent, hlimit, hmail, hrow⟩ := hu
  obtain ⟨dm, hdm, howes⟩ := List.any_eq_true.mp hmail
  obtain ⟨hid, howes, hlasts⟩ := of_decide_eq_true howes
  obtain ⟨i, hi, hgood⟩ := List.any_eq_true.mp hrow
  obtain ⟨him, hie, hlive, hunused, hhighest⟩ := of_decide_eq_true hgood
  obtain ⟨es, b', hexec, -, hall⟩ := @obligations_discoverable_iff plainEnv { nowMs := 1002 } beta
    none 50 u (reachable_deskAfter _) rfl hcurrent
  rw [hexec] at hlimit
  refine ⟨es, b', dm, hexec, hdm, hid, (hall hlimit dm hdm howes).mpr ⟨hlasts, i, ?_, hlive, ?_⟩⟩
  · exact ⟨hi, him.trans hid.symm, hie, fun j hj _ _ =>
      of_decide_eq_true (List.all_eq_true.mp hhighest j hj)⟩
  · intro op _
    rw [hunused]
    nofun

/-- A request that may wait for five seconds, and is pulled at once. -/
def shortLivedPulled : List Event :=
  requestSent.take 3 ++
    [ (.send (component "alpha" .mcp 1 1) { recipient := "beta-name", text := "please"
                                            requiresReply := true, ttlSeconds := some 5 },
        { nowMs := 1000 }),
      (.checkpointPull (component "beta" .hook 1 2) (some "ck") 10, { nowMs := 1001 }) ]

/-- Six seconds later the request is in flight and can be acknowledged, but the inbox is empty. -/
theorem short_lived_request_hidden :
    let u := deskAfter (atDesk shortLivedPulled)
    let beta := component "beta" .mcp 1 2
    let view := exec plainEnv { nowMs := 7000 } (.inboxView beta none 50) u.db
    u.Reachable plainEnv Any ∧ isAllowed beta.role .listInbox = true ∧
      u.db.epochOf "beta" = some 1 ∧
      ((mailOf view.2 "beta").filter (obliges 1)).length ≤ 50 ∧
      ((mailOf u.db "beta").any fun dm => dm.1.messageId = 8 ∧ dm.1.state = .transportWritten) ∧
      view.1 = .ok (.inbox []) ∧
      (exec plainEnv { nowMs := 7001 } (.ack beta { messageId := 8, accept := true }) view.2).1 =
        .ok (.acked { state := .accepted, duplicate := false }) := by
  intro u beta view
  refine ⟨reachable_deskAfter _, rfl, ?_⟩
  decide +kernel

end Proof
end XBus
