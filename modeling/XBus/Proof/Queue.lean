import XBus.Proof.Obligations
import XBus.Proof.Sequences

/-!
# A pull takes the head of the queue

The queue of a session is what waits for it, is due and has not expired, in the order of the
recipient sequence. `IsQueue` says so without naming the query, and `IsQueue.eq_eligible` that the
query computes it: the sequence numbers of one recipient are different (`ux_recipseq`), so the
order is strict and there is one such list.

A pull goes through the first elements of the queue. Each is marked, and comes back unless a row of
`context_injections` says it was shown at this epoch. The table has a second unique index, over
message and checkpoint id, and `issue` answers both conflicts alike: a message shown in an earlier
epoch under the checkpoint id of the pull is kept back as well, although this epoch has never seen
it. `pull_delivers_head_iff` says that this is the only case in which the head is not delivered.
-/

set_option autoImplicit false

namespace XBus
namespace Proof

open Lib

variable {env : Env} {mom : Moment} {now : Iso} {auth : SessionAuthority} {b b' : Broker} {mid : Id}
  {given : Option String} {limit : Nat}

/-! ## Rows of an epoch -/

/-- The message has a row at the epoch. -/
def InjectedAt (b : Broker) (epoch : Nat) (mid : Id) : Prop :=
  ∃ i ∈ b.injections, i.messageId = mid ∧ i.recipientEpoch = epoch

instance (b : Broker) (epoch : Nat) (mid : Id) : Decidable (InjectedAt b epoch mid) :=
  inferInstanceAs (Decidable (∃ i ∈ b.injections, i.messageId = mid ∧ i.recipientEpoch = epoch))

/-- Where an epoch has rows of a message, one of them has the number 1. -/
def FirstRows (b : Broker) : Prop :=
  ∀ i ∈ b.injections, ∃ j ∈ b.injections, j.messageId = i.messageId ∧
    j.recipientEpoch = i.recipientEpoch ∧ j.logicalInjectionNumber = 1

namespace FirstRows

theorem same (inv : FirstRows b) (h : b'.injections = b.injections) : FirstRows b' := by
  unfold FirstRows
  rw [h]
  exact inv

/-- A new row has the number 1, or is not the first one. -/
theorem snoc (inv : FirstRows b) {i : Injection} (h : b'.injections = b.injections ++ [i])
    (hfirst : i.logicalInjectionNumber = 1 ∨ InjectedAt b i.recipientEpoch i.messageId) :
    FirstRows b' := by
  intro x hx
  rw [h] at hx ⊢
  rcases List.mem_append.mp hx with hx | hx
  · obtain ⟨j, hj, hrow⟩ := inv x hx
    exact ⟨j, List.mem_append_left _ hj, hrow⟩
  · obtain rfl := List.mem_singleton.mp hx
    rcases hfirst with hone | ⟨y, hy, hmid, hepoch⟩
    · exact ⟨x, List.mem_append_right _ (List.mem_singleton_self x), rfl, rfl, hone⟩
    · obtain ⟨j, hj, hjm, hje, hone⟩ := inv y hy
      exact ⟨j, List.mem_append_left _ hj, hjm.trans hmid, hje.trans hepoch, hone⟩

theorem rehomeOne (inv : FirstRows b) {sid : SessionId} {epoch : Nat} :
    FirstRows (b.rehomeOne sid epoch now mid) := by
  unfold Broker.rehomeOne
  split
  · exact inv
  · exact inv.snoc rfl (.inl rfl)

theorem rehomeAll (inv : FirstRows b) {sid : SessionId} {epoch : Nat} (mids : List Id) :
    FirstRows (mids.foldl (fun b mid => b.rehomeOne sid epoch now mid) b) := by
  induction mids generalizing b with
  | nil => exact inv
  | cons mid mids ih => exact ih inv.rehomeOne

theorem injectedAt_iff (inv : FirstRows b) {epoch : Nat} : InjectedAt b epoch mid ↔
    ∃ i ∈ b.injections, i.messageId = mid ∧ i.recipientEpoch = epoch ∧
      i.logicalInjectionNumber = 1 := by
  constructor
  · rintro ⟨i, hi, rfl, rfl⟩
    exact inv i hi
  · rintro ⟨i, hi, hmid, hepoch, -⟩
    exact ⟨i, hi, hmid, hepoch⟩

end FirstRows

theorem Move.firstRows {k : Kind} (h : Move env k b b') (inv : FirstRows b) : FirstRows b' := by
  by_cases hsame : writesRows k = false
  · exact inv.same (Move.sameRows h hsame)
  cases h with
  | inject now auth ck audited m =>
    have hspec := injectOne_spec env now auth ck audited m b
    cases hid : (injectOne env now auth ck audited m b).1 with
    | none => exact inv.same (hspec.silent hid).1
    | some id => exact inv.snoc (hspec.presented id hid).2.2.1 (.inl rfl)
  | reissue now auth m found addressed presented =>
    -- A further row: the message was presented at this epoch before.
    rcases hissue : issue env now m.messageId auth.sessionId auth.epoch
      (.minted "redeliver-" b.nextId) (b.maxLogical m.messageId auth.epoch + 1) b.mint
      with ⟨_ | id, b₁⟩
    · exact inv.same (issue_none hissue).1.injections
    · obtain ⟨-, rfl, -⟩ := issue_some hissue
      exact inv.snoc rfl (.inr (row_of_maxLogical presented))
  | consume id op =>
    intro x hx
    obtain ⟨i, hi, rfl⟩ := mem_updateWhere.mp hx
    obtain ⟨j, hj, hjm, hje, hone⟩ := inv i hi
    refine ⟨_, mem_updateWhere.mpr ⟨j, hj, rfl⟩, ?_⟩
    split_ifs <;> exact ⟨hjm, hje, hone⟩
  | @advance _ now sid resume s found =>
    obtain ⟨as, es, n, hb', -⟩ := advanceEpoch_begun b env now sid (s.activeEpoch + 1) resume
    have hbegun : FirstRows (Broker.begun b now sid (s.activeEpoch + 1)) := inv.same rfl
    have hrehomed : FirstRows ((Broker.begun b now sid
        (s.activeEpoch + 1)).rehomeAcceptedReplyAuthority sid (s.activeEpoch + 1) now) :=
      hbegun.rehomeAll _
    rw [hb']
    exact hrehomed.same rfl
  | _ => exact absurd rfl hsame

/-! ## Sequence numbers -/

/-- No two messages of one recipient have the same number. -/
def NumbersDiffer (b : Broker) : Prop :=
  (b.messages.map fun m => (m.recipientSessionId, m.recipientSequence)).Nodup

theorem Posted.numbersDiffer {m : Message} (h : Posted b b' m) (inv : NumbersDiffer b) :
    NumbersDiffer b' := by
  rw [NumbersDiffer, h.messages, List.map_append, List.nodup_append]
  refine ⟨inv, List.nodup_singleton _, fun x hx y hy hxy => ?_⟩
  obtain ⟨m', hm', rfl⟩ := List.mem_map.mp hx
  obtain rfl := List.mem_singleton.mp hy
  exact h.newSequence m' hm' (Prod.mk.inj hxy)

/-- Removing a record takes the counter away, and not the messages. The index still holds. -/
theorem Move.numbersDiffer {k : Kind} (h : Move env k b b') (inv : NumbersDiffer b) :
    NumbersDiffer b' := by
  by_cases hk : k = .remove
  · subst hk
    cases h
    exact inv
  · rcases Move.counters h hk with ⟨m, hposted⟩ | hkept
    · exact hposted.numbersDiffer inv
    · unfold NumbersDiffer
      rw [hkept.messages]
      exact inv

/-! ## The queue -/

/-- The messages that wait for the session, are due and have not expired, in strict order of their
    sequence numbers. -/
structure IsQueue (b : Broker) (sid : SessionId) (now : Iso) (queue : List Message) : Prop where
  mem : ∀ m, m ∈ queue ↔ ∃ d ∈ b.deliveries, d.recipientSessionId = sid ∧ d.state.waiting = true ∧
    d.due now = true ∧ b.message? d.messageId = some m ∧ m.unexpired now = true
  ordered : queue.Pairwise fun m m' => m.recipientSequence < m'.recipientSequence

/-- What waits for a session is addressed to it. -/
theorem recipient_of_mem_eligible (inv : MailInv b) {sid : SessionId} {m : Message}
    (h : m ∈ b.eligible sid now) : m ∈ b.messages ∧ m.recipientSessionId = sid := by
  obtain ⟨d, hd, hto, -, -, found, -⟩ := mem_eligible.mp h
  have hm := List.mem_of_find?_eq_some found
  have hid : m.messageId = d.messageId := by simpa using List.find?_some found
  refine ⟨hm, inv.addressed_unique (inv.addressed_of_mem hm) ?_⟩
  exact ⟨d, hd, hid.symm, hto⟩

/-- The query of the pulls computes the queue. -/
theorem eligible_isQueue (inv : MailInv b) (numbers : NumbersDiffer b) (sid : SessionId)
    (now : Iso) : IsQueue b sid now (b.eligible sid now) := by
  refine ⟨fun m => mem_eligible, ?_⟩
  have hsorted : (b.eligible sid now).Pairwise fun m m' =>
      m.recipientSequence ≤ m'.recipientSequence := List.pairwise_insertionSort _ _
  refine (hsorted.and (List.pairwise_map.mp inv.eligible_nodup)).imp_of_mem
    fun {m m'} hm hm' h => ?_
  refine Nat.lt_of_le_of_ne h.1 fun heq => h.2 ?_
  obtain ⟨hstored, hto⟩ := recipient_of_mem_eligible inv hm
  obtain ⟨hstored', hto'⟩ := recipient_of_mem_eligible inv hm'
  have hkey : (m.recipientSessionId, m.recipientSequence) =
      (m'.recipientSessionId, m'.recipientSequence) := by rw [hto, hto', heq]
  rw [eq_of_key_eq numbers hstored hstored' hkey]

/-- There is one queue. -/
theorem IsQueue.unique {sid : SessionId} {queue queue' : List Message}
    (h : IsQueue b sid now queue) (h' : IsQueue b sid now queue') : queue = queue' := by
  have hnodup {q : List Message} (hq : IsQueue b sid now q) : q.Nodup :=
    hq.ordered.imp fun hlt heq => by
      rw [heq] at hlt
      exact Nat.lt_irrefl _ hlt
  have hperm : queue.Perm queue' := (List.perm_ext_iff_of_nodup (hnodup h) (hnodup h')).mpr
    fun m => (h.mem m).trans (h'.mem m).symm
  exact hperm.eq_of_pairwise (fun _ _ _ _ hlt hgt => absurd hlt (Nat.lt_asymm hgt)) h.ordered
    h'.ordered

/-! ## The pull -/

/-- What a pull that takes `head` off the queue is to do: answer with the bodies this epoch has not
    had, in order; put each one it answers with on record, and nothing else; take every delivery of
    the head out of the queue; and leave the others as they are. -/
structure TakesHead (auth : SessionAuthority) (head : List Message) (b : Broker)
    (ms : List PendingMessage) (b' : Broker) : Prop where
  bodies : ms.map (·.blur) =
    (head.filter fun m => ¬ InjectedAt b auth.epoch m.messageId).map freshBody
  ordered : ms.Pairwise fun m m' => m.sequence < m'.sequence
  messages : b'.messages = b.messages
  recorded : ∀ m ∈ ms, ∃ i ∈ b'.injections, m.injectionId = some i.injectionId ∧
    i.messageId = m.messageId ∧ i.recipientSessionId = auth.sessionId ∧
    i.recipientEpoch = auth.epoch
  kept : ∃ is, b'.injections = b.injections ++ is ∧ ∀ i ∈ is, i.messageId ∈ ms.map (·.messageId)
  deliveries : ∃ g, b'.deliveries = b.deliveries.map g ∧ ∀ d ∈ b.deliveries,
    (g d).messageId = d.messageId ∧ (g d).recipientSessionId = d.recipientSessionId ∧
    (∀ m ∈ head, m.messageId = d.messageId →
      (g d).state = landed m (InjectedAt b auth.epoch m.messageId)) ∧
    ((∀ m ∈ head, m.messageId ≠ d.messageId) → g d = d)

/-- Nothing in the head was shown under the checkpoint id of the pull without being shown at its
    epoch. -/
def NotCarried (b : Broker) (epoch : Nat) (given : Option String) (head : List Message) : Prop :=
  ∀ m ∈ head, ∀ i ∈ b.injections, i.messageId = m.messageId →
    (∃ text, given = some text ∧ i.checkpointId = .given text) → InjectedAt b epoch m.messageId

/-- Bodies are kept back for one of two reasons. -/
theorem shown_iff_injectedAt (first : FirstRows b) {epoch : Nat} :
    b.shown epoch given mid = true ↔ InjectedAt b epoch mid ∨
      ∃ i ∈ b.injections, i.messageId = mid ∧
        ∃ text, given = some text ∧ i.checkpointId = .given text := by
  rw [shown_iff, first.injectedAt_iff]
  constructor
  · rintro ⟨i, hi, hmid, ⟨hepoch, hone⟩ | hck⟩
    · exact .inl ⟨i, hi, hmid, hepoch, hone⟩
    · exact .inr ⟨i, hi, hmid, hck⟩
  · rintro (⟨i, hi, hmid, hepoch, hone⟩ | ⟨i, hi, hmid, hck⟩)
    · exact ⟨i, hi, hmid, .inl ⟨hepoch, hone⟩⟩
    · exact ⟨i, hi, hmid, .inr hck⟩

theorem NotCarried.shown_iff (first : FirstRows b) {epoch : Nat} {head : List Message}
    (h : NotCarried b epoch given head) {m : Message} (hm : m ∈ head) :
    b.shown epoch given m.messageId = true ↔ InjectedAt b epoch m.messageId := by
  rw [shown_iff_injectedAt first]
  constructor
  · rintro (hat | ⟨i, hi, hmid, hck⟩)
    · exact hat
    · exact h m hm i hi hmid hck
  · exact .inl

/-- Bodies come back in the order of the head. -/
theorem sequences_of_blur {ms : List PendingMessage} {xs : List Message}
    (h : ms.map (·.blur) = xs.map freshBody)
    (hsorted : xs.Pairwise fun m m' => m.recipientSequence < m'.recipientSequence) :
    ms.Pairwise fun m m' => m.sequence < m'.sequence := by
  have hseqs : ms.map (·.sequence) = xs.map (·.recipientSequence) := by
    have hmap := congrArg (List.map PendingMessage.sequence) h
    rw [List.map_map, List.map_map] at hmap
    exact hmap
  refine List.pairwise_map.mp (?_ : (ms.map (·.sequence)).Pairwise (· < ·))
  rw [hseqs]
  exact List.pairwise_map.mpr hsorted

theorem takesHead_iff {head : List Message} {ms : List PendingMessage} (first : FirstRows b)
    (hpull : Pullable b head) (inv : MailInv b)
    (hsorted : head.Pairwise fun m m' => m.recipientSequence < m'.recipientSequence)
    (did : Foretold b head (fun mid => b.shown auth.epoch given mid = true) ms b')
    (hissues : Issues env now auth b b' ms) :
    TakesHead auth head b ms b' ↔ NotCarried b auth.epoch given head := by
  constructor
  · intro h m hm i hi hmid hck
    by_contra hnot
    -- The pull owes this body, and has kept it back.
    have howed : freshBody m ∈ ms.map (·.blur) := by
      rw [h.bodies]
      exact List.mem_map_of_mem (List.mem_filter.mpr ⟨hm, by simpa using hnot⟩)
    rw [did.bodies] at howed
    obtain ⟨m', hm', heq⟩ := List.mem_map.mp howed
    have hid : m'.messageId = m.messageId := congrArg PendingMessage.messageId heq
    have hshown : b.shown auth.epoch given m'.messageId = true := by
      rw [hid, shown_iff_injectedAt first]
      exact .inr ⟨i, hi, hmid, hck⟩
    exact of_decide_eq_true (List.mem_filter.mp hm').2 hshown
  · intro hclean
    have hfilter : (head.filter fun m => ¬ b.shown auth.epoch given m.messageId = true) =
        head.filter fun m => ¬ InjectedAt b auth.epoch m.messageId := by
      refine List.filter_congr fun m hm => ?_
      rw [decide_eq_decide, hclean.shown_iff first hm]
    have hbodies := did.bodies
    rw [hfilter] at hbodies
    refine ⟨hbodies, sequences_of_blur hbodies (hsorted.sublist List.filter_sublist), did.messages,
      ?_, did.injections, ?_⟩
    · intro pm hpm
      obtain ⟨id, ck, hid, -, hrow⟩ := hissues.rows pm hpm
      exact ⟨_, hrow, hid, rfl, rfl, rfl⟩
    · obtain ⟨g, hg, hsettles⟩ := did.deliveries
      refine ⟨g, hg, fun d hd => ?_⟩
      have hset := hsettles d hd
      refine ⟨hset.messageId, hset.recipient, fun m hm hid => ?_, hset.other⟩
      have hwaits : d.state.waiting = true := by
        obtain ⟨x, hx, hxid, hxwaits⟩ := hpull.waits m hm
        rwa [← inv.delivery_eq hx hd (hxid.trans hid)]
      rw [hset.state m hm hid hwaits]
      congr 1
      exact decide_eq_decide.mpr (hclean.shown_iff first hm)

/-- A pull that refuses has written no table of the mail. -/
def RefusesWhole (env : Env) (mom : Moment) (op : Op) : Prop :=
  ∀ b f b', exec env mom op b = (.error f, b') →
    b'.messages = b.messages ∧ b'.deliveries = b.deliveries ∧ b'.injections = b.injections

theorem checkpointPull_refusesWhole : RefusesWhole env mom (.checkpointPull auth given limit) := by
  intro b f b' h
  have hrefuses : Refuses Bookkeeping (exec env mom (.checkpointPull auth given limit)) := by
    simp only [exec]
    refine Refuses.bind ?_ fun ck => .map checkpointPull_refuses
    cases given with
    | some text => exact .pure _
    | none => exact .act fun _ => .mint
  have hbooks := hrefuses b f b' h
  exact ⟨hbooks.messages, hbooks.deliveries, hbooks.injections⟩

theorem numbersDiffer_of_desk {ok : Desk → DeskEvent → Prop} {u : Desk}
    (h : u.Reachable env ok) : NumbersDiffer u.db := by
  refine desk_of_moves ?_ (fun _ _ _ => Move.numbersDiffer) h
  have hempty : NumbersDiffer {} := List.nodup_nil
  exact (Move.operator : Move env .operator {} (initial env)).numbersDiffer hempty

theorem firstRows_of_desk {ok : Desk → DeskEvent → Prop} {u : Desk} (h : u.Reachable env ok) :
    FirstRows u.db := by
  refine desk_of_moves ?_ (fun _ _ _ => Move.firstRows) h
  have hempty : FirstRows {} := fun i hi => nomatch hi
  exact (Move.operator : Move env .operator {} (initial env)).firstRows hempty

/-- **A pull delivers exactly the head of the queue**, answer and tables in one, exactly if the head
    has nothing that was shown under the same checkpoint id in another epoch only. -/
theorem pull_delivers_head_iff {u : Desk} {queue : List Message} (hreach : u.Reachable env Any)
    (hrole : auth.role = .hook) (hcurrent : u.db.epochOf auth.sessionId = some auth.epoch)
    (hopen : Open u.db auth.sessionId) (hqueue : IsQueue u.db auth.sessionId mom.now queue) :
    let head := queue.take (min (max 1 limit) 50)
    (RefusesWhole env mom (.checkpointPull auth given limit) ∧
      ∃ ms b', exec env mom (.checkpointPull auth given limit) u.db = (.ok (.bodies ms), b') ∧
        TakesHead auth head u.db ms b') ↔ NotCarried u.db auth.epoch given head := by
  intro head
  have inv := mailInv_of_desk hreach
  have hfirst := firstRows_of_desk hreach
  have helig := eligible_isQueue inv (numbersDiffer_of_desk hreach) auth.sessionId mom.now
  have hhead : head = u.db.pendingForSessionId auth.sessionId (min (max 1 limit) 50) mom.now := by
    show queue.take _ = _
    rw [hqueue.unique helig]
    rfl
  obtain ⟨ms, b', hexec, did⟩ := @hookPull_foretold env mom auth u.db given inv hrole hcurrent limit
  rw [hopen.1, hopen.2, Bool.and_self, if_pos rfl, ← hhead] at did
  have hpull : Pullable u.db head := by
    rw [hhead]
    exact inv.pullable
  -- With both gates open the pull selects the head of the queue.
  have hiff := takesHead_iff hfirst hpull inv (hqueue.ordered.sublist (List.take_sublist _ _)) did
    (exec_issues hexec)
  constructor
  · rintro ⟨-, ms₁, b₁, hexec₁, htakes⟩
    rw [hexec] at hexec₁
    obtain ⟨hms, rfl⟩ := Prod.mk.inj hexec₁
    obtain rfl := Response.bodies.inj (Except.ok.inj hms)
    exact hiff.mp htakes
  · intro hclean
    exact ⟨checkpointPull_refusesWhole, ms, b', hexec, hiff.mpr hclean⟩

/-- `beta` pulls the request under a checkpoint id of its own. -/
theorem request_pulled_from_head :
    let u := deskAfter (atDesk requestSent)
    let beta := component "beta" .hook 1 2
    let head := (u.db.eligible "beta" ⟨1001⟩).take (min (max 1 10) 50)
    head.map (·.messageId) = [8] ∧ RefusesWhole plainEnv { nowMs := 1001 }
        (.checkpointPull beta (some "ck") 10) ∧
      ∃ ms b', exec plainEnv { nowMs := 1001 } (.checkpointPull beta (some "ck") 10) u.db =
        (.ok (.bodies ms), b') ∧ TakesHead beta head u.db ms b' := by
  intro u beta head
  have hreach : u.Reachable plainEnv Any := reachable_deskAfter _
  have hu : head.map (·.messageId) = [8] ∧ u.db.epochOf "beta" = some 1 ∧
      acceptsInjection (u.db.readinessOf "beta") = true ∧
      u.db.autoDeliveryEnabled "beta" = true ∧ u.db.injections = [] := by decide +kernel
  obtain ⟨hhead, hcurrent, hready, hauto, hnone⟩ := hu
  refine ⟨hhead, (@pull_delivers_head_iff plainEnv { nowMs := 1001 } beta (some "ck") 10 u _ hreach
    rfl hcurrent ⟨hready, hauto⟩ (eligible_isQueue (mailInv_of_desk hreach)
      (numbersDiffer_of_desk hreach) "beta" ⟨1001⟩)).mpr ?_⟩
  intro m _ i hi
  rw [hnone] at hi
  cases hi

/-- `beta` is superseded after it has pulled the request, and its successor pulls under the same
    checkpoint id: the request heads the queue, the new epoch has not seen it, and nothing comes
    back. -/
theorem carried_checkpoint_not_delivered :
    let u := deskAfter (atDesk ((pulledPerEpoch "ck").take 7))
    let beta := component "beta" .hook 2 3
    let pull := exec plainEnv { nowMs := 1004 } (.checkpointPull beta (some "ck") 10) u.db
    let head := (u.db.eligible "beta" ⟨1004⟩).take (min (max 1 10) 50)
    u.Reachable plainEnv Any ∧ Open u.db "beta" ∧ u.db.epochOf "beta" = some 2 ∧
      head.map (·.messageId) = [8] ∧ ¬ InjectedAt u.db 2 8 ∧ pull.1 = .ok (.bodies []) ∧
      ¬ ∃ ms b', pull = (.ok (.bodies ms), b') ∧ TakesHead beta head u.db ms b' := by
  intro u beta pull head
  have hu : Open u.db "beta" ∧ u.db.epochOf "beta" = some 2 ∧ head.map (·.messageId) = [8] ∧
      ¬ InjectedAt u.db 2 8 ∧ pull.1 = .ok (.bodies []) := by
    unfold Open
    decide +kernel
  obtain ⟨hopen, hcurrent, hhead, hnew, hpull⟩ := hu
  refine ⟨reachable_deskAfter _, hopen, hcurrent, hhead, hnew, hpull, ?_⟩
  rintro ⟨ms, b', hexec, htakes⟩
  have hms : ms = [] := by
    have hfst : pull.1 = .ok (.bodies ms) := congrArg Prod.fst hexec
    rw [hpull] at hfst
    exact (Response.bodies.inj (Except.ok.inj hfst)).symm
  obtain ⟨m, hm, hid⟩ : ∃ m ∈ head, m.messageId = 8 := by
    have hmem : 8 ∈ head.map (·.messageId) := by
      rw [hhead]
      exact List.mem_singleton_self 8
    exact List.mem_map.mp hmem
  have howed : freshBody m ∈ ms.map (·.blur) := by
    rw [htakes.bodies]
    refine List.mem_map_of_mem (List.mem_filter.mpr ⟨hm, ?_⟩)
    rw [hid]
    exact decide_eq_true hnew
  rw [hms] at howed
  cases howed

end Proof
end XBus
