import XBus.Proof.EdgeTable

/-!
# What senders are told

Three words say to the sender that its message was not shown to anyone: the category
`expired_before_injection`, the outcome `cancelled_before_delivery`, and the signal while a delivery
waits. All three are read off the state of the delivery, and the rows that say whether a body was
shown are elsewhere. `PutsBack` lists what takes a delivery back among those that wait after its
body was shown; as long as nothing of that happens to a message, a delivery that waits, or lapsed
while it did, is one nobody has seen (`Unseen`).

The signal `replied` stands for a completed delivery. Apart from replies, only what asks for no
response is completed.
-/

set_option autoImplicit false

namespace XBus
namespace Proof

open Lib

variable {env : Env} {mom : Moment} {now : Iso} {auth : SessionAuthority} {b b' : Broker} {mid : Id}
  {d d' : Delivery}

/-! ## Back to waiting -/

/-- An operation takes the delivery `d` of the message back among those that wait. -/
inductive PutsBack (env : Env) (b : Broker) (mid : Id) (d : Delivery) : DeskOp → Moment → Prop
  /-- The deadline for its acknowledgement has passed, the sweep gets to it, and it may be tried
      again. -/
  | timedOut {mom : Moment} (served : d ∈ served b env mom.now)
      (left : d.attemptAckTimeout + 1 < env.backoff.maxAttempts) :
      PutsBack env b mid d (.store .sweep) mom
  /-- Its recipient is taken over, or joined after the deadline. -/
  | recovered {mom : Moment} {input : RegisterInput} {a : SessionAuthority} {b' : Broker}
      (registers : register env mom input b = (.ok a, b')) (flies : d.state = .transportWritten)
      (recipient : d.recipientSessionId = a.sessionId)
      (abandoned : b.epochOf a.sessionId ≠ some a.epoch ∨
        d.leaseExpiresAt.all (fun t => t.le mom.now) = true) :
      PutsBack env b mid d (.store (.register input)) mom
  | redelivered {mom : Moment} {confirm : Bool} (flies : d.state = .transportWritten) :
      PutsBack env b mid d (.store (.operatorRedeliver mid confirm)) mom
  | replayed {mom : Moment} (accepted : d.state = .accepted) :
      PutsBack env b mid d (.store (.operatorRedeliver mid true)) mom
  | redriven {mom : Moment} {validate : SessionId → String → Option String} {m : Message}
      (dead : d.state = .deadLetter) (found : b.message? mid = some m)
      (valid : validate m.recipientSessionId (env.text.toLowerCase m.senderAlias) = none) :
      PutsBack env b mid d (.store (.redrive mid validate)) mom

/-- A step that takes back a message somebody has seen. -/
def TakesBack (env : Env) (mid : Id) (u : Desk) (e : DeskEvent) : Prop :=
  Viewed u.db mid ∧ ∃ d, u.db.delivery? mid = some d ∧ PutsBack env u.db mid d e.1 e.2

instance (b : Broker) (mid : Id) : Decidable (Viewed b mid) :=
  inferInstanceAs (Decidable (∃ i ∈ b.injections, i.messageId = mid))

/-- A delivery that waits, or lapsed while it did. -/
def Waited (d : Delivery) : Prop :=
  d.state.waiting = true ∨
    (d.state = .expired ∧ d.failureCategory = some .expiredBeforeInjection)

/-- The statements that take no delivery back among those that wait, the sweep's for timeouts
    apart. -/
def onwardStmts : List Stmt :=
  [.completed, .written, .acked, .answered, .lapsed, .buried, .abandoned, .removed, .discarded,
    .cancelled]

/-- After these statements nothing waits that did not before. -/
theorem Path.waited {ack reply : Bool} (h : Path env now onwardStmts ack reply d d')
    (hd' : Waited d') : Waited d := by
  refine h.keeps (P := fun x => Waited x → Waited d) id (fun s hs x y hstep ih hy => ?_) hd'
  cases hstep with
  | lapsed waits => exact ih (.inl waits)
  | requeued | timedOut | exhausted | rearmed | replayed | redriven => simp [onwardStmts] at hs
  | acked flies accept =>
    rcases hy with hy | ⟨hy, -⟩ <;> cases accept <;> cases hy
  | abandoned =>
    rcases hy with hy | ⟨-, hy⟩ <;> cases hy
  | _ =>
    rcases hy with hy | ⟨hy, -⟩ <;> cases hy

/-! ### The operator's hand -/

theorem operatorRedeliver_onward {confirm : Bool} (hd : d ∈ b.deliveries) :
    ∃ d' ∈ (operatorRedeliver now mid confirm b).2.deliveries, d' = d ∨ (d.messageId = mid ∧
      (d.state.waiting = true ∨ d.state = .transportWritten ∨
        (d.state = .accepted ∧ confirm = true)) ∧
      d' = { d with state := .queued, nextAttemptAt := none, leaseExpiresAt := none
                    updatedAt := now }) := by
  rcases hr : operatorRedeliver now mid confirm b with ⟨f | r, b'⟩
  · obtain rfl : b = b' := operatorRedeliver_refuses b f b' hr
    exact ⟨d, hd, .inl rfl⟩
  simp only [operatorRedeliver, operatorRedeliverTransaction, Call.transaction_ok, Call.get_bind]
    at hr
  cases hx : b.delivery? mid with
  | none =>
    simp only [hx, Call.pure_ok] at hr
    exact ⟨d, hr.2 ▸ hd, .inl rfl⟩
  | some x =>
    simp only [hx] at hr
    split at hr
    · rename_i haccepted
      simp only [Call.bind_ok, Call.requireElse_ok, Call.act_bind, Call.modify_bind,
        Call.pure_ok] at hr
      obtain ⟨_, _, ⟨hconfirm, rfl⟩, -, rfl⟩ := hr
      refine ⟨_, List.mem_map_of_mem hd, ?_⟩
      split
      · rename_i hp
        simp only [decide_eq_true_eq] at hp
        exact .inr ⟨hp.1, .inr (.inr ⟨hp.2, hconfirm⟩), rfl⟩
      · exact .inl rfl
    · simp only [Call.bind_ok, Call.require_ok, Call.modify_bind, Call.pure_ok] at hr
      obtain ⟨_, _, ⟨-, rfl⟩, -, rfl⟩ := hr
      refine ⟨_, List.mem_map_of_mem hd, ?_⟩
      split
      · rename_i hp
        simp only [decide_eq_true_eq] at hp
        refine .inr ⟨hp.1, ?_, rfl⟩
        obtain ⟨-, h | h | h⟩ := hp
        · exact .inl (by rw [h]; rfl)
        · exact .inl (by rw [h]; rfl)
        · exact .inr (.inl h)
      · exact .inl rfl

theorem redrive_onward {validate : SessionId → String → Option String} (inv : MailInv b)
    (hd : d ∈ b.deliveries) : ∃ d' ∈ (redrive env now mid validate b).2.deliveries,
      d' = d ∨ (d.messageId = mid ∧ d'.messageId = mid ∧ d.state = .deadLetter ∧
        ∃ m, b.message? mid = some m ∧
          validate m.recipientSessionId (env.text.toLowerCase m.senderAlias) = none) := by
  rcases hr : redrive env now mid validate b with ⟨f | r, b'⟩
  · obtain rfl : b = b' := (Refuses.transaction (R := Eq) _) b f b' hr
    exact ⟨d, hd, .inl rfl⟩
  simp only [redrive, Call.transaction_ok, Call.get_bind] at hr
  cases hmsg : b.message? mid with
  | none =>
    simp only [hmsg] at hr
    exact ⟨d, (Call.pure_ok.mp hr).2 ▸ hd, .inl rfl⟩
  | some m =>
  cases hx : b.delivery? mid with
  | none =>
    simp only [hmsg, hx] at hr
    exact ⟨d, (Call.pure_ok.mp hr).2 ▸ hd, .inl rfl⟩
  | some x =>
    have hxid : x.messageId = mid := by simpa using List.find?_some hx
    simp only [hmsg, hx] at hr
    split at hr
    · exact ⟨d, (Call.pure_ok.mp hr).2 ▸ hd, .inl rfl⟩
    · rename_i hdead
      cases hvalid : validate m.recipientSessionId (env.text.toLowerCase m.senderAlias) with
      | some reason =>
        simp only [hvalid] at hr
        exact ⟨d, (Call.pure_ok.mp hr).2 ▸ hd, .inl rfl⟩
      | none =>
        simp only [hvalid, Call.act_bind, Call.modify_bind, Call.pure_ok] at hr
        obtain ⟨-, rfl⟩ := hr
        refine ⟨_, List.mem_map_of_mem hd, ?_⟩
        split
        · rename_i hp
          have hdm : d.messageId = mid := of_decide_eq_true hp
          have hsame : d = x :=
            inv.delivery_eq hd (List.mem_of_find?_eq_some hx) (hdm.trans hxid.symm)
          exact .inr ⟨hdm, hdm, hsame ▸ not_not.mp hdead, m, rfl, hvalid⟩
        · exact .inl rfl

/-! ### The sweep -/

/-- A sweep serves what lapsed, and then only takes down. -/
theorem sweep_onward (inv : MailInv b) (hd : d ∈ b.deliveries) :
    ∃ d' ∈ (sweep env mom b).2.deliveries, Path env mom.now [.lapsed, .buried, .abandoned]
      (b.requiresAck d.messageId) (b.requiresReply d.messageId)
      (if d ∈ served b env mom.now then ackTimedOut env mom d else d) d' := by
  set b₁ := (reapAckTimeouts env mom b).db with hb₁
  obtain ⟨hmsgs, hdel⟩ : b₁.messages = b.messages ∧ b₁.deliveries = b.deliveries.map fun d =>
      if d ∈ served b env mom.now then ackTimedOut env mom d else d := reapAckTimeouts_rows inv
  have hfold : Moves env [.note, .restate] b b₁ :=
    IsFrame.foldl AckSweep.db (b.lapsed mom.now) { db := b } fun acc r _ =>
      reapAckTimeout_moves acc r
  have inv₁ : MailInv b₁ := hfold.mailInv inv
  have inv' : MailInv (sweep env mom b).2 := (sweep_respects b).mailInv inv
  set d₁ := if d ∈ served b env mom.now then ackTimedOut env mom d else d with hd₁
  have hmem : d₁ ∈ b₁.deliveries := hdel ▸ List.mem_map_of_mem hd
  have hid : d₁.messageId = d.messageId := by
    rw [hd₁]
    split
    · exact ackTimedOut_messageId
    · rfl
  obtain ⟨d', hd', hpath⟩ := sweep_rest_traced.onward inv₁ inv' hmem
  rw [requiresAck_congr hmsgs, requiresReply_congr hmsgs, hid] at hpath
  exact ⟨d', hd', hpath⟩

/-! ### Every step -/

/-- Where a step may lead the delivery `d`. -/
inductive Leads (env : Env) (mom : Moment) (b : Broker) (d : Delivery) :
    DeskOp → Delivery → Prop
  | onward {op : DeskOp} {d' : Delivery} (path : Path env mom.now onwardStmts
      (b.requiresAck d.messageId) (b.requiresReply d.messageId) d d') : Leads env mom b d op d'
  | swept {d' : Delivery} (path : Path env mom.now [.lapsed, .buried, .abandoned]
      (b.requiresAck d.messageId) (b.requiresReply d.messageId)
      (if d ∈ served b env mom.now then ackTimedOut env mom d else d) d') :
      Leads env mom b d (.store .sweep) d'
  | recovered {input : RegisterInput} {a : SessionAuthority} {b' : Broker}
      (registers : register env mom input b = (.ok a, b')) (flies : d.state = .transportWritten)
      (recipient : d.recipientSessionId = a.sessionId)
      (abandoned : b.epochOf a.sessionId ≠ some a.epoch ∨
        d.leaseExpiresAt.all (fun t => t.le mom.now) = true) :
      Leads env mom b d (.store (.register input)) { d with state := .queued, updatedAt := mom.now }
  | rearmed {confirm : Bool} (meets : d.state.waiting = true ∨ d.state = .transportWritten ∨
        (d.state = .accepted ∧ confirm = true)) :
      Leads env mom b d (.store (.operatorRedeliver d.messageId confirm))
        { d with state := .queued, nextAttemptAt := none, leaseExpiresAt := none
                 updatedAt := mom.now }
  | redriven {validate : SessionId → String → Option String} {m : Message} {d' : Delivery}
      (same : d'.messageId = d.messageId) (dead : d.state = .deadLetter)
      (found : b.message? d.messageId = some m)
      (valid : validate m.recipientSessionId (env.text.toLowerCase m.senderAlias) = none) :
      Leads env mom b d (.store (.redrive d.messageId validate)) d'

theorem Leads.messageId {op : DeskOp} (h : Leads env mom b d op d') :
    d'.messageId = d.messageId := by
  cases h with
  | onward path => exact path.messageId
  | swept path =>
    rw [path.messageId]
    split
    · exact ackTimedOut_messageId
    · rfl
  | recovered | rearmed => rfl
  | redriven same => exact same

/-- **Every step**: the delivery of a message leads to the delivery of the message. -/
theorem desk_leads (mail : MailInv b) {op : DeskOp} (hd : d ∈ b.deliveries) :
    ∃ d' ∈ (op.call env mom b).2.deliveries, Leads env mom b d op d' := by
  have hpath (hK : deskStmts op ⊆ onwardStmts) :
      ∃ d' ∈ (op.call env mom b).2.deliveries, Leads env mom b d op d' := by
    have hf : Follows env mom.now (deskStmts op) b (op.call env mom b).2 := desk_follows mail mom op
    obtain ⟨x, hx, hpath⟩ := hf.onward d hd
    exact ⟨x, hx, .onward (hpath.mono hK)⟩
  -- Four operations have moves of their own; every other one leads onward.
  cases op with
  | store op =>
    cases op with
    | register input =>
      rw [store_call, exec, Call.map_snd]
      rcases hr : register env mom input b with ⟨f | a, b'⟩
      · obtain rfl : b = b' := register_refuses b f b' hr
        exact ⟨d, hd, .onward .refl⟩
      · obtain ⟨x, hx, rfl | ⟨flies, recipient, abandoned, rfl⟩⟩ := register_onward hr hd
        · exact ⟨x, hx, .onward .refl⟩
        · exact ⟨_, hx, .recovered hr flies recipient abandoned⟩
    | sweep =>
      rw [store_call, exec, Call.map_snd]
      obtain ⟨x, hx, hpath⟩ := sweep_onward mail hd
      exact ⟨x, hx, .swept hpath⟩
    | operatorRedeliver mid' confirm =>
      rw [store_call, exec, Call.map_snd]
      obtain ⟨x, hx, rfl | ⟨rfl, hstate, rfl⟩⟩ : ∃ x ∈
          (operatorRedeliver mom.now mid' confirm b).2.deliveries, x = d ∨ _ :=
        operatorRedeliver_onward hd
      · exact ⟨x, hx, .onward .refl⟩
      · exact ⟨_, hx, .rearmed hstate⟩
    | redrive mid' validate =>
      rw [store_call, exec, Call.map_snd]
      obtain ⟨x, hx, rfl | ⟨rfl, same, dead, m, found, valid⟩⟩ : ∃ x ∈
          (redrive env mom.now mid' validate b).2.deliveries, x = d ∨ _ := redrive_onward mail hd
      · exact ⟨x, hx, .onward .refl⟩
      · exact ⟨x, hx, .redriven same dead found valid⟩
    | _ => exact hpath (by simp [deskStmts, stmtsOf, onwardStmts])
  | _ => exact hpath (by simp [deskStmts, onwardStmts])

/-- A step that does not take the message back leaves it waiting only if it was. -/
theorem Leads.waited {op : DeskOp} (h : Leads env mom b d op d')
    (hback : ¬ PutsBack env b d.messageId d op mom) (hwaited : Waited d') : Waited d := by
  cases h with
  | onward path => exact path.waited hwaited
  | swept path =>
    have hbefore := (path.mono (by simp [onwardStmts])).waited hwaited
    split at hbefore
    · rename_i hserved
      -- What was served waits only if it is to be tried again.
      unfold ackTimedOut at hbefore
      split at hbefore
      · rcases hbefore with h | ⟨h, -⟩ <;> cases h
      · rename_i hleft
        exact absurd (.timedOut hserved (not_le.mp hleft)) hback
    · exact hbefore
  | recovered registers flies recipient abandoned =>
    exact absurd (.recovered registers flies recipient abandoned) hback
  | rearmed meets =>
    rcases meets with waits | flies | ⟨accepted, rfl⟩
    · exact .inl waits
    · exact absurd (.redelivered flies) hback
    · exact absurd (.replayed accepted) hback
  | redriven _ dead found valid => exact absurd (.redriven dead found valid) hback

/-- The row the message leads to is the row it has. -/
theorem desk_leads_to (mail : MailInv b) {op : DeskOp} (hd : b.delivery? mid = some d)
    (hd' : (op.call env mom b).2.delivery? mid = some d') : Leads env mom b d op d' := by
  have mail' : MailInv (op.call env mom b).2 := (desk_moves env mom op b).mailInv mail
  have hmid : d.messageId = mid := by simpa using List.find?_some hd
  have hmid' : d'.messageId = mid := by simpa using List.find?_some hd'
  obtain ⟨x, hx, hleads⟩ : ∃ x ∈ (op.call env mom b).2.deliveries, Leads env mom b d op x :=
    desk_leads mail (List.mem_of_find?_eq_some hd)
  have hxid : x.messageId = d'.messageId := hleads.messageId.trans (hmid.trans hmid'.symm)
  rw [← mail'.delivery_eq hx (List.mem_of_find?_eq_some hd') hxid]
  exact hleads

/-! ## Nobody has seen what waits -/

/-- A delivery that waits, or lapsed while it did, is of a message nobody has seen. -/
def Unseen (b : Broker) (mid : Id) : Prop :=
  ∀ d, b.delivery? mid = some d → Waited d → ¬ Viewed b mid

theorem not_waited_landed {m : Message} {again : Bool} (h : d.state = landed m again) :
    ¬ Waited d := by
  unfold Waited
  rw [h, landed]
  split <;> simp [DeliveryState.waiting]

theorem MailInv.delivery?_of_viewed (inv : MailInv b) (h : Viewed b mid) :
    ∃ d, b.delivery? mid = some d := by
  obtain ⟨d, hd, rfl⟩ := inv.delivery_of_viewed h
  exact ⟨d, inv.delivery?_of_mem hd⟩

theorem Unseen.pull (inv : Unseen b mid) (mail : MailInv b) (mail' : MailInv b')
    (h : PullSpec b b') : Unseen b' mid := by
  intro d' hd' hwaited hview
  have hmem' := List.mem_of_find?_eq_some hd'
  have hmid' : d'.messageId = mid := by simpa using List.find?_some hd'
  obtain ⟨d, hd, hid, rfl | ⟨m, again, -, -, -, hstate⟩⟩ := h.rows d' hmem'
  · rcases h.views mid hview with hold | ⟨m, -, x, hx, hxid, hxstate⟩
    · exact inv d' (hmid' ▸ mail.delivery?_of_mem hd) hwaited hold
    · rw [mail'.delivery_eq hx hmem' (hxid.trans hmid'.symm)] at hxstate
      exact not_waited_landed hxstate hwaited
  · exact not_waited_landed hstate hwaited

theorem Unseen.step {u : Desk} {e : DeskEvent} (mail : MailInv u.db) (inv : Unseen u.db mid)
    (hback : ¬ TakesBack env mid u e) : Unseen (u.step env e).2.db mid := by
  obtain ⟨op, mom⟩ := e
  have mail' : MailInv (u.step env (op, mom)).2.db := (desk_moves env mom op u.db).mailInv mail
  by_cases hop : pullsAt op = true
  · cases op with
    | store op =>
      refine inv.pull mail mail' ?_
      simp only [Desk.step, DeskOp.call, Call.map_snd]
      exact exec_pullSpec mail hop
    | _ => cases hop
  · intro d' hd' hwaited hview
    rcases desk_views (by simpa using hop) hview with hold | ⟨⟨raw, rfl⟩, d, hd, hid, haccepted⟩
    · obtain ⟨d, hd⟩ := mail.delivery?_of_viewed hold
      have hmid : d.messageId = mid := by simpa using List.find?_some hd
      have hkept : Waited d := (desk_leads_to mail hd hd').waited
        (fun h => hback ⟨hold, d, hd, hmid ▸ h⟩) hwaited
      exact inv d hd hkept hold
    · -- A takeover carries accepted work over, and leaves it accepted.
      have hkept : Waited d := by
        refine (desk_leads_to mail (hid ▸ mail.delivery?_of_mem hd) hd').waited
          (fun h => ?_) hwaited
        cases h with
        | recovered _ flies =>
          rw [haccepted] at flies
          cases flies
      rcases hkept with h | ⟨h, -⟩ <;> rw [haccepted] at h <;> cases h

theorem unseen_of_desk {ok : Desk → DeskEvent → Prop} {u : Desk}
    (hok : ∀ u e, ok u e → ¬ TakesBack env mid u e) (h : u.Reachable env ok) :
    Unseen u.db mid := by
  obtain ⟨log, run⟩ := h
  refine (run.invariant (P := fun u => MailInv u.db ∧ Unseen u.db mid) ⟨mailInv_initial, ?_⟩
    fun u e hu he => ⟨(desk_moves env e.2 e.1 u.db).mailInv hu.1,
      Unseen.step hu.1 hu.2 (hok u e he)⟩).2
  intro d hd
  cases hd

/-! ## Before injection -/

/-- What a cancellation that prevented the delivery met. -/
theorem cancel_before {r : CancelResult} (h : cancel now mid b = (.ok r, b'))
    (hr : r.outcome = .cancelledBeforeDelivery) :
    b'.injections = b.injections ∧ ∃ d, b.delivery? mid = some d ∧ d.state.waiting = true := by
  simp only [cancel, Call.transaction_ok, Call.get_bind] at h
  cases hd : b.delivery? mid with
  | none =>
    simp only [hd, Call.pure_ok] at h
    obtain ⟨rfl, -⟩ := h
    cases hr
  | some d =>
    simp only [hd] at h
    split at h
    · rename_i hwaits
      simp only [Call.modify_bind, Call.pure_ok] at h
      obtain ⟨-, rfl⟩ := h
      exact ⟨rfl, d, rfl, hwaits⟩
    · split at h
      · simp only [Call.modify_bind, Call.pure_ok] at h
        obtain ⟨rfl, -⟩ := h
        cases hr
      · split at h <;>
        · obtain ⟨rfl, -⟩ := Call.pure_ok.mp h
          cases hr

/-- **Before-injection outcomes mean not injected**, for a message that no step of the run takes
    back once it was seen: in every state reached, a delivery marked as expired before injection
    and a cancellation reported as prior to delivery are of a message without any injection row. -/
theorem before_injection_means_unseen {u : Desk}
    (h : u.Reachable env fun u e => ¬ TakesBack env mid u e) :
    (∀ d, u.db.delivery? mid = some d → d.state = .expired →
      d.failureCategory = some .expiredBeforeInjection → ¬ Viewed u.db mid) ∧
    ∀ mom r, (u.step env (.cancel mid, mom)).1 = .ok (.cancelled r) →
      r.outcome = .cancelledBeforeDelivery →
        ¬ Viewed u.db mid ∧ ¬ Viewed (u.step env (.cancel mid, mom)).2.db mid := by
  have hunseen : Unseen u.db mid := unseen_of_desk (fun _ _ => id) h
  refine ⟨fun d hd hstate hcat => hunseen d hd (.inr ⟨hstate, hcat⟩), fun mom r hr hout => ?_⟩
  have hok : (DeskResponse.cancelled <$> cancel mom.now mid) u.db =
      (.ok (.cancelled r), (u.step env (.cancel mid, mom)).2.db) := Prod.ext hr rfl
  obtain ⟨r', hcancel, hr'⟩ := Call.map_ok.mp hok
  obtain rfl := DeskResponse.cancelled.inj hr'
  obtain ⟨hinj, d, hd, hwaits⟩ := cancel_before hcancel hout
  have hbefore : ¬ Viewed u.db mid := hunseen d hd (.inl hwaits)
  refine ⟨hbefore, fun ⟨i, hi, hid⟩ => hbefore ⟨i, ?_, hid⟩⟩
  rw [← hinj]
  exact hi

/-- The request, to be accepted within ten minutes, is pulled, and nobody acknowledges it. -/
def requestUnacked : List DeskEvent :=
  atDesk (requestSent.take 3 ++
    [ (.send (component "alpha" .mcp 1 1)
        { recipient := "beta-name", text := "please", requiresReply := true
          ttlSeconds := some 600 }, { nowMs := 1000 }),
      (.checkpointPull (component "beta" .hook 1 2) (some "ck") 10, { nowMs := 1001 }),
      (.sweep, { nowMs := 400000 }) ])

/-- The body was shown, and then the next sweep says it never was, and so does a cancellation. -/
theorem shown_reported_undelivered :
    let u := deskAfter requestUnacked
    u.Reachable plainEnv Any ∧ Viewed u.db 8 ∧
      ((u.step plainEnv (.store .sweep, { nowMs := 700000 })).2.db.delivery? 8).map
        (fun d => (d.state, d.failureCategory)) = some (.expired, some .expiredBeforeInjection) ∧
      (u.step plainEnv (.cancel 8, { nowMs := 400001 })).1.toOption =
        some (.cancelled { outcome := .cancelledBeforeDelivery, state := some .cancelled
                           detail := "delivery prevented before any context injection" }) := by
  refine ⟨reachable_deskAfter _, ?_⟩
  decide +kernel

/-- Whatever happens while nobody has seen the message takes nothing back. -/
theorem not_takesBack {u : Desk} {e : DeskEvent} (h : ¬ Viewed u.db mid) :
    ¬ TakesBack env mid u e := fun hback => h hback.1

/-- The request is cancelled before it is pulled, and has not been shown. -/
theorem cancelled_request_unseen :
    let u := deskAfter (atDesk requestSent)
    let r : CancelResult := { outcome := .cancelledBeforeDelivery, state := some .cancelled
                              detail := "delivery prevented before any context injection" }
    (u.step plainEnv (.cancel 8, { nowMs := 1500 })).1.toOption = some (.cancelled r) ∧
      ¬ Viewed u.db 8 := by
  intro u r
  have hunviewed : Admitted (Desk.step plainEnv) (fun u _ => ¬ Viewed u.db 8)
      (Desk.initial plainEnv) (atDesk requestSent) := by decide +kernel
  have hreach : u.Reachable plainEnv fun u e => ¬ TakesBack plainEnv 8 u e :=
    deskReachable_mono (reachable_of_admitted hunviewed) fun _ _ => not_takesBack
  have hanswer : (u.step plainEnv (.cancel 8, { nowMs := 1500 })).1.toOption =
      some (.cancelled r) := by decide +kernel
  have hok : (u.step plainEnv (.cancel 8, { nowMs := 1500 })).1 = .ok (.cancelled r) := by
    revert hanswer
    cases (u.step plainEnv (.cancel 8, { nowMs := 1500 })).1 with
    | error f => nofun
    | ok x => exact fun h => congrArg Except.ok (Option.some.inj h)
  exact ⟨hanswer, ((before_injection_means_unseen hreach).2 _ r hok rfl).1⟩

/-! ## On record -/

theorem Move.viewed {k : Kind} (h : Move env k b b') (mail : MailInv b) (hview : Viewed b mid) :
    Viewed b' mid := by
  obtain ⟨i, hi, hid⟩ := hview
  rcases Move.mail h mail with ⟨m, hposted, -⟩ | hframe
  · exact ⟨i, hposted.injections ▸ hi, hid⟩
  · obtain ⟨i', hi', hsame⟩ := hframe.kept i hi
    refine ⟨i', hi', ?_⟩
    rw [SameRow] at hsame
    rw [hsame]
    exact hid

theorem desk_viewed (mail : MailInv b) (op : DeskOp) (hview : Viewed b mid) :
    Viewed (op.call env mom b).2 mid :=
  ((desk_moves env mom op b).keeps (P := fun u => MailInv u ∧ Viewed u mid) ⟨mail, hview⟩
    fun _ _ _ _ hmove hu => ⟨hmove.mailInv hu.1, hmove.viewed hu.1 hu.2⟩).2

/-- What is in flight has been shown. -/
def FlightViewed (b : Broker) : Prop :=
  ∀ d ∈ b.deliveries, d.state = .transportWritten → Viewed b d.messageId

theorem Move.flightViewed {k : Kind} (h : Move env k b b') (mail : MailInv b)
    (inv : FlightViewed b) : FlightViewed b' := by
  intro d' hd' hflies
  by_cases hk : ∃ c, k = .inject c
  · obtain ⟨c, rfl⟩ := hk
    have hmove := h
    cases h with
    | inject now auth ck audited m =>
      have hspec := injectOne_spec env now auth ck audited m b
      obtain ⟨g, hdel, hg⟩ := hspec.deliveries
      rw [hdel] at hd'
      obtain ⟨d, hd, rfl⟩ := List.mem_map.mp hd'
      by_cases hid : d.messageId = m.messageId
      · rw [(hg d).messageId, hid]
        cases hone : (injectOne env now auth ck audited m b).1 with
        | none =>
          rcases (hspec.silent hone).2 with hsame | hseen
          · have hkept : g d ∈ b.deliveries := by
              rw [← hsame, hdel]
              exact List.mem_map_of_mem hd
            have := inv (g d) hkept hflies
            rw [(hg d).messageId, hid] at this
            exact hmove.viewed mail this
          · exact hmove.viewed mail (viewed_of_seenBefore hseen)
        | some id =>
          obtain ⟨-, -, hrows, -⟩ := hspec.presented id hone
          exact ⟨_, hrows ▸ List.mem_append_right _ (List.mem_singleton.mpr rfl), rfl⟩
      · rw [(hg d).other hid] at hflies ⊢
        exact hmove.viewed mail (inv d hd hflies)
  · have hstays := h.staysInFlight fun c hc => hk ⟨c, hc⟩
    exact h.viewed mail (inv d' (hstays d' hd' hflies).1 hflies)

/-- What is in flight or accepted has been shown. -/
def OnRecord (b : Broker) : Prop :=
  ∀ d ∈ b.deliveries, d.state = .transportWritten ∨ d.state = .accepted → Viewed b d.messageId

theorem Rewrite.accepted {ack reply : Bool} {s : Stmt} (h : Rewrite env now ack reply s d d')
    (hs : s ≠ .acked) : d'.state ≠ .accepted := by
  cases h with
  | acked => exact absurd rfl hs
  | _ => nofun

/-- Accepted is what was, or what an ack met in flight. -/
theorem Follows.accepted {K : List Stmt} (h : Follows env now K b b')
    (hK : .acked ∉ K ∨ K = [.acked]) (hd' : d' ∈ b'.deliveries) (hstate : d'.state = .accepted) :
    ∃ d ∈ b.deliveries, d'.messageId = d.messageId ∧
      (d.state = .transportWritten ∨ d.state = .accepted) := by
  obtain ⟨d, hd, hpath⟩ := h.back d' hd'
  have hfrom : d.state = .transportWritten ∨ d.state = .accepted := by
    rcases hK with hK | rfl
    · refine .inr ?_
      have hsame : d'.state = .accepted → d' = d :=
        hpath.keeps (P := fun x => x.state = .accepted → x = d) (fun _ => rfl)
          fun s hs x y hstep _ hy => absurd hy (hstep.accepted fun heq => hK (heq ▸ hs))
      exact hsame hstate ▸ hstate
    · have honce := hpath.once fun x y z hxy hyz => by
        cases hxy with | acked _ accept => cases accept <;> cases hyz with | acked flies =>
          cases flies
      rcases honce with rfl | hstep
      · exact .inr hstate
      · cases hstep with
        | acked flies => exact .inl flies
  rcases hd with hd | hd
  · exact ⟨d, hd, hpath.messageId, hfrom⟩
  · rcases hfrom with h | h <;> rw [hd.state] at h <;> cases h

theorem acked_stmts (op : DeskOp) : .acked ∉ deskStmts op ∨ deskStmts op = [.acked] := by
  cases op with
  | store op => cases op <;> simp [deskStmts, stmtsOf, sweepStmts]
  | _ => simp [deskStmts]

theorem onRecord_of_desk {ok : Desk → DeskEvent → Prop} {u : Desk} (h : u.Reachable env ok) :
    OnRecord u.db := by
  obtain ⟨log, run⟩ := h
  have hall : MailInv u.db ∧ FlightViewed u.db ∧ OnRecord u.db := by
    have hinit : FlightViewed (Desk.initial env).db ∧ OnRecord (Desk.initial env).db :=
      ⟨fun x hx => (by cases hx), fun x hx => (by cases hx)⟩
    refine run.invariant (P := fun u => MailInv u.db ∧ FlightViewed u.db ∧ OnRecord u.db)
      ⟨mailInv_initial, hinit⟩ ?_
    rintro u e ⟨mail, hflight, hrecord⟩ -
    have hmoves := desk_moves env e.2 e.1 u.db
    have hflight' : FlightViewed (u.step env e).2.db :=
      (hmoves.keeps (P := fun b => MailInv b ∧ FlightViewed b) ⟨mail, hflight⟩
        fun _ _ _ _ hmove hu => ⟨hmove.mailInv hu.1, hmove.flightViewed hu.1 hu.2⟩).2
    refine ⟨hmoves.mailInv mail, hflight', fun x hx hor => ?_⟩
    rcases hor with hflies | haccepted
    · exact hflight' x hx hflies
    · have hf : Follows env e.2.now (deskStmts e.1) u.db (u.step env e).2.db :=
        desk_follows mail e.2 e.1
      obtain ⟨y, hy, hid, hor⟩ := hf.accepted (acked_stmts e.1) hx haccepted
      rw [hid]
      exact desk_viewed mail e.1 (hrecord y hy hor)
  exact hall.2.2

/-! ## Receipts -/

theorem Move.receipts {k : Kind} (h : Move env k b b') : b.receipts ⊆ b'.receipts := by
  cases h with
  | note h => exact h.receipts
  | restate | redrive | consume | dormant | component | redirect | close | remove =>
    exact List.Subset.refl _
  | inject now auth ck audited m => exact (injectOne_spec env now auth ck audited m b).rest.receipts
  | reissue => exact (IsFrame.trans (MailOnly.of_bookkeeping .mint) MailOnly.issue).receipts
  | post m h | answer m h => exact h.receipts
  | create input absent =>
    obtain ⟨as, es, n, hb', -⟩ := createSession_eq b env input
    rw [hb']
    exact List.Subset.refl _
  | @advance _ now sid resume s found =>
    obtain ⟨is, as, es, n, hb', -⟩ := advanceEpoch_eq b env now sid (s.activeEpoch + 1) resume
    rw [hb']
    exact List.Subset.refl _
  | join now input =>
    rw [joinEpoch_eq]
    exact List.Subset.refl _
  | claim => exact NamesOnly.claim.receipts
  | rename => exact NamesOnly.rename.receipts
  | operatorRename => exact NamesOnly.operatorRename.receipts
  | reclaim => exact (IsFrame.trans NamesOnly.forfeit .rename : NamesOnly _ _).receipts
  | tombstone sid now =>
    obtain ⟨as, es, ds, hb', -⟩ := tombstone_eq b sid now
    rw [hb']
    exact List.Subset.refl _
  | lapse => exact NamesOnly.lapse.receipts
  | operator =>
    unfold Broker.ensureOperatorSession
    split <;> exact List.Subset.refl _

/-- There is a receipt of a reply to the message. -/
def ReplyOnFile (b : Broker) (mid : Id) : Prop :=
  ∃ r ∈ b.receipts, r.messageId = mid ∧ r.receiptType = .reply

theorem desk_replyOnFile {op : DeskOp} (h : ReplyOnFile b mid) :
    ReplyOnFile (op.call env mom b).2 mid := by
  obtain ⟨r, hr, hrow⟩ := h
  have hkept : b.receipts ⊆ (op.call env mom b).2.receipts :=
    (desk_moves env mom op b).keeps (P := fun u => b.receipts ⊆ u.receipts) (List.Subset.refl _)
      fun _ _ _ _ hmove hu => List.Subset.trans hu hmove.receipts
  exact ⟨r, hkept hr, hrow⟩

/-- A completed delivery of a message that asked for a response was replied to. -/
def Answered (b : Broker) (mid : Id) : Prop :=
  ∀ d, b.delivery? mid = some d → d.state = .completed →
    b.requiresAck mid = true ∨ b.requiresReply mid = true → ReplyOnFile b mid

theorem Path.not_completed {ack reply : Bool} {K : List Stmt} (h : Path env now K ack reply d d')
    (hK : .answered ∉ K) (hasks : ack = true ∨ reply = true) (hd' : d'.state = .completed) :
    d.state = .completed := by
  have hsame : d'.state = .completed → d' = d := by
    refine h.keeps (P := fun x => x.state = .completed → x = d) (fun _ => rfl)
      fun s hs x y hstep _ hy => ?_
    cases hstep with
    | completed _ noAck noReply => rcases hasks with h | h <;> simp_all
    | answered => exact absurd hs hK
    | acked _ accept => cases accept <;> cases hy
    | _ => cases hy
  exact hsame hd' ▸ hd'

theorem Answered.step {op : DeskOp} (mail : MailInv b) (inv : Answered b mid) :
    Answered (op.call env mom b).2 mid := by
  intro d' hd' hdone hasks
  have mail' : MailInv (op.call env mom b).2 := (desk_moves env mom op b).mailInv mail
  have hmem' := List.mem_of_find?_eq_some hd'
  have hmid' : d'.messageId = mid := by simpa using List.find?_some hd'
  have hf : Follows env mom.now (deskStmts op) b (op.call env mom b).2 := desk_follows mail mom op
  obtain ⟨d, hd, hpath⟩ := hf.back d' hmem'
  have hmid : d.messageId = mid := hpath.messageId.symm.trans hmid'
  rw [hmid] at hpath
  have hold (hstored : d ∈ b.deliveries) (hdone : d.state = .completed) :
      ReplyOnFile (op.call env mom b).2 mid := by
    have hflags := hf.flags d hstored
    rw [hmid] at hflags
    rw [hflags.1, hflags.2] at hasks
    exact desk_replyOnFile (inv d (hmid ▸ mail.delivery?_of_mem hstored) hdone hasks)
  by_cases hreply : ∃ auth input, op = .store (.reply auth input)
  · obtain ⟨auth, input, rfl⟩ := hreply
    rcases hd with hd | hd
    · have hcall : ((DeskOp.store (.reply auth input)).call env mom b).2 =
          (reply env mom.now auth input b).2 := by simp only [DeskOp.call, exec, Call.map_snd]
      obtain ⟨x, hx, hor⟩ : ∃ x ∈ (reply env mom.now auth input b).2.deliveries,
          x = d ∨ (x = answered input.messageId mom.now d ∧ _) := reply_onward hd
      have hxid : x.messageId = mid := by
        rcases hor with rfl | ⟨rfl, -⟩
        · exact hmid
        · exact answered_messageId.trans hmid
      obtain rfl := mail'.delivery_eq (hcall ▸ hx) hmem' (hxid.trans hmid'.symm)
      rcases hor with rfl | ⟨hanswered, r, hr, hrow⟩
      · exact hold hd hdone
      · by_cases hmeets : d.messageId = input.messageId
        · exact ⟨r, hcall ▸ hr, hrow.1.trans (hmeets.symm.trans hmid), hrow.2⟩
        · rw [hanswered, answered, if_neg fun h => hmeets h.1] at hdone
          exact hold hd hdone
    · -- The reply itself is queued.
      have hqueued : d'.state = .queued := by
        refine hpath.keeps (P := fun x => x.state = .queued) hd.state fun s hs x y hstep hx => ?_
        obtain rfl := List.mem_singleton.mp hs
        cases hstep with
        | answered meets => rcases meets with h | h <;> rw [hx] at h <;> cases h
      rw [hqueued] at hdone
      cases hdone
  · have hK : .answered ∉ deskStmts op := by
      cases op with
      | store op => cases op <;> simp_all [deskStmts, stmtsOf, sweepStmts]
      | _ => simp [deskStmts]
    have hbefore := hpath.not_completed hK hasks hdone
    rcases hd with hd | hd
    · exact hold hd hbefore
    · rw [hd.state] at hbefore
      cases hbefore

/-! ## The signal -/

/-- The stores never leave a delivery `dispatching`. -/
theorem not_dispatching_of_desk {ok : Desk → DeskEvent → Prop} {u : Desk} (h : u.Reachable env ok)
    (hd : d ∈ u.db.deliveries) : d.state ≠ .dispatching := by
  refine rows_of_desk (P := fun _ _ x => x.state ≠ .dispatching)
    (fun _ _ _ x hx => by rw [hx.state]; nofun) (fun _ _ s _ x y hstep _ => ?_) h d hd
  cases hstep with
  | acked _ accept => cases accept <;> nofun
  | _ => nofun

/-- The words that say the message was shown to nobody. -/
def unshown (s : DeliverySignal) : Bool :=
  s = .queued ∨ s = .wakeRequested ∨ s = .wakeFailed

/-- The operator's redelivery, and the redrive of a dead letter. -/
def isReplay : DeskOp → Bool
  | .store (.operatorRedeliver _ _) | .store (.redrive _ _) => true
  | _ => false

theorem signal?_some {u : Desk} {s : DeliverySignal} (h : u.signal? mid = some s) :
    ∃ d, u.db.delivery? mid = some d ∧
      deriveDeliverySignal d.state (u.latestWakeOutcome mid) = s :=
  Option.map_eq_some_iff.mp h

/-- What waits, or is dispatched, is signalled as shown to nobody, and nothing else is. -/
theorem unshown_iff {state : DeliveryState} {wake : WakeOutcome} :
    unshown (deriveDeliverySignal state wake) = true ↔
      state.waiting = true ∨ state = .dispatching := by
  cases state <;> cases wake <;> decide

theorem unviewed_of_unshown {ok : Desk → DeskEvent → Prop} {u : Desk} {s : DeliverySignal}
    (hok : ∀ u e, ok u e → ¬ TakesBack env mid u e) (h : u.Reachable env ok)
    (hs : u.signal? mid = some s) (hword : unshown s = true) : ¬ Viewed u.db mid := by
  obtain ⟨d, hd, rfl⟩ := signal?_some hs
  rcases unshown_iff.mp hword with hwaits | hdispatching
  · exact unseen_of_desk hok h d hd (.inl hwaits)
  · exact absurd hdispatching (not_dispatching_of_desk h (List.mem_of_find?_eq_some hd))

theorem answered_of_desk {ok : Desk → DeskEvent → Prop} {u : Desk} (h : u.Reachable env ok) :
    Answered u.db mid := by
  obtain ⟨log, run⟩ := h
  have hinit : Answered (Desk.initial env).db mid := fun d hd => by cases hd
  exact (run.invariant (P := fun u => MailInv u.db ∧ Answered u.db mid) ⟨mailInv_initial, hinit⟩
    fun u e hu _ => ⟨(desk_moves env e.2 e.1 u.db).mailInv hu.1, hu.2.step hu.1⟩).2

/-- The run neither replays a message nor takes this one back once it was seen. -/
def Straight (env : Env) (mid : Id) (u : Desk) (e : DeskEvent) : Prop :=
  isReplay e.1 = false ∧ ¬ TakesBack env mid u e

/-- **The sender-facing signal is honest** in every run without replays that does not take the
    message back once it was seen: `queued`, `wake_requested` and `wake_failed` are said only of
    what was never shown, and not again after `injected` or `acknowledged`; and of a message that
    asks for a response, `replied` is said only with a receipt of the reply. -/
theorem signal_honest {u : Desk} (h : u.Reachable env (Straight env mid)) :
    (∀ s, u.signal? mid = some s → unshown s = true → ¬ Viewed u.db mid) ∧
    (∀ log u', Run (Desk.step env) (Straight env mid) u log u' →
      u.signal? mid = some .injected ∨ u.signal? mid = some .acknowledged →
      ∀ s, u'.signal? mid = some s → unshown s = false) ∧
    (u.db.requiresAck mid = true ∨ u.db.requiresReply mid = true →
      u.signal? mid = some .replied → ReplyOnFile u.db mid) := by
  have hok : ∀ u e, Straight env mid u e → ¬ TakesBack env mid u e := fun _ _ he => he.2
  refine ⟨fun s => unviewed_of_unshown hok h, fun log u' run hbefore s hs => ?_,
    fun hasks hs => ?_⟩
  · -- Either word needs a delivery whose body has been on record.
    have hshown : Viewed u.db mid := by
      have hstate : ∃ d, u.db.delivery? mid = some d ∧
          (d.state = .transportWritten ∨ d.state = .accepted) := by
        rcases hbefore with hs | hs <;> obtain ⟨d, hd, hword⟩ := signal?_some hs <;>
          refine ⟨d, hd, ?_⟩ <;> revert hword <;> cases d.state <;>
          cases u.latestWakeOutcome mid <;> decide
      obtain ⟨d, hd, hor⟩ := hstate
      have hid : d.messageId = mid := by simpa using List.find?_some hd
      exact hid ▸ onRecord_of_desk h d (List.mem_of_find?_eq_some hd) hor
    have hstill : Viewed u'.db mid :=
      (run.invariant (P := fun u => MailInv u.db ∧ Viewed u.db mid) ⟨mailInv_of_desk h, hshown⟩
        fun u e hu _ => ⟨(desk_moves env e.2 e.1 u.db).mailInv hu.1,
          desk_viewed hu.1 e.1 hu.2⟩).2
    obtain ⟨log₀, run₀⟩ := h
    by_contra hword
    exact unviewed_of_unshown hok ⟨_, run₀.append run⟩ hs (by simpa using hword) hstill
  · obtain ⟨d, hd, hword⟩ := signal?_some hs
    have hdone : d.state = .completed := by
      revert hword
      cases d.state <;> cases u.latestWakeOutcome mid <;> decide
    exact answered_of_desk h d hd hdone hasks

/-- A wake-up for the request is on record, and nobody has been shown the request. -/
theorem wake_requested_unviewed :
    let u := deskAfter (atDesk requestSent ++
      [(.recordWakeAttempt 8 "beta" .requested, { nowMs := 1500 })])
    u.signal? 8 = some .wakeRequested ∧ ¬ Viewed u.db 8 := by
  intro u
  have hunviewed : Admitted (Desk.step plainEnv) (fun u e => isReplay e.1 = false ∧ ¬ Viewed u.db 8)
      (Desk.initial plainEnv) (atDesk requestSent ++
        [(.recordWakeAttempt 8 "beta" .requested, { nowMs := 1500 })]) := by decide +kernel
  have hreach : u.Reachable plainEnv (Straight plainEnv 8) :=
    deskReachable_mono (reachable_of_admitted hunviewed) fun _ _ he => ⟨he.1, not_takesBack he.2⟩
  have hsignal : u.signal? 8 = some .wakeRequested := by decide +kernel
  exact ⟨hsignal, (signal_honest hreach).1 _ hsignal rfl⟩

/-- An event that asks for nothing is pulled. -/
def eventPulled : List DeskEvent :=
  atDesk (requestSent.take 3 ++
    [ (.send (component "alpha" .mcp 1 1)
        { recipient := "beta-name", text := "news", kind := .event, requiresAck := false },
        { nowMs := 1000 }),
      (.checkpointPull (component "beta" .hook 1 2) (some "ck") 10, { nowMs := 1001 }) ])

/-- The request was shown and is signalled as queued; the event was not replied to and is
    signalled as replied. -/
theorem signal_dishonest :
    (deskAfter requestUnacked).Reachable plainEnv (fun _ e => isReplay e.1 = false) ∧
      (deskAfter requestUnacked).signal? 8 = some .queued ∧
      Viewed (deskAfter requestUnacked).db 8 ∧
      (deskAfter eventPulled).Reachable plainEnv (fun _ e => isReplay e.1 = false) ∧
      (deskAfter eventPulled).signal? 8 = some .replied ∧
      ¬ ReplyOnFile (deskAfter eventPulled).db 8 := by
  have hplain : ∀ e ∈ requestUnacked ++ eventPulled, isReplay e.1 = false := by decide +kernel
  have hrequest : (deskAfter requestUnacked).signal? 8 = some .queued ∧
      Viewed (deskAfter requestUnacked).db 8 := by decide +kernel
  have hevent : (deskAfter eventPulled).signal? 8 = some .replied ∧
      ¬ ReplyOnFile (deskAfter eventPulled).db 8 := by
    unfold ReplyOnFile
    decide +kernel
  refine ⟨reachable_of_admitted (.of_forall (fun e he _ => ?_) _), hrequest.1, hrequest.2,
    reachable_of_admitted (.of_forall (fun e he _ => ?_) _), hevent⟩
  · exact hplain e (List.mem_append_left _ he)
  · exact hplain e (List.mem_append_right _ he)

end Proof
end XBus
