import XBus.Proof.Redelivery

/-!
# Dead-letter escalation

A delivery whose acknowledgement is owed enters flight when it is pulled. When the deadline passes,
the sweep counts the attempt and puts the delivery back, until the attempts are used up and it is
dead-lettered. `Escalating` is the bookkeeping that makes this end: what waits has had all its
entries into flight counted, and what is in flight all but the current one.

The sweep is not the only one to see a lapsed deadline. A component that joins the session puts
lapsed deliveries back as well, and counts nothing; a session whose hook registers often enough
is then retried for ever. The bound holds for a message as long as no such step meets it.

The sweep serves a limited number of deliveries for each recipient, so the last one may have to wait
for its turn. Each sweep that passes over it has taken another one of its recipient out of
flight (`sweep_flights`), which bounds the number of sweeps.
-/

set_option autoImplicit false

namespace XBus
namespace Proof

open Lib

variable {env : Env} {mom : Moment} {now : Iso} {b b' : Broker} {mid : Id} {d d' : Delivery}
  {ack reply : Bool} {max n : Nat}

/-! ## Entries into flight -/

/-- The delivery of the message is in flight. -/
def inFlight (b : Broker) (mid : Id) : Bool :=
  (b.delivery? mid).any fun d => d.state = .transportWritten

/-- The entries into flight so far, with the one this step makes. -/
def countEntry (mid : Id) (n : Nat) (u : Desk) (_ : DeskEvent) (_ : Except Failure DeskResponse)
    (u' : Desk) : Nat :=
  if inFlight u.db mid = false ∧ inFlight u'.db mid = true then n + 1 else n

/-- The desk, counting how often the delivery of the message enters flight. -/
def countedStep (env : Env) (mid : Id) :
    Desk × Nat → DeskEvent → Except Failure DeskResponse × (Desk × Nat) :=
  recording (Desk.step env) (countEntry mid)

/-- A step other than a sweep takes the delivery of the message back: its recipient is taken over,
    or joined after the deadline, or an operator drives the message again. -/
def Rearms (env : Env) (mid : Id) (u : Desk) (e : DeskEvent) : Prop :=
  (∀ mom, e ≠ (.store .sweep, mom)) ∧
    ∃ d, u.db.delivery? mid = some d ∧ PutsBack env u.db mid d e.1 e.2

/-- A delivery that entered flight `n` times, of `max`. -/
structure Escalating (max n : Nat) (d : Delivery) : Prop where
  bounded : n ≤ max
  /-- No entry is counted twice, and at most one is not counted. -/
  counted : d.attemptAckTimeout ≤ n ∧ n ≤ d.attemptAckTimeout + 1
  waits : d.state.waiting = true → d.attemptAckTimeout = n ∧ n < max
  flies : d.state = .transportWritten → d.attemptAckTimeout + 1 = n
  spent : d.failureCategory = some .ackTimeoutExhausted →
    d.state = .deadLetter ∧ d.attemptAckTimeout = n

/-- The delivery of the message, if there is one, entered flight `n` times. -/
def Escalates (max : Nat) (b : Broker) (mid : Id) (n : Nat) : Prop :=
  match b.delivery? mid with
  | none => n = 0
  | some d => Escalating max n d

/-! ### Along a path -/

/-- These statements take nothing into flight that did not wait, and count nothing. -/
theorem Path.entered (h : Path env now onwardStmts ack reply d d') :
    d'.attemptAckTimeout = d.attemptAckTimeout ∧
      (d'.state.waiting = true → d.state.waiting = true) ∧
      (d'.state = .transportWritten → d.state.waiting = true ∨ d.state = .transportWritten) := by
  refine h.keeps (P := fun x => x.attemptAckTimeout = d.attemptAckTimeout ∧
    (x.state.waiting = true → d.state.waiting = true) ∧
    (x.state = .transportWritten → d.state.waiting = true ∨ d.state = .transportWritten))
    ⟨rfl, id, .inr⟩ fun s hs x y hstep ⟨hcount, hwaits, _⟩ => ?_
  cases hstep with
  | written waits => exact ⟨hcount, nofun, fun _ => .inl (hwaits waits)⟩
  | acked _ accept => cases accept <;> exact ⟨hcount, nofun, nofun⟩
  | completed | answered | lapsed | buried | abandoned | removed | discarded | cancelled =>
    exact ⟨hcount, nofun, nofun⟩
  | _ => simp [onwardStmts] at hs

/-- A dead letter whose attempts are used up is one until it is discarded. -/
theorem Path.spent (h : Path env now onwardStmts ack reply d d')
    (hd : d.failureCategory = some .ackTimeoutExhausted → d.state = .deadLetter)
    (hd' : d'.failureCategory = some .ackTimeoutExhausted) :
    d'.state = .deadLetter ∧ d.failureCategory = some .ackTimeoutExhausted := by
  refine h.keeps (P := fun x => x.failureCategory = some .ackTimeoutExhausted →
    x.state = .deadLetter ∧ d.failureCategory = some .ackTimeoutExhausted)
    (fun h => ⟨hd h, h⟩) (fun s hs x y hstep hx hy => ?_) hd'
  cases hstep with
  | written waits | cancelled waits =>
    rw [(hx hy).1] at waits
    cases waits
  | acked flies =>
    rw [(hx hy).1] at flies
    cases flies
  | answered meets =>
    rw [(hx hy).1] at meets
    rcases meets with h | h <;> cases h
  | completed | lapsed | buried | abandoned | removed | discarded => cases hy
  | _ => simp [onwardStmts] at hs

/-- An entry into flight on the way is the next entry. -/
theorem Escalating.onward (h : Escalating max n d)
    (path : Path env now onwardStmts ack reply d d') :
    Escalating max
      (if d.state ≠ .transportWritten ∧ d'.state = .transportWritten then n + 1 else n) d' := by
  obtain ⟨hcount, hwaits, hflies⟩ := path.entered
  have hspent := path.spent fun hcat => (h.spent hcat).1
  split
  · rename_i hentry
    obtain ⟨hsame, hlt⟩ := h.waits ((hflies hentry.2).resolve_right hentry.1)
    exact {
      bounded := hlt
      counted := by omega
      waits := by
        rw [hentry.2]
        nofun
      flies := fun _ => by omega
      spent := fun hcat => by
        have hdead := (hspent hcat).1
        rw [hentry.2] at hdead
        cases hdead }
  · rename_i hentry
    exact {
      bounded := h.bounded
      counted := hcount ▸ h.counted
      waits := fun hw => hcount ▸ h.waits (hwaits hw)
      flies := fun hf => hcount ▸ h.flies (not_not.mp fun hne => hentry ⟨hne, hf⟩)
      spent := fun hcat => ⟨(hspent hcat).1, hcount ▸ (h.spent (hspent hcat).2).2⟩ }

/-! ### New deliveries -/

/-- Whatever is not pulled does not fly. -/
theorem Path.grounded {K : List Stmt} (h : Path env now K ack reply d d') (hK : .written ∉ K)
    (hd : d.state ≠ .transportWritten) : d'.state ≠ .transportWritten := by
  refine h.keeps (P := fun x => x.state ≠ .transportWritten) hd fun s hs x y hstep hx => ?_
  cases hstep with
  | written => exact absurd hs hK
  | acked _ accept => cases accept <;> nofun
  | _ => nofun

/-- A new delivery that is not pulled has no attempts. -/
theorem Path.unspent {K : List Stmt} (h : Path env now K ack reply d d') (hK : .written ∉ K)
    (hd : d.state ≠ .transportWritten) (hcount : d.attemptAckTimeout = 0)
    (hcat : d.failureCategory = none) :
    d'.attemptAckTimeout = 0 ∧ d'.failureCategory ≠ some .ackTimeoutExhausted := by
  refine (h.keeps (P := fun x => x.state ≠ .transportWritten ∧ x.attemptAckTimeout = 0 ∧
    x.failureCategory ≠ some .ackTimeoutExhausted) ⟨hd, hcount, by rw [hcat]; nofun⟩
    fun s hs x y hstep hx => ⟨?_, ?_⟩).2
  · exact Path.grounded (.one hs hstep) hK hx.1
  · cases hstep with
    | written => exact absurd hs hK
    | timedOut flies | exhausted flies => exact absurd flies hx.1
    | redriven => exact ⟨rfl, nofun⟩
    | completed | lapsed | buried | abandoned | removed | discarded => exact ⟨hx.2.1, nofun⟩
    | _ => exact hx.2

/-- Only pulls take deliveries into flight, and they do little else. -/
theorem written_onward {op : DeskOp} (h : .written ∈ deskStmts op) :
    deskStmts op ⊆ onwardStmts := by
  cases op with
  | store op =>
    cases op with
    | register | sweep | operatorRedeliver | redrive =>
      simp [deskStmts, stmtsOf, sweepStmts] at h
    | _ => simp [deskStmts, stmtsOf, onwardStmts]
  | _ => simp [deskStmts, onwardStmts]

theorem NewlyQueued.escalating (h : NewlyQueued b d) (hmax : 0 < max) : Escalating max 0 d where
  bounded := Nat.zero_le max
  counted := by rw [h.attempts]; exact ⟨le_rfl, Nat.zero_le 1⟩
  waits _ := ⟨h.attempts, hmax⟩
  flies hflies := by rw [h.state] at hflies; cases hflies
  spent hcat := by rw [h.category] at hcat; cases hcat

/-- What a step posts has entered flight as often as the step shows. -/
theorem Escalating.posted {op : DeskOp} (mail : MailInv b) (hmax : 0 < max)
    (hnone : b.delivery? mid = none) (hd' : (op.call env mom b).2.delivery? mid = some d') :
    Escalating max (if d'.state = .transportWritten then 1 else 0) d' := by
  have hf : Follows env mom.now (deskStmts op) b (op.call env mom b).2 := desk_follows mail mom op
  have hmid' : d'.messageId = mid := by simpa using List.find?_some hd'
  obtain ⟨d, hold | hnew, hpath⟩ := hf.back d' (List.mem_of_find?_eq_some hd')
  · have hfound := mail.delivery?_of_mem hold
    rw [← hpath.messageId, hmid', hnone] at hfound
    cases hfound
  · have hgrounded : d.state ≠ .transportWritten := by rw [hnew.state]; nofun
    by_cases hwritten : .written ∈ deskStmts op
    · have h := (hnew.escalating hmax).onward (hpath.mono (written_onward hwritten))
      simp only [hgrounded, ne_eq, not_false_eq_true, true_and] at h
      exact h
    · obtain ⟨hcount, hcat⟩ := hpath.unspent hwritten hgrounded hnew.attempts hnew.category
      have hflies := hpath.grounded hwritten hgrounded
      rw [if_neg hflies]
      exact {
        bounded := Nat.zero_le max
        counted := by omega
        waits := fun _ => ⟨hcount, hmax⟩
        flies := fun h => absurd h hflies
        spent := fun h => absurd h hcat }

/-! ### Every step -/

theorem served_flies (h : d ∈ served b env now) :
    d.state = .transportWritten ∧ b.requiresAck d.messageId = true := by
  have hlapsed := serve_subset _ _ _ h
  simp only [Broker.lapsed, List.mem_insertionSort, List.mem_filter, decide_eq_true_eq] at hlapsed
  exact ⟨hlapsed.2.1, hlapsed.2.2.1⟩

/-- A sweep counts the entry it sees lapsed. -/
theorem Escalating.timedOut (h : Escalating env.backoff.maxAttempts n d)
    (hflies : d.state = .transportWritten) :
    Escalating env.backoff.maxAttempts n (ackTimedOut env mom d) := by
  have hcount := h.flies hflies
  have hbound := h.bounded
  unfold ackTimedOut
  split
  · exact ⟨hbound, ⟨hcount.le, by dsimp only; omega⟩, nofun, nofun, fun _ => ⟨rfl, hcount⟩⟩
  · rename_i hleft
    exact ⟨hbound, ⟨hcount.le, by dsimp only; omega⟩, fun _ => ⟨hcount, by omega⟩, nofun, nofun⟩

theorem Escalating.leads {op : DeskOp} (h : Escalating env.backoff.maxAttempts n d)
    (hleads : Leads env mom b d op d')
    (hback : op = .store .sweep ∨ ¬ PutsBack env b d.messageId d op mom) :
    Escalating env.backoff.maxAttempts
      (if d.state ≠ .transportWritten ∧ d'.state = .transportWritten then n + 1 else n) d' := by
  -- Only a sweep serves a timeout; whatever else puts the delivery back is excluded.
  cases hleads with
  | onward path => exact h.onward path
  | swept path =>
    split at path
    · rename_i hserved
      have hflies := (served_flies hserved).1
      have hgrounded := path.grounded (by simp) ackTimedOut_lands
      have hafter := (h.timedOut hflies).onward (path.mono (by simp [onwardStmts]))
      rw [if_neg fun hentry => hgrounded hentry.2] at hafter
      rw [if_neg fun hentry => hentry.1 hflies]
      exact hafter
    · exact h.onward (path.mono (by simp [onwardStmts]))
  | recovered registers flies recipient abandoned =>
    have hkept := hback.resolve_left fun heq => by cases heq
    exact absurd (.recovered registers flies recipient abandoned) hkept
  | rearmed meets =>
    have hkept := hback.resolve_left fun heq => by cases heq
    rcases meets with waits | flies | ⟨accepted, rfl⟩
    · rw [if_neg fun hentry => by cases hentry.2]
      refine ⟨h.bounded, h.counted, fun _ => h.waits waits, fun hstate => ?_, fun hcat => ?_⟩
      · cases hstate
      have hdead := (h.spent hcat).1
      rw [hdead] at waits
      cases waits
    · exact absurd (.redelivered flies) hkept
    · exact absurd (.replayed accepted) hkept
  | redriven _ dead found valid =>
    have hkept := hback.resolve_left fun heq => by cases heq
    exact absurd (.redriven dead found valid) hkept

theorem inFlight_of_some (h : b.delivery? mid = some d) :
    inFlight b mid = decide (d.state = .transportWritten) := by
  rw [inFlight, h]
  rfl

/-- **Every step** keeps the count. -/
theorem Escalates.step {u : Desk} {e : DeskEvent} (mail : MailInv u.db)
    (hmax : 0 < env.backoff.maxAttempts) (h : Escalates env.backoff.maxAttempts u.db mid n)
    (hok : ¬ Rearms env mid u e) :
    Escalates env.backoff.maxAttempts (u.step env e).2.db mid
      (countEntry mid n u e (u.step env e).1 (u.step env e).2) := by
  obtain ⟨op, mom⟩ := e
  unfold countEntry
  have hcall : (u.step env (op, mom)).2.db = (op.call env mom u.db).2 := rfl
  -- The delivery is posted by this step, or was there and is led on.
  cases hd : u.db.delivery? mid with
  | none =>
    obtain rfl : n = 0 := by simpa [Escalates, hd] using h
    have hground : inFlight u.db mid = false := by rw [inFlight, hd]; rfl
    cases hd' : (u.step env (op, mom)).2.db.delivery? mid with
    | none => simp [Escalates, inFlight, hd, hd']
    | some d' =>
      have hposted : Escalating _ _ d' := Escalating.posted mail hmax hd (hcall ▸ hd')
      simp only [Escalates, hd', hground, inFlight_of_some hd', decide_eq_true_eq, true_and]
      exact hposted
  | some d =>
    have hbefore : Escalating env.backoff.maxAttempts n d := by simpa [Escalates, hd] using h
    have hmid : d.messageId = mid := by simpa using List.find?_some hd
    obtain ⟨d', hmem', hleads⟩ : ∃ d' ∈ (op.call env mom u.db).2.deliveries,
        Leads env mom u.db d op d' := desk_leads mail (List.mem_of_find?_eq_some hd)
    have hd' : (u.step env (op, mom)).2.db.delivery? mid = some d' := by
      rw [hcall, ← hmid, ← hleads.messageId]
      exact ((desk_moves env mom op u.db).mailInv mail).delivery?_of_mem hmem'
    -- No step but a sweep puts it back, by the condition on the run.
    have hback : op = .store .sweep ∨ ¬ PutsBack env u.db d.messageId d op mom := by
      by_cases hsweep : op = .store .sweep
      · exact .inl hsweep
      · refine .inr fun hputs => hok ⟨fun mom' heq => hsweep (congrArg Prod.fst heq), d, hd, ?_⟩
        rw [← hmid]
        exact hputs
    have hafter := hbefore.leads hleads hback
    simp only [Escalates, hd', inFlight_of_some hd, inFlight_of_some hd', decide_eq_true_eq,
      decide_eq_false_iff_not]
    exact hafter

/-! ## Sweep after sweep -/

/-- The deliveries to the session that are in flight. -/
def flightsTo (b : Broker) (sid : SessionId) : List Delivery :=
  b.deliveries.filter fun d => d.recipientSessionId = sid ∧ d.state = .transportWritten

/-- What the cap passes over, it passes over for another of the same recipient. -/
theorem serve_skips {cap : Nat} {used : SessionId → Nat} {rows : List Delivery} (hd : d ∈ rows)
    (hskip : d ∉ serve cap used rows) : (cap > 0 ∧ used d.recipientSessionId ≥ cap) ∨
      ∃ r ∈ serve cap used rows, r.recipientSessionId = d.recipientSessionId := by
  induction rows generalizing used with
  | nil => cases hd
  | cons r rows ih =>
    unfold serve at hskip ⊢
    split at hskip
    · rename_i hcap
      rw [if_pos hcap]
      rcases List.mem_cons.mp hd with rfl | hd
      · exact .inl hcap
      · exact ih hd hskip
    · rename_i hcap
      rw [if_neg hcap]
      obtain ⟨hne, hskip⟩ := not_or.mp (mt List.mem_cons.mpr hskip)
      rcases ih ((List.mem_cons.mp hd).resolve_left hne) hskip with ⟨hpos, hused⟩ | ⟨x, hx, hrec⟩
      · by_cases hrec : d.recipientSessionId = r.recipientSessionId
        · exact .inr ⟨r, List.mem_cons_self, hrec.symm⟩
        · rw [if_neg hrec] at hused
          exact .inl ⟨hpos, hused⟩
      · exact .inr ⟨x, List.mem_cons_of_mem r hx, hrec⟩

/-- What is still in flight after the rest of a sweep has not been touched by it. -/
theorem Path.unmoved (h : Path env now [.lapsed, .buried, .abandoned] ack reply d d')
    (hflies : d'.state = .transportWritten) : d' = d := by
  refine h.keeps (P := fun x => x.state = .transportWritten → x = d) (fun _ => rfl)
    (fun s hs x y hstep hx hy => ?_) hflies
  cases hstep with
  | lapsed | buried | abandoned => cases hy
  | _ => simp at hs

/-- What was in flight is still, or has been dead-lettered. -/
theorem Path.flown (h : Path env now [.lapsed, .buried, .abandoned] ack reply d d')
    (hflies : d.state = .transportWritten) : d' = d ∨ d'.state = .deadLetter := by
  refine h.keeps (P := fun x => x = d ∨ x.state = .deadLetter) (.inl rfl)
    fun s hs x y hstep hx => ?_
  cases hstep with
  | lapsed waits =>
    rcases hx with rfl | hx
    · rw [hflies] at waits
      cases waits
    · rw [hx] at waits
      cases waits
  | buried => exact .inr rfl
  | abandoned accepted =>
    rcases hx with rfl | hx
    · rw [hflies] at accepted
      cases accepted
    · rw [hx] at accepted
      cases accepted
  | _ => simp at hs

/-- The deliveries in flight after a sweep are those it did not serve. -/
theorem sweep_flights (inv : MailInv b) {sid : SessionId}
    (h : d ∈ flightsTo (sweep env mom b).2 sid) :
    d ∈ flightsTo b sid ∧ d ∉ served b env mom.now := by
  have inv' : MailInv (sweep env mom b).2 := (sweep_respects b).mailInv inv
  simp only [flightsTo, List.mem_filter, decide_eq_true_eq] at h ⊢
  obtain ⟨hmem, hrec, hflies⟩ := h
  have hcall : ((DeskOp.store .sweep).call env mom b).2 = (sweep env mom b).2 := by
    rw [store_call, exec, Call.map_snd]
  have hf : Follows env mom.now (deskStmts (.store .sweep)) b (sweep env mom b).2 :=
    hcall ▸ desk_follows inv mom (.store .sweep)
  have hwritten : .written ∉ deskStmts (.store .sweep) := by decide
  -- A sweep writes nothing out, so the row was in flight before and not served.
  obtain ⟨x, hold | hnew, hpath⟩ := hf.back d hmem
  · obtain ⟨d', hmem', hrest⟩ : ∃ d' ∈ (sweep env mom b).2.deliveries, Path env mom.now
        [.lapsed, .buried, .abandoned] (b.requiresAck x.messageId) (b.requiresReply x.messageId)
        (if x ∈ served b env mom.now then ackTimedOut env mom x else x) d' := sweep_onward inv hold
    have hid : d'.messageId = x.messageId := (Leads.swept hrest).messageId
    obtain rfl : d' = d := inv'.delivery_eq hmem' hmem (hid.trans hpath.messageId.symm)
    have hsame := hrest.unmoved hflies
    split at hsame
    · rw [hsame] at hflies
      exact absurd hflies ackTimedOut_lands
    · rename_i hserved
      rw [hsame] at hflies hrec ⊢
      exact ⟨⟨hold, hrec, hflies⟩, hserved⟩
  · have hqueued : x.state ≠ .transportWritten := by
      rw [hnew.state]
      decide
    exact absurd hflies (hpath.grounded hwritten hqueued)

/-- A sweep that passes over a lapsed delivery takes another of its recipient out of flight. -/
theorem sweep_fewer (inv : MailInv b) (hd : d ∈ b.lapsed mom.now)
    (hskip : d ∉ served b env mom.now) :
    (flightsTo (sweep env mom b).2 d.recipientSessionId).length <
      (flightsTo b d.recipientSessionId).length := by
  have inv' : MailInv (sweep env mom b).2 := (sweep_respects b).mailInv inv
  obtain ⟨r, hserved, hrec⟩ : ∃ r ∈ served b env mom.now,
      r.recipientSessionId = d.recipientSessionId :=
    (serve_skips hd hskip).resolve_left fun hcap => absurd hcap.2 (not_le.mpr hcap.1)
  have hstored : r ∈ b.deliveries := by
    have hlapsed := serve_subset _ _ _ hserved
    simp only [Broker.lapsed, List.mem_insertionSort, List.mem_filter] at hlapsed
    exact hlapsed.1
  have hflight : r ∈ flightsTo b d.recipientSessionId :=
    List.mem_filter.mpr ⟨hstored, decide_eq_true ⟨hrec, (served_flies hserved).1⟩⟩
  have hnodup : (flightsTo (sweep env mom b).2 d.recipientSessionId).Nodup :=
    (inv'.deliveryIds.of_map _).filter _
  -- One of those in flight before is not among those in flight after.
  have hfewer : flightsTo (sweep env mom b).2 d.recipientSessionId ⊆
      (flightsTo b d.recipientSessionId).erase r := by
    intro x hx
    obtain ⟨hbefore, hunserved⟩ := sweep_flights inv hx
    have hother : x ≠ r := fun heq => hunserved (heq ▸ hserved)
    exact (List.mem_erase_of_ne hother).mpr hbefore
  have hle := (List.subperm_of_subset hnodup hfewer).length_le
  rw [List.length_erase_of_mem hflight] at hle
  have hpos := List.length_pos_of_mem hflight
  omega

/-- A dead letter is one after any number of sweeps. -/
theorem swept_dead {moms : List Moment} (inv : MailInv b) (hd : d ∈ b.deliveries)
    (hdead : d.state = .deadLetter) :
    ((swept env moms b).delivery? d.messageId).map (·.state) = some .deadLetter := by
  induction moms generalizing b with
  | nil => rw [swept, List.foldl_nil, inv.delivery?_of_mem hd, Option.map_some, hdead]
  | cons mom moms ih =>
    refine ih ((sweep_respects b).mailInv inv) ?_
    obtain ⟨d', hmem', hrest⟩ : ∃ d' ∈ (sweep env mom b).2.deliveries, Path env mom.now
        [.lapsed, .buried, .abandoned] (b.requiresAck d.messageId) (b.requiresReply d.messageId)
        (if d ∈ served b env mom.now then ackTimedOut env mom d else d) d' := sweep_onward inv hd
    split at hrest
    · rename_i hserved
      have hflies := (served_flies hserved).1
      rw [hdead] at hflies
      cases hflies
    · obtain rfl := hrest.of_terminal (by simp) (by simp) (by rw [hdead]; rfl)
      exact hmem'

/-- A delivery whose last attempt has lapsed is dead-lettered, in as many sweeps at most as there
    are deliveries to its recipient in flight. -/
theorem swept_deadLetter {moms : List Moment} (inv : MailInv b) (hd : d ∈ b.deliveries)
    (hflies : d.state = .transportWritten) (howed : b.requiresAck d.messageId = true)
    (hlast : env.backoff.maxAttempts ≤ d.attemptAckTimeout + 1)
    (hlate : ∀ mom ∈ moms, d.leaseExpiresAt.any (fun t => t.le mom.now) = true)
    (hlen : (flightsTo b d.recipientSessionId).length ≤ moms.length) :
    ((swept env moms b).delivery? d.messageId).map (·.state) = some .deadLetter := by
  induction moms generalizing b with
  | nil =>
    have hflight : d ∈ flightsTo b d.recipientSessionId :=
      List.mem_filter.mpr ⟨hd, decide_eq_true ⟨rfl, hflies⟩⟩
    rw [List.length_eq_zero_iff.mp (Nat.le_zero.mp hlen)] at hflight
    cases hflight
  | cons mom moms ih =>
    obtain ⟨hnow, hlater⟩ := List.forall_mem_cons.mp hlate
    have inv' : MailInv (sweep env mom b).2 := (sweep_respects b).mailInv inv
    have hfirst : swept env (mom :: moms) b = swept env moms (sweep env mom b).2 := rfl
    rw [hfirst]
    obtain ⟨d', hmem', hrest⟩ : ∃ d' ∈ (sweep env mom b).2.deliveries, Path env mom.now
        [.lapsed, .buried, .abandoned] (b.requiresAck d.messageId) (b.requiresReply d.messageId)
        (if d ∈ served b env mom.now then ackTimedOut env mom d else d) d' := sweep_onward inv hd
    have hid : d'.messageId = d.messageId := (Leads.swept hrest).messageId
    split at hrest
    · -- It is served, and there are no attempts left.
      have hspent : (ackTimedOut env mom d).state = .deadLetter := by
        unfold ackTimedOut
        rw [if_pos hlast]
      obtain rfl := hrest.of_terminal (by simp) (by simp) (by rw [hspent]; rfl)
      rw [← hid]
      exact swept_dead inv' hmem' hspent
    · rename_i hskip
      rcases hrest.flown hflies with rfl | hdead
      · have hlapsed : d' ∈ b.lapsed mom.now := by
          simp only [Broker.lapsed, List.mem_insertionSort, List.mem_filter, decide_eq_true_eq]
          exact ⟨hd, hflies, howed, hnow⟩
        have hfewer : (flightsTo (sweep env mom b).2 d'.recipientSessionId).length <
            (flightsTo b d'.recipientSessionId).length := sweep_fewer inv hlapsed hskip
        have hrecords : SameRecords b (sweep env mom b).2 := sweep_records
        refine ih inv' hmem' ?_ hlater ?_
        · rw [requiresAck_congr hrecords.messages]
          exact howed
        · rw [List.length_cons] at hlen
          omega
      · rw [← hid]
        exact swept_dead inv' hmem' hdead

/-! ## Termination -/

/-- **Escalation terminates**, for a message that no step but the sweeps' puts back in the run: its
    delivery enters flight `maxAttempts` times at most, with every entry that timed out counted
    once; and when the last one has lapsed, sweeps leave it dead-lettered. -/
theorem escalation_terminates {u : Desk} (hmax : 0 < env.backoff.maxAttempts)
    (h : ∃ log, Run (countedStep env mid) (fun p e => ¬ Rearms env mid p.1 e)
      (Desk.initial env, 0) log (u, n)) :
    n ≤ env.backoff.maxAttempts ∧
    (∀ d, u.db.delivery? mid = some d → Escalating env.backoff.maxAttempts n d) ∧
    ∀ d moms, u.db.delivery? mid = some d → d.state = .transportWritten →
      u.db.requiresAck mid = true → n = env.backoff.maxAttempts →
      (∀ mom ∈ moms, d.leaseExpiresAt.any (fun t => t.le mom.now) = true) →
      (flightsTo u.db d.recipientSessionId).length ≤ moms.length →
        ((swept env moms u.db).delivery? mid).map (·.state) = some .deadLetter := by
  obtain ⟨log, run⟩ := h
  have hstart : Escalates env.backoff.maxAttempts (Desk.initial env).db mid 0 := rfl
  obtain ⟨mail, hcount⟩ : MailInv u.db ∧ Escalates env.backoff.maxAttempts u.db mid n :=
    run.invariant (P := fun p => MailInv p.1.db ∧ Escalates env.backoff.maxAttempts p.1.db mid p.2)
      ⟨mailInv_initial, hstart⟩ fun p e hp he =>
        ⟨(desk_moves env e.2 e.1 p.1.db).mailInv hp.1, hp.2.step hp.1 hmax he⟩
  have hsome (d : Delivery) (hd : u.db.delivery? mid = some d) :
      Escalating env.backoff.maxAttempts n d := by simpa [Escalates, hd] using hcount
  refine ⟨?_, hsome, fun d moms hd hflies howed hlast hlate hlen => ?_⟩
  · cases hd : u.db.delivery? mid with
    | none =>
      have hzero : n = 0 := by simpa [Escalates, hd] using hcount
      omega
    | some d => exact (hsome d hd).bounded
  · have hmid : d.messageId = mid := by simpa using List.find?_some hd
    subst hmid
    have hentry := (hsome d hd).flies hflies
    exact swept_deadLetter mail (List.mem_of_find?_eq_some hd) hflies howed (by omega) hlate hlen

/-- What neither registers nor drives the message again puts nothing back. -/
def rearming : DeskOp → Bool
  | .store (.register _) | .store (.operatorRedeliver _ _) | .store (.redrive _ _) => true
  | _ => false

theorem not_rearms {u : Desk} {e : DeskEvent}
    (h : (u.db.delivery? mid).isNone = true ∨ rearming e.1 = false) : ¬ Rearms env mid u e := by
  rintro ⟨hsweep, d, hd, hputs⟩
  rcases h with h | h
  · rw [hd] at h
    cases h
  · obtain ⟨op, mom⟩ := e
    cases hputs with
    | timedOut => exact hsweep mom rfl
    | recovered | redelivered | replayed | redriven => cases h

/-- Two attempts are all a delivery gets. -/
def hastyEnv : Env := { plainEnv with backoff := { maxAttempts := 2 } }

/-- The request is pulled, times out, and is pulled once more. -/
def requestRetried : List DeskEvent :=
  atDesk (requestPulled ++
    [ (.sweep, { nowMs := 400000 }),
      (.checkpointPull (component "beta" .hook 1 2) (some "ck") 10, { nowMs := 500000 }) ])

/-- The retried request has had its two attempts, and the next sweep after the deadline dead-letters
    it. -/
theorem retried_request_escalates :
    let p := (runAll (countedStep hastyEnv 8) (Desk.initial hastyEnv, 0) requestRetried).2
    p.2 = 2 ∧
      (p.1.db.delivery? 8).map (fun d => (d.state, d.attemptAckTimeout)) =
        some (.transportWritten, 1) ∧
      ((swept hastyEnv [{ nowMs := 900000 }] p.1.db).delivery? 8).map (·.state) =
        some .deadLetter := by
  intro p
  have hadmitted : Admitted (countedStep hastyEnv 8) (fun p e =>
      (p.1.db.delivery? 8).isNone = true ∨ rearming e.1 = false) (Desk.initial hastyEnv, 0)
      requestRetried := by decide +kernel
  obtain ⟨hcount, hstate, howed, hlate⟩ : p.2 = 2 ∧
      (p.1.db.delivery? 8).map (fun d => (d.state, d.attemptAckTimeout)) =
        some (.transportWritten, 1) ∧
      p.1.db.requiresAck 8 = true ∧
      (p.1.db.delivery? 8).any (fun d => d.leaseExpiresAt.any (fun t => t.le ⟨900000⟩) ∧
        (flightsTo p.1.db d.recipientSessionId).length ≤ 1) = true := by decide +kernel
  refine ⟨hcount, hstate, ?_⟩
  obtain ⟨d, hd, hpair⟩ := Option.map_eq_some_iff.mp hstate
  rw [hd, Option.any_some, decide_eq_true_eq] at hlate
  have run : Run (countedStep hastyEnv 8) (fun p e => ¬ Rearms hastyEnv 8 p.1 e)
      (Desk.initial hastyEnv, 0) _ (p.1, p.2) :=
    (Run.of_runAll requestRetried hadmitted).mono fun _ _ => not_rearms
  obtain ⟨-, -, hdead⟩ := escalation_terminates (by decide) ⟨_, run⟩
  refine hdead d _ hd (congrArg Prod.fst hpair) howed hcount ?_ hlate.2
  intro mom hmom
  rw [List.mem_singleton.mp hmom]
  exact hlate.1

/-- The deadline passes, and `beta`'s hook registers before the next sweep and pulls again. -/
def joinedLate (n : Nat) : List Event :=
  [ (.register { sessionId := "beta", connectionId := 3, processId := 2, role := .hook },
      { nowMs := 400000 * (n + 1) }),
    (.checkpointPull (component "beta" .hook 1 3) (some "ck") 10, { nowMs := 400000 * (n + 1) }) ]

/-- The hook joins late six times in a row: nobody has answered the request in any way, it entered
    flight once more than it may, and no attempt has been counted. -/
theorem late_joins_uncounted :
    let p := (runAll (countedStep plainEnv 8) (Desk.initial plainEnv, 0)
      (atDesk (requestPulled ++ (List.range 6).flatMap joinedLate))).2
    (∃ log, Run (countedStep plainEnv 8) Any (Desk.initial plainEnv, 0) log p) ∧
      plainEnv.backoff.maxAttempts = 6 ∧ p.2 = 7 ∧
      (p.1.db.delivery? 8).map (fun d => (d.state, d.attemptAckTimeout)) =
        some (.transportWritten, 0) ∧
      p.1.db.requiresAck 8 = true ∧ p.1.db.epochOf "beta" = some 1 ∧ p.1.db.receipts = [] := by
  refine ⟨⟨_, Run.of_events _ _ _⟩, ?_⟩
  decide +kernel

end Proof
end XBus
