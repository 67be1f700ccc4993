import XBus.Proof.Pulls

/-!
# At most one presentation per message and epoch

Over whole runs: the log of a run names every body that was put in front of a session, and
no (message, epoch) pair is named twice, because a presentation leaves a row that every later
pull at that epoch finds.

That much holds of every run. What is in flight is in flight at the recipient's current epoch
only in runs that do not carry a checkpoint id over: `carried_checkpoint_unpresented` is the
run in which a superseding session pulls under the checkpoint id of its predecessor.
-/

set_option autoImplicit false

namespace XBus
namespace Proof

open Lib

variable {env : Env} {b b' : Broker}

/-- One body in an answer: the message, the session and epoch it was returned to, and the
    injection id it carried. -/
structure Presentation where
  messageId : Id
  sessionId : SessionId
  epoch : Nat
  injectionId : Option Id
deriving DecidableEq, Repr

/-- The bodies an answered pull returned. `redeliver` and `peek` are not pulls. -/
def presentedBy (op : Op) (answer : Except Failure Response) : List Presentation :=
  match op, answer with
  | .checkpointPull auth _ _, .ok (.bodies ms)
  | .processNext auth _, .ok (.bodies ms)
  | .daemonCheckpointPull auth _, .ok (.bodies ms) =>
    ms.map fun m => ⟨m.messageId, auth.sessionId, auth.epoch, m.injectionId⟩
  | .inboxView auth _ _, .ok (.inbox es) =>
    (es.filter (·.bodyIncluded)).map fun e =>
      ⟨e.messageId, auth.sessionId, auth.epoch, e.injectionId⟩
  | _, _ => []

/-- The bodies a run returned, oldest first. -/
def presentations (log : List (Event × Except Failure Response)) : List Presentation :=
  log.flatMap fun e => presentedBy e.1.1 e.2

/-- A pull names no checkpoint id that stands for another epoch of its session. -/
def CheckpointNotCarriedOver (b : Broker) (e : Event) : Prop :=
  ∀ given ∈ (checkpointGiven e.1).toList, ∀ i ∈ b.injections,
    i.recipientSessionId = given.1.sessionId → i.checkpointId = .given given.2 →
    i.recipientEpoch = given.1.epoch

instance (b : Broker) (e : Event) : Decidable (CheckpointNotCarriedOver b e) :=
  inferInstanceAs (Decidable (∀ given ∈ (checkpointGiven e.1).toList, ∀ i ∈ b.injections,
    i.recipientSessionId = given.1.sessionId → i.checkpointId = .given given.2 →
    i.recipientEpoch = given.1.epoch))

/-! ## One step -/

/-- What one call returned: nothing, or new bodies to one session at one epoch. -/
inductive StepPresents (b b' : Broker) : List Presentation → Prop
  | none : StepPresents b b' []
  | bodies {auth : SessionAuthority} {ms : List PendingMessage}
      (h : Answers auth.sessionId auth.epoch b b' ms) :
      StepPresents b b' (ms.map fun m =>
        ⟨m.messageId, auth.sessionId, auth.epoch, m.injectionId⟩)

/-- Naming a pull consumes an id at most. -/
theorem checkpointOf_ok {given : Option String} {ck : CheckpointId}
    (h : checkpointOf given b = (.ok ck, b')) : b' = b ∨ b' = b.mint := by
  cases given with
  | some text => exact .inl (Call.pure_ok.mp h).2.symm
  | none => exact .inr (Prod.mk.inj (Call.act_ok.mp h)).2.symm

theorem checkpointOf_injections {given : Option String} {ck : CheckpointId}
    (h : checkpointOf given b = (.ok ck, b')) : b'.injections = b.injections := by
  rcases checkpointOf_ok h with rfl | rfl <;> rfl

theorem Answers.congr_left {sid : SessionId} {epoch : Nat} {b₀ : Broker}
    {ms : List PendingMessage} (h : Answers sid epoch b b' ms)
    (heq : b.injections = b₀.injections) : Answers sid epoch b₀ b' ms :=
  ⟨h.presents.congr_left heq, h.carries⟩

theorem exec_presents {mom : Moment} {op : Op} {r : Response} (mail : MailInv b)
    (mail' : MailInv b') (h : exec env mom op b = (.ok r, b')) :
    StepPresents b b' (presentedBy op (.ok r)) := by
  cases op with
  | checkpointPull auth given limit =>
    simp only [exec, Call.bind_ok, Call.map_ok] at h
    obtain ⟨ck, b₁, hck, ms, hpull, rfl⟩ := h
    exact .bodies ((checkpointPull_ok hpull).congr_left (checkpointOf_injections hck))
  | processNext auth given =>
    simp only [exec, Call.bind_ok, Call.map_ok] at h
    obtain ⟨ck, b₁, hck, ms, hpull, rfl⟩ := h
    exact .bodies ((processNext_ok hpull).congr_left (checkpointOf_injections hck))
  | inboxView auth given limit =>
    simp only [exec, Call.bind_ok, Call.map_ok] at h
    obtain ⟨ck, b₁, hck, es, hview, rfl⟩ := h
    obtain ⟨ms, hans, hes⟩ := inboxView_ok hview
    show StepPresents b b' ((es.filter (·.bodyIncluded)).map _)
    rw [hes, List.map_map]
    exact .bodies (hans.congr_left (checkpointOf_injections hck))
  | daemonCheckpointPull auth limit =>
    simp only [exec, Call.map_ok] at h
    obtain ⟨ms, hpull, rfl⟩ := h
    exact .bodies (daemonCheckpointPull_ok mail mail' hpull)
  | _ => exact .none

theorem presentedBy_error {op : Op} {f : Failure} : presentedBy op (.error f) = [] := by
  cases op <;> rfl

/-! ## Rows stay -/

theorem SameRow.trans {i i' i'' : Injection} (h : SameRow i i') (h' : SameRow i' i'') :
    SameRow i i'' := by
  rw [SameRow] at *
  rw [h', h]

/-- No operation loses an injection row or changes more of it than its use. -/
theorem exec_rows (env : Env) (mail : MailInv b) (mom : Moment) (op : Op) :
    MailInv (exec env mom op b).2 ∧
      ∀ i ∈ b.injections, ∃ i' ∈ (exec env mom op b).2.injections, SameRow i i' := by
  have hmoves := exec_moves env mom op b false (by simp)
  refine hmoves.keeps (P := fun b' => MailInv b' ∧ ∀ i ∈ b.injections, ∃ i' ∈ b'.injections,
    SameRow i i') ⟨mail, fun i hi => ⟨i, hi, .rfl'⟩⟩ ?_
  rintro u u' k - hmove ⟨hmail, hrows⟩
  refine ⟨Move.mailInv hmove hmail, fun i hi => ?_⟩
  obtain ⟨i', hi', hsame⟩ := hrows i hi
  rcases Move.mail hmove hmail with ⟨m, hposted, -⟩ | hframe
  · exact ⟨i', hposted.injections ▸ hi', hsame⟩
  · obtain ⟨i'', hi'', hsame'⟩ := hframe.kept i' hi'
    exact ⟨i'', hi'', hsame.trans hsame'⟩

/-- The traces of a presentation: the row whose id it carried, and the first row of its
    message at its epoch. -/
def Shown (b : Broker) (p : Presentation) : Prop :=
  Carries b p.sessionId p.epoch p.messageId p.injectionId ∧
    ∃ i ∈ b.injections, FirstRow p.sessionId p.epoch p.messageId i

theorem Shown.mono {p : Presentation} (h : Shown b p)
    (kept : ∀ i ∈ b.injections, ∃ i' ∈ b'.injections, SameRow i i') : Shown b' p := by
  obtain ⟨⟨i, hi, hid, hm, hr, he⟩, j, hj, hfirst⟩ := h
  obtain ⟨i', hi', hsame⟩ := kept i hi
  obtain ⟨j', hj', hsame'⟩ := kept j hj
  rw [SameRow] at hsame hsame'
  refine ⟨⟨i', hi', ?_⟩, j', hj', ?_⟩
  · rw [hsame]
    exact ⟨hid, hm, hr, he⟩
  · rw [hsame']
    exact ⟨hfirst.messageId, hfirst.recipient, hfirst.atEpoch, hfirst.logical⟩

/-! ## Runs -/

/-- What a run has presented so far. -/
structure LogInv (log : List (Event × Except Failure Response)) (b : Broker) : Prop where
  mail : MailInv b
  once : ((presentations log).map fun p => (p.messageId, p.epoch)).Nodup
  shown : ∀ p ∈ presentations log, Shown b p

theorem LogInv.step {log : List (Event × Except Failure Response)} (inv : LogInv log b)
    (e : Event) : LogInv (log ++ [(e, (step env b e).1)]) (step env b e).2 := by
  obtain ⟨mail', kept⟩ := exec_rows env inv.mail e.2 e.1
  have hnew : StepPresents b (XBus.step env b e).2 (presentedBy e.1 (XBus.step env b e).1) := by
    rcases hr : XBus.step env b e with ⟨f | r, b'⟩
    · rw [presentedBy_error]
      exact .none
    · refine exec_presents inv.mail ?_ hr
      have hb' : (exec env e.2 e.1 b).2 = b' := congrArg Prod.snd hr
      exact hb' ▸ mail'
  have hlog : presentations (log ++ [(e, (XBus.step env b e).1)]) =
      presentations log ++ presentedBy e.1 (XBus.step env b e).1 := by
    simp [presentations]
  have hold (p : Presentation) (hp : p ∈ presentations log) : Shown (XBus.step env b e).2 p :=
    (inv.shown p hp).mono kept
  generalize hps : presentedBy e.1 (XBus.step env b e).1 = ps at hnew hlog
  cases hnew with
  | none =>
    rw [List.append_nil] at hlog
    exact ⟨mail', hlog ▸ inv.once, hlog ▸ hold⟩
  | @bodies auth ms hans =>
    refine ⟨mail', ?_, fun p hp => ?_⟩
    · rw [hlog, List.map_append, List.nodup_append]
      refine ⟨inv.once, ?_, ?_⟩
      · have := hans.presents.nodup.map (f := fun mid => (mid, auth.epoch))
          fun _ _ h => (Prod.mk.inj h).1
        simpa [List.map_map, Function.comp_def] using this
      · -- An old presentation left a first row, which the new ones did not meet.
        rintro x hx y hy rfl
        obtain ⟨p, hp, rfl⟩ := List.mem_map.mp hx
        obtain ⟨q, hq, hqx⟩ := List.mem_map.mp hy
        obtain ⟨m, hm, rfl⟩ := List.mem_map.mp hq
        obtain ⟨hmid, hepoch⟩ := Prod.mk.inj hqx
        obtain ⟨-, i, hi, hfirst⟩ := inv.shown p hp
        exact hans.presents.fresh m.messageId (List.mem_map_of_mem hm) i hi
          ⟨hfirst.messageId.trans hmid.symm, hfirst.atEpoch.trans hepoch.symm, hfirst.logical⟩
    · rw [hlog] at hp
      rcases List.mem_append.mp hp with hp | hp
      · exact hold p hp
      · obtain ⟨m, hm, rfl⟩ := List.mem_map.mp hp
        exact ⟨hans.carries m hm, hans.presents.first m.messageId (List.mem_map_of_mem hm)⟩

theorem logInv_of_run {ok : Broker → Event → Prop} {log : List (Event × Except Failure Response)}
    (run : Run (step env) ok (initial env) log b) : LogInv log b := by
  refine run.invariant_log ⟨mailInv_initial, List.nodup_nil, by simp [presentations]⟩ ?_
  exact fun log u e inv _ => inv.step e

/-- Under the condition every injection of a step is clean. -/
theorem flightInv_step {e : Event} (mail : MailInv b) (inv : FlightInv b)
    (hok : CheckpointNotCarriedOver b e) : FlightInv (step env b e).2 := by
  have hmoves := exec_moves env e.2 e.1 b true fun _ => ⟨mail.minted, fun auth ck hgiven => by
    intro i hi haddr hck
    have hto : i.recipientSessionId = auth.sessionId :=
      mail.addressed_unique (mail.rows i hi) haddr
    exact hok (auth, ck) (by simp [hgiven]) i hi hto hck⟩
  have hclean : ∀ k ∈ kindsOf true e.1, k ≠ .inject false := by
    cases e.1 <;> simp [kindsOf, registerKinds]
  exact (hmoves.keeps (P := fun b' => MailInv b' ∧ FlightInv b') ⟨mail, inv⟩
    fun u u' k hk hmove hinv =>
      ⟨Move.mailInv hmove hinv.1, Move.flightInv hmove (hclean k hk) hinv.1 hinv.2⟩).2

theorem flightInv_initial : FlightInv (initial env) := by
  intro d hd
  obtain ⟨g, hdel, -⟩ := (ensureOperatorSession_mail env {}).deliveries
  rw [initial, hdel] at hd
  cases hd

/-- **At most once.** In every run whose pulls carry no checkpoint id over into another
    epoch: no body is returned twice to one epoch, every body returned carries the id of a row
    of its message, its recipient and its epoch, and whatever is in flight is in flight at its
    recipient's current epoch, with a row for it. -/
theorem body_presented_at_most_once {log : List (Event × Except Failure Response)}
    (run : Run (step env) CheckpointNotCarriedOver (initial env) log b) :
    ((presentations log).map fun p => (p.messageId, p.epoch)).Nodup ∧
      (∀ p ∈ presentations log, Carries b p.sessionId p.epoch p.messageId p.injectionId) ∧
      ∀ d ∈ b.deliveries, d.state = .transportWritten → InFlight b d := by
  have hlog := logInv_of_run run
  refine ⟨hlog.once, fun p hp => (hlog.shown p hp).1, ?_⟩
  have hinv : MailInv b ∧ FlightInv b :=
    run.invariant (P := fun b => MailInv b ∧ FlightInv b)
      ⟨mailInv_initial, flightInv_initial⟩ fun u e hu hok =>
      ⟨(exec_rows env hu.1 e.2 e.1).1, flightInv_step hu.1 hu.2 hok⟩
  exact hinv.2

/-- The pulled request is pulled again in the next epoch, under a checkpoint id of choice. -/
def pulledPerEpoch (second : String) : List Event :=
  requestPulled ++
    [ (.register { sessionId := "beta", connectionId := 3, processId := 3, supersede := true },
        { nowMs := 1002 }),
      (.signalReadiness (component "beta" .mcp 2 3) { ackAvailable := some true },
        { nowMs := 1003 }),
      (.checkpointPull (component "beta" .hook 2 3) (some second) 10, { nowMs := 1004 }) ]

/-- One message, presented once to each of two epochs. -/
theorem body_presented_once_per_epoch :
    let run := runAll (step plainEnv) (initial plainEnv) (pulledPerEpoch "ck2")
    (presentations run.1).map (fun p => (p.messageId, p.epoch)) = [(8, 1), (8, 2)] ∧
      ((presentations run.1).map fun p => (p.messageId, p.epoch)).Nodup ∧
      (∀ p ∈ presentations run.1,
        Carries run.2 p.sessionId p.epoch p.messageId p.injectionId) ∧
      ∀ d ∈ run.2.deliveries, d.state = .transportWritten → InFlight run.2 d :=
  ⟨by decide +kernel,
    body_presented_at_most_once (Run.of_runAll (pulledPerEpoch "ck2") (by decide +kernel))⟩

/-- The second epoch pulls under the checkpoint id of the first: the body is suppressed as a
    duplicate, the delivery is marked, and no row says it was presented to this epoch. -/
theorem carried_checkpoint_unpresented :
    ∃ log b, Run (step plainEnv) Any (initial plainEnv) log b ∧
      ∃ d ∈ b.deliveries, d.state = .transportWritten ∧ ¬ InFlight b d := by
  refine ⟨_, _, Run.of_events (step plainEnv) (initial plainEnv) (pulledPerEpoch "ck"), ?_⟩
  have hfacts :
    ∃ d ∈ (runAll (step plainEnv) (initial plainEnv) (pulledPerEpoch "ck")).2.deliveries,
      d.state = .transportWritten ∧
      (runAll (step plainEnv) (initial plainEnv) (pulledPerEpoch "ck")).2.epochOf
        d.recipientSessionId = some 2 ∧
      ∀ i ∈ (runAll (step plainEnv) (initial plainEnv) (pulledPerEpoch "ck")).2.injections,
        i.recipientEpoch ≠ 2 := by decide +kernel
  obtain ⟨d, hd, htw, hepoch, hrows⟩ := hfacts
  refine ⟨d, hd, htw, ?_⟩
  rintro ⟨e, he, -, i, hi, -, -, hie⟩
  rw [hepoch] at he
  exact hrows i hi (hie.trans (Option.some.inj he).symm)

end Proof
end XBus
