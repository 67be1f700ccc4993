import XBus.Proof.Signals

/-!
# Epoch fencing

An authority is cached by the daemon and outlives the lifecycle it was issued in: the session
may since have been superseded, resumed after its expiry, or removed and registered anew.
What stands between such an authority and the database is the comparison of its epoch with
the session's, which each handler makes for itself.

Two things go wrong. Three handlers do not make it: `send_message`, `set_control` and
`block_peer`. And epochs start over when a session is removed and its id used again, so that
an authority of the removed session passes for one of the new.

Everything else is as it should be, which `stale_frames_change_nothing` says: in runs in which
those three frames come from authorities of the current epoch, and no session id is used
again while another connection still holds an authority for it, a frame that changes anything
comes from a registration in the current lifecycle.
-/

set_option autoImplicit false

namespace XBus
namespace Proof

open Lib

variable {env : Env} {mom : Moment} {now : Iso} {d d' : Daemon} {b : Broker} {a : SessionAuthority}

/-! ## Behind the fence -/

/-- The frames whose handlers do not look at the epoch. -/
def unfenced : Request → Bool
  | .sendMessage _ | .setControl _ | .blockPeer _ _ => true
  | _ => false

section Stale

variable (stale : b.epochOf a.sessionId ≠ some a.epoch)
include stale

theorem stale_fence {α : Type} {f : Unit → BrokerCall α} :
    AuditTrail b ((assertCurrentEpoch a >>= f) b).2 :=
  Respects.bind_at (assertCurrentEpoch_auditTrail b) fun _ _ h =>
    absurd (assertCurrentEpoch_ok.mp h).1 stale

/-- Behind a role check and the fence. -/
theorem stale_gate {α : Type} {role : ComponentRole} {op : Operation} {f : Unit → BrokerCall α} :
    AuditTrail b ((do assertAllowed role op; assertCurrentEpoch a >>= f : BrokerCall α) b).2 := by
  refine Respects.bind_at (assertAllowed_respects b) fun _ t h => ?_
  obtain ⟨-, rfl⟩ := Call.require_ok.mp h
  exact stale_fence stale

/-- Behind the minting of a checkpoint id, a role check and the fence. -/
theorem stale_pull {α : Type} {x : CheckpointId → BrokerCall α} {given : Option String}
    (hx : ∀ ck b, b.epochOf a.sessionId ≠ some a.epoch → AuditTrail b (x ck b).2) :
    AuditTrail b ((checkpointOf given >>= x) b).2 := by
  cases given with
  | some ck => exact hx _ b stale
  | none => exact IsFrame.trans ⟨b.auditEvents, b.nextId + 1, rfl⟩ (hx _ b.mint stale)

/-- A fenced frame under a stale authority leaves its refusal in the audit trail, at most. -/
theorem stale_frame {r : Request} (fenced : unfenced r = false) :
    AuditTrail b (onRequest env mom a r b).2 := by
  rcases onRequest_snd env mom a r b with h | h
  · rw [h]
    exact IsFrame.refl b
  rw [h]
  -- Each handler that is fenced comes to its fence before it writes more than audit rows.
  cases r with
  | sendMessage | setControl | blockPeer => cases fenced
  | registerAlias handle =>
    simp only [Request.op, exec, Call.map_snd]
    refine Respects.bind_at (Respects.lift b) fun handle t h => ?_
    obtain ⟨-, rfl⟩ := Call.lift_ok.mp h
    refine Respects.transaction_at fun _ t h => ?_
    obtain ⟨_, _, hfence, -⟩ := Call.bind_ok.mp h
    exact absurd (assertCurrentEpoch_ok.mp hfence).1 stale
  | renameSession name secret =>
    simp only [Request.op, exec, Call.map_snd]
    rcases hrename : renameSession env mom a name secret b with ⟨e | r, b'⟩
    · rw [← renameSession_refuses b e b' hrename]
      exact IsFrame.refl b
    · exact absurd (renameSession_ok hrename).2.1 stale
  | checkpointPull limit =>
    simp only [Request.op, exec, Call.map_snd]
    refine Respects.bind_at (stale_fence stale) fun _ t h => ?_
    obtain ⟨_, _, hfence, -⟩ := Call.bind_ok.mp h
    exact absurd (assertCurrentEpoch_ok.mp hfence).1 stale
  | checkpointPullHook ck limit =>
    refine stale_pull stale fun ck b stale => ?_
    rw [Call.map_snd]
    exact stale_gate stale
  | ackMessage input =>
    simp only [Request.op, exec, Call.map_snd]
    exact stale_gate stale
  | replyMessage input =>
    simp only [Request.op, exec, Call.map_snd]
    exact stale_gate stale
  | inbox markInjected ck limit =>
    cases markInjected with
    | false =>
      simp only [Request.op, exec, Call.map_snd]
      exact stale_fence stale
    | true =>
      refine stale_pull stale fun ck b stale => ?_
      rw [Call.map_snd]
      exact stale_gate stale
  | redeliver mid =>
    simp only [Request.op, exec, Call.map_snd]
    exact stale_gate stale
  | signalReadiness hints =>
    simp only [Request.op, exec, Call.map_snd]
    refine Respects.transaction_at fun _ t h => ?_
    simp only [Call.get_bind, Call.bind_ok, Call.orThrow_ok, Call.require_ok] at h
    obtain ⟨s, _, ⟨hs, rfl⟩, _, _, ⟨hepoch, rfl⟩, -⟩ := h
    exact absurd (by rw [Broker.epochOf, hs, ← hepoch]; rfl) stale
  | processNext =>
    refine stale_pull stale fun ck b stale => ?_
    rw [Call.map_snd]
    exact stale_gate stale

end Stale

/-! ## Lifecycles -/

/-- How many lifecycles of each session have ended, and the one of its session that each
    connection registered in last. -/
structure Lifecycles where
  ended : SessionId → Nat := fun _ => 0
  stamp : ConnId → Nat := fun _ => 0

/-- A lifecycle of a session ends when the session is removed or goes on to another epoch. -/
def endsLifecycle (b b' : Broker) (sid : SessionId) : Bool :=
  (b.session? sid).isSome ∧ b'.epochOf sid ≠ b.epochOf sid

def Lifecycles.note (h : Lifecycles) (d : Daemon) (e : DaemonEvent)
    (answer : Except Failure Response) (d' : Daemon) : Lifecycles :=
  let ended sid := if endsLifecycle d.db d'.db sid then h.ended sid + 1 else h.ended sid
  { ended
    stamp := match registrationOf e.1 answer with
      | some (conn, a) => Function.update h.stamp conn (ended a.sessionId)
      | none => h.stamp }

/-- The daemon, with the lifecycles of its sessions on record. -/
def trackedStep (env : Env) : Daemon × Lifecycles → DaemonEvent →
    Except Failure Response × (Daemon × Lifecycles) :=
  recording (Daemon.step env) Lifecycles.note

/-! ## The condition -/

/-- The authority of the connection is of its session's current epoch. -/
def passesFence (d : Daemon) (conn : ConnId) : Prop :=
  ∀ c ∈ d.conn? conn, ∀ a ∈ c.auth, d.db.epochOf a.sessionId = some a.epoch

instance (d : Daemon) (conn : ConnId) : Decidable (passesFence d conn) :=
  inferInstanceAs (Decidable (∀ c ∈ d.conn? conn, ∀ a ∈ c.auth, _))

/-- The session an event brings into being. -/
def createdBy (env : Env) (d : Daemon) (e : DaemonEvent) : Option SessionId :=
  (match e.1 with
    | .frame conn (.registerSession p) => some (targetOf env e.2 d.db (p.input conn))
    | .upkeep u => recordedBy u
    | _ => none).filter fun sid => (d.db.session? sid).isNone

/-- No connection but the one that speaks holds an authority for the session. -/
def heldByNoOther (d : Daemon) (s : Signal) (sid : SessionId) : Prop :=
  ∀ c ∈ d.conns, speaker s ≠ some c.id → ∀ a ∈ c.auth, a.sessionId ≠ sid

instance (d : Daemon) (s : Signal) (sid : SessionId) : Decidable (heldByNoOther d s sid) :=
  inferInstanceAs (Decidable (∀ c ∈ d.conns, _ → ∀ a ∈ c.auth, _))

/-- The connection of a frame whose handler does not look at the epoch. -/
def unfencedSpeaker : Signal → Option ConnId
  | .frame conn (.request r) => if unfenced r then some conn else none
  | _ => none

/-- The frames that are not fenced come from current authorities, and no session comes into
    being that another connection has an authority for. -/
def FencesHold (env : Env) (p : Daemon × Lifecycles) (e : DaemonEvent) : Prop :=
  (∀ conn ∈ unfencedSpeaker e.1, passesFence p.1 conn) ∧
    ∀ sid ∈ createdBy env p.1 e, heldByNoOther p.1 e.1 sid

instance (env : Env) (p : Daemon × Lifecycles) (e : DaemonEvent) : Decidable (FencesHold env p e) :=
  inferInstanceAs (Decidable ((∀ conn ∈ _, _) ∧ ∀ sid ∈ _, _))

/-! ## The invariant -/

/-- No authority is ahead of its session, and one that is not behind was issued in the
    session's current lifecycle. -/
def FenceInv (p : Daemon × Lifecycles) : Prop :=
  ∀ c ∈ p.1.conns, ∀ a, c.auth = some a → ∀ e, p.1.db.epochOf a.sessionId = some e →
    a.epoch ≤ e ∧ (a.epoch = e → p.2.stamp c.id = p.2.ended a.sessionId)

variable {h : Lifecycles}

/-- Where the epoch of a session did not change, no lifecycle of it ended. -/
theorem ended_note {e : DaemonEvent} {answer : Except Failure Response} {sid : SessionId}
    (heq : d'.db.epochOf sid = d.db.epochOf sid) :
    (h.note d e answer d').ended sid = h.ended sid := by
  simp [Lifecycles.note, endsLifecycle, heq]

theorem stamp_note {e : DaemonEvent} {answer : Except Failure Response}
    (quiet : registrationOf e.1 answer = none) : (h.note d e answer d').stamp = h.stamp := by
  simp [Lifecycles.note, quiet]

/-- No connection gains an authority, and the sessions of those there are keep their epoch or
    disappear. -/
theorem FenceInv.frame (inv : FenceInv (d, h)) {e : DaemonEvent} {answer : Except Failure Response}
    (quiet : registrationOf e.1 answer = none)
    (conns : ∀ c' ∈ d'.conns, ∀ a, c'.auth = some a → ∃ c ∈ d.conns, c.id = c'.id ∧ c.auth = some a)
    (epochs : ∀ c ∈ d.conns, ∀ a, c.auth = some a → ∀ n, d'.db.epochOf a.sessionId = some n →
      d.db.epochOf a.sessionId = some n) : FenceInv (d', h.note d e answer d') := by
  intro c' hc' a ha n hn
  obtain ⟨c, hc, hid, hauth⟩ := conns c' hc' a ha
  have hbefore := epochs c hc a hauth n hn
  have := inv c hc a hauth n hbefore
  rwa [stamp_note quiet, ended_note (hn.trans hbefore.symm), ← hid]

/-- A registration. The one who registered is current; any other authority for the session is
    behind a fresh lifecycle, and where it joins, nothing has changed for the others. -/
theorem FenceInv.registered (inv : FenceInv (d, h)) {c : Conn} {p : RegisterPayload}
    (answered : register env mom (p.input c.id) d.db = (.ok a, b))
    (sole : ∀ sid ∈ createdBy env d (.frame c.id (.registerSession p), mom),
      heldByNoOther d (.frame c.id (.registerSession p)) sid) :
    FenceInv (Daemon.updateConn { d with db := b } c.id (fun c => { c with auth := some a }),
      h.note d (.frame c.id (.registerSession p), mom) (.ok (.authority a))
        (Daemon.updateConn { d with db := b } c.id fun c => { c with auth := some a })) := by
  obtain ⟨cs, seated⟩ := register_seated answered
  obtain ⟨s', hs', hepoch', -, -⟩ := seated.here
  have hhere : b.epochOf a.sessionId = some a.epoch := by rw [Broker.epochOf, hs', ← hepoch']; rfl
  set d' := Daemon.updateConn { d with db := b } c.id fun c => { c with auth := some a } with hd'
  set h' := h.note d (.frame c.id (.registerSession p), mom) (.ok (.authority a)) d' with hh'
  have hstamp : h'.stamp = Function.update h.stamp c.id (h'.ended a.sessionId) := rfl
  intro c' hc' a' ha' n hn
  obtain ⟨c₀, hc₀, rfl⟩ := mem_updateConn hc'
  by_cases hid : c₀.id = c.id
  · rw [if_pos hid] at ha' ⊢
    obtain rfl : a = a' := Option.some.inj ha'
    obtain rfl : a.epoch = n := Option.some.inj (hhere.symm.trans hn)
    refine ⟨Nat.le_refl _, fun _ => ?_⟩
    rw [hstamp, show c₀.id = c.id from hid, Function.update_self]
  · rw [if_neg hid] at ha' ⊢
    have hkept : h'.stamp c₀.id = h.stamp c₀.id := by rw [hstamp, Function.update_of_ne hid]
    -- Where the epoch is the same as before, so is the lifecycle.
    have hsame (heq : d.db.epochOf a'.sessionId = some n) :
        a'.epoch ≤ n ∧ (a'.epoch = n → h'.stamp c₀.id = h'.ended a'.sessionId) := by
      rw [hkept, hh', ended_note (hn.trans heq.symm)]
      exact inv c₀ hc₀ a' ha' n heq
    by_cases hsid : a'.sessionId = a.sessionId
    · have hn' : a.epoch = n := by
        rw [hsid] at hn
        exact Option.some.inj (hhere.symm.trans hn)
      cases seated.way with
      | created absent =>
        have hcreated : a.sessionId ∈ createdBy env d (.frame c.id (.registerSession p), mom) := by
          simp [createdBy, ← seated.target, absent]
        refine absurd hsid (sole a.sessionId hcreated c₀ hc₀ ?_ a' ha')
        exact fun heq => hid (Option.some.inj heq).symm
      | @advanced s hs hadv =>
        have hbefore : d.db.epochOf a'.sessionId = some s.activeEpoch := by
          rw [hsid, Broker.epochOf, hs]
          rfl
        have hle := (inv c₀ hc₀ a' ha' s.activeEpoch hbefore).1
        exact ⟨by omega, fun heq => by omega⟩
      | @joined s hs _ hjoin =>
        refine hsame ?_
        rw [hsid, Broker.epochOf, hs, ← hn', hjoin]
        rfl
    · refine hsame ?_
      rw [← hn, Broker.epochOf, Broker.epochOf, show d'.db.session? a'.sessionId = _ from
        seated.others a'.sessionId hsid]

/-- Every signal that meets the condition keeps the invariant. -/
theorem FenceInv.stepped (inv : FenceInv (d, h)) {s : Signal} {answer : Except Failure Response}
    (hs : Stepped env mom d s answer d') (hok : FencesHold env (d, h) (s, mom)) :
    FenceInv (d', h.note d (s, mom) answer d') := by
  have hsame {d' : Daemon} (hc : d'.conns = d.conns) : ∀ c' ∈ d'.conns, ∀ a, c'.auth = some a →
      ∃ c ∈ d.conns, c.id = c'.id ∧ c.auth = some a :=
    fun c' hc' a ha => ⟨c', hc ▸ hc', rfl, ha⟩
  cases hs with
  | noted hnoted quiet =>
    obtain ⟨b, hb, rfl⟩ := hnoted
    exact inv.frame quiet (hsame rfl) fun _ _ _ _ _ hn =>
      (Settled.bookkeeping hb.bookkeeping).sameLinks.calm.epochs _ _ hn
  | accepted pid =>
    refine inv.frame rfl (fun c' hc' a ha => ?_) fun _ _ _ _ _ hn => hn
    rcases List.mem_append.mp hc' with hc' | hc'
    · exact ⟨c', hc', rfl, ha⟩
    · rw [List.mem_singleton.mp hc'] at ha
      cases ha
  | greeted =>
    refine inv.frame rfl (fun c' hc' a ha => ?_) fun _ _ _ _ _ hn => hn
    obtain ⟨c₀, hc₀, rfl⟩ := mem_updateConn hc'
    refine ⟨c₀, hc₀, ?_⟩
    split at ha <;> exact ⟨by simp_all, ha⟩
  | registered found answered => exact inv.registered answered hok.2
  | @requested c r a =>
    exact inv.frame rfl (hsame rfl) fun _ _ _ _ _ hn =>
      (onRequest_sameLinks env mom a r d.db).calm.epochs _ _ hn
  | @closed c =>
    refine inv.frame rfl (fun c' hc' a ha => ⟨c', List.mem_of_mem_filter hc', rfl, ha⟩)
      fun _ _ _ _ n hn => ?_
    cases hauth : c.auth with
    | none => simpa only [Daemon.close, hauth] using hn
    | some a =>
      simp only [Daemon.close, hauth] at hn
      have hclose : Move env .close d.db (d.db.connClosed a c.id) := .close a c.id
      exact (hclose.calm rfl).epochs _ _ hn
  | upkept u =>
    refine inv.frame rfl (hsame rfl) fun c hc a ha n hn => ?_
    cases hu : recordedBy u with
    | none => exact (upkeep_calm env mom hu d.db).epochs _ _ hn
    | some sid =>
      rcases upkeep_records env mom hu d.db with heq | ⟨absent, mode, rs, heq⟩
      · simpa only [heq] using hn
      · -- The record is of a session nobody holds an authority for.
        have hcreated : sid ∈ createdBy env d (.upkeep u, mom) := by simp [createdBy, hu, absent]
        have hne : a.sessionId ≠ sid := hok.2 sid hcreated c hc (by simp [speaker]) a ha
        simp only [heq] at hn
        rwa [Broker.epochOf, session?_append_ne rfl (by exact hne)] at hn
  | restarted => exact fun _ hc => absurd hc List.not_mem_nil

/-- **Epoch fencing.** In every run that meets the condition, a connection whose registration
    is not of its session's current lifecycle is behind the session's epoch, and none of its
    frames changes anything. -/
theorem stale_frames_change_nothing {p : Daemon × Lifecycles}
    {log : List (DaemonEvent × Except Failure Response)}
    (run : Run (trackedStep env) (FencesHold env) (Daemon.initial env, {}) log p)
    {c : Conn} (hopen : p.1.conn? c.id = some c) {a : SessionAuthority} (auth : c.auth = some a)
    (past : p.2.stamp c.id ≠ p.2.ended a.sessionId) :
    p.1.db.epochOf a.sessionId ≠ some a.epoch ∧
      ∀ r mom, FencesHold env p (.frame c.id (.request r), mom) →
        AuditTrail p.1.db (trackedStep env p (.frame c.id (.request r), mom)).2.1.db := by
  have inv : FenceInv p := by
    refine run.invariant (fun _ hc => nomatch hc) fun u e hu hok => ?_
    exact FenceInv.stepped hu (step_stepped env u.1 e) hok
  have hstale : p.1.db.epochOf a.sessionId ≠ some a.epoch := fun heq =>
    past ((inv c (conn?_eq_some hopen).1 a auth a.epoch heq).2 rfl)
  refine ⟨hstale, fun r mom hok => ?_⟩
  have hstep : (trackedStep env p (.frame c.id (.request r), mom)).2.1.db =
      (onRequest env mom a r p.1.db).2 := by
    simp only [trackedStep, recording, Daemon.step, hopen, handle, auth]
    rfl
  rw [hstep]
  cases hr : unfenced r with
  | false => exact stale_frame hstale hr
  | true =>
    -- The condition keeps the three unfenced frames to current authorities.
    have hspeaker : c.id ∈ unfencedSpeaker (.frame c.id (.request r)) := by
      simp [unfencedSpeaker, hr]
    exact absurd (hok.1 c.id hspeaker c hopen a auth) hstale

/-! ## A superseded connection -/

/-- `alpha` registers on connection 1 and is superseded on connection 3. -/
def alphaSuperseded : List DaemonEvent :=
  arrives 1 { sessionId := "alpha", processId := 1 } ++
    arrives 2 { sessionId := "beta", processId := 2, requestedSessionName := some "beta-name" } ++
    arrives 3 { sessionId := "alpha", processId := 3, supersede := true }

/-- What connection 1 is left with. -/
def supersededConn : Conn :=
  { id := 1, pid := 1, hello := true, auth := some { component "alpha" .mcp 1 1 with
      componentInstanceId := 1 } }

/-- The superseded connection cannot take an alias. -/
theorem superseded_takes_no_alias :
    let p := (runAll (trackedStep plainEnv) (Daemon.initial plainEnv, {}) alphaSuperseded).2
    p.1.conn? 1 = some supersededConn ∧ p.1.db.epochOf "alpha" ≠ some 1 ∧
      AuditTrail p.1.db (trackedStep plainEnv p
        (.frame 1 (.request (.registerAlias "ghost")), { nowMs := 1001 })).2.1.db := by
  intro p
  have hopen : p.1.conn? 1 = some supersededConn := by decide +kernel
  have past : p.2.stamp 1 ≠ p.2.ended "alpha" := by decide +kernel
  have hadmitted : Admitted (trackedStep plainEnv) (FencesHold plainEnv)
      (Daemon.initial plainEnv, {}) alphaSuperseded := by decide +kernel
  have hok : FencesHold plainEnv p
      (.frame 1 (.request (.registerAlias "ghost")), { nowMs := 1001 }) := by decide +kernel
  obtain ⟨hstale, hframe⟩ := stale_frames_change_nothing (Run.of_runAll alphaSuperseded hadmitted)
    (c := supersededConn) hopen rfl past
  exact ⟨hopen, hstale, hframe _ _ hok⟩

/-- The superseded connection sends a message, and it is stored. -/
theorem superseded_connection_sends :
    ∃ log p, Run (trackedStep plainEnv) Any (Daemon.initial plainEnv, {}) log p ∧
      ∃ c a, p.1.conn? c.id = some c ∧ c.auth = some a ∧
        p.2.stamp c.id ≠ p.2.ended a.sessionId ∧
        ∃ r mom, (trackedStep plainEnv p (.frame c.id (.request r), mom)).2.1.db.messages ≠
          p.1.db.messages := by
  refine ⟨_, _, Run.of_events (trackedStep plainEnv) (Daemon.initial plainEnv, {}) alphaSuperseded,
    supersededConn, _, by decide +kernel, rfl, by decide +kernel,
    .sendMessage { recipient := "beta-name", text := "from the past" }, { nowMs := 1001 }, ?_⟩
  decide +kernel

end Proof
end XBus
