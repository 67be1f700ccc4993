import XBus.Proof.Signals

/-!
# Phantom owners

An mcp component is refused with `SESSION_ALREADY_ACTIVE` when its session has a live mcp
component row on another connection. The row is taken for the connection. Within one broker
process it may be: a connection that closes takes its rows out of life.

A process that dies closes nothing. Its rows are still live when the next one starts, and that
one has no connections: until somebody happens to register and close under the connection id
of such a row, its session is owned by nobody and refuses everybody. `cleanupComponents`,
which would close the rows of dead processes, is called from nowhere.

So a session's rows may be taken for connections in all runs in which no broker process ends
with a live mcp row of that session. Crashes that leave rows of other sessions behind do no harm
to it; that is `no_phantom_owner`.
-/

set_option autoImplicit false

namespace XBus
namespace Proof

open Lib

variable {env : Env} {mom : Moment} {now : Iso} {d d' : Daemon} {b : Broker} {sid : SessionId}

/-! ## What a refusal says -/

/-- If the failure is a `SESSION_ALREADY_ACTIVE`, it names the session and `P` holds of it. -/
def AlreadyActive (P : SessionId → Prop) (f : Failure) : Prop :=
  ∀ e, f = .xbus e → e.code = .sessionAlreadyActive →
    ∃ sid, e.detail = [("sessionId", sid)] ∧ P sid

theorem alreadyActive_of_code {P : SessionId → Prop} {code : ErrorCode} {message : String}
    {detail : List (String × String)} (h : code ≠ .sessionAlreadyActive) :
    AlreadyActive P (xbusError code message detail) := by
  intro e he hcode
  cases he
  exact absurd hcode h

/-- The session has a live mcp component at its current epoch on another connection. -/
def OwnedElsewhere (b : Broker) (conn : ConnId) (sid : SessionId) : Prop :=
  ∃ c ∈ b.components, c.sessionId = sid ∧ b.epochOf sid = some c.epoch ∧ c.role = .mcp ∧
    c.state = .live ∧ c.connectionId ≠ conn

theorem enterSession_throws {input : RegisterInput} :
    ThrowsOnly (AlreadyActive fun sid => sid = input.sessionId ∧ input.role = .mcp ∧
      OwnedElsewhere b input.connectionId sid) (enterSession env now input) b := by
  refine .bind .get fun b₀ t h => ?_
  obtain ⟨rfl, rfl⟩ := Call.get_ok.mp h
  cases hs : b.session? input.sessionId with
  | none => exact .bind .modify fun _ _ _ => .pure _
  | some s =>
    simp only
    split
    · exact .bind .modify fun _ _ _ => .pure _
    · refine .bind (.requireElse fun hno => ?_) fun _ _ _ => .bind .modify fun _ _ _ => .pure _
      rw [not_or, not_not, not_not] at hno
      obtain ⟨hrole, hany⟩ := hno
      obtain ⟨c, hc, hne⟩ := List.any_eq_true.mp hany
      obtain ⟨hmem, hcols⟩ := List.mem_filter.mp hc
      simp only [decide_eq_true_eq] at hcols hne
      obtain ⟨hsid, hepoch, hmcp, hlive⟩ := hcols
      intro e he _
      cases he
      exact ⟨input.sessionId, rfl, rfl, hrole, c, hmem, hsid,
        by rw [Broker.epochOf, hs, hepoch]; rfl, hmcp, hlive, hne⟩

theorem register_throws {raw : RegisterInput} :
    ThrowsOnly (AlreadyActive fun sid => sid = targetOf env mom b raw ∧ raw.role = .mcp ∧
      OwnedElsewhere b raw.connectionId sid) (register env mom raw) b := by
  refine .bind (.require fun _ => alreadyActive_of_code (by decide)) fun _ t h => ?_
  obtain ⟨-, rfl⟩ := Call.require_ok.mp h
  refine .transaction fun f t h => ?_
  simp only [registerTransaction, Call.act_bind, Call.modify_bind] at h
  rw [reclaimOf_edges] at h
  obtain ⟨es, hes⟩ := edges_eq b raw.sessionId (reclaimOf env mom b raw)
  rw [hes] at h
  obtain ⟨hrole, -, hconn⟩ := redirected_fields raw (reclaimOf env mom b raw)
    (b.redirectOf raw.sessionId)
  rw [← hrole, ← hconn]
  -- Nothing after the entry throws.
  have hactive := RefusesInto.bind enterSession_throws (fun _ _ _ => .bind .modify fun _ _ _ =>
    .bind .act fun _ _ _ => .bind .modify fun _ _ _ => .bind .get fun _ _ _ => .pure _) f t h
  exact hactive

theorem onRegister_throws {c : Conn} {p : RegisterPayload} :
    ThrowsOnly (AlreadyActive fun sid => sid = targetOf env mom d.db (p.input c.id) ∧
      (p.input c.id).role = .mcp ∧ OwnedElsewhere d.db c.id sid) (onRegister env mom c p) d := by
  refine .bind (.require fun _ => alreadyActive_of_code (by decide)) fun _ t h => ?_
  obtain ⟨-, rfl⟩ := Call.require_ok.mp h
  cases p.emptyField with
  | some field =>
    intro f t h
    cases h
    exact alreadyActive_of_code (by decide)
  | none =>
    refine .bind (.requireElse fun _ => alreadyActive_of_code (by decide)) fun _ t h => ?_
    obtain ⟨-, rfl⟩ := Call.requireElse_ok.mp h
    refine .bind (fun f t h => ?_) fun _ _ _ => .bind .modify fun _ _ _ => .pure _
    obtain ⟨hf, -⟩ := Prod.mk.inj h
    exact register_throws f (register env mom (p.input c.id) d.db).2 (Prod.ext hf rfl)

/-! ## Rows and connections -/

/-- No broker process ends while an mcp component of the session is live. -/
def RestartsClean (sid : SessionId) (d : Daemon) (e : DaemonEvent) : Prop :=
  e.1 = .restart → ∀ c ∈ d.db.components, c.sessionId = sid → c.role = .mcp → c.state ≠ .live

instance (sid : SessionId) (d : Daemon) (e : DaemonEvent) : Decidable (RestartsClean sid d e) :=
  inferInstanceAs (Decidable (_ → ∀ c ∈ d.db.components, _))

/-- Every live mcp component of the session is that of an open connection that has registered. -/
def OwnersOpen (sid : SessionId) (d : Daemon) : Prop :=
  ∀ c ∈ d.db.components, c.sessionId = sid → c.role = .mcp → c.state = .live →
    ∃ conn ∈ d.conns, conn.id = c.connectionId ∧ conn.auth.isSome

/-- No component comes alive, and the connections that have registered stay. -/
theorem OwnersOpen.frame (inv : OwnersOpen sid d)
    (live : ∀ c ∈ d'.db.components, c.state = .live → c ∈ d.db.components)
    (conns : ∀ conn ∈ d.conns, conn.auth.isSome →
      ∃ conn' ∈ d'.conns, conn'.id = conn.id ∧ conn'.auth.isSome) : OwnersOpen sid d' := by
  intro c hc hsid hmcp hlive
  obtain ⟨conn, hconn, hid, hauth⟩ := inv c (live c hc hlive) hsid hmcp hlive
  obtain ⟨conn', hconn', hid', hauth'⟩ := conns conn hconn hauth
  exact ⟨conn', hconn', hid'.trans hid, hauth'⟩

theorem OwnersOpen.registered (inv : OwnersOpen sid d) {c : Conn} {p : RegisterPayload}
    {a : SessionAuthority} (found : d.conn? c.id = some c)
    (answered : register env mom (p.input c.id) d.db = (.ok a, b)) :
    OwnersOpen sid
      (Daemon.updateConn { d with db := b } c.id fun c => { c with auth := some a }) := by
  obtain ⟨cs, seated⟩ := register_seated answered
  set d' := Daemon.updateConn { d with db := b } c.id fun c => { c with auth := some a } with hd'
  have hmem (conn : Conn) (hconn : conn ∈ d.conns) :
      (if conn.id = c.id then { conn with auth := some a } else conn) ∈ d'.conns :=
    updateConn_mem hconn
  intro row hrow hsid hmcp hlive
  have hrow' : row ∈ cs ++ [seat (p.input c.id) a mom.now] := seated.components ▸ hrow
  rcases List.mem_append.mp hrow' with hrow' | hrow'
  · -- A row that was there: its connection is there, with some authority.
    have hbefore : row ∈ d.db.components := by
      cases seated.way with
      | created | joined => exact hrow'
      | advanced => exact live_of_updateWhere (by decide) hlive hrow'
    obtain ⟨conn, hconn, hid, hauth⟩ := inv row hbefore hsid hmcp hlive
    refine ⟨_, hmem conn hconn, ?_⟩
    split
    · exact ⟨hid, rfl⟩
    · exact ⟨hid, hauth⟩
  · rw [List.mem_singleton.mp hrow']
    refine ⟨_, hmem c (conn?_eq_some found).1, ?_⟩
    rw [if_pos rfl]
    exact ⟨rfl, rfl⟩

theorem OwnersOpen.closed (inv : OwnersOpen sid d) (conns : ConnInv d) {c : Conn}
    (found : d.conn? c.id = some c) : OwnersOpen sid (d.close c) := by
  intro row hrow hsid hmcp hlive
  have hc : c ∈ d.conns := (conn?_eq_some found).1
  have hstays (hbefore : row ∈ d.db.components) (hne : row.connectionId ≠ c.id) :
      ∃ conn ∈ (d.close c).conns, conn.id = row.connectionId ∧ conn.auth.isSome := by
    obtain ⟨conn, hconn, hid, hauth⟩ := inv row hbefore hsid hmcp hlive
    refine ⟨conn, List.mem_filter.mpr ⟨hconn, ?_⟩, hid, hauth⟩
    simpa [hid] using hne
  cases hauth : c.auth with
  | none =>
    have hbefore : row ∈ d.db.components := by simpa only [Daemon.close, hauth] using hrow
    refine hstays hbefore fun heq => ?_
    -- The connection never registered, so no live row is its own.
    obtain ⟨conn, hconn, hid, hsome⟩ := inv row hbefore hsid hmcp hlive
    obtain rfl := conns.eq hconn hc (hid.trans heq)
    simp [hauth] at hsome
  | some a =>
    simp only [Daemon.close, hauth] at hrow
    refine hstays (live_of_updateWhere (by decide) hlive hrow) fun heq => ?_
    obtain ⟨row₀, hrow₀, rfl⟩ := mem_updateWhere.mp hrow
    split at hlive
    · cases hlive
    · rename_i hno
      rw [if_neg hno] at heq
      simp [heq, hlive] at hno

theorem ensureOperatorSession_components (env : Env) (b : Broker) :
    (b.ensureOperatorSession env).components = b.components := by
  unfold Broker.ensureOperatorSession
  split <;> rfl

/-- Every signal that meets the condition keeps the owners of the session open. -/
theorem OwnersOpen.stepped (inv : OwnersOpen sid d) (conns : ConnInv d) {s : Signal}
    {answer : Except Failure Response} (hs : Stepped env mom d s answer d')
    (hok : RestartsClean sid d (s, mom)) : OwnersOpen sid d' := by
  have hsame (conn : Conn) (hconn : conn ∈ d.conns) (hauth : conn.auth.isSome) :
      ∃ conn' ∈ d.conns, conn'.id = conn.id ∧ conn'.auth.isSome := ⟨conn, hconn, rfl, hauth⟩
  cases hs with
  | noted hnoted =>
    obtain ⟨b, hb, rfl⟩ := hnoted
    exact inv.frame (fun c hc _ => hb.bookkeeping.components ▸ hc) hsame
  | accepted =>
    exact inv.frame (fun _ hc _ => hc) fun conn hconn hauth =>
      ⟨conn, List.mem_append_left _ hconn, rfl, hauth⟩
  | @greeted c =>
    refine inv.frame (fun _ hc _ => hc) fun conn hconn hauth => ⟨_, updateConn_mem hconn, ?_⟩
    split <;> exact ⟨rfl, hauth⟩
  | registered found answered => exact inv.registered found answered
  | @requested c r a =>
    exact inv.frame (onRequest_sameLinks env mom a r d.db).calm.live hsame
  | closed found => exact inv.closed conns found
  | upkept u =>
    refine inv.frame (fun c hc hlive => ?_) hsame
    cases hu : recordedBy u with
    | none => exact (upkeep_calm env mom hu d.db).live c hc hlive
    | some sid =>
      rcases upkeep_records env mom hu d.db with heq | ⟨-, mode, rs, heq⟩
      · simpa only [heq] using hc
      · simpa only [heq] using hc
  | restarted =>
    intro c hc hsid hmcp hlive
    rw [show (d.restart env).db.components = d.db.components from
      ensureOperatorSession_components env d.db] at hc
    exact absurd hlive (hok rfl c hc hsid hmcp)

/-- **No phantom owner.** In every run in which no broker process ends with a live mcp component
    of the session, a registration for it refused with `SESSION_ALREADY_ACTIVE` was for an mcp
    component, and another connection that is open holds a live mcp component of the session, at
    its current epoch. -/
theorem no_phantom_owner {log : List (DaemonEvent × Except Failure Response)}
    {conn : ConnId} {p : RegisterPayload} {e : XBusError}
    (run : Run (Daemon.step env) (RestartsClean (targetOf env mom d.db (p.input conn)))
      (Daemon.initial env) log d)
    (refused : (d.step env (.frame conn (.registerSession p), mom)).1 = .error (.xbus e))
    (code : e.code = .sessionAlreadyActive) :
    (p.input conn).role = .mcp ∧ e.detail = [("sessionId", targetOf env mom d.db (p.input conn))] ∧
      ∃ owner ∈ d.conns, owner.id ≠ conn ∧ ∃ c ∈ d.db.components, c.connectionId = owner.id ∧
        c.sessionId = targetOf env mom d.db (p.input conn) ∧ c.role = .mcp ∧ c.state = .live ∧
        d.db.epochOf c.sessionId = some c.epoch := by
  have inv : ConnInv d ∧ OwnersOpen (targetOf env mom d.db (p.input conn)) d := by
    refine run_stepped
      (P := fun u => ConnInv u ∧ OwnersOpen (targetOf env mom d.db (p.input conn)) u) run
      ⟨connInv_initial, fun _ hc => nomatch hc⟩ fun u mom s answer u' hs hok hu => ?_
    exact ⟨hu.1.stepped hs, hu.2.stepped hu.1 hs hok⟩
  simp only [Daemon.step] at refused
  cases hfound : d.conn? conn with
  | none => simp [hfound] at refused
  | some c =>
    obtain ⟨-, rfl⟩ := conn?_eq_some hfound
    simp only [hfound, handle] at refused
    obtain ⟨sid, hdetail, rfl, hrole, row, hrow, hsid, hepoch, hmcp, hlive, hne⟩ :=
      onRegister_throws (.xbus e) (onRegister env mom c p d).2 (Prod.ext refused rfl) e rfl code
    obtain ⟨owner, howner, hid, -⟩ := inv.2 row hrow hsid hmcp hlive
    exact ⟨hrole, hdetail, owner, howner, fun heq => hne (hid.symm.trans heq), row, hrow, hid.symm,
      hsid, hmcp, hlive, hsid ▸ hepoch⟩

/-! ## A crash -/

/-- `alpha` is owned by connection 1. -/
def alphaOwned : List DaemonEvent := arrives 1 { sessionId := "alpha", processId := 1 }

/-- A second client for `alpha`. -/
def secondOwner : RegisterPayload := { sessionId := "alpha", processId := 2 }

/-- The code a refusal bears. -/
def refusalCode : Except Failure Response → Option ErrorCode
  | .error (.xbus e) => some e.code
  | _ => none

/-- The broker crashes while `beta` is owned. In the next process the second owner of `alpha` is
    refused for the sake of the first. -/
theorem second_owner_refused :
    let d := (runAll (Daemon.step plainEnv) (Daemon.initial plainEnv)
      (arrives 1 { sessionId := "beta", processId := 3 } ++ [(.restart, { nowMs := 1000 })] ++
        alphaOwned ++ [(.accept 2, { nowMs := 1001 }), (.hello 2 .ok, { nowMs := 1001 })])).2
    ∃ e, (d.step plainEnv (.frame 2 (.registerSession secondOwner), { nowMs := 1002 })).1 =
        .error (.xbus e) ∧ e.code = .sessionAlreadyActive ∧
      ∃ owner ∈ d.conns, owner.id ≠ 2 ∧ ∃ c ∈ d.db.components, c.connectionId = owner.id ∧
        c.state = .live := by
  intro d
  have hcode : refusalCode (d.step plainEnv (.frame 2 (.registerSession secondOwner),
      { nowMs := 1002 })).1 = some .sessionAlreadyActive := by decide +kernel
  unfold refusalCode at hcode
  split at hcode
  · rename_i e hrefused
    have hcode' : e.code = .sessionAlreadyActive := Option.some.inj hcode
    obtain ⟨-, -, owner, howner, hne, c, hc, hconn, -, -, hlive, -⟩ :=
      no_phantom_owner (Run.of_runAll _ (by decide +kernel)) hrefused hcode'
    exact ⟨e, hrefused, hcode', owner, howner, hne, c, hc, hconn, hlive⟩
  · cases hcode

/-- The broker crashes while `alpha` is owned. In the next process a connection that never registers
    comes first, and the client of `alpha` second: it is refused, with no owner in sight. -/
theorem crash_leaves_phantom_owner :
    ∃ log d, Run (Daemon.step plainEnv) Any (Daemon.initial plainEnv) log d ∧
      ∃ e, (d.step plainEnv (.frame 2 (.registerSession secondOwner), { nowMs := 1002 })).1 =
          .error (.xbus e) ∧ e.code = .sessionAlreadyActive ∧
        ∀ c ∈ d.conns, c.auth = none := by
  let events := alphaOwned ++ [(.restart, { nowMs := 1001 }), (.accept 9, { nowMs := 1001 }),
    (.accept 2, { nowMs := 1001 }), (.hello 2 .ok, { nowMs := 1001 })]
  refine ⟨_, _, Run.of_events (Daemon.step plainEnv) (Daemon.initial plainEnv) events, ?_⟩
  have hcode : refusalCode ((runAll (Daemon.step plainEnv) (Daemon.initial plainEnv) events).2.step
      plainEnv (.frame 2 (.registerSession secondOwner), { nowMs := 1002 })).1 =
        some .sessionAlreadyActive := by decide +kernel
  unfold refusalCode at hcode
  split at hcode
  · rename_i e hrefused
    exact ⟨e, hrefused, Option.some.inj hcode, by decide +kernel⟩
  · cases hcode

end Proof
end XBus
