import XBus.Daemon
import XBus.Proof.Standing

/-!
# What a signal can do

The inversion of the daemon's step: `Stepped` lists what a signal can do to a daemon, and
`step_stepped` says that there is nothing else. What is proved about daemons is proved over
these cases.

A daemon is the broker of `System` with its authorities accounted for: every write to the
database is a move, so that what every move keeps holds of the database of every daemon
(`daemon_of_moves`).
-/

set_option autoImplicit false

namespace XBus
namespace Proof

open Lib

variable {env : Env} {mom : Moment} {d d' : Daemon} {b : Broker}

/-! ## Connections -/

theorem conn?_eq_some {id : ConnId} {c : Conn} (h : d.conn? id = some c) :
    c ∈ d.conns ∧ c.id = id :=
  ⟨List.mem_of_find?_eq_some h, by simpa using List.find?_some h⟩

/-- Connection ids are handed out once per process. -/
structure ConnInv (d : Daemon) : Prop where
  ids : (d.conns.map (·.id)).Nodup
  below : ∀ c ∈ d.conns, c.id ≤ d.seq

theorem ConnInv.eq (inv : ConnInv d) {c c' : Conn} (hc : c ∈ d.conns) (hc' : c' ∈ d.conns)
    (h : c.id = c'.id) : c = c' := eq_of_key_eq inv.ids hc hc' h

/-- What is kept under other ids is not written. -/
theorem mem_updateConn {id : ConnId} {f : Conn → Conn} {c : Conn}
    (hc : c ∈ (d.updateConn id f).conns) : ∃ c₀ ∈ d.conns,
      c = if c₀.id = id then f c₀ else c₀ := by
  obtain ⟨c₀, hc₀, rfl⟩ := mem_updateWhere.mp hc
  exact ⟨c₀, hc₀, by simp⟩

/-- A connection is still there after a write, as written. -/
theorem updateConn_mem {id : ConnId} {f : Conn → Conn} {c : Conn} (hc : c ∈ d.conns) :
    (if c.id = id then f c else c) ∈ (d.updateConn id f).conns :=
  mem_updateWhere.mpr ⟨c, hc, by simp⟩

/-! ## The cases -/

/-- Nothing was written but the audit trail. -/
structure Noted (b b' : Broker) : Prop where
  trail : AuditTrail b b'
  ids : b.nextId ≤ b'.nextId

instance : IsFrame Noted where
  refl _ := ⟨IsFrame.refl _, Nat.le_refl _⟩
  trans h h' := ⟨IsFrame.trans h.trail h'.trail, h.ids.trans h'.ids⟩

theorem Noted.audit {t : AuditType} {s : Option SessionId} {m : Option Id} :
    Noted b (b.audit t s m) := ⟨⟨_, _, rfl⟩, Nat.le_succ _⟩

theorem Noted.bookkeeping {b b' : Broker} (h : Noted b b') : Bookkeeping b b' := by
  obtain ⟨⟨es, n, rfl⟩, hn⟩ := h
  exact ⟨⟨hn, rfl, rfl, rfl, rfl, rfl, rfl, rfl, rfl, List.Subset.refl _⟩, rfl, rfl, rfl⟩

/-- A daemon with nothing written but the audit trail. -/
def DaemonNoted (d d' : Daemon) : Prop := ∃ b, Noted d.db b ∧ d' = { d with db := b }

instance : IsFrame DaemonNoted where
  refl d := ⟨d.db, IsFrame.refl _, rfl⟩
  trans := by
    rintro d _ _ ⟨b, hb, rfl⟩ ⟨b', hb', rfl⟩
    exact ⟨b', IsFrame.trans hb hb', rfl⟩

theorem onStore_ok {α : Type} {x : BrokerCall α} {a : α} :
    Daemon.onStore x d = (.ok a, d') ↔ ∃ b, x d.db = (.ok a, b) ∧ d' = { d with db := b } := by
  simp only [Daemon.onStore, Prod.mk.injEq]
  constructor
  · rintro ⟨ha, rfl⟩
    exact ⟨(x d.db).2, Prod.ext ha rfl, rfl⟩
  · rintro ⟨b, hb, rfl⟩
    rw [hb]
    exact ⟨rfl, rfl⟩

theorem onStore_refuses {α : Type} {x : BrokerCall α} (hx : Refuses Eq x) :
    Refuses DaemonNoted (Daemon.onStore x) := by
  intro d e d' h
  simp only [Daemon.onStore, Prod.mk.injEq] at h
  obtain ⟨he, rfl⟩ := h
  have hdb : d.db = (x d.db).2 := hx d.db e (x d.db).2 (Prod.ext he rfl)
  exact ⟨(x d.db).2, hdb ▸ IsFrame.refl _, rfl⟩

/-- The registration a signal brought about: its connection, and what was answered. -/
def registrationOf : Signal → Except Failure Response → Option (ConnId × SessionAuthority)
  | .frame conn (.registerSession _), .ok (.authority a) => some (conn, a)
  | _, _ => none

/-- The connection a frame comes in on. -/
def speaker : Signal → Option ConnId
  | .frame conn _ => some conn
  | _ => none

/-- What a signal can do to a daemon. -/
inductive Stepped (env : Env) (mom : Moment) (d : Daemon) :
    Signal → Except Failure Response → Daemon → Prop
  /-- Dropped or refused. -/
  | noted {s : Signal} {answer : Except Failure Response} {d' : Daemon} (h : DaemonNoted d d')
      (quiet : registrationOf s answer = none) : Stepped env mom d s answer d'
  | accepted (pid : Int) : Stepped env mom d (.accept pid) (.ok .done) (d.accept pid)
  | greeted {c : Conn} (found : d.conn? c.id = some c) :
      Stepped env mom d (.hello c.id .ok) (.ok .done)
        (d.updateConn c.id fun c => { c with hello := true })
  | registered {c : Conn} {p : RegisterPayload} {a : SessionAuthority} {b : Broker}
      (found : d.conn? c.id = some c)
      (answered : register env mom (p.input c.id) d.db = (.ok a, b)) :
      Stepped env mom d (.frame c.id (.registerSession p)) (.ok (.authority a))
        (Daemon.updateConn { d with db := b } c.id fun c => { c with auth := some a })
  | requested {c : Conn} {r : Request} {a : SessionAuthority} (found : d.conn? c.id = some c)
      (auth : c.auth = some a) :
      Stepped env mom d (.frame c.id (.request r)) (onRequest env mom a r d.db).1
        { d with db := (onRequest env mom a r d.db).2 }
  | closed {c : Conn} (found : d.conn? c.id = some c) :
      Stepped env mom d (.close c.id) (.ok .done) (d.close c)
  | upkept (u : Upkeep) : Stepped env mom d (.upkeep u) (exec env mom u.op d.db).1
      { d with db := (exec env mom u.op d.db).2 }
  | restarted : Stepped env mom d .restart (.ok .done) (d.restart env)

theorem Stepped.dropped {s : Signal} : Stepped env mom d s (.ok .done) d :=
  .noted (IsFrame.refl d) (by cases s with | frame _ f => cases f <;> rfl | _ => rfl)

/-- A refusal brings no registration about. -/
theorem Stepped.refused {s : Signal} {e : Failure} (h : DaemonNoted d d') :
    Stepped env mom d s (.error e) d' :=
  .noted h (by cases s with | frame _ f => cases f <;> rfl | _ => rfl)

theorem onHello_stepped {c : Conn} {verdict : Daemon.HelloVerdict} (found : d.conn? c.id = some c) :
    Stepped env mom d (.hello c.id verdict) (Daemon.onHello c verdict d).1
      (Daemon.onHello c verdict d).2 := by
  cases verdict with
  | ok => exact .greeted found
  | badSecret => exact .refused (IsFrame.refl d)
  | incompatible => exact .refused ⟨_, .audit, rfl⟩

theorem onRegister_refuses {c : Conn} {p : RegisterPayload} :
    Refuses DaemonNoted (onRegister env mom c p) := by
  refine Refuses.bind .require fun _ => ?_
  cases p.emptyField with
  | some field => exact .of_respects .throw
  | none =>
    refine Refuses.bind (.requireElse fun _ => ⟨_, .audit, rfl⟩) fun _ => ?_
    exact Refuses.bind_total (onStore_refuses register_refuses) fun a s e t h => nomatch h

theorem onRegister_ok {c : Conn} {p : RegisterPayload} {r : Response}
    (h : onRegister env mom c p d = (.ok r, d')) : ∃ a b, r = .authority a ∧
      register env mom (p.input c.id) d.db = (.ok a, b) ∧
      d' = Daemon.updateConn { d with db := b } c.id fun c => { c with auth := some a } := by
  simp only [onRegister, Call.bind_ok, Call.require_ok] at h
  obtain ⟨_, _, ⟨-, rfl⟩, h⟩ := h
  cases hempty : p.emptyField with
  | some field => simp [hempty] at h
  | none =>
    simp only [hempty, Call.bind_ok, Call.requireElse_ok, Call.modify_bind, Call.pure_ok] at h
    obtain ⟨_, _, ⟨-, rfl⟩, a, d₁, hstore, rfl, rfl⟩ := h
    obtain ⟨b, hreg, rfl⟩ := onStore_ok.mp hstore
    exact ⟨a, b, rfl, hreg, rfl⟩

theorem onRegister_stepped {c : Conn} {p : RegisterPayload} (found : d.conn? c.id = some c) :
    Stepped env mom d (.frame c.id (.registerSession p)) (onRegister env mom c p d).1
      (onRegister env mom c p d).2 := by
  rcases hreg : onRegister env mom c p d with ⟨e | r, d'⟩
  · exact .refused (onRegister_refuses d e d' hreg)
  · obtain ⟨a, b, rfl, hans, rfl⟩ := onRegister_ok hreg
    exact .registered found hans

/-- One step of the daemon is one of the cases. -/
theorem step_stepped (env : Env) (d : Daemon) (e : DaemonEvent) :
    Stepped env e.2 d e.1 (d.step env e).1 (d.step env e).2 := by
  obtain ⟨signal, mom⟩ := e
  cases signal with
  | accept pid => exact .accepted pid
  | hello id verdict =>
    simp only [Daemon.step]
    split
    · rename_i c hc
      obtain ⟨-, rfl⟩ := conn?_eq_some hc
      exact onHello_stepped hc
    · exact .dropped
  | frame id f =>
    simp only [Daemon.step]
    split
    · rename_i c hc
      obtain ⟨-, rfl⟩ := conn?_eq_some hc
      cases f with
      | registerSession p => exact onRegister_stepped hc
      | request r =>
        cases hauth : c.auth with
        | none => simp only [handle, hauth]; exact .refused (IsFrame.refl d)
        | some a => simp only [handle, hauth]; exact .requested hc hauth
    · exact .dropped
  | close id =>
    simp only [Daemon.step]
    split
    · rename_i c hc
      obtain ⟨-, rfl⟩ := conn?_eq_some hc
      exact .closed hc
    · exact .dropped
  | upkeep u => exact .upkept u
  | restart => exact .restarted

/-- A property of daemons that every signal keeps. -/
theorem run_stepped {ok : Daemon → DaemonEvent → Prop} {P : Daemon → Prop}
    {log : List (DaemonEvent × Except Failure Response)}
    (run : Run (Daemon.step env) ok (Daemon.initial env) log d) (hinit : P (Daemon.initial env))
    (hstep : ∀ d mom s answer d', Stepped env mom d s answer d' → ok d (s, mom) → P d → P d') :
    P d :=
  run.invariant hinit fun u e hu hok => hstep u e.2 e.1 _ _ (step_stepped env u e) hok hu

theorem ConnInv.stepped {s : Signal} {answer : Except Failure Response} (inv : ConnInv d)
    (h : Stepped env mom d s answer d') : ConnInv d' := by
  have hwrite {d : Daemon} {id : ConnId} {f : Conn → Conn} (hf : ∀ c, (f c).id = c.id)
      (inv : ConnInv d) : ConnInv (d.updateConn id f) := by
    refine ⟨?_, fun c hc => ?_⟩
    · have hids : (d.updateConn id f).conns.map (·.id) = d.conns.map (·.id) :=
        map_updateWhere _ fun c _ => hf c
      rw [hids]
      exact inv.ids
    · obtain ⟨c₀, hc₀, rfl⟩ := mem_updateConn hc
      split
      · exact hf c₀ ▸ inv.below c₀ hc₀
      · exact inv.below c₀ hc₀
  -- Ids are counted up, and no connection changes its own.
  cases h with
  | noted h =>
    obtain ⟨b, -, rfl⟩ := h
    exact ⟨inv.ids, inv.below⟩
  | accepted pid =>
    constructor
    · have hfresh : d.seq + 1 ∉ d.conns.map (·.id) := by
        intro hmem
        obtain ⟨c, hc, hid⟩ := List.mem_map.mp hmem
        have := inv.below c hc
        have : d.seq + 1 ≤ d.seq := hid ▸ this
        exact absurd this (Nat.not_succ_le_self _)
      have hids : (d.accept pid).conns.map (·.id) = d.conns.map (·.id) ++ [d.seq + 1] := by
        simp [Daemon.accept]
      rw [hids]
      exact inv.ids.append (by simp) (by simpa using hfresh)
    · intro c hc
      rcases List.mem_append.mp hc with hc | hc
      · exact (inv.below c hc).trans (Nat.le_succ _)
      · rw [List.mem_singleton.mp hc]
        exact Nat.le_refl _
  | greeted => exact hwrite (fun _ => rfl) inv
  | registered => exact hwrite (fun _ => rfl) ⟨inv.ids, inv.below⟩
  | requested => exact ⟨inv.ids, inv.below⟩
  | closed =>
    exact ⟨inv.ids.sublist (List.filter_sublist.map _),
      fun c hc => inv.below c (List.mem_of_mem_filter hc)⟩
  | upkept => exact ⟨inv.ids, inv.below⟩
  | restarted => exact ⟨List.nodup_nil, fun _ h => nomatch h⟩

theorem connInv_initial : ConnInv (Daemon.initial env) := ⟨List.nodup_nil, fun _ h => nomatch h⟩

/-! ## Requests -/

/-- What the daemon makes of a call's answer. -/
def judge : Response → BrokerCall Response
  | .redelivered none =>
    Call.refuse id (xbusError .messageNotFound "no such message for this session")
  | answer => pure answer

/-- A frame's call is made or refused; the daemon adds nothing to it. -/
theorem onRequest_snd (env : Env) (mom : Moment) (a : SessionAuthority) (r : Request) (b : Broker) :
    (onRequest env mom a r b).2 = b ∨
      (onRequest env mom a r b).2 = (exec env mom (r.op a) b).2 := by
  have hjudged (answer : Response) (b : Broker) : (judge answer b).2 = b := by
    unfold judge
    split <;> rfl
  cases r with
  | sendMessage input =>
    -- The role is checked before the call.
    by_cases hallowed : isAllowed a.role .send = true
    · have hpass : assertAllowed a.role .send b = (.ok (), b) := if_pos hallowed
      exact .inr ((congrArg Prod.snd (Call.bind_of_ok hpass)).trans (Call.bind_snd hjudged b))
    · have hfail : assertAllowed a.role .send b = (.error _, b) := if_neg hallowed
      exact .inl (congrArg Prod.snd (Call.bind_of_error hfail))
  | _ => exact .inr (Call.bind_snd hjudged b)

/-- To the database, a request is the call it makes, or nothing. -/
theorem request_db {env : Env} {d : Daemon} {e : DaemonEvent} {conn : ConnId} {r : Request}
    (hevent : e.1 = .frame conn (.request r)) :
    (d.step env e).2.db = d.db ∨
      ∃ auth, (d.step env e).2.db = (exec env e.2 (r.op auth) d.db).2 := by
  simp only [Daemon.step, hevent]
  cases hconn : d.conn? conn with
  | none => exact .inl rfl
  | some c =>
    cases hauth : c.auth with
    | none =>
      simp only [handle, hauth]
      exact .inl rfl
    | some auth =>
      simp only [handle, hauth]
      rcases onRequest_snd env e.2 auth r d.db with hsame | hexec
      · exact .inl hsame
      · exact .inr ⟨auth, hexec⟩

/-- Whatever happens to a daemon, its database takes moves. -/
theorem Stepped.moves {s : Signal} {answer : Except Failure Response}
    (h : Stepped env mom d s answer d') : ∃ K, Moves env K d.db d'.db := by
  cases h with
  | noted h =>
    obtain ⟨b, hb, rfl⟩ := h
    exact ⟨[.note], .note (by simp) hb.bookkeeping⟩
  | accepted => exact ⟨[], .refl⟩
  | greeted => exact ⟨[], .refl⟩
  | @registered c p a b _ answered =>
    have hmoves : Moves env registerKinds d.db (register env mom (p.input c.id) d.db).2 :=
      register_respects d.db
    rw [answered] at hmoves
    exact ⟨registerKinds, hmoves⟩
  | @requested c r a =>
    refine ⟨kindsOf false (r.op a), ?_⟩
    show Moves env _ d.db (onRequest env mom a r d.db).2
    rcases onRequest_snd env mom a r d.db with h | h
    · rw [h]
      exact .refl
    · rw [h]
      exact exec_moves env mom (r.op a) d.db false (by simp)
  | @closed c =>
    cases hauth : c.auth with
    | none => exact ⟨[], by simp only [Daemon.close, hauth]; exact .refl⟩
    | some a =>
      exact ⟨[.close], by simp only [Daemon.close, hauth]; exact .one (by simp) (.close a c.id)⟩
  | upkept u => exact ⟨_, exec_moves env mom u.op d.db false (by simp)⟩
  | restarted => exact ⟨[.operator], .one (by simp) .operator⟩

/-- What every kind of move keeps holds of the database of every daemon. -/
theorem daemon_of_moves {P : Broker → Prop} {ok : Daemon → DaemonEvent → Prop}
    {log : List (DaemonEvent × Except Failure Response)} (hinit : P (initial env))
    (hmove : ∀ b b' k, Move env k b b' → P b → P b')
    (run : Run (Daemon.step env) ok (Daemon.initial env) log d) : P d.db := by
  refine run_stepped (P := fun d => P d.db) run hinit fun d mom s answer d' hs _ hd => ?_
  obtain ⟨K, hmoves⟩ := hs.moves
  exact hmoves.keeps hd fun b b' k _ => hmove b b' k

theorem onRequest_sameLinks (env : Env) (mom : Moment) (a : SessionAuthority) (r : Request)
    (b : Broker) : SameLinks b (onRequest env mom a r b).2 := by
  rcases onRequest_snd env mom a r b with h | h
  · rw [h]
    exact IsFrame.refl b
  · rw [h]
    have hkinds : (kindsOf false (r.op a)).all linksStay = true := by
      cases r with
      | inbox markInjected => cases markInjected <;> rfl
      | _ => rfl
    exact (exec_moves env mom (r.op a) b false (by simp)).frame fun _ _ k hk hmove =>
      hmove.sameLinks (List.all_eq_true.mp hkinds k hk)

/-! ## Upkeep -/

/-- The session nobody registered that an upkeep makes a record of. -/
def recordedBy : Upkeep → Option SessionId
  | .recordManagedSession sid | .importDormantSession sid => some sid
  | _ => none

theorem upkeep_calm (env : Env) (mom : Moment) {u : Upkeep} (hu : recordedBy u = none)
    (b : Broker) :
    Calm b (exec env mom u.op b).2 := by
  have hkinds : (kindsOf false u.op).all calms = true := by
    cases u with
    | recordManagedSession | importDormantSession => cases hu
    | _ => rfl
  exact (exec_moves env mom u.op b false (by simp)).frame fun _ _ k hk hmove =>
    hmove.calm (List.all_eq_true.mp hkinds k hk)

/-- A record is made where there is none. -/
theorem upkeep_records (env : Env) (mom : Moment) {u : Upkeep} {sid : SessionId}
    (hu : recordedBy u = some sid) (b : Broker) :
    (exec env mom u.op b).2 = b ∨ b.session? sid = none ∧ ∃ mode rs,
      (exec env mom u.op b).2 = { b with
        sessions := b.sessions ++ [dormantSession env sid mode], recipientSequences := rs } := by
  cases u with
  | recordManagedSession sid' =>
    obtain rfl : sid' = sid := Option.some.inj hu
    cases hs : b.session? sid' with
    | none =>
      refine .inr ⟨rfl, "hook_checkpoint", insertOrIgnore (·.recipientSessionId)
        { recipientSessionId := sid', nextSequence := 1 } b.recipientSequences, ?_⟩
      simp [Upkeep.op, exec, recordManagedSession, Call.modify, hs]
    | some s => exact .inl (by simp [Upkeep.op, exec, recordManagedSession, Call.modify, hs])
  | importDormantSession sid' =>
    obtain rfl : sid' = sid := Option.some.inj hu
    cases hs : b.session? sid' with
    | none =>
      refine .inr ⟨rfl, "disconnected", b.recipientSequences, ?_⟩
      simp [Upkeep.op, exec, importDormantSession, Call.modify, hs]
    | some s => exact .inl (by simp [Upkeep.op, exec, importDormantSession, Call.modify, hs])
  | _ => cases hu

/-- A record of another session is not seen. -/
theorem session?_append_ne {b b' : Broker} {s : Session} {sid : SessionId}
    (h : b'.sessions = b.sessions ++ [s]) (hne : sid ≠ s.sessionId) :
    b'.session? sid = b.session? sid := by
  rw [Broker.session?, h, List.find?_append]
  simp [Ne.symm hne, Broker.session?]

end Proof
end XBus
