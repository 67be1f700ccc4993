import XBus.Proof.Signals
import XBus.Proof.NameAuthority

/-!
# Whether a session is connected

A session's row says `connected` or `disconnected`, and keeps one connection it is bound to:
the first that registered since it was last unbound. Several connections share a session (the
mcp component's, and a short one for each hook), and of these only the close of the bound one
disconnects the row.

So the row is right for as long as the bound connection is the last of its session to go. It
is wrong after a hook that came first closes under an open mcp connection; after the last
connection of a session closes without being the bound one; and after a connection moves on
to another session, which unbinds nothing. `connected_iff_held` says that there is nothing
else.
-/

set_option autoImplicit false

namespace XBus
namespace Proof

open Lib

variable {env : Env} {mom : Moment} {now : Iso} {d d' : Daemon} {b b' : Broker} {sid : SessionId}

/-! ## Holding a session -/

/-- The connection's latest registration is a live component of the session, at its current
    epoch. -/
def Holds (b : Broker) (c : Conn) (sid : SessionId) : Prop :=
  ∃ a ∈ c.auth, a.sessionId = sid ∧ ∃ row ∈ b.components,
    row.componentInstanceId = a.componentInstanceId ∧ row.sessionId = sid ∧
    row.connectionId = c.id ∧ row.state = .live ∧ b.epochOf sid = some row.epoch

instance (b : Broker) (c : Conn) (sid : SessionId) : Decidable (Holds b c sid) :=
  inferInstanceAs (Decidable (∃ a ∈ c.auth, _ ∧ ∃ row ∈ b.components, _))

/-- Some other connection holds the session. -/
def HeldBesides (d : Daemon) (c : Conn) (sid : SessionId) : Prop :=
  ∃ c' ∈ d.conns, c'.id ≠ c.id ∧ Holds d.db c' sid

instance (d : Daemon) (c : Conn) (sid : SessionId) : Decidable (HeldBesides d c sid) :=
  inferInstanceAs (Decidable (∃ c' ∈ d.conns, _))

/-- The connection a session's row is bound to. -/
def boundTo (b : Broker) (sid : SessionId) : Option ConnId :=
  (b.session? sid).bind (·.boundConnectionId)

/-- A closing connection is its session's last exactly if the row is bound to it. -/
def ClosesAsBound (d : Daemon) (c : Conn) : Prop :=
  ∀ a ∈ c.auth, if boundTo d.db a.sessionId = some c.id then ¬ HeldBesides d c a.sessionId
    else Holds d.db c a.sessionId → HeldBesides d c a.sessionId

instance (d : Daemon) (c : Conn) : Decidable (ClosesAsBound d c) :=
  inferInstanceAs (Decidable (∀ a ∈ c.auth, _))

/-- A connection does not leave a session that it alone holds for another one. -/
def LeavesNone (env : Env) (mom : Moment) (d : Daemon) (c : Conn) (p : RegisterPayload) : Prop :=
  ∀ a ∈ c.auth, a.sessionId ≠ targetOf env mom d.db (p.input c.id) → Holds d.db c a.sessionId →
    HeldBesides d c a.sessionId

instance (env : Env) (mom : Moment) (d : Daemon) (c : Conn) (p : RegisterPayload) :
    Decidable (LeavesNone env mom d c p) := inferInstanceAs (Decidable (∀ a ∈ c.auth, _))

/-- The events of one process's connections, each meeting its condition. -/
def LinksKept (env : Env) (d : Daemon) (e : DaemonEvent) : Prop :=
  match e.1 with
  | .close id => ∀ c ∈ d.conn? id, ClosesAsBound d c
  | .frame id (.registerSession p) => ∀ c ∈ d.conn? id, LeavesNone env e.2 d c p
  | .upkeep _ | .restart => False
  | _ => True

instance (env : Env) (d : Daemon) : (e : DaemonEvent) → Decidable (LinksKept env d e)
  | (.close id, _) => inferInstanceAs (Decidable (∀ c ∈ d.conn? id, ClosesAsBound d c))
  | (.frame id (.registerSession p), mom) =>
    inferInstanceAs (Decidable (∀ c ∈ d.conn? id, LeavesNone env mom d c p))
  | (.upkeep _, _) | (.restart, _) => inferInstanceAs (Decidable False)
  | (.accept _, _) | (.hello _ _, _) | (.frame _ (.request _), _) =>
    inferInstanceAs (Decidable True)

/-! ## The invariant -/

def LinkInv (d : Daemon) : Prop :=
  ∀ sid s, d.db.session? sid = some s →
    (s.state = .connected ↔ ∃ c ∈ d.conns, Holds d.db c sid)

/-- The same sessions, links and components are held by the same connections. -/
theorem Holds.sameLinks (h : SameLinks b b') {c : Conn} : Holds b' c sid ↔ Holds b c sid := by
  unfold Holds
  rw [h.components, h.epochOf]

theorem LinkInv.frame (inv : LinkInv d) (links : SameLinks d.db d'.db)
    (conns : ∀ sid, (∃ c ∈ d'.conns, Holds d.db c sid) ↔ ∃ c ∈ d.conns, Holds d.db c sid) :
    LinkInv d' := by
  intro sid s' hs'
  have heq := links.sessions sid
  rw [hs'] at heq
  obtain ⟨s, hs, hcols⟩ := Option.map_eq_some_iff.mp heq.symm
  simp only [link, Prod.mk.injEq] at hcols
  rw [← hcols.2.1, inv sid s hs, ← conns sid]
  exact exists_congr fun c => and_congr_right fun _ => (Holds.sameLinks links).symm

/-- A connection that has not registered holds nothing. -/
theorem not_holds_of_none {c : Conn} (h : c.auth = none) : ¬ Holds b c sid := by
  rintro ⟨a, ha, -⟩
  rw [h] at ha
  cases ha

/-- A connection holds no session but that of its authority. -/
theorem Holds.session_eq {c : Conn} {a : SessionAuthority} (h : Holds b c sid)
    (auth : c.auth = some a) : a.sessionId = sid := by
  obtain ⟨a', ha', hsid, -⟩ := h
  rw [auth] at ha'
  cases ha'
  exact hsid

/-- A session is held by one connection or by another. -/
theorem held_iff (conns : ConnInv d) {c : Conn} (hc : c ∈ d.conns) :
    (∃ c' ∈ d.conns, Holds d.db c' sid) ↔ Holds d.db c sid ∨ HeldBesides d c sid := by
  constructor
  · rintro ⟨c', hc', h⟩
    by_cases hid : c'.id = c.id
    · exact .inl (conns.eq hc' hc hid ▸ h)
    · exact .inr ⟨c', hc', hid, h⟩
  · rintro (h | ⟨c', hc', -, h⟩)
    · exact ⟨c, hc, h⟩
    · exact ⟨c', hc', h⟩

theorem LinkInv.registered (inv : LinkInv d) (conns : ConnInv d) {c : Conn} {p : RegisterPayload}
    {a : SessionAuthority} (found : d.conn? c.id = some c)
    (answered : register env mom (p.input c.id) d.db = (.ok a, b))
    (leaves : LeavesNone env mom d c p) :
    LinkInv (Daemon.updateConn { d with db := b } c.id fun c => { c with auth := some a }) := by
  obtain ⟨cs, seated⟩ := register_seated answered
  obtain ⟨s₁, hs₁, hepoch, hstate, -⟩ := seated.here
  have hc : c ∈ d.conns := (conn?_eq_some found).1
  set d' := Daemon.updateConn { d with db := b } c.id fun c => { c with auth := some a } with hd'
  intro sid s' hs'
  by_cases hsid : sid = a.sessionId
  · -- The session it registered for is connected, and it holds it.
    subst hsid
    obtain rfl : s₁ = s' := Option.some.inj (hs₁.symm.trans hs')
    refine ⟨fun _ => ⟨_, updateConn_mem hc, ?_⟩, fun _ => hstate⟩
    rw [if_pos rfl]
    refine ⟨a, rfl, rfl, seat (p.input c.id) a mom.now, ?_, rfl, rfl, rfl, rfl, ?_⟩
    · show _ ∈ b.components
      simp [seated.components]
    · show b.epochOf a.sessionId = some a.epoch
      rw [Broker.epochOf, hs₁, ← hepoch]
      rfl
  · have hrow : d.db.session? sid = some s' := (seated.others sid hsid).symm.trans hs'
    have hholds {x : Conn} : Holds b x sid ↔ Holds d.db x sid := by
      have hrows (row : Component) (hrow : row.sessionId = sid) :
          row ∈ b.components ↔ row ∈ d.db.components :=
        seated.otherRows (hrow ▸ hsid)
      have hep : b.epochOf sid = d.db.epochOf sid := by
        rw [Broker.epochOf, seated.others sid hsid, Broker.epochOf]
      unfold Holds
      rw [hep]
      refine exists_congr fun a' => and_congr_right fun _ => and_congr_right fun _ =>
        exists_congr fun row => ?_
      constructor
      · rintro ⟨hmem, hid, hrow, hrest⟩
        exact ⟨(hrows row hrow).mp hmem, hid, hrow, hrest⟩
      · rintro ⟨hmem, hid, hrow, hrest⟩
        exact ⟨(hrows row hrow).mpr hmem, hid, hrow, hrest⟩
    rw [inv sid s' hrow, held_iff conns hc]
    constructor
    · intro h
      obtain ⟨x, hx, hne, hxholds⟩ : HeldBesides d c sid := by
        rcases h with h | h
        · obtain ⟨a₀, ha₀, rfl, -⟩ := id h
          exact leaves a₀ ha₀ (fun heq => hsid (heq.trans seated.target.symm)) h
        · exact h
      refine ⟨_, updateConn_mem hx, ?_⟩
      rw [if_neg hne]
      exact hholds.mpr hxholds
    · rintro ⟨x', hx', h⟩
      obtain ⟨x, hx, rfl⟩ := mem_updateConn hx'
      by_cases hid : x.id = c.id
      · rw [if_pos hid] at h
        exact absurd (h.session_eq rfl).symm hsid
      · rw [if_neg hid] at h
        exact .inr ⟨x, hx, hid, hholds.mp h⟩

theorem LinkInv.closed (inv : LinkInv d) (conns : ConnInv d) {c : Conn}
    (found : d.conn? c.id = some c) (closes : ClosesAsBound d c) : LinkInv (d.close c) := by
  have hc : c ∈ d.conns := (conn?_eq_some found).1
  cases hauth : c.auth with
  | none =>
    refine inv.frame (by simp only [Daemon.close, hauth]; exact IsFrame.refl _) fun sid => ?_
    rw [held_iff conns hc, or_iff_right (not_holds_of_none hauth)]
    simp [Daemon.close, HeldBesides, and_assoc]
  | some a =>
    have hdb : (d.close c).db = d.db.connClosed a c.id := by simp only [Daemon.close, hauth]
    have hepoch (sid : SessionId) : (d.close c).db.epochOf sid = d.db.epochOf sid := by
      rw [hdb]
      refine epochOf_updateWhere rfl ?_ sid
      exact fun _ => rfl
    -- What the others hold does not change.
    have hholds {x : Conn} {sid : SessionId} (hne : x.id ≠ c.id) :
        Holds (d.close c).db x sid ↔ Holds d.db x sid := by
      have hrows (row : Component) (hrow : row.connectionId = x.id) (hlive : row.state = .live) :
          row ∈ (d.close c).db.components ↔ row ∈ d.db.components := by
        rw [hdb]
        refine ⟨live_of_updateWhere (by decide) hlive, fun hmem => mem_updateWhere_of_mem hmem ?_⟩
        simp [hrow, hne]
      unfold Holds
      rw [hepoch]
      refine exists_congr fun a' => and_congr_right fun _ => and_congr_right fun _ =>
        exists_congr fun row => ?_
      constructor
      · rintro ⟨hmem, hid, hsid, hconn, hlive, hep⟩
        exact ⟨(hrows row hconn hlive).mp hmem, hid, hsid, hconn, hlive, hep⟩
      · rintro ⟨hmem, hid, hsid, hconn, hlive, hep⟩
        exact ⟨(hrows row hconn hlive).mpr hmem, hid, hsid, hconn, hlive, hep⟩
    have hheld (sid : SessionId) :
        (∃ x ∈ (d.close c).conns, Holds (d.close c).db x sid) ↔ HeldBesides d c sid := by
      constructor
      · rintro ⟨x, hx, h⟩
        obtain ⟨hmem, hne⟩ := List.mem_filter.mp hx
        simp only [decide_eq_true_eq] at hne
        exact ⟨x, hmem, hne, (hholds hne).mp h⟩
      · rintro ⟨x, hx, hne, h⟩
        exact ⟨x, List.mem_filter.mpr ⟨hx, by simpa using hne⟩, (hholds hne).mpr h⟩
    intro sid s' hs'
    have hfind : (d.close c).db.session? sid = (d.db.session? sid).map fun s =>
        if decide (s.sessionId = a.sessionId ∧ s.boundConnectionId = some c.id) then
          { s with state := .disconnected, boundConnectionId := none } else s := by
      rw [hdb]
      exact find?_updateWhere fun _ => rfl
    simp only [hfind, decide_eq_true_eq] at hs'
    obtain ⟨s, hs, rfl⟩ := Option.map_eq_some_iff.mp hs'
    have hid : s.sessionId = sid := (session?_eq_some hs).2
    have hbefore := inv sid s hs
    rw [held_iff conns hc] at hbefore
    rw [hheld]
    by_cases hsid : sid = a.sessionId
    · subst hsid
      have hguard := closes a hauth
      have hbound : boundTo d.db a.sessionId = s.boundConnectionId := by simp [boundTo, hs]
      rw [hbound] at hguard
      by_cases hb : s.boundConnectionId = some c.id
      · rw [if_pos hb] at hguard
        rw [if_pos ⟨hid, hb⟩]
        exact ⟨(fun h => by cases h), fun h => absurd h hguard⟩
      · rw [if_neg hb] at hguard
        rw [if_neg fun h => hb h.2, hbefore]
        exact ⟨fun h => h.elim hguard fun h => h, .inr⟩
    · rw [if_neg fun h => hsid (hid.symm.trans h.1), hbefore]
      exact or_iff_right fun h => hsid (h.session_eq hauth).symm

theorem LinkInv.stepped (inv : LinkInv d) (conns : ConnInv d) {s : Signal}
    {answer : Except Failure Response} (hs : Stepped env mom d s answer d')
    (hok : LinksKept env d (s, mom)) : LinkInv d' := by
  cases hs with
  | noted hnoted =>
    obtain ⟨b, hb, rfl⟩ := hnoted
    exact inv.frame (Settled.bookkeeping hb.bookkeeping).sameLinks fun _ => Iff.rfl
  | accepted pid =>
    refine inv.frame (IsFrame.refl _) fun sid => ?_
    simp [Daemon.accept, or_and_right, exists_or, not_holds_of_none]
  | @greeted c =>
    refine inv.frame (IsFrame.refl _) fun sid => ⟨fun hheld => ?_, fun hheld => ?_⟩
    · obtain ⟨x', hx', h⟩ := hheld
      obtain ⟨x, hx, rfl⟩ := mem_updateConn hx'
      refine ⟨x, hx, ?_⟩
      split at h <;> exact h
    · obtain ⟨x, hx, h⟩ := hheld
      refine ⟨_, updateConn_mem hx, ?_⟩
      split <;> exact h
  | registered found answered => exact inv.registered conns found answered (hok _ found)
  | @requested c r a => exact inv.frame (onRequest_sameLinks env mom a r d.db) fun _ => Iff.rfl
  | closed found => exact inv.closed conns found (hok _ found)
  | upkept => exact hok.elim
  | restarted => exact hok.elim

theorem linkInv_initial : LinkInv (Daemon.initial env) := by
  intro sid s hs
  obtain rfl := List.mem_singleton.mp (session?_eq_some hs).1
  exact ⟨(fun h => nomatch h), fun ⟨_, hc, _⟩ => nomatch hc⟩

/-- A session that a connection holds is not removed. -/
theorem LinkInv.not_removed (inv : LinkInv d) {c : Conn} (hc : c ∈ d.conns)
    (holds : Holds d.db c sid) (now : Iso) :
    ∃ f, operatorRemoveRecord now sid d.db = (.error f, d.db) := by
  rcases hremove : operatorRemoveRecord now sid d.db with ⟨f | found, b'⟩
  · exact ⟨f, by rw [operatorRemoveRecord_refuses d.db f b' hremove]⟩
  · obtain ⟨-, ⟨-, habsent, -⟩ | ⟨s, -, hs, hidle, -⟩⟩ := operatorRemoveRecord_ok hremove
    · obtain ⟨a, -, -, row, -, -, -, -, -, hepoch⟩ := holds
      simp [Broker.epochOf, habsent] at hepoch
    · exact absurd ((inv sid s hs).mpr ⟨c, hc, holds⟩) hidle

/-- **Connection-state accuracy.** In every run of one process's connections that meets the
    condition, a session's row is connected exactly if an open connection holds the session,
    and a session that is held cannot be removed. -/
theorem connected_iff_held {log : List (DaemonEvent × Except Failure Response)}
    (run : Run (Daemon.step env) (LinksKept env) (Daemon.initial env) log d) :
    (∀ s ∈ d.db.sessions,
      (s.state = .connected ↔ ∃ c ∈ d.conns, Holds d.db c s.sessionId)) ∧
    ∀ c ∈ d.conns, ∀ sid, Holds d.db c sid →
      ∀ now, ∃ f, operatorRemoveRecord now sid d.db = (.error f, d.db) := by
  have inv : ConnInv d ∧ LinkInv d := by
    refine run_stepped (P := fun d => ConnInv d ∧ LinkInv d) run
      ⟨connInv_initial, linkInv_initial⟩ fun u mom s answer u' hs hok hu => ?_
    exact ⟨hu.1.stepped hs, hu.2.stepped hu.1 hs hok⟩
  obtain ⟨N, names⟩ : ∃ N, NameInv d.db N :=
    daemon_of_moves (P := fun b => ∃ N, NameInv b N) ⟨_, nameInv_initial⟩
      (fun _ _ _ hmove ⟨_, hN⟩ => hmove.names hN) run
  refine ⟨fun s hs => inv.2 s.sessionId s ?_, fun c hc sid holds now =>
    inv.2.not_removed hc holds now⟩
  exact find?_key_of_mem names.sessionIds hs

/-! ## A hook and an mcp component -/

/-- The mcp component of `alpha`, on connection 1, then a hook on connection 2, which closes. -/
def hookComesAndGoes : List DaemonEvent :=
  arrives 1 { sessionId := "alpha", processId := 1 } ++
    arrives 2 { sessionId := "alpha", processId := 2, role := some .hook } ++
    [(.close 2, { nowMs := 1001 })]

/-- The same two, the hook first. -/
def hookComesFirst : List DaemonEvent :=
  arrives 1 { sessionId := "alpha", processId := 2, role := some .hook } ++
    arrives 2 { sessionId := "alpha", processId := 1 } ++ [(.close 1, { nowMs := 1001 })]

/-- While the mcp connection is the bound one, a hook comes and goes without harm. -/
theorem hook_leaves_alpha_connected :
    let d := (runAll (Daemon.step plainEnv) (Daemon.initial plainEnv) hookComesAndGoes).2
    (∃ s ∈ d.db.sessions, s.sessionId = "alpha" ∧ s.state = .connected) ∧
      ∃ f, operatorRemoveRecord ⟨1002⟩ "alpha" d.db = (.error f, d.db) := by
  intro d
  have hrun : Run (Daemon.step plainEnv) (LinksKept plainEnv) (Daemon.initial plainEnv) _ d :=
    Run.of_runAll hookComesAndGoes (by decide +kernel)
  obtain ⟨-, hremove⟩ := connected_iff_held hrun
  have hheld : ∃ c ∈ d.conns, Holds d.db c "alpha" := by decide +kernel
  obtain ⟨c, hc, holds⟩ := hheld
  exact ⟨by decide +kernel, hremove c hc "alpha" holds ⟨1002⟩⟩

/-- The hook that came first closes: the mcp connection is open, and the row says that the
    session is disconnected; the operator removes it. -/
theorem first_hook_disconnects_alpha :
    ∃ log d, Run (Daemon.step plainEnv) Any (Daemon.initial plainEnv) log d ∧
      (∃ s ∈ d.db.sessions, s.sessionId = "alpha" ∧ s.state ≠ .connected) ∧
      (∃ c ∈ d.conns, Holds d.db c "alpha" ∧ (c.auth.map (·.role)) = some .mcp) ∧
      (operatorRemoveRecord ⟨1002⟩ "alpha" d.db).1.toOption = some true := by
  refine ⟨_, _, Run.of_events (Daemon.step plainEnv) (Daemon.initial plainEnv) hookComesFirst, ?_⟩
  decide +kernel

end Proof
end XBus
