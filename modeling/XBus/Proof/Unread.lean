import XBus.Proof.Turns

/-!
# What the operator has not read

The cursor is what hides turns, and the operator's browser names the number it moves to. As long as
it names turns that are there, **`unread_never_hidden`**: the cursor stays behind the last turn, it
never goes back, and what a peer says later is counted until a mark reaches it. A number beyond the
last turn is taken as well, and hides the turns up to it before they are said.
-/

set_option autoImplicit false

namespace XBus
namespace Proof

open Lib

variable {env : Env} {b b' u v : Broker} {tid : Id} {e : ThreadEvent}

/-! ## One step -/

/-- What a step of the stores or a mark does. -/
inductive Advanced (b b' : Broker) : ThreadOp → Prop
  | turned {op : Op} (h : Turned b b') : Advanced b b' (.store op)
  | refused {op : ThreadOp} (h : Still b b') : Advanced b b' op
  | marked {tid : Id} {upTo l : Nat} (there : b.lastSequenceOf tid = some l)
      (messages : b'.messages = b.messages)
      (after : threading b' = ((threading b).join tid operatorSessionId).mark tid upTo) :
      Advanced b b' (.markThreadRead tid upTo)

/-- In whose name an answer is given. -/
def replier? : ThreadOp → Option SessionId
  | .store (.reply auth _) => some auth.sessionId
  | _ => none

/-- The turn that a mark names. -/
def marks? : ThreadOp → Option (Id × Nat)
  | .markThreadRead tid upTo => some (tid, upTo)
  | .store _ => none

/-- What is answered is answered by peers. -/
def FromPeers (_ : Broker) (e : ThreadEvent) : Prop := replier? e.1 ≠ some operatorSessionId

instance : Decidable (FromPeers b e) := inferInstanceAs (Decidable (_ ≠ _))

theorem threadStep_advanced (hpeers : FromPeers b e) :
    Advanced b (threadStep env b e).2 e.1 := by
  obtain ⟨op, mom⟩ := e
  cases op with
  | store op =>
    show Advanced b ((ThreadResponse.store <$> exec env mom op) b).2 (.store op)
    rw [Call.map_snd]
    refine .turned (exec_turned env mom op b fun auth input hop hoperator => hpeers ?_)
    subst hop
    exact congrArg some hoperator
  | markThreadRead tid upTo =>
    show Advanced b ((ThreadResponse.readUpTo <$> markThreadRead mom.now tid upTo) b).2
      (.markThreadRead tid upTo)
    rw [Call.map_snd]
    rcases hx : markThreadRead mom.now tid upTo b with ⟨e | n, b'⟩
    · have hsame : Still b b' := Refuses.transaction (R := Still) _ b e b' hx
      exact .refused hsame
    · obtain ⟨hafter, hmessages, l, hl⟩ := markThreadRead_ok hx
      exact .marked hl hmessages hafter

/-! ## The cursor stays behind -/

namespace Threading

variable {w w' : Threading} {sid : SessionId} {n : Nat}

/-- The cursor is behind the last turn, and the last turn before the next one. -/
structure Behind (w : Threading) : Prop where
  cursor : ∀ t c, w.cursor t = some c → ∃ l, w.last t = some l ∧ c ≤ l
  last : ∀ t l, w.last t = some l → l < w.next t
  next : ∀ t, 0 < w.next t

/-- No cursor has gone back. -/
def Onward (w w' : Threading) : Prop :=
  ∀ t c, w.cursor t = some c → ∃ c', w'.cursor t = some c' ∧ c ≤ c'

/-- The turn of this number is beyond the cursor. -/
def Beyond (w : Threading) (t : Id) (n : Nat) : Prop := ∀ c, w.cursor t = some c → c < n

theorem Onward.of_eq (h : w'.cursor = w.cursor) : Onward w w' :=
  fun t c hc => ⟨c, (congrFun h t).trans hc, Nat.le_refl c⟩

theorem Onward.trans {w'' : Threading} (h : Onward w w') (h' : Onward w' w'') : Onward w w'' := by
  intro t c hc
  obtain ⟨c', hc', hle⟩ := h t c hc
  obtain ⟨c'', hc'', hle'⟩ := h' t c' hc'
  exact ⟨c'', hc'', hle.trans hle'⟩

theorem ensure_last {t : Id} {l : Nat} (h : (w.ensure tid).last t = some l) :
    w.last t = some l ∨ l = 0 := by
  simp only [ensure, Option.or_eq_some_iff, Option.ite_none_right_eq_some, Option.some.injEq] at h
  rcases h with h | ⟨-, -, rfl⟩
  · exact .inl h
  · exact .inr rfl

theorem Behind.ensure (h : Behind w) : Behind (w.ensure tid) where
  cursor t c hc := by
    obtain ⟨l, hl, hle⟩ := h.cursor t c hc
    exact ⟨l, by simp [Threading.ensure, hl], hle⟩
  last t l hl := by
    rcases ensure_last hl with hl | rfl
    · exact h.last t l hl
    · exact h.next t
  next := h.next

theorem ensure_there : ∃ l, (w.ensure tid).last tid = some l := by
  cases hl : w.last tid with
  | none => exact ⟨0, by simp [ensure, hl]⟩
  | some l => exact ⟨l, by simp [ensure, hl]⟩

theorem le_alloc_next {t : Id} : w.next t ≤ (w.alloc tid).next t := by
  simp only [alloc]
  split
  · exact Nat.le_succ _
  · exact Nat.le_refl _

theorem lt_alloc_next : w.next tid < (w.alloc tid).next tid := by simp [alloc]

theorem Behind.alloc (h : Behind w) : Behind (w.alloc tid) where
  cursor := h.cursor
  last t l hl := (h.last t l hl).trans_le le_alloc_next
  next t := (h.next t).trans_le le_alloc_next

theorem join_cursor {t : Id} {c : Nat} (h : (w.join tid sid).cursor t = some c) :
    w.cursor t = some c ∨ t = tid ∧ c = 0 := by
  simp only [join, Option.or_eq_some_iff, Option.ite_none_right_eq_some, Option.some.injEq] at h
  rcases h with h | ⟨-, ⟨ht, -⟩, rfl⟩
  · exact .inl h
  · exact .inr ⟨ht, rfl⟩

theorem Behind.join (h : Behind w) (there : ∃ l, w.last tid = some l) :
    Behind (w.join tid sid) where
  cursor t c hc := by
    rcases join_cursor hc with hc | ⟨rfl, rfl⟩
    · exact h.cursor t c hc
    · obtain ⟨l, hl⟩ := there
      exact ⟨l, hl, Nat.zero_le l⟩
  last := h.last
  next := h.next

theorem Onward.join : Onward w (w.join tid sid) := by
  intro t c hc
  exact ⟨c, by simp [Threading.join, hc], Nat.le_refl c⟩

theorem Beyond.join {t : Id} (hn : 0 < n) (h : Beyond w t n) : Beyond (w.join tid sid) t n := by
  intro c hc
  rcases join_cursor hc with hc | ⟨-, rfl⟩
  · exact h c hc
  · exact hn

theorem touch_last {t : Id} {l : Nat} (h : w.last t = some l) :
    ∃ l', (w.touch tid n).last t = some l' ∧ l ≤ l' := by
  by_cases ht : t = tid
  · subst ht
    exact ⟨max l n, by simp [touch, h], Nat.le_max_left l n⟩
  · exact ⟨l, by simp [touch, ht, h], Nat.le_refl l⟩

theorem Behind.touch (h : Behind w) (hn : n < w.next tid) : Behind (w.touch tid n) where
  cursor t c hc := by
    obtain ⟨l, hl, hle⟩ := h.cursor t c hc
    obtain ⟨l', hl', hle'⟩ : ∃ l', (w.touch tid n).last t = some l' ∧ l ≤ l' := touch_last hl
    exact ⟨l', hl', hle.trans hle'⟩
  last t l hl := by
    by_cases ht : t = tid
    · subst ht
      simp only [Threading.touch, if_true, Option.map_eq_some_iff] at hl
      obtain ⟨l₀, hl₀, rfl⟩ := hl
      exact Nat.max_lt.mpr ⟨h.last t l₀ hl₀, hn⟩
    · simp only [Threading.touch, if_neg ht] at hl
      exact h.last t l hl
  next := h.next

theorem Behind.mark {l : Nat} (h : Behind w) (there : w.last tid = some l) (hn : n ≤ l) :
    Behind (w.mark tid n) where
  cursor t c hc := by
    by_cases ht : t = tid
    · subst ht
      simp only [Threading.mark, if_true, Option.some.injEq] at hc
      subst hc
      refine ⟨l, there, Nat.max_le.mpr ⟨?_, hn⟩⟩
      cases hold : w.cursor t with
      | none => exact Nat.zero_le l
      | some c =>
        obtain ⟨l', hl', hle⟩ := h.cursor t c hold
        obtain rfl : l' = l := Option.some.inj (hl'.symm.trans there)
        exact hle
    · simp only [Threading.mark, if_neg ht] at hc
      exact h.cursor t c hc
  last := h.last
  next := h.next

theorem Onward.mark : Onward w (w.mark tid n) := by
  intro t c hc
  by_cases ht : t = tid
  · subst ht
    exact ⟨max c n, by simp [Threading.mark, hc], Nat.le_max_left c n⟩
  · exact ⟨c, by simp [Threading.mark, ht, hc], Nat.le_refl c⟩

theorem Beyond.mark {t : Id} {k : Nat} (hn : 0 < n) (hmark : t = tid → k < n)
    (h : Beyond w t n) : Beyond (w.mark tid k) t n := by
  intro c hc
  by_cases ht : t = tid
  · subst ht
    simp only [Threading.mark, if_true, Option.some.injEq] at hc
    subst hc
    refine Nat.max_lt.mpr ⟨?_, hmark rfl⟩
    cases hold : w.cursor t with
    | none => exact hn
    | some c => exact h c hold
  · simp only [Threading.mark, if_neg ht] at hc
    exact h c hc

end Threading

/-! ## Runs -/

/-- The cursors of a broker are behind its turns, and its turns are numbered from one. -/
structure Behind (b : Broker) : Prop where
  threading : (threading b).Behind
  turns : ∀ m ∈ b.messages, m.threadId ≠ none → 0 < m.threadSequence

/-- A mark names a turn that is there. -/
def NamesTurn (b : Broker) (op : ThreadOp) : Prop :=
  ∀ r ∈ marks? op, ∀ l ∈ b.lastSequenceOf r.1, r.2 ≤ l

instance {op : ThreadOp} : Decidable (NamesTurn b op) :=
  inferInstanceAs (Decidable (∀ r ∈ marks? op, ∀ l ∈ b.lastSequenceOf r.1, r.2 ≤ l))

/-- A turn is added with the number its thread had next. -/
theorem behind_add {m : Message} (hb : Behind b) (hthreading : (threading b').Behind)
    (sequence : m.threadSequence = b.nextThreadSequence tid)
    (messages : b'.messages = b.messages ++ [m]) : Behind b' := by
  refine ⟨hthreading, fun m' hm' hthread => ?_⟩
  rw [messages] at hm'
  rcases List.mem_append.mp hm' with hm' | hm'
  · exact hb.turns m' hm' hthread
  · rw [List.mem_singleton.mp hm', sequence]
    exact hb.threading.next tid

theorem Still.behind (h : Still b b') (hb : Behind b) : Behind b' :=
  ⟨h.threading ▸ hb.threading, h.messages ▸ hb.turns⟩

theorem Turned.behind (h : Turned b b') (hb : Behind b) : Behind b' := by
  cases h with
  | still h => exact h.behind hb
  | opened m tid from' to' thread sequence messages after =>
    refine behind_add hb ?_ sequence messages
    rw [after]
    -- The thread is there by the time its participants join.
    have halloc : (((threading b).ensure tid).alloc tid).Behind := hb.threading.ensure.alloc
    refine Threading.Behind.touch ?_ (Threading.lt_alloc_next (w := (threading b).ensure tid))
    exact (halloc.join Threading.ensure_there).join Threading.ensure_there
  | answered m tid thread sequence messages after =>
    refine behind_add hb ?_ sequence messages
    rw [after]
    exact hb.threading.alloc.touch (Threading.lt_alloc_next (w := threading b))

theorem Advanced.behind {op : ThreadOp} (h : Advanced b b' op) (hnamed : NamesTurn b op)
    (hb : Behind b) : Behind b' := by
  cases h with
  | turned h => exact h.behind hb
  | refused h => exact h.behind hb
  | @marked tid upTo l there messages after =>
    refine ⟨?_, messages ▸ hb.turns⟩
    rw [after]
    exact (hb.threading.join ⟨l, there⟩).mark there (hnamed (tid, upTo) rfl l there)

theorem Advanced.onward {op : ThreadOp} (h : Advanced b b' op) :
    (threading b).Onward (threading b') := by
  cases h with
  | turned h =>
    cases h with
    | still h => exact .of_eq (congrArg Threading.cursor h.threading)
    | opened m tid from' to' thread sequence messages after =>
      rw [after]
      exact Threading.Onward.trans (.trans (.of_eq rfl) .join) (.trans .join (.of_eq rfl))
    | answered m tid thread sequence messages after =>
      rw [after]
      exact .of_eq rfl
  | refused h => exact .of_eq (congrArg Threading.cursor h.threading)
  | marked there messages after =>
    rw [after]
    exact .trans .join .mark

/-- What a turn that was not there before `u` has to fear: a mark at or beyond its number. -/
def Unmarked (tid : Id) (n : Nat) (log : List (ThreadEvent × Except Failure ThreadResponse)) :
    Prop := ∀ r ∈ log, ∀ upTo, marks? r.1.1 = some (tid, upTo) → upTo < n

theorem Turned.beyond {n : Nat} (h : Turned b b') (hn : 0 < n)
    (hb : (threading b).Beyond tid n) : (threading b').Beyond tid n := by
  cases h with
  | still h => rwa [h.threading]
  | opened m tid' from' to' thread sequence messages after =>
    rw [after]
    have hbefore : (((threading b).ensure tid').alloc tid').Beyond tid n := hb
    exact (hbefore.join hn).join hn
  | answered m tid' thread sequence messages after =>
    rw [after]
    exact hb

/-- A turn that no mark reaches stays beyond the cursor. -/
theorem Advanced.beyond {op : ThreadOp} {n : Nat} (h : Advanced b b' op) (hn : 0 < n)
    (hmark : ∀ upTo, marks? op = some (tid, upTo) → upTo < n)
    (hb : (threading b).Beyond tid n) : (threading b').Beyond tid n := by
  cases h with
  | turned h => exact h.beyond hn hb
  | refused h => rwa [h.threading]
  | @marked tid' upTo l there messages after =>
    rw [after]
    refine (hb.join hn).mark hn fun htid => ?_
    subst htid
    exact hmark upTo rfl

theorem Turned.added (h : Turned b b') {m : Message} (hm : m ∈ b'.messages)
    (hnew : m ∉ b.messages) (hthread : m.threadId = some tid) :
    m.threadSequence = b.nextThreadSequence tid := by
  have hlast {m₀ : Message} {tid₀ : Id} (thread : m₀.threadId = some tid₀)
      (sequence : m₀.threadSequence = b.nextThreadSequence tid₀)
      (messages : b'.messages = b.messages ++ [m₀]) :
      m.threadSequence = b.nextThreadSequence tid := by
    rw [messages] at hm
    obtain rfl : m = m₀ := List.mem_singleton.mp ((List.mem_append.mp hm).resolve_left hnew)
    obtain rfl : tid₀ = tid := Option.some.inj (thread.symm.trans hthread)
    exact sequence
  cases h with
  | still h => exact absurd (h.messages ▸ hm) hnew
  | opened m₀ tid₀ _ _ thread sequence messages => exact hlast thread sequence messages
  | answered m₀ tid₀ thread sequence messages => exact hlast thread sequence messages

/-- Where the cursor is behind, a turn that a step adds is beyond it. -/
theorem Advanced.added {op : ThreadOp} (h : Advanced b b' op) (hb : Behind b) {m : Message}
    (hm : m ∈ b'.messages) (hnew : m ∉ b.messages) (hthread : m.threadId = some tid) :
    (threading b').Beyond tid m.threadSequence := by
  cases h with
  | turned h =>
    have hsequence : m.threadSequence = b.nextThreadSequence tid := h.added hm hnew hthread
    rw [hsequence]
    refine h.beyond (hb.threading.next tid) fun c hc => ?_
    obtain ⟨l, hl, hle⟩ := hb.threading.cursor tid c hc
    exact hle.trans_lt (hb.threading.last tid l hl)
  | refused h => exact absurd (h.messages ▸ hm) hnew
  | marked there messages => exact absurd (messages ▸ hm) hnew

/-- What the unread count promises of the steps from `u` to `v`. -/
structure UnreadKept (u : Broker) (log : List (ThreadEvent × Except Failure ThreadResponse))
    (v : Broker) : Prop where
  behind : ∀ tid c, v.cursorOf tid = some c → ∃ l, v.lastSequenceOf tid = some l ∧ c ≤ l
  onward : ∀ tid c, u.cursorOf tid = some c → ∃ c', v.cursorOf tid = some c' ∧ c ≤ c'
  unread : ∀ tid, ∀ m ∈ v.messages, m ∉ u.messages → m.threadId = some tid →
    m.senderSessionId ≠ operatorSessionId → Unmarked tid m.threadSequence log →
    m ∈ v.unreadTurns tid
  counted : ∀ tid limit t, v.thread tid limit = some t → t.unreadCount = (v.unreadTurns tid).length
  listed : ∀ t ∈ v.dashboardThreads, t.unreadCount = (v.unreadTurns t.threadId).length

theorem behind_initial : Behind (initial env) := by
  have hprovision : Move env .operator {} (initial env) := .operator
  have hfresh : Still {} (initial env) := hprovision.still (by simp) (by simp)
  refine hfresh.behind ⟨⟨?_, ?_, ?_⟩, ?_⟩
  · intro tid c hc
    cases hc
  · intro tid l hl
    cases hl
  · intro tid
    exact Nat.one_pos
  · intro m hm
    cases hm

/-- Both views count the turns beyond the cursor. -/
theorem thread_unreadCount {limit : Nat} {t : DashboardThread} (h : b.thread tid limit = some t) :
    t.unreadCount = (b.unreadTurns tid).length := by
  simp only [Broker.thread, Option.bind_eq_bind, Option.bind_eq_some_iff, Option.pure_def,
    Option.some.injEq] at h
  obtain ⟨_, -, p, hp, rfl⟩ := h
  simp only [Broker.unreadTurns, Broker.cursorOf, hp, Option.map_some, Option.getD_some]

theorem dashboardThreads_unreadCount {t : DashboardThreadSummary} (h : t ∈ b.dashboardThreads) :
    t.unreadCount = (b.unreadTurns t.threadId).length := by
  obtain ⟨row, -, hrow⟩ := List.mem_filterMap.mp h
  simp only [Option.bind_eq_bind, Option.bind_eq_some_iff, Option.pure_def,
    Option.some.injEq] at hrow
  obtain ⟨p, hp, rfl⟩ := hrow
  simp only [Broker.unreadTurns, Broker.cursorOf, hp, Option.map_some, Option.getD_some,
    List.filter_filter]
  congr 2
  funext m
  simp [and_comm]

/-- A turn said after `u` that no mark has reached is beyond the cursor. -/
def StillBeyond (u : Broker) (log : List (ThreadEvent × Except Failure ThreadResponse))
    (v : Broker) : Prop :=
  ∀ tid, ∀ m ∈ v.messages, m ∉ u.messages → m.threadId = some tid →
    Unmarked tid m.threadSequence log → (threading v).Beyond tid m.threadSequence

/-- The marks of a run name turns that are there, and what is answered is answered by peers. -/
def Honest (b : Broker) (e : ThreadEvent) : Prop := FromPeers b e ∧ NamesTurn b e.1

instance : Decidable (Honest b e) := inferInstanceAs (Decidable (_ ∧ _))

theorem run_beyond {log : List (ThreadEvent × Except Failure ThreadResponse)}
    (r : Run (threadStep env) Honest u log v) (hu : Behind u) :
    Behind v ∧ (threading u).Onward (threading v) ∧ StillBeyond u log v := by
  refine r.invariant_log (P := fun log v => Behind v ∧ (threading u).Onward (threading v) ∧
    StillBeyond u log v) ⟨hu, .of_eq rfl, fun tid m hm hnew => absurd hm hnew⟩ ?_
  rintro log v e ⟨hv, honward, hbeyond⟩ ⟨hpeers, hnames⟩
  have hstep : Advanced v (threadStep env v e).2 e.1 := threadStep_advanced hpeers
  refine ⟨hstep.behind hnames hv, honward.trans hstep.onward, ?_⟩
  intro tid m hm hnew hthread hmarks
  by_cases hold : m ∈ v.messages
  · have hpositive : 0 < m.threadSequence := hv.turns m hold (by simp [hthread])
    refine hstep.beyond hpositive (fun upTo hop => ?_) (hbeyond tid m hold hnew hthread ?_)
    · exact hmarks _ (List.mem_append_right _ (List.mem_singleton.mpr rfl)) upTo hop
    · exact fun r hr => hmarks r (List.mem_append_left _ hr)
  · exact hstep.added hv hm hold hthread

/-- **Unread accounting hides no turn** in a run whose marks name turns that are there. -/
theorem unread_never_hidden {log log' : List (ThreadEvent × Except Failure ThreadResponse)}
    (r : Run (threadStep env) Honest (initial env) log u)
    (r' : Run (threadStep env) Honest u log' v) : UnreadKept u log' v := by
  obtain ⟨hu, -, -⟩ := run_beyond r behind_initial
  obtain ⟨hv, honward, hbeyond⟩ := run_beyond r' hu
  refine ⟨hv.threading.cursor, honward, ?_, ?_, ?_⟩
  · intro tid m hm hnew hthread hpeer hmarks
    have hm' : (threading v).Beyond tid m.threadSequence := hbeyond tid m hm hnew hthread hmarks
    refine List.mem_filter.mpr ⟨List.mem_filter.mpr ⟨hm, decide_eq_true hthread⟩, ?_⟩
    refine decide_eq_true ⟨?_, hpeer⟩
    cases hc : v.cursorOf tid with
    | none => exact hv.turns m hm (by simp [hthread])
    | some c => exact hm' c hc
  · exact fun tid limit t => thread_unreadCount
  · exact fun t => dashboardThreads_unreadCount

/-! ## A mark beyond the last turn -/

/-- The operator asks `beta` something, in thread 5, and `beta`'s hook is handed it. -/
def operatorAsked : List ThreadEvent :=
  [ (.store (.register { sessionId := "beta", connectionId := 2, processId := 2
                         capabilities := ["ack"], requestedSessionName := some "beta-name" }),
      { nowMs := 1000 }),
    (.store (.signalReadiness (component "beta" .mcp 1 2) {}), { nowMs := 1000 }),
    (.store (.operatorSend { recipient := "beta-name", text := "please", requiresReply := true }),
      { nowMs := 1000 }),
    (.store (.checkpointPull (component "beta" .hook 1 2) (some "ck") 10), { nowMs := 1001 }) ]

/-- The operator marks the thread read up to `upTo`, and then `beta` answers. -/
def markedThenAnswered (upTo : Nat) : List ThreadEvent :=
  [ (.markThreadRead 5 upTo, { nowMs := 1002 }),
    (.store (.reply (component "beta" .mcp 1 2)
      { messageId := 5, text := "done", outcome := .completed }), { nowMs := 1003 }) ]

def brokerAsked : Broker := (runAll (threadStep plainEnv) (initial plainEnv) operatorAsked).2

def brokerAnswered (upTo : Nat) : Broker :=
  (runAll (threadStep plainEnv) brokerAsked (markedThenAnswered upTo)).2

/-- A mark at 100 of a thread with one turn: the cursor stands beyond the last turn, and the answer
that comes afterwards is the second turn and not counted. -/
theorem future_turn_hidden :
    ∃ log log', Run (threadStep plainEnv) FromPeers (initial plainEnv) log brokerAsked ∧
      Run (threadStep plainEnv) FromPeers brokerAsked log' (brokerAnswered 100) ∧
      (brokerAnswered 100).unreadTurns 5 = [] ∧
      ¬ UnreadKept brokerAsked log' (brokerAnswered 100) := by
  refine ⟨_, _, Run.of_runAll operatorAsked (by decide +kernel),
    Run.of_runAll (markedThenAnswered 100) (by decide +kernel), by decide +kernel, fun hkept => ?_⟩
  have hcursor : (brokerAnswered 100).cursorOf 5 = some 100 := by decide +kernel
  have hlast : (brokerAnswered 100).lastSequenceOf 5 = some 2 := by decide +kernel
  obtain ⟨l, hl, hle⟩ := hkept.behind 5 100 hcursor
  obtain rfl : l = 2 := Option.some.inj (hl.symm.trans hlast)
  exact absurd hle (by decide)

/-- A mark at the one turn that is there leaves the answer to be counted. -/
theorem next_turn_unread :
    ∃ log', UnreadKept brokerAsked log' (brokerAnswered 1) ∧
      ((brokerAnswered 1).unreadTurns 5).length = 1 :=
  ⟨_, unread_never_hidden (Run.of_runAll operatorAsked (by decide +kernel))
    (Run.of_runAll (markedThenAnswered 1) (by decide +kernel)), by decide +kernel⟩

end Proof
end XBus
