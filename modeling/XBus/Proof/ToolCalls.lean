import XBus.McpServer
import XBus.Proof.Signals

/-!
# One tool call, one message

A send without an idempotency key is not recognised when it comes twice. Each attempt of a tool
call writes one request and each request creates one row at most, so all depends on the second
attempt: it is written after the first one was given up, whatever became of its request. Where
the first request is out of the world by then, not under way and not committed, a call has one
row at most; `spent` counts both.
-/

set_option autoImplicit false

namespace XBus
namespace Proof

open Lib

variable {env : Env} {s s' : McpSystem}

/-! ## What a step adds -/

/-- What the attempts of a call have put into the world: requests under way, and rows. -/
def spent (s : McpSystem) (i : Nat) : Nat := s.underWay i + s.rowsMade i

/-- A send adds one row at most. -/
theorem send_adds {now : Iso} {auth : SessionAuthority} {input : SendInput} :
    Respects (fun b b' => ∃ ms, ms.length ≤ 1 ∧ b'.messages = b.messages ++ ms)
      (send env now auth input) := by
  refine Refuses.respects (R := Eq) (.transaction _) ?_ fun b r b' h => ?_
  · rintro b _ rfl
    exact ⟨[], Nat.zero_le 1, (List.append_nil _).symm⟩
  · obtain ⟨-, rfl⟩ | ⟨-, m, hposted, -⟩ := send_ok h
    · exact ⟨[], Nat.zero_le 1, (List.append_nil _).symm⟩
    · exact ⟨[m], Nat.le_refl 1, hposted.messages⟩

/-- So does a request, whatever comes of it. -/
theorem newRows_length (d : Daemon) (q : SentRequest) (mom : Moment) :
    (McpSystem.newRows d.db (d.step env (q.signal, mom)).2.db).length ≤ 1 := by
  have hadds : ∃ ms : List Message, ms.length ≤ 1 ∧
      (d.step env (q.signal, mom)).2.db.messages = d.db.messages ++ ms := by
    rcases @request_db env d (q.signal, mom) _ _ rfl with hdb | ⟨auth, hdb⟩
    · exact ⟨[], Nat.zero_le 1, by rw [hdb, List.append_nil]⟩
    · rw [hdb]
      exact send_adds.map d.db
  obtain ⟨ms, hfew, hms⟩ := hadds
  have hold : d.db.messages.filter (fun m => m ∉ d.db.messages) = [] :=
    List.filter_eq_nil_iff.mpr fun m hm => by simpa using hm
  rw [McpSystem.newRows, hms, List.filter_append, hold, List.nil_append]
  exact (List.length_filter_le _ _).trans hfew

/-- A request that is handled gives way to one row at most. -/
theorem handled_spent {q : SentRequest} (hq : q ∈ s.requests) (mom : Moment) (i : Nat) :
    spent (s.handled env q mom) i ≤ spent s i := by
  have hrows :
    (McpSystem.newRows s.daemon.db (s.daemon.step env (q.signal, mom)).2.db).length ≤ 1 :=
    newRows_length s.daemon q mom
  have hunder : s.requests.countP (fun q => decide (q.call = i)) =
      (s.requests.erase q).countP (fun q => decide (q.call = i)) +
        if q.call = i then 1 else 0 := by
    rw [(List.perm_cons_erase hq).countP_eq, List.countP_cons]
    simp only [decide_eq_true_eq]
  simp only [spent, McpSystem.rowsMade, McpSystem.handled, McpSystem.underWay,
    List.countP_append, List.countP_map]
  by_cases hcall : q.call = i
  · rw [if_pos hcall] at hunder
    have hle := (List.countP_le_length (p := (fun r : Nat × Id => decide (r.1 = i)) ∘
      fun m : Message => (q.call, m.messageId))).trans hrows
    omega
  · have hnone : (McpSystem.newRows s.daemon.db
        (s.daemon.step env (q.signal, mom)).2.db).countP
          ((fun r : Nat × Id => decide (r.1 = i)) ∘ fun m : Message => (q.call, m.messageId)) = 0 :=
      List.countP_eq_zero.mpr fun m _ => by simpa using hcall
    rw [if_neg hcall] at hunder
    omega

theorem unread_sublist (requests : List SentRequest) (e : Signal) :
    (McpSystem.unread requests e).Sublist requests := by
  cases e with
  | close => exact List.filter_sublist
  | restart => exact List.nil_sublist _
  | _ => exact List.Sublist.refl _

/-- What has come in, or what is already lost, is no more under way. -/
theorem spent_sublist {requests : List SentRequest} (h : requests.Sublist s.requests) (i : Nat) :
    spent { s with requests } i ≤ spent s i :=
  Nat.add_le_add_right h.countP_le _

/-! ## The course of a call -/

/-- No attempt of the call has written its request. -/
def ToolCall.untried (c : ToolCall) : Prop := c.retrying = false ∧ c.stage = .ensuring

/-- A call keeps its arguments and does not begin anew. -/
structure GoesOn (c c' : ToolCall) : Prop where
  input : c'.input = c.input
  begun : ToolCall.untried c' → ToolCall.untried c

theorem GoesOn.refl (c : ToolCall) : GoesOn c c := ⟨rfl, id⟩

theorem GoesOn.throws (c : ToolCall) (transient : Bool) : GoesOn c (c.throws transient) := by
  unfold ToolCall.throws
  split
  · exact ⟨rfl, fun h => nomatch h.1⟩
  · exact ⟨rfl, fun h => nomatch h.2⟩

theorem GoesOn.answered (c : ToolCall) (answer : Except Failure Response) :
    GoesOn c (c.answered answer) := by
  cases answer with
  | ok r => exact ⟨rfl, fun h => nomatch h.2⟩
  | error e => exact .throws c _

theorem GoesOn.ite {p : Prop} [Decidable p] {c c' : ToolCall} (h : GoesOn c c') :
    GoesOn c (if p then c' else c) := by
  split
  · exact h
  · exact .refl c

/-! ## The invariant -/

/-- What is known of the `i`-th call, made without an idempotency key. -/
structure CallInv (s : McpSystem) (i : Nat) (c : ToolCall) : Prop where
  /-- Its attempts have one request or row between them. -/
  once : spent s i ≤ 1
  /-- Before the first attempt there is neither. -/
  untried : ToolCall.untried c → spent s i = 0

/-- What holds in every run whose retries find nothing left of the first attempt. -/
structure ToolInv (s : McpSystem) : Prop where
  calls : ∀ i c, s.calls[i]? = some c → c.input.idempotencyKey = none → CallInv s i c
  /-- Calls to come have done nothing. -/
  later : ∀ i, s.calls.length ≤ i → spent s i = 0

/-- A step after which every call has gone on and nothing has been added to the world. -/
theorem ToolInv.goesOn (inv : ToolInv s) {f : Nat → ToolCall → ToolCall}
    (hcalls : ∀ i, s'.calls[i]? = (s.calls[i]?).map (f i)) (hf : ∀ i c, GoesOn c (f i c))
    (hspent : ∀ i, spent s' i ≤ spent s i) : ToolInv s' := by
  constructor
  · intro i c' hc' hkey
    rw [hcalls] at hc'
    obtain ⟨c, hc, rfl⟩ := Option.map_eq_some_iff.mp hc'
    have hinv := inv.calls i c hc ((hf i c).input ▸ hkey)
    exact ⟨(hspent i).trans hinv.once, fun h =>
      Nat.le_zero.mp (hinv.untried ((hf i c).begun h) ▸ hspent i)⟩
  · intro i hi
    have hnone : s.calls[i]? = none := by
      have := hcalls i
      rw [List.getElem?_eq_none hi] at this
      exact Option.map_eq_none_iff.mp this.symm
    exact Nat.le_zero.mp (inv.later i (List.getElem?_eq_none_iff.mp hnone) ▸ hspent i)

/-- The calls are left alone. -/
theorem ToolInv.sameCalls (inv : ToolInv s) (hcalls : s'.calls = s.calls)
    (hspent : ∀ i, spent s' i ≤ spent s i) : ToolInv s' :=
  inv.goesOn (f := fun _ c => c) (fun i => by simp [hcalls]) (fun _ c => .refl c) hspent

theorem ToolInv.mapCalls (inv : ToolInv s) {f : ToolCall → ToolCall} (hf : ∀ c, GoesOn c (f c)) :
    ToolInv { s with calls := s.calls.map f } :=
  inv.goesOn (fun _ => List.getElem?_map) (fun _ => hf) fun _ => Nat.le_refl _

theorem ToolInv.modifyCall (inv : ToolInv s) (i : Nat) {f : ToolCall → ToolCall}
    (hf : ∀ c, GoesOn c (f c)) : ToolInv { s with calls := s.calls.modify i f } := by
  refine inv.goesOn (f := fun j c => if i = j then f c else c) (fun j => ?_)
    (fun j c => .ite (hf c))
    fun _ => Nat.le_refl _
  simp only [List.getElem?_modify]
  split <;> rfl

/-! ## The condition, and every step under it -/

/-- A retry is written only when nothing is left of the first attempt: its request is no more
    under way, and it has created no row. -/
def RetrySafe (s : McpSystem) : McpEvent → Prop
  | .dispatch i => ∀ c ∈ s.calls[i]?, c.input.idempotencyKey = none →
      c.stage = .ensuring → c.retrying = true → s.underWay i = 0 ∧ s.rowsMade i = 0
  | _ => True

instance RetrySafe.decidable (s : McpSystem) : ∀ e, Decidable (RetrySafe s e)
  | .dispatch i => inferInstanceAs (Decidable (∀ c ∈ s.calls[i]?, c.input.idempotencyKey = none →
      c.stage = .ensuring → c.retrying = true → s.underWay i = 0 ∧ s.rowsMade i = 0))
  | .toolCall _ | .attach _ | .ensureThrows _ _ | .deliver _ _ | .loseRequest _ | .answer _
  | .loseAnswer _ | .timeout _ | .closed _ | .broker _ => isTrue trivial

/-- Writing a request adds it to the world, on behalf of its call alone. -/
theorem dispatched_toolInv (inv : ToolInv s) {i : Nat} {c : ToolCall} (hc : s.calls[i]? = some c)
    (hzero : c.input.idempotencyKey = none → spent s i = 0) : ToolInv (s.dispatched i c) := by
  cases hclient : s.client with
  | none =>
    have heq : s.dispatched i c = { s with calls := s.calls.modify i fun c => c.throws true } := by
      simp only [McpSystem.dispatched, hclient]
    rw [heq]
    exact inv.modifyCall i fun c => .throws c true
  | some conn =>
    -- The request that goes out is spent on call `i`.
    have hspent (j : Nat) : spent (s.dispatched i c) j = spent s j + if i = j then 1 else 0 := by
      simp only [spent, McpSystem.underWay, McpSystem.rowsMade, McpSystem.dispatched, hclient,
        List.countP_append, List.countP_singleton, decide_eq_true_eq]
      omega
    have hcalls (j : Nat) : (s.dispatched i c).calls[j]? = (s.calls[j]?).map fun c =>
        if i = j then { c with stage := .awaiting (s.reqSeq + 1) conn } else c := by
      simp only [McpSystem.dispatched, hclient, List.getElem?_modify]
      split <;> rfl
    constructor
    · intro j c' hc' hkey
      rw [hcalls] at hc'
      obtain ⟨d, hd, rfl⟩ := Option.map_eq_some_iff.mp hc'
      by_cases hij : i = j
      · subst hij
        obtain rfl : c = d := Option.some.inj (hc ▸ hd)
        rw [if_pos rfl] at hkey ⊢
        have hfirst := hspent i
        rw [if_pos rfl, hzero hkey] at hfirst
        exact ⟨hfirst.le, fun h => nomatch h.2⟩
      · rw [if_neg hij] at hkey ⊢
        have hinv := inv.calls j d hd hkey
        have hsame := hspent j
        rw [if_neg hij, Nat.add_zero] at hsame
        exact ⟨hsame ▸ hinv.once, fun h => hsame ▸ hinv.untried h⟩
    · intro j hj
      have hlen : s.calls.length ≤ j := by
        simpa only [McpSystem.dispatched, hclient, List.length_modify] using hj
      have hi : i < s.calls.length := (List.getElem?_eq_some_iff.mp hc).1
      rw [hspent, if_neg (by omega), inv.later j hlen]

theorem step_toolInv (inv : ToolInv s) (e : McpEvent) (hsafe : RetrySafe s e) :
    ToolInv (s.step env e).2 := by
  cases e with
  | toolCall input =>
    constructor
    · intro i c hc hkey
      -- The new call is the last, and nothing is spent on it yet.
      rcases lt_or_ge i s.calls.length with hi | hi
      · have hinv :=
          inv.calls i c (by rwa [McpSystem.step, List.getElem?_append_left hi] at hc) hkey
        exact ⟨hinv.once, hinv.untried⟩
      · have hzero : spent s i = 0 := inv.later i hi
        exact ⟨hzero.le.trans (Nat.zero_le 1), fun _ => hzero⟩
    · intro i hi
      refine inv.later i (Nat.le_of_succ_le ?_)
      simpa [McpSystem.step] using hi
  | attach conn => exact inv.sameCalls rfl fun _ => Nat.le_refl _
  | ensureThrows i transient => exact inv.modifyCall i fun c => .ite (.throws c transient)
  | dispatch i =>
    simp only [McpSystem.step]
    cases hc : s.calls[i]? with
    | none => exact inv
    | some c =>
      by_cases hstage : c.stage = .ensuring
      · simp only [if_pos hstage]
        refine dispatched_toolInv inv hc fun hkey => ?_
        -- A second try is safe only where the first left nothing under way and no row.
        cases hretry : c.retrying with
        | false => exact (inv.calls i c hc hkey).untried ⟨hretry, hstage⟩
        | true =>
          obtain ⟨hunder, hrows⟩ := hsafe c hc hkey hstage hretry
          simp only [spent, hunder, hrows]
      · simp only [if_neg hstage]
        exact inv
  | deliver ref mom =>
    simp only [McpSystem.step]
    cases hq : s.requests.find? fun q => q.ref = ref with
    | none => exact inv
    | some q => exact inv.sameCalls rfl (handled_spent (List.mem_of_find?_eq_some hq) mom)
  | loseRequest ref => exact inv.sameCalls rfl (spent_sublist List.filter_sublist)
  | answer ref =>
    simp only [McpSystem.step]
    cases ha : s.answers.find? fun a => a.1 = ref with
    | none => exact inv
    | some a =>
      exact (inv.mapCalls fun c => .ite (.answered c a.2)).sameCalls rfl fun _ => Nat.le_refl _
  | loseAnswer ref => exact inv.sameCalls rfl fun _ => Nat.le_refl _
  | timeout ref => exact inv.mapCalls fun c => .ite (.throws c true)
  | closed conn => exact inv.mapCalls fun c => .ite (.throws c true)
  | broker e => exact inv.sameCalls rfl (spent_sublist (unread_sublist _ _))

theorem toolInv_initial : ToolInv (McpSystem.initial env) :=
  ⟨fun _ _ hc => (nomatch hc), fun _ _ => rfl⟩

theorem run_toolInv {log : List (McpEvent × Unit)}
    (run : Run (McpSystem.step env) RetrySafe (McpSystem.initial env) log s) : ToolInv s :=
  run.invariant toolInv_initial fun _ e inv hsafe => step_toolInv inv e hsafe

/-- **One tool call, one message**, in every run whose retries find nothing left of the first
    attempt. -/
theorem tool_call_creates_one {log : List (McpEvent × Unit)}
    (run : Run (McpSystem.step env) RetrySafe (McpSystem.initial env) log s) {i : Nat}
    {c : ToolCall} (hc : s.calls[i]? = some c) (hkey : c.input.idempotencyKey = none) :
    s.rowsMade i ≤ 1 :=
  (Nat.le_add_left _ _).trans ((run_toolInv run).calls i c hc hkey).once

/-! ## Two runs -/

/-- The MCP server of `alpha` connects as the given connection and registers. -/
def mcpAttaches (conn : ConnId) : List McpEvent :=
  (arrives conn { sessionId := "alpha", processId := 1 }).map .broker ++ [.attach conn]

/-- `beta` is there, and the MCP server of `alpha` is asked to send it something. The request is
    written. -/
def sendWritten : List McpEvent :=
  (arrives 1 { sessionId := "beta", processId := 2, requestedSessionName := some "beta-name" }).map
      .broker ++
    mcpAttaches 2 ++ [.toolCall { recipient := "beta-name", text := "please" }, .dispatch 0]

/-- The answer does not come in time, and the MCP server tries again. -/
def sendRetried : List McpEvent :=
  [.timeout 1, .broker (.close 2, { nowMs := 11000 })] ++ mcpAttaches 3 ++
    [.dispatch 0, .deliver 2 { nowMs := 11000 }, .answer 2]

/-- The last state of a run of the three parties. -/
def mcpAfter (events : List McpEvent) : McpSystem :=
  (runAll (McpSystem.step plainEnv) (McpSystem.initial plainEnv) events).2

/-- A request that is lost is sent once more, and arrives once. -/
theorem lost_send_arrives_once :
    (mcpAfter (sendWritten ++ [.loseRequest 1] ++ sendRetried)).created = [(0, 9)] ∧
      (mcpAfter (sendWritten ++ [.loseRequest 1] ++ sendRetried)).rowsMade 0 ≤ 1 := by
  have run : Run (McpSystem.step plainEnv) RetrySafe (McpSystem.initial plainEnv) _
      (mcpAfter (sendWritten ++ [.loseRequest 1] ++ sendRetried)) :=
    Run.of_runAll _ (by decide +kernel)
  refine ⟨by decide +kernel, ?_⟩
  apply tool_call_creates_one run (i := 0)
    (c := { input := { recipient := "beta-name", text := "please" }, retrying := true
            stage := .settled false })
  · decide +kernel
  · rfl

/-- The broker commits the send, its answer is late, and the retry is committed as well: two rows
    for one call. -/
theorem late_answer_doubles_send :
    ¬ ∀ log s, Run (McpSystem.step plainEnv) Any (McpSystem.initial plainEnv) log s →
      ∀ i c, s.calls[i]? = some c → c.input.idempotencyKey = none → s.rowsMade i ≤ 1 := by
  intro hall
  have hone := hall _ _ (Run.of_events _ _ (sendWritten ++ [.deliver 1 { nowMs := 1001 }] ++
    sendRetried)) 0 { input := { recipient := "beta-name", text := "please" }, retrying := true
                      stage := .settled false } (by decide +kernel) rfl
  have htwo : (mcpAfter (sendWritten ++ [.deliver 1 { nowMs := 1001 }] ++
      sendRetried)).rowsMade 0 = 2 := by decide +kernel
  exact absurd (htwo ▸ hone) (by decide)

end Proof
end XBus
