import XBus.ReadWorker
import Mathlib.Data.List.Nodup
import Mathlib.Data.List.Perm.Basic

/-!
# Calls of the read worker

Five sources of events write the map of pending calls, and the generation is bumped in three places.
What holds after every order of events is that the map only has calls of the current generation,
and none at all without a worker (`Tidy`): a worker that is not the current one has then nothing
left to settle, whatever it still emits. The current worker was spawned, and since then neither an
error nor an exit of it was heard, nor was it told to terminate (`Alive`).

That every call is settled once is a matter of counting. The calls settled so far and the calls
pending are together the calls made, each once (`Accounted`), and every step keeps it that way.
-/

set_option autoImplicit false

namespace XBus
namespace ReadWorker

open Lib

variable {α ρ : Type} {limit : Nat} {x x' : Executor} {e : Event α ρ} {eff : Effects α ρ}

/-! ## One step -/

/-- The bookkeeping of an executor. -/
structure Tidy (limit : Nat) (x : Executor) : Prop where
  ids : (x.pending.map (·.id)).Nodup
  issued : ∀ p ∈ x.pending, p.id ≤ x.seq
  few : x.pending.length ≤ limit
  current : ∀ p ∈ x.pending, p.generation = x.generation
  live : x.pending ≠ [] → x.worker = some x.generation
  worker : ∀ w, x.worker = some w → w = x.generation

/-- What an event can do to a tidy executor. -/
inductive Moved (limit : Nat) (x : Executor) : Event α ρ → Effects α ρ → Executor → Prop
  | idle {e : Event α ρ} : Moved limit x e {} x
  /-- A call that is rejected at once. The worker may have been spawned for it. -/
  | refused {e : Event α ρ} {err : ReadError} {spawned : Option Nat} {x' : Executor}
      (calls : x'.calls = x.calls + 1) (pending : x'.pending = x.pending) (seq : x.seq ≤ x'.seq)
      (worker : (x'.worker = x.worker ∧ x'.generation = x.generation) ∨
        (x.pending = [] ∧ x'.worker = some x'.generation)) :
      Moved limit x e { returned := x.calls, spawned, settled := [(x.calls, .error err)] } x'
  /-- A call that is posted to the worker. -/
  | accepted {e : Event α ρ} {spawned : Option Nat} {x' : Executor} (r : ReadRequest α)
      (room : x.pending.length < limit)
      (calls : x'.calls = x.calls + 1) (seq : x'.seq = x.seq + 1) (id : r.id = x'.seq)
      (pending : x'.pending = x.pending ++
        [{ id := r.id, call := x.calls, generation := x'.generation }])
      (worker : x'.worker = some x'.generation)
      (same : x.pending ≠ [] → x'.generation = x.generation) :
      Moved limit x e { returned := x.calls, spawned, posted := some (x'.generation, r) } x'
  /-- The worker answers a call. -/
  | answered {m : ReadResponse ρ} {p : PendingCall} (found : p ∈ x.pending) (id : p.id = m.id)
      (generation : p.generation = x.generation) :
      Moved limit x (.message x.generation m) { settled := [(p.call, if m.ok then .ok m.result
        else .error (.error (m.error.getD "read failed")))] } (x.delete m.id)
  /-- All pending calls are rejected, and there is no worker afterwards. -/
  | dropped {e : Event α ρ} {reason : String} {terminated : Option Nat} {x' : Executor}
      (calls : x'.calls = x.calls) (pending : x'.pending = []) (seq : x'.seq = x.seq)
      (worker : x'.worker = none) :
      Moved limit x e { settled := Executor.rejectAll x.pending reason, terminated } x'

theorem ensure_spec (h : Tidy limit x) : x.ensure.worker = some x.ensure.generation ∧
    (x.pending ≠ [] → x.ensure.generation = x.generation) ∧
    ((x.ensure.worker = x.worker ∧ x.ensure.generation = x.generation) ∨ x.pending = []) ∧
    x.ensure.pending = x.pending ∧ x.ensure.seq = x.seq ∧ x.ensure.calls = x.calls := by
  unfold Executor.ensure
  cases hw : x.worker with
  | some w =>
    have hgen := h.worker w hw
    subst hgen
    exact ⟨hw, fun _ => rfl, .inl ⟨hw, rfl⟩, rfl, rfl, rfl⟩
  | none =>
    have hnone : x.pending = [] := by
      by_contra hne
      rw [h.live hne] at hw
      cases hw
    exact ⟨rfl, fun hne => absurd hnone hne, .inr hnone, rfl, rfl, rfl⟩

/-- The entry just added is the one deleted. -/
theorem filter_snoc_self {ps : List PendingCall} {p : PendingCall} (h : ∀ q ∈ ps, q.id ≠ p.id) :
    (ps ++ [p]).filter (fun q => q.id ≠ p.id) = ps := by
  rw [List.filter_append, List.filter_eq_self.mpr, List.filter_eq_nil_iff.mpr, List.append_nil]
  · intro q hq
    rw [List.mem_singleton.mp hq]
    simp
  · intro q hq
    simpa using h q hq

theorem fail_moved {g : Nat} {reason : String} (h : Tidy limit x)
    (hr : x.fail g reason = (eff, x')) : Moved limit x e eff x' := by
  unfold Executor.fail at hr
  split at hr
  · obtain ⟨rfl, rfl⟩ := Prod.mk.inj hr
    exact .idle
  · rename_i hg
    obtain rfl := not_not.mp hg
    have hall : x.pending.filter (fun p => p.generation = x.generation) = x.pending :=
      List.filter_eq_self.mpr fun p hp => by simpa using h.current p hp
    have hnone : x.pending.filter (fun p => p.generation ≠ x.generation) = [] :=
      List.filter_eq_nil_iff.mpr fun p hp => by simpa using h.current p hp
    rw [hall, hnone] at hr
    obtain ⟨rfl, rfl⟩ := Prod.mk.inj hr
    exact .dropped rfl rfl rfl rfl

theorem run_moved {method : ReadMethod} {args : Option α} {throws : Option String}
    (h : Tidy limit x) (hr : x.run limit method args throws = (eff, x')) :
    Moved limit x e eff x' := by
  unfold Executor.run at hr
  dsimp only at hr
  split at hr
  · obtain ⟨rfl, rfl⟩ := Prod.mk.inj hr
    exact .refused rfl rfl (Nat.le_refl _) (.inl ⟨rfl, rfl⟩)
  · split at hr
    · obtain ⟨rfl, rfl⟩ := Prod.mk.inj hr
      exact .refused rfl rfl (Nat.le_refl _) (.inl ⟨rfl, rfl⟩)
    · rename_i hroom
      have hcounted : Tidy limit { x with calls := x.calls + 1 } := ⟨h.1, h.2, h.3, h.4, h.5, h.6⟩
      obtain ⟨hworker, hsame, hor, hpending, hseq, hcalls⟩ := ensure_spec hcounted
      generalize Executor.ensure { x with calls := x.calls + 1 } = y at *
      -- Posting to the worker goes through, or throws, and then the call is taken out again.
      cases throws with
      | none =>
        dsimp only at hr
        rw [hworker, Option.map_some] at hr
        obtain ⟨rfl, hafter⟩ := Prod.mk.inj hr
        have hgen : y.generation = x'.generation := hafter ▸ rfl
        rw [hgen]
        refine .accepted ⟨y.seq + 1, method, args⟩ (Nat.not_le.mp hroom) ?_ ?_ ?_ ?_ ?_ ?_
        · rw [← hafter]
          exact hcalls
        · rw [← hafter, ← hseq]
        · rw [← hafter]
        · rw [← hafter, ← hpending]
        · rw [← hafter]
        · rw [← hgen]
          exact hsame
      | some err =>
        obtain ⟨rfl, rfl⟩ := Prod.mk.inj hr
        have hnew : ∀ q ∈ x.pending, q.id ≠ x.seq + 1 := by
          intro q hq heq
          have hle := h.issued q hq
          omega
        refine .refused hcalls ?_ ?_ ?_
        · dsimp only [Executor.delete]
          rw [hpending, hseq]
          exact filter_snoc_self (p := { id := x.seq + 1, call := x.calls, generation := _ }) hnew
        · dsimp only [Executor.delete]
          rw [hseq]
          exact Nat.le_succ _
        · exact hor.imp id fun hnone => ⟨hnone, hworker⟩

theorem onTimeout_moved {id : Nat} (hr : x.onTimeout id = (eff, x')) :
    Moved limit x e eff x' := by
  unfold Executor.onTimeout at hr
  split at hr
  · obtain ⟨rfl, rfl⟩ := Prod.mk.inj hr
    exact .dropped rfl rfl rfl rfl
  · obtain ⟨rfl, rfl⟩ := Prod.mk.inj hr
    exact .idle

theorem onMessage_moved {g : Nat} {m : ReadResponse ρ} (hr : x.onMessage g m = (eff, x')) :
    Moved limit x (.message g m) eff x' := by
  unfold Executor.onMessage at hr
  split at hr
  · obtain ⟨rfl, rfl⟩ := Prod.mk.inj hr
    exact .idle
  · rename_i hg
    obtain rfl := not_not.mp hg
    cases hfind : x.pending.find? fun p => p.id = m.id with
    | none =>
      rw [hfind] at hr
      obtain ⟨rfl, rfl⟩ := Prod.mk.inj hr
      exact .idle
    | some p =>
      rw [hfind] at hr
      dsimp only at hr
      split at hr
      · obtain ⟨rfl, rfl⟩ := Prod.mk.inj hr
        exact .idle
      · rename_i hgen
        obtain ⟨rfl, rfl⟩ := Prod.mk.inj hr
        have hid : p.id = m.id := by simpa using List.find?_some hfind
        exact .answered (List.mem_of_find?_eq_some hfind) hid (not_not.mp hgen)

/-- **What a step can do.** -/
theorem step_moved (h : Tidy limit x) (e : Event α ρ) :
    Moved limit x e (x.step limit e).1 (x.step limit e).2 := by
  cases e with
  | run method args throws => exact run_moved h rfl
  | message g m => exact onMessage_moved rfl
  | error g => exact fail_moved h rfl
  | exit g code => exact fail_moved h rfl
  | timeout id => exact onTimeout_moved rfl
  | close => exact .dropped rfl rfl rfl rfl

theorem Moved.tidy (h : Tidy limit x) (hm : Moved limit x e eff x') : Tidy limit x' := by
  cases hm with
  | idle => exact h
  | refused calls pending seq worker =>
    refine ⟨pending ▸ h.ids, fun p hp => Nat.le_trans (h.issued p (pending ▸ hp)) seq,
      pending ▸ h.few, ?_, ?_, ?_⟩
    · -- The worker is the one there was, or nothing waits.
      intro p hp
      rw [pending] at hp
      rcases worker with ⟨-, hgen⟩ | ⟨hnone, -⟩
      · rw [hgen]
        exact h.current p hp
      · rw [hnone] at hp
        cases hp
    · intro hne
      rw [pending] at hne
      rcases worker with ⟨hw, hgen⟩ | ⟨-, hw⟩
      · rw [hw, hgen]
        exact h.live hne
      · exact hw
    · intro w hw
      rcases worker with ⟨hsame, hgen⟩ | ⟨-, hnew⟩
      · rw [hgen]
        exact h.worker w (hsame ▸ hw)
      · rw [hnew] at hw
        exact (Option.some.inj hw).symm
  | accepted r room calls seq id pending worker same =>
    -- Ids are counted up, so every call that waits has a smaller one.
    have hbefore (p : PendingCall) (hp : p ∈ x.pending) : p.id < r.id := by
      have hle := h.issued p hp
      omega
    refine ⟨?_, ?_, ?_, ?_, fun _ => worker, ?_⟩
    · rw [pending, List.map_append, List.nodup_append]
      refine ⟨h.ids, List.nodup_singleton _, ?_⟩
      intro a ha b hb hab
      obtain ⟨p, hp, rfl⟩ := List.mem_map.mp ha
      rw [List.map_singleton, List.mem_singleton] at hb
      exact absurd (hab.trans hb) (Nat.ne_of_lt (hbefore p hp))
    · intro p hp
      rw [pending, List.mem_append, List.mem_singleton] at hp
      rcases hp with hp | rfl
      · have hlt := hbefore p hp
        omega
      · exact Nat.le_of_eq id
    · rw [pending, List.length_append]
      exact room
    · intro p hp
      rw [pending, List.mem_append, List.mem_singleton] at hp
      rcases hp with hp | rfl
      · rw [same (List.ne_nil_of_mem hp)]
        exact h.current p hp
      · rfl
    · intro w hw
      rw [worker] at hw
      exact (Option.some.inj hw).symm
  | @answered m p found id generation =>
    have hsub : (x.delete m.id).pending.Sublist x.pending := List.filter_sublist
    refine ⟨h.ids.sublist (hsub.map _), ?_, Nat.le_trans hsub.length_le h.few, ?_, ?_, h.worker⟩
    · intro p hp
      exact h.issued p (hsub.subset hp)
    · intro p hp
      exact h.current p (hsub.subset hp)
    · intro _
      exact h.live (List.ne_nil_of_mem found)
  | dropped calls pending seq worker =>
    refine ⟨?_, ?_, ?_, ?_, ?_, ?_⟩
    · rw [pending]
      exact List.nodup_nil
    · intro p hp
      rw [pending] at hp
      cases hp
    · rw [pending]
      exact Nat.zero_le _
    · intro p hp
      rw [pending] at hp
      cases hp
    · intro hne
      exact absurd pending hne
    · intro w hw
      rw [worker] at hw
      cases hw

/-! ## Settled once -/

/-- What is recorded of a run: its events, with their effects. -/
abbrev Log (α ρ : Type) := List (Event α ρ × Effects α ρ)

/-- Every settlement of a run, in order. -/
def settlements (log : Log α ρ) : List (Nat × Outcome ρ) := log.flatMap fun entry => entry.2.settled

/-- The calls settled and the calls pending are the calls made. -/
def Accounted (log : Log α ρ) (x : Executor) : Prop :=
  ((settlements log).map Prod.fst ++ x.pending.map (·.call)).Perm (List.range x.calls)

/-- Taking out the entry of an id takes out one call. -/
theorem perm_delete {ps : List PendingCall} {p : PendingCall} (hids : (ps.map (·.id)).Nodup)
    (hp : p ∈ ps) : (p :: ps.filter fun q => q.id ≠ p.id).Perm ps := by
  induction ps with
  | nil => cases hp
  | cons q ps ih =>
    rw [List.map_cons, List.nodup_cons] at hids
    obtain ⟨hq, hids⟩ := hids
    rcases List.mem_cons.mp hp with rfl | hp
    · have hrest : ps.filter (fun q => q.id ≠ p.id) = ps := by
        refine List.filter_eq_self.mpr fun q' hq' => ?_
        have hne : q'.id ≠ p.id := fun heq => hq (heq ▸ List.mem_map_of_mem hq')
        simpa using hne
      rw [List.filter_cons_of_neg (by simp), hrest]
    · have hne : q.id ≠ p.id := fun heq => hq (heq ▸ List.mem_map_of_mem hp)
      rw [List.filter_cons_of_pos (by simpa using hne)]
      exact (List.Perm.swap q p _).trans ((ih hids hp).cons q)

theorem Accounted.step {log : Log α ρ} (h : Tidy limit x) (ha : Accounted log x)
    (hm : Moved limit x e eff x') : Accounted (log ++ [(e, eff)]) x' := by
  have hone : settlements (log ++ [(e, eff)]) = settlements log ++ eff.settled := by
    simp [settlements]
  unfold Accounted at ha ⊢
  rw [hone, List.map_append, List.append_assoc]
  cases hm with
  | idle =>
    rw [List.map_nil, List.nil_append]
    exact ha
  | refused calls pending =>
    rw [calls, pending, List.range_succ, List.map_singleton]
    refine (List.Perm.append_left _ List.perm_append_comm).trans ?_
    rw [← List.append_assoc]
    exact ha.append_right _
  | accepted r room calls seq id pending =>
    rw [calls, pending, List.range_succ, List.map_nil, List.nil_append, List.map_append,
      ← List.append_assoc]
    exact ha.append_right _
  | @answered m p found id =>
    have hperm :
      (p.call :: (x.delete m.id).pending.map (·.call)).Perm (x.pending.map (·.call)) := by
      rw [← id]
      exact (perm_delete h.ids found).map _
    rw [List.map_singleton, List.singleton_append]
    exact (hperm.append_left _).trans ha
  | dropped calls pending =>
    have hcalls (reason : String) : (Executor.rejectAll (ρ := ρ) x.pending reason).map Prod.fst =
        x.pending.map (·.call) := by
      rw [Executor.rejectAll, List.map_map]
      rfl
    rw [calls, pending, hcalls, List.map_nil, List.append_nil]
    exact ha

/-! ## Who was asked -/

/-- The run call that returned this promise posted a request under this id to this worker. -/
def Posted (log : Log α ρ) (call g id : Nat) : Prop :=
  ∃ entry ∈ log, entry.2.returned = some call ∧ ∃ r, entry.2.posted = some (g, r) ∧ r.id = id

/-- Whatever is pending was posted, to the worker of its generation and under its id. -/
def Asked (log : Log α ρ) (x : Executor) : Prop :=
  ∀ p ∈ x.pending, Posted log p.call p.generation p.id

theorem Posted.mono {log log' : Log α ρ} {call g id : Nat} (h : Posted log call g id)
    (hsub : log ⊆ log') : Posted log' call g id := by
  obtain ⟨entry, hmem, hrest⟩ := h
  exact ⟨entry, hsub hmem, hrest⟩

theorem Asked.step {log : Log α ρ} (ha : Asked log x) (hm : Moved limit x e eff x') :
    Asked (log ++ [(e, eff)]) x' := by
  have hkept (p : PendingCall) (hp : p ∈ x.pending) :
      Posted (log ++ [(e, eff)]) p.call p.generation p.id :=
    (ha p hp).mono (List.subset_append_left _ _)
  intro p hp
  cases hm with
  | idle => exact hkept p hp
  | refused calls pending => exact hkept p (pending ▸ hp)
  | accepted r room calls seq id pending =>
    rw [pending, List.mem_append, List.mem_singleton] at hp
    rcases hp with hp | rfl
    · exact hkept p hp
    · exact ⟨_, List.mem_append_right _ List.mem_cons_self, rfl, r, rfl, rfl⟩
  | answered => exact hkept p (List.mem_filter.mp hp).1
  | dropped calls pending =>
    rw [pending] at hp
    cases hp

/-- A call is resolved by a message alone: of the worker it was posted to, for its own id. -/
def Resolves (log : Log α ρ) (e : Event α ρ) (call : Nat) (v : Option ρ) : Prop :=
  ∃ g m, e = .message g m ∧ m.ok = true ∧ m.result = v ∧ Posted log call g m.id

theorem Moved.resolves {log : Log α ρ} (ha : Asked log x) (hm : Moved limit x e eff x')
    {call : Nat} {v : Option ρ} (h : (call, .ok v) ∈ eff.settled) : Resolves log e call v := by
  cases hm with
  | idle => cases h
  | refused =>
    rw [List.mem_singleton] at h
    cases h
  | accepted => cases h
  | @answered m p found id generation =>
    rw [List.mem_singleton, Prod.mk.injEq] at h
    obtain ⟨rfl, hv⟩ := h
    split at hv
    · rename_i hok
      refine ⟨_, m, rfl, hok, (Except.ok.inj hv).symm, ?_⟩
      rw [← id, ← generation]
      exact ha p found
    · cases hv
  | dropped =>
    obtain ⟨p, -, hp⟩ := List.mem_map.mp h
    cases hp

/-! ## Live workers -/

/-- The step neither ends a worker nor tells of its end. -/
structure Spares (g : Nat) (entry : Event α ρ × Effects α ρ) : Prop where
  sound : entry.1 ≠ .error g
  running : ∀ code, entry.1 ≠ .exit g code
  wanted : entry.2.terminated ≠ some g

/-- The worker was spawned, and has been spared since. -/
def Alive (log : Log α ρ) (g : Nat) : Prop :=
  ∃ before entry after, log = before ++ entry :: after ∧ entry.2.spawned = some g ∧
    ∀ late ∈ after, Spares g late

theorem Alive.snoc {log : Log α ρ} {g : Nat} (h : Alive log g) {entry : Event α ρ × Effects α ρ}
    (hspares : Spares g entry) : Alive (log ++ [entry]) g := by
  obtain ⟨before, spawning, after, rfl, hspawned, hafter⟩ := h
  refine ⟨before, spawning, after ++ [entry], by simp, hspawned, fun late hlate => ?_⟩
  rcases List.mem_append.mp hlate with hlate | hlate
  · exact hafter late hlate
  · rw [List.mem_singleton.mp hlate]
    exact hspares

/-- Where there is a worker after an error or an exit, it was not the worker's own. -/
theorem fail_worker {g w : Nat} {reason : String} (h : Tidy limit x)
    (hr : x.fail g reason = (eff, x')) (hw : x'.worker = some w) :
    x.worker = some w ∧ g ≠ w ∧ eff.terminated = none := by
  unfold Executor.fail at hr
  split at hr
  · rename_i hg
    obtain ⟨rfl, rfl⟩ := Prod.mk.inj hr
    refine ⟨hw, ?_, rfl⟩
    rw [h.worker w hw]
    exact hg
  · obtain ⟨rfl, rfl⟩ := Prod.mk.inj hr
    cases hw

theorem run_worker {w : Nat} {method : ReadMethod} {args : Option α} {throws : Option String}
    (hr : x.run limit method args throws = (eff, x')) (hw : x'.worker = some w) :
    (eff.spawned = some w ∨ x.worker = some w) ∧ eff.terminated = none := by
  have hensure (y : Executor) (hy : y.ensure.worker = some w) :
      y.spawns = some w ∨ y.worker = some w := by
    unfold Executor.ensure at hy
    unfold Executor.spawns
    cases hworker : y.worker with
    | none =>
      rw [hworker] at hy
      exact .inl hy
    | some w' =>
      rw [hworker] at hy
      exact .inr (hworker.symm.trans hy)
  unfold Executor.run at hr
  dsimp only at hr
  split at hr
  · obtain ⟨rfl, rfl⟩ := Prod.mk.inj hr
    exact ⟨.inr hw, rfl⟩
  · split at hr
    · obtain ⟨rfl, rfl⟩ := Prod.mk.inj hr
      exact ⟨.inr hw, rfl⟩
    · cases throws with
      | none =>
        obtain ⟨rfl, rfl⟩ := Prod.mk.inj hr
        exact ⟨hensure { x with calls := x.calls + 1 } hw, rfl⟩
      | some err =>
        obtain ⟨rfl, rfl⟩ := Prod.mk.inj hr
        exact ⟨hensure { x with calls := x.calls + 1 } hw, rfl⟩

theorem onMessage_worker {g : Nat} {m : ReadResponse ρ} (hr : x.onMessage g m = (eff, x')) :
    x'.worker = x.worker ∧ eff.terminated = none := by
  unfold Executor.onMessage at hr
  split at hr
  · obtain ⟨rfl, rfl⟩ := Prod.mk.inj hr
    exact ⟨rfl, rfl⟩
  · split at hr
    · obtain ⟨rfl, rfl⟩ := Prod.mk.inj hr
      exact ⟨rfl, rfl⟩
    · split at hr <;> obtain ⟨rfl, rfl⟩ := Prod.mk.inj hr <;> exact ⟨rfl, rfl⟩

theorem onTimeout_worker {id w : Nat} (hr : x.onTimeout id = (eff, x')) (hw : x'.worker = some w) :
    x.worker = some w ∧ eff.terminated = none := by
  unfold Executor.onTimeout at hr
  split at hr
  · obtain ⟨rfl, rfl⟩ := Prod.mk.inj hr
    cases hw
  · obtain ⟨rfl, rfl⟩ := Prod.mk.inj hr
    exact ⟨hw, rfl⟩

/-- **Where the worker after a step comes from**: the step has spawned it, or spared it. -/
theorem step_worker (h : Tidy limit x) (e : Event α ρ) {w : Nat}
    (hw : (x.step limit e).2.worker = some w) :
    (x.step limit e).1.spawned = some w ∨
      x.worker = some w ∧ Spares w (e, (x.step limit e).1) := by
  have hspares (hnone : (x.step limit e).1.terminated = none) :
      (x.step limit e).1.terminated ≠ some w := by
    rw [hnone]
    simp
  cases e with
  | run method args throws =>
    obtain ⟨hw, hnone⟩ := run_worker rfl hw
    exact hw.imp id fun hw => ⟨hw, by simp, by simp, hspares hnone⟩
  | message g m =>
    obtain ⟨hsame, hnone⟩ := onMessage_worker rfl
    exact .inr ⟨hsame ▸ hw, by simp, by simp, hspares hnone⟩
  | error g =>
    obtain ⟨hw, hne, hnone⟩ := fail_worker h rfl hw
    exact .inr ⟨hw, by simpa using hne, by simp, hspares hnone⟩
  | exit g code =>
    obtain ⟨hw, hne, hnone⟩ := fail_worker h rfl hw
    exact .inr ⟨hw, by simp, fun _ => by simp [hne], hspares hnone⟩
  | timeout id =>
    obtain ⟨hw, hnone⟩ := onTimeout_worker rfl hw
    exact .inr ⟨hw, by simp, by simp, hspares hnone⟩
  | close => cases hw

/-! ## Closing -/

/-- What a `close` leaves for good. -/
structure Shut (x : Executor) : Prop where
  closed : x.closed = true
  worker : x.worker = none
  pending : x.pending = []

theorem Shut.step (h : Shut x) (e : Event α ρ) : Shut (x.step limit e).2 := by
  obtain ⟨worker, generation, seq, pending, closed, calls⟩ := x
  obtain ⟨rfl, rfl, rfl⟩ := h
  cases e with
  | run method args throws => exact ⟨rfl, rfl, rfl⟩
  | message g m =>
    simp only [Executor.step, Executor.onMessage, List.find?_nil]
    split <;> exact ⟨rfl, rfl, rfl⟩
  | error g =>
    simp only [Executor.step, Executor.fail]
    split <;> exact ⟨rfl, rfl, rfl⟩
  | exit g code =>
    simp only [Executor.step, Executor.fail]
    split <;> exact ⟨rfl, rfl, rfl⟩
  | timeout id => exact ⟨rfl, rfl, rfl⟩
  | close => exact ⟨rfl, rfl, rfl⟩

/-! ## Whole runs -/

/-- Everything a run keeps. -/
structure Kept (limit : Nat) (log : Log α ρ) (x : Executor) : Prop where
  tidy : Tidy limit x
  alive : ∀ w, x.worker = some w → Alive log w
  shut : (∃ entry ∈ log, entry.1 = .close) → Shut x
  accounted : Accounted log x
  asked : Asked log x
  resolved : ∀ before entry after, log = before ++ entry :: after → ∀ call v,
    (call, .ok v) ∈ entry.2.settled → Resolves before entry.1 call v

theorem kept_initial : Kept (α := α) (ρ := ρ) limit [] {} where
  tidy := {
    ids := List.nodup_nil
    issued := nofun
    few := Nat.zero_le _
    current := nofun
    live := fun h => absurd rfl h
    worker := nofun }
  alive := nofun
  shut := by simp
  accounted := List.Perm.refl _
  asked := nofun
  resolved before entry after h := by simp at h

theorem Kept.step {log : Log α ρ} (h : Kept limit log x) (e : Event α ρ) :
    Kept limit (log ++ [(e, (x.step limit e).1)]) (x.step limit e).2 := by
  have hm := step_moved h.tidy e
  refine ⟨hm.tidy h.tidy, fun w hw => ?_, ?_, h.accounted.step h.tidy hm, h.asked.step hm, ?_⟩
  · rcases step_worker h.tidy e hw with hspawned | ⟨hold, hspares⟩
    · exact ⟨log, _, [], rfl, hspawned, by simp⟩
    · exact (h.alive w hold).snoc hspares
  · rintro ⟨entry, hmem, hclose⟩
    rcases List.mem_append.mp hmem with hmem | hmem
    · exact (h.shut ⟨entry, hmem, hclose⟩).step e
    · rw [List.mem_singleton.mp hmem] at hclose
      obtain rfl : e = .close := hclose
      exact ⟨rfl, rfl, rfl⟩
  intro before entry after hlog call v hsettled
  -- The entry is the new one, or it was there already.
  rcases List.eq_nil_or_concat after with rfl | ⟨after, last, rfl⟩
  · obtain ⟨rfl, hentry⟩ := List.append_inj' hlog rfl
    obtain rfl := List.singleton_inj.mp hentry
    exact hm.resolves h.asked hsettled
  · rw [List.concat_eq_append, ← List.cons_append, ← List.append_assoc] at hlog
    obtain ⟨hold, -⟩ := List.append_inj' hlog rfl
    exact h.resolved before entry after hold call v hsettled

/-- The worker an event is of. -/
def Event.of : Event α ρ → Option Nat
  | .message g _ | .error g | .exit g _ => some g
  | _ => none

/-- An event of another worker than the current one does nothing. -/
theorem Tidy.ignores (h : Tidy limit x) {g : Nat} (hof : e.of = some g) (hold : x.worker ≠ some g) :
    x.step limit e = ({}, x) := by
  have hempty (hg : g = x.generation) : x.pending = [] := by
    by_contra hne
    exact hold (hg ▸ h.live hne)
  have hnone (hg : g = x.generation) : x.worker = none := by
    cases hw : x.worker with
    | none => rfl
    | some w => exact absurd (hw.trans (congrArg some ((h.worker w hw).trans hg.symm))) hold
  -- The generation is over: nothing waits for it and it has no worker.
  have hfail (reason : String) : x.fail (α := α) (ρ := ρ) g reason = ({}, x) := by
    unfold Executor.fail
    split
    · rfl
    · rename_i hg
      have hg := not_not.mp hg
      have hp := hempty hg
      have hw := hnone hg
      obtain ⟨worker, generation, seq, pending, closed, calls⟩ := x
      subst hp hw
      rfl
  cases e with
  | message g' m =>
    obtain rfl := Option.some.inj hof
    simp only [Executor.step, Executor.onMessage]
    split
    · rfl
    · rename_i hg
      rw [hempty (not_not.mp hg)]
      rfl
  | error g' =>
    obtain rfl := Option.some.inj hof
    exact hfail _
  | exit g' code =>
    obtain rfl := Option.some.inj hof
    exact hfail _
  | _ => cases hof

/-- The timer of a pending call settles it. -/
theorem timeout_settles {p : PendingCall} (hp : p ∈ x.pending) :
    p.call ∈ (x.step (α := α) (ρ := ρ) limit (.timeout p.id)).1.settled.map Prod.fst ∧
      (x.step (α := α) (ρ := ρ) limit (.timeout p.id)).2.pending = [] := by
  have hhas : x.has p.id = true := List.any_eq_true.mpr ⟨p, hp, by simp⟩
  simp only [Executor.step, Executor.onTimeout, hhas, if_true, Executor.replaceWorker,
    Executor.rejectAll, List.map_map, and_true]
  exact List.mem_map.mpr ⟨p, hp, rfl⟩

/-- **The protocol of the read worker.** After any events in any order: every call of `run` is
    pending, or has been settled exactly once, and its timer settles what is pending; a call was
    resolved only with what the worker it was posted to posted for its id; at most `limit` calls are
    pending, all of the current generation, posted to the current worker, which is alive; after a
    `close` there is neither a call nor a worker; and an event of a worker that is not the current
    one does nothing. -/
theorem calls_settle_once {log : Log α ρ} (h : Run (Executor.step limit) Any {} log x) :
    (∀ call < x.calls, ((settlements log).map Prod.fst).count call =
      if ∃ p ∈ x.pending, p.call = call then 0 else 1) ∧
    (∀ p ∈ x.pending,
      p.call ∈ (x.step (α := α) (ρ := ρ) limit (.timeout p.id)).1.settled.map Prod.fst) ∧
    (∀ before entry after, log = before ++ entry :: after → ∀ call v,
      (call, .ok v) ∈ entry.2.settled → Resolves before entry.1 call v) ∧
    x.pending.length ≤ limit ∧
    (∀ p ∈ x.pending, p.generation = x.generation ∧ x.worker = some p.generation ∧
      Posted log p.call p.generation p.id ∧ Alive log p.generation) ∧
    ((∃ entry ∈ log, entry.1 = .close) → x.pending = [] ∧ x.worker = none) ∧
    ∀ (e : Event α ρ) (g : Nat), e.of = some g → x.worker ≠ some g → x.step limit e = ({}, x) := by
  have hkept : Kept limit log x := h.invariant_log kept_initial fun log x e hk _ => hk.step e
  refine ⟨?_, fun p hp => (timeout_settles hp).1, hkept.resolved, hkept.tidy.few, ?_,
    fun hclosed => ⟨(hkept.shut hclosed).pending, (hkept.shut hclosed).worker⟩, fun e g hof hold =>
      hkept.tidy.ignores hof hold⟩
  · intro call hcall
    -- Every call made is settled or waits, and that once.
    have hcount := hkept.accounted.count_eq call
    rw [List.count_append, List.count_eq_one_of_mem List.nodup_range (List.mem_range.mpr hcall)]
      at hcount
    split
    · rename_i hpending
      obtain ⟨p, hp, rfl⟩ := hpending
      have hpos : 0 < (x.pending.map (·.call)).count p.call :=
        List.count_pos_iff.mpr (List.mem_map_of_mem hp)
      omega
    · rename_i hdone
      have hzero : (x.pending.map (·.call)).count call = 0 :=
        List.count_eq_zero.mpr fun hmem => hdone (List.mem_map.mp hmem)
      omega
  · intro p hp
    have hgen := hkept.tidy.current p hp
    have hworker := hkept.tidy.live (List.ne_nil_of_mem hp)
    refine ⟨hgen, hgen ▸ hworker, hkept.asked p hp, ?_⟩
    rw [hgen]
    exact hkept.alive _ hworker

/-- Two calls, the second of which the worker answers. The first runs into its timeout, and the
    worker's late answer to it comes to nothing. -/
def answeredAndTimedOut : List (Event Unit String) :=
  [ .run .sessions none none, .run .health none none,
    .message 1 { id := 2, ok := true, result := some "fine" },
    .timeout 1,
    .message 1 { id := 1, ok := true, result := some "late" } ]

/-- Both calls are settled, each once. -/
theorem answered_and_timed_out_once :
    let log := (runAll (Executor.step 64) {} answeredAndTimedOut).1
    settlements log =
      [(1, .ok (some "fine")), (0, .error (.error "read timed out"))] ∧
    ∀ call < 2, ((settlements log).map Prod.fst).count call = 1 := by
  intro log
  refine ⟨by decide, ?_⟩
  intro call hcall
  have hrun := (calls_settle_once (Run.of_events (Executor.step 64) {} answeredAndTimedOut)).1 call
    hcall
  exact hrun

end ReadWorker
end XBus
