import Mathlib.Tactic.Common

/-!
# Runs of a deterministic system

A system is a step function `step : σ → ι → ο × σ`: the state and the next event determine
what is answered and the next state. All the nondeterminism of a real run (who speaks
next, what the clock says, what the operating system answers) is in the choice of events.

`Run step ok s tr t` says that from `s` the events of `tr` lead to `t`, each event being
admitted by `ok` in the state it meets, with `tr` recording every event together with its
answer, **oldest first**. The guard is how a conditional guarantee is stated: "in every run
all of whose steps satisfy the condition". `Any` is no condition at all.

The two induction rules are `Run.invariant`, for a property of states, and
`Run.invariant_log`, for a property of the state and of everything answered so far.
-/

set_option autoImplicit false

namespace XBus
namespace Lib

variable {σ ι ο : Type}

/-- No condition on the events of a run. -/
def Any : σ → ι → Prop := fun _ _ => True

/-- From the first state, the recorded events lead to the last one. -/
inductive Run (step : σ → ι → ο × σ) (ok : σ → ι → Prop) (s : σ) :
    List (ι × ο) → σ → Prop
  | nil : Run step ok s [] s
  | snoc {tr : List (ι × ο)} {t : σ} (run : Run step ok s tr t) (i : ι) (admitted : ok t i) :
      Run step ok s (tr ++ [(i, (step t i).1)]) (step t i).2

namespace Run

variable {step : σ → ι → ο × σ} {ok : σ → ι → Prop}

/-- A run under a condition is a run under any weaker one. -/
theorem mono {ok' : σ → ι → Prop} (h : ∀ s i, ok s i → ok' s i) {s t : σ} {tr : List (ι × ο)}
    (r : Run step ok s tr t) : Run step ok' s tr t := by
  induction r with
  | nil => exact .nil
  | snoc _ i hi ih => exact .snoc ih i (h _ _ hi)

theorem any {s t : σ} {tr : List (ι × ο)} (r : Run step ok s tr t) : Run step Any s tr t :=
  r.mono fun _ _ _ => trivial

theorem append {s t u : σ} {tr tr' : List (ι × ο)} (r : Run step ok s tr t)
    (r' : Run step ok t tr' u) : Run step ok s (tr ++ tr') u := by
  induction r' with
  | nil => simpa using r
  | snoc _ i hi ih =>
    rw [← List.append_assoc]
    exact .snoc ih i hi

/-- A property that holds at the start and that every admitted step keeps. -/
theorem invariant {P : σ → Prop} {s t : σ} {tr : List (ι × ο)} (r : Run step ok s tr t)
    (hs : P s) (hstep : ∀ u i, P u → ok u i → P (step u i).2) : P t := by
  induction r with
  | nil => exact hs
  | snoc _ i hi ih => exact hstep _ i ih hi

/-- As `invariant`, for a property that also speaks about the answers given so far. -/
theorem invariant_log {P : List (ι × ο) → σ → Prop} {s t : σ} {tr : List (ι × ο)}
    (r : Run step ok s tr t) (hs : P [] s)
    (hstep : ∀ tr u i, P tr u → ok u i → P (tr ++ [(i, (step u i).1)]) (step u i).2) :
    P tr t := by
  induction r with
  | nil => exact hs
  | snoc _ i hi ih => exact hstep _ _ i ih hi

end Run

/-! ## History variables

A condition on a run may depend on its past. The past is then carried along beside the state,
in a record that every step updates and no step reads. -/

section History

variable {η : Type} {step : σ → ι → ο × σ} {note : η → σ → ι → ο → σ → η}

/-- The system together with a record of its past. -/
def recording (step : σ → ι → ο × σ) (note : η → σ → ι → ο → σ → η) (p : σ × η) (i : ι) :
    ο × (σ × η) :=
  ((step p.1 i).1, (step p.1 i).2, note p.2 p.1 i (step p.1 i).1 (step p.1 i).2)

end History

/-! ## Running a list of events

For concrete runs: the events are given, the answers are computed. -/

/-- The answers and the last state of a run over the given events. -/
def runAll (step : σ → ι → ο × σ) (s : σ) : List ι → List (ι × ο) × σ
  | [] => ([], s)
  | i :: is =>
    let r := runAll step (step s i).2 is
    ((i, (step s i).1) :: r.1, r.2)

/-- Every event meets the condition in the state it meets. -/
def Admitted (step : σ → ι → ο × σ) (ok : σ → ι → Prop) : σ → List ι → Prop
  | _, [] => True
  | s, i :: is => ok s i ∧ Admitted step ok (step s i).2 is

instance Admitted.decidable (step : σ → ι → ο × σ) (ok : σ → ι → Prop)
    [∀ s i, Decidable (ok s i)] : ∀ (s : σ) (is : List ι), Decidable (Admitted step ok s is)
  | _, [] => inferInstanceAs (Decidable True)
  | s, i :: is =>
    have := Admitted.decidable step ok (step s i).2 is
    inferInstanceAs (Decidable (ok s i ∧ Admitted step ok (step s i).2 is))

/-- What every event meets in any state. -/
theorem Admitted.of_forall {step : σ → ι → ο × σ} {ok : σ → ι → Prop} {is : List ι}
    (h : ∀ i ∈ is, ∀ s, ok s i) (s : σ) : Admitted step ok s is := by
  induction is generalizing s with
  | nil => trivial
  | cons i is ih =>
    exact ⟨h i List.mem_cons_self s, ih (fun j hj => h j (List.mem_cons_of_mem i hj)) _⟩

theorem Run.of_runAll {step : σ → ι → ο × σ} {ok : σ → ι → Prop} :
    ∀ (is : List ι) {s : σ}, Admitted step ok s is →
      Run step ok s (runAll step s is).1 (runAll step s is).2
  | [], _, _ => .nil
  | i :: is, s, h => by
    have first : Run step ok s [(i, (step s i).1)] (step s i).2 := .snoc .nil i h.1
    exact first.append (Run.of_runAll is h.2)

/-- Without a condition every list of events is a run. -/
theorem Run.of_events (step : σ → ι → ο × σ) (s : σ) (is : List ι) :
    Run step Any s (runAll step s is).1 (runAll step s is).2 :=
  Run.of_runAll is (.of_forall (fun _ _ _ => trivial) s)

end Lib
end XBus
