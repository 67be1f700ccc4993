import XBus.Lib.Files

/-!
# `Lib/Answers.lean` — when a call answers

`AnswersIff C Q x s` is a specification of one call from one state in both directions: it answers
exactly when `C` holds of the state and the input, and where it answers, `Q` holds of the answer and
the state it leaves. A program is specified by the rule for `bind`, one step after another: its
condition is the conjunction of the conditions of its steps, as long as what a step leaves is known
well enough that the condition of the next can be written before running it.
-/

set_option autoImplicit false

namespace XBus
namespace Lib

theorem Call.bind_assoc {σ ε α β γ : Type} (x : Call σ ε α) (f : α → Call σ ε β)
    (g : β → Call σ ε γ) : (x >>= f) >>= g = x >>= fun a => f a >>= g := by
  funext s
  rcases hx : x s with ⟨e | a, t⟩
  · rw [Call.bind_of_error (Call.bind_of_error hx), Call.bind_of_error hx]
  · rw [Call.bind_of_ok hx]
    rcases hf : f a t with ⟨e | b, u⟩
    · rw [Call.bind_of_error hf, Call.bind_of_error ((Call.bind_of_ok hx).trans hf)]
    · rw [Call.bind_of_ok hf, Call.bind_of_ok ((Call.bind_of_ok hx).trans hf)]

/-- From `s` the call answers exactly when `C` holds, and then as `Q` says. -/
structure AnswersIff {σ ε α : Type} (C : Prop) (Q : α → σ → Prop) (x : Call σ ε α) (s : σ) :
    Prop where
  answers : C → ∃ a t, x s = (.ok a, t) ∧ Q a t
  refuses : ¬ C → ∃ e t, x s = (.error e, t)

namespace AnswersIff

variable {σ τ ε α β : Type} {C D : Prop} {Q P : α → σ → Prop} {R : β → σ → Prop}
  {x : Call σ ε α} {s : σ}

theorem of_ok {a : α} {t : σ} (h : AnswersIff C Q x s) (hx : x s = (.ok a, t)) : C ∧ Q a t := by
  by_cases hC : C
  · obtain ⟨b, u, hb, hQ⟩ := h.answers hC
    rw [hx] at hb
    obtain ⟨hab, rfl⟩ := Prod.mk.inj hb
    cases hab
    exact ⟨hC, hQ⟩
  · obtain ⟨e, u, he⟩ := h.refuses hC
    rw [hx] at he
    cases (Prod.mk.inj he).1

theorem mono (h : AnswersIff C P x s) (hQ : ∀ a t, P a t → Q a t) : AnswersIff C Q x s where
  answers hC := by
    obtain ⟨a, t, hx, hP⟩ := h.answers hC
    exact ⟨a, t, hx, hQ a t hP⟩
  refuses := h.refuses

theorem congr (h : AnswersIff C Q x s) (hC : D ↔ C) : AnswersIff D Q x s where
  answers h' := h.answers (hC.mp h')
  refuses h' := h.refuses fun hc => h' (hC.mpr hc)

theorem bind {f : α → Call σ ε β} (hx : AnswersIff C Q x s)
    (hf : ∀ a t, Q a t → AnswersIff D R (f a) t) : AnswersIff (C ∧ D) R (x >>= f) s where
  answers := by
    rintro ⟨hC, hC'⟩
    obtain ⟨a, t, hxs, hQ⟩ := hx.answers hC
    rw [Call.bind_of_ok hxs]
    exact (hf a t hQ).answers hC'
  refuses := by
    intro hn
    by_cases hC : C
    · obtain ⟨a, t, hxs, hQ⟩ := hx.answers hC
      rw [Call.bind_of_ok hxs]
      exact (hf a t hQ).refuses fun hC' => hn ⟨hC, hC'⟩
    · obtain ⟨e, t, hxs⟩ := hx.refuses hC
      rw [Call.bind_of_error hxs]
      exact ⟨e, t, rfl⟩

theorem pure (a : α) : AnswersIff True (fun b t => b = a ∧ t = s) (Pure.pure a : Call σ ε α) s where
  answers _ := ⟨a, s, rfl, rfl, rfl⟩
  refuses h := absurd trivial h

/-- A step that cannot fail adds nothing to the condition of what follows. -/
theorem after {f : α → Call σ ε β} {a : α} {t : σ} (hx : x s = (.ok a, t))
    (hf : AnswersIff D R (f a) t) : AnswersIff D R (x >>= f) s where
  answers h := by
    rw [Call.bind_of_ok hx]
    exact hf.answers h
  refuses h := by
    rw [Call.bind_of_ok hx]
    exact hf.refuses h

theorem require (c : Prop) [Decidable c] (e : ε) :
    AnswersIff c (fun _ t => t = s) (Call.require c e : Call σ ε Unit) s where
  answers h := ⟨(), s, by simp [Call.require, h], rfl⟩
  refuses h := ⟨e, s, by simp [Call.require, h]⟩

/-- A test that is known to pass. -/
theorem pass {c : Prop} [Decidable c] {e : ε} {f : Unit → Call σ ε β} (hc : c)
    (hf : AnswersIff D R (f ()) s) : AnswersIff D R (Call.require c e >>= f) s :=
  after (a := ()) (t := s) (Call.require_ok.mpr ⟨hc, rfl⟩) hf

/-- Against a part of a larger store. -/
theorem zoom {part : τ → σ} {put : τ → σ → τ} {t : τ} (h : AnswersIff C Q x (part t)) :
    AnswersIff C (fun a t' => ∃ s', Q a s' ∧ t' = put t s') (Call.zoom part put id x) t where
  answers hC := by
    obtain ⟨a, s', hx, hQ⟩ := h.answers hC
    refine ⟨a, put t s', ?_, s', hQ, rfl⟩
    simp only [Call.zoom, hx]
    rfl
  refuses hC := by
    obtain ⟨e, s', hx⟩ := h.refuses hC
    refine ⟨e, put t s', ?_⟩
    simp only [Call.zoom, hx]
    rfl

theorem attempt {π κ ω : Type} [DecidableEq π] (φ : Faults κ ω ε) (op : ω) (p : π)
    (f : Drive π κ ω → Drive π κ ω) (d : Drive π κ ω) :
    AnswersIff (φ op = none) (fun _ d' => d' = f d) (Drive.attempt φ op p f) d where
  answers h := ⟨(), f d, by simp [Drive.attempt, h], rfl⟩
  refuses h := by
    obtain ⟨m, hm⟩ := Option.ne_none_iff_exists'.mp h
    exact ⟨m.error, _, by simp [Drive.attempt, hm]; rfl⟩

theorem attemptAtomic {π κ ω : Type} (φ : Faults κ ω ε) (op : ω)
    (f : Drive π κ ω → Drive π κ ω) (d : Drive π κ ω) :
    AnswersIff (φ op = none) (fun _ d' => d' = f d) (Drive.attemptAtomic φ op f) d where
  answers h := ⟨(), f d, by simp [Drive.attemptAtomic, h], rfl⟩
  refuses h := by
    obtain ⟨m, hm⟩ := Option.ne_none_iff_exists'.mp h
    exact ⟨m.error, _, by simp [Drive.attemptAtomic, hm]; rfl⟩

end AnswersIff

end Lib
end XBus
