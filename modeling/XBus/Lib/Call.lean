import Mathlib.Tactic.Common

/-!
# Calls: a program against a store, with exceptions and rollback

A `Call σ ε α` is one synchronous call into a component whose whole state is a `σ`: it
answers `a : α` or refuses with `e : ε`, and leaves a state behind **in both cases**. That
last part is what separates it from `StateT σ (Except ε)`: what a call wrote before it
threw is still there, unless a `transaction` around it took it back.

Three things are provided over arbitrary `σ`, `ε`:

* the monad, and the handful of primitives a database program is written with (`get`,
  `modify`, `require`, `orThrow`, `refuse`, `transaction`);
* for every primitive one inversion lemma `…_ok`, which says what a successful answer
  tells about the state. Successful calls are taken apart with these and nothing is
  unfolded;
* `Respects R`, "the call moves the state along `R`, answered or refused", with one rule
  for each primitive, for every preorder `R`; `Refuses R`, the same of refusals only; and
  `RefusesInto P`, which says what a call may refuse with, and in which store.
-/

set_option autoImplicit false

namespace XBus
namespace Lib

/-- A call against a store of type `σ`. The store is returned on refusal as well. -/
def Call (σ ε α : Type) : Type := σ → Except ε α × σ

namespace Call

variable {σ ε α β : Type}

instance : Monad (Call σ ε) where
  pure a := fun s => (.ok a, s)
  bind x f := fun s =>
    match x s with
    | (.ok a, t) => f a t
    | (.error e, t) => (.error e, t)

/-- The store as it is now. -/
def get : Call σ ε σ := fun s => (.ok s, s)

/-- An unconditional write. -/
def modify (f : σ → σ) : Call σ ε Unit := fun s => (.ok (), f s)

/-- A step that cannot fail: it answers and writes. -/
def act (f : σ → α × σ) : Call σ ε α := fun s => (.ok (f s).1, (f s).2)

/-- Write, then throw. `refuse id e` is a bare throw. -/
def refuse (touch : σ → σ) (e : ε) : Call σ ε α := fun s => (.error e, touch s)

/-- Throw `e` unless `c` holds. -/
def require (c : Prop) [Decidable c] (e : ε) : Call σ ε Unit := fun s =>
  if c then (.ok (), s) else (.error e, s)

/-- Throw `e` unless `c` holds, writing `touch` first when it does not. -/
def requireElse (c : Prop) [Decidable c] (touch : σ → σ) (e : ε) : Call σ ε Unit := fun s =>
  if c then (.ok (), s) else (.error e, touch s)

/-- The value of `o`, or throw. -/
def orThrow (o : Option α) (e : ε) : Call σ ε α := fun s =>
  match o with
  | some a => (.ok a, s)
  | none => (.error e, s)

/-- The value of an already computed result, or its error. -/
def lift (r : Except ε α) : Call σ ε α := fun s => (r, s)

/-- Run `x`; if it throws, put the store back to where it was before `x`. -/
def transaction (x : Call σ ε α) : Call σ ε α := fun s =>
  match x s with
  | (.ok a, t) => (.ok a, t)
  | (.error e, _) => (.error e, s)

/-- Run a call against a part of a larger store, its errors wrapped into the larger ones. -/
def zoom {τ ε' : Type} (part : τ → σ) (put : τ → σ → τ) (wrap : ε → ε') (x : Call σ ε α) :
    Call τ ε' α := fun t =>
  ((x (part t)).1.mapError wrap, put t (x (part t)).2)

/-! ## Running the steps that cannot fail -/

@[simp] theorem get_bind {f : σ → Call σ ε α} {s : σ} : (get >>= f) s = f s s := rfl

@[simp] theorem modify_bind {f : σ → σ} {g : Unit → Call σ ε α} {s : σ} :
    (modify f >>= g) s = g () (f s) := rfl

@[simp] theorem act_bind {f : σ → α × σ} {g : α → Call σ ε β} {s : σ} :
    (act f >>= g) s = g (f s).1 (f s).2 := rfl

theorem lift_ok_bind {a : α} {f : α → Call σ ε β} {s : σ} : (lift (.ok a) >>= f) s = f a s := rfl

theorem bind_of_ok {x : Call σ ε α} {f : α → Call σ ε β} {a : α} {s t : σ}
    (h : x s = (.ok a, t)) : (x >>= f) s = f a t := by
  show (match x s with
    | (.ok a, t) => f a t
    | (.error e, t) => (.error e, t)) = f a t
  rw [h]

theorem bind_of_error {x : Call σ ε α} {f : α → Call σ ε β} {e : ε} {s t : σ}
    (h : x s = (.error e, t)) : (x >>= f) s = (.error e, t) := by
  show (match x s with
    | (.ok a, t) => f a t
    | (.error e, t) => (.error e, t)) = (Except.error e, t)
  rw [h]

/-- A step that only judges the answer leaves the store to what came before. -/
theorem bind_snd {x : Call σ ε α} {f : α → Call σ ε β} (hf : ∀ a s, (f a s).2 = s) (s : σ) :
    ((x >>= f) s).2 = (x s).2 := by
  show (match x s with
    | (.ok a, t) => f a t
    | (.error e, t) => (.error e, t)).2 = (x s).2
  rcases x s with ⟨_ | a, u⟩
  · rfl
  · exact hf a u

/-! ## What a successful answer says -/

@[simp] theorem pure_ok {a b : α} {s t : σ} :
    (pure a : Call σ ε α) s = (.ok b, t) ↔ a = b ∧ s = t := by
  show ((Except.ok a : Except ε α), s) = (.ok b, t) ↔ _
  simp

@[simp] theorem bind_ok {x : Call σ ε α} {f : α → Call σ ε β} {b : β} {s t : σ} :
    (x >>= f) s = (.ok b, t) ↔ ∃ a u, x s = (.ok a, u) ∧ f a u = (.ok b, t) := by
  show (match x s with
    | (.ok a, t) => f a t
    | (.error e, t) => (.error e, t)) = (Except.ok b, t) ↔ _
  rcases x s with ⟨_ | a, u⟩ <;> simp

@[simp] theorem map_ok {f : α → β} {x : Call σ ε α} {b : β} {s t : σ} :
    (f <$> x) s = (.ok b, t) ↔ ∃ a, x s = (.ok a, t) ∧ f a = b := by
  show (x >>= fun a => pure (f a)) s = (.ok b, t) ↔ _
  simp only [bind_ok, pure_ok]
  constructor
  · rintro ⟨a, u, hx, rfl, rfl⟩
    exact ⟨a, hx, rfl⟩
  · rintro ⟨a, hx, rfl⟩
    exact ⟨a, t, hx, rfl, rfl⟩

@[simp] theorem map_snd {f : α → β} {x : Call σ ε α} {s : σ} :
    ((f <$> x) s).2 = (x s).2 := by
  show (match x s with
    | (.ok a, t) => (pure (f a) : Call σ ε β) t
    | (.error e, t) => (.error e, t)).2 = (x s).2
  rcases x s with ⟨_ | a, u⟩ <;> rfl

@[simp] theorem get_ok {a s t : σ} :
    (get : Call σ ε σ) s = (.ok a, t) ↔ s = a ∧ s = t := by simp [get]

@[simp] theorem modify_ok {f : σ → σ} {u : Unit} {s t : σ} :
    (modify f : Call σ ε Unit) s = (.ok u, t) ↔ f s = t := by simp [modify]

@[simp] theorem act_ok {f : σ → α × σ} {a : α} {s t : σ} :
    (act f : Call σ ε α) s = (.ok a, t) ↔ f s = (a, t) := by
  simp [act, Prod.ext_iff]

@[simp] theorem refuse_ok {touch : σ → σ} {e : ε} {a : α} {s t : σ} :
    (refuse touch e : Call σ ε α) s = (.ok a, t) ↔ False := by simp [refuse]

@[simp] theorem require_ok {c : Prop} [Decidable c] {e : ε} {u : Unit} {s t : σ} :
    (require c e : Call σ ε Unit) s = (.ok u, t) ↔ c ∧ s = t := by
  unfold require; split <;> simp_all

@[simp] theorem requireElse_ok {c : Prop} [Decidable c] {touch : σ → σ} {e : ε} {u : Unit}
    {s t : σ} : (requireElse c touch e : Call σ ε Unit) s = (.ok u, t) ↔ c ∧ s = t := by
  unfold requireElse; split <;> simp_all

@[simp] theorem orThrow_ok {o : Option α} {e : ε} {a : α} {s t : σ} :
    (orThrow o e : Call σ ε α) s = (.ok a, t) ↔ o = some a ∧ s = t := by
  cases o <;> simp [orThrow]

@[simp] theorem lift_ok {r : Except ε α} {a : α} {s t : σ} :
    (lift r : Call σ ε α) s = (.ok a, t) ↔ r = .ok a ∧ s = t := by simp [lift]

@[simp] theorem transaction_ok {x : Call σ ε α} {a : α} {s t : σ} :
    transaction x s = (.ok a, t) ↔ x s = (.ok a, t) := by
  unfold transaction; rcases x s with ⟨_ | b, u⟩ <;> simp

@[simp] theorem map_error {f : α → β} {x : Call σ ε α} {e : ε} {s t : σ} :
    (f <$> x) s = (.error e, t) ↔ x s = (.error e, t) := by
  show (match x s with
    | (.ok a, t) => (pure (f a) : Call σ ε β) t
    | (.error e, t) => (.error e, t)) = (Except.error e, t) ↔ _
  rcases x s with ⟨_ | a, u⟩
  · simp
  · constructor
    · intro h
      cases (show ((Except.ok (f a) : Except ε β), u) = (.error e, t) from h)
    · intro h
      cases h

/-- A refused transaction had a body that refused, and is where it started. -/
theorem transaction_error_iff {x : Call σ ε α} {e : ε} {s t : σ} :
    transaction x s = (.error e, t) ↔ (∃ u, x s = (.error e, u)) ∧ t = s := by
  unfold transaction
  rcases x s with ⟨_ | b, u⟩ <;> simp [eq_comm]

/-- A refused transaction leaves the store as it found it. -/
theorem transaction_error {x : Call σ ε α} {e : ε} {s t : σ}
    (h : transaction x s = (.error e, t)) : t = s :=
  (transaction_error_iff.mp h).2

/-- What throws inside a transaction throws outside, with the store as it was. -/
theorem transaction_of_error {x : Call σ ε α} {e : ε} {s t : σ} (h : x s = (.error e, t)) :
    transaction x s = (.error e, s) := by
  unfold transaction
  rw [h]

/-- Whatever a transaction answers, its final store is the one its body committed or the
    one it started from. -/
theorem transaction_snd (x : Call σ ε α) (s : σ) :
    (∃ a, x s = (.ok a, (transaction x s).2)) ∨ (transaction x s).2 = s := by
  unfold transaction
  rcases hx : x s with ⟨e | a, u⟩
  · exact .inr rfl
  · exact .inl ⟨a, rfl⟩

end Call

/-! ## Moving along a relation -/

/-- The call moves every store along `R`, whether it answers or refuses. -/
def Respects {σ ε α : Type} (R : σ → σ → Prop) (x : Call σ ε α) : Prop :=
  ∀ s, R s (x s).2

/-- What `Respects` needs of a relation: staying put is allowed, and moves compose. -/
class IsFrame {σ : Type} (R : σ → σ → Prop) : Prop where
  refl : ∀ s, R s s
  trans : ∀ {s t u}, R s t → R t u → R s u

instance {σ : Type} : IsFrame (@Eq σ) where
  refl _ := rfl
  trans := Eq.trans

/-- A loop moves along `R` when each of its rounds does. -/
theorem IsFrame.foldl {σ α β : Type} {R : σ → σ → Prop} [IsFrame R] (store : β → σ)
    {round : β → α → β} (rows : List α) (acc : β)
    (h : ∀ acc, ∀ r ∈ rows, R (store acc) (store (round acc r))) :
    R (store acc) (store (rows.foldl round acc)) := by
  induction rows generalizing acc with
  | nil => exact IsFrame.refl _
  | cons r rows ih =>
    exact IsFrame.trans
      (h acc r (by simp)) (ih (round acc r) fun acc x hx => h acc x (by simp [hx]))

namespace Respects

variable {σ ε α β : Type} {R S : σ → σ → Prop}

theorem mono (h : ∀ s t, R s t → S s t) {x : Call σ ε α} (hx : Respects R x) :
    Respects S x := fun s => h _ _ (hx s)

theorem modify {f : σ → σ} (hf : ∀ s, R s (f s)) :
    Respects R (Call.modify f : Call σ ε Unit) := fun s => hf s

theorem act {f : σ → α × σ} (hf : ∀ s, R s (f s).2) :
    Respects R (Call.act f : Call σ ε α) := fun s => hf s

theorem ite {c : Prop} [Decidable c] {x y : Call σ ε α} (hx : Respects R x)
    (hy : Respects R y) : Respects R (if c then x else y) := by
  split
  · exact hx
  · exact hy

theorem map {f : α → β} {x : Call σ ε α} (hx : Respects R x) : Respects R (f <$> x) :=
  fun s => by
    rw [Call.map_snd]
    exact hx s

variable [IsFrame R]

theorem pure (a : α) : Respects R (Pure.pure a : Call σ ε α) := fun s => IsFrame.refl s

theorem get : Respects R (Call.get : Call σ ε σ) := fun s => IsFrame.refl s

theorem throw {e : ε} : Respects R (Call.refuse id e : Call σ ε α) := fun s => IsFrame.refl s

theorem require {c : Prop} [Decidable c] {e : ε} :
    Respects R (Call.require c e : Call σ ε Unit) := fun s => by
  unfold Call.require
  split <;> exact IsFrame.refl s

theorem requireElse {c : Prop} [Decidable c] {touch : σ → σ} {e : ε}
    (hf : ∀ s, R s (touch s)) : Respects R (Call.requireElse c touch e : Call σ ε Unit) :=
  fun s => by
    unfold Call.requireElse
    split
    · exact IsFrame.refl s
    · exact hf s

theorem orThrow {o : Option α} {e : ε} : Respects R (Call.orThrow o e : Call σ ε α) :=
  fun s => by cases o <;> exact IsFrame.refl s

theorem lift {r : Except ε α} : Respects R (Call.lift r : Call σ ε α) :=
  fun s => IsFrame.refl s

/-- From one state: what follows a step is followed from the state the step answers in. -/
theorem bind_at {x : Call σ ε α} {f : α → Call σ ε β} {s : σ} (hx : R s (x s).2)
    (hf : ∀ a t, x s = (.ok a, t) → R t (f a t).2) : R s ((x >>= f) s).2 := by
  show R s (match x s with
    | (.ok a, t) => f a t
    | (.error e, t) => (.error e, t)).2
  rcases hxs : x s with ⟨e | a, t⟩ <;> rw [hxs] at hx
  · exact hx
  · exact IsFrame.trans hx (hf a t hxs)

/-- What follows a step only has to be followed from states the step answers in. -/
theorem bind_of_ok {x : Call σ ε α} {f : α → Call σ ε β} (hx : Respects R x)
    (hf : ∀ s a t, x s = (.ok a, t) → R t (f a t).2) : Respects R (x >>= f) :=
  fun s => bind_at (hx s) (hf s)

theorem bind {x : Call σ ε α} {f : α → Call σ ε β} (hx : Respects R x)
    (hf : ∀ a, Respects R (f a)) : Respects R (x >>= f) :=
  bind_of_ok hx fun _ a t _ => hf a t

/-- From one state: a transaction only has to be followed where it commits. -/
theorem transaction_at {x : Call σ ε α} {s : σ} (hx : ∀ a t, x s = (.ok a, t) → R s t) :
    R s (Call.transaction x s).2 := by
  rcases Call.transaction_snd x s with ⟨a, h⟩ | h
  · exact hx a _ h
  · rw [h]
    exact IsFrame.refl s

/-- A transaction only has to be followed where it commits. -/
theorem transaction_of_ok {x : Call σ ε α} (hx : ∀ s a t, x s = (.ok a, t) → R s t) :
    Respects R (Call.transaction x) := fun s => transaction_at (hx s)

theorem transaction {x : Call σ ε α} (hx : Respects R x) : Respects R (Call.transaction x) :=
  transaction_of_ok fun s a t h => by
    have := hx s
    rw [h] at this
    exact this

end Respects

/-! ## What a refusal leaves behind -/

/-- Where the call refuses, it has moved the store along `R`. -/
def Refuses {σ ε α : Type} (R : σ → σ → Prop) (x : Call σ ε α) : Prop :=
  ∀ s e t, x s = (.error e, t) → R s t

namespace Refuses

variable {σ ε α β : Type} {R S : σ → σ → Prop}

theorem of_respects {x : Call σ ε α} (hx : Respects R x) : Refuses R x := fun s e t h => by
  have := hx s
  rwa [h] at this

theorem transaction [IsFrame R] (x : Call σ ε α) : Refuses R (Call.transaction x) :=
  fun s e t h => by
    rw [Call.transaction_error h]
    exact IsFrame.refl s

/-- What runs first must keep to `R` either way: a later step may be the one that refuses. -/
theorem bind [IsFrame R] {x : Call σ ε α} {f : α → Call σ ε β} (hx : Respects R x)
    (hf : ∀ a, Refuses R (f a)) : Refuses R (x >>= f) := by
  intro s e t h
  have hs := hx s
  replace h : (match x s with
    | (.ok a, t) => f a t
    | (.error e, t) => (.error e, t)) = (Except.error e, t) := h
  rcases hxs : x s with ⟨e' | a, u⟩ <;> rw [hxs] at h hs
  · obtain ⟨-, rfl⟩ := Prod.mk.inj h
    exact hs
  · exact IsFrame.trans hs (hf a u e t h)

/-- What follows a call and cannot refuse adds no refusals. -/
theorem bind_total {x : Call σ ε α} {f : α → Call σ ε β} (hx : Refuses R x)
    (hf : ∀ a s e t, f a s ≠ (.error e, t)) : Refuses R (x >>= f) := by
  intro s e t h
  replace h : (match x s with
    | (.ok a, t) => f a t
    | (.error e, t) => (.error e, t)) = (Except.error e, t) := h
  rcases hxs : x s with ⟨e' | a, u⟩ <;> rw [hxs] at h
  · obtain ⟨-, rfl⟩ := Prod.mk.inj h
    exact hx s e' u hxs
  · exact absurd h (hf a u e t)

theorem map {f : α → β} {x : Call σ ε α} (hx : Refuses R x) : Refuses R (f <$> x) :=
  bind_total hx fun _ _ _ _ h => nomatch h

/-- A call is followed by following its refusals and its answers. -/
theorem respects {x : Call σ ε α} (hx : Refuses R x) (hRS : ∀ s t, R s t → S s t)
    (hok : ∀ s a t, x s = (.ok a, t) → S s t) : Respects S x := by
  intro s
  rcases hxs : x s with ⟨e | a, t⟩
  · exact hRS s t (hx s e t hxs)
  · exact hok s a t hxs

end Refuses

/-! ## What a call refuses with -/

/-- From `s`, the call refuses only in the ways `P` allows: what it throws, and the store it
    throws in. -/
def RefusesInto {σ ε α : Type} (P : ε → σ → Prop) (x : Call σ ε α) (s : σ) : Prop :=
  ∀ e t, x s = (.error e, t) → P e t

/-- From `s`, the call refuses with nothing but what `P` allows. -/
abbrev ThrowsOnly {σ ε α : Type} (P : ε → Prop) (x : Call σ ε α) (s : σ) : Prop :=
  RefusesInto (fun e _ => P e) x s

namespace RefusesInto

variable {σ ε α β : Type} {P Q : ε → σ → Prop} {s : σ}

theorem mono {x : Call σ ε α} (hx : RefusesInto P x s) (h : ∀ e t, P e t → Q e t) :
    RefusesInto Q x s := fun e t hxs => h e t (hx e t hxs)

theorem pure (a : α) : RefusesInto P (Pure.pure a : Call σ ε α) s := fun e t h => by
  cases (show ((Except.ok a : Except ε α), s) = (.error e, t) from h)

theorem get : RefusesInto P (Call.get : Call σ ε σ) s := fun e t h => by
  cases (show ((Except.ok s : Except ε σ), s) = (.error e, t) from h)

theorem modify {f : σ → σ} : RefusesInto P (Call.modify f : Call σ ε Unit) s := fun e t h => by
  cases (show ((Except.ok () : Except ε Unit), f s) = (.error e, t) from h)

theorem act {f : σ → α × σ} : RefusesInto P (Call.act f : Call σ ε α) s := fun e t h => by
  cases (show ((Except.ok (f s).1 : Except ε α), (f s).2) = (.error e, t) from h)

theorem require {c : Prop} [Decidable c] {e : ε} (he : ¬ c → P e s) :
    RefusesInto P (Call.require c e : Call σ ε Unit) s := fun e' t h => by
  unfold Call.require at h
  split at h
  · cases h
  · rename_i hc
    cases h
    exact he hc

theorem requireElse {c : Prop} [Decidable c] {touch : σ → σ} {e : ε} (he : ¬ c → P e (touch s)) :
    RefusesInto P (Call.requireElse c touch e : Call σ ε Unit) s := fun e' _ h => by
  unfold Call.requireElse at h
  split at h
  · cases h
  · rename_i hc
    cases h
    exact he hc

theorem orThrow {o : Option α} {e : ε} (he : P e s) :
    RefusesInto P (Call.orThrow o e : Call σ ε α) s := fun e' t h => by
  cases o with
  | some a => cases h
  | none =>
    cases h
    exact he

theorem lift {r : Except ε α} (hr : ∀ e, r = .error e → P e s) :
    RefusesInto P (Call.lift r : Call σ ε α) s := fun e t h => by
  obtain ⟨he, rfl⟩ := Prod.mk.inj h
  exact hr e he

/-- What follows a step is asked only where the step answers. -/
theorem bind {x : Call σ ε α} {f : α → Call σ ε β} (hx : RefusesInto P x s)
    (hf : ∀ a t, x s = (.ok a, t) → RefusesInto P (f a) t) : RefusesInto P (x >>= f) s := by
  intro e t h
  replace h : (match x s with
    | (.ok a, t) => f a t
    | (.error e, t) => (.error e, t)) = (Except.error e, t) := h
  rcases hxs : x s with ⟨e' | a, u⟩ <;> rw [hxs] at h
  · obtain ⟨he, rfl⟩ := Prod.mk.inj h
    exact Except.error.inj he ▸ hx e' u hxs
  · exact hf a u hxs e t h

/-- A transaction throws in the store it started from. -/
theorem transaction {x : Call σ ε α} (hx : RefusesInto (fun e _ => P e s) x s) :
    RefusesInto P (Call.transaction x) s := by
  intro e t h
  unfold Call.transaction at h
  rcases hxs : x s with ⟨e' | a, u⟩ <;> rw [hxs] at h
  · obtain ⟨he, rfl⟩ := Prod.mk.inj h
    exact Except.error.inj he ▸ hx e' u hxs
  · cases h

end RefusesInto

end Lib
end XBus
