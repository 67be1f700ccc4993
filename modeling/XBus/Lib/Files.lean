import XBus.Lib.Call

/-!
# `Lib/Files.lean` — programs over files, any operation of which may fail

A `Drive` is what stands at each path. An operation is attempted: where `Faults` lets it fail, it
throws, and what it was writing to is left as the fault says — half a file, an empty one, or as it
was. The drive keeps a record of the operations that failed, which no program reads: statements are
about it. Operations that are atomic leave nothing behind when they fail.

Paths, contents and operations are parameters.
-/

set_option autoImplicit false

namespace XBus
namespace Lib

/-- How an operation fails: the message it throws, and what stands where it was writing. -/
structure Mishap (κ ε : Type) where
  error : ε
  leaves : Option κ

/-- Which operations fail. -/
abbrev Faults (κ ω ε : Type) := ω → Option (Mishap κ ε)

/-- Nothing fails. -/
def Faults.none {κ ω ε : Type} : Faults κ ω ε := fun _ => Option.none

structure Drive (π κ ω : Type) where
  files : π → Option κ
  failed : List ω

namespace Drive

variable {π κ ω ε : Type} [DecidableEq π]

/-- What stands at `p` from now on. -/
def put (d : Drive π κ ω) (p : π) (c : Option κ) : Drive π κ ω :=
  { d with files := fun q => if q = p then c else d.files q }

def noteFailed (d : Drive π κ ω) (op : ω) : Drive π κ ω := { d with failed := d.failed ++ [op] }

@[simp] theorem put_self (d : Drive π κ ω) (p : π) (c : Option κ) : (d.put p c).files p = c := by
  simp [put]

theorem put_ne (d : Drive π κ ω) {p q : π} (h : q ≠ p) (c : Option κ) :
    (d.put p c).files q = d.files q := by
  simp [put, h]

@[simp] theorem put_failed (d : Drive π κ ω) (p : π) (c : Option κ) :
    (d.put p c).failed = d.failed := rfl

omit [DecidableEq π] in
@[simp] theorem noteFailed_files (d : Drive π κ ω) (op : ω) :
    (d.noteFailed op).files = d.files := rfl

omit [DecidableEq π] in
@[simp] theorem noteFailed_failed (d : Drive π κ ω) (op : ω) :
    (d.noteFailed op).failed = d.failed ++ [op] := rfl

/-- An operation that writes to `p`. -/
def attempt (φ : Faults κ ω ε) (op : ω) (p : π) (f : Drive π κ ω → Drive π κ ω) :
    Call (Drive π κ ω) ε Unit := fun d =>
  match φ op with
  | .none => (.ok (), f d)
  | some m => (.error m.error, (d.put p m.leaves).noteFailed op)

/-- An operation that fails without a trace. -/
def attemptAtomic (φ : Faults κ ω ε) (op : ω) (f : Drive π κ ω → Drive π κ ω) :
    Call (Drive π κ ω) ε Unit := fun d =>
  match φ op with
  | .none => (.ok (), f d)
  | some m => (.error m.error, d.noteFailed op)

theorem attempt_ok {φ : Faults κ ω ε} {op : ω} {p : π} {f : Drive π κ ω → Drive π κ ω}
    {d d' : Drive π κ ω} (h : attempt φ op p f d = (.ok (), d')) : d' = f d := by
  unfold attempt at h
  split at h
  · exact (Prod.mk.inj h).2.symm
  · cases (Prod.mk.inj h).1

theorem attempt_error {φ : Faults κ ω ε} {op : ω} {p : π} {f : Drive π κ ω → Drive π κ ω}
    {d d' : Drive π κ ω} {e : ε} (h : attempt φ op p f d = (.error e, d')) :
    ∃ c, d' = (d.put p c).noteFailed op := by
  unfold attempt at h
  split at h
  · cases (Prod.mk.inj h).1
  · rename_i m _
    exact ⟨m.leaves, (Prod.mk.inj h).2.symm⟩

omit [DecidableEq π] in
theorem attemptAtomic_ok {φ : Faults κ ω ε} {op : ω} {f : Drive π κ ω → Drive π κ ω}
    {d d' : Drive π κ ω} (h : attemptAtomic φ op f d = (.ok (), d')) : d' = f d := by
  unfold attemptAtomic at h
  split at h
  · exact (Prod.mk.inj h).2.symm
  · cases (Prod.mk.inj h).1

omit [DecidableEq π] in
theorem attemptAtomic_error {φ : Faults κ ω ε} {op : ω} {f : Drive π κ ω → Drive π κ ω}
    {d d' : Drive π κ ω} {e : ε} (h : attemptAtomic φ op f d = (.error e, d')) :
    d' = d.noteFailed op := by
  unfold attemptAtomic at h
  split at h
  · cases (Prod.mk.inj h).1
  · exact (Prod.mk.inj h).2.symm

section Frames

variable {R : Drive π κ ω → Drive π κ ω → Prop} {φ : Faults κ ω ε} {op : ω} {p : π}
  {f : Drive π κ ω → Drive π κ ω}

theorem attempt_respects (hf : ∀ d, R d (f d)) (hleft : ∀ d c, R d ((d.put p c).noteFailed op)) :
    Respects R (attempt φ op p f) := by
  intro d
  unfold attempt
  split
  · exact hf d
  · exact hleft d _

omit [DecidableEq π] in
theorem attemptAtomic_respects (hf : ∀ d, R d (f d)) (hleft : ∀ d, R d (d.noteFailed op)) :
    Respects R (attemptAtomic φ op f) := by
  intro d
  unfold attemptAtomic
  split
  · exact hf d
  · exact hleft d

omit [DecidableEq π] in
theorem attemptAtomic_refuses (hleft : ∀ d, R d (d.noteFailed op)) :
    Refuses R (attemptAtomic φ op f) := by
  intro d e d' h
  rw [attemptAtomic_error h]
  exact hleft d

end Frames

end Drive

end Lib
end XBus
