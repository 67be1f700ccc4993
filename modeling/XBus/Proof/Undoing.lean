import XBus.Proof.Copies

/-!
# What the rollback of a migration undoes

Before the copy is put in place every step `Keeps` what the rollback needs: either the canonical
root has not moved, or it stands in the backup and its place is free. So whatever fails there is
undone (`approach_refuses` with `Undoable.rollback`). The legacy root is opened, and no step changes
it otherwise (`carryOut_legacy`).
-/

set_option autoImplicit false

namespace XBus
namespace Proof

open Lib
open Lib.Tree

variable {φ : MigrationFaults} {p : Platform} {o : MigrateOptions}

/-! ## What the rollback can undo -/

/-- The canonical root was `t` and is put back: it has not moved, or it stands in the backup. -/
def Undoable (t : Option Tree) (m : Migration) : Prop :=
  (m.j.destinationBackup = none ∧ m.disk.files .canonical = t) ∨
  (m.j.destinationBackup.isSome ∧ m.disk.files .canonical = none ∧
    m.disk.files .destBackup = t ∧ existsAt t [])

theorem Undoable.rollback {t : Option Tree} {m : Migration} (h : Undoable t m) :
    (rollback m).disk.files .canonical = t := by
  rcases h with ⟨hbackup, hfile⟩ | ⟨hbackup, hfile, hback, hexists⟩
  · simp [XBus.rollback, restore, record, setState, Drive.put, hbackup, hfile]
  · have hnone : existsAt none [] = false := rfl
    simp [XBus.rollback, restore, record, setState, Drive.put, hbackup, hfile,
      hback, hexists, hnone]

theorem restore_legacy (m : Migration) :
    (restore m).disk.files .legacy = m.disk.files .legacy := by
  unfold restore
  split
  · rw [Drive.put_ne _ (by decide), Drive.put_ne _ (by decide)]
  · rfl

theorem record_legacy (state : JournalState) (m : Migration) :
    (record state m).disk.files .legacy = m.disk.files .legacy := by
  simp [record, setState, Drive.put]

theorem rollback_legacy (m : Migration) :
    (rollback m).disk.files .legacy = m.disk.files .legacy := by
  rw [XBus.rollback, record_legacy, restore_legacy, Drive.put_ne _ (by decide), record_legacy]

/-- What every step before the promotion keeps, on the disk. -/
structure DiskKept (p : Platform) (d d' : Disk) : Prop where
  canonical : d'.files .canonical = d.files .canonical
  destBackup : d'.files .destBackup = d.files .destBackup
  legacy : Quiet p (d.files .legacy) → d'.files .legacy = d.files .legacy

instance : IsFrame (DiskKept p) where
  refl _ := ⟨rfl, rfl, fun _ => rfl⟩
  trans h h' := {
    canonical := h'.canonical.trans h.canonical
    destBackup := h'.destBackup.trans h.destBackup
    legacy := fun hs => by
      have hsame := h.legacy hs
      rw [h'.legacy (by rw [hsame]; exact hs), hsame] }

/-- What every step before the promotion keeps. -/
structure Keeps (p : Platform) (m m' : Migration) : Prop where
  undoable : ∀ t, Undoable t m → Undoable t m'
  legacy : Quiet p (m.disk.files .legacy) → m'.disk.files .legacy = m.disk.files .legacy

instance : IsFrame (Keeps p) where
  refl _ := ⟨fun _ h => h, fun _ => rfl⟩
  trans h h' := {
    undoable := fun t ht => h'.undoable t (h.undoable t ht)
    legacy := fun hs => by
      have hsame := h.legacy hs
      rw [h'.legacy (by rw [hsame]; exact hs), hsame] }

theorem onDisk_keeps {α : Type} {x : Call Disk String α} (hx : Respects (DiskKept p) x) :
    Respects (Keeps p) (onDisk x) := by
  intro m
  obtain ⟨hcanonical, hback, hlegacy⟩ := hx m.disk
  refine ⟨fun t ht => ?_, hlegacy⟩
  rcases ht with ⟨hnone, hfile⟩ | ⟨hsome, hfile, hdest, hexists⟩
  · exact .inl ⟨hnone, hcanonical.trans hfile⟩
  · exact .inr ⟨hsome, hcanonical.trans hfile, hback.trans hdest, hexists⟩

theorem DiskKept.put {d : Disk} {place : XBus.Place} (hc : place ≠ .canonical)
    (hb : place ≠ .destBackup) (hl : place ≠ .legacy) (t : Option Tree) :
    DiskKept p d (d.put place t) :=
  ⟨Drive.put_ne _ hc.symm _, Drive.put_ne _ hb.symm _, fun _ => Drive.put_ne _ hl.symm _⟩

theorem DiskKept.noteFailed {d d' : Disk} (h : DiskKept p d d') (op : MigrationOp) :
    DiskKept p d (d'.noteFailed op) :=
  ⟨h.canonical, h.destBackup, h.legacy⟩

theorem renamePlace_keeps (op : MigrationOp) {src dst : XBus.Place}
    (hmove : ∀ d : Disk, DiskKept p d ((d.put dst (d.files src)).put src none)) :
    Respects (DiskKept p) (renamePlace φ p op src dst) :=
  .bind .get fun _ => .bind .require fun _ =>
    Drive.attemptAtomic_respects hmove fun d => (IsFrame.refl (R := DiskKept p) d).noteFailed _

theorem writeJournal_keeps (j : MigrationJournal) :
    Respects (DiskKept p) (writeJournal φ p j) := by
  have htmp : ∀ (d : Disk) t, DiskKept p d (d.put .journalTmp t) :=
    fun d t => .put (by decide) (by decide) (by decide) t
  refine .bind .get fun d => .bind .require fun _ => .bind ?_ fun _ =>
    renamePlace_keeps _ fun d => ?_
  · exact Drive.attempt_respects (fun d => htmp d _) fun d c => (htmp d c).noteFailed _
  · exact IsFrame.trans (DiskKept.put (by decide) (by decide) (by decide) _) (htmp _ _)

theorem copyDirVerified_keeps (c : Copying) (root : String) :
    Respects (DiskKept p) (copyDirVerified φ p c root) := by
  have hput : ∀ (d : Disk) t, DiskKept p d (d.put c.place t) := by
    intro d t
    cases c <;> exact .put (by decide) (by decide) (by decide) t
  intro d
  unfold copyDirVerified
  cases (d.files .legacy).bind follow with
  | none => exact IsFrame.refl d
  | some src =>
    rcases hout : (copyDir φ p c root [] (d.files c.place) src).files with ⟨_ | op, e⟩ | n
    · simp only [hout]
      exact hput d _
    · simp only [hout]
      exact (hput d _).noteFailed _
    · simp only [hout]
      exact hput d _

theorem tryRead_keeps (op : MigrationOp) (place : XBus.Place) (path : List String) :
    Respects (DiskKept p) (tryRead φ op place path) :=
  .act fun d => by
    split
    · exact (IsFrame.refl (R := DiskKept p) d).noteFailed _
    · exact IsFrame.refl d

theorem inspectDb_keeps {place : XBus.Place} (hc : place ≠ .canonical) (hb : place ≠ .destBackup) :
    Respects (DiskKept p) (inspectDb p place) := by
  intro d
  obtain ⟨d', hrun, hfiles⟩ := inspectDb_run (p := p) place d
  rw [hrun]
  refine ⟨?_, ?_, fun hs => ?_⟩
  · rw [hfiles, Drive.put_ne _ hc.symm]
  · rw [hfiles, Drive.put_ne _ hb.symm]
  · by_cases hl : place = .legacy
    · rw [hfiles, hl, Drive.put_self]
      exact hs
    · rw [hfiles, Drive.put_ne _ (Ne.symm hl)]

theorem summarizeRoot_keeps {look : Look} (hlook : look ≠ .canonical) (root : String) :
    Respects (DiskKept p) (summarizeRoot φ p look root) := by
  have hc : look.place ≠ .canonical := by cases look <;> first | decide | exact absurd rfl hlook
  have hb : look.place ≠ .destBackup := by cases look <;> decide
  refine .bind .get fun d => .bind (inspectDb_keeps hc hb) fun _ => .bind (tryRead_keeps _ _ _)
    fun _ => .bind ?_ fun _ => .bind ?_ fun _ => .bind .get fun _ => .pure _
  · refine .ite (.bind ?_ fun _ => .bind .get fun _ => .pure _) (.pure _)
    exact Drive.attemptAtomic_respects (fun d => IsFrame.refl d)
      fun d => (IsFrame.refl (R := DiskKept p) d).noteFailed _
  · exact .ite (.bind (tryRead_keeps _ _ _) fun _ => .pure _) (.pure _)

theorem enter_keeps (state : JournalState) : Respects (Keeps p) (enter φ p state) := by
  refine .bind (.modify fun m => ⟨fun t ht => ht, fun _ => rfl⟩) fun _ => .bind .get fun m => ?_
  exact onDisk_keeps (writeJournal_keeps _)

/-- A rename is done, or nothing is. -/
theorem renamePlace_cases (op : MigrationOp) (src dst : XBus.Place) (d : Disk) :
    renamePlace φ p op src dst d = (.ok (), (d.put dst (d.files src)).put src none) ∨
      ∃ e d', renamePlace φ p op src dst d = (.error e, d') ∧ d'.files = d.files := by
  by_cases hmove : Movable (d.files src) (d.files dst)
  · have hrun : renamePlace φ p op src dst d =
        Drive.attemptAtomic φ op (fun d => (d.put dst (d.files src)).put src none) d := by
      rw [renamePlace, Call.get_bind, Call.bind_of_ok (a := ()) (t := d)]
      exact Call.require_ok.mpr ⟨hmove, rfl⟩
    rw [hrun]
    cases hfault : φ op with
    | none => exact .inl (by simp [Drive.attemptAtomic, hfault])
    | some m => exact .inr ⟨m.error, d.noteFailed op, by simp [Drive.attemptAtomic, hfault], rfl⟩
  · refine .inr ⟨p.message op, d, ?_, rfl⟩
    rw [renamePlace, Call.get_bind]
    exact Call.bind_of_error (if_neg hmove)

theorem enter_canonical (state : JournalState) (m : Migration) :
    (enter φ p state m).2.disk.files .canonical = m.disk.files .canonical :=
  (writeJournal_keeps (p := p) (setState state m).j m.disk).canonical

/-- The rename and the note of it in the journal go together. -/
theorem moveAside_keeps : Respects (Keeps p) (moveAside φ p o) := by
  intro m
  by_cases hexists : existsAt (m.disk.files .canonical) [] = true
  · have hrun : moveAside φ p o m = (do
        onDisk (renamePlace φ p .moveAside .canonical .destBackup)
        Call.modify fun m =>
          { m with j := { m.j with destinationBackup := some (destinationBackup o) } } :
        Call Migration String Unit) m := by
      show (if existsAt (m.disk.files .canonical) [] then _ else _ : Call _ _ _) m = _
      rw [if_pos hexists]
    rcases renamePlace_cases (φ := φ) (p := p) .moveAside .canonical .destBackup m.disk with
      hren | ⟨e, d', hren, hfiles⟩
    · have hdone : onDisk (renamePlace φ p .moveAside .canonical .destBackup) m = (.ok (), { m with
          disk := (m.disk.put .destBackup (m.disk.files .canonical)).put .canonical none }) := by
        simp only [onDisk, Call.zoom, hren]
        rfl
      rw [hrun, Call.bind_of_ok hdone]
      refine ⟨fun t ht => ?_, fun _ => ?_⟩
      · rcases ht with ⟨-, hfile⟩ | ⟨-, hfile, -⟩
        · exact .inr ⟨rfl, Drive.put_self _ _ _, by
            simpa [Call.modify, Drive.put] using hfile, by rw [← hfile]; exact hexists⟩
        · -- a root that was moved before is not there to be moved again
          rw [hfile] at hexists
          cases hexists
      · simp [Call.modify, Drive.put]
    · have hfailed : onDisk (renamePlace φ p .moveAside .canonical .destBackup) m =
          (.error e, { m with disk := d' }) := by
        simp only [onDisk, Call.zoom, hren]
        rfl
      rw [hrun, Call.bind_of_error hfailed]
      refine ⟨fun t ht => ?_, fun _ => congrFun hfiles _⟩
      rcases ht with ⟨hnone, hfile⟩ | ⟨hsome, hfile, hrest⟩
      · exact .inl ⟨hnone, by rw [hfiles]; exact hfile⟩
      · exact .inr ⟨hsome, by rw [hfiles]; exact hfile, by rw [hfiles]; exact hrest⟩
  · have hstay : moveAside φ p o m = (.ok (), m) := by
      show (if existsAt (m.disk.files .canonical) [] then _ else _ : Call _ _ _) m = _
      rw [if_neg hexists]
      rfl
    rw [hstay]
    exact IsFrame.refl m

theorem prepare_keeps (legacy : RootSummary) : Respects (Keeps p) (prepare φ p o legacy) :=
  .bind (onDisk_keeps (copyDirVerified_keeps _ _)) fun _ =>
  .bind (enter_keeps _) fun _ =>
  .bind (onDisk_keeps (summarizeRoot_keeps (by decide) _)) fun _ => .bind .require fun _ =>
  .bind (enter_keeps _) fun _ =>
  .bind (enter_keeps _) fun _ =>
  .bind (onDisk_keeps (Drive.attempt_respects
    (fun _ => .put (by decide) (by decide) (by decide) _) fun _ _ =>
      (DiskKept.put (by decide) (by decide) (by decide) _).noteFailed _)) fun _ =>
  .bind (enter_keeps _) fun _ =>
  .bind (onDisk_keeps (copyDirVerified_keeps _ _)) fun _ =>
  .bind (enter_keeps _) fun _ =>
  .bind (onDisk_keeps (summarizeRoot_keeps (by decide) _)) fun _ =>
  .bind .require fun _ => .bind .require fun _ => .bind .require fun _ =>
  .bind (enter_keeps _) fun _ =>
  .bind moveAside_keeps fun _ =>
  enter_keeps _

theorem promote_refuses : Refuses (Keeps p) (promote φ p) := by
  intro m e m' h
  rcases renamePlace_cases (φ := φ) (p := p) .promote .staging .canonical m.disk with
    hren | ⟨e', d', hren, hfiles⟩
  · simp only [promote, onDisk, Call.zoom, hren] at h
    cases (Prod.mk.inj h).1
  · simp only [promote, onDisk, Call.zoom, hren] at h
    obtain ⟨-, rfl⟩ := Prod.mk.inj h
    refine ⟨fun t ht => ?_, fun _ => congrFun hfiles _⟩
    rcases ht with ⟨hnone, hfile⟩ | ⟨hsome, hfile, hrest⟩
    · exact .inl ⟨hnone, by rw [hfiles]; exact hfile⟩
    · exact .inr ⟨hsome, by rw [hfiles]; exact hfile, by rw [hfiles]; exact hrest⟩

theorem approach_refuses (ls : RootSummary) :
    Refuses (Keeps p) (do prepare φ p o ls; promote φ p) :=
  .bind (prepare_keeps ls) fun _ => promote_refuses

/-! ## The legacy root -/

def LegacyKept (p : Platform) (m m' : Migration) : Prop :=
  Quiet p (m.disk.files .legacy) → m'.disk.files .legacy = m.disk.files .legacy

instance : IsFrame (LegacyKept p) where
  refl _ _ := rfl
  trans h h' hs := by
    have hsame := h hs
    rw [h' (by rw [hsame]; exact hs), hsame]

theorem promote_legacy : Respects (LegacyKept p) (promote φ p) := by
  intro m _
  rcases renamePlace_cases (φ := φ) (p := p) .promote .staging .canonical m.disk with
    hren | ⟨e, d', hren, hfiles⟩
  · simp [promote, onDisk, Call.zoom, hren, Drive.put]
  · simp [promote, onDisk, Call.zoom, hren, hfiles]

theorem carryOut_legacy (a : Assessment) (m : Migration)
    (hs : Quiet p (m.disk.files .legacy)) :
    (carryOut φ p o a m).2.disk.files .legacy = m.disk.files .legacy := by
  have hkept : ∀ m m', Keeps p m m' → LegacyKept p m m' := fun _ _ h => h.legacy
  have hbody : Respects (LegacyKept p) (do
      prepare φ p o a.legacy
      promote φ p
      enter φ p .stagingPromoted) :=
    .bind ((prepare_keeps _).mono hkept) fun _ => .bind promote_legacy fun _ =>
      (enter_keeps _).mono hkept
  have hrun := hbody m hs
  rcases hm : (do prepare φ p o a.legacy; promote φ p; enter φ p .stagingPromoted :
    Call Migration String Unit) m with ⟨e | u, m'⟩ <;> rw [hm] at hrun
  · simp only [carryOut, hm]
    exact (rollback_legacy m').trans hrun
  · simp only [carryOut, hm]
    exact hrun

end Proof
end XBus
