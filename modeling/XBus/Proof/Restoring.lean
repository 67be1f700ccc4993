import XBus.Snapshot
import Mathlib.Tactic.DeriveEncodable
import Mathlib.Logic.Equiv.List

/-!
# What a restore puts back

A restore puts the archived main file where the live one was and removes the live log, in that order
backwards: the log goes first. So it shows the archived main file without the archived log
(**`snapshot_round_trip_iff`**), and if it stops in between, the live main file without the live log
(**`restore_crash_atomic_iff`**). Both are what they should be when the log in question is settled.
-/

set_option autoImplicit false

namespace XBus
namespace Proof

open Lib

variable {β : Type} {env : SnapshotEnv β} {φ : DbFaults β}

/-! ## Frames -/

/-- Only the named files have changed. -/
def KeptBut (written : DbFile → Prop) (d d' : DbDrive β) : Prop :=
  ∀ f, ¬ written f → d'.files f = d.files f

instance (written : DbFile → Prop) : IsFrame (KeptBut (β := β) written) where
  refl _ _ _ := rfl
  trans h h' f hf := (h' f hf).trans (h f hf)

theorem KeptBut.noteFailed {written : DbFile → Prop} {d d' : DbDrive β}
    (h : KeptBut written d d') (op : SnapshotOp) : KeptBut written d (d'.noteFailed op) := h

theorem KeptBut.put {written : DbFile → Prop} {p : DbFile} (hp : written p) (d : DbDrive β)
    (c : Option (Stored β)) : KeptBut written d (d.put p c) := by
  intro f hf
  have hne : f ≠ p := by
    rintro rfl
    exact hf hp
  exact Drive.put_ne d hne c

abbrev NoFile : DbFile → Prop := fun _ => False

theorem KeptBut.files {d d' : DbDrive β} (h : KeptBut NoFile d d') : d'.files = d.files :=
  funext fun f => h f not_false

/-! ## Digests -/

theorem sha256File_keeps (f : DbFile) : Respects (KeptBut NoFile) (sha256File env φ f) := by
  refine Respects.bind ?_ fun _ => Respects.bind Respects.get fun d => ?_
  · exact Drive.attemptAtomic_respects (fun d => IsFrame.refl d)
      fun d => (IsFrame.refl (R := KeptBut NoFile) d).noteFailed _
  · split
    · exact Respects.pure _
    · exact Respects.lift

theorem sha256File_ok {f : DbFile} {d d' : DbDrive β} {digest : String × Nat}
    (h : sha256File env φ f d = (.ok digest, d')) :
    d' = d ∧ ∃ c, d.files f = some c ∧ digest = (env.sha256 c, env.bytes c) := by
  obtain ⟨⟨⟩, d₁, h₁, hread⟩ := Call.bind_ok.mp h
  obtain rfl : d₁ = d := Drive.attemptAtomic_ok h₁
  rw [Call.get_bind] at hread
  cases hc : d₁.files f with
  | none =>
    rw [hc] at hread
    cases (Call.lift_ok.mp hread).1
  | some c =>
    rw [hc] at hread
    obtain ⟨rfl, rfl⟩ := Call.pure_ok.mp hread
    exact ⟨rfl, c, rfl, rfl⟩

theorem sha256File_reads (hread : ∀ f, φ (.read f) = none) {f : DbFile} {d : DbDrive β}
    {c : Stored β} (hc : d.files f = some c) :
    sha256File env φ f d = (.ok (env.sha256 c, env.bytes c), d) := by
  have hfirst : Drive.attemptAtomic φ (.read f) id d = (.ok (), d) := by
    simp [Drive.attemptAtomic, hread]
  rw [sha256File, Call.bind_of_ok hfirst, Call.get_bind, hc]
  rfl

/-- The archive has the file, with the digest the manifest says. -/
def Matching (env : SnapshotEnv β) (d : DbDrive β) (dbPath : String) (f : SnapshotFileEntry) :
    Prop :=
  ∃ c, d.files (.archived (env.basename dbPath) f.suffix) = some c ∧
    env.sha256 c = f.sha256 ∧ env.bytes c = f.bytes

def Verified (env : SnapshotEnv β) (d : DbDrive β) (m : SnapshotManifest) : Prop :=
  ∀ f ∈ m.files, Matching env d m.dbPath f

/-- Where it answers, `verifySnapshot` says whether the archive is the manifest's. -/
theorem verifyFiles_ok {dbPath : String} {files : List SnapshotFileEntry} {d d' : DbDrive β}
    {v : VerifyResult} (h : verifyFiles env φ dbPath files d = (.ok v, d')) :
    d' = d ∧ (v.ok = true ↔ ∀ f ∈ files, Matching env d dbPath f) := by
  induction files with
  | nil =>
    obtain ⟨rfl, rfl⟩ := Call.pure_ok.mp h
    simp
  | cons f files ih =>
    simp only [verifyFiles, Call.bind_ok, Call.get_ok] at h
    obtain ⟨_, _, ⟨rfl, rfl⟩, h⟩ := h
    rw [List.forall_mem_cons]
    split at h
    · obtain ⟨digest, d₁, hd, h⟩ := Call.bind_ok.mp h
      obtain ⟨rfl, c, hc, rfl⟩ := sha256File_ok hd
      have hmatch : Matching env d₁ dbPath f ↔
          ¬(env.sha256 c ≠ f.sha256 ∨ env.bytes c ≠ f.bytes) := by
        simp [Matching, hc, not_or]
      split at h
      · rename_i hbad
        obtain ⟨rfl, rfl⟩ := Call.pure_ok.mp h
        exact ⟨rfl, by simp [hmatch, hbad]⟩
      · rename_i hgood
        obtain ⟨rfl, hv⟩ := ih h
        exact ⟨rfl, by rw [hv, hmatch, and_iff_right hgood]⟩
    · rename_i hno
      obtain ⟨rfl, rfl⟩ := Call.pure_ok.mp h
      refine ⟨rfl, iff_of_false Bool.false_ne_true ?_⟩
      rintro ⟨⟨c, hc, -⟩, -⟩
      exact hno (by simp [DbDrive.existsAt, hc])

theorem verifyFiles_keeps (env : SnapshotEnv β) (φ : DbFaults β) (dbPath : String)
    (files : List SnapshotFileEntry) :
    Respects (KeptBut NoFile) (verifyFiles env φ dbPath files) := by
  induction files with
  | nil => exact Respects.pure _
  | cons f files ih =>
    refine Respects.bind Respects.get fun d => ?_
    refine Respects.ite ?_ (Respects.pure _)
    refine Respects.bind (sha256File_keeps _) fun digest => ?_
    exact Respects.ite (Respects.pure _) ih

theorem verifyFiles_reads (hread : ∀ f, φ (.read f) = none) {dbPath : String}
    {files : List SnapshotFileEntry} {d : DbDrive β}
    (h : ∀ f ∈ files, Matching env d dbPath f) :
    verifyFiles env φ dbPath files d = (.ok ⟨true, none⟩, d) := by
  induction files with
  | nil => rfl
  | cons f files ih =>
    obtain ⟨⟨c, hc, hsha, hbytes⟩, hrest⟩ := List.forall_mem_cons.mp h
    have hexists : d.existsAt (.archived (env.basename dbPath) f.suffix) = true := by
      simp [DbDrive.existsAt, hc]
    simp only [verifyFiles, Call.get_bind]
    rw [if_pos hexists, Call.bind_of_ok (sha256File_reads hread hc),
      if_neg (by simp [hsha, hbytes])]
    exact ih hrest

/-! ## Putting back -/

abbrev LiveOf (dbPath : String) (suffixes : List Suffix) : DbFile → Prop :=
  fun f => ∃ s ∈ suffixes, f = .live dbPath s

/-- Sidecars are removed one after another, and nothing else is touched. -/
structure Removing (dbPath : String) (suffixes : List Suffix) (d d' : DbDrive β) : Prop where
  kept : KeptBut (LiveOf dbPath suffixes) d d'
  either : ∀ s, d'.files (.live dbPath s) = d.files (.live dbPath s) ∨
    d'.files (.live dbPath s) = none

instance (dbPath : String) (suffixes : List Suffix) :
    IsFrame (Removing (β := β) dbPath suffixes) where
  refl d := ⟨IsFrame.refl d, fun _ => .inl rfl⟩
  trans h h' := by
    refine ⟨IsFrame.trans h.kept h'.kept, fun s => ?_⟩
    rcases h'.either s with hs | hs
    · rw [hs]
      exact h.either s
    · exact .inr hs

theorem Removing.mono {dbPath : String} {suffixes suffixes' : List Suffix} {d d' : DbDrive β}
    (h : Removing dbPath suffixes d d') (hsub : suffixes ⊆ suffixes') :
    Removing dbPath suffixes' d d' := by
  refine ⟨fun f hf => h.kept f ?_, h.either⟩
  rintro ⟨s, hs, rfl⟩
  exact hf ⟨s, hsub hs, rfl⟩

theorem Removing.noteFailed {dbPath : String} {suffixes : List Suffix} {d d' : DbDrive β}
    (h : Removing dbPath suffixes d d') (op : SnapshotOp) :
    Removing dbPath suffixes d (d'.noteFailed op) := ⟨h.kept.noteFailed op, h.either⟩

theorem removeSidecars_removing (dbPath : String) (suffixes : List Suffix) :
    Respects (Removing dbPath suffixes) (removeSidecars φ dbPath suffixes) := by
  induction suffixes with
  | nil => exact Respects.pure ()
  | cons s suffixes ih =>
    have hrest : Respects (Removing dbPath (s :: suffixes)) (removeSidecars φ dbPath suffixes) :=
      ih.mono fun _ _ h => h.mono (List.subset_cons_self s suffixes)
    refine Respects.bind Respects.get fun d => Respects.ite (Respects.bind ?_ fun _ => hrest) hrest
    refine Drive.attemptAtomic_respects (fun d => ?_) fun d => .noteFailed (IsFrame.refl d) _
    refine ⟨KeptBut.put ⟨s, List.mem_cons_self, rfl⟩ d none, fun s' => ?_⟩
    by_cases hs : s' = s
    · exact .inr (by rw [hs, Drive.put_self])
    · exact .inl (Drive.put_ne d (by simpa using hs) none)

/-- When it does not throw, the sidecars are gone. -/
theorem removeSidecars_ok {dbPath : String} {suffixes : List Suffix} {d d' : DbDrive β}
    (h : removeSidecars φ dbPath suffixes d = (.ok (), d')) :
    ∀ s ∈ suffixes, d'.files (.live dbPath s) = none := by
  induction suffixes generalizing d with
  | nil => simp
  | cons s suffixes ih =>
    simp only [removeSidecars, Call.bind_ok, Call.get_ok] at h
    obtain ⟨_, _, ⟨rfl, rfl⟩, h⟩ := h
    rw [List.forall_mem_cons]
    split at h
    · obtain ⟨⟨⟩, d₁, h₁, h⟩ := Call.bind_ok.mp h
      have hgone : d₁.files (.live dbPath s) = none := by
        rw [Drive.attemptAtomic_ok h₁, Drive.put_self]
      have hleft := (removeSidecars_removing (φ := φ) dbPath suffixes d₁).either s
      rw [h, hgone] at hleft
      exact ⟨hleft.elim id id, ih h⟩
    · rename_i hno
      have hgone : d.files (.live dbPath s) = none := by
        simpa [DbDrive.existsAt] using hno
      have hleft := (removeSidecars_removing (φ := φ) dbPath suffixes d).either s
      rw [h, hgone] at hleft
      exact ⟨hleft.elim id id, ih h⟩

theorem removeSidecars_answers {dbPath : String} (suffixes : List Suffix)
    (hφ : ∀ s, φ (.remove (.live dbPath s)) = none) (d : DbDrive β) :
    ∃ d', removeSidecars φ dbPath suffixes d = (.ok (), d') := by
  induction suffixes generalizing d with
  | nil => exact ⟨d, rfl⟩
  | cons s suffixes ih =>
    simp only [removeSidecars, Call.get_bind]
    split
    · have hremove : Drive.attemptAtomic φ (.remove (.live dbPath s))
          (fun d => d.put (.live dbPath s) none) d = (.ok (), d.put (.live dbPath s) none) := by
        simp [Drive.attemptAtomic, hφ]
      rw [Call.bind_of_ok hremove]
      exact ih _
    · exact ih d

/-- How far `putBack` got. -/
inductive PutBack (dbPath base : String) (d d' : DbDrive β) : Except String Unit → Prop
  /-- It stopped before the main file was replaced; the log may be gone already. -/
  | stopped {e : String} (main : d'.files (.live dbPath .main) = d.files (.live dbPath .main))
      (wal : d'.files (.live dbPath .wal) = d.files (.live dbPath .wal) ∨
        d'.files (.live dbPath .wal) = none) : PutBack dbPath base d d' (.error e)
  | done (main : d'.files (.live dbPath .main) = d.files (.archived base .main))
      (wal : d'.files (.live dbPath .wal) = none) : PutBack dbPath base d d' (.ok ())

theorem put_restoreTmp_live (d : DbDrive β) (dbPath : String) (c : Option (Stored β)) (s : Suffix) :
    (d.put (.restoreTmp dbPath) c).files (.live dbPath s) = d.files (.live dbPath s) :=
  Drive.put_ne d (by simp) c

theorem putBack_cases (env : SnapshotEnv β) (φ : DbFaults β) (dbPath : String) (d : DbDrive β) :
    PutBack dbPath (env.basename dbPath) d (putBack env φ dbPath d).2
      (putBack env φ dbPath d).1 := by
  -- Copy, two removals, rename: each may be where it stops.
  unfold putBack
  rcases hcopy : copyFile φ (.archived (env.basename dbPath) .main) (.restoreTmp dbPath) d with
    ⟨e | ⟨⟩, d₁⟩
  · rw [Call.bind_of_error hcopy]
    obtain ⟨c, rfl⟩ := Drive.attempt_error hcopy
    exact .stopped (put_restoreTmp_live d dbPath c .main)
      (.inl (put_restoreTmp_live d dbPath c .wal))
  · rw [Call.bind_of_ok hcopy]
    obtain rfl := Drive.attempt_ok hcopy
    set d₁ := d.put (.restoreTmp dbPath) (d.files (.archived (env.basename dbPath) .main)) with hd₁
    have hlive : ∀ s, d₁.files (.live dbPath s) = d.files (.live dbPath s) :=
      put_restoreTmp_live d dbPath _
    have hremove := removeSidecars_removing (φ := φ) dbPath [.wal, .shm] d₁
    rcases hrest : removeSidecars φ dbPath [.wal, .shm] d₁ with ⟨e | ⟨⟩, d₂⟩
    · rw [Call.bind_of_error hrest]
      rw [hrest] at hremove
      refine .stopped ?_ ?_
      · exact (hremove.kept _ (by simp)).trans (hlive .main)
      · rw [← hlive .wal]
        exact hremove.either .wal
    · rw [Call.bind_of_ok hrest]
      rw [hrest] at hremove
      have hmain := (hremove.kept (.live dbPath .main) (by simp)).trans (hlive .main)
      have hwal := removeSidecars_ok hrest .wal (by simp)
      have htmp := hremove.kept (.restoreTmp dbPath) (by simp)
      rcases hrename : renameFile φ (.restoreTmp dbPath) (.live dbPath .main) d₂ with ⟨e | ⟨⟩, d₃⟩
      · obtain rfl := Drive.attemptAtomic_error hrename
        exact .stopped hmain (.inr hwal)
      · obtain rfl := Drive.attemptAtomic_ok hrename
        refine .done ?_ ?_
        · rw [Drive.put_ne _ (by simp), Drive.put_self]
          exact htmp.trans (Drive.put_self d _ _)
        · rw [Drive.put_ne _ (by simp), Drive.put_ne _ (by simp)]
          exact hwal

/-- Without a fault, or with none but of the rename, it gets as far as the rename. -/
theorem putBack_renames (env : SnapshotEnv β) (φ : DbFaults β) (dbPath : String) (d : DbDrive β)
    (hcopy : φ (.copy (.archived (env.basename dbPath) .main) (.restoreTmp dbPath)) = none)
    (hremove : ∀ s, φ (.remove (.live dbPath s)) = none) :
    ∃ d', d'.files (.live dbPath .main) = d.files (.live dbPath .main) ∧
      d'.files (.live dbPath .wal) = none ∧
      putBack env φ dbPath d = renameFile φ (.restoreTmp dbPath) (.live dbPath .main) d' := by
  have hfirst : copyFile φ (.archived (env.basename dbPath) .main) (.restoreTmp dbPath) d =
      (.ok (), d.put (.restoreTmp dbPath) (d.files (.archived (env.basename dbPath) .main))) := by
    simp [copyFile, Drive.attempt, hcopy]
  obtain ⟨d', hd'⟩ := removeSidecars_answers [.wal, .shm] hremove
    (d.put (.restoreTmp dbPath) (d.files (.archived (env.basename dbPath) .main)))
  have hkept := (removeSidecars_removing (φ := φ) dbPath [.wal, .shm]
    (d.put (.restoreTmp dbPath) (d.files (.archived (env.basename dbPath) .main)))).kept
  rw [hd'] at hkept
  refine ⟨d', ?_, removeSidecars_ok hd' .wal (by simp), ?_⟩
  · exact (hkept (.live dbPath .main) (by simp)).trans (put_restoreTmp_live d dbPath _ .main)
  · rw [putBack, Call.bind_of_ok hfirst, Call.bind_of_ok hd']

/-! ## A whole restore -/

theorem readSnapshotManifest_cases (d : DbDrive β) :
    (∃ m, d.files .manifest = some (.manifest m) ∧ readSnapshotManifest φ d = (.ok (some m), d)) ∨
      ∃ d', d'.files = d.files ∧ readSnapshotManifest φ d = (.ok none, d') := by
  unfold readSnapshotManifest
  rcases hread : Drive.attemptAtomic φ (.read .manifest) id d with ⟨e | ⟨⟩, d'⟩
  · obtain rfl := Drive.attemptAtomic_error hread
    exact .inr ⟨d.noteFailed (.read .manifest), rfl, rfl⟩
  · obtain rfl : d' = d := Drive.attemptAtomic_ok hread
    dsimp only
    split
    · rename_i m hm
      exact .inl ⟨m, hm, rfl⟩
    · exact .inr ⟨d', rfl, rfl⟩

/-- It touches the files of a database only for an archive that is the manifest's. -/
theorem restore_cases (env : SnapshotEnv β) (φ : DbFaults β) (d : DbDrive β) :
    (∃ m, d.files .manifest = some (.manifest m) ∧ Verified env d m ∧
      (∃ f ∈ m.files, f.suffix = .main) ∧
      restoreDbSnapshot env φ d = restoreMainDb env φ m.dbPath d) ∨
    ((restoreDbSnapshot env φ d).2.files = d.files ∧
      ∀ r, (restoreDbSnapshot env φ d).1 = .ok r → r.ok = false) := by
  unfold restoreDbSnapshot
  rcases readSnapshotManifest_cases (φ := φ) d with ⟨m, hm, hread⟩ | ⟨d', hsame, hread⟩
  · rw [Call.bind_of_ok hread]
    dsimp only
    -- Only a snapshot that verifies and has a main file is put back.
    rcases hv : verifySnapshot env φ m d with ⟨e | v, d'⟩
    · have hkept := verifyFiles_keeps env φ m.dbPath m.files d
      rw [verifySnapshot] at hv
      rw [hv] at hkept
      rw [← verifySnapshot] at hv
      rw [Call.bind_of_error hv]
      exact .inr ⟨hkept.files, nofun⟩
    · obtain ⟨rfl, hiff⟩ := verifyFiles_ok hv
      rw [Call.bind_of_ok hv]
      by_cases hok : v.ok = true
      · by_cases hmain : m.files.any fun f => f.suffix = .main
        · rw [if_pos hok, if_pos hmain]
          obtain ⟨f, hf, hsuffix⟩ := List.any_eq_true.mp hmain
          exact .inl ⟨m, hm, hiff.mp hok, ⟨f, hf, of_decide_eq_true hsuffix⟩, rfl⟩
        · rw [if_pos hok, if_neg hmain]
          refine .inr ⟨rfl, fun r hr => ?_⟩
          obtain rfl := Except.ok.inj hr
          rfl
      · rw [if_neg hok]
        refine .inr ⟨rfl, fun r hr => ?_⟩
        obtain rfl := Except.ok.inj hr
        rfl
  · rw [Call.bind_of_ok hread]
    refine .inr ⟨hsame, fun r hr => ?_⟩
    obtain rfl := Except.ok.inj hr
    rfl

/-- A manifest that is read and is the archive's. -/
structure Restorable (env : SnapshotEnv β) (d : DbDrive β) (m : SnapshotManifest) : Prop where
  manifest : d.files .manifest = some (.manifest m)
  verified : Verified env d m
  main : ∃ f ∈ m.files, f.suffix = .main

theorem restore_reads (hread : ∀ f, φ (.read f) = none) {d : DbDrive β} {m : SnapshotManifest}
    (h : Restorable env d m) :
    restoreDbSnapshot env φ d = restoreMainDb env φ m.dbPath d := by
  have hfirst : readSnapshotManifest φ d = (.ok (some m), d) := by
    simp [readSnapshotManifest, Drive.attemptAtomic, hread, h.manifest]
  have hverify : verifySnapshot env φ m d = (.ok ⟨true, none⟩, d) :=
    verifyFiles_reads hread h.verified
  obtain ⟨f, hf, hsuffix⟩ := h.main
  have hmain : (m.files.any fun f => f.suffix = .main) = true :=
    List.any_eq_true.mpr ⟨f, hf, decide_eq_true hsuffix⟩
  rw [restoreDbSnapshot, Call.bind_of_ok hfirst]
  dsimp only
  rw [Call.bind_of_ok hverify, if_pos rfl, if_pos hmain]

/-- Of two states with the same main file and the same log the same is seen. -/
theorem logical_congr [Inhabited β] {d d' : DbDrive β} {dbPath : String}
    (hmain : d'.files (.live dbPath .main) = d.files (.live dbPath .main))
    (hwal : d'.files (.live dbPath .wal) = d.files (.live dbPath .wal)) :
    DbDrive.logical d' dbPath = DbDrive.logical d dbPath := by
  unfold DbDrive.logical
  rw [hmain, hwal]

/-- Without a log the main file is seen. -/
theorem logical_alone [Inhabited β] {d : DbDrive β} {dbPath : String} {main : List β}
    (hmain : d.files (.live dbPath .main) = some (.pages main))
    (hwal : d.files (.live dbPath .wal) = none) : DbDrive.logical d dbPath = some main := by
  unfold DbDrive.logical
  rw [hmain, hwal]
  exact congrArg some (Wal.content_nil main)

/-! ## Stopping anywhere -/

theorem restoreMainDb_snd (dbPath : String) (d : DbDrive β) :
    (restoreMainDb env φ dbPath d).2 = (putBack env φ dbPath d).2 := by
  unfold restoreMainDb
  rcases putBack env φ dbPath d with ⟨e | ⟨⟩, d'⟩
  · rfl
  · rfl

theorem restoreMainDb_fst {dbPath : String} {d : DbDrive β} {r : RestoreResult}
    (h : (restoreMainDb env φ dbPath d).1 = .ok r) :
    r.ok = true ↔ (putBack env φ dbPath d).1 = .ok () := by
  unfold restoreMainDb at h
  rcases hput : putBack env φ dbPath d with ⟨e | ⟨⟩, d'⟩
  · rw [hput] at h
    obtain rfl := Except.ok.inj h
    simp
  · rw [hput] at h
    obtain rfl := Except.ok.inj h
    simp

/-- The log that belongs to the snapshot. -/
def snapshotLog (env : SnapshotEnv β) (d : DbDrive β) (m : SnapshotManifest) :
    List (Wal.Frame β) :=
  if m.files.any fun f => f.suffix = .wal then
    DbDrive.framesOf (d.files (.archived (env.basename m.dbPath) .wal))
  else []

section Atomic

variable [Inhabited β] {d : DbDrive β} {m : SnapshotManifest} {main snap : List β}

/-- What the archived files show together. -/
def snapshotContent (env : SnapshotEnv β) (d : DbDrive β) (m : SnapshotManifest) :
    Option (List β) :=
  match d.files (.archived (env.basename m.dbPath) .main) with
  | some (.pages snap) => some (Wal.content snap (snapshotLog env d m))
  | _ => none

/-- Wherever a restore stops, the database is as it was or as in the snapshot. -/
def RestoresAtomically (env : SnapshotEnv β) (d : DbDrive β) (m : SnapshotManifest) : Prop :=
  ∀ φ : DbFaults β,
    DbDrive.logical (restoreDbSnapshot env φ d).2 m.dbPath = DbDrive.logical d m.dbPath ∨
      DbDrive.logical (restoreDbSnapshot env φ d).2 m.dbPath = snapshotContent env d m

/-- Nothing fails but the rename of the restored main file. -/
def renameFails (dbPath : String) : DbFaults β := fun op =>
  if op = .rename (.restoreTmp dbPath) (.live dbPath .main) then some ⟨"", none⟩ else none

/-- Wherever a restore stops the database is as it was or as in the snapshot, if and only if neither
log matters: the live log is settled or the live main file is what the snapshot shows, and the
archived log is settled or the archived main file is what the database showed. -/
theorem restore_crash_atomic_iff (hm : Restorable env d m)
    (hlive : d.files (.live m.dbPath .main) = some (.pages main))
    (hsnap : d.files (.archived (env.basename m.dbPath) .main) = some (.pages snap)) :
    RestoresAtomically env d m ↔
      (Wal.Settled main (DbDrive.framesOf (d.files (.live m.dbPath .wal))) ∨
        main = Wal.content snap (snapshotLog env d m)) ∧
      (Wal.Settled snap (snapshotLog env d m) ∨
        snap = Wal.content main (DbDrive.framesOf (d.files (.live m.dbPath .wal)))) := by
  have hbefore : DbDrive.logical d m.dbPath =
      some (Wal.content main (DbDrive.framesOf (d.files (.live m.dbPath .wal)))) := by
    unfold DbDrive.logical
    rw [hlive]
  have hcontent : snapshotContent env d m = some (Wal.content snap (snapshotLog env d m)) := by
    unfold snapshotContent
    rw [hsnap]
  unfold RestoresAtomically
  rw [hbefore, hcontent, ← Wal.content_eq_main, ← Wal.content_eq_main]
  constructor
  · intro h
    constructor
    · -- the log is gone and the rename did not happen
      have hstop := h (renameFails m.dbPath)
      rw [restore_reads (fun f => rfl) hm, restoreMainDb_snd] at hstop
      obtain ⟨d', hmain, hwal, hput⟩ := putBack_renames env (renameFails m.dbPath)
        m.dbPath d rfl fun s => rfl
      have hkept : (putBack env (renameFails m.dbPath) m.dbPath d).2.files = d'.files := by
        rw [hput]
        simp [renameFile, Drive.attemptAtomic, renameFails]
      rw [logical_alone ((congrFun hkept _).trans (hmain.trans hlive))
        ((congrFun hkept _).trans hwal)]
        at hstop
      exact hstop.imp (fun heq => (Option.some.inj heq).symm) Option.some.inj
    · have hend := h Faults.none
      rw [restore_reads (fun f => rfl) hm, restoreMainDb_snd] at hend
      obtain ⟨d', -, -, hput⟩ := putBack_renames env Faults.none
        m.dbPath d rfl fun s => rfl
      have hdone := putBack_cases env Faults.none m.dbPath d
      have hok : (putBack env Faults.none m.dbPath d).1 = .ok () := by
        rw [hput]
        rfl
      rw [hok] at hdone
      obtain ⟨-, -⟩ | ⟨hmain, hwal⟩ := hdone
      rw [logical_alone (hmain.trans hsnap) hwal] at hend
      exact hend.symm.imp (fun heq => (Option.some.inj heq).symm) Option.some.inj
  · rintro ⟨hfirst, hlast⟩ φ
    rcases restore_cases env φ d with ⟨m', hm', -, -, hrun⟩ | ⟨hsame, -⟩
    · obtain rfl : m' = m := by
        have heq := hm'.symm.trans hm.manifest
        cases heq
        rfl
      rw [hrun, restoreMainDb_snd]
      have hput := putBack_cases env φ m'.dbPath d
      generalize (putBack env φ m'.dbPath d).1 = out at hput
      cases hput with
      | stopped hmain hwal =>
        rcases hwal with hwal | hwal
        · exact .inl ((logical_congr hmain hwal).trans hbefore)
        · rw [logical_alone (hmain.trans hlive) hwal]
          exact hfirst.imp (fun heq => congrArg some heq.symm) (congrArg some)
      | done hmain hwal =>
        rw [logical_alone (hmain.trans hsnap) hwal]
        exact hlast.symm.imp (congrArg some) fun heq => congrArg some heq.symm
    · refine .inl ?_
      rw [← hbefore]
      exact logical_congr (congrFun hsame _) (congrFun hsame _)

end Atomic

/-- A snapshot whose only page is 0, beside a database whose only page is as given. -/
def upgraded (page : Nat) (log : Option (List (Wal.Frame Nat))) : DbDrive Nat :=
  { files := fun
      | .live _ .main => some (.pages [page])
      | .live _ .wal => log.map .frames
      | .archived _ .main => some (.pages [0])
      | .manifest => some (.manifest ⟨"xbus.sqlite", 0, [⟨.main, "digest of 0", 1⟩]⟩)
      | _ => none
    failed := [] }

def pageEnv : SnapshotEnv Nat where
  sha256
    | .pages [0] => "digest of 0"
    | _ => "another digest"
  bytes
    | .pages pages => pages.length
    | _ => 0
  basename path := path
  inBackup name := name

theorem upgraded_restorable (page : Nat) (log : Option (List (Wal.Frame Nat))) :
    Restorable pageEnv (upgraded page log) ⟨"xbus.sqlite", 0, [⟨.main, "digest of 0", 1⟩]⟩ where
  manifest := rfl
  verified := by
    intro f hf
    rw [List.mem_singleton.mp hf]
    exact ⟨_, rfl, rfl, rfl⟩
  main := ⟨_, List.mem_singleton_self _, rfl⟩

/-- The page is 2 in the live log and 1 in the live main file. A restore that stops before the
rename shows 1, which is neither 2 nor the 0 of the snapshot. -/
theorem interrupted_restore_lost :
    Restorable pageEnv (upgraded 1 (some [⟨0, 2, some 1⟩]))
      ⟨"xbus.sqlite", 0, [⟨.main, "digest of 0", 1⟩]⟩ ∧
    ¬ RestoresAtomically pageEnv (upgraded 1 (some [⟨0, 2, some 1⟩]))
      ⟨"xbus.sqlite", 0, [⟨.main, "digest of 0", 1⟩]⟩ := by
  refine ⟨upgraded_restorable 1 _, fun h => ?_⟩
  exact absurd (h (renameFails "xbus.sqlite")) (by decide +kernel)

/-- The live log writes the page the live main file has, so nothing is lost with it. -/
theorem settled_restore_atomic :
    RestoresAtomically pageEnv (upgraded 1 (some [⟨0, 1, some 1⟩]))
      ⟨"xbus.sqlite", 0, [⟨.main, "digest of 0", 1⟩]⟩ :=
  (restore_crash_atomic_iff (upgraded_restorable 1 _) rfl rfl).mpr
    ⟨.inl (by decide), .inl (by decide)⟩

/-! ## Taking a snapshot -/

/-- What copying the files with the given suffixes has left. -/
structure Archived (env : SnapshotEnv β) (dbPath : String) (suffixes : List Suffix)
    (d : DbDrive β) (files : List SnapshotFileEntry) (d' : DbDrive β) : Prop where
  kept : KeptBut (fun f => ∃ s ∈ suffixes, f = .archived (env.basename dbPath) s ∨
    f = .archivedTmp (env.basename dbPath) s) d d'
  entries : ∀ f ∈ files, f.suffix ∈ suffixes ∧ ∃ c, d.files (.live dbPath f.suffix) = some c ∧
    d'.files (.archived (env.basename dbPath) f.suffix) = some c ∧
    f.sha256 = env.sha256 c ∧ f.bytes = env.bytes c
  complete : ∀ s ∈ suffixes, (d.files (.live dbPath s)).isSome → ∃ f ∈ files, f.suffix = s

theorem archiveFiles_ok {dbPath : String} {suffixes : List Suffix} (hnodup : suffixes.Nodup)
    {d d' : DbDrive β} {files : List SnapshotFileEntry}
    (h : archiveFiles env φ dbPath suffixes d = (.ok files, d')) :
    Archived env dbPath suffixes d files d' := by
  induction suffixes generalizing d files with
  | nil =>
    obtain ⟨rfl, rfl⟩ := Call.pure_ok.mp h
    exact ⟨IsFrame.refl d, by simp, by simp⟩
  | cons s suffixes ih =>
    obtain ⟨hs, hnodup⟩ := List.nodup_cons.mp hnodup
    simp only [archiveFiles, Call.get_bind] at h
    split at h
    · rename_i hexists
      simp only [Call.bind_ok, Call.pure_ok] at h
      obtain ⟨⟨⟩, d₁, h₁, ⟨⟩, d₂, h₂, digest, d₃, h₃, rest, d₄, h₄, rfl, rfl⟩ := h
      obtain rfl := Drive.attempt_ok h₁
      obtain ⟨hsame, c, hc, rfl⟩ := sha256File_ok h₃
      subst hsame
      have hd₂ := Drive.attemptAtomic_ok h₂
      have hrest := ih hnodup h₄
      have harchived : d₃.files (.archived (env.basename dbPath) s) = d.files (.live dbPath s) := by
        rw [hd₂, Drive.put_ne _ (by simp), Drive.put_self, Drive.put_self]
      have hother : ∀ f, f ≠ .archived (env.basename dbPath) s →
          f ≠ .archivedTmp (env.basename dbPath) s → d₃.files f = d.files f := by
        intro f hf hf'
        rw [hd₂, Drive.put_ne _ hf', Drive.put_ne _ hf, Drive.put_ne _ hf']
      have hlive : ∀ s', d₃.files (.live dbPath s') = d.files (.live dbPath s') :=
        fun s' => hother _ (by simp) (by simp)
      -- what is copied later is copied elsewhere
      have hstays : d₄.files (.archived (env.basename dbPath) s) =
          d₃.files (.archived (env.basename dbPath) s) := by
        refine hrest.kept _ ?_
        rintro ⟨s', hs', heq | heq⟩
        · obtain ⟨-, rfl⟩ := DbFile.archived.inj heq
          exact hs hs'
        · cases heq
      refine ⟨?_, ?_, ?_⟩
      · intro f hf
        have hne : f ≠ .archived (env.basename dbPath) s := by
          rintro rfl
          exact hf ⟨s, List.mem_cons_self, .inl rfl⟩
        have hne' : f ≠ .archivedTmp (env.basename dbPath) s := by
          rintro rfl
          exact hf ⟨s, List.mem_cons_self, .inr rfl⟩
        refine (hrest.kept f ?_).trans (hother f hne hne')
        rintro ⟨s', hs', heq⟩
        exact hf ⟨s', List.mem_cons_of_mem s hs', heq⟩
      · intro f hf
        rcases List.mem_cons.mp hf with rfl | hf
        · rw [harchived] at hc
          exact ⟨List.mem_cons_self, c, hc, (hstays.trans harchived).trans hc, rfl, rfl⟩
        · obtain ⟨hmem, c', hc', hrest'⟩ := hrest.entries f hf
          exact ⟨List.mem_cons_of_mem s hmem, c', (hlive _).symm.trans hc', hrest'⟩
      · intro s' hs' hsome
        rcases List.mem_cons.mp hs' with rfl | hs'
        · exact ⟨_, List.mem_cons_self, rfl⟩
        · rw [← hlive] at hsome
          obtain ⟨f, hf, hsuffix⟩ := hrest.complete s' hs' hsome
          exact ⟨f, List.mem_cons_of_mem _ hf, hsuffix⟩
    · rename_i hno
      have hrest := ih hnodup h
      refine ⟨?_, ?_, ?_⟩
      · intro f hf
        refine hrest.kept f ?_
        rintro ⟨s', hs', heq⟩
        exact hf ⟨s', List.mem_cons_of_mem s hs', heq⟩
      · intro f hf
        obtain ⟨hmem, hentry⟩ := hrest.entries f hf
        exact ⟨List.mem_cons_of_mem s hmem, hentry⟩
      · intro s' hs' hsome
        rcases List.mem_cons.mp hs' with rfl | hs'
        · exact absurd hsome hno
        · exact hrest.complete s' hs' hsome

theorem archiveFiles_answers (env : SnapshotEnv β) (dbPath : String) (suffixes : List Suffix)
    (d : DbDrive β) :
    ∃ files d', archiveFiles env Faults.none dbPath suffixes d = (.ok files, d') := by
  induction suffixes generalizing d with
  | nil => exact ⟨[], d, rfl⟩
  | cons s suffixes ih =>
    simp only [archiveFiles, Call.get_bind]
    split
    · rename_i hexists
      obtain ⟨c, hc⟩ := Option.isSome_iff_exists.mp hexists
      set tmp := DbFile.archivedTmp (env.basename dbPath) s
      set dst := DbFile.archived (env.basename dbPath) s
      have hcopy : copyFile Faults.none (.live dbPath s) tmp d =
          (.ok (), d.put tmp (some c)) := by rw [← hc]; rfl
      have hrename : renameFile Faults.none tmp dst (d.put tmp (some c)) =
          (.ok (), ((d.put tmp (some c)).put dst (some c)).put tmp none) := by
        show (Except.ok (), ((d.put tmp (some c)).put dst ((d.put tmp (some c)).files tmp)).put
          tmp none) = _
        rw [Drive.put_self]
      have hdst : (((d.put tmp (some c)).put dst (some c)).put tmp none).files dst = some c := by
        rw [Drive.put_ne _ (by simp [tmp, dst]), Drive.put_self]
      obtain ⟨files, d', hrest⟩ := ih (((d.put tmp (some c)).put dst (some c)).put tmp none)
      rw [Call.bind_of_ok hcopy, Call.bind_of_ok hrename,
        Call.bind_of_ok (sha256File_reads (fun _ => rfl) hdst), Call.bind_of_ok hrest]
      exact ⟨_, d', rfl⟩
    · exact ih d

/-- What a snapshot that answers has left, and what its manifest says. -/
structure Snapped (env : SnapshotEnv β) (dbPath : String) (d : DbDrive β) (m : SnapshotManifest)
    (d' : DbDrive β) : Prop where
  path : m.dbPath = dbPath
  restorable : Restorable env d' m
  main : ∃ f ∈ m.files, f.suffix = .main ∧ ∃ c, d.files (.live dbPath .main) = some c ∧
    f.sha256 = env.sha256 c
  copied : d'.files (.archived (env.basename dbPath) .main) = d.files (.live dbPath .main)

theorem snapshotDb_ok {dbPath : String} {nowMs : Int} {d d' : DbDrive β} {m : SnapshotManifest}
    (h : snapshotDb env φ dbPath nowMs d = (.ok (some m), d')) : Snapped env dbPath d m d' := by
  simp only [snapshotDb, Call.get_bind] at h
  split at h
  · rename_i hexists
    simp only [Call.bind_ok, Call.pure_ok] at h
    obtain ⟨⟨⟩, d₁, h₁, files, d₂, h₂, ⟨⟩, d₃, h₃, hm, rfl⟩ := h
    obtain rfl := Option.some.inj hm
    obtain rfl : d₁ = d := Drive.attemptAtomic_ok h₁
    have harchived := archiveFiles_ok (by decide : SIDECAR_SUFFIXES.Nodup) h₂
    obtain ⟨⟨⟩, d₄, h₄, h₅⟩ := Call.bind_ok.mp h₃
    obtain rfl := Drive.attempt_ok h₄
    obtain rfl := Drive.attemptAtomic_ok h₅
    obtain ⟨f, hf, hsuffix⟩ := harchived.complete .main (by decide) hexists
    obtain ⟨-, c, hlive, hcopy, hsha, -⟩ := harchived.entries f hf
    rw [hsuffix] at hlive hcopy
    refine ⟨rfl, ⟨?_, fun f hf => ?_, f, hf, hsuffix⟩, ⟨f, hf, hsuffix, c, hlive, hsha⟩, ?_⟩
    · rw [Drive.put_ne _ (by simp), Drive.put_self, Drive.put_self]
    · obtain ⟨-, c, -, hc, hsha, hbytes⟩ := harchived.entries f hf
      refine ⟨c, ?_, hsha.symm, hbytes.symm⟩
      rw [Drive.put_ne _ (by simp), Drive.put_ne _ (by simp), Drive.put_ne _ (by simp)]
      exact hc
    · rw [Drive.put_ne _ (by simp), Drive.put_ne _ (by simp), Drive.put_ne _ (by simp)]
      exact hcopy.trans hlive.symm
  · cases (Call.pure_ok.mp h).1

theorem snapshotDb_answers (env : SnapshotEnv β) {dbPath : String} (nowMs : Int) {d : DbDrive β}
    (h : (d.files (.live dbPath .main)).isSome) :
    ∃ m d', snapshotDb env Faults.none dbPath nowMs d = (.ok (some m), d') := by
  obtain ⟨files, d', hfiles⟩ := archiveFiles_answers env dbPath SIDECAR_SUFFIXES d
  have hmkdir : Drive.attemptAtomic (Faults.none : DbFaults β) .mkdir id d = (.ok (), d) := rfl
  refine ⟨⟨dbPath, nowMs, files⟩, ?_⟩
  simp only [snapshotDb, Call.get_bind]
  rw [if_pos (show d.existsAt (.live dbPath .main) = true from h), Call.bind_of_ok hmkdir,
    Call.bind_of_ok hfiles]
  exact ⟨_, rfl⟩

/-! ## Round trip -/

section RoundTrip

variable [Inhabited β]

/-- A reader sees the same after a checkpoint, however it came out. -/
theorem content_mainAfter (o : Checkpoint) (main : List β) (log : List (Wal.Frame β)) :
    Wal.content (o.mainAfter main log) log = Wal.content main log := by
  cases o with
  | complete _ => exact Wal.content_content main log
  | busy mark => exact Wal.content_backfill mark _ main log
  | failing mark pages _ => exact Wal.content_backfill mark pages main log

/-- After the checkpoint the main file holds what the committed frames say. -/
def FoldsIn (o : Checkpoint) (dbPath : String) (d : DbDrive β) : Prop :=
  ∀ main, d.files (.live dbPath .main) = some (.pages main) →
    Wal.Settled (o.mainAfter main (DbDrive.framesOf (d.files (.live dbPath .wal))))
      (DbDrive.framesOf (d.files (.live dbPath .wal)))

/-- A complete checkpoint leaves nothing to fold in. -/
theorem complete_folds (removed : Bool) (dbPath : String) (d : DbDrive β) :
    FoldsIn (.complete removed) dbPath d := by
  intro main _
  rw [← Wal.content_eq_main]
  exact Wal.content_content main _

/-- A restore of the snapshot that says it is done shows what the database showed when the snapshot
was taken, whatever the files of the database are by then. -/
def RoundTrips (env : SnapshotEnv β) (o : Checkpoint) (dbPath : String) (nowMs : Int)
    (d : DbDrive β) : Prop :=
  ∀ (φ : DbFaults β) (m : SnapshotManifest) (d₁ : DbDrive β),
    snapshotDbCheckpointed env φ o dbPath nowMs d = (.ok (some m), d₁) →
    ∀ (φ' : DbFaults β) (d₂ : DbDrive β), d₂.files .manifest = some (.manifest m) →
      ∀ r, (restoreDbSnapshot env φ' d₂).1 = .ok r → r.ok = true →
        DbDrive.logical (restoreDbSnapshot env φ' d₂).2 dbPath = DbDrive.logical d dbPath

/-- An archive that is not its manifest's is not restored, and no file is touched. -/
def RefusesMismatch (env : SnapshotEnv β) : Prop :=
  ∀ (φ : DbFaults β) (d : DbDrive β),
    (∀ m, d.files .manifest = some (.manifest m) → ¬ Verified env d m) →
    (restoreDbSnapshot env φ d).2.files = d.files ∧
      ∀ r, (restoreDbSnapshot env φ d).1 = .ok r → r.ok = false

omit [Inhabited β] in
theorem refusesMismatch (env : SnapshotEnv β) : RefusesMismatch env := by
  intro φ d h
  rcases restore_cases env φ d with ⟨m, hm, hv, -⟩ | hkept
  · exact absurd hv (h m hm)
  · exact hkept

theorem checkpointMainDb_ok (o : Checkpoint) (dbPath : String) (d : DbDrive β) :
    ∃ r, checkpointMainDb o dbPath d = (.ok r, (checkpointMainDb o dbPath d).2) := by
  unfold checkpointMainDb
  split
  · split
    · exact ⟨_, rfl⟩
    · exact ⟨_, rfl⟩
  · exact ⟨_, rfl⟩

theorem checkpointMainDb_main {o : Checkpoint} {dbPath : String} {d : DbDrive β} {main : List β}
    (h : d.files (.live dbPath .main) = some (.pages main)) :
    (checkpointMainDb o dbPath d).2.files (.live dbPath .main) =
      some (.pages (o.mainAfter main (DbDrive.framesOf (d.files (.live dbPath .wal))))) := by
  have hexists : d.existsAt (.live dbPath .main) = true := by simp [DbDrive.existsAt, h]
  rw [checkpointMainDb, if_pos hexists, h]
  dsimp only
  cases o with
  | complete removed =>
    cases removed with
    | true =>
      show ((Drive.put _ _ _).put _ none).files _ = _
      rw [Drive.put_ne _ (by simp), Drive.put_ne _ (by simp), Drive.put_self]
    | false =>
      show (Drive.put _ _ _).files _ = _
      rw [Drive.put_ne _ (by simp), Drive.put_self]
  | busy mark => exact Drive.put_self d _ _
  | failing mark pages message => exact Drive.put_self d _ _

theorem checkpointMainDb_other {o : Checkpoint} {dbPath : String} {d : DbDrive β}
    (h : ∀ main, d.files (.live dbPath .main) ≠ some (.pages main)) :
    (checkpointMainDb o dbPath d).2 = d := by
  unfold checkpointMainDb
  split
  · split
    · rename_i main hmain
      exact absurd hmain (h main)
    · rfl
  · rfl

omit [Inhabited β] in
/-- A restore that says it is done has put the archived main file back, without a log. -/
theorem restore_done {d : DbDrive β} {r : RestoreResult}
    (hr : (restoreDbSnapshot env φ d).1 = .ok r) (hok : r.ok = true) :
    ∃ m, Restorable env d m ∧
      (restoreDbSnapshot env φ d).2.files (.live m.dbPath .main) =
        d.files (.archived (env.basename m.dbPath) .main) ∧
      (restoreDbSnapshot env φ d).2.files (.live m.dbPath .wal) = none := by
  rcases restore_cases env φ d with ⟨m, hm, hv, hmain, hrun⟩ | ⟨-, hbad⟩
  · rw [hrun] at hr
    refine ⟨m, ⟨hm, hv, hmain⟩, ?_⟩
    rw [hrun, restoreMainDb_snd]
    have hput := putBack_cases env φ m.dbPath d
    rw [(restoreMainDb_fst hr).mp hok] at hput
    obtain ⟨-, -⟩ | ⟨hlive, hwal⟩ := hput
    exact ⟨hlive, hwal⟩
  · rw [hbad r hr] at hok
    cases hok

omit [Inhabited β] in
/-- If nothing fails it is done. -/
theorem restore_answers {d : DbDrive β} {m : SnapshotManifest} (h : Restorable env d m) :
    ∃ r, (restoreDbSnapshot env Faults.none d).1 = .ok r ∧ r.ok = true := by
  rw [restore_reads (fun _ => rfl) h]
  obtain ⟨d', -, -, hput⟩ := putBack_renames env Faults.none m.dbPath d rfl
    fun _ => rfl
  unfold restoreMainDb
  rw [hput]
  exact ⟨_, rfl, rfl⟩

omit [Inhabited β] in
/-- What is put back is the main file that was there when the snapshot was taken. -/
theorem restored_main (hsha : Function.Injective env.sha256) {dbPath : String}
    {d d₁ d₂ : DbDrive β} {m : SnapshotManifest} (hsnap : Snapped env dbPath d m d₁)
    (hm : d₂.files .manifest = some (.manifest m)) {r : RestoreResult}
    (hr : (restoreDbSnapshot env φ d₂).1 = .ok r) (hok : r.ok = true) :
    (restoreDbSnapshot env φ d₂).2.files (.live dbPath .main) = d.files (.live dbPath .main) ∧
      (restoreDbSnapshot env φ d₂).2.files (.live dbPath .wal) = none := by
  obtain ⟨m', hm', hlive, hwal⟩ := restore_done hr hok
  obtain rfl : m' = m := by
    have heq := hm'.manifest.symm.trans hm
    cases heq
    rfl
  obtain ⟨rfl, -, ⟨f, hf, hsuffix, c, hc, hcsha⟩, -⟩ := hsnap
  obtain ⟨c', hc', hcsha', -⟩ := hm'.verified f hf
  -- one digest, one file
  obtain rfl : c' = c := hsha (hcsha'.trans hcsha)
  rw [hsuffix] at hc'
  exact ⟨hlive.trans (hc'.trans hc.symm), hwal⟩

/-- The archive of a snapshot, restored at once, shows the main file it was taken of. -/
theorem folds_of_roundTrips {o : Checkpoint} {dbPath : String} {nowMs : Int} {d : DbDrive β}
    (h : RoundTrips env o dbPath nowMs d) : FoldsIn o dbPath d := by
  intro main hmain
  obtain ⟨result, hcheck⟩ := checkpointMainDb_ok o dbPath d
  have hafter := checkpointMainDb_main (o := o) hmain
  obtain ⟨m, d₁, hrun⟩ := snapshotDb_answers env nowMs
    (d := (checkpointMainDb o dbPath d).2) (by rw [hafter]; rfl)
  have hsnap := snapshotDb_ok hrun
  obtain ⟨r, hr, hok⟩ := restore_answers hsnap.restorable
  have hback := h Faults.none m d₁ (by rw [snapshotDbCheckpointed, Call.bind_of_ok hcheck, hrun])
    Faults.none d₁ hsnap.restorable.manifest r hr hok
  obtain ⟨m', hm', hlive, hwal⟩ := restore_done hr hok
  obtain rfl : m' = m := by
    have heq := hm'.manifest.symm.trans hsnap.restorable.manifest
    cases heq
    rfl
  rw [hsnap.path, hsnap.copied, hafter] at hlive
  rw [hsnap.path] at hwal
  rw [logical_alone hlive hwal] at hback
  have hbefore : DbDrive.logical d dbPath =
      some (Wal.content main (DbDrive.framesOf (d.files (.live dbPath .wal)))) := by
    unfold DbDrive.logical
    rw [hmain]
  rw [← Wal.content_eq_main, content_mainAfter]
  exact (Option.some.inj (hback.trans hbefore)).symm

/-- A snapshot and its restore give back what the database showed, if and only if the checkpoint
left nothing in the log that the main file does not hold; an archive that is not its manifest's is
never restored. -/
theorem snapshot_round_trip_iff (hsha : Function.Injective env.sha256) (o : Checkpoint)
    (dbPath : String) (nowMs : Int) (d : DbDrive β) :
    (RoundTrips env o dbPath nowMs d ↔ FoldsIn o dbPath d) ∧ RefusesMismatch env := by
  refine ⟨⟨folds_of_roundTrips, fun h φ m d₁ hrun φ' d₂ hm r hr hok => ?_⟩, refusesMismatch env⟩
  obtain ⟨result, hcheck⟩ := checkpointMainDb_ok o dbPath d
  rw [snapshotDbCheckpointed, Call.bind_of_ok hcheck] at hrun
  obtain ⟨hlive, hwal⟩ := restored_main hsha (snapshotDb_ok hrun) hm hr hok
  by_cases hpages : ∃ main, d.files (.live dbPath .main) = some (.pages main)
  · obtain ⟨main, hmain⟩ := hpages
    rw [logical_alone (hlive.trans (checkpointMainDb_main hmain)) hwal]
    have hfolded := Wal.content_eq_main.mpr (h main hmain)
    rw [content_mainAfter] at hfolded
    unfold DbDrive.logical
    rw [hmain]
    exact congrArg some hfolded.symm
  · -- what is no database was copied as it is
    rw [checkpointMainDb_other fun main hmain => hpages ⟨main, hmain⟩] at hlive
    unfold DbDrive.logical
    rw [hlive]
    split
    · rename_i main hmain
      exact absurd ⟨main, hmain⟩ hpages
    · rfl

end RoundTrip

/-! ## One page -/

/-- A database of one page, with the given log beside it. -/
def onePage (page : Nat) (log : Option (List (Wal.Frame Nat))) : DbDrive Nat :=
  { files := fun
      | .live _ .main => some (.pages [page])
      | .live _ .wal => log.map .frames
      | _ => none
    failed := [] }

/-- The page is 2 in the log and 1 in the main file, and a reader keeps the checkpoint from copying
it. -/
theorem busy_checkpoint_lost :
    ¬ ∃ env : SnapshotEnv Nat,
      RoundTrips env (.busy 0) "xbus.sqlite" 0 (onePage 1 (some [⟨0, 2, some 1⟩])) := by
  rintro ⟨env, h⟩
  have hsettled := folds_of_roundTrips h [1] rfl
  exact absurd hsettled (by decide)

section Digest

instance encodableUInt8 : Encodable UInt8 :=
  Encodable.ofLeftInjection UInt8.toNat (fun n => some (UInt8.ofNat n)) fun b => by simp

instance encodableChar : Encodable Char :=
  Encodable.ofLeftInjection Char.toNat (fun n => some (Char.ofNat n)) fun c => by simp

instance encodableString : Encodable String :=
  Encodable.ofLeftInjection String.toList (fun l => some (String.ofList l)) fun t => by simp

deriving instance Encodable for Suffix, SnapshotFileEntry, SnapshotManifest, Wal.Frame, Stored

/-- A digest without collisions. -/
def unaryEnv : SnapshotEnv Nat where
  sha256 c := String.ofList (List.replicate (Encodable.encode c) 'a')
  bytes c := Encodable.encode c
  basename path := path
  inBackup name := name

theorem unaryEnv_injective : Function.Injective unaryEnv.sha256 := by
  intro c c' h
  have hlist : List.replicate (Encodable.encode c) 'a' = List.replicate (Encodable.encode c') 'a' :=
    String.ofList_injective h
  have hlen := congrArg List.length hlist
  simp only [List.length_replicate] at hlen
  exact Encodable.encode_injective hlen

end Digest

theorem complete_checkpoint_kept :
    RoundTrips unaryEnv (.complete true) "xbus.sqlite" 0 (onePage 1 (some [⟨0, 2, some 1⟩])) :=
  (snapshot_round_trip_iff unaryEnv_injective (.complete true) "xbus.sqlite" 0 _).1.mpr
    (complete_folds true "xbus.sqlite" _)

end Proof
end XBus
