import XBus.UserScope

/-!
# Registration writes both files or neither

A transaction that `backupAndWrite` returned `Undoes` what it did: rolled back on any later drive
that still has its backup, it puts the file back. One that throws has not reached the rename, so its
file is untouched and there is nothing to roll back. With these two facts every way out of
`writeBoth` is read off, and **`register_all_or_nothing`** says that a step that failed — of a copy,
a write, a rename or a validator, on whichever file — leaves both files as they were.
-/

set_option autoImplicit false

namespace XBus
namespace Proof

open Lib

variable {ν : Type} [JsFloat ν]

/-- Both of the user's files stand as they did. -/
def TargetsKept (d d' : ScopeDrive) : Prop :=
  ∀ f, d'.files (.target f) = d.files (.target f)

theorem TargetsKept.refl (d : ScopeDrive) : TargetsKept d d := fun _ => rfl

/-- Rolling `t` back on `d` puts the file `f` back to `original`. -/
structure Undoes (t : FileTxn) (f : ScopeFile) (original : Option Bytes) (d : ScopeDrive) :
    Prop where
  path : t.path = f
  backed : (t.backup = some (.backup f) ∧ original.isSome ∧ d.files (.backup f) = original) ∨
    (t.backup = none ∧ t.hadFile = false ∧ original = none)

theorem Undoes.rollback {t : FileTxn} {f : ScopeFile} {original : Option Bytes} {d : ScopeDrive}
    (h : Undoes t f original d) : (rollbackTxn (some t) d).files (.target f) = original := by
  obtain ⟨hpath, ⟨hbackup, hsome, hfile⟩ | ⟨hbackup, hhad, hnone⟩⟩ := h
  · simp only [rollbackTxn, hbackup, hpath, hfile, hsome, if_true]
    rw [Drive.put_ne _ (by simp), Drive.put_self]
  · simp [rollbackTxn, hbackup, hhad, hpath, hnone]

/-- The other file has no part in it. -/
theorem rollbackTxn_other {t : FileTxn} {f g : ScopeFile} {original : Option Bytes}
    {d : ScopeDrive} (h : Undoes t f original d) (hg : g ≠ f) :
    (rollbackTxn (some t) d).files (.target g) = d.files (.target g) ∧
      (rollbackTxn (some t) d).files (.backup g) = d.files (.backup g) := by
  obtain ⟨hpath, ⟨hbackup, hsome, hfile⟩ | ⟨hbackup, hhad, -⟩⟩ := h
  · simp only [rollbackTxn, hbackup, hpath, hfile, hsome, if_true]
    constructor
    · rw [Drive.put_ne _ (by simp), Drive.put_ne _ (by simpa using hg)]
    · rw [Drive.put_ne _ (by simpa using hg), Drive.put_ne _ (by simp)]
  · simp only [rollbackTxn, hbackup, hhad, hpath, Bool.not_false, if_true]
    exact ⟨Drive.put_ne _ (by simpa using hg) _, Drive.put_ne _ (by simp) _⟩

/-- A write that went through: the new text stands there, what stood there is recorded, and nothing
    else the program reads again has changed. -/
structure Written (f : ScopeFile) (text : Bytes) (d d' : ScopeDrive) (t : FileTxn) : Prop where
  target : d'.files (.target f) = some text
  others : ∀ g, g ≠ f → d'.files (.target g) = d.files (.target g) ∧
    d'.files (.backup g) = d.files (.backup g)
  undoes : Undoes t f (d.files (.target f)) d'
  failed : d'.failed = d.failed
  backup : t.backup = if (d.files (.target f)).isSome then some (.backup f) else none

theorem secure_ok {φ : ScopeFaults} {f : ScopeFile} {hadFile : Bool} {d d' : ScopeDrive}
    (h : secure φ f hadFile d = (.ok (), d')) :
    d' = if hadFile then d.put (.backup f) (d.files (.target f)) else d := by
  unfold secure at h
  split at h
  · rename_i hhad
    rw [Drive.attempt_ok h, if_pos hhad]
  · rename_i hhad
    rw [Drive.attemptAtomic_ok h, if_neg hhad]
    rfl

theorem backupAndWrite_ok {φ : ScopeFaults} {f : ScopeFile} {obj : Json ν} {d d' : ScopeDrive}
    {t : FileTxn} (h : backupAndWrite φ f obj d = (.ok t, d')) :
    Written f (fileText obj) d d' t := by
  simp only [backupAndWrite, Call.get_bind, Call.bind_ok, Call.pure_ok] at h
  obtain ⟨⟨⟩, d₁, h₁, ⟨⟩, d₂, h₂, ⟨⟩, d₃, h₃, rfl, rfl⟩ := h
  have hd₁ := secure_ok h₁
  have hd₂ := Drive.attempt_ok h₂
  have hd₃ := Drive.attemptAtomic_ok h₃
  subst hd₂
  subst hd₃
  by_cases hhad : (d.files (.target f)).isSome
  · rw [if_pos hhad] at hd₁
    subst hd₁
    refine ⟨?_, ?_, ⟨rfl, .inl ⟨by simp [hhad], hhad, ?_⟩⟩, rfl, by simp [hhad]⟩
    · rw [Drive.put_ne _ (by simp), Drive.put_self, Drive.put_self]
    · intro g hg
      simp [Drive.put, hg]
    · simp [Drive.put]
  · rw [if_neg hhad] at hd₁
    subst hd₁
    refine ⟨?_, ?_, ⟨rfl, .inr ⟨by simp [hhad], by simpa using hhad, by simpa using hhad⟩⟩, rfl,
      by simp [hhad]⟩
    · rw [Drive.put_ne _ (by simp), Drive.put_self, Drive.put_self]
    · intro g hg
      simp [Drive.put, hg]

/-- Neither file has changed, and the backup of the file that is not `f` stands where it stood. -/
structure Spared (f : ScopeFile) (d d' : ScopeDrive) : Prop where
  targets : TargetsKept d d'
  backups : ∀ g, g ≠ f → d'.files (.backup g) = d.files (.backup g)

instance (f : ScopeFile) : IsFrame (Spared f) where
  refl _ := ⟨fun _ => rfl, fun _ _ => rfl⟩
  trans h h' := ⟨fun g => (h'.targets g).trans (h.targets g),
    fun g hg => (h'.backups g hg).trans (h.backups g hg)⟩

theorem Spared.put_backup (f : ScopeFile) (d : ScopeDrive) (c : Option Bytes) :
    Spared f d (d.put (.backup f) c) :=
  ⟨fun _ => Drive.put_ne _ (by simp) _, fun _ hg => Drive.put_ne _ (by simpa using hg) _⟩

theorem Spared.put_tmp (f : ScopeFile) (d : ScopeDrive) (c : Option Bytes) :
    Spared f d (d.put (.tmp f) c) :=
  ⟨fun _ => Drive.put_ne _ (by simp) _, fun _ _ => Drive.put_ne _ (by simp) _⟩

theorem Spared.noteFailed {f : ScopeFile} {d d' : ScopeDrive} (h : Spared f d d') (op : ScopeOp) :
    Spared f d (d'.noteFailed op) :=
  ⟨h.targets, h.backups⟩

theorem secure_spared (φ : ScopeFaults) (f : ScopeFile) (hadFile : Bool) :
    Respects (Spared f) (secure φ f hadFile) := by
  apply Respects.ite
  · exact Drive.attempt_respects (fun d => .put_backup f d _)
      fun d c => (Spared.put_backup f d c).noteFailed _
  · exact Drive.attemptAtomic_respects (fun d => IsFrame.refl d)
      fun d => (IsFrame.refl (R := Spared f) d).noteFailed _

/-- A write that threw never reached the file, nor anything of the other file. -/
theorem backupAndWrite_refuses (φ : ScopeFaults) (f : ScopeFile) (obj : Json ν) :
    Refuses (Spared f) (backupAndWrite φ f obj) := by
  intro d e d' h
  simp only [backupAndWrite, Call.get_bind] at h
  refine Refuses.bind (secure_spared φ f _) ?_ d e d' h
  intro _
  apply Refuses.bind
  · exact Drive.attempt_respects (fun d => .put_tmp f d _)
      fun d c => (Spared.put_tmp f d c).noteFailed _
  intro _
  apply Refuses.bind_total
  · exact Drive.attemptAtomic_refuses
      fun d => (IsFrame.refl (R := Spared f) d).noteFailed _
  · intro _ s e t h
    cases (Prod.mk.inj h).1

theorem vet_files {f : ScopeFile} {validate : Json ν → Except JsString Verdict}
    {d d' : ScopeDrive} {r : Except JsString Verdict} (h : vet f validate d = (r, d')) :
    d'.files = d.files ∧ (∀ v, r = .ok v → v.ok = true →
      d' = d ∧ validate (readOrEmpty (d.files (.target f))) = .ok v) := by
  unfold vet at h
  split at h
  · cases h
    exact ⟨rfl, fun v hv => by cases hv⟩
  · rename_i v hv
    split at h
    · cases h
      refine ⟨rfl, fun w hw _ => ⟨rfl, ?_⟩⟩
      cases hw
      exact hv
    · rename_i hno
      cases h
      refine ⟨rfl, fun w hw hok => ?_⟩
      cases hw
      exact absurd hok hno

/-! ## Both files -/

/-- The first file is put back when only it was written. -/
theorem rollback_config {φ : ScopeFaults} {cfg : Json ν} {d d₁ d₂ : ScopeDrive} {t : FileTxn}
    (h : backupAndWrite φ .config cfg d = (.ok t, d₁)) (hfiles : Spared .settings d₁ d₂) :
    TargetsKept d (rollbackTxn (some t) d₂) := by
  have hw := backupAndWrite_ok h
  have hundoes : Undoes t .config (d.files (.target .config)) d₂ := by
    refine ⟨hw.undoes.path, ?_⟩
    rw [hfiles.backups .config (by simp)]
    exact hw.undoes.backed
  intro f
  cases f with
  | config => exact hundoes.rollback
  | settings =>
    rw [(rollbackTxn_other hundoes (by simp)).1, hfiles.targets, (hw.others _ (by simp)).1]

/-- Both are put back when both were written. -/
theorem rollback_both {φ : ScopeFaults} {cfg s : Json ν} {d d₁ d₂ d₃ : ScopeDrive}
    {t t' : FileTxn} (h : backupAndWrite φ .config cfg d = (.ok t, d₁))
    (h' : backupAndWrite φ .settings s d₁ = (.ok t', d₂)) (hfiles : d₃.files = d₂.files) :
    TargetsKept d (rollbackTxn (some t) (rollbackTxn (some t') d₃)) := by
  have hw := backupAndWrite_ok h'
  have hundoes : Undoes t' .settings (d₁.files (.target .settings)) d₃ := by
    refine ⟨hw.undoes.path, ?_⟩
    rw [hfiles]
    exact hw.undoes.backed
  apply rollback_config h
  constructor
  · intro f
    cases f with
    | settings => exact hundoes.rollback
    | config =>
      rw [(rollbackTxn_other hundoes (by simp)).1, hfiles, (hw.others _ (by simp)).1]
  · intro g hg
    rw [(rollbackTxn_other hundoes hg).2, hfiles, (hw.others _ hg).2]

theorem Spared.of_files {f : ScopeFile} {d d' : ScopeDrive} (h : d'.files = d.files) :
    Spared f d d' := by
  constructor
  · intro g
    rw [h]
  · intro g _
    rw [h]

section Registering

variable [DecidableEq ν]

/-- The validator of the file accepts what the text reads as. -/
def Accepts (o : UserScopeOptions ν) (f : ScopeFile) (v : Json ν) : Prop :=
  ∃ verdict, validatorOf o f v = .ok verdict ∧ verdict.ok = true

/-- How `writeBoth` may end: with both files written and nothing failed, or with `ok` false and both
    files as they were. -/
inductive Ended (o : UserScopeOptions ν) (cfg s : Json ν) (d : ScopeDrive) :
    RegisterResult × ScopeDrive → Prop
  | both (next : Json ν) (r : RegisterResult) (d' : ScopeDrive) (hnext : applyHooks o s = .ok next)
      (hok : r.ok = true)
      (hvetted : Accepts o .config (readOrEmpty (some (fileText (applyMcp o cfg)))) ∧
        Accepts o .settings (readOrEmpty (some (fileText next))))
      (hconfig : d'.files (.target .config) = some (fileText (applyMcp o cfg)))
      (hsettings : d'.files (.target .settings) = some (fileText next))
      (hfailed : d'.failed = d.failed) : Ended o cfg s d (r, d')
  | neither (e : JsString) (d' : ScopeDrive) (hkept : TargetsKept d d') :
      Ended o cfg s d (rolledBack e, d')

theorem writeBoth_ends (φ : ScopeFaults) (o : UserScopeOptions ν) (cfg s : Json ν)
    (d : ScopeDrive) : Ended o cfg s d (writeBoth φ o cfg s d) := by
  -- The steps in their order: wherever one fails, what was written until then is rolled back.
  unfold writeBoth
  cases hcfg : backupAndWrite φ .config (applyMcp o cfg) d with
  | mk r d₁ =>
    cases r with
    | error e =>
      have hspared := backupAndWrite_refuses φ .config (applyMcp o cfg) d e d₁ hcfg
      exact .neither e _ hspared.targets
    | ok t =>
      simp only
      cases hvet : vet .config (validatorOf o .config) d₁ with
      | mk r d₂ =>
        obtain ⟨hfiles, hsame⟩ := vet_files hvet
        have hback := rollback_config hcfg (.of_files hfiles)
        cases r with
        | error e => exact .neither e _ hback
        | ok v =>
          simp only
          by_cases hv : v.ok = true
          · obtain ⟨hd₂, hvcfg⟩ := hsame v rfl hv
            subst hd₂
            rw [if_neg (by simp [hv])]
            cases hnext : applyHooks o s with
            | error e => exact .neither e _ hback
            | ok next =>
              simp only
              cases hset : backupAndWrite φ .settings next d₂ with
              | mk r d₃ =>
                cases r with
                | error e =>
                  have hspared := backupAndWrite_refuses φ .settings next d₂ e d₃ hset
                  exact .neither e _ (rollback_config hcfg hspared)
                | ok t' =>
                  simp only
                  cases hvet' : vet .settings (validatorOf o .settings) d₃ with
                  | mk r d₄ =>
                    obtain ⟨hfiles', hsame'⟩ := vet_files hvet'
                    have hback' := rollback_both hcfg hset hfiles'
                    cases r with
                    | error e => exact .neither e _ hback'
                    | ok v' =>
                      simp only
                      by_cases hv' : v'.ok = true
                      · obtain ⟨hd₄, hvset⟩ := hsame' v' rfl hv'
                        subst hd₄
                        rw [if_neg (by simp [hv'])]
                        have hw := backupAndWrite_ok hcfg
                        have hw' := backupAndWrite_ok hset
                        rw [hw.target] at hvcfg
                        rw [hw'.target] at hvset
                        refine .both next _ _ hnext rfl ⟨⟨v, hvcfg, hv⟩, v', hvset, hv'⟩ ?_
                          hw'.target ?_
                        · rw [(hw'.others .config (by simp)).1, hw.target]
                        · rw [hw'.failed, hw.failed]
                      · rw [if_pos (by simpa using hv')]
                        exact .neither _ _ hback'
          · rw [if_pos (by simpa using hv)]
            exact .neither _ _ hback

/-- Registration gets as far as writing: nothing it checks first ends it. -/
structure Reaches (o : UserScopeOptions ν) (cfg s : Json ν) : Prop where
  owned : refused o cfg = false
  real : o.dryRun = false
  missing : ∃ present, hooksPresent o s = .ok present ∧ (ownServer o cfg && present) = false

/-- Where it does not, the drive stays as it is; where it does, `writeBoth` decides. -/
theorem register_cases (φ : ScopeFaults) (o : UserScopeOptions ν) (d : ScopeDrive) :
    (Reaches o (readOrEmpty (d.files (.target .config)))
        (readOrEmpty (d.files (.target .settings))) ∧
      registerUserScope φ o d =
        (.ok (writeBoth φ o (readOrEmpty (d.files (.target .config)))
            (readOrEmpty (d.files (.target .settings))) d).1,
          (writeBoth φ o (readOrEmpty (d.files (.target .config)))
            (readOrEmpty (d.files (.target .settings))) d).2)) ∨
    (¬ Reaches o (readOrEmpty (d.files (.target .config)))
        (readOrEmpty (d.files (.target .settings))) ∧ (registerUserScope φ o d).2 = d) := by
  generalize hcfg : (readOrEmpty (d.files (.target .config)) : Json ν) = cfg
  generalize hs : (readOrEmpty (d.files (.target .settings)) : Json ν) = s
  simp only [registerUserScope, hcfg, hs]
  cases howned : refused o cfg with
  | true => exact .inr ⟨fun h => absurd h.owned (by simp [howned]), rfl⟩
  | false =>
    rw [if_neg (by simp)]
    cases hpresent : hooksPresent o s with
    | error e =>
      refine .inr ⟨fun h => ?_, rfl⟩
      obtain ⟨present, hok, -⟩ := h.missing
      rw [hpresent] at hok
      cases hok
    | ok present =>
      simp only
      cases halready : ownServer o cfg && present with
      | true =>
        refine .inr ⟨fun h => ?_, rfl⟩
        obtain ⟨present', hok, hnot⟩ := h.missing
        rw [hpresent, Except.ok.injEq] at hok
        rw [hok, hnot] at halready
        cases halready
      | false =>
        rw [if_neg (by simp)]
        cases hdry : o.dryRun with
        | true => exact .inr ⟨fun h => absurd h.real (by simp [hdry]), rfl⟩
        | false => exact .inl ⟨⟨howned, hdry, present, hpresent, halready⟩, rfl⟩

/-- Where a step of a registration failed — a copy, a write, a rename, a validator — it answers with
    `ok` false, and both files stand as they did. -/
theorem register_all_or_nothing (φ : ScopeFaults) (o : UserScopeOptions ν) (d : ScopeDrive)
    (hfailed : (registerUserScope φ o d).2.failed ≠ d.failed) :
    ∃ r, (registerUserScope φ o d).1 = .ok r ∧ r.ok = false ∧
      ∀ f, (registerUserScope φ o d).2.files (.target f) = d.files (.target f) := by
  rcases register_cases φ o d with ⟨-, heq⟩ | ⟨-, hsame⟩
  · rw [heq] at hfailed ⊢
    have hends := writeBoth_ends φ o (readOrEmpty (d.files (.target .config)))
      (readOrEmpty (d.files (.target .settings))) d
    generalize writeBoth φ o (readOrEmpty (d.files (.target .config)))
      (readOrEmpty (d.files (.target .settings))) d = out at hfailed hends ⊢
    cases hends with
    | both next r d' hnext hok hvetted hconfig hsettings hsame => exact absurd hsame hfailed
    | neither e d' hkept => exact ⟨_, rfl, rfl, hkept⟩
  · exact absurd (congrArg Drive.failed hsame) hfailed

end Registering

/-- Options as an install passes them. -/
def someOptions : UserScopeOptions Int where
  nodePath := utf16 "node"
  serverEntry := utf16 "mcp.js"
  hookEntry := utf16 "hook-entry.js"
  dataDir := utf16 "data"
  installId := utf16 "i-1"

/-- A drive with the given texts in the two files. -/
def home (config settings : Option String) : ScopeDrive where
  files
    | .target .config => config.map fun text => utf8 text.toList
    | .target .settings => settings.map fun text => utf8 text.toList
    | _ => none
  failed := []

/-- The settings cannot be put in place, after the servers were. -/
def settingsStay : ScopeFaults
  | .rename .settings => some ⟨utf16 "EPERM", none⟩
  | _ => none

theorem register_all_or_nothing_settings :
    (registerUserScope settingsStay someOptions (home (some "{}") none)).2.failed ≠ [] ∧
    ∃ r, (registerUserScope settingsStay someOptions (home (some "{}") none)).1 = .ok r ∧
      r.ok = false ∧ ∀ f, (registerUserScope settingsStay someOptions
        (home (some "{}") none)).2.files (.target f) =
        (home (some "{}") none).files (.target f) := by
  have hfailed : (registerUserScope settingsStay someOptions (home (some "{}") none)).2.failed
      ≠ (home (some "{}") none).failed := by decide +kernel
  exact ⟨hfailed, register_all_or_nothing _ _ _ hfailed⟩

end Proof
end XBus
