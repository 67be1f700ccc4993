import XBus.Proof.Undoing

/-!
# When a migration is all or nothing

A failure inside `try` before the promotion is undone. Two writes are not covered: the first journal
is written before `try`, and the last one after the promotion, where the rollback finds the copy in
the canonical place and leaves it there. And opening a database that has a log to play back writes
to the root that was to stay as it is.

**`migrate_all_or_nothing_iff`** says that these are the only ways to miss. It needs to know exactly
when the steps before the promotion go through (`Unhindered`), so they are specified in both
directions (`prepare_answers`).
-/

set_option autoImplicit false

namespace XBus
namespace Proof

open Lib
open Lib.Tree

variable {φ : MigrationFaults} {p : Platform} {o : MigrateOptions}

/-! ## When the steps before the promotion go through -/

/-- Two reads of the same file agree: there is none, or both fail, or neither. -/
def SameRead (φ : MigrationFaults) (op op' : MigrationOp) (t : Option Tree)
    (path : List String) : Prop :=
  (readAt t path).isSome → ((φ op).isSome ↔ (φ op').isSome)

theorem sameRead_iff {op op' : MigrationOp} {t : Option Tree} {path : List String} :
    (readOf φ op t path).map p.sha256 = (readOf φ op' t path).map p.sha256 ↔
      SameRead φ op op' t path := by
  unfold readOf SameRead
  cases readAt t path with
  | none => simp
  | some bytes => cases φ op <;> cases φ op' <;> simp

/-- The states journaled before the promotion, after the first. -/
def journaled : List JournalState :=
  [.backupsCreated, .sourceValidated, .destinationClassified, .stagingCreated, .copyComplete,
    .copyVerified, .destinationBackedUp]

/-- Nothing stands in the way of the migration of `src`, and no operation that would stop it before
    the last journal fails. -/
structure Unhindered (φ : MigrationFaults) (src : Tree)
    (sourceBackup canonical destBackup : Option Tree) : Prop where
  backup : Copies φ .backup [] sourceBackup src
  journals : ∀ state ∈ journaled, Journals φ state
  source : φ (.statDb .source) = none
  removal : φ .removeStaging = none
  copy : Copies φ .staging [] none src
  staged : φ (.statDb .staged) = none
  sameDb : SameRead φ (.hashDb .staged) (.hashDb .legacy) (some src) dbPath
  sameSecret : SameRead φ (.readSecret .staged) (.readSecret .legacy) (some src) secretPath
  aside : existsAt canonical [] = true → Movable canonical destBackup ∧ φ .moveAside = none
  promotion : Movable (some src) (if existsAt canonical [] then none else canonical) ∧
    φ .promote = none

/-- What stands where while the migration runs. -/
structure Layout (l c b s : Option Tree) (d : Disk) : Prop where
  legacy : d.files .legacy = l
  canonical : d.files .canonical = c
  destBackup : d.files .destBackup = b
  staging : d.files .staging = s
  journal : JournalOpen d

section Steps

variable {l c b s : Option Tree} {m : Migration} {src : Tree}

theorem onDisk_answers {α : Type} {C : Prop} {Q : α → Disk → Prop} {x : Call Disk String α}
    (h : AnswersIff C Q x m.disk) :
    AnswersIff C (fun a m' => Q a m'.disk) (onDisk x) m :=
  (AnswersIff.zoom h).mono fun _ _ ⟨_, hQ, hm⟩ => by
    subst hm
    exact hQ

theorem enter_answers (h : Layout l c b s m.disk) (state : JournalState) :
    AnswersIff (Journals φ state) (fun _ m' => Layout l c b s m'.disk) (enter φ p state) m := by
  refine AnswersIff.after rfl (AnswersIff.after rfl ?_)
  refine AnswersIff.congr ((onDisk_answers (writeJournal_answers _ _)).mono ?_)
    ⟨fun hw => ⟨h.journal, hw⟩, fun hw => hw.2⟩
  rintro - m' ⟨hothers, hready⟩
  exact ⟨(hothers _ (by decide) (by decide)).trans h.legacy,
    (hothers _ (by decide) (by decide)).trans h.canonical,
    (hothers _ (by decide) (by decide)).trans h.destBackup,
    (hothers _ (by decide) (by decide)).trans h.staging, hready⟩

theorem Layout.put_sourceBackup {d : Disk} (h : Layout l c b s d) (t : Option Tree) :
    Layout l c b s (d.put .sourceBackup t) where
  legacy := (Drive.put_ne _ (by decide) _).trans h.legacy
  canonical := (Drive.put_ne _ (by decide) _).trans h.canonical
  destBackup := (Drive.put_ne _ (by decide) _).trans h.destBackup
  staging := (Drive.put_ne _ (by decide) _).trans h.staging
  journal := by
    refine ⟨?_, ?_⟩
    · rw [Drive.put_ne _ (by decide)]
      exact h.journal.tmp
    · rw [Drive.put_ne _ (by decide)]
      exact h.journal.journal

theorem Layout.put_staging {d : Disk} (h : Layout l c b s d) (t : Option Tree) :
    Layout l c b t (d.put .staging t) where
  legacy := (Drive.put_ne _ (by decide) _).trans h.legacy
  canonical := (Drive.put_ne _ (by decide) _).trans h.canonical
  destBackup := (Drive.put_ne _ (by decide) _).trans h.destBackup
  staging := Drive.put_self _ _ _
  journal := by
    refine ⟨?_, ?_⟩
    · rw [Drive.put_ne _ (by decide)]
      exact h.journal.tmp
    · rw [Drive.put_ne _ (by decide)]
      exact h.journal.journal

theorem Layout.of_files {d d' : Disk} (h : Layout l c b s d) (hfiles : d'.files = d.files) :
    Layout l c b s d' where
  legacy := by rw [hfiles]; exact h.legacy
  canonical := by rw [hfiles]; exact h.canonical
  destBackup := by rw [hfiles]; exact h.destBackup
  staging := by rw [hfiles]; exact h.staging
  journal := ⟨by rw [hfiles]; exact h.journal.tmp, by rw [hfiles]; exact h.journal.journal⟩

/-- A summary of a root that opening does not change. -/
theorem look_answers (look : Look) (h : Layout l c b s m.disk) {t : Option Tree}
    (ht : m.disk.files look.place = t) (hsealed : Quiet p t) (hdb : existsAt t dbPath = true)
    (root : String) :
    AnswersIff (φ (.statDb look) = none)
      (fun a m' => a = summaryOf φ p look root t ∧ Layout l c b s m'.disk)
      (onDisk (summarizeRoot φ p look root)) m := by
  refine AnswersIff.congr ((onDisk_answers (summarizeRoot_answers look root m.disk)).mono ?_) ?_
  · rintro a m' ⟨ha, hfiles⟩
    rw [ht] at ha hfiles
    refine ⟨ha, h.of_files ?_⟩
    rw [hfiles, hsealed]
    funext q
    by_cases hq : q = look.place
    · rw [hq, Drive.put_self, ht]
    · rw [Drive.put_ne _ hq]
  · rw [ht]
    exact ⟨fun hstat _ => hstat, fun hstat => hstat hdb⟩

theorem moveAside_answers (h : Layout l c b s m.disk) :
    AnswersIff (existsAt c [] = true → Movable c b ∧ φ .moveAside = none)
      (fun _ m' => Layout l (if existsAt c [] then none else c) (if existsAt c [] then c else b) s
        m'.disk)
      (moveAside φ p o) m := by
  refine AnswersIff.after rfl ?_
  rw [h.canonical]
  by_cases hexists : existsAt c [] = true
  · rw [if_pos hexists, if_pos hexists, if_pos hexists]
    have hren := onDisk_answers (m := m)
      (renamePlace_answers (φ := φ) (p := p) .moveAside .canonical .destBackup m.disk)
    rw [h.canonical, h.destBackup] at hren
    refine AnswersIff.congr (AnswersIff.bind (D := True) hren ?_) (by simp [hexists])
    intro _ m' hm'
    refine AnswersIff.mono (P := fun _ m'' => m''.disk = m'.disk)
      ⟨fun _ => ⟨(), _, rfl, rfl⟩, fun hn => absurd trivial hn⟩ ?_
    intro _ m'' hm''
    rw [hm'', hm']
    refine ⟨?_, Drive.put_self _ _ _, ?_, ?_, ?_, ?_⟩
    · simpa [Drive.put] using h.legacy
    · simp [Drive.put]
    · simpa [Drive.put] using h.staging
    · simpa [Drive.put] using h.journal.tmp
    · simpa [Drive.put] using h.journal.journal
  · rw [if_neg hexists, if_neg hexists, if_neg hexists]
    refine AnswersIff.congr ((AnswersIff.pure ()).mono ?_) (by simp [hexists])
    rintro - m' ⟨-, rfl⟩
    exact h

end Steps

/-- A root with a database is a directory, or a link to one. -/
theorem dir_of_db {t : Option Tree} (h : existsAt t dbPath = true) :
    ∃ es, t.bind follow = some (.dir es) := by
  obtain ⟨root, hroot⟩ := exists_follow h
  cases root with
  | dir es => exact ⟨es, hroot⟩
  | file bytes =>
    have hnone : find? t dbPath = none := by rw [find?, hroot]; rfl
    rw [existsAt, hnone] at h
    cases h
  | link target =>
    have hnone : find? t dbPath = none := by rw [find?, hroot]; rfl
    rw [existsAt, hnone] at h
    cases h

/-- The legacy root as the migration finds it: a directory that lists each name once, whose database
    was opened before and is intact. -/
structure Source (p : Platform) (l : Option Tree) (es : Entries) : Prop where
  leads : l.bind follow = some (.dir es)
  names : Tree.Distinct (.dir es)
  whole : Quiet p l
  hasDb : existsAt l dbPath = true
  intact : (inspectionAt p l).integrityOk ≠ some false

namespace Source

variable {l : Option Tree} {es : Entries}

theorem find (h : Source p l es) (path : List String) :
    find? (some (.dir es)) path = find? l path :=
  find_of_follow (h.leads.symm ▸ rfl)

theorem read (h : Source p l es) (path : List String) :
    readAt (some (.dir es)) path = readAt l path := by
  rw [readAt, readAt, h.find]

theorem copy_hasDb (h : Source p l es) : existsAt (some (.dir es)) dbPath = true := by
  rw [existsAt, h.find]
  exact h.hasDb

theorem copy_inspection (h : Source p l es) :
    inspectionAt p (some (.dir es)) = inspectionAt p l := by
  unfold inspectionAt
  rw [h.leads, h.hasDb, h.copy_hasDb]
  rfl

/-- A copy of the root is whole where the root is. -/
theorem copy_whole (h : Source p l es) : Quiet p (some (.dir es)) := by
  have hwhole := h.whole
  unfold Quiet opened at hwhole ⊢
  rw [if_pos h.hasDb] at hwhole
  rw [if_pos h.copy_hasDb]
  cases l with
  | none => cases h.leads
  | some t =>
    have hleads : t.follow = some (.dir es) := h.leads
    cases t with
    | file bytes => cases hleads
    | dir sub =>
      obtain rfl : sub = es := by simpa [follow] using hleads
      exact hwhole
    | link target =>
      obtain rfl : target = some (.dir es) := hleads
      simpa [through] using hwhole

end Source

section Run

variable {l c b s sb : Option Tree} {m : Migration} {es : Entries} {ls : RootSummary}

/-- The condition of `prepare`, in the order of its steps. -/
theorem prepare_answers (h : Layout l c b s m.disk) (hsb : m.disk.files .sourceBackup = sb)
    (hl : Source p l es) (hls : ls = summaryOf φ p .legacy o.legacyRoot l) :
    AnswersIff (Copies φ .backup [] sb (.dir es) ∧ Journals φ .backupsCreated ∧
        φ (.statDb .source) = none ∧ Journals φ .sourceValidated ∧
          Journals φ .destinationClassified ∧
        φ .removeStaging = none ∧ Journals φ .stagingCreated ∧ Copies φ .staging [] none (.dir es) ∧
        Journals φ .copyComplete ∧ φ (.statDb .staged) = none ∧
        SameRead φ (.hashDb .staged) (.hashDb .legacy) (some (.dir es)) dbPath ∧
        SameRead φ (.readSecret .staged) (.readSecret .legacy) (some (.dir es)) secretPath ∧
        Journals φ .copyVerified ∧ (existsAt c [] = true → Movable c b ∧ φ .moveAside = none) ∧
        Journals φ .destinationBackedUp)
      (fun _ m' => Layout l (if existsAt c [] then none else c) (if existsAt c [] then c else b)
        (some (.dir es)) m'.disk)
      (prepare φ p o ls) m := by
  have hcopy := hl.copy_hasDb
  have hopened : opened p l = l := hl.whole
  have hopened' : opened p (some (.dir es)) = some (.dir es) := hl.copy_whole
  -- 1) backup
  have hbackup := onDisk_answers (m := m)
    (copyDirVerified_answers (φ := φ) (p := p) (c := .backup) o.legacyRoot
      (by rw [h.legacy]; exact hl.leads) hl.names)
  rw [show m.disk.files (Copying.place .backup) = sb from hsb] at hbackup
  refine AnswersIff.bind (Q := fun _ m' => Layout l c b s m'.disk) (hbackup.mono ?_)
    fun _ m₁ h₁ => ?_
  · rintro - m' ⟨left, hm', -⟩
    rw [hm']
    exact h.put_sourceBackup left
  refine AnswersIff.bind (enter_answers h₁ _) fun _ m₂ h₂ => ?_
  -- 2) source
  refine AnswersIff.bind (look_answers .source h₂ h₂.legacy hl.whole hl.hasDb _) fun re m₃ h₃ => ?_
  obtain ⟨rfl, h₃⟩ := h₃
  refine AnswersIff.pass hl.intact ?_
  refine AnswersIff.bind (enter_answers h₃ _) fun _ m₄ h₄ => ?_
  -- 3) classification
  refine AnswersIff.bind (enter_answers h₄ _) fun _ m₅ h₅ => ?_
  -- 4) staging
  refine AnswersIff.bind (Q := fun _ m' => Layout l c b none m'.disk)
    ((onDisk_answers (.attempt _ _ _ _ _)).mono fun _ _ hd => ?_) fun _ m₆ h₆ => ?_
  · rw [hd]
    exact h₅.put_staging none
  refine AnswersIff.bind (enter_answers h₆ _) fun _ m₇ h₇ => ?_
  -- 5) copy
  have hstage := onDisk_answers (m := m₇)
    (copyDirVerified_answers (φ := φ) (p := p) (c := .staging) o.legacyRoot
      (by rw [h₇.legacy]; exact hl.leads) hl.names)
  rw [show m₇.disk.files (Copying.place .staging) = none from h₇.staging] at hstage
  refine AnswersIff.bind (Q := fun _ m' => Layout l c b (some (.dir es)) m'.disk)
    (hstage.mono ?_) fun _ m₈ h₈ => ?_
  · rintro - m' ⟨left, hm', hleft⟩
    rw [hm', ← hleft rfl]
    exact h₇.put_staging left
  refine AnswersIff.bind (enter_answers h₈ _) fun _ m₉ h₉ => ?_
  -- 6) identity
  refine AnswersIff.bind (look_answers .staged h₉ h₉.staging hl.copy_whole hcopy _)
    fun staged n₁ k₁ => ?_
  obtain ⟨rfl, k₁⟩ := k₁
  have hdb : (summaryOf φ p .staged (staging o) (some (.dir es))).dbHash = ls.dbHash ↔
      SameRead φ (.hashDb .staged) (.hashDb .legacy) (some (.dir es)) dbPath := by
    rw [hls, ← sameRead_iff (p := p)]
    simp only [summaryOf, hcopy, hl.hasDb, hopened, hopened', if_true, readOf, hl.read]
  have hsecret : (summaryOf φ p .staged (staging o) (some (.dir es))).secretHash = ls.secretHash ↔
      SameRead φ (.readSecret .staged) (.readSecret .legacy) (some (.dir es)) secretPath := by
    rw [hls, ← sameRead_iff (p := p)]
    simp only [summaryOf, hopened, hopened', readOf, hl.read]
  have hok : (summaryOf φ p .staged (staging o) (some (.dir es))).integrityOk ≠ some false := by
    show (inspectionAt p (some (.dir es))).integrityOk ≠ some false
    rw [hl.copy_inspection]
    exact hl.intact
  refine AnswersIff.bind ((AnswersIff.require _ _).congr hdb.symm) fun _ n₂ k₂ => ?_
  rw [k₂]
  refine AnswersIff.bind ((AnswersIff.require _ _).congr hsecret.symm) fun _ n₃ k₃ => ?_
  rw [k₃]
  refine AnswersIff.pass hok ?_
  refine AnswersIff.bind (enter_answers k₁ _) fun _ n₄ k₄ => ?_
  -- 7) the destination aside
  exact AnswersIff.bind (moveAside_answers k₄) fun _ n₅ k₅ => enter_answers k₅ _

theorem promote_answers (h : Layout l c b s m.disk) :
    AnswersIff (Movable s c ∧ φ .promote = none)
      (fun _ m' => Layout l s b none m'.disk) (promote φ p) m := by
  have hren := onDisk_answers (m := m)
    (renamePlace_answers (φ := φ) (p := p) .promote .staging .canonical m.disk)
  rw [h.staging, h.canonical] at hren
  refine hren.mono fun _ m' hm' => ?_
  rw [hm']
  refine ⟨?_, ?_, ?_, Drive.put_self _ _ _, ?_, ?_⟩
  · simpa [Drive.put] using h.legacy
  · simp [Drive.put]
  · simpa [Drive.put] using h.destBackup
  · simpa [Drive.put] using h.journal.tmp
  · simpa [Drive.put] using h.journal.journal

theorem approach_answers (h : Layout l c b s m.disk) (hsb : m.disk.files .sourceBackup = sb)
    (hl : Source p l es) (hls : ls = summaryOf φ p .legacy o.legacyRoot l) :
    AnswersIff (Unhindered φ (.dir es) sb c b)
      (fun _ m' => ∃ b', Layout l (some (.dir es)) b' none m'.disk)
      (do prepare φ p o ls; promote φ p) m := by
  refine AnswersIff.congr (.bind (prepare_answers h hsb hl hls) fun _ m₁ h₁ =>
    (promote_answers h₁).mono fun _ m₂ h₂ => ⟨_, h₂⟩) ?_
  constructor
  · rintro ⟨hbackup, hjournals, hsource, hremoval, hcopy, hstaged, hdb, hsecret, haside, hpromote⟩
    have hw : ∀ state, state ∈ journaled → Journals φ state := hjournals
    exact ⟨⟨hbackup, hw _ (by decide), hsource, hw _ (by decide), hw _ (by decide), hremoval,
      hw _ (by decide), hcopy, hw _ (by decide), hstaged, hdb, hsecret, hw _ (by decide), haside,
      hw _ (by decide)⟩, hpromote⟩
  · rintro ⟨⟨hbackup, w₁, hsource, w₂, w₃, hremoval, w₄, hcopy, w₅, hstaged, hdb, hsecret, w₆,
      haside, w₇⟩, hpromote⟩
    refine ⟨hbackup, ?_, hsource, hremoval, hcopy, hstaged, hdb, hsecret, haside, hpromote⟩
    intro state hstate
    simp only [journaled, List.mem_cons, List.not_mem_nil, or_false] at hstate
    rcases hstate with rfl | rfl | rfl | rfl | rfl | rfl | rfl <;> assumption

end Run

/-! ## What is decided on -/

/-- The legacy root has an intact database with data, and the canonical root has none. -/
structure Authoritative (legacy canonical : RootSummary) : Prop where
  hasDb : legacy.hasDb = true
  intact : legacy.integrityOk ≠ some false
  data : hasRuntimeData legacy = true
  none : canonical.rootExists = true → canonical.hasDb = true → hasRuntimeData canonical = false

theorem classify_authoritative {self other : RootSummary}
    (h : classifyRoot self other = .runtimeAuthoritative) :
    self.hasDb = true ∧ self.integrityOk ≠ some false ∧ hasRuntimeData self = true := by
  unfold classifyRoot at h
  grind

theorem classify_without {self other : RootSummary}
    (h : classifyRoot self other = .absent ∨ classifyRoot self other = .empty ∨
      classifyRoot self other = .healthOnly) :
    self.rootExists = true → self.hasDb = true → hasRuntimeData self = false := by
  unfold classifyRoot at h
  grind

theorem decide_migrate {legacy canonical : RootSummary} {reason : String}
    (h : decideMigration legacy canonical = .migrate reason) : Authoritative legacy canonical := by
  unfold decideMigration at h
  split at h
  · cases h
  · split at h <;> try cases h
    rename_i hlegacy
    have hcanonical : classifyRoot canonical legacy = .absent ∨
        classifyRoot canonical legacy = .empty ∨ classifyRoot canonical legacy = .healthOnly := by
      split at h <;> first | (rename_i hc; simp [hc]; done) | cases h
    obtain ⟨hdb, hintact, hdata⟩ := classify_authoritative hlegacy
    exact ⟨hdb, hintact, hdata, classify_without hcanonical⟩

theorem assess_ok {d d₁ : Disk} {a : Assessment} (h : assess φ p o d = (.ok a, d₁)) :
    a.legacy = summaryOf φ p .legacy o.legacyRoot (d.files .legacy) ∧
    a.canonical = summaryOf φ p .canonical o.canonicalRoot (d.files .canonical) ∧
    a.decision = decideMigration a.legacy a.canonical ∧
    d₁.files = ((d.put .legacy (opened p (d.files .legacy))).put .canonical
      (opened p (d.files .canonical))).files := by
  simp only [assess, Call.bind_ok, Call.pure_ok] at h
  obtain ⟨legacy, d₂, hlegacy, canonical, d₃, hcanonical, rfl, rfl⟩ := h
  obtain ⟨-, rfl, hd₂⟩ := (summarizeRoot_answers .legacy o.legacyRoot d).of_ok hlegacy
  obtain ⟨-, rfl, hd₃⟩ := (summarizeRoot_answers .canonical o.canonicalRoot d₂).of_ok hcanonical
  have hsame : d₂.files .canonical = d.files .canonical := by
    rw [hd₂]
    exact Drive.put_ne _ (by decide) _
  have hplace : d₂.files (Look.place .canonical) = d.files .canonical := hsame
  rw [hplace] at hd₃ ⊢
  refine ⟨rfl, rfl, rfl, ?_⟩
  rw [hd₃]
  funext q
  simp only [Drive.put, hd₂, Look.place]
  rfl

/-- What is documented of SQLite: closing a database plays its log back, after which opening and
    closing it again changes nothing, and what it holds is what it held with the log. -/
structure Checkpoints (p : Platform) : Prop where
  dir : ∀ es, ∃ es', p.closed (.dir es) = .dir es'
  again : ∀ t, p.closed (p.closed t) = p.closed t
  content : ∀ t, p.openDatabase (p.closed t) = p.openDatabase t

/-- A root with a database, and what opening it makes of it. -/
theorem opened_cases (hp : Checkpoints p) {t : Option Tree} (h : existsAt t dbPath = true) :
    ∃ es es', p.closed (.dir es) = .dir es' ∧ p.closed (.dir es') = .dir es' ∧
      ((t = some (.dir es) ∧ opened p t = some (.dir es')) ∨
        (t = some (.link (some (.dir es))) ∧ opened p t = some (.link (some (.dir es'))))) := by
  obtain ⟨es, hes⟩ := dir_of_db h
  obtain ⟨es', hes'⟩ := hp.dir es
  refine ⟨es, es', hes', by rw [← hes', hp.again], ?_⟩
  rw [opened, if_pos h]
  cases t with
  | none => cases hes
  | some t =>
    have hfollow : t.follow = some (.dir es) := hes
    cases t with
    | file bytes => cases hfollow
    | dir sub =>
      obtain rfl : sub = es := by simpa [follow] using hfollow
      exact .inl ⟨rfl, by simp [through, hes']⟩
    | link target =>
      obtain rfl : target = some (.dir es) := hfollow
      exact .inr ⟨rfl, by simp [through, hes']⟩

theorem opened_whole (hp : Checkpoints p) (t : Option Tree) : Quiet p (opened p t) := by
  by_cases h : existsAt t dbPath = true
  · obtain ⟨es, es', -, hagain, ⟨-, hopened⟩ | ⟨-, hopened⟩⟩ := opened_cases hp h <;>
      · rw [hopened, Quiet, opened]
        simp [through, hagain]
  · have hsame : opened p t = t := by rw [opened, if_neg h]
    rw [hsame]
    exact hsame

/-- A root that opening makes a copy of the legacy root tells what the legacy root tells. -/
theorem inspection_of_opened (hp : Checkpoints p) {l t : Option Tree} {es : Entries}
    (hl : Source p l es) (ht : opened p t = some (.dir es)) :
    existsAt t [] = true ∧ existsAt t dbPath = true ∧ inspectionAt p t = inspectionAt p l := by
  have hdb : existsAt t dbPath = true := by
    by_contra h
    rw [opened, if_neg h] at ht
    rw [ht] at h
    exact h hl.copy_hasDb
  obtain ⟨es₀, es', hclosed, -, ⟨rfl, hopened⟩ | ⟨-, hopened⟩⟩ := opened_cases hp hdb
  · obtain rfl : es' = es := by
      rw [hopened] at ht
      simpa using ht
    refine ⟨rfl, hdb, ?_⟩
    rw [← hl.copy_inspection, inspectionAt, inspectionAt, hdb, hl.copy_hasDb]
    show inspection p (.dir es₀) = inspection p (.dir es')
    rw [← hclosed, inspection, inspection, hp.content]
  · rw [hopened] at ht
    cases ht

/-- The canonical root was not a copy of the legacy root. -/
theorem Authoritative.unlike (hp : Checkpoints p) {legacy canonical : RootSummary}
    {l t : Option Tree} {es : Entries} (h : Authoritative legacy canonical) (hl : Source p l es)
    (hlegacy : legacy = summaryOf φ p .legacy o.legacyRoot l)
    (hcanonical : canonical = summaryOf φ p .canonical o.canonicalRoot t) :
    opened p t ≠ some (.dir es) := by
  intro ht
  obtain ⟨hexists, hdb, hinsp⟩ := inspection_of_opened hp hl ht
  have hdata := h.data
  have hnone := h.none (by rw [hcanonical]; exact hexists) (by rw [hcanonical]; exact hdb)
  have hsame : hasRuntimeData canonical = hasRuntimeData legacy := by
    rw [hcanonical, hlegacy]
    simp only [hasRuntimeData, summaryOf, hinsp]
    rfl
  rw [hsame, hdata] at hnone
  cases hnone

/-! ## All or nothing -/

/-- What is promised of a migration: either it is done, or it is reported and the canonical root is
    as it was; the legacy root is as it was. -/
def AllOrNothing (d : Disk) (out : Except String MigrateResult × Disk) : Prop :=
  ∃ r, out.1 = .ok r ∧
    (r.ok = true → out.2.files .canonical = (d.files .legacy).bind follow) ∧
    (r.ok = false → out.2.files .canonical = d.files .canonical) ∧
    (r.finalState = some .rolledBack → r.ok = false) ∧
    out.2.files .legacy = d.files .legacy

/-- The migration gets to where failures are undone. -/
def Begins (φ : MigrationFaults) (d : Disk) : Prop :=
  φ .mkdirBackups = none ∧ JournalOpen d ∧ Journals φ .planned

theorem migrate_answers (a : Assessment) (d : Disk) :
    AnswersIff (Begins φ d)
      (fun r d' => ∃ d₁, JournalOnly d d₁ ∧
        (r, d') = ((carryOut φ p o a ⟨d₁, planned o a⟩).1,
          (carryOut φ p o a ⟨d₁, planned o a⟩).2.disk))
      (migrate φ p o a) d := by
  refine AnswersIff.congr (AnswersIff.bind (D := JournalOpen d ∧ Journals φ .planned)
    (.attemptAtomic _ _ _ _) ?_) Iff.rfl
  intro _ d₁ hd₁
  rw [show d₁ = d from hd₁]
  refine AnswersIff.congr (AnswersIff.bind (D := True) (writeJournal_answers (planned o a) d) ?_)
    (and_true _).symm.to_iff
  intro _ d₂ hd₂
  exact ⟨fun _ => ⟨_, _, rfl, d₂, hd₂, rfl⟩, fun h => absurd trivial h⟩

/-- How the steps inside `try` can end: all the way through; at the last journal, with the copy in
    place; or before the promotion, and undone. -/
inductive Ends (φ : MigrationFaults) (src : Tree) (sb c b : Option Tree) (out : MigrateResult)
    (canonical : Option Tree) : Prop
  | done (hgo : Unhindered φ src sb c b) (hlast : Journals φ .stagingPromoted) (hok : out.ok = true)
      (hstate : out.finalState ≠ some .rolledBack) (hfile : canonical = some src)
  | late (hgo : Unhindered φ src sb c b) (hlast : ¬ Journals φ .stagingPromoted)
      (hok : out.ok = false) (hfile : canonical = some src)
  | undone (hgo : ¬ Unhindered φ src sb c b) (hok : out.ok = false) (hfile : canonical = c)

/-- A canonical root that is there is left there by the rollback. -/
theorem rollback_present {m : Migration} {t : Option Tree} (h : m.disk.files .canonical = t)
    (ht : existsAt t [] = true) : (rollback m).disk.files .canonical = t := by
  simp [rollback, restore, record, setState, Drive.put, h, ht]

theorem carryOut_ends {l c b s sb : Option Tree} {es : Entries} {m : Migration} {a : Assessment}
    (h : Layout l c b s m.disk) (hsb : m.disk.files .sourceBackup = sb) (hl : Source p l es)
    (hls : a.legacy = summaryOf φ p .legacy o.legacyRoot l) (hj : m.j.destinationBackup = none) :
    Ends φ (.dir es) sb c b (carryOut φ p o a m).1
      ((carryOut φ p o a m).2.disk.files .canonical) := by
  have hbody := Call.bind_assoc (prepare φ p o a.legacy) (fun _ => promote φ p)
    fun _ => enter φ p .stagingPromoted
  have happroach := approach_answers (φ := φ) (p := p) (o := o) h hsb hl hls
  by_cases hgo : Unhindered φ (.dir es) sb c b
  · obtain ⟨u, m₁, hrun, b', hplace⟩ := happroach.answers hgo
    have henter := enter_answers (φ := φ) (p := p) hplace .stagingPromoted
    by_cases hlast : Journals φ .stagingPromoted
    · obtain ⟨⟨⟩, m₂, hlastRun, hend⟩ := henter.answers hlast
      have hout := (congrFun hbody m).symm.trans ((Call.bind_of_ok hrun).trans hlastRun)
      simp only [carryOut, hout]
      exact .done hgo hlast rfl (by simp) hend.canonical
    · obtain ⟨e, m₂, hlastRun⟩ := henter.refuses hlast
      have hout := (congrFun hbody m).symm.trans ((Call.bind_of_ok hrun).trans hlastRun)
      have hkept : m₂.disk.files .canonical = some (.dir es) := by
        have hkeeps := enter_canonical (φ := φ) (p := p) .stagingPromoted m₁
        rw [hlastRun] at hkeeps
        exact hkeeps.trans hplace.canonical
      simp only [carryOut, hout]
      exact .late hgo hlast rfl (rollback_present hkept rfl)
  · obtain ⟨e, m₁, hrun⟩ := happroach.refuses hgo
    have hout := (congrFun hbody m).symm.trans (Call.bind_of_error hrun)
    have hundo := (approach_refuses a.legacy m e m₁ hrun).undoable c (.inl ⟨hj, h.canonical⟩)
    simp only [carryOut, hout]
    exact .undone hgo rfl hundo.rollback

/-- **A migration is all or nothing**, as long as it begins, the legacy database had no log to play
    back, the last journal is written if it comes to that, and otherwise the canonical database had
    no log either. A dry run is not: it reports success. -/
theorem migrate_all_or_nothing_iff (hp : Checkpoints p) {d : Disk} {root : Tree}
    (hroot : (d.files .legacy).bind follow = some root) (hnames : root.Distinct)
    (hdecides : ∃ a d₁ reason, assess φ p o d = (.ok a, d₁) ∧ a.decision = .migrate reason) :
    AllOrNothing d (migrateDataRoot φ p o d) ↔
      o.dryRun = false ∧ Begins φ d ∧ Quiet p (d.files .legacy) ∧
      (Unhindered φ root (d.files .sourceBackup) (opened p (d.files .canonical))
          (d.files .destBackup) → Journals φ .stagingPromoted) ∧
      (¬ Unhindered φ root (d.files .sourceBackup) (opened p (d.files .canonical))
          (d.files .destBackup) → Quiet p (d.files .canonical)) := by
  obtain ⟨a, d₁, reason, hassess, hdecision⟩ := hdecides
  obtain ⟨hlegacy, hcanonical, hdecided, hfiles⟩ := assess_ok hassess
  have hauth := decide_migrate (hdecided.symm.trans hdecision)
  have hrun : migrateDataRoot φ p o d =
      if o.dryRun then (.ok { ok := true, migrated := false, decision := a.decision }, d₁)
      else migrate φ p o a d₁ := by
    rw [migrateDataRoot, Call.bind_of_ok hassess, hdecision]
    cases o.dryRun <;> rfl
  have hlegacy₁ : d₁.files .legacy = opened p (d.files .legacy) := by
    rw [hfiles, Drive.put_ne _ (by decide), Drive.put_self]
  have hcanonical₁ : d₁.files .canonical = opened p (d.files .canonical) := by
    rw [hfiles, Drive.put_self]
  have hothers : ∀ place, place ≠ .legacy → place ≠ .canonical →
      d₁.files place = d.files place := by
    intro place hl hc
    rw [hfiles, Drive.put_ne _ hc, Drive.put_ne _ hl]
  have hdb : existsAt (d.files .legacy) dbPath = true := by
    have := hauth.hasDb
    rwa [hlegacy] at this
  obtain ⟨es, hes⟩ := dir_of_db hdb
  obtain rfl : root = .dir es := by
    rw [hroot] at hes
    simpa using hes
  have hsource : Quiet p (d.files .legacy) → Source p (d.files .legacy) es := by
    intro hwhole
    refine ⟨hroot, hnames, hwhole, hdb, ?_⟩
    have := hauth.intact
    rwa [hlegacy] at this
  rw [hrun]
  by_cases hdry : o.dryRun = true
  · rw [if_pos hdry]
    constructor
    · rintro ⟨r, hr, hdone, -, -, hkept⟩
      obtain rfl := Except.ok.inj hr
      have hwhole : Quiet p (d.files .legacy) := hlegacy₁.symm.trans hkept
      refine absurd ?_ (hauth.unlike hp (hsource hwhole) hlegacy hcanonical)
      rw [← hcanonical₁, ← hroot]
      exact hdone rfl
    · rintro ⟨hno, -⟩
      rw [hdry] at hno
      cases hno
  rw [if_neg hdry]
  have hbegins : Begins φ d₁ ↔ Begins φ d := by
    have hj := hothers .journal (by decide) (by decide)
    have ht := hothers .journalTmp (by decide) (by decide)
    have hopen : JournalOpen d₁ ↔ JournalOpen d := by
      constructor
      · rintro ⟨htmp, hjournal⟩
        exact ⟨by rwa [ht] at htmp, by rwa [hj] at hjournal⟩
      · rintro ⟨htmp, hjournal⟩
        exact ⟨by rwa [ht], by rwa [hj]⟩
    rw [Begins, Begins, hopen]
  have hmigrate := migrate_answers (φ := φ) (p := p) (o := o) a d₁
  by_cases hbegin : Begins φ d
  swap
  · obtain ⟨e, d', hthrow⟩ := hmigrate.refuses fun h => hbegin (hbegins.mp h)
    rw [hthrow]
    constructor
    · rintro ⟨r, hr, -⟩
      cases hr
    · rintro ⟨-, h, -⟩
      exact absurd h hbegin
  obtain ⟨r, d', hout, d₂, ⟨hnoted, hready⟩, heq⟩ := hmigrate.answers (hbegins.mpr hbegin)
  obtain ⟨rfl, rfl⟩ := Prod.mk.inj heq
  rw [hout]
  -- the legacy root is opened, and no more
  have hlegacy₂ : d₂.files .legacy = opened p (d.files .legacy) :=
    (hnoted _ (by decide) (by decide)).trans hlegacy₁
  have hend : (carryOut φ p o a ⟨d₂, planned o a⟩).2.disk.files .legacy =
      opened p (d.files .legacy) := by
    rw [carryOut_legacy a ⟨d₂, planned o a⟩ (by rw [hlegacy₂]; exact opened_whole hp _), hlegacy₂]
  by_cases hwhole : Quiet p (d.files .legacy)
  swap
  · constructor
    · rintro ⟨r, hr, -, -, -, hkept⟩
      exact absurd (hend.symm.trans hkept) hwhole
    · rintro ⟨-, -, h, -⟩
      exact absurd h hwhole
  have hl := hsource hwhole
  have hlayout : Layout (d.files .legacy) (opened p (d.files .canonical)) (d.files .destBackup)
      (d.files .staging) d₂ := by
    refine ⟨hlegacy₂.trans hwhole, (hnoted _ (by decide) (by decide)).trans hcanonical₁, ?_, ?_,
      hready⟩
    · exact (hnoted _ (by decide) (by decide)).trans (hothers _ (by decide) (by decide))
    · exact (hnoted _ (by decide) (by decide)).trans (hothers _ (by decide) (by decide))
  have hsb : d₂.files .sourceBackup = d.files .sourceBackup :=
    (hnoted _ (by decide) (by decide)).trans (hothers _ (by decide) (by decide))
  have hkept := hend.trans hwhole
  have hno : o.dryRun = false := by simpa using hdry
  rcases carryOut_ends (φ := φ) (o := o) (m := ⟨d₂, planned o a⟩) hlayout hsb hl hlegacy rfl with
    ⟨hgo, hlast, hok, hstate, hfile⟩ | ⟨hgo, hlast, hok, hfile⟩ | ⟨hgo, hok, hfile⟩
  · refine iff_of_true ⟨_, rfl, fun _ => hfile.trans hroot.symm, fun h => ?_, fun h => ?_, hkept⟩
      ⟨hno, hbegin, hwhole, fun _ => hlast, fun h => absurd hgo h⟩
    · rw [hok] at h
      cases h
    · exact absurd h hstate
  · refine iff_of_false ?_ fun h => hlast (h.2.2.2.1 hgo)
    rintro ⟨r, hr, -, hundone, -⟩
    obtain rfl := Except.ok.inj hr
    have hsame : d.files .canonical = some (.dir es) := (hundone hok).symm.trans hfile
    refine hauth.unlike hp hl hlegacy hcanonical ?_
    rw [hsame]
    exact hl.copy_whole
  · constructor
    · rintro ⟨r, hr, -, hundone, -⟩
      obtain rfl := Except.ok.inj hr
      exact ⟨hno, hbegin, hwhole, fun h => absurd h hgo,
        fun _ => hfile.symm.trans (hundone hok)⟩
    · rintro ⟨-, -, -, -, hcanonical⟩
      refine ⟨_, rfl, fun h => ?_, fun _ => hfile.trans (hcanonical hgo), fun _ => hok, hkept⟩
      rw [hok] at h
      cases h

/-! A session's worth of data to carry over, and nothing yet at the other end. -/

def oneSession : Platform where
  sha256 bytes := String.ofList (bytes.map fun b => Char.ofNat b.toNat)
  openDatabase t :=
    if existsAt (some t) dbPath then some {
      integrityCheck := some "ok"
      tables := some ["schema_migrations", "sessions"]
      count := fun table => if table = "sessions" then some 1 else none
      maxVersion := some 1 }
    else none
  closed t := t
  size _ := 3
  message _ := "EINVAL: invalid argument"

def upgrade : MigrateOptions where
  legacyRoot := "/home/u/.claude/xbus"
  canonicalRoot := "/opt/xbus/data"
  fromVersion := "legacy-data-root"
  toVersion := "0.1.0-beta.3"
  migrationId := "mig-1"
  backupDir := "/opt/xbus/.data.migration-backup-mig-1"

def legacyTree : Tree :=
  .dir [("auth", .dir [("root.secret", .file [7, 7])]), ("xbus.sqlite", .file [83, 81, 76])]

def freshInstall : Disk where
  files
    | .legacy => some legacyTree
    | _ => none
  failed := []

theorem upgrade_all_or_nothing : AllOrNothing freshInstall
    (migrateDataRoot Faults.none oneSession upgrade freshInstall) := by
  have hiff := migrate_all_or_nothing_iff (φ := Faults.none) (p := oneSession) (o := upgrade)
    (d := freshInstall) ⟨fun es => ⟨es, rfl⟩, fun _ => rfl, fun _ => rfl⟩
    (show (freshInstall.files .legacy).bind follow = some legacyTree from rfl)
    (by simp [legacyTree, Tree.Distinct, DistinctEntries])
    ⟨_, _, "legacy is runtime_authoritative; canonical is absent", rfl, by decide +kernel⟩
  refine hiff.mpr ⟨rfl, ⟨rfl, ⟨rfl, fun es h => nomatch h⟩, rfl, rfl⟩, rfl, fun _ => ⟨rfl, rfl⟩, ?_⟩
  intro _
  rfl

/-- The last journal cannot be renamed into place. -/
def lastRenameFails : MigrationFaults := fun op =>
  if op = .renameJournal .stagingPromoted then some ⟨"EPERM: operation not permitted", none⟩
  else none

/-- The copy stands in the canonical place, and the answer is that it was rolled back. -/
theorem promoted_but_rolled_back :
    (assess lastRenameFails oneSession upgrade freshInstall).1.toOption.map (·.decision) =
      some (.migrate "legacy is runtime_authoritative; canonical is absent") ∧
    ¬ AllOrNothing freshInstall
      (migrateDataRoot lastRenameFails oneSession upgrade freshInstall) := by
  have hok : (migrateDataRoot lastRenameFails oneSession upgrade freshInstall).1.toOption.map
      (·.ok) = some false := by decide +kernel
  have hpromoted : ((migrateDataRoot lastRenameFails oneSession upgrade freshInstall).2.files
      .canonical).isSome = true := by decide +kernel
  refine ⟨by decide +kernel, ?_⟩
  rintro ⟨r, hr, -, hundone, -⟩
  rw [hr] at hok
  rw [hundone (by simpa [Except.toOption] using hok)] at hpromoted
  cases hpromoted

end Proof
end XBus
