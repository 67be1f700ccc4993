import XBus.Lib.Answers
import XBus.Migration

/-!
# What the operations of a migration do

Each operation is specified by when it answers and what it leaves: the verified copy, the summary of
a root (`summaryOf`, a function of the tree that stands there), a rename, a journal write.

`Copies` says of a tree and of what stands where it is copied to that every operation of the copy
goes through: there is no link, nothing is in the way, and no operation fails. `copyDir_ok_iff` is
that the copy then ends, and only then. Where nothing stood there, what it leaves is the tree
(`copyDir_fresh`).
-/

set_option autoImplicit false

namespace XBus
namespace Proof

open Lib
open Lib.Tree

variable {φ : MigrationFaults} {p : Platform} {c : Copying}

/-- The file goes through: it is copied and read on both sides. -/
def CopiesFile (φ : MigrationFaults) (c : Copying) (path : List String) (dst : Option Tree)
    (bytes : Bytes) : Prop :=
  (overwrite dst bytes).isSome ∧ φ (.copyFile c path) = none ∧
    φ (.readSource c path) = none ∧ φ (.readCopy c path) = none

mutual

def Copies (φ : MigrationFaults) (c : Copying) (path : List String) (dst : Option Tree)
    (src : Tree) : Prop :=
  match src with
  | .dir es => (ensureDir dst).isSome ∧ φ (.mkdir c path) = none ∧ φ (.readdir c path) = none ∧
      CopiesEntries φ c path (((ensureDir dst).map entries).getD []) es
  | _ => False
termination_by structural src

def CopiesEntries (φ : MigrationFaults) (c : Copying) (path : List String) (dst : Entries)
    (src : Entries) : Prop :=
  match src with
  | [] => True
  | (name, t) :: es =>
    (match t with
      | .link _ => False
      | .dir _ => Copies φ c (path ++ [name]) (lookupEntry dst name) t
      | .file bytes => CopiesFile φ c (path ++ [name]) (lookupEntry dst name) bytes) ∧
    CopiesEntries φ c path dst es
termination_by structural src

end

/-- What `CopiesEntries` says of one entry. -/
def CopiesEntry (φ : MigrationFaults) (c : Copying) (path : List String) (there : Option Tree)
    (name : String) (t : Tree) : Prop :=
  match t with
  | .link _ => False
  | .dir _ => Copies φ c (path ++ [name]) there t
  | .file bytes => CopiesFile φ c (path ++ [name]) there bytes

theorem copiesEntries_cons {path : List String} {dst es : Entries} {name : String} {t : Tree} :
    CopiesEntries φ c path dst ((name, t) :: es) ↔
      CopiesEntry φ c path (lookupEntry dst name) name t ∧ CopiesEntries φ c path dst es := by
  cases t <;> rfl

@[simp] theorem copies_file {path : List String} {dst : Option Tree} {bytes : Bytes} :
    ¬ Copies φ c path dst (.file bytes) := id

@[simp] theorem copies_link {path : List String} {dst target : Option Tree} :
    ¬ Copies φ c path dst (.link target) := id

/-! ## One file -/

theorem readAt_overwrite {dst t : Option Tree} {bytes : Bytes} (h : overwrite dst bytes = t)
    (ht : t.isSome) : readAt t [] = some bytes := by
  subst h
  unfold overwrite at ht ⊢
  cases dst with
  | none => rfl
  | some there =>
    cases there with
    | file _ => rfl
    | dir _ => cases ht
    | link target =>
      cases target with
      | none => rfl
      | some t =>
        cases t with
        | dir _ => cases ht
        | file _ => rfl
        | link _ => rfl

theorem copyOne_ok_iff {path : List String} {name : String} {bytes : Bytes} {dst : Option Tree} :
    (∃ n, (copyOne φ p c path name bytes dst).files = .ok n) ↔ CopiesFile φ c path dst bytes := by
  unfold copyOne CopiesFile
  cases hw : overwrite dst bytes with
  | none => simp
  | some t =>
    have hread : readAt (some t) [] = some bytes := readAt_overwrite hw rfl
    cases hcopy : φ (.copyFile c path) with
    | some m => simp [failedAt]
    | none =>
      cases hsource : φ (.readSource c path) with
      | some m => simp [failedAt]
      | none =>
        cases hback : φ (.readCopy c path) with
        | some m => simp [failedAt]
        | none => simp [hread]

/-- Where nothing stood, the file is what was copied. -/
theorem copyOne_fresh {path : List String} {name : String} {bytes : Bytes} {n : Nat}
    (h : (copyOne φ p c path name bytes none).files = .ok n) :
    (copyOne φ p c path name bytes none).left = some (.file bytes) := by
  obtain ⟨-, hcopy, hsource, hback⟩ := copyOne_ok_iff.mp ⟨n, h⟩
  have hread : readAt (some (.file bytes)) [] = some bytes := rfl
  simp [copyOne, overwrite, hcopy, hsource, hback, hread]

/-! ## A directory -/

/-- What the copy of one entry is. -/
def copyEntry (φ : MigrationFaults) (p : Platform) (c : Copying) (root : String)
    (path : List String) (there : Option Tree) (name : String) (t : Tree) : Copied :=
  match t with
  | .link _ => ⟨there, .error ⟨none,
      "refusing to copy reparse point during migration: " ++ (root ++ "/" ++ name)⟩⟩
  | .dir _ => copyDir φ p c (root ++ "/" ++ name) (path ++ [name]) there t
  | .file bytes => copyOne φ p c (path ++ [name]) name bytes there

theorem copyEntries_cons (root : String) (path : List String) (dst : Entries) (files : Nat)
    (name : String) (t : Tree) (es : Entries) :
    copyEntries φ p c root path dst files ((name, t) :: es) =
      match (copyEntry φ p c root path (lookupEntry dst name) name t).files with
      | .error e =>
        (putEntry dst name (copyEntry φ p c root path (lookupEntry dst name) name t).left, .error e)
      | .ok n => copyEntries φ p c root path
          (putEntry dst name (copyEntry φ p c root path (lookupEntry dst name) name t).left)
          (files + n) es := by
  cases t <;> rfl

mutual

theorem copyDir_ok_iff : ∀ (src : Tree) (root : String) (path : List String) (dst : Option Tree),
    src.Distinct →
    ((∃ n, (copyDir φ p c root path dst src).files = .ok n) ↔ Copies φ c path dst src)
  | .file _, root, path, dst, _ => by
    unfold copyDir
    cases ensureDir dst <;> cases φ (.mkdir c path) <;> cases φ (.readdir c path) <;>
      simp [failedAt]
  | .link _, root, path, dst, _ => by
    unfold copyDir
    cases ensureDir dst <;> cases φ (.mkdir c path) <;> cases φ (.readdir c path) <;>
      simp [failedAt]
  | .dir es, root, path, dst, hsrc => by
    rw [Distinct] at hsrc
    rw [copyDir, Copies]
    cases hmade : ensureDir dst with
    | none => simp
    | some made =>
      cases hmk : φ (.mkdir c path) with
      | some m => simp [failedAt]
      | none =>
        cases hrd : φ (.readdir c path) with
        | some m => simp [failedAt]
        | none =>
          simpa using copyEntries_ok_iff es root path made.entries made.entries 0 hsrc.1 hsrc.2
            fun _ _ => rfl

/-- Each name is copied once, so what stands there is what stood there before the loop. -/
theorem copyEntries_ok_iff : ∀ (es : Entries) (root : String) (path : List String)
    (before dst : Entries) (files : Nat), (es.map (·.1)).Nodup → DistinctEntries es →
    (∀ name ∈ es.map (·.1), lookupEntry dst name = lookupEntry before name) →
    ((∃ n, (copyEntries φ p c root path dst files es).2 = .ok n) ↔
      CopiesEntries φ c path before es)
  | [], root, path, before, dst, files, _, _, _ => by
    simp [copyEntries, CopiesEntries]
  | (name, t) :: es, root, path, before, dst, files, hnames, htrees, hdst => by
    rw [DistinctEntries] at htrees
    obtain ⟨hfresh, hnames⟩ := List.nodup_cons.mp hnames
    have hone : (∃ n, (copyEntry φ p c root path (lookupEntry dst name) name t).files = .ok n) ↔
        CopiesEntry φ c path (lookupEntry before name) name t := by
      rw [hdst name (by simp)]
      cases t with
      | link _ => simp [copyEntry, CopiesEntry]
      | file bytes => exact copyOne_ok_iff
      | dir sub => exact copyDir_ok_iff (.dir sub) _ _ _ htrees.1
    rw [copyEntries_cons, copiesEntries_cons, ← hone]
    cases hout : (copyEntry φ p c root path (lookupEntry dst name) name t).files with
    | error e => simp
    | ok n =>
      rw [copyEntries_ok_iff es root path before _ (files + n) hnames htrees.2 ?_]
      · simp
      · intro other hother
        have hne : other ≠ name := by
          rintro rfl
          exact hfresh hother
        rw [lookupEntry_putEntry_ne hne, hdst other (List.mem_cons_of_mem _ hother)]

end

mutual

/-- A copy to where nothing stood leaves the tree. -/
theorem copyDir_fresh : ∀ (src : Tree) (root : String) (path : List String) (n : Nat),
    src.Distinct → (copyDir φ p c root path none src).files = .ok n →
    (copyDir φ p c root path none src).left = some src
  | .file _, root, path, n, hsrc, h =>
    absurd ((copyDir_ok_iff (.file _) root path none hsrc).mp ⟨n, h⟩) copies_file
  | .link _, root, path, n, hsrc, h =>
    absurd ((copyDir_ok_iff (.link _) root path none hsrc).mp ⟨n, h⟩) copies_link
  | .dir es, root, path, n, hsrc, h => by
    have hgo := (copyDir_ok_iff (.dir es) root path none hsrc).mp ⟨n, h⟩
    rw [Copies] at hgo
    obtain ⟨-, hmk, hrd, -⟩ := hgo
    rw [Distinct] at hsrc
    rw [copyDir, hmk, hrd] at h ⊢
    have hes := copyEntries_fresh es root path [] 0 n hsrc.1 hsrc.2 (by simp) h
    simp only [ensureDir, withEntries, through]
    rw [show (Tree.dir []).entries = [] from rfl, hes]
    rfl

theorem copyEntries_fresh : ∀ (es : Entries) (root : String) (path : List String) (dst : Entries)
    (files n : Nat), (es.map (·.1)).Nodup → DistinctEntries es →
    (∀ name ∈ es.map (·.1), name ∉ dst.map (·.1)) →
    (copyEntries φ p c root path dst files es).2 = .ok n →
    (copyEntries φ p c root path dst files es).1 = dst ++ es
  | [], root, path, dst, files, n, _, _, _, _ => by simp [copyEntries]
  | (name, t) :: es, root, path, dst, files, n, hnames, htrees, hdst, h => by
    rw [DistinctEntries] at htrees
    obtain ⟨hname, hnames⟩ := List.nodup_cons.mp hnames
    have hfresh := hdst name (by simp)
    rw [copyEntries_cons, lookupEntry_fresh hfresh] at h ⊢
    cases hout : (copyEntry φ p c root path none name t).files with
    | error e =>
      rw [hout] at h
      cases h
    | ok k =>
      rw [hout] at h
      have hleft : (copyEntry φ p c root path none name t).left = some t := by
        cases t with
        | link _ => cases hout
        | file bytes => exact copyOne_fresh hout
        | dir sub => exact copyDir_fresh (.dir sub) _ _ k htrees.1 hout
      simp only [hleft, putEntry, setEntry_fresh hfresh] at h ⊢
      rw [copyEntries_fresh es root path (dst ++ [(name, t)]) (files + k) n hnames htrees.2 ?_ h]
      · simp
      · intro other hother hmem
        rw [List.map_append, List.mem_append] at hmem
        rcases hmem with hmem | hmem
        · exact hdst other (List.mem_cons_of_mem _ hother) hmem
        · obtain rfl : other = name := by simpa using hmem
          exact hname hother

end

/-! ## Summaries of a tree -/

/-- A root after its database was opened. -/
def opened (p : Platform) (t : Option Tree) : Option Tree :=
  if existsAt t dbPath then t.map (through p.closed) else t

/-- Opening the database changes nothing. -/
def Quiet (p : Platform) (t : Option Tree) : Prop := opened p t = t

def inspectionAt (p : Platform) (t : Option Tree) : Inspection :=
  match t.bind follow with
  | some root => if existsAt t dbPath then inspection p root else {}
  | none => {}

/-- What a read gives where the root is `t`. -/
def readOf (φ : MigrationFaults) (op : MigrationOp) (t : Option Tree) (path : List String) :
    Option Bytes :=
  if (φ op).isSome then none else readAt t path

/-- The summary of a root that is `t`. -/
def summaryOf (φ : MigrationFaults) (p : Platform) (look : Look) (root : String)
    (t : Option Tree) : RootSummary where
  root := root
  rootExists := existsAt t []
  hasDb := existsAt t dbPath
  dbBytes := if existsAt t dbPath then ((find? (opened p t) dbPath).map p.size).getD 0 else 0
  dbHash := if existsAt t dbPath then (readOf φ (.hashDb look) (opened p t) dbPath).map p.sha256
    else none
  integrityOk := (inspectionAt p t).integrityOk
  schemaVersion := (inspectionAt p t).schemaVersion
  sessions := (inspectionAt p t).sessions
  messages := (inspectionAt p t).messages
  aliases := (inspectionAt p t).aliases
  audit := (inspectionAt p t).audit
  hasSecret := (readOf φ (.readSecret look) (opened p t) secretPath).isSome
  secretHash := (readOf φ (.readSecret look) (opened p t) secretPath).map p.sha256
  hasBrokerState := existsAt (opened p t) brokerStatePath
  hasMigrationMarker := existsAt (opened p t) [MIGRATION_MARKER]

/-- Below nothing there is nothing. -/
theorem exists_follow {t : Option Tree} {path : List String} (h : existsAt t path = true) :
    ∃ root, t.bind follow = some root := by
  cases hroot : t.bind follow with
  | some root => exact ⟨root, rfl⟩
  | none =>
    rw [existsAt, find_of_follow (u := none) hroot, find_none] at h
    cases h

theorem inspectDb_run (place : XBus.Place) (d : Disk) :
    ∃ d', inspectDb p place d = (.ok (inspectionAt p (d.files place)), d') ∧
      d'.files = (d.put place (opened p (d.files place))).files := by
  have hsame : (d.put place (d.files place)).files = d.files := by
    funext q
    by_cases hq : q = place
    · rw [hq, Drive.put_self]
    · rw [Drive.put_ne _ hq]
  by_cases hdb : existsAt (d.files place) dbPath = true
  · obtain ⟨root, hroot⟩ := exists_follow hdb
    exact ⟨d.put place (opened p (d.files place)),
      by simp [inspectDb, Call.act, inspectionAt, opened, hroot, hdb], rfl⟩
  · refine ⟨d, ?_, by rw [opened, if_neg hdb, hsame]⟩
    cases hroot : (d.files place).bind follow with
    | none => simp [inspectDb, Call.act, inspectionAt, hroot]
    | some root => simp [inspectDb, Call.act, inspectionAt, hroot, hdb]

theorem tryRead_run (op : MigrationOp) (place : XBus.Place) (path : List String) (d : Disk) :
    ∃ d', tryRead φ op place path d = (.ok (readOf φ op (d.files place) path), d') ∧
      d'.files = d.files := by
  cases h : φ op with
  | none => exact ⟨d, by simp [tryRead, readOf, Call.act, h], rfl⟩
  | some m => exact ⟨d.noteFailed op, by simp [tryRead, readOf, Call.act, h], rfl⟩

theorem statDb_answers (look : Look) (hasDb : Bool) (d : Disk) :
    AnswersIff (hasDb = true → φ (.statDb look) = none)
      (fun n d' => n = (if hasDb then ((find? (d.files look.place) dbPath).map p.size).getD 0
        else 0) ∧ d'.files = d.files) (statDb φ p look hasDb) d := by
  cases hasDb with
  | false =>
    refine ((AnswersIff.pure 0).mono ?_).congr (by simp)
    rintro n d' ⟨rfl, rfl⟩
    exact ⟨rfl, rfl⟩
  | true =>
    refine (AnswersIff.bind (D := True) (.attemptAtomic _ _ _ _) ?_).congr (by simp)
    rintro ⟨⟩ d' rfl
    exact AnswersIff.after rfl ((AnswersIff.pure _).mono fun n d' h => by simp [h.1, h.2])

theorem hashDb_run (look : Look) (hasDb : Bool) (d : Disk) :
    ∃ d', hashDb φ p look hasDb d =
        (.ok (if hasDb then (readOf φ (.hashDb look) (d.files look.place) dbPath).map p.sha256
          else none), d') ∧ d'.files = d.files := by
  cases hasDb with
  | false => exact ⟨d, rfl, rfl⟩
  | true =>
    obtain ⟨d', hread, hfiles⟩ := tryRead_run (φ := φ) (.hashDb look) look.place dbPath d
    refine ⟨d', ?_, hfiles⟩
    rw [hashDb, if_pos rfl, Call.bind_of_ok hread]
    rfl

theorem summarizeRoot_answers (look : Look) (root : String) (d : Disk) :
    AnswersIff (existsAt (d.files look.place) dbPath = true → φ (.statDb look) = none)
      (fun s d' => s = summaryOf φ p look root (d.files look.place) ∧
        d'.files = (d.put look.place (opened p (d.files look.place))).files)
      (summarizeRoot φ p look root) d := by
  obtain ⟨d₁, hinspect, hd₁⟩ := inspectDb_run (p := p) look.place d
  obtain ⟨d₂, hsecret, hd₂⟩ := tryRead_run (φ := φ) (.readSecret look) look.place secretPath d₁
  have hnow : d₂.files look.place = opened p (d.files look.place) := by
    rw [hd₂, hd₁, Drive.put_self]
  refine AnswersIff.after rfl (.after hinspect (.after hsecret ?_))
  refine (AnswersIff.bind (D := True) (statDb_answers look _ d₂) ?_).congr (by simp)
  rintro n d₃ ⟨rfl, hd₃⟩
  obtain ⟨d₄, hhash, hd₄⟩ := hashDb_run (φ := φ) (p := p) look
    (existsAt (d.files look.place) dbPath) d₃
  refine AnswersIff.after hhash (AnswersIff.after rfl ((AnswersIff.pure _).mono ?_))
  rintro s d' ⟨rfl, hd'⟩
  have hend : d₄.files look.place = opened p (d.files look.place) := by rw [hd₄, hd₃, hnow]
  have hread : d₁.files look.place = opened p (d.files look.place) := by rw [← hd₂, hnow]
  refine ⟨by simp only [summaryOf, hend, hread, hd₃, hnow], ?_⟩
  rw [hd', hd₄, hd₃, hd₂, hd₁]

/-! ## Renames, journal writes and copies -/

def Movable (src dst : Option Tree) : Prop := src.any (fun t => mayReplace t dst) = true

instance (src dst : Option Tree) : Decidable (Movable src dst) :=
  inferInstanceAs (Decidable (_ = true))

theorem renamePlace_answers (op : MigrationOp) (src dst : XBus.Place) (d : Disk) :
    AnswersIff (Movable (d.files src) (d.files dst) ∧ φ op = none)
      (fun _ d' => d' = (d.put dst (d.files src)).put src none) (renamePlace φ p op src dst) d := by
  refine AnswersIff.after rfl (AnswersIff.bind (Q := fun _ t => t = d) (AnswersIff.require _ _) ?_)
  intro u d' hd'
  subst hd'
  exact .attemptAtomic φ op (fun d => (d.put dst (d.files src)).put src none) d'

/-- A journal can be written: neither it nor its temporary file is a directory. -/
structure JournalOpen (d : Disk) : Prop where
  tmp : (overwrite (d.files .journalTmp) []).isSome
  journal : ∀ es, d.files .journal ≠ some (.dir es)

/-- Only the journal changed, and can be written again. -/
structure JournalOnly (d d' : Disk) : Prop where
  others : ∀ place, place ≠ .journal → place ≠ .journalTmp → d'.files place = d.files place
  ready : JournalOpen d'

theorem overwrite_bytes (t : Option Tree) (bytes bytes' : Bytes) :
    (overwrite t bytes).isSome = (overwrite t bytes').isSome := by
  unfold overwrite
  split <;> rfl

theorem overwrite_notDir {t : Option Tree} {bytes : Bytes} {w : Tree}
    (h : overwrite t bytes = some w) : ∀ es, w ≠ .dir es := by
  intro es hdir
  subst hdir
  unfold overwrite at h
  split at h <;> cases h

theorem mayReplace_notDir {t : Tree} {there : Option Tree} (ht : ∀ es, t ≠ .dir es) :
    mayReplace t there = true ↔ ∀ es, there ≠ some (.dir es) := by
  cases there with
  | none => simp [mayReplace]
  | some u =>
    cases u with
    | dir es =>
      cases t with
      | dir sub => exact absurd rfl (ht sub)
      | file bytes => simp [mayReplace]
      | link target => simp [mayReplace]
    | file bytes =>
      cases t with
      | dir sub => exact absurd rfl (ht sub)
      | file bytes => simp [mayReplace]
      | link target => simp [mayReplace]
    | link target =>
      cases t with
      | dir sub => exact absurd rfl (ht sub)
      | file bytes => simp [mayReplace]
      | link target => simp [mayReplace]

/-- The journal of one state is written. -/
def Journals (φ : MigrationFaults) (state : JournalState) : Prop :=
  φ (.writeJournal state) = none ∧ φ (.renameJournal state) = none

theorem writeJournal_answers (j : MigrationJournal) (d : Disk) :
    AnswersIff (JournalOpen d ∧ Journals φ j.state) (fun _ d' => JournalOnly d d')
      (writeJournal φ p j) d := by
  have hbytes := overwrite_bytes (d.files .journalTmp) j.text []
  have hkind : ∀ es, overwrite (d.files .journalTmp) j.text ≠ some (.dir es) := by
    intro es h
    exact overwrite_notDir h es rfl
  have hrename : ∀ d₂, d₂ = d.put .journalTmp (overwrite (d.files .journalTmp) j.text) →
      AnswersIff (Movable (overwrite (d.files .journalTmp) j.text) (d.files .journal) ∧
        φ (.renameJournal j.state) = none) (fun _ d' => JournalOnly d d')
        (renamePlace φ p (.renameJournal j.state) .journalTmp .journal) d₂ := by
    rintro d₂ rfl
    have hrun := renamePlace_answers (φ := φ) (p := p) (.renameJournal j.state) .journalTmp .journal
      (d.put .journalTmp (overwrite (d.files .journalTmp) j.text))
    rw [Drive.put_self, Drive.put_ne _ (by decide)] at hrun
    refine hrun.mono fun _ d' hd' => ?_
    subst hd'
    refine ⟨fun place hj ht => by simp [Drive.put, hj, ht], ?_, fun es => ?_⟩
    · rw [Drive.put_self]
      rfl
    · rw [Drive.put_ne _ (by decide), Drive.put_self]
      exact hkind es
  refine AnswersIff.congr (AnswersIff.after rfl (.bind (.require _ _) fun _ d₁ h₁ =>
    .bind (.attempt _ _ _ _ _) fun _ d₂ h₂ => hrename d₂ (by rw [h₂, h₁]))) ?_
  -- what was written is no directory, so it may be renamed to where none is
  have hmovable : (overwrite (d.files .journalTmp) j.text).isSome = true →
      (Movable (overwrite (d.files .journalTmp) j.text) (d.files .journal) ↔
        ∀ es, d.files .journal ≠ some (.dir es)) := by
    intro hsome
    obtain ⟨w, hw⟩ := Option.isSome_iff_exists.mp hsome
    rw [hw]
    exact mayReplace_notDir fun es h => overwrite_notDir hw es h
  constructor
  · rintro ⟨hopen, hwrite, hren⟩
    have hsome := hbytes.trans hopen.tmp
    exact ⟨hsome, hwrite, (hmovable hsome).mpr hopen.journal, hren⟩
  · rintro ⟨hsome, hwrite, hmove, hren⟩
    exact ⟨⟨hbytes.symm.trans hsome, (hmovable hsome).mp hmove⟩, hwrite, hren⟩

theorem copyDirVerified_answers (root : String) {d : Disk} {src : Tree}
    (hsrc : (d.files .legacy).bind follow = some src) (hnames : src.Distinct) :
    AnswersIff (Copies φ c [] (d.files c.place) src)
      (fun _ d' => ∃ left, d' = d.put c.place left ∧ (d.files c.place = none → left = some src))
      (copyDirVerified φ p c root) d := by
  have hiff := copyDir_ok_iff (φ := φ) (p := p) (c := c) src root [] (d.files c.place) hnames
  unfold copyDirVerified
  constructor
  · intro hgo
    obtain ⟨n, hn⟩ := hiff.mpr hgo
    refine ⟨n, d.put c.place (copyDir φ p c root [] (d.files c.place) src).left, ?_, _, rfl, ?_⟩
    · simp only [hsrc, hn]
    · intro hnone
      rw [hnone] at hn ⊢
      exact copyDir_fresh src root [] n hnames hn
  · intro hgo
    cases hout : (copyDir φ p c root [] (d.files c.place) src).files with
    | ok n => exact absurd (hiff.mp ⟨n, hout⟩) hgo
    | error e =>
      rcases e with ⟨_ | op, e⟩
      · exact ⟨e, _, by simp only [hsrc, hout]; rfl⟩
      · exact ⟨e, _, by simp only [hsrc, hout]; rfl⟩

end Proof
end XBus
