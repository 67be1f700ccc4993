import XBus.Release
import XBus.Lib.Lines

/-!
# The archive and what is read of it

The writer runs over the files twice and counts offsets; the reader follows the numbers that the
writer put down. `visitZip_archive` is where the two meet: the reader finds the files the writer was
given, in their order, as far as the numbers fit their fields, and where they do not there is no
archive. What is left to **`release_round_trip_iff`** is the comparison with `SHA256SUMS`, which
keeps one digest of a path that is listed more than once.
-/

set_option autoImplicit false

namespace XBus
namespace Proof

open Lib

variable {env : PackEnv} {buf : Bytes} {files fs fs' : List PackFile}

/-! ## The order of the files -/

theorem bytesLe_total (as bs : Bytes) : bytesLe as bs ∨ bytesLe bs as := by
  induction as generalizing bs with
  | nil => exact .inl rfl
  | cons a as ih =>
    cases bs with
    | nil => exact .inr rfl
    | cons b bs =>
      simp only [bytesLe, Bool.or_eq_true, Bool.and_eq_true, decide_eq_true_eq]
      rcases Nat.lt_trichotomy a.toNat b.toNat with hlt | heq | hlt
      · exact .inl (.inl hlt)
      · obtain rfl := UInt8.toNat_inj.mp heq
        exact (ih bs).imp (fun h => .inr ⟨rfl, h⟩) fun h => .inr ⟨rfl, h⟩
      · exact .inr (.inl hlt)

theorem bytesLe_trans {as bs cs : Bytes} (h : bytesLe as bs) (h' : bytesLe bs cs) :
    bytesLe as cs := by
  induction as generalizing bs cs with
  | nil => rfl
  | cons a as ih =>
    cases bs with
    | nil => cases h
    | cons b bs =>
      cases cs with
      | nil => cases h'
      | cons c cs =>
        simp only [bytesLe, Bool.or_eq_true, Bool.and_eq_true, decide_eq_true_eq] at h h' ⊢
        rcases h with hlt | ⟨rfl, h⟩
        · rcases h' with hlt' | ⟨rfl, -⟩
          · exact .inl (Nat.lt_trans hlt hlt')
          · exact .inl hlt
        · rcases h' with hlt' | ⟨rfl, h'⟩
          · exact .inl hlt'
          · exact .inr ⟨rfl, ih h h'⟩

theorem bytesLe_antisymm {as bs : Bytes} (h : bytesLe as bs) (h' : bytesLe bs as) : as = bs := by
  induction as generalizing bs with
  | nil =>
    cases bs with
    | nil => rfl
    | cons b bs => cases h'
  | cons a as ih =>
    cases bs with
    | nil => cases h
    | cons b bs =>
      simp only [bytesLe, Bool.or_eq_true, Bool.and_eq_true, decide_eq_true_eq] at h h'
      rcases h with hlt | ⟨rfl, h⟩
      · rcases h' with hlt' | ⟨rfl, -⟩
        · exact absurd hlt' (Nat.lt_asymm hlt)
        · exact absurd hlt (Nat.lt_irrefl _)
      · rcases h' with hlt' | ⟨-, h'⟩
        · exact absurd hlt' (Nat.lt_irrefl _)
        · rw [ih h h']

instance : IsTrans PackFile fun a b => bytesLe (utf8 a.name) (utf8 b.name) = true :=
  ⟨fun _ _ _ => bytesLe_trans⟩

instance : Std.Total fun a b : PackFile => bytesLe (utf8 a.name) (utf8 b.name) = true :=
  ⟨fun _ _ => bytesLe_total _ _⟩

/-- Files of distinct names are sorted the same, however they were listed. -/
theorem sortFiles_eq (h : (fs.map PackFile.name).Nodup) (h' : (fs'.map PackFile.name).Nodup)
    (hset : ∀ f, f ∈ fs ↔ f ∈ fs') : sortFiles fs = sortFiles fs' := by
  have hperm : fs.Perm fs' := (List.perm_ext_iff_of_nodup (.of_map _ h) (.of_map _ h')).mpr hset
  have hsorted : (sortFiles fs).Perm (sortFiles fs') :=
    ((List.perm_insertionSort _ fs).trans hperm).trans (List.perm_insertionSort _ fs').symm
  refine hsorted.eq_of_pairwise ?_ (List.pairwise_insertionSort _ fs)
    (List.pairwise_insertionSort _ fs')
  intro a b ha hb hab hba
  have hname : a.name = b.name := utf8_injective (bytesLe_antisymm hab hba)
  refine List.inj_on_of_nodup_map h' ?_ ((List.mem_insertionSort _).mp hb) hname
  exact (hset a).mp ((List.mem_insertionSort _).mp ha)

theorem checkCollisions_ok {seen : List (List Char × List Char)}
    (h : checkCollisions env fs seen = .ok ()) :
    (fs.map fun f => env.toLowerCase f.name).Nodup ∧
      ∀ f ∈ fs, env.toLowerCase f.name ∉ seen.map Prod.fst := by
  induction fs generalizing seen with
  | nil => exact ⟨.nil, fun f hf => absurd hf List.not_mem_nil⟩
  | cons f fs ih =>
    unfold checkCollisions at h
    split at h
    · cases h
    · next hfresh =>
      obtain ⟨hnodup, hseen⟩ := ih h
      -- The folded name was not among those seen.
      have hnew : env.toLowerCase f.name ∉ seen.map Prod.fst := by
        intro hmem
        obtain ⟨s, hs, hfst⟩ := List.mem_map.mp hmem
        exact List.find?_eq_none.mp hfresh s hs (decide_eq_true hfst)
      refine ⟨List.nodup_cons.mpr ⟨fun hmem => ?_, hnodup⟩, fun g hg => ?_⟩
      · obtain ⟨g, hg, hfold⟩ := List.mem_map.mp hmem
        exact hseen g hg (List.mem_map.mpr ⟨_, List.mem_cons_self, hfold.symm⟩)
      · rcases List.mem_cons.mp hg with rfl | hg
        · exact hnew
        · exact fun hmem => hseen g hg (List.mem_cons_of_mem _ hmem)

theorem names_nodup (h : checkCollisions env fs [] = .ok ()) : (fs.map PackFile.name).Nodup := by
  have hfolded : ((fs.map PackFile.name).map env.toLowerCase).Nodup := by
    rw [List.map_map]
    exact (checkCollisions_ok h).1
  exact .of_map _ hfolded

/-! ## The host's calls -/

theorem inOneCall_ok {tooMany : PackError} {bs bs' : Bytes} :
    inOneCall tooMany bs = .ok bs' ↔ bs.length ≤ MAX_BYTES ∧ bs' = bs := by
  unfold inOneCall
  split
  · next hle => exact ⟨fun h => ⟨hle, (Except.ok.inj h).symm⟩, fun h => congrArg _ h.2.symm⟩
  · next hle => exact ⟨fun h => (by cases h), fun h => absurd h.1 hle⟩

theorem readTextSync_ok {bs : Bytes} {cs : List Char} :
    readTextSync bs = .ok cs ↔ bs.length < MAX_STRING ∧ cs = readUtf8 bs := by
  have hlimits : MAX_STRING ≤ MAX_BYTES := by decide
  simp only [readTextSync, readFileSync, exceptBind_ok, inOneCall_ok]
  constructor
  · rintro ⟨_, ⟨-, rfl⟩, h⟩
    split at h
    · next hlt => exact ⟨hlt, (Except.ok.inj h).symm⟩
    · cases h
  · rintro ⟨hlt, rfl⟩
    exact ⟨bs, ⟨by omega, rfl⟩, if_pos hlt⟩

theorem createHash_ok {data : Bytes} {digest : List Char} :
    createHash env data = .ok digest ↔ data.length ≤ MAX_BYTES ∧ digest = env.sha256 data := by
  simp only [createHash, exceptBind_ok, inOneCall_ok, exceptPure_ok]
  constructor
  · rintro ⟨_, ⟨hle, rfl⟩, rfl⟩
    exact ⟨hle, rfl⟩
  · rintro ⟨hle, rfl⟩
    exact ⟨data, ⟨hle, rfl⟩, rfl⟩

/-! ## The headers -/

theorem writeUInt_ok {w n : Nat} {bs : Bytes} (h : writeUInt w n = .ok bs) :
    n < 256 ^ w ∧ bs = leWord w n := by
  unfold writeUInt at h
  split at h
  · next hn => exact ⟨hn, (Except.ok.inj h).symm⟩
  · cases h

theorem readUInt_of_at {w n i : Nat} (h : At buf i (leWord w n)) (hn : n < 256 ^ w) :
    readUInt w buf i = .ok n := by
  rw [readUInt, word?_of_at h hn]

/-- What the reader takes from a local header. -/
structure LocalReads (buf : Bytes) (i size nameLen : Nat) : Prop where
  signature : readUInt 4 buf i = .ok LOCAL_SIGNATURE
  nameLen : readUInt 2 buf (i + 26) = .ok nameLen
  extraLen : readUInt 2 buf (i + 28) = .ok 0

theorem localHeader_ok {crc : UInt32} {size nameLen : Nat} {lfh : Bytes}
    (h : localHeader crc size nameLen = .ok lfh) :
    lfh.length = 30 ∧ ∀ buf i, At buf i lfh → LocalReads buf i size nameLen := by
  simp only [localHeader, exceptBind_ok, exceptPure_ok] at h
  obtain ⟨_, hwritten, _, hwritten', rfl⟩ := h
  obtain ⟨hsize, rfl⟩ := writeUInt_ok hwritten
  obtain ⟨hname, rfl⟩ := writeUInt_ok hwritten'
  refine ⟨by simp, fun buf i hat => ?_⟩
  have htail := (((((((hat.right).right).right).right).right).right).right).right.right
  simp only [length_leWord, Nat.add_assoc, Nat.reduceAdd] at htail
  refine ⟨readUInt_of_at hat.left (by decide), readUInt_of_at htail.left hname, ?_⟩
  have hextra := htail.right
  simp only [length_leWord, Nat.add_assoc, Nat.reduceAdd] at hextra
  exact readUInt_of_at hextra (by decide)

/-- What the reader takes from a central header. -/
structure CentralReads (buf : Bytes) (i : Nat) (e : ZipFileEntry) : Prop where
  signature : readUInt 4 buf i = .ok CENTRAL_SIGNATURE
  method : readUInt 2 buf (i + 10) = .ok 0
  crc : readUInt 4 buf (i + 16) = .ok e.crc32.toNat
  compSize : readUInt 4 buf (i + 20) = .ok e.data.length
  nameLen : readUInt 2 buf (i + 28) = .ok (utf8 e.name).length
  extraLen : readUInt 2 buf (i + 30) = .ok 0
  commentLen : readUInt 2 buf (i + 32) = .ok 0
  lho : readUInt 4 buf (i + 42) = .ok e.offset

theorem centralHeader_ok {e : ZipFileEntry} {cdh : Bytes} (h : centralHeader e = .ok cdh) :
    cdh.length = 46 ∧ ∀ buf i, At buf i cdh → CentralReads buf i e := by
  simp only [centralHeader, exceptBind_ok, exceptPure_ok] at h
  obtain ⟨_, hwritten, _, hwritten', _, hwritten'', rfl⟩ := h
  obtain ⟨hsize, rfl⟩ := writeUInt_ok hwritten
  obtain ⟨hname, rfl⟩ := writeUInt_ok hwritten'
  obtain ⟨hoffset, rfl⟩ := writeUInt_ok hwritten''
  refine ⟨by simp, fun buf i hat => ?_⟩
  have hmethod := hat.right.right.right.right
  have hcrc := hmethod.right.right.right
  have hcomp := hcrc.right
  have hnameLen := hcomp.right.right
  have hextra := hnameLen.right
  have hcomment := hextra.right
  have hlho := hcomment.right.right.right.right
  simp only [length_leWord, Nat.add_assoc, Nat.reduceAdd] at hmethod hcrc hcomp hnameLen
  simp only [length_leWord, Nat.add_assoc, Nat.reduceAdd] at hextra hcomment hlho
  exact
    { signature := readUInt_of_at hat.left (by decide)
      method := readUInt_of_at hmethod.left (by decide)
      crc := readUInt_of_at hcrc.left e.crc32.toNat_lt
      compSize := readUInt_of_at hcomp.left hsize
      nameLen := readUInt_of_at hnameLen.left hname
      extraLen := readUInt_of_at hextra.left (by decide)
      commentLen := readUInt_of_at hcomment.left (by decide)
      lho := readUInt_of_at hlho hoffset }

theorem endRecord_ok {count size start : Nat} {eocd : Bytes}
    (h : endRecord count size start = .ok eocd) :
    eocd.length = 22 ∧ ∀ buf i, At buf i eocd → word? 4 buf i = some END_SIGNATURE ∧
      readUInt 2 buf (i + 10) = .ok count ∧ readUInt 4 buf (i + 16) = .ok start := by
  simp only [endRecord, exceptBind_ok, exceptPure_ok] at h
  obtain ⟨_, hwritten, _, hwritten', _, hwritten'', rfl⟩ := h
  obtain ⟨hcount, rfl⟩ := writeUInt_ok hwritten
  obtain ⟨-, rfl⟩ := writeUInt_ok hwritten'
  obtain ⟨hstart, rfl⟩ := writeUInt_ok hwritten''
  refine ⟨by simp, fun buf i hat => ?_⟩
  have htotal := hat.right.right.right.right
  have hcd := htotal.right.right
  simp only [length_leWord, Nat.add_assoc, Nat.reduceAdd] at htotal hcd
  exact ⟨word?_of_at hat.left (by decide), readUInt_of_at htotal.left hcount,
    readUInt_of_at hcd.left hstart⟩

/-! ## The writer and the reader meet -/

def ZipFileEntry.file (e : ZipFileEntry) : PackFile := { name := e.name, data := e.data }

/-- The entry's local header, its name and its data stand where the entry says. -/
structure StoredAt (env : PackEnv) (buf : Bytes) (e : ZipFileEntry) : Prop where
  crc : e.crc32 = env.crc32 e.data
  header : LocalReads buf e.offset e.data.length (utf8 e.name).length
  data : At buf (e.offset + 30 + (utf8 e.name).length) e.data

theorem localRecords_ok {offset behind : Nat} {entries : List ZipFileEntry} {bytes : Bytes}
    (h : localRecords env offset fs = .ok (entries, bytes, behind)) :
    behind = offset + bytes.length ∧ entries.map ZipFileEntry.file = fs ∧
      ∀ buf, At buf offset bytes → ∀ e ∈ entries, StoredAt env buf e := by
  induction fs generalizing offset behind entries bytes with
  | nil =>
    obtain ⟨⟩ := Except.ok.inj h
    exact ⟨rfl, rfl, fun buf _ e he => absurd he List.not_mem_nil⟩
  | cons f fs ih =>
    simp only [localRecords, readFileSync, exceptBind_ok, exceptPure_ok, inOneCall_ok] at h
    obtain ⟨_, ⟨-, rfl⟩, lfh, hlfh, ⟨entries, bytes, behind⟩, hrest, heq⟩ := h
    obtain ⟨⟩ := heq
    obtain ⟨hlength, hreads⟩ := localHeader_ok hlfh
    obtain ⟨hbehind, hfiles, hstored⟩ := ih hrest
    refine ⟨?_, by rw [List.map_cons, hfiles]; rfl, fun buf hat e he => ?_⟩
    · simp only [hbehind, List.length_append]
      omega
    · -- Behind its header stand the name, the data and the next record.
      have hname : At buf (offset + 30) (utf8 f.name ++ (f.data ++ bytes)) := hat.field hlength
      have hdata : At buf (offset + 30 + (utf8 f.name).length) (f.data ++ bytes) := hname.right
      rcases List.mem_cons.mp he with rfl | he
      · exact ⟨rfl, hreads buf offset hat.left, hdata.left⟩
      · refine hstored buf ?_ e he
        have hbytes := hdata.right
        rwa [Nat.add_assoc, Nat.add_assoc, ← Nat.add_assoc 30, ← hlength] at hbytes

/-- A round of the reader at the central header of an entry that is stored. -/
theorem readEntry_ok {e : ZipFileEntry} {i : Nat} {cdh rest : Bytes}
    (hcdh : centralHeader e = .ok cdh) (hat : At buf i (cdh ++ (utf8 e.name ++ rest)))
    (hstored : StoredAt env buf e) :
    readEntry env buf i = .ok { name := e.name, data := e.data,
                                next := i + (46 + (utf8 e.name).length) } := by
  obtain ⟨hlength, hreads⟩ := centralHeader_ok hcdh
  obtain ⟨hsig, hmethod, hcrc, hcomp, hnameLen, hextra, hcomment, hlho⟩ := hreads buf i hat.left
  have hname : slice buf (i + 46) (i + 46 + (utf8 e.name).length) = utf8 e.name :=
    slice_of_at (hat.field hlength).left rfl
  have hdata : slice buf (e.offset + 30 + (utf8 e.name).length + 0)
      (e.offset + 30 + (utf8 e.name).length + 0 + e.data.length) = e.data :=
    slice_of_at hstored.data rfl
  unfold readEntry
  simp only [hsig, hmethod, hcrc, hcomp, hnameLen, hextra, hcomment, hlho, exceptOk_bind, hname,
    readUtf8_utf8, hstored.header.signature, hstored.header.nameLen, hstored.header.extraLen, hdata,
    ← hstored.crc, ne_eq, not_true_eq_false, if_false]
  rfl

theorem centralRecords_ok {offset behind : Nat} {entries : List ZipFileEntry} {bytes : Bytes}
    (h : centralRecords offset entries = .ok (bytes, behind)) (hat : At buf offset bytes)
    (hstored : ∀ e ∈ entries, StoredAt env buf e) :
    visitEntries env buf entries.length offset = .ok (entries.map ZipFileEntry.file) := by
  induction entries generalizing offset behind bytes with
  | nil => rfl
  | cons e entries ih =>
    simp only [centralRecords, exceptBind_ok, exceptPure_ok] at h
    obtain ⟨cdh, hcdh, ⟨bytes, behind⟩, hrest, heq⟩ := h
    obtain ⟨⟩ := heq
    obtain ⟨hlength, -⟩ := centralHeader_ok hcdh
    have hread := readEntry_ok hcdh hat (hstored e List.mem_cons_self)
    -- The next header stands behind this one and its name.
    have hnext : At buf (offset + (cdh.length + (utf8 e.name).length)) bytes := by
      rw [← Nat.add_assoc]
      exact hat.right.right
    have hentries := ih hrest hnext fun e' he' => hstored e' (List.mem_cons_of_mem e he')
    rw [hlength] at hentries
    exact exceptBind_ok.mpr ⟨_, hread, exceptBind_ok.mpr ⟨_, hentries, rfl⟩⟩

/-- What was written is what is visited. -/
theorem visitZip_archive {archive : Bytes} {count : Nat}
    (h : archiveOf env fs = .ok (archive, count)) : visitZip env archive = .ok fs := by
  simp only [archiveOf, exceptBind_ok, exceptPure_ok] at h
  obtain ⟨⟨entries, locals, centralStart⟩, hlocals, ⟨centrals, behind⟩, hcentrals, eocd, heocd,
    heq⟩ := h
  obtain ⟨⟩ := heq
  obtain ⟨hbehind, hfiles, hstored⟩ := localRecords_ok hlocals
  rw [Nat.zero_add] at hbehind
  obtain ⟨hlength, hreads⟩ := endRecord_ok heocd
  have hlocalsAt : At (locals ++ (centrals ++ eocd)) 0 locals := ⟨centrals ++ eocd, rfl⟩
  have hcentralsAt : At (locals ++ (centrals ++ eocd)) centralStart centrals := by
    rw [hbehind]
    exact at_append locals centrals eocd
  have hend : (locals ++ (centrals ++ eocd)).length - 22 = (locals ++ centrals).length := by
    simp only [List.length_append, hlength]
    omega
  have hendAt : At (locals ++ (centrals ++ eocd)) (locals ++ centrals).length eocd := by
    rw [← List.append_assoc]
    exact at_end (locals ++ centrals) eocd
  obtain ⟨hsig, htotal, hcd⟩ := hreads _ _ hendAt
  have hfind : findEnd (locals ++ (centrals ++ eocd)) = .ok (locals ++ centrals).length := by
    unfold findEnd
    have hroom : 22 ≤ (locals ++ (centrals ++ eocd)).length := by
      simp only [List.length_append, hlength]
      omega
    rw [hend, if_pos ⟨hroom, hsig⟩]
  have hvisit := centralRecords_ok hcentrals hcentralsAt (hstored _ hlocalsAt)
  rw [hfiles] at hvisit
  exact exceptBind_ok.mpr ⟨_, hfind, exceptBind_ok.mpr ⟨_, htotal, exceptBind_ok.mpr
    ⟨_, hcd, hvisit⟩⟩⟩

theorem localRecords_data {offset behind : Nat} {entries : List ZipFileEntry} {bytes : Bytes}
    (h : localRecords env offset fs = .ok (entries, bytes, behind)) :
    ∀ f ∈ fs, f.data.length ≤ MAX_BYTES := by
  induction fs generalizing offset behind entries bytes with
  | nil => exact fun f hf => absurd hf List.not_mem_nil
  | cons f fs ih =>
    simp only [localRecords, readFileSync, exceptBind_ok, inOneCall_ok] at h
    obtain ⟨_, ⟨hdata, -⟩, _, -, ⟨_, _, _⟩, hrest, -⟩ := h
    exact List.forall_mem_cons.mpr ⟨hdata, ih hrest⟩

/-- Every file that is archived was read in one call. -/
theorem archiveOf_data {r : Bytes × Nat} (h : archiveOf env fs = .ok r) :
    ∀ f ∈ fs, f.data.length ≤ MAX_BYTES := by
  simp only [archiveOf, exceptBind_ok] at h
  obtain ⟨⟨entries, locals, centralStart⟩, hlocals, -⟩ := h
  exact localRecords_data hlocals

/-! ## The comparison with the sums -/

/-- What the loop has established of the entries it went over. -/
theorem verifyEntries_ok {listed : List (List Char × List Char)} {total cd : Nat}
    {seen unlisted : List (List Char)} (hvisit : visitEntries env buf total cd = .ok fs)
    (h : verifyEntries env buf listed total cd = .ok (seen, unlisted)) :
    seen = fs.map PackFile.name ∧ ∀ f ∈ fs, ∃ b, checkSum env listed f.name f.data = .ok b := by
  induction total generalizing cd fs seen unlisted with
  | zero =>
    obtain ⟨⟩ := Except.ok.inj h
    obtain ⟨⟩ := Except.ok.inj hvisit
    exact ⟨rfl, fun f hf => absurd hf List.not_mem_nil⟩
  | succ total ih =>
    simp only [visitEntries, exceptBind_ok, exceptPure_ok] at hvisit
    obtain ⟨e, he, rest, hrest, rfl⟩ := hvisit
    simp only [verifyEntries, he, exceptOk_bind, exceptBind_ok, exceptPure_ok] at h
    -- Verifying takes the same step through the archive as visiting.
    obtain ⟨b, hb, ⟨seen', unlisted'⟩, hverify, heq⟩ := h
    obtain ⟨⟩ := heq
    obtain ⟨rfl, hchecked⟩ := ih hrest hverify
    refine ⟨rfl, fun f hf => ?_⟩
    rcases List.mem_cons.mp hf with rfl | hf
    · exact ⟨b, hb⟩
    · exact hchecked f hf

theorem verifyEntries_of_visit {listed : List (List Char × List Char)} {total cd : Nat}
    (hvisit : visitEntries env buf total cd = .ok fs)
    (h : ∀ f ∈ fs, ∃ b, checkSum env listed f.name f.data = .ok b) :
    ∃ unlisted, verifyEntries env buf listed total cd = .ok (fs.map PackFile.name, unlisted) := by
  induction total generalizing cd fs with
  | zero =>
    obtain ⟨⟩ := Except.ok.inj hvisit
    exact ⟨[], rfl⟩
  | succ total ih =>
    simp only [visitEntries, exceptBind_ok, exceptPure_ok] at hvisit
    obtain ⟨e, he, rest, hrest, rfl⟩ := hvisit
    obtain ⟨b, hb⟩ := h _ List.mem_cons_self
    obtain ⟨unlisted, hverify⟩ := ih hrest fun f hf => h f (List.mem_cons_of_mem _ hf)
    exact ⟨_, exceptBind_ok.mpr ⟨e, he, exceptBind_ok.mpr ⟨b, hb, exceptBind_ok.mpr
      ⟨_, hverify, rfl⟩⟩⟩⟩

theorem sumOf_mem {listed : List (List Char × List Char)} {name digest : List Char}
    (h : sumOf listed name = some digest) : (name, digest) ∈ listed := by
  obtain ⟨l, hl, rfl⟩ := Option.map_eq_some_iff.mp h
  obtain ⟨hmem, hname⟩ := List.mem_filter.mp (List.mem_of_getLast? hl)
  rwa [← of_decide_eq_true hname]

theorem sumOf_eq_none {listed : List (List Char × List Char)} {name : List Char} :
    sumOf listed name = none ↔ ∀ l ∈ listed, l.1 ≠ name := by
  simp [sumOf]

/-- A file passes the check exactly if it is listed with its digest, or is the list itself and not
    listed. -/
theorem checkSum_isOk_iff {listed : List (List Char × List Char)} {name : List Char} {data : Bytes}
    (hdata : data.length ≤ MAX_BYTES) : (∃ b, checkSum env listed name data = .ok b) ↔
      sumOf listed name = none ∧ name = sha256Sums ∨
        sumOf listed name = some (env.sha256 data) := by
  unfold checkSum
  cases hsum : sumOf listed name with
  | none =>
    by_cases hname : name = sha256Sums
    · simp [hname]
    · simp [hname]
  | some expected =>
    simp only [createHash_ok.mpr ⟨hdata, rfl⟩, exceptOk_bind]
    by_cases hsha : env.sha256 data = expected
    · simp [hsha]
    · simp [hsha, Ne.symm hsha]

/-- The lines and the archived files coincide, in both directions. -/
structure Coincide (env : PackEnv) (listed : List (List Char × List Char)) (files : List PackFile) :
    Prop where
  archived_of_listed : ∀ l ∈ listed, ∃ f ∈ files, f.name = l.1 ∧ env.sha256 f.data = l.2
  listed_of_archived : ∀ f ∈ files, f.name ≠ sha256Sums → (f.name, env.sha256 f.data) ∈ listed

/-- No path is listed with two digests. -/
def OneDigest (listed : List (List Char × List Char)) : Prop :=
  ∀ l ∈ listed, ∀ l' ∈ listed, l.1 = l'.1 → l.2 = l'.2

instance {listed : List (List Char × List Char)} : Decidable (OneDigest listed) :=
  inferInstanceAs (Decidable (∀ l ∈ listed, ∀ l' ∈ listed, l.1 = l'.1 → l.2 = l'.2))

/-- What is compared with the lines passes for the file. -/
def DigestMatches (env : PackEnv) (listed : List (List Char × List Char)) (f : PackFile) : Prop :=
  sumOf listed f.name = none ∧ f.name = sha256Sums ∨ sumOf listed f.name = some (env.sha256 f.data)

instance {listed : List (List Char × List Char)} {f : PackFile} :
    Decidable (DigestMatches env listed f) :=
  inferInstanceAs (Decidable (_ ∨ _))

/-- Of an archive that is visited the verification succeeds exactly if archive and list can be read,
    and lines and files match in both directions. -/
theorem verifyZip_isOk_iff (sums : Bytes) (hvisit : visitZip env buf = .ok fs)
    (hdata : ∀ f ∈ fs, f.data.length ≤ MAX_BYTES) :
    (∃ unlisted, verifyZipAgainstSums env buf sums = .ok unlisted) ↔
      buf.length ≤ MAX_BYTES ∧ sums.length < MAX_STRING ∧
      (∀ f ∈ fs, DigestMatches env (listedSums (readUtf8 sums)) f) ∧
        ∀ l ∈ listedSums (readUtf8 sums), l.1 ∈ fs.map PackFile.name := by
  simp only [visitZip, exceptBind_ok] at hvisit
  obtain ⟨eocdPos, hend, total, htotal, cd, hcd, hentries⟩ := hvisit
  simp only [verifyZipAgainstSums, readFileSync, exceptBind_ok, inOneCall_ok, readTextSync_ok]
  constructor
  · rintro ⟨unlisted, _, ⟨hbuf, rfl⟩, _, hend', _, htotal', _, hcd', _, ⟨hsums, rfl⟩,
      ⟨seen, unlisted'⟩, hverify, hmissing⟩
    obtain rfl := Except.ok.inj (hend.symm.trans hend')
    obtain rfl := Except.ok.inj (htotal.symm.trans htotal')
    obtain rfl := Except.ok.inj (hcd.symm.trans hcd')
    obtain ⟨rfl, hchecked⟩ := verifyEntries_ok hentries hverify
    refine ⟨hbuf, hsums, fun f hf => (checkSum_isOk_iff (hdata f hf)).mp (hchecked f hf), ?_⟩
    intro l hl
    by_contra hmem
    -- a line whose path was not seen is reported as missing
    cases hfind : (listedSums (readUtf8 sums)).find? fun l => l.1 ∉ fs.map PackFile.name with
    | none => exact List.find?_eq_none.mp hfind l hl (decide_eq_true hmem)
    | some l' =>
      simp only [hfind] at hmissing
      cases hmissing
  · rintro ⟨hbuf, hsums, hmatches, hlisted⟩
    obtain ⟨unlisted, hverify⟩ := verifyEntries_of_visit hentries fun f hf =>
      (checkSum_isOk_iff (hdata f hf)).mpr (hmatches f hf)
    have hnone : ((listedSums (readUtf8 sums)).find? fun l => l.1 ∉ fs.map PackFile.name) = none :=
      List.find?_eq_none.mpr fun l hl hnot => of_decide_eq_true hnot (hlisted l hl)
    refine ⟨unlisted, _, ⟨hbuf, rfl⟩, _, hend, _, htotal, _, hcd, _, ⟨hsums, rfl⟩, _, hverify, ?_⟩
    simp only [hnone]
    rfl

/-- Where all matches, lines and files coincide exactly if no path is listed with two digests. -/
theorem coincide_iff {listed : List (List Char × List Char)}
    (hnodup : (fs.map PackFile.name).Nodup) (hmatches : ∀ f ∈ fs, DigestMatches env listed f)
    (hlisted : ∀ l ∈ listed, l.1 ∈ fs.map PackFile.name) :
    Coincide env listed fs ↔ OneDigest listed := by
  constructor
  · intro hco l hl l' hl' hpath
    obtain ⟨f, hf, hname, hsha⟩ := hco.archived_of_listed l hl
    obtain ⟨f', hf', hname', hsha'⟩ := hco.archived_of_listed l' hl'
    -- Names are not repeated, so both lines are of one file.
    have hsame : f = f' := List.inj_on_of_nodup_map hnodup hf hf'
      (hname.trans (hpath.trans hname'.symm))
    rw [← hsha, ← hsha', hsame]
  · intro hone
    refine ⟨fun l hl => ?_, fun f hf hname => ?_⟩
    · -- The file that is listed was compared with the last line of its name.
      obtain ⟨f, hf, hname⟩ := List.mem_map.mp (hlisted l hl)
      refine ⟨f, hf, hname, ?_⟩
      rcases hmatches f hf with ⟨hnone, -⟩ | hsum
      · exact absurd hname.symm (sumOf_eq_none.mp hnone l hl)
      · exact hone _ (sumOf_mem hsum) l hl hname
    · rcases hmatches f hf with ⟨-, hself⟩ | hsum
      · exact absurd hself hname
      · exact sumOf_mem hsum

/-! ## Packaging -/

/-- The lines of the `SHA256SUMS` that stands in the directory. -/
def listedIn (es : List (List Char × ArtifactNode)) : List (List Char × List Char) :=
  match es.find? fun e => e.1 = sha256Sums with
  | some (_, .file data) => listedSums (readUtf8 data)
  | _ => []

/-- The archive of a directory is one of its files alone, it is read back as these files, and what
is reported of its digests is so. -/
structure RoundTrip (env : PackEnv) (es : List (List Char × ArtifactNode)) (z : ReleaseZip)
    (files : List PackFile) : Prop where
  canonical : ∀ es' z' files', buildReleaseZip env (some (.directory es')) = .ok z' →
    collectFiles es' = .ok files' → (∀ f, f ∈ files ↔ f ∈ files') → z'.archive = z.archive
  visited : ∃ vs, visitZip env z.archive = .ok vs ∧ (vs.map PackFile.name).Nodup ∧
    ∀ f, f ∈ vs ↔ f ∈ files
  verified : z.verifiedAgainstSums = true → Coincide env (listedIn es) files

theorem buildReleaseZip_ok {es : List (List Char × ArtifactNode)} {z : ReleaseZip}
    (h : buildReleaseZip env (some (.directory es)) = .ok z) :
    ∃ files data count unlisted, collectFiles es = .ok files ∧
      checkCollisions env files [] = .ok () ∧
      archiveOf env (sortFiles files) = .ok (z.archive, count) ∧
      (∃ e, es.find? (fun e => e.1 = sha256Sums) = some e ∧ e.2 = .file data) ∧
      verifyZipAgainstSums env z.archive data = .ok unlisted ∧ z.verifiedAgainstSums = true := by
  simp only [buildReleaseZip] at h
  cases hsums : es.find? fun e => e.1 = sha256Sums with
  | none =>
    rw [hsums] at h
    cases h
  | some e =>
    simp only [hsums, exceptBind_ok] at h
    obtain ⟨files, hfiles, ⟨⟩, hcollisions, ⟨archive, count⟩, harchive, zip, hzip, sha, -, h⟩ := h
    obtain ⟨-, rfl⟩ := inOneCall_ok.mp hzip
    cases hnode : e.2 with
    | file data =>
      simp only [hnode, exceptBind_ok, exceptPure_ok] at h
      obtain ⟨unlisted, hverify, rfl⟩ := h
      exact ⟨files, data, count, unlisted, hfiles, hcollisions, harchive, ⟨e, rfl, hnode⟩, hverify,
        rfl⟩
    | directory entries =>
      rw [hnode] at h
      cases h
    | symlink =>
      rw [hnode] at h
      cases h
    | special =>
      rw [hnode] at h
      cases h

/-- **The release archive's round trip**: where an archive is built it is as the claim asks exactly
if no path is listed with two digests. -/
theorem release_round_trip_iff {es : List (List Char × ArtifactNode)} {z : ReleaseZip}
    (h : buildReleaseZip env (some (.directory es)) = .ok z) :
    ∃ files, collectFiles es = .ok files ∧
      (RoundTrip env es z files ↔ OneDigest (listedIn es)) := by
  obtain ⟨files, data, count, unlisted, hfiles, hcollisions, harchive, ⟨e, hfind, hnode⟩, hverify,
    hreported⟩ := buildReleaseZip_ok h
  have hnames : (files.map PackFile.name).Nodup := names_nodup hcollisions
  have hsorted : (sortFiles files).Perm files := List.perm_insertionSort _ files
  -- Walking the archive again meets the files in the order they were packed in.
  have hvisit : visitZip env z.archive = .ok (sortFiles files) := visitZip_archive harchive
  have hsortedNames : ((sortFiles files).map PackFile.name).Nodup :=
    (hsorted.map PackFile.name).nodup_iff.mpr hnames
  have hlisted : listedIn es = listedSums (readUtf8 data) := by
    obtain ⟨name, node⟩ := e
    obtain rfl : node = .file data := hnode
    simp only [listedIn, hfind]
  obtain ⟨-, -, hmatches, hpaths⟩ :=
    (verifyZip_isOk_iff data hvisit (archiveOf_data harchive)).mp ⟨unlisted, hverify⟩
  rw [← hlisted] at hmatches hpaths
  have hcompare := coincide_iff hsortedNames hmatches hpaths
  -- The order of the files does not matter to the comparison.
  have hsame : Coincide env (listedIn es) (sortFiles files) ↔ Coincide env (listedIn es) files := by
    constructor
    · intro hco
      refine ⟨fun l hl => ?_, fun f hf => hco.listed_of_archived f (hsorted.mem_iff.mpr hf)⟩
      exact (hco.archived_of_listed l hl).imp fun f hf => ⟨hsorted.mem_iff.mp hf.1, hf.2⟩
    · intro hco
      refine ⟨fun l hl => ?_, fun f hf => hco.listed_of_archived f (hsorted.mem_iff.mp hf)⟩
      exact (hco.archived_of_listed l hl).imp fun f hf => ⟨hsorted.mem_iff.mpr hf.1, hf.2⟩
  refine ⟨files, hfiles, fun htrip => hcompare.mp (hsame.mpr (htrip.verified hreported)),
    fun hone => ⟨?_, ?_, fun _ => hsame.mp (hcompare.mpr hone)⟩⟩
  · -- The same files, sorted, are the same list, and packing is a function of it.
    intro es' z' files' hbuild hfiles' hset
    obtain ⟨_, _, count', _, hcollect, hcollisions', harchive', -⟩ := buildReleaseZip_ok hbuild
    obtain rfl := Except.ok.inj (hfiles'.symm.trans hcollect)
    rw [← sortFiles_eq hnames (names_nodup hcollisions') hset, harchive] at harchive'
    exact (Prod.mk.inj (Except.ok.inj harchive')).1.symm
  · exact ⟨sortFiles files, hvisit, hsortedNames, fun f => hsorted.mem_iff⟩

/-! ## When an archive is built -/

theorem writeUInt_of_lt {w n : Nat} (h : n < 256 ^ w) : writeUInt w n = .ok (leWord w n) :=
  if_pos h

def localSize (f : PackFile) : Nat := 30 + (utf8 f.name).length + f.data.length

def centralSize (f : PackFile) : Nat := 46 + (utf8 f.name).length

/-- The fields of an archive have room for what is written into them. -/
structure FieldsFit (fs : List PackFile) : Prop where
  count : fs.length < 256 ^ 2
  name : ∀ f ∈ fs, (utf8 f.name).length < 256 ^ 2
  locals : (fs.map localSize).sum < 256 ^ 4
  centrals : (fs.map centralSize).sum < 256 ^ 4

theorem localHeader_of_room (crc : UInt32) {size nameLen : Nat} (hsize : size < 256 ^ 4)
    (hname : nameLen < 256 ^ 2) : ∃ lfh, localHeader crc size nameLen = .ok lfh ∧
    lfh.length = 30 := by
  have hok : ∃ lfh, localHeader crc size nameLen = .ok lfh := by
    simp only [localHeader, writeUInt_of_lt hsize, writeUInt_of_lt hname, exceptOk_bind]
    exact ⟨_, rfl⟩
  exact hok.imp fun lfh h => ⟨h, (localHeader_ok h).1⟩

theorem localHeader_room {crc : UInt32} {size nameLen : Nat} {lfh : Bytes}
    (h : localHeader crc size nameLen = .ok lfh) : nameLen < 256 ^ 2 := by
  simp only [localHeader, exceptBind_ok] at h
  obtain ⟨_, -, _, hname, -⟩ := h
  exact (writeUInt_ok hname).1

theorem centralHeader_of_room {e : ZipFileEntry} (hsize : e.data.length < 256 ^ 4)
    (hname : (utf8 e.name).length < 256 ^ 2) (hoffset : e.offset < 256 ^ 4) :
    ∃ cdh, centralHeader e = .ok cdh ∧ cdh.length = 46 := by
  have hok : ∃ cdh, centralHeader e = .ok cdh := by
    simp only [centralHeader, writeUInt_of_lt hsize, writeUInt_of_lt hname, writeUInt_of_lt hoffset,
      exceptOk_bind]
    exact ⟨_, rfl⟩
  exact hok.imp fun cdh h => ⟨h, (centralHeader_ok h).1⟩

/-- What is read in one call has a size that its field has room for. -/
theorem size_of_bytes {n : Nat} (h : n ≤ MAX_BYTES) : n < 256 ^ 4 :=
  Nat.lt_of_le_of_lt h (by decide)

theorem localRecords_of_room (offset : Nat) (hsize : ∀ f ∈ fs, f.data.length ≤ MAX_BYTES)
    (hname : ∀ f ∈ fs, (utf8 f.name).length < 256 ^ 2) :
    ∃ entries bytes,
      localRecords env offset fs = .ok (entries, bytes, offset + (fs.map localSize).sum) ∧
      ∀ e ∈ entries, e.offset ≤ offset + (fs.map localSize).sum := by
  induction fs generalizing offset with
  | nil => exact ⟨[], [], rfl, fun e he => absurd he List.not_mem_nil⟩
  | cons f fs ih =>
    have hread : readFileSync f.data = .ok f.data :=
      inOneCall_ok.mpr ⟨hsize f List.mem_cons_self, rfl⟩
    obtain ⟨lfh, hlfh, hlength⟩ := localHeader_of_room (env.crc32 f.data)
      (size_of_bytes (hsize f List.mem_cons_self)) (hname f List.mem_cons_self)
    obtain ⟨entries, bytes, hrest, hoffsets⟩ :=
      ih (offset + (lfh.length + (utf8 f.name).length + f.data.length))
        (fun g hg => hsize g (List.mem_cons_of_mem f hg))
        fun g hg => hname g (List.mem_cons_of_mem f hg)
    have hsum : offset + (lfh.length + (utf8 f.name).length + f.data.length) +
        (fs.map localSize).sum = offset + ((f :: fs).map localSize).sum := by
      rw [hlength, List.map_cons, List.sum_cons, localSize, Nat.add_assoc]
    rw [hsum] at hrest hoffsets
    refine ⟨_, _, exceptBind_ok.mpr ⟨_, hread, exceptBind_ok.mpr ⟨lfh, hlfh,
      exceptBind_ok.mpr ⟨_, hrest, rfl⟩⟩⟩, ?_⟩
    intro e he
    rcases List.mem_cons.mp he with rfl | he
    · exact Nat.le_add_right _ _
    · exact hoffsets e he

theorem localRecords_room {offset behind : Nat} {entries : List ZipFileEntry} {bytes : Bytes}
    (h : localRecords env offset fs = .ok (entries, bytes, behind)) :
    behind = offset + (fs.map localSize).sum ∧ ∀ f ∈ fs, (utf8 f.name).length < 256 ^ 2 := by
  induction fs generalizing offset behind entries bytes with
  | nil =>
    obtain ⟨⟩ := Except.ok.inj h
    exact ⟨rfl, fun f hf => absurd hf List.not_mem_nil⟩
  | cons f fs ih =>
    simp only [localRecords, readFileSync, exceptBind_ok, exceptPure_ok, inOneCall_ok] at h
    obtain ⟨_, ⟨-, rfl⟩, lfh, hlfh, ⟨entries, bytes, behind⟩, hrest, heq⟩ := h
    obtain ⟨⟩ := heq
    obtain ⟨rfl, hnames⟩ := ih hrest
    refine ⟨?_, List.forall_mem_cons.mpr ⟨localHeader_room hlfh, hnames⟩⟩
    rw [(localHeader_ok hlfh).1, List.map_cons, List.sum_cons, localSize, Nat.add_assoc]

theorem centralRecords_of_room {entries : List ZipFileEntry} (offset : Nat)
    (h : ∀ e ∈ entries, ∃ cdh, centralHeader e = .ok cdh ∧ cdh.length = 46) :
    ∃ bytes, centralRecords offset entries =
      .ok (bytes, offset + ((entries.map ZipFileEntry.file).map centralSize).sum) := by
  induction entries generalizing offset with
  | nil => exact ⟨[], rfl⟩
  | cons e entries ih =>
    obtain ⟨cdh, hcdh, hlength⟩ := h e List.mem_cons_self
    obtain ⟨bytes, hrest⟩ := ih (offset + (cdh.length + (utf8 e.name).length))
      fun e' he' => h e' (List.mem_cons_of_mem e he')
    have hsum : offset + (cdh.length + (utf8 e.name).length) +
        ((entries.map ZipFileEntry.file).map centralSize).sum =
          offset + (((e :: entries).map ZipFileEntry.file).map centralSize).sum := by
      rw [hlength, List.map_cons, List.map_cons, List.sum_cons, centralSize, Nat.add_assoc]
      rfl
    rw [hsum] at hrest
    exact ⟨_, exceptBind_ok.mpr ⟨cdh, hcdh, exceptBind_ok.mpr ⟨_, hrest, rfl⟩⟩⟩

theorem centralRecords_room {entries : List ZipFileEntry} {offset behind : Nat} {bytes : Bytes}
    (h : centralRecords offset entries = .ok (bytes, behind)) :
    behind = offset + ((entries.map ZipFileEntry.file).map centralSize).sum ∧
      bytes.length = ((entries.map ZipFileEntry.file).map centralSize).sum := by
  induction entries generalizing offset behind bytes with
  | nil =>
    obtain ⟨⟩ := Except.ok.inj h
    exact ⟨rfl, rfl⟩
  | cons e entries ih =>
    simp only [centralRecords, exceptBind_ok, exceptPure_ok] at h
    obtain ⟨cdh, hcdh, ⟨bytes, behind⟩, hrest, heq⟩ := h
    obtain ⟨⟩ := heq
    obtain ⟨rfl, hbytes⟩ := ih hrest
    have hlength := (centralHeader_ok hcdh).1
    have hname : (ZipFileEntry.file e).name = e.name := rfl
    simp only [List.map_cons, List.sum_cons, List.length_append, centralSize,
      hlength, hbytes, hname]
    exact ⟨by omega, by omega⟩

theorem localSize_le {f : PackFile} (hf : f ∈ fs) : localSize f ≤ (fs.map localSize).sum := by
  induction fs with
  | nil => exact absurd hf List.not_mem_nil
  | cons g fs ih =>
    rw [List.map_cons, List.sum_cons]
    rcases List.mem_cons.mp hf with rfl | hf
    · exact Nat.le_add_right _ _
    · exact Nat.le_trans (ih hf) (Nat.le_add_left _ _)

/-- The bytes of an archive: a record of every file in front, one behind, and the end record. -/
def archiveSize (fs : List PackFile) : Nat := (fs.map localSize).sum + (fs.map centralSize).sum + 22

theorem archiveOf_length {archive : Bytes} {count : Nat}
    (h : archiveOf env fs = .ok (archive, count)) : archive.length = archiveSize fs := by
  simp only [archiveOf, exceptBind_ok, exceptPure_ok] at h
  obtain ⟨⟨entries, locals, centralStart⟩, hlocals, ⟨centrals, behind⟩, hcentrals, eocd, heocd,
    heq⟩ := h
  obtain ⟨⟩ := heq
  obtain ⟨hstart, hfiles, -⟩ := localRecords_ok hlocals
  have hlocal := (localRecords_room hlocals).1
  have hcentral := (centralRecords_room hcentrals).2
  rw [hfiles] at hcentral
  have hend := (endRecord_ok heocd).1
  simp only [List.length_append, archiveSize]
  omega

/-- Files are archived exactly if each is read in one call and the fields have room for them. -/
theorem archiveOf_isOk_iff (env : PackEnv) : (∃ r, archiveOf env fs = .ok r) ↔
    (∀ f ∈ fs, f.data.length ≤ MAX_BYTES) ∧ FieldsFit fs := by
  constructor
  · rintro ⟨r, h⟩
    refine ⟨archiveOf_data h, ?_⟩
    simp only [archiveOf, exceptBind_ok] at h
    obtain ⟨⟨entries, locals, centralStart⟩, hlocals, ⟨centrals, behind⟩, hcentrals, eocd, heocd,
      -⟩ := h
    -- A field that was written had room, and the end record has the counts and the sizes.
    obtain ⟨hstart, hnames⟩ := localRecords_room hlocals
    obtain ⟨-, hfiles, -⟩ := localRecords_ok hlocals
    have hbehind := (centralRecords_room hcentrals).1
    simp only [endRecord, exceptBind_ok] at heocd
    obtain ⟨_, hcount, _, hsize, _, hstarts, -⟩ := heocd
    replace hcount := (writeUInt_ok hcount).1
    replace hsize := (writeUInt_ok hsize).1
    replace hstarts := (writeUInt_ok hstarts).1
    rw [hbehind, Nat.add_sub_cancel_left, hfiles] at hsize
    rw [hstart, Nat.zero_add] at hstarts
    rw [← List.length_map ZipFileEntry.file, hfiles] at hcount
    exact ⟨hcount, hnames, hstarts, hsize⟩
  · rintro ⟨hdata, hroom⟩
    -- With room in every field the records are written one after the other.
    obtain ⟨entries, locals, hlocals, hoffsets⟩ :=
      localRecords_of_room 0 hdata hroom.name
    obtain ⟨-, hfiles, -⟩ := localRecords_ok hlocals
    rw [Nat.zero_add] at hlocals hoffsets
    have hheaders : ∀ e ∈ entries, ∃ cdh, centralHeader e = .ok cdh ∧ cdh.length = 46 := by
      intro e he
      have hmem : ZipFileEntry.file e ∈ fs := hfiles ▸ List.mem_map_of_mem he
      exact centralHeader_of_room (size_of_bytes (hdata _ hmem)) (hroom.name _ hmem)
        (Nat.lt_of_le_of_lt (hoffsets e he) hroom.locals)
    obtain ⟨centrals, hcentrals⟩ := centralRecords_of_room (fs.map localSize).sum hheaders
    have hcount : entries.length < 256 ^ 2 := by
      rw [← List.length_map ZipFileEntry.file, hfiles]
      exact hroom.count
    have hend : ∃ eocd, endRecord entries.length ((fs.map localSize).sum +
        ((entries.map ZipFileEntry.file).map centralSize).sum - (fs.map localSize).sum)
        (fs.map localSize).sum = .ok eocd := by
      rw [Nat.add_sub_cancel_left, hfiles]
      simp only [endRecord, writeUInt_of_lt hcount, writeUInt_of_lt hroom.centrals,
        writeUInt_of_lt hroom.locals, exceptOk_bind]
      exact ⟨_, rfl⟩
    obtain ⟨eocd, heocd⟩ := hend
    exact ⟨_, exceptBind_ok.mpr ⟨_, hlocals, exceptBind_ok.mpr ⟨_, hcentrals,
      exceptBind_ok.mpr ⟨_, heocd, rfl⟩⟩⟩⟩

theorem checkCollisions_of_nodup {seen : List (List Char × List Char)}
    (hnodup : (fs.map fun f => env.toLowerCase f.name).Nodup)
    (hseen : ∀ f ∈ fs, env.toLowerCase f.name ∉ seen.map Prod.fst) :
    checkCollisions env fs seen = .ok () := by
  induction fs generalizing seen with
  | nil => rfl
  | cons f fs ih =>
    obtain ⟨hnew, hnodup⟩ := List.nodup_cons.mp hnodup
    have hfresh : (seen.find? fun s => s.1 = env.toLowerCase f.name) = none := by
      refine List.find?_eq_none.mpr fun s hs heq => ?_
      exact hseen f List.mem_cons_self (List.mem_map.mpr ⟨s, hs, of_decide_eq_true heq⟩)
    simp only [checkCollisions, hfresh]
    refine ih hnodup fun g hg hmem => ?_
    rcases List.mem_cons.mp hmem with heq | hmem
    · exact hnew (List.mem_map.mpr ⟨g, hg, heq⟩)
    · exact hseen g (List.mem_cons_of_mem f hg) hmem

/-! Every entry, at any depth, is a file or a directory. -/

mutual

def PlainNode : ArtifactNode → Prop
  | .file _ => True
  | .directory es => PlainEntries es
  | .symlink => False
  | .special => False

def PlainEntries : List (List Char × ArtifactNode) → Prop
  | [] => True
  | (_, node) :: es => PlainNode node ∧ PlainEntries es

end

mutual

theorem collectNode_isOk_iff : ∀ (rel : List Char) (node : ArtifactNode),
    (∃ files, collectNode rel node = .ok files) ↔ PlainNode node := by
  intro rel node
  match node with
  | .file data =>
    rw [collectNode, PlainNode, iff_true]
    split
    · exact ⟨[], rfl⟩
    · exact ⟨_, rfl⟩
  | .directory es =>
    rw [collectNode, PlainNode]
    exact collectEntries_isOk_iff (rel ++ ['/']) es
  | .symlink =>
    rw [collectNode, PlainNode, iff_false]
    rintro ⟨files, h⟩
    cases h
  | .special =>
    rw [collectNode, PlainNode, iff_false]
    rintro ⟨files, h⟩
    cases h

theorem collectEntries_isOk_iff : ∀ (pre : List Char) (es : List (List Char × ArtifactNode)),
    (∃ files, collectEntries pre es = .ok files) ↔ PlainEntries es := by
  intro pre es
  match es with
  | [] =>
    rw [collectEntries, PlainEntries, iff_true]
    exact ⟨[], rfl⟩
  | (name, node) :: es =>
    rw [PlainEntries, ← collectNode_isOk_iff (pre ++ name) node, ← collectEntries_isOk_iff pre es]
    simp only [collectEntries, exceptBind_ok, exceptPure_ok]
    constructor
    · rintro ⟨_, here, hhere, rest, hrest, rfl⟩
      exact ⟨⟨here, hhere⟩, ⟨rest, hrest⟩⟩
    · rintro ⟨⟨here, hhere⟩, ⟨rest, hrest⟩⟩
      exact ⟨_, here, hhere, rest, hrest, rfl⟩

end

/-- Files are collected of exactly the plain directories. -/
theorem collectFiles_isOk_iff {es : List (List Char × ArtifactNode)} :
    (∃ files, collectFiles es = .ok files) ↔ PlainEntries es :=
  collectEntries_isOk_iff [] es

/-- The files that were collected of a directory can be packed. -/
structure Packable (env : PackEnv) (es : List (List Char × ArtifactNode)) (files : List PackFile) :
    Prop where
  frozen : ∃ name data, es.find? (fun e => e.1 = sha256Sums) = some (name, .file data) ∧
    data.length < MAX_STRING
  distinct : (files.map fun f => env.toLowerCase f.name).Nodup
  count : files.length < 256 ^ 2
  name : ∀ f ∈ files, (utf8 f.name).length < 256 ^ 2
  size : archiveSize files ≤ MAX_BYTES
  digests : ∀ f ∈ files, DigestMatches env (listedIn es) f
  archived : ∀ l ∈ listedIn es, l.1 ∈ files.map PackFile.name

/-- An archive that the host can write in one call has room for its numbers. -/
theorem fieldsFit_of_size (hcount : fs.length < 256 ^ 2)
    (hname : ∀ f ∈ fs, (utf8 f.name).length < 256 ^ 2) (hsize : archiveSize fs ≤ MAX_BYTES) :
    (∀ f ∈ fs, f.data.length ≤ MAX_BYTES) ∧ FieldsFit fs := by
  unfold archiveSize at hsize
  refine ⟨fun f hf => ?_, hcount, hname, size_of_bytes (by omega), size_of_bytes (by omega)⟩
  have hle := localSize_le hf
  simp only [localSize] at hle
  omega

theorem archiveSize_perm (h : fs.Perm fs') : archiveSize fs = archiveSize fs' := by
  rw [archiveSize, archiveSize, (h.map localSize).sum_nat, (h.map centralSize).sum_nat]

theorem buildReleaseZip_of_packable {es : List (List Char × ArtifactNode)}
    (hfiles : collectFiles es = .ok files) (h : Packable env es files) :
    ∃ z, buildReleaseZip env (some (.directory es)) = .ok z := by
  have hsorted : (sortFiles files).Perm files := List.perm_insertionSort _ files
  obtain ⟨name, data, hfind, htext⟩ := h.frozen
  obtain ⟨hdata, hroom⟩ := fieldsFit_of_size (hsorted.length_eq ▸ h.count)
    (fun f hf => h.name f (hsorted.mem_iff.mp hf)) (archiveSize_perm hsorted ▸ h.size)
  obtain ⟨⟨archive, count⟩, harchive⟩ := (archiveOf_isOk_iff env).mpr ⟨hdata, hroom⟩
  -- The archive has the size that was reckoned, so the host takes it in one call.
  have hbytes : archive.length ≤ MAX_BYTES := by
    rw [archiveOf_length harchive, archiveSize_perm hsorted]
    exact h.size
  have hzip : writeFileSync archive = .ok archive := inOneCall_ok.mpr ⟨hbytes, rfl⟩
  have hsha : createHash env archive = .ok (env.sha256 archive) := createHash_ok.mpr ⟨hbytes, rfl⟩
  have hlisted : listedIn es = listedSums (readUtf8 data) := by simp only [listedIn, hfind]
  obtain ⟨unlisted, hverify⟩ := (verifyZip_isOk_iff data (visitZip_archive harchive) hdata).mpr
    ⟨hbytes, htext, fun f hf => hlisted ▸ h.digests f (hsorted.mem_iff.mp hf), fun l hl =>
      (hsorted.map PackFile.name).mem_iff.mpr (h.archived l (hlisted ▸ hl))⟩
  have hcollisions : checkCollisions env files [] = .ok () :=
    checkCollisions_of_nodup h.distinct fun f _ => List.not_mem_nil
  simp only [buildReleaseZip, hfind, hfiles, hcollisions, harchive, hzip, hsha, hverify,
    exceptOk_bind]
  exact ⟨_, rfl⟩

/-- **When a release archive is built**: the directory is plain and frozen, no two paths differ in
case alone, the records have room, the host takes the archive and the list in one call each, and
lines and files match in both directions. -/
theorem buildReleaseZip_isOk_iff {es : List (List Char × ArtifactNode)} :
    (∃ z, buildReleaseZip env (some (.directory es)) = .ok z) ↔
      PlainEntries es ∧ ∃ files, collectFiles es = .ok files ∧ Packable env es files := by
  constructor
  · rintro ⟨z, h⟩
    obtain ⟨files, data, count, unlisted, hfiles, hcollisions, harchive, ⟨⟨name, node⟩, hfind,
      hnode⟩, hverify, -⟩ := buildReleaseZip_ok h
    obtain rfl : node = .file data := hnode
    have hsorted : (sortFiles files).Perm files := List.perm_insertionSort _ files
    have hlisted : listedIn es = listedSums (readUtf8 data) := by simp only [listedIn, hfind]
    obtain ⟨hdata, hroom⟩ := (archiveOf_isOk_iff env).mp ⟨_, harchive⟩
    obtain ⟨hbytes, htext, hdigests, harchived⟩ :=
      (verifyZip_isOk_iff data (visitZip_archive harchive) hdata).mp ⟨unlisted, hverify⟩
    rw [← hlisted] at hdigests harchived
    rw [archiveOf_length harchive, archiveSize_perm hsorted] at hbytes
    exact ⟨collectFiles_isOk_iff.mp ⟨files, hfiles⟩, files, hfiles,
      { frozen := ⟨name, data, hfind, htext⟩
        distinct := (checkCollisions_ok hcollisions).1
        count := hsorted.length_eq ▸ hroom.count
        name := fun f hf => hroom.name f (hsorted.mem_iff.mpr hf)
        size := hbytes
        digests := fun f hf => hdigests f (hsorted.mem_iff.mpr hf)
        archived := fun l hl =>
          (hsorted.map PackFile.name).mem_iff.mp (harchived l hl) }⟩
  · rintro ⟨-, files, hfiles, h⟩
    exact buildReleaseZip_of_packable hfiles h

/-! ## The lines -/

/-- A line for the path. -/
def sumLine (digest name : List Char) : List Char := digest ++ ' ' :: ' ' :: name

/-- Sixty-four lower case hexadecimal digits. -/
def IsDigest (digest : List Char) : Prop := digest.length = 64 ∧ digest.all isHexDigit = true

/-- The path can stand on a line. -/
def OnOneLine (name : List Char) : Prop := name ≠ [] ∧ name.all (· ∉ lineTerminators)

instance {name : List Char} : Decidable (OnOneLine name) :=
  inferInstanceAs (Decidable (_ ∧ _))

theorem newline_not_mem_sumLine {digest name : List Char} (hdigest : IsDigest digest)
    (hline : OnOneLine name) : '\n' ∉ sumLine digest name := by
  intro hmem
  rcases List.mem_append.mp hmem with hmem | hmem
  · exact absurd (List.all_eq_true.mp hdigest.2 _ hmem) (by decide)
  · rcases List.mem_cons.mp hmem with heq | hmem
    · cases heq
    · rcases List.mem_cons.mp hmem with heq | hmem
      · cases heq
      · exact absurd (List.all_eq_true.mp hline.2 _ hmem) (by decide)

theorem parseSumLine_sumLine {digest : List Char} (h : IsDigest digest) (name : List Char) :
    parseSumLine (sumLine digest name) = if OnOneLine name then some (name, digest) else none := by
  obtain ⟨hlength, hhex⟩ := h
  have hdigest : (sumLine digest name).take 64 = digest := List.take_left' hlength
  have hblanks : ((sumLine digest name).drop 64).take 2 = [' ', ' '] := by
    rw [sumLine, List.drop_left' hlength]
    rfl
  have hname : (sumLine digest name).drop 66 = name := by
    have hdrop : (sumLine digest name).drop (64 + 2) = name := by
      rw [← List.drop_drop, sumLine, List.drop_left' hlength]
      rfl
    exact hdrop
  -- Sixty-four characters, two blanks and the name: each is read where it was put.
  by_cases hline : OnOneLine name
  · rw [if_pos hline]
    simp only [parseSumLine, hdigest, hblanks, hname]
    exact if_pos ⟨hlength, hhex, trivial, hline⟩
  · rw [if_neg hline]
    simp only [parseSumLine, hdigest, hblanks, hname]
    exact if_neg fun h => hline h.2.2.2

/-- Of lines that are put down one after the other each is read alone. -/
theorem listedSums_lines {lines : List (List Char)} (h : lines ≠ []) :
    listedSums (['\n'].intercalate lines ++ ['\n']) =
      (lines.flatMap fun line => line.splitOn '\n').filterMap parseSumLine := by
  have hempty : parseSumLine [] = none := rfl
  rw [listedSums, List.splitOn_append_cons_self, splitOn_intercalate_flatMap h, List.splitOn_nil,
    List.filterMap_append, List.filterMap_cons_none hempty, List.filterMap_nil, List.append_nil]

/-- The lines of paths that stand on one line each. -/
theorem listedSums_sumLines {listed : List (List Char × List Char)} (hne : listed ≠ [])
    (h : ∀ l ∈ listed, IsDigest l.2 ∧ OnOneLine l.1) :
    listedSums (['\n'].intercalate (listed.map fun l => sumLine l.2 l.1) ++ ['\n']) = listed := by
  have hlines : (listed.map fun l => sumLine l.2 l.1) ≠ [] := by
    rwa [ne_eq, List.map_eq_nil_iff]
  rw [listedSums_lines hlines]
  clear hlines hne
  induction listed with
  | nil => rfl
  | cons l listed ih =>
    obtain ⟨hdigest, hline⟩ := h l List.mem_cons_self
    have hmem : '\n' ∉ sumLine l.2 l.1 := newline_not_mem_sumLine hdigest hline
    rw [List.map_cons, List.flatMap_cons, List.splitOn_eq_singleton hmem, List.filterMap_append,
      ih fun l' hl' => h l' (List.mem_cons_of_mem l hl'),
      List.filterMap_cons_some ((parseSumLine_sumLine hdigest l.1).trans (if_pos hline))]
    rfl

/-! ## A path that is listed twice -/

/-- The digest of the empty file. -/
def emptyDigest : List Char :=
  "e3b0c44298fc1c149afbf4c8996fb92427ae41e4649b934ca495991b7852b855".toList

/-- The line of the empty file `a`. -/
def rightLine : List Char := emptyDigest ++ "  a\n".toList

/-- A line of the same file with another digest. -/
def wrongLine : List Char := List.replicate 64 '0' ++ "  a\n".toList

/-- The digests of what is packed here: the empty file and two lists. -/
def packEnv : PackEnv :=
  { crc32 := fun bs =>
      if bs = [] then 0 else if bs = utf8 rightLine then 1595520362 else 3358104167
    sha256 := fun bs => if bs = [] then emptyDigest else []
    toLowerCase := fun cs => cs.map Char.toLower }

/-- The empty file `a` and the list. -/
def artifact (sums : List Char) : List (List Char × ArtifactNode) :=
  [("a".toList, .file []), (sha256Sums, .file (utf8 sums))]

theorem isDigest_emptyDigest : IsDigest emptyDigest := ⟨by decide, by decide⟩

theorem isDigest_zeros : IsDigest (List.replicate 64 '0') :=
  ⟨List.length_replicate, List.all_eq_true.mpr fun _ hc => (List.mem_replicate.mp hc).2 ▸ by decide⟩

theorem oneLine : rightLine = ['\n'].intercalate
    ([("a".toList, emptyDigest)].map fun l => sumLine l.2 l.1) ++ ['\n'] := by
  rw [List.map_singleton, List.intercalate_singleton, sumLine, List.append_assoc]
  rfl

theorem twoLines : wrongLine ++ rightLine = ['\n'].intercalate
    ([("a".toList, List.replicate 64 '0'), ("a".toList, emptyDigest)].map fun l =>
      sumLine l.2 l.1) ++ ['\n'] := by
  have hwrong : wrongLine = sumLine (List.replicate 64 '0') "a".toList ++ ['\n'] := by
    rw [wrongLine, sumLine, List.append_assoc]
    rfl
  simp only [oneLine, hwrong, List.map_cons, List.map_nil, intercalate_cons,
    List.intercalate_singleton, List.append_assoc, List.cons_append, List.nil_append]

def packed (sums : List Char) : List PackFile :=
  [⟨"a".toList, []⟩, ⟨sha256Sums, utf8 sums⟩]

theorem collectFiles_artifact (sums : List Char) :
    collectFiles (artifact sums) = .ok (packed sums) := by
  rfl

theorem listedIn_artifact (sums : List Char) : listedIn (artifact sums) = listedSums sums := by
  have hfind : (artifact sums).find? (fun e => e.1 = sha256Sums) =
      some (sha256Sums, .file (utf8 sums)) := rfl
  simp only [listedIn, hfind, readUtf8_utf8]

/-- An archive of `a` and a list is built if the last line of `a` is right and nothing else is
    listed. -/
theorem packable_artifact {sums : List Char} (hsize : (utf8 sums).length < 65536)
    (ha : sumOf (listedSums sums) "a".toList = some emptyDigest)
    (honly : ∀ l ∈ listedSums sums, l.1 = "a".toList) :
    Packable packEnv (artifact sums) (packed sums) := by
  have ha' : (utf8 "a".toList).length = 1 := by decide
  have hself : (utf8 sha256Sums).length = 10 := by decide
  have hlist : sumOf (listedSums sums) sha256Sums = none := by
    -- Two files are packed: `a`, which the list names, and the list.
    refine sumOf_eq_none.mpr fun l hl heq => ?_
    rw [honly l hl] at heq
    revert heq
    decide
  rw [← listedIn_artifact] at ha honly hlist
  refine
    { frozen := ⟨sha256Sums, utf8 sums, rfl, Nat.lt_trans hsize (by decide)⟩
      distinct := ?_
      count := by simp [packed]
      name := ?_
      size := ?_
      digests := ?_
      archived := fun l hl => List.mem_map.mpr ⟨_, List.mem_cons_self, (honly l hl).symm⟩ }
  · simp only [packed, List.map_cons, List.map_nil]
    decide
  · intro f hf
    rcases List.mem_cons.mp hf with rfl | hf
    · exact ha' ▸ (by decide)
    · obtain rfl := List.mem_singleton.mp hf
      exact hself ▸ (by decide)
  · have hbytes : MAX_BYTES = 2147483647 := rfl
    simp only [packed, archiveSize, List.map_cons, List.map_nil, List.sum_cons, List.sum_nil,
      localSize, centralSize, ha', hself, List.length_nil]
    omega
  · intro f hf
    rcases List.mem_cons.mp hf with rfl | hf
    · exact .inr ha
    · obtain rfl := List.mem_singleton.mp hf
      exact .inl ⟨hlist, rfl⟩

/-- Of the two lines of `a` the last is right: the archive is reported as verified, and the first
line lists a digest that no archived file has. -/
theorem stale_line_verified :
    ∃ z files,
      buildReleaseZip packEnv (some (.directory (artifact (wrongLine ++ rightLine)))) = .ok z ∧
      collectFiles (artifact (wrongLine ++ rightLine)) = .ok files ∧ z.verifiedAgainstSums = true ∧
      ¬ RoundTrip packEnv (artifact (wrongLine ++ rightLine)) z files := by
  have hlines : listedSums (wrongLine ++ rightLine) =
      [("a".toList, List.replicate 64 '0'), ("a".toList, emptyDigest)] := by
    rw [twoLines]
    refine listedSums_sumLines (List.cons_ne_nil _ _) ?_
    simp only [List.forall_mem_cons]
    exact ⟨⟨isDigest_zeros, by decide⟩, ⟨isDigest_emptyDigest, by decide⟩,
      fun l hl => absurd hl List.not_mem_nil⟩
  have hsize : (utf8 (wrongLine ++ rightLine)).length < 65536 := by decide +kernel
  have hpackable : Packable packEnv (artifact (wrongLine ++ rightLine))
      (packed (wrongLine ++ rightLine)) := by
    refine packable_artifact hsize ?_ ?_
    · rw [hlines]
      decide +kernel
    · rw [hlines]
      decide +kernel
  have hfiles := collectFiles_artifact (wrongLine ++ rightLine)
  obtain ⟨z, hz⟩ := buildReleaseZip_of_packable hfiles hpackable
  obtain ⟨_, _, _, _, -, -, -, -, -, hreported⟩ := buildReleaseZip_ok hz
  refine ⟨z, _, hz, hfiles, hreported, fun htrip => ?_⟩
  -- The first line of `a` has no file with its digest.
  have hco := htrip.verified hreported
  rw [listedIn_artifact, hlines] at hco
  obtain ⟨f, hf, hname, hsha⟩ := hco.archived_of_listed _ List.mem_cons_self
  rcases List.mem_cons.mp hf with rfl | hf
  · revert hsha
    decide
  · obtain rfl := List.mem_singleton.mp hf
    revert hname
    decide

/-- With the right line alone the round trip is whole. -/
theorem listed_once_round_trip :
    ∃ z files, buildReleaseZip packEnv (some (.directory (artifact rightLine))) = .ok z ∧
      RoundTrip packEnv (artifact rightLine) z files := by
  have hlines : listedSums rightLine = [("a".toList, emptyDigest)] := by
    rw [oneLine]
    refine listedSums_sumLines (List.cons_ne_nil _ _) ?_
    simp only [List.forall_mem_cons]
    exact ⟨⟨isDigest_emptyDigest, by decide⟩, fun l hl => absurd hl List.not_mem_nil⟩
  have hsize : (utf8 rightLine).length < 65536 := by decide +kernel
  have hpackable : Packable packEnv (artifact rightLine) (packed rightLine) := by
    refine packable_artifact hsize ?_ ?_
    · rw [hlines]
      decide +kernel
    · rw [hlines]
      decide +kernel
  obtain ⟨z, hz⟩ := buildReleaseZip_of_packable (collectFiles_artifact rightLine) hpackable
  obtain ⟨files, -, htrip⟩ := release_round_trip_iff hz
  refine ⟨z, files, hz, htrip.mpr ?_⟩
  rw [listedIn_artifact, hlines]
  decide +kernel

end Proof
end XBus
