import XBus.Lib.Nesting
import XBus.Proof.Ledger
import Mathlib.Data.List.Induction

/-!
# Tampering with the ledger

A hash says what was hashed, if SHA-256 has no collisions: the hash of the row before, which ends
where the canonical text begins (`append_text_inj`), and the canonical text, which says all fields
of the row (`sameEntry_of_hash`). So the hash of a row says all rows up to it. Two ledgers that
verify and end in the same hash are the same from the back to the front, where both meet their root
(`linked_unique`).

A row that still carries a hash of the verified ledger thereby gives away every change in front of
it. What `verifyLedger` cannot do is find the first of several changes that were made consistently:
rows that are rewritten with new hashes verify up to the first row that was left alone.
-/

set_option autoImplicit false

namespace XBus

open Lib Live

variable (ν : Type) [JsFloat ν]

/-- Two rows say the same. The texts of the JSON columns may differ, in white space and in the order
    of members. -/
structure SameEntry (r r' : LedgerRow) : Prop where
  seq : r.seq = r'.seq
  eventType : r.eventType = r'.eventType
  actor : r.actor = r'.actor
  subject : (Json.read r.subjectJson : Option (Json ν)).map Json.sortKeys =
    (Json.read r'.subjectJson).map Json.sortKeys
  payload : (Json.read r.payloadJson : Option (Json ν)).map Json.sortKeys =
    (Json.read r'.payloadJson).map Json.sortKeys
  createdAt : r.createdAt = r'.createdAt
  prevHash : r.prevHash = r'.prevHash
  entryHash : r.entryHash = r'.entryHash

/-- `verifyLedger` returns, and says ok. -/
def Ledger.Verified (sha256 : Bytes → List Char) (db : Ledger) : Prop :=
  (verifyLedger ν sha256 db).any (·.ok)

/-- The rows in their order. -/
def Ledger.rows (db : Ledger) : List LedgerRow := bySeq db.events

/-- What the first row of the table is checked against. -/
def Ledger.startRoot (db : Ledger) : Option (Int × List Char) :=
  db.rows.head?.bind fun r => db.root r.seq

/-- The hash of the last row. -/
def Ledger.lastHash (db : Ledger) : Option (List Char) := db.rows.getLast?.map (·.entryHash)

/-- A break is reported at one of the rows up to the place `j`. -/
def BreaksBy (rows : List LedgerRow) (j : Nat) (result : LedgerVerifyResult) : Prop :=
  ∃ p r brk, p ≤ j ∧ rows[p]? = some r ∧ result.firstBreak = some brk ∧ brk.seq = r.seq

namespace Proof

variable {ν} {sha256 : Bytes → List Char}

/-! ## What a canonical text says -/

/-- The row as a JSON value. -/
def rowJson (r : LedgerRow) (subject payload : Json ν) : Json ν :=
  .obj
    [(utf16 "seq", .num (JsFloat.ofInt r.seq)),
      (utf16 "eventType", .str (r.eventType.flatMap units)),
      (utf16 "actor", .str (r.actor.flatMap units)),
      (utf16 "subject", subject),
      (utf16 "payload", payload),
      (utf16 "createdAt", .str (r.createdAt.flatMap units))]

/-- Its members as they are hashed. -/
def sortedMembers (r : LedgerRow) (subject payload : Json ν) : List (JsString × Json ν) :=
  [(utf16 "actor", .str (r.actor.flatMap units)),
    (utf16 "createdAt", .str (r.createdAt.flatMap units)),
    (utf16 "eventType", .str (r.eventType.flatMap units)),
    (utf16 "payload", payload.sortKeys),
    (utf16 "seq", .num (JsFloat.ofInt r.seq)),
    (utf16 "subject", subject.sortKeys)]

theorem sortKeys_rowJson (r : LedgerRow) (subject payload : Json ν) :
    (rowJson r subject payload).sortKeys = .obj (sortedMembers r subject payload) := by
  simp only [rowJson, Json.sortKeys, Json.sortMembers]
  rfl

theorem canonical_some {r : LedgerRow} {t : List Char} (h : r.canonical ν = some t) :
    ∃ subject payload : Json ν, Json.read r.subjectJson = some subject ∧
      Json.read r.payloadJson = some payload ∧
      t = (Json.obj (sortedMembers r subject payload)).text := by
  simp only [LedgerRow.canonical, LedgerRow.fields, Option.bind_eq_bind, Option.bind_eq_some_iff,
    Option.pure_def, Option.some.injEq] at h
  obtain ⟨_, ⟨subject, hsubject, payload, hpayload, rfl⟩, ht⟩ := h
  refine ⟨subject, payload, hsubject, hpayload, ?_⟩
  rw [← sortKeys_rowJson]
  apply canonicalize_ofJson (rowJson r subject payload) (utf16 "$")
  rw [← of_toOption ht]
  simp only [canonicalLedgerPayload, rowJson, ofJson, ofMembers]

theorem opensWithKey_row (r : LedgerRow) (subject payload : Json ν) :
    Json.OpensWithKey (sortedMembers r subject payload) := by
  have hkey : quoted (utf16 "actor") = 'a' :: "ctor\"".toList := by decide
  obtain ⟨rest, hrest⟩ : ∃ rest,
      Json.membersText true (sortedMembers r subject payload) = '"' :: 'a' :: rest := by
    rw [sortedMembers, Json.membersText, Json.comma, if_pos rfl, quote, hkey]
    exact ⟨_, rfl⟩
  exact ⟨'a', rest, by rw [Json.text, hrest], by decide⟩

theorem sorted_distinct {r : LedgerRow} {subject payload : Json ν} (hsubject : subject.Distinct)
    (hpayload : payload.Distinct) : (Json.obj (sortedMembers r subject payload)).Distinct := by
  rw [← sortKeys_rowJson]
  apply Json.sortKeys_distinct
  rw [rowJson, Json.Distinct]
  exact ⟨rowKeys_nodup, trivial, trivial, trivial, hsubject, hpayload, trivial, trivial⟩

/-- A number that can be read is told by its text. -/
theorem ofInt_injective {n m : Int} (hn : n.natAbs < 2 ^ 53) (hm : m.natAbs < 2 ^ 53)
    (h : (JsFloat.ofInt n : ν) = JsFloat.ofInt m) : n = m := by
  have htext : intText n = intText m := by
    rw [← JsFloat.toText_ofInt (ν := ν) n hn, ← JsFloat.toText_ofInt (ν := ν) m hm, h]
  rw [← intOfText_intText n, ← intOfText_intText m, htext]

/-- **Rows with the same hash say the same**, if they are hashed over what they say. -/
theorem sameEntry_of_hash (hinj : Function.Injective sha256) {r r' : LedgerRow} {t t' : List Char}
    (hr : r.seq.natAbs < 2 ^ 53) (hr' : r'.seq.natAbs < 2 ^ 53)
    (ht : r.canonical ν = some t) (ht' : r'.canonical ν = some t')
    (hentry : r.entryHash = computeEntryHash sha256 r.prevHash t)
    (hentry' : r'.entryHash = computeEntryHash sha256 r'.prevHash t')
    (h : r.entryHash = r'.entryHash) : SameEntry ν r r' := by
  obtain ⟨subject, payload, hsubject, hpayload, rfl⟩ := canonical_some ht
  obtain ⟨subject', payload', hsubject', hpayload', rfl⟩ := canonical_some ht'
  rw [hentry, hentry'] at h
  obtain ⟨hprev, htext⟩ := Json.append_text_inj (opensWithKey_row r subject payload)
    (opensWithKey_row r' subject' payload') (utf8_injective (hinj h))
  have hmembers := Json.text_injective
    (sorted_distinct (Value.read_distinct hsubject) (Value.read_distinct hpayload))
    (sorted_distinct (Value.read_distinct hsubject') (Value.read_distinct hpayload')) htext
  simp only [sortedMembers, Json.obj.injEq, List.cons.injEq, Prod.mk.injEq, Json.str.injEq,
    Json.num.injEq, true_and, and_true] at hmembers
  obtain ⟨hactor, hcreated, htype, hpay, hseq, hsub⟩ := hmembers
  exact {
    seq := ofInt_injective hr hr' hseq
    eventType := flatMap_units_injective htype
    actor := flatMap_units_injective hactor
    subject := by rw [hsubject, hsubject', Option.map_some, Option.map_some, hsub]
    payload := by rw [hpayload, hpayload', Option.map_some, Option.map_some, hpay]
    createdAt := flatMap_units_injective hcreated
    prevHash := hprev
    entryHash := by rw [hentry, hentry', h] }

/-! ## Chains -/

def Readable (rows : List LedgerRow) : Prop := ∀ r ∈ rows, r.seq.natAbs < 2 ^ 53

/-- The hash where linked rows end is a digest, if there are rows. -/
theorem endOf_digest {rows : List LedgerRow} {n : Int} {h : List Char}
    (l : Linked ν sha256 n h rows) (hne : rows ≠ []) :
    ∃ bs, (endOf n h rows).2 = sha256 bs := by
  obtain rfl | ⟨init, r, rfl⟩ := List.eq_nil_or_concat rows
  · exact absurd rfl hne
  · rw [List.concat_eq_append] at l ⊢
    obtain ⟨-, -, -, ⟨t, -, hentry⟩, -⟩ := linked_append.mp l
    refine ⟨utf8 ((endOf n h init).2 ++ t), ?_⟩
    rw [endOf, List.getLast?_append, List.getLast?_singleton]
    exact hentry

/-- **The last hash says all rows.** The induction is from the back: equal hashes make equal rows,
    and these name equal hashes of the rows before. It ends where one of the chains meets its root,
    which is no digest. -/
theorem linked_unique (hinj : Function.Injective sha256) {n n' : Int} {h h' : List Char}
    (hroot : ∀ bs, sha256 bs ≠ h) (hroot' : ∀ bs, sha256 bs ≠ h') {A B : List LedgerRow}
    (hA : Readable A) (hB : Readable B) (lA : Linked ν sha256 n h A) (lB : Linked ν sha256 n' h' B)
    (hlast : A.getLast?.map (·.entryHash) = B.getLast?.map (·.entryHash)) :
    List.Forall₂ (SameEntry ν) A B := by
  induction A using List.reverseRecOn generalizing B with
  | nil =>
    cases B with
    | nil => exact .nil
    | cons b B => simp [List.getLast?_cons] at hlast
  | append_singleton A a ih =>
    obtain rfl | ⟨B, b, rfl⟩ := List.eq_nil_or_concat B
    · simp at hlast
    rw [List.concat_eq_append] at *
    obtain ⟨lA', -, haprev, ⟨t, ht, haentry⟩, -⟩ := linked_append.mp lA
    obtain ⟨lB', -, hbprev, ⟨t', ht', hbentry⟩, -⟩ := linked_append.mp lB
    rw [← haprev] at haentry
    rw [← hbprev] at hbentry
    have hentries : a.entryHash = b.entryHash := by simpa using hlast
    have hsame :=
      sameEntry_of_hash hinj (hA a (by simp)) (hB b (by simp)) ht ht' haentry hbentry hentries
    have hends : (endOf n h A).2 = (endOf n' h' B).2 := by rw [← haprev, ← hbprev, hsame.prevHash]
    refine List.rel_append
      (ih (fun r hr => hA r (by simp [hr])) (fun r hr => hB r (by simp [hr])) lA'
      lB' ?_) (.cons hsame .nil)
    -- Neither chain ends before the other: a root is no digest.
    by_cases hnil : A = [] <;> by_cases hnil' : B = []
    · rw [hnil, hnil']
    · obtain ⟨bs, hbs⟩ := endOf_digest lB' hnil'
      rw [← hends, hnil] at hbs
      exact absurd hbs.symm (hroot bs)
    · obtain ⟨bs, hbs⟩ := endOf_digest lA' hnil
      rw [hends, hnil'] at hbs
      exact absurd hbs.symm (hroot' bs)
    · simpa [endOf, List.getLast?_eq_some_getLast hnil, List.getLast?_eq_some_getLast hnil']
        using hends

theorem Linked.take {rows : List LedgerRow} {n : Int} {h : List Char}
    (l : Linked ν sha256 n h rows) (k : Nat) : Linked ν sha256 n h (rows.take k) := by
  rw [← List.take_append_drop k rows] at l
  exact (linked_append.mp l).1

/-- The loop stops at the first row that does not go on from the linked ones before it. -/
theorem verifyRows_break {rows : List LedgerRow} {n minSeq : Int} {h : List Char} {checked : Nat}
    (hbroken : (verifyRows ν sha256 minSeq checked h (n + 1) rows).ok = false) :
    ∃ p r brk, rows[p]? = some r ∧ Linked ν sha256 n h (rows.take p) ∧
      (verifyRows ν sha256 minSeq checked h (n + 1) rows).firstBreak = some brk ∧
      brk.seq = r.seq := by
  induction rows generalizing n h with
  | nil => simp [verifyRows] at hbroken
  | cons r rows ih =>
    rw [verifyRows] at hbroken ⊢
    cases hcanonical : r.canonical ν with
    | none => exact ⟨0, r, _, rfl, trivial, rfl, rfl⟩
    | some t =>
      simp only [hcanonical] at hbroken ⊢
      split
      · exact ⟨0, r, _, rfl, trivial, rfl, rfl⟩
      · rename_i hgood
        rw [if_neg hgood] at hbroken
        simp only [ne_eq, not_or, not_not] at hgood
        obtain ⟨hseq, hprev, hentry⟩ := hgood
        obtain ⟨p, r', brk, hr', hlinked, hbrk, hbrkSeq⟩ := ih hbroken
        refine ⟨p + 1, r', brk, by simpa using hr', ?_, hbrk, hbrkSeq⟩
        rw [List.take_succ_cons]
        exact ⟨hseq, hprev, ⟨t, hcanonical, by rw [← hprev, hentry]⟩, hlinked⟩

/-! ## Tables -/

theorem readable_of_mapM {rows : List LedgerRow} {ns : List Int}
    (h : (rows.mapM fun r => readInteger r.seq) = some ns) : Readable rows := by
  induction rows generalizing ns with
  | nil => simp [Readable]
  | cons r rows ih =>
    rw [List.mapM_cons] at h
    simp only [Option.bind_eq_bind, Option.bind_eq_some_iff, readInteger,
      Option.ite_none_right_eq_some] at h
    obtain ⟨_, ⟨hr, -⟩, ns', hrest, -⟩ := h
    exact List.forall_mem_cons.mpr ⟨hr, ih hrest⟩

/-- What a verification that returns has read, and the loop it has run. -/
theorem verifyLedger_some {db : Ledger} {result : LedgerVerifyResult}
    (h : verifyLedger ν sha256 db = some result) :
    Readable db.rows ∧ (db.rows = [] ∧ result = ⟨true, 0, none⟩ ∨
      ∃ root minSeq, db.startRoot = some root ∧
        result = verifyRows ν sha256 minSeq db.rows.length root.2 (root.1 + 1) db.rows) := by
  simp only [verifyLedger, Option.bind_eq_bind, Option.bind_eq_some_iff] at h
  obtain ⟨ns, hns, h⟩ := h
  refine ⟨readable_of_mapM hns, ?_⟩
  unfold Ledger.startRoot Ledger.rows
  cases hrows : bySeq db.events with
  | nil =>
    rw [hrows] at h
    exact .inl ⟨rfl, (Option.some.inj h).symm⟩
  | cons r rows =>
    simp only [hrows, Option.bind_eq_some_iff, Prod.exists, Option.pure_def, Option.some.injEq] at h
    obtain ⟨n, hash, hroot, rfl⟩ := h
    exact .inr ⟨(n, hash), r.seq, by simp [hroot], rfl⟩

theorem Verified.linked {db : Ledger} (h : db.Verified ν sha256) :
    Readable db.rows ∧ (db.rows = [] ∨
      ∃ root, db.startRoot = some root ∧ Linked ν sha256 root.1 root.2 db.rows) := by
  obtain ⟨result, hresult, hok⟩ := (Option.any_eq_true _ _).mp h
  obtain ⟨hread, ⟨hnil, -⟩ | ⟨root, minSeq, hroot, rfl⟩⟩ := verifyLedger_some hresult
  · exact ⟨hread, .inl hnil⟩
  · exact ⟨hread, .inr ⟨root, hroot, verifyRows_ok_iff.mp hok⟩⟩

theorem getLast?_take {rows : List LedgerRow} {k : Nat} {r : LedgerRow} (h : rows[k]? = some r) :
    (rows.take (k + 1)).getLast? = some r := by
  rw [List.take_add_one, h]
  simp

/-- A row that carries a hash of the verified ledger, linked to the root as it is, has only rows of
    that ledger in front. -/
theorem sameEntries_of_hash (hinj : Function.Injective sha256) {n n' : Int} {h h' : List Char}
    (hroot : ∀ bs, sha256 bs ≠ h) (hroot' : ∀ bs, sha256 bs ≠ h') {A B : List LedgerRow}
    (hA : Readable A) (hB : Readable B) (lA : Linked ν sha256 n h A) {j : Nat} {b : LedgerRow}
    (lB : Linked ν sha256 n' h' (B.take (j + 1))) (hb : B[j]? = some b)
    (hhash : b.entryHash ∈ A.map (·.entryHash)) :
    List.Forall₂ (SameEntry ν) (A.take (j + 1)) (B.take (j + 1)) := by
  obtain ⟨a, ha, heq⟩ := List.mem_map.mp hhash
  obtain ⟨k, hk⟩ := List.mem_iff_getElem?.mp ha
  have hsame := linked_unique hinj hroot hroot' (A := A.take (k + 1)) (B := B.take (j + 1))
    (fun r hr => hA r (List.mem_of_mem_take hr)) (fun r hr => hB r (List.mem_of_mem_take hr))
    (lA.take (k + 1)) lB (by rw [getLast?_take hk, getLast?_take hb, Option.map_some, heq]; rfl)
  -- so it stands at the same place
  have hlength := hsame.length_eq
  have hkA : k < A.length := (List.getElem?_eq_some_iff.mp hk).1
  have hjB : j < B.length := (List.getElem?_eq_some_iff.mp hb).1
  rw [List.length_take, List.length_take] at hlength
  rwa [show k = j by omega] at hsame

theorem verified_unique (hinj : Function.Injective sha256) {A B : Ledger}
    (hrootA : ∀ root ∈ A.startRoot, ∀ bs, sha256 bs ≠ root.2)
    (hrootB : ∀ root ∈ B.startRoot, ∀ bs, sha256 bs ≠ root.2) (hA : A.Verified ν sha256)
    (hB : B.Verified ν sha256) (hlast : A.lastHash = B.lastHash) :
    List.Forall₂ (SameEntry ν) A.rows B.rows := by
  obtain ⟨hreadA, hnil | ⟨root, hroot, lA⟩⟩ := Verified.linked hA
  · have hnilB : B.rows = [] := by simpa [Ledger.lastHash, hnil] using hlast
    rw [hnil, hnilB]
    exact .nil
  · obtain ⟨hreadB, hnil | ⟨root', hroot', lB⟩⟩ := Verified.linked hB
    · have hnilA : A.rows = [] := by simpa [Ledger.lastHash, hnil] using hlast
      rw [hnil, hnilA]
      exact .nil
    · exact linked_unique hinj (hrootA root hroot) (hrootB root' hroot') hreadA hreadB lA lB hlast

/-- Where a row up to `j` differs from the verified ledger and the row at `j` still carries one of
    its hashes, the break is found by then. -/
theorem breaksBy_of_hash (hinj : Function.Injective sha256) {A B : Ledger}
    (hrootA : ∀ root ∈ A.startRoot, ∀ bs, sha256 bs ≠ root.2)
    (hrootB : ∀ root ∈ B.startRoot, ∀ bs, sha256 bs ≠ root.2) (hA : A.Verified ν sha256)
    {result : LedgerVerifyResult} (hresult : verifyLedger ν sha256 B = some result)
    (hbad : result.ok = false) {j : Nat} {b : LedgerRow}
    (hdiffers : ¬ List.Forall₂ (SameEntry ν) (A.rows.take (j + 1)) (B.rows.take (j + 1))) :
    (B.rows[j]? = some b → b.entryHash ∈ A.rows.map (·.entryHash) → BreaksBy B.rows j result) ∧
      (B.rows[j + 1]? = some b → b.prevHash ∈ A.rows.map (·.entryHash) →
        BreaksBy B.rows (j + 1) result) := by
  obtain ⟨hreadB, ⟨-, rfl⟩ | ⟨root, minSeq, hroot, rfl⟩⟩ := verifyLedger_some hresult
  · cases hbad
  obtain ⟨p, r, brk, hr, hlinked, hbrk, hseq⟩ := verifyRows_break hbad
  -- were the rows up to `j` linked, the hash would make them those of the verified ledger
  have hunlinked : ∀ b, B.rows[j]? = some b → b.entryHash ∈ A.rows.map (·.entryHash) →
      ¬ Linked ν sha256 root.1 root.2 (B.rows.take (j + 1)) := by
    intro b hb hhash lB
    obtain ⟨hreadA, hnil | ⟨rootA, hrootEq, lA⟩⟩ := Verified.linked hA
    · simp [hnil] at hhash
    · exact hdiffers
        (sameEntries_of_hash hinj (hrootA rootA hrootEq) (hrootB root hroot) hreadA hreadB lA
        lB hb hhash)
  have htaken : ∀ k, k ≤ p → Linked ν sha256 root.1 root.2 (B.rows.take k) := by
    intro k hk
    have htake := hlinked.take k
    rwa [List.take_take, Nat.min_eq_left hk] at htake
  constructor
  · intro hb hhash
    refine ⟨p, r, brk, Nat.le_of_not_lt fun hlt => ?_, hr, hbrk, hseq⟩
    exact hunlinked b hb hhash (htaken (j + 1) hlt)
  · intro hb hhash
    refine ⟨p, r, brk, Nat.le_of_not_lt fun hlt => ?_, hr, hbrk, hseq⟩
    -- linked up to the successor, whose `prev_hash` is then the hash of the row at `j`
    have hjB : j + 1 < B.rows.length := (List.getElem?_eq_some_iff.mp hb).1
    have hb' : B.rows[j]? = some B.rows[j] := List.getElem?_eq_getElem (by omega)
    have lB := htaken (j + 2) hlt
    rw [List.take_add_one, hb, linked_append] at lB
    obtain ⟨lB, -, hprev, -⟩ := lB
    have hend : (endOf root.1 root.2 (B.rows.take (j + 1))).2 = B.rows[j].entryHash := by
      rw [endOf, getLast?_take hb']
    rw [hprev, hend] at hhash
    exact hunlinked _ hb' hhash lB

/-- **Tamper evidence.** -/
theorem tampering_shows (hinj : Function.Injective sha256) {A B : Ledger}
    (hrootA : ∀ root ∈ A.startRoot, ∀ bs, sha256 bs ≠ root.2)
    (hrootB : ∀ root ∈ B.startRoot, ∀ bs, sha256 bs ≠ root.2) (hA : A.Verified ν sha256)
    (hlast : A.lastHash = B.lastHash) :
    (B.Verified ν sha256 → List.Forall₂ (SameEntry ν) A.rows B.rows) ∧
      (¬ List.Forall₂ (SameEntry ν) A.rows B.rows → ¬ B.Verified ν sha256 ∧
        ∀ result, verifyLedger ν sha256 B = some result → ∀ j b,
          ¬ List.Forall₂ (SameEntry ν) (A.rows.take (j + 1)) (B.rows.take (j + 1)) →
          (B.rows[j]? = some b → b.entryHash ∈ A.rows.map (·.entryHash) →
            BreaksBy B.rows j result) ∧
          (B.rows[j + 1]? = some b → b.prevHash ∈ A.rows.map (·.entryHash) →
            BreaksBy B.rows (j + 1) result)) := by
  have hunique : B.Verified ν sha256 → List.Forall₂ (SameEntry ν) A.rows B.rows :=
    fun hB => verified_unique hinj hrootA hrootB hA hB hlast
  refine ⟨hunique, fun hdiffers => ⟨fun hB => hdiffers (hunique hB), ?_⟩⟩
  intro result hresult j b htake
  have hbad : result.ok = false := by
    cases hok : result.ok with
    | false => rfl
    | true => exact absurd (hunique (by simp [Ledger.Verified, hresult, hok])) hdiffers
  exact breaksBy_of_hash hinj hrootA hrootB hA hresult hbad htake

/-! Small tables. -/

theorem sha256Of_injective {known : List (List Char × String)}
    (hnodup : (known.map (·.2.toList)).Nodup) (hx : ∀ k ∈ known, k.2.toList.head? ≠ some 'x') :
    Function.Injective (sha256Of known) := by
  have hchars : Function.Injective fun b : UInt8 => Char.ofNat b.toNat := by
    intro b b' h
    have hb := b.toNat_lt
    have hb' := b'.toNat_lt
    have hnat := congrArg Char.toNat h
    rw [toNat_ofNat_char (by omega), toNat_ofNat_char (by omega)] at hnat
    exact UInt8.toNat_inj.mp hnat
  intro bs bs' h
  unfold sha256Of at h
  cases hk : known.find? fun k => utf8 k.1 = bs with
  | none =>
    cases hk' : known.find? fun k => utf8 k.1 = bs' with
    | none =>
      simp only [hk, hk'] at h
      exact List.map_injective_iff.mpr hchars (List.cons.inj h).2
    | some k' =>
      simp only [hk, hk'] at h
      exact absurd (congrArg List.head? h.symm) (hx k' (List.mem_of_find?_eq_some hk'))
  | some k =>
    cases hk' : known.find? fun k => utf8 k.1 = bs' with
    | none =>
      simp only [hk, hk'] at h
      exact absurd (congrArg List.head? h) (hx k (List.mem_of_find?_eq_some hk))
    | some k' =>
      simp only [hk, hk'] at h
      obtain rfl := List.inj_on_of_nodup_map hnodup (List.mem_of_find?_eq_some hk)
        (List.mem_of_find?_eq_some hk') h
      have hbs := List.find?_some hk
      have hbs' := List.find?_some hk'
      simp only [decide_eq_true_eq] at hbs hbs'
      rw [← hbs, ← hbs']

theorem sha256Of_ne_genesis {known : List (List Char × String)}
    (hknown : ∀ k ∈ known, k.2.toList ≠ ledgerGenesisHash) (bs : Bytes) :
    sha256Of known bs ≠ ledgerGenesisHash := by
  unfold sha256Of
  split
  · rename_i k hk
    exact hknown k (List.mem_of_find?_eq_some hk)
  · intro h
    cases h

/-- A row hashed over what it says. -/
def hashedRow (sha256 : Bytes → List Char) (seq : Int) (prevHash payloadJson : List Char) :
    LedgerRow :=
  let r : LedgerRow := ⟨seq, ['e'], ['a'], ['{', '}'], payloadJson, ['t'], prevHash, []⟩
  { r with entryHash := computeEntryHash sha256 prevHash ((r.canonical Int).getD []) }

def oneRowHash : Bytes → List Char := sha256Of
  [(ledgerGenesisHash ++ ("\x7b\"actor\":\"a\",\"createdAt\":\"t\",\"eventType\":\"e\"," ++
      "\"payload\":\x7b\x7d,\"seq\":1,\"subject\":\x7b\x7d\x7d").toList,
    "0e2d3ab5f252f49331d1020703e83d2920ffd2938b5008d7fec02bced3405f8c")]

def oneRow : LedgerRow := hashedRow oneRowHash 1 ledgerGenesisHash ['{', '}']

/-- The row with another text in a JSON column. -/
def withPayload (payloadJson : List Char) : LedgerRow := { oneRow with payloadJson }

theorem withPayload_entryHash (payloadJson : List Char) :
    (withPayload payloadJson).entryHash = oneRow.entryHash := by
  simp only [withPayload]

theorem rows_single (r : LedgerRow) : (Ledger.mk [r] []).rows = [r] := rfl

/-- White space in a JSON column is no change; another value in it is one, and is found at the
    row. -/
theorem one_row_tampered :
    List.Forall₂ (SameEntry Int) [oneRow] [withPayload ['{', ' ', '}']] ∧
      ∃ result, verifyLedger Int oneRowHash ⟨[withPayload ['7']], []⟩ = some result ∧
        BreaksBy [withPayload ['7']] 0 result := by
  have hinj : Function.Injective oneRowHash := sha256Of_injective (by simp) (by decide +kernel)
  have hne : ∀ root ∈ some ((0 : Int), ledgerGenesisHash), ∀ bs, oneRowHash bs ≠ root.2 := by
    intro root hroot bs
    cases hroot
    exact sha256Of_ne_genesis (by decide +kernel) bs
  have hverified : (Ledger.mk [oneRow] []).Verified Int oneRowHash := by
    unfold Ledger.Verified
    decide +kernel
  have hlast :
    ∀ text, (Ledger.mk [oneRow] []).lastHash = (Ledger.mk [withPayload text] []).lastHash := by
    intro text
    rw [Ledger.lastHash, Ledger.lastHash, rows_single, rows_single, List.getLast?_singleton,
      List.getLast?_singleton, Option.map_some, Option.map_some, withPayload_entryHash]
  have hspaced := (tampering_shows (A := ⟨[oneRow], []⟩)
    (B := ⟨[withPayload ['{', ' ', '}']], []⟩) hinj hne hne hverified (hlast _)).1 (by
    unfold Ledger.Verified
    decide +kernel)
  have hseven := (tampering_shows (A := ⟨[oneRow], []⟩) (B := ⟨[withPayload ['7']], []⟩) hinj
    hne hne hverified (hlast _)).2
  rw [rows_single, rows_single] at hspaced hseven
  have hdiffers : ¬ List.Forall₂ (SameEntry Int) [oneRow] [withPayload ['7']] := by
    intro h
    have hpayload := (List.forall₂_cons.mp h).1.payload
    have hread : (Json.read oneRow.payloadJson : Option (Json Int)) = some (.obj []) := rfl
    have hread' :
      (Json.read (withPayload ['7']).payloadJson : Option (Json Int)) = some (.num 7) := rfl
    rw [hread, hread'] at hpayload
    simp [Json.sortKeys] at hpayload
  obtain ⟨result, hresult⟩ := Option.isSome_iff_exists.mp (show (verifyLedger Int oneRowHash
    ⟨[withPayload ['7']], []⟩).isSome = true by decide +kernel)
  have hkept : (withPayload ['7']).entryHash ∈ [oneRow].map (·.entryHash) := by
    simp [withPayload_entryHash]
  exact ⟨hspaced, result, hresult,
    ((hseven hdiffers).2 result hresult 0 (withPayload ['7']) hdiffers).1 rfl hkept⟩

/-! Three rows, of which the first is changed and the second chained to it anew. -/

def threeRows : List LedgerRow :=
  let a := hashedRow (sha256Of []) 1 ledgerGenesisHash ['{', '}']
  let b := hashedRow (sha256Of []) 2 a.entryHash ['{', '}']
  let c := hashedRow (sha256Of []) 3 b.entryHash ['{', '}']
  [a, b, c]

def rewrittenRows : List LedgerRow :=
  let a := hashedRow (sha256Of []) 1 ledgerGenesisHash ['7']
  let b := hashedRow (sha256Of []) 2 a.entryHash ['{', '}']
  a :: b :: threeRows.drop 2

/-- The break is at the third row, although the first differs. -/
theorem rewritten_rows_break_later :
    ¬ ∀ (sha256 : Bytes → List Char) (A B : Ledger), Function.Injective sha256 →
      A.anchors = B.anchors → (∀ root ∈ A.startRoot, ∀ bs, sha256 bs ≠ root.2) →
      (∀ root ∈ B.startRoot, ∀ bs, sha256 bs ≠ root.2) → A.Verified Int sha256 →
      A.lastHash = B.lastHash → ∀ i,
      List.Forall₂ (SameEntry Int) (A.rows.take i) (B.rows.take i) →
      ¬ List.Forall₂ (SameEntry Int) (A.rows.take (i + 1)) (B.rows.take (i + 1)) →
      ∃ result, verifyLedger Int sha256 B = some result ∧ result.ok = false ∧
        BreaksBy B.rows (i + 1) result := by
  intro h
  have hne : ∀ root ∈ some ((0 : Int), ledgerGenesisHash), ∀ bs, sha256Of [] bs ≠ root.2 := by
    intro root hroot bs
    cases hroot
    exact sha256Of_ne_genesis (by simp) bs
  have hrows : (Ledger.mk threeRows []).rows = threeRows := by decide +kernel
  have hrows' : (Ledger.mk rewrittenRows []).rows = rewrittenRows := by decide +kernel
  have hroot : (Ledger.mk threeRows []).startRoot = some (0, ledgerGenesisHash) := by decide +kernel
  have hroot' : (Ledger.mk rewrittenRows []).startRoot = some (0, ledgerGenesisHash) := by
    decide +kernel
  have hverified : (Ledger.mk threeRows []).Verified Int (sha256Of []) := by
    unfold Ledger.Verified
    decide +kernel
  have hlast : (Ledger.mk threeRows []).lastHash = (Ledger.mk rewrittenRows []).lastHash := by
    decide +kernel
  have hdiffers : ¬ List.Forall₂ (SameEntry Int) (threeRows.take 1) (rewrittenRows.take 1) := by
    intro hsame
    have hhash := (List.forall₂_cons.mp hsame).1.entryHash
    exact absurd hhash (by decide +kernel)
  have hbreak :
    ((verifyLedger Int (sha256Of []) ⟨rewrittenRows, []⟩).bind (·.firstBreak)).map (·.seq) =
      some 3 := by
    decide +kernel
  obtain ⟨result, hresult, -, p, r, brk, hp, hr, hbrk, hseq⟩ := h (sha256Of []) ⟨threeRows, []⟩
    ⟨rewrittenRows, []⟩ (sha256Of_injective (by simp) (by simp)) rfl (hroot ▸ hne) (hroot' ▸ hne)
    hverified hlast 0 (by simp) (by rw [hrows, hrows']; exact hdiffers)
  rw [hresult, Option.bind_some, hbrk, Option.map_some, hseq] at hbreak
  rw [hrows'] at hr
  have hearly : ∀ q : Fin 2, (rewrittenRows[q.val]?).map (·.seq) ≠ some 3 := by decide +kernel
  refine hearly ⟨p, by omega⟩ ?_
  rw [hr, Option.map_some, hbreak]

end Proof

end XBus
