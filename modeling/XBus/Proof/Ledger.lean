import XBus.Lib.Rows
import XBus.Lib.Runs
import XBus.Proof.Canonicalize
import Mathlib.Algebra.Group.Int.Defs

/-!
# A written ledger verifies

`Linked` says what `verifyLedger` checks of the rows behind a root: numbered from there without a
gap, each chained to the one before, each hashed over its canonical text as it is read back. An
append puts one more such row at the end, if what it hashed is what will be read
(`appended_canonical`). For that the strings of the event must keep their code units in the table,
no array may be written as what its `toJSON` returns, and the number of the row must be one that can
be read (`Storable`).
-/

set_option autoImplicit false

namespace XBus

open Lib Live

variable {ν : Type} [JsFloat ν]

/-- An append that is refused leaves the table as it was. -/
def ledgerStep (sha256 : Bytes → List Char) (db : Ledger) (e : LedgerEvent ν) :
    Except AuditPersistenceFailed Unit × Ledger :=
  match ledgerAppend sha256 db e with
  | .ok db' => (.ok (), db')
  | .error failure => (.error failure, db)

/-- The events that were accepted, in order. -/
def accepted (tr : List (LedgerEvent ν × Except AuditPersistenceFailed Unit)) :
    List (LedgerEvent ν) :=
  (tr.filter fun p => p.2.isOk).map (·.1)

/-- What the first row is chained to. -/
def trustRoot (anchors : List LedgerAnchor) : Int × List Char :=
  match newestAnchor anchors with
  | some a => (a.anchorSeq, a.anchorHash)
  | none => (0, ledgerGenesisHash)

/-- The columns of the row will be read as they are hashed, and its number can be read. -/
structure Storable (seq : Int) (e : LedgerEvent ν) : Prop where
  seq : seq < 2 ^ 53
  eventType : paired e.eventType
  actor : paired e.actor
  subject : e.subject.arrayToJSON = false
  payload : e.payload.arrayToJSON = false

instance (seq : Int) (e : LedgerEvent ν) : Decidable (Storable seq e) :=
  decidable_of_iff (seq < 2 ^ 53 ∧ paired e.eventType ∧ paired e.actor ∧
      e.subject.arrayToJSON = false ∧ e.payload.arrayToJSON = false)
    ⟨fun ⟨h₁, h₂, h₃, h₄, h₅⟩ => ⟨h₁, h₂, h₃, h₄, h₅⟩, fun h => ⟨h.1, h.2, h.3, h.4, h.5⟩⟩

/-- An event that has a canonical text is storable behind the tip. -/
def Sound (db : Ledger) (e : LedgerEvent ν) : Prop :=
  ∀ tip ∈ db.tip, (canonicalLedgerPayload (e.fields (tip.1 + 1))).isOk → Storable (tip.1 + 1) e

instance (db : Ledger) (e : LedgerEvent ν) : Decidable (Sound db e) :=
  inferInstanceAs (Decidable (∀ tip ∈ db.tip,
    (canonicalLedgerPayload (e.fields (tip.1 + 1))).isOk → Storable (tip.1 + 1) e))

/-- The ledger verifies over all its rows, they are numbered from the root on without a gap, and
    each reads back with the canonical text of the event it was written for. -/
structure LedgerVerifies (sha256 : Bytes → List Char) (anchors : List LedgerAnchor)
    (events : List (LedgerEvent ν)) (db : Ledger) : Prop where
  verified : verifyLedger ν sha256 db = some ⟨true, db.events.length, none⟩
  dense : db.events.map (·.seq) =
    (List.range db.events.length).map fun i : Nat => (trustRoot anchors).1 + 1 + i
  readBack : List.Forall₂ (fun (e : LedgerEvent ν) r =>
    ∃ t, canonicalLedgerPayload (e.fields r.seq) = .ok t ∧ r.canonical ν = some t) events db.events

namespace Proof

variable {sha256 : Bytes → List Char}

/-! ## Linked rows -/

variable (ν) in
/-- The rows go on from the number `n` and the hash `h`. -/
def Linked (sha256 : Bytes → List Char) : Int → List Char → List LedgerRow → Prop
  | _, _, [] => True
  | n, h, r :: rs =>
    r.seq = n + 1 ∧ r.prevHash = h ∧
      (∃ t, r.canonical ν = some t ∧ r.entryHash = computeEntryHash sha256 h t) ∧
      Linked sha256 r.seq r.entryHash rs

/-- Where the rows end. -/
def endOf (n : Int) (h : List Char) (rs : List LedgerRow) : Int × List Char :=
  match rs.getLast? with
  | some r => (r.seq, r.entryHash)
  | none => (n, h)

theorem endOf_cons (n : Int) (h : List Char) (r : LedgerRow) (rs : List LedgerRow) :
    endOf n h (r :: rs) = endOf r.seq r.entryHash rs := by
  cases rs with
  | nil => rfl
  | cons r' rs => simp [endOf, List.getLast?_cons]

theorem linked_append {rs rs' : List LedgerRow} {n : Int} {h : List Char} :
    Linked ν sha256 n h (rs ++ rs') ↔
      Linked ν sha256 n h rs ∧
        Linked ν sha256 (endOf n h rs).1 (endOf n h rs).2 rs' := by
  induction rs generalizing n h with
  | nil => simp [Linked, endOf]
  | cons r rs ih =>
    rw [List.cons_append, Linked, Linked, ih, endOf_cons]
    tauto

theorem Linked.numbers {rs : List LedgerRow} {n : Int} {h : List Char}
    (l : Linked ν sha256 n h rs) :
    rs.map (·.seq) = (List.range rs.length).map fun i : Nat => n + 1 + i := by
  induction rs generalizing n h with
  | nil => rfl
  | cons r rs ih =>
    obtain ⟨hseq, -, -, hrest⟩ := l
    rw [List.length_cons, List.range_succ_eq_map, List.map_cons, List.map_cons,
      ih hrest, List.map_map]
    refine congrArg₂ _ (by omega) (List.map_congr_left fun i _ => ?_)
    simp only [Function.comp, Nat.succ_eq_add_one]
    omega

theorem Linked.above {rs : List LedgerRow} {n : Int} {h : List Char}
    (l : Linked ν sha256 n h rs) : ∀ r ∈ rs, n < r.seq := by
  intro r hr
  have hmem : r.seq ∈ rs.map (·.seq) := List.mem_map_of_mem hr
  rw [l.numbers] at hmem
  obtain ⟨i, -, hi⟩ := List.mem_map.mp hmem
  omega

/-- Linked rows are in order already. -/
theorem Linked.bySeq_eq {rs : List LedgerRow} {n : Int} {h : List Char}
    (l : Linked ν sha256 n h rs) : bySeq rs = rs := by
  induction rs generalizing n h with
  | nil => rfl
  | cons r rs ih =>
    obtain ⟨-, -, -, hrest⟩ := l
    have hsorted : rs.insertionSort (fun r r' => r.seq ≤ r'.seq) = rs := ih hrest
    rw [bySeq, List.insertionSort_cons_of_forall_rel, hsorted]
    intro r' hr'
    exact Int.le_of_lt (hrest.above r' hr')

/-- The loop of `verifyLedger` goes through exactly when the rows are linked. -/
theorem verifyRows_ok_iff {rs : List LedgerRow} {n minSeq : Int} {h : List Char} {checked : Nat} :
    (verifyRows ν sha256 minSeq checked h (n + 1) rs).ok = true ↔ Linked ν sha256 n h rs := by
  induction rs generalizing n h with
  | nil => simp [verifyRows, Linked]
  | cons r rs ih =>
    rw [verifyRows, Linked]
    cases hcanonical : r.canonical ν with
    | none => simp
    | some t =>
      simp only [Option.some.injEq]
      split
      · rename_i hbroken
        simp only [Bool.false_eq_true, false_iff]
        rintro ⟨hseq, hprev, ⟨t', rfl, hentry⟩, -⟩
        rw [← hprev] at hentry
        simp [hseq, hprev, hentry] at hbroken
      · rename_i hgood
        simp only [ne_eq, not_or, not_not] at hgood
        obtain ⟨hseq, hprev, hentry⟩ := hgood
        rw [ih]
        constructor
        · intro hrest
          exact ⟨hseq, hprev, ⟨t, rfl, by rw [← hprev, hentry]⟩, hrest⟩
        · exact fun hall => hall.2.2.2

theorem verifyRows_eq {rs : List LedgerRow} {n minSeq : Int} {h : List Char} {checked : Nat}
    (l : Linked ν sha256 n h rs) :
    verifyRows ν sha256 minSeq checked h (n + 1) rs = ⟨true, checked, none⟩ := by
  induction rs generalizing n h with
  | nil => rfl
  | cons r rs ih =>
    obtain ⟨hseq, hprev, ⟨t, ht, hentry⟩, hrest⟩ := l
    rw [verifyRows]
    simp only [ht]
    rw [if_neg (by simp [hseq, hprev, hentry]), ih hrest]

/-! ## Appending -/

/-- What an accepted append inserts. -/
theorem ledgerRow_some {db : Ledger} {e : LedgerEvent ν} {r : LedgerRow}
    (h : ledgerRow sha256 db e = some r) :
    ∃ n prev subject payload t, db.tip = some (n, prev) ∧
      serialize true e.subject = some (some subject) ∧
      serialize true e.payload = some (some payload) ∧
      canonicalLedgerPayload (e.fields (n + 1)) = .ok t ∧
      r = ⟨n + 1, scalars e.eventType, scalars e.actor, subject.text,
        payload.text, e.createdAt, prev,
        computeEntryHash sha256 prev t⟩ := by
  simp only [ledgerRow, stringify, Option.bind_eq_bind, Option.bind_eq_some_iff, Option.pure_def,
    Option.some.injEq, Option.map_eq_some_iff, Prod.exists, exists_exists_and_eq_and] at h
  obtain ⟨n, prev, htip, _, hsubject, subject, rfl, _, hpayload, payload, rfl, t, ht, rfl⟩ := h
  exact ⟨n, prev, subject, payload, t, htip, hsubject, hpayload, of_toOption ht, rfl⟩

def rowKeys : List JsString :=
  [utf16 "seq", utf16 "eventType", utf16 "actor", utf16 "subject",
    utf16 "payload", utf16 "createdAt"]

theorem rowKeys_nodup : rowKeys.Nodup := by decide

/-- The value that is canonicalised. -/
def rowValue (f : LedgerFields ν) : Live ν :=
  .obj true
    [(utf16 "seq", .num (JsFloat.ofInt f.seq)),
      (utf16 "eventType", .str f.eventType),
      (utf16 "actor", .str f.actor),
      (utf16 "subject", f.subject),
      (utf16 "payload", f.payload),
      (utf16 "createdAt", .str f.createdAt)]

/-- **What was hashed is what is read back.** -/
theorem appended_canonical {e : LedgerEvent ν} {n : Int} {subject payload : Json ν}
    {t : List Char} {r : LedgerRow} (hseq : (n + 1).natAbs < 2 ^ 53)
    (hsubject : serialize true e.subject = some (some subject))
    (hpayload : serialize true e.payload = some (some payload))
    (ht : canonicalLedgerPayload (e.fields (n + 1)) = .ok t) (good : Storable (n + 1) e)
    (hr : r.seq = n + 1 ∧ r.eventType = scalars e.eventType ∧ r.actor = scalars e.actor ∧
      r.subjectJson = subject.text ∧ r.payloadJson = payload.text ∧ r.createdAt = e.createdAt) :
    r.canonical ν = some t := by
  -- the whole row is one value, and it is written and read back as one
  have hproper : (rowValue (e.fields (n + 1))).Proper := by
    rw [rowValue, Proper]
    refine ⟨rowKeys_nodup, fun hmem => ?_, trivial, trivial, trivial, e.subject_proper,
      e.payload_proper, trivial, trivial⟩
    have hkey : utf16 "toJSON" ∈ rowKeys := List.mem_map_of_mem (f := (·.1)) hmem
    exact absurd hkey (by decide)
  have htold : (rowValue (e.fields (n + 1))).arrayToJSON = false := by
    simp [rowValue, arrayToJSON, arrayToJSONMembers, LedgerEvent.fields, good.subject, good.payload]
  obtain ⟨j, hj, hdistinct, hread⟩ :=
    canonicalize_serialize (rowValue (e.fields (n + 1))) (utf16 "$") t hproper htold ht
  have hrow : j = .obj
      [(utf16 "seq", .num (JsFloat.ofInt (n + 1))),
        (utf16 "eventType", .str e.eventType),
        (utf16 "actor", .str e.actor),
        (utf16 "subject", subject),
        (utf16 "payload", payload),
        (utf16 "createdAt", .str (e.createdAt.flatMap units))] := by
    simp [rowValue, serialize, serializeMembers, LedgerEvent.fields, hsubject, hpayload,
      JsFloat.isFinite_ofInt _ hseq] at hj
    exact hj.symm
  subst hrow
  rw [Json.Distinct, Json.distinctMembers_iff] at hdistinct
  have hsubjectRead : Json.read subject.text = some subject :=
    Value.read_text (hdistinct.2 (utf16 "subject", subject) (by simp))
  have hpayloadRead : Json.read payload.text = some payload :=
    Value.read_text (hdistinct.2 (utf16 "payload", payload) (by simp))
  obtain ⟨h₁, h₂, h₃, h₄, h₅, h₆⟩ := hr
  have hcanonical : canonicalLedgerPayload (ν := ν)
      ⟨n + 1, e.eventType, e.actor, ofJson subject, ofJson payload, e.createdAt.flatMap units⟩ =
        .ok t := hread
  simp [LedgerRow.canonical, LedgerRow.fields, h₁, h₂, h₃, h₄, h₅, h₆, hsubjectRead, hpayloadRead,
    units_scalars good.eventType, units_scalars good.actor, hcanonical, Except.toOption]

/-! ## The root -/

theorem newestAnchor_max {anchors : List LedgerAnchor} {a : LedgerAnchor}
    (h : newestAnchor anchors = some a) : ∀ a' ∈ anchors, a'.anchorSeq ≤ a.anchorSeq := by
  have : Std.Total fun a a' : LedgerAnchor => a'.anchorSeq ≤ a.anchorSeq :=
    ⟨fun a a' => Int.le_total a'.anchorSeq a.anchorSeq⟩
  have : IsTrans LedgerAnchor fun a a' => a'.anchorSeq ≤ a.anchorSeq :=
    ⟨fun _ _ _ h h' => Int.le_trans h' h⟩
  exact (head?_insertionSort h).2

/-- Right above the root, the root is what `verifyLedger` starts from. -/
theorem root_above {db : Ledger} {n : Int} (hn : n = (trustRoot db.anchors).1 + 1)
    (hread : (trustRoot db.anchors).1.natAbs < 2 ^ 53) : db.root n =
    some (trustRoot db.anchors) := by
  have hall : db.anchors.filter (fun a => a.anchorSeq < n) = db.anchors := by
    refine List.filter_eq_self.mpr fun a ha => decide_eq_true ?_
    cases hnewest : newestAnchor db.anchors with
    | none =>
      simp only [newestAnchor, List.head?_eq_none_iff] at hnewest
      have hnil := (List.perm_insertionSort
        (fun a a' : LedgerAnchor => a'.anchorSeq ≤ a.anchorSeq) db.anchors).length_eq
      rw [hnewest] at hnil
      rw [List.length_eq_zero_iff.mp hnil.symm] at ha
      cases ha
    | some newest =>
      have hle := newestAnchor_max hnewest a ha
      simp only [hn, trustRoot, hnewest]
      omega
  rw [Ledger.root, hall]
  cases hnewest : newestAnchor db.anchors with
  | none => simp [trustRoot, hnewest]
  | some newest =>
    have hreadable : newest.anchorSeq.natAbs < 2 ^ 53 := by simpa [trustRoot, hnewest] using hread
    simp only [trustRoot, hnewest, readInteger, if_pos hreadable]
    rfl

/-! ## Runs -/

/-- The table after the events `evs` were accepted. -/
structure Kept (sha256 : Bytes → List Char) (anchors : List LedgerAnchor)
    (evs : List (LedgerEvent ν)) (db : Ledger) : Prop where
  same : db.anchors = anchors
  linked : Linked ν sha256 (trustRoot anchors).1 (trustRoot anchors).2 db.events
  readable : ∀ r ∈ db.events, r.seq.natAbs < 2 ^ 53
  root : db.events ≠ [] → (trustRoot anchors).1.natAbs < 2 ^ 53
  readBack : List.Forall₂ (fun (e : LedgerEvent ν) r =>
    ∃ t, canonicalLedgerPayload (e.fields r.seq) = .ok t ∧ r.canonical ν = some t) evs db.events

variable {anchors : List LedgerAnchor} {evs : List (LedgerEvent ν)} {db : Ledger}

theorem Kept.tip (k : Kept sha256 anchors evs db) {n : Int} {prev : List Char}
    (h : db.tip = some (n, prev)) :
    (n, prev) = endOf (trustRoot anchors).1 (trustRoot anchors).2 db.events ∧
      (trustRoot anchors).1.natAbs < 2 ^ 53 ∧ n.natAbs < 2 ^ 53 := by
  unfold Ledger.tip at h
  rw [k.linked.bySeq_eq] at h
  unfold endOf
  cases hlast : db.events.getLast? with
  | some r =>
    simp only [hlast, readInteger, Option.map_eq_some_iff, Option.ite_none_right_eq_some,
      Option.some.injEq, Prod.mk.injEq] at h
    obtain ⟨_, ⟨hread, rfl⟩, rfl, rfl⟩ := h
    have hne : db.events ≠ [] := fun hnil => by simp [hnil] at hlast
    exact ⟨rfl, k.root hne, hread⟩
  | none =>
    simp only [hlast, k.same] at h
    simp only [trustRoot]
    cases hnewest : newestAnchor anchors with
    | none =>
      simp only [hnewest, Option.some.injEq, Prod.mk.injEq] at h
      obtain ⟨rfl, rfl⟩ := h
      exact ⟨rfl, by decide, by decide⟩
    | some a =>
      simp only [hnewest, readInteger, Option.map_eq_some_iff, Option.ite_none_right_eq_some,
        Option.some.injEq, Prod.mk.injEq] at h
      obtain ⟨_, ⟨hread, rfl⟩, rfl, rfl⟩ := h
      exact ⟨rfl, hread, hread⟩

/-- One accepted append. -/
theorem Kept.append (k : Kept sha256 anchors evs db) {e : LedgerEvent ν} {r : LedgerRow}
    (sound : Sound db e) (h : ledgerRow sha256 db e = some r) :
    Kept sha256 anchors (evs ++ [e]) { db with events := db.events ++ [r] } := by
  obtain ⟨n, prev, subject, payload, t, htip, hsubject, hpayload, ht, rfl⟩ := ledgerRow_some h
  obtain ⟨hend, hroot, hn⟩ := k.tip htip
  have good : Storable (n + 1) e := sound (n, prev) htip (by rw [ht]; rfl)
  have hseq : (n + 1).natAbs < 2 ^ 53 := by
    have hbound := good.seq
    omega
  have hcanonical := appended_canonical hseq hsubject hpayload ht good
    (r := ⟨n + 1, scalars e.eventType, scalars e.actor, subject.text,
    payload.text, e.createdAt, prev,
      computeEntryHash sha256 prev t⟩) ⟨rfl, rfl, rfl, rfl, rfl, rfl⟩
  refine ⟨k.same, linked_append.mpr ⟨k.linked, ?_⟩, ?_, fun _ => hroot, ?_⟩
  · rw [← hend]
    exact ⟨rfl, rfl, ⟨t, hcanonical, rfl⟩, trivial⟩
  · intro r hr
    rcases List.mem_append.mp hr with hr | hr
    · exact k.readable r hr
    · rw [List.mem_singleton.mp hr]
      exact hseq
  · exact List.rel_append k.readBack (.cons ⟨t, ht, hcanonical⟩ .nil)

theorem mapM_readInteger {rows : List LedgerRow} (h : ∀ r ∈ rows, r.seq.natAbs < 2 ^ 53) :
    (rows.mapM fun r => readInteger r.seq) = some (rows.map (·.seq)) := by
  induction rows with
  | nil => rfl
  | cons r rows ih =>
    obtain ⟨hr, hrest⟩ := List.forall_mem_cons.mp h
    rw [List.mapM_cons, ih hrest, readInteger, if_pos hr]
    rfl

/-- What is kept verifies. -/
theorem Kept.verifies (k : Kept sha256 anchors evs db) : LedgerVerifies sha256 anchors evs db := by
  refine ⟨?_, k.linked.numbers, k.readBack⟩
  unfold verifyLedger
  simp only [k.linked.bySeq_eq, mapM_readInteger k.readable, Option.bind_eq_bind, Option.bind_some]
  cases hevents : db.events with
  | nil => rfl
  | cons r rows =>
    have hlinked := k.linked
    rw [hevents] at hlinked
    have hroot : db.root r.seq = some (trustRoot anchors) := by
      rw [← k.same]
      refine root_above ?_ ?_
      · rw [k.same]
        exact hlinked.1
      · rw [k.same]
        exact k.root (by simp [hevents])
    simp only [hroot, Option.bind_some, verifyRows_eq hlinked]
    rfl

theorem kept_run {tr : List (LedgerEvent ν × Except AuditPersistenceFailed Unit)}
    (run : Run (ledgerStep sha256) Sound ⟨[], anchors⟩ tr db) :
    Kept sha256 anchors (accepted tr) db := by
  refine run.invariant_log (P := fun tr db => Kept sha256 anchors (accepted tr) db) ?_ ?_
  · exact ⟨rfl, trivial, by simp, fun h => absurd rfl h, .nil⟩
  · intro tr db e k sound
    unfold ledgerStep ledgerAppend
    cases hrow : ledgerRow sha256 db e with
    | none => simpa [accepted, Except.isOk, Except.toBool] using k
    | some r => simpa [accepted, Except.isOk, Except.toBool] using k.append sound hrow

/-- **Every ledger the program writes verifies**, from an empty table over any anchors, as long as
    the events that have a canonical text are storable. -/
theorem written_ledger_verifies {tr : List (LedgerEvent ν × Except AuditPersistenceFailed Unit)}
    (run : Run (ledgerStep sha256) Sound ⟨[], anchors⟩ tr db) :
    LedgerVerifies sha256 anchors (accepted tr) db :=
  (kept_run run).verifies

/-! Two appends to an empty ledger. -/

/-- SHA-256 of the texts of `known`; of anything else, something that is no digest. -/
def sha256Of (known : List (List Char × String)) (bs : Bytes) : List Char :=
  match known.find? fun k => utf8 k.1 = bs with
  | some k => k.2.toList
  | none => 'x' :: bs.map fun b => Char.ofNat b.toNat

def threadRead : LedgerEvent Int where
  eventType := utf16 "THREAD_READ"
  actor := utf16 "local-operator"
  subject := .obj true [(utf16 "threadId", .str (utf16 "t-1"))]
  payload := .obj true [(utf16 "lastReadThreadSeq", .num 3)]
  createdAt := "2023-11-14T22:13:20.000Z".toList
  subject_proper := ⟨by decide, by simp, trivial, trivial⟩
  payload_proper := ⟨by decide, by simp, trivial, trivial⟩

def threadReadHash : Bytes → List Char := sha256Of
  [(ledgerGenesisHash ++
    ("\x7b\"actor\":\"local-operator\",\"createdAt\":\"2023-11-14T22:13:20.000Z\"," ++
      "\"eventType\":\"THREAD_READ\",\"payload\":\x7b\"lastReadThreadSeq\":3\x7d,\"seq\":1," ++
      "\"subject\":\x7b\"threadId\":\"t-1\"\x7d\x7d").toList,
    "f5962b7bbd510880dc807da119ea3e34f6dc774fddf96f1fe99bdb83a9b482d3")]

theorem thread_read_verifies :
    LedgerVerifies threadReadHash [] [threadRead]
      (ledgerStep threadReadHash ⟨[], []⟩ threadRead).2 ∧
      (ledgerStep threadReadHash ⟨[], []⟩ threadRead).2.events.map (·.entryHash) =
        ["f5962b7bbd510880dc807da119ea3e34f6dc774fddf96f1fe99bdb83a9b482d3".toList] := by
  have hadmitted : Admitted (ledgerStep threadReadHash) Sound ⟨[], []⟩ [threadRead] := by
    decide +kernel
  have hhash : (ledgerStep threadReadHash ⟨[], []⟩ threadRead).2.events.map (·.entryHash) =
      ["f5962b7bbd510880dc807da119ea3e34f6dc774fddf96f1fe99bdb83a9b482d3".toList] := by
    decide +kernel
  have hverifies := written_ledger_verifies (Run.of_runAll [threadRead] hadmitted)
  have haccepted : (ledgerStep threadReadHash ⟨[], []⟩ threadRead).1.isOk = true := by
    decide +kernel
  rw [show accepted (runAll (ledgerStep threadReadHash) ⟨[], []⟩ [threadRead]).1 = [threadRead] by
    simp [accepted, runAll, haccepted]] at hverifies
  exact ⟨hverifies, hhash⟩

def unpairedEvent : LedgerEvent Int where
  eventType := [0xd800]
  actor := utf16 "broker"
  subject := .obj true []
  payload := .obj true []
  createdAt := "2023-11-14T22:13:20.000Z".toList
  subject_proper := ⟨by decide, by simp, trivial⟩
  payload_proper := ⟨by decide, by simp, trivial⟩

def unpairedHash : Bytes → List Char := sha256Of
  [(ledgerGenesisHash ++ ("\x7b\"actor\":\"broker\",\"createdAt\":\"2023-11-14T22:13:20.000Z\"," ++
      "\"eventType\":\"\\ud800\",\"payload\":\x7b\x7d,\"seq\":1,\"subject\":\x7b\x7d\x7d").toList,
    "f9092b2ab3db9a1d5169733e3755b8c44110c4479e33dfcb04dc51a9913cc6fa"),
   (ledgerGenesisHash ++ ("\x7b\"actor\":\"broker\",\"createdAt\":\"2023-11-14T22:13:20.000Z\"," ++
      "\"eventType\":\"\uFFFD\",\"payload\":\x7b\x7d,\"seq\":1,\"subject\":\x7b\x7d\x7d").toList,
    "650d0660c6fa9662b5df5b3267579d9da3c8df0f14475373dbe51ceb57b2d805")]

/-- The event type is hashed with its surrogate escaped, and read back as U+FFFD. -/
theorem unpaired_event_type_breaks :
    verifyLedger Int unpairedHash (ledgerStep unpairedHash ⟨[], []⟩ unpairedEvent).2 =
        some ⟨false, 0, some ⟨1, ledgerGenesisHash, ledgerGenesisHash,
          "650d0660c6fa9662b5df5b3267579d9da3c8df0f14475373dbe51ceb57b2d805".toList,
          "f9092b2ab3db9a1d5169733e3755b8c44110c4479e33dfcb04dc51a9913cc6fa".toList⟩⟩ ∧
      ¬ ∀ (sha256 : Bytes → List Char) (anchors : List LedgerAnchor)
        (tr : List (LedgerEvent Int × Except AuditPersistenceFailed Unit)) (db : Ledger),
        Run (ledgerStep sha256) Any ⟨[], anchors⟩ tr db →
          LedgerVerifies sha256 anchors (accepted tr) db := by
  have hbreak : verifyLedger Int unpairedHash (ledgerStep unpairedHash ⟨[], []⟩ unpairedEvent).2 =
      some ⟨false, 0, some ⟨1, ledgerGenesisHash, ledgerGenesisHash,
        "650d0660c6fa9662b5df5b3267579d9da3c8df0f14475373dbe51ceb57b2d805".toList,
        "f9092b2ab3db9a1d5169733e3755b8c44110c4479e33dfcb04dc51a9913cc6fa".toList⟩⟩ := by
    decide +kernel
  refine ⟨hbreak, fun h => ?_⟩
  have hverified := (h unpairedHash [] _ _ (Run.of_events _ _ [unpairedEvent])).verified
  rw [runAll, runAll, hbreak] at hverified
  cases hverified

end Proof

end XBus
