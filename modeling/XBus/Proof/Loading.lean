import XBus.Collections
import Mathlib.Data.List.Forall2
import Mathlib.Data.List.Perm.Basic

/-!
# Collections that are read back

What `replaceCollections` writes is the payload's collections row by row, and for every agent the
ids it keeps, numbered. **`collections_load_iff`**: a payload that is accepted is what both readers
then answer with, exactly if its ids, states and orders are of the types that the columns give back,
and no agent with a membership has the name of something that every object inherits.
-/

set_option autoImplicit false

namespace XBus
namespace Proof

open Lib
open Lib.Json (orElse)

variable {sql : SqlEnv} {w w' : Workspace} {cs : List Posted} {ms : List (JsString × Posted)}

/-! ## What a payload says -/

/-- A collection as it should be read back. -/
def shown (c : Posted) : CollectionView :=
  { id := (c.member? (utf16 "id")).getD .null
    name := match c.member? (utf16 "name") with
      | some (.str name) => name
      | _ => []
    sortOrder := orderOf c
    state := stateOf c }

/-- The ids an agent keeps: those of collections of the payload, each once, where it first
    stands. -/
def keptIds (cs : List Posted) (value : Posted) : List Posted :=
  (((iterated value).toOption.getD []).filter fun cid => cid ∈ idsOf cs).eraseDups

def keptOf (cs : List Posted) (ms : List (JsString × Posted)) (agent : JsString) :
    List Posted :=
  match ms.find? fun m => m.1 = agent with
  | some m => keptIds cs m.2
  | none => []

/-- The view shows the payload's collections, and for every agent the ids it keeps, in their
    order. -/
structure Loads (cs : List Posted) (ms : List (JsString × Posted)) (v : CollectionsView) :
    Prop where
  collections : v.collections.Perm (cs.map shown)
  members : ∀ agent, groupAt v.members agent = keptOf cs ms agent

/-- What a column of texts gives back. -/
def IsText (v : Posted) : Prop := ∃ s, v = .str s ∧ paired s = true

/-- The orders that a column of whole numbers gives back. -/
def ReadsBack (sql : SqlEnv) : Posted → Prop
  | .num (.int n) => ¬ TooWide n
  | .num (.fraction _) => True
  | .str s => sql.numeral (textOf s) = none ∧ paired s = true
  | _ => False

/-- The types that the columns give back, and no agent named like what every object inherits. -/
structure Storable (sql : SqlEnv) (cs : List Posted) (ms : List (JsString × Posted)) :
    Prop where
  ids : ∀ id ∈ idsOf cs, id = .null ∨ IsText id
  names : ∀ c ∈ cs, paired (shown c).name = true
  states : ∀ c ∈ cs, IsText (stateOf c)
  orders : ∀ c ∈ cs, ReadsBack sql (orderOf c)
  agents : ∀ m ∈ ms, keptIds cs m.2 ≠ [] → m.1 ∉ inheritedNames ∧ paired m.1 = true

/-! ## What is written -/

/-- An id as its column keeps it. -/
def idValue (sql : SqlEnv) (cid : Posted) : SqlValue :=
  match SqlValue.bind (some cid) with
  | .ok v => v.asText sql
  | .error _ => .null

theorem insertCollection_ok {c : Posted} (h : insertCollection sql c w = (.ok (), w')) :
    ∃ r, rowOf sql c = .ok r ∧ w' = { w with collections := w.collections ++ [r] } := by
  simp only [insertCollection, Call.bind_ok, Call.lift_ok, Call.get_ok, Call.require_ok,
    Call.modify_ok] at h
  obtain ⟨r, _, ⟨hr, rfl⟩, _, _, ⟨rfl, rfl⟩, _, _, ⟨-, rfl⟩, _, _, ⟨-, rfl⟩, rfl⟩ := h
  exact ⟨r, hr, rfl⟩

theorem insertCollections_ok (h : insertCollections sql cs w = (.ok (), w')) :
    ∃ rows, List.Forall₂ (fun c r => rowOf sql c = .ok r) cs rows ∧
      w' = { w with collections := w.collections ++ rows } := by
  induction cs generalizing w with
  | nil =>
    simp only [insertCollections, Call.pure_ok] at h
    exact ⟨[], .nil, by simp [← h.2]⟩
  | cons c cs ih =>
    simp only [insertCollections, Call.bind_ok] at h
    obtain ⟨⟨⟩, w₁, hc, hcs⟩ := h
    obtain ⟨r, hr, rfl⟩ := insertCollection_ok hc
    obtain ⟨rows, hrows, rfl⟩ := ih hcs
    exact ⟨r :: rows, .cons hr hrows, by simp⟩

theorem insertMember_ok {cid : Posted} {agent : JsString} {n : Nat}
    (h : insertMember sql cid agent n w = (.ok (), w')) :
    idValue sql cid ≠ .null ∧
      w' = { w with members := w.members ++ [⟨idValue sql cid, textOf agent, n⟩] } := by
  simp only [insertMember, Call.bind_ok, Call.lift_ok, Call.get_ok, Call.require_ok,
    Call.modify_ok] at h
  obtain ⟨v, _, ⟨hv, rfl⟩, _, _, ⟨rfl, rfl⟩, _, _, ⟨hnull, rfl⟩, _, _, ⟨-, rfl⟩, _, _, ⟨-, rfl⟩,
    rfl⟩ := h
  have hid : idValue sql cid = v.asText sql := by rw [idValue, hv]
  rw [hid]
  exact ⟨hnull, rfl⟩

/-- The rows of an agent that keeps these ids, numbered from `n`. -/
def memberRows (sql : SqlEnv) (agent : JsString) (kept : List Posted) (n : Nat) :
    List MemberRow :=
  (kept.zipIdx n).map fun e => ⟨idValue sql e.1, textOf agent, e.2⟩

/-- What the loop still keeps, once it has seen some. -/
def keptFrom (valid seen cids : List Posted) : List Posted :=
  (cids.filter fun cid => cid ∈ valid ∧ cid ∉ seen).eraseDups

theorem keptFrom_dropped {valid seen cids : List Posted} {cid : Posted}
    (h : ¬ (cid ∈ valid ∧ cid ∉ seen)) :
    keptFrom valid seen (cid :: cids) = keptFrom valid seen cids := by
  rw [keptFrom, keptFrom, List.filter_cons_of_neg (by simpa using h)]

theorem keptFrom_kept {valid seen cids : List Posted} {cid : Posted}
    (h : cid ∈ valid ∧ cid ∉ seen) :
    keptFrom valid seen (cid :: cids) = cid :: keptFrom valid (cid :: seen) cids := by
  rw [keptFrom, keptFrom, List.filter_cons_of_pos (by simpa using h), List.eraseDups_cons,
    List.filter_filter]
  -- What is dropped further on as seen is what `eraseDups` drops.
  congr 2
  refine List.filter_congr fun id _ => ?_
  by_cases heq : id = cid
  · simp [heq]
  · simp [heq]

theorem insertMemberships_ok {valid cids seen : List Posted} {agent : JsString} {n : Nat}
    (h : insertMemberships sql valid agent cids seen n w = (.ok (), w')) :
    (∀ cid ∈ cids, cid ∈ valid → cid ∉ seen → idValue sql cid ≠ .null) ∧
      w' = { w with
        members := w.members ++ memberRows sql agent (keptFrom valid seen cids) n } := by
  induction cids generalizing w seen n with
  | nil =>
    simp only [insertMemberships, Call.pure_ok] at h
    exact ⟨fun cid hcid => absurd hcid List.not_mem_nil, by simp [← h.2, memberRows, keptFrom]⟩
  | cons cid cids ih =>
    unfold insertMemberships at h
    split at h
    · next hdrop =>
      obtain ⟨hnull, rfl⟩ := ih h
      have hfalse : ¬ (cid ∈ valid ∧ cid ∉ seen) := by tauto
      refine ⟨fun id hid => ?_, by rw [keptFrom_dropped hfalse]⟩
      rcases List.mem_cons.mp hid with rfl | hid
      · exact fun hvalid hseen => absurd ⟨hvalid, hseen⟩ hfalse
      · exact hnull id hid
    · next hkeep =>
      have htrue : cid ∈ valid ∧ cid ∉ seen := by tauto
      simp only [Call.bind_ok] at h
      obtain ⟨⟨⟩, w₁, hcid, hcids⟩ := h
      obtain ⟨hhead, rfl⟩ := insertMember_ok hcid
      obtain ⟨hnull, rfl⟩ := ih hcids
      refine ⟨fun id hid hvalid hseen => ?_, ?_⟩
      · by_cases heq : id = cid
        · rwa [heq]
        · refine hnull id ((List.mem_cons.mp hid).resolve_left heq) hvalid ?_
          simp [heq, hseen]
      · rw [keptFrom_kept htrue]
        simp [memberRows]

/-- The rows of one entry of the payload. -/
def entryRows (sql : SqlEnv) (cs : List Posted) (m : JsString × Posted) : List MemberRow :=
  memberRows sql m.1 (keptIds cs m.2) 0

theorem insertMembers_ok (h : insertMembers sql (idsOf cs) ms w = (.ok (), w')) :
    (∀ m ∈ ms, ∀ cid ∈ keptIds cs m.2, idValue sql cid ≠ .null) ∧
      w' = { w with members := w.members ++ ms.flatMap (entryRows sql cs) } := by
  induction ms generalizing w with
  | nil =>
    simp only [insertMembers, Call.pure_ok] at h
    exact ⟨fun m hm => absurd hm List.not_mem_nil, by simp [← h.2]⟩
  | cons m ms ih =>
    obtain ⟨agent, value⟩ := m
    simp only [insertMembers, Call.bind_ok, Call.lift_ok] at h
    obtain ⟨cids, _, ⟨hcids, rfl⟩, ⟨⟩, w₁, hagent, hms⟩ := h
    obtain ⟨hnull, rfl⟩ := insertMemberships_ok hagent
    obtain ⟨hrest, rfl⟩ := ih hms
    have hkept : keptIds cs value = keptFrom (idsOf cs) [] cids := by
      simp [keptIds, keptFrom, hcids, Except.toOption]
    refine ⟨fun m' hm' cid hcid => ?_, by simp [entryRows, hkept]⟩
    rcases List.mem_cons.mp hm' with rfl | hm'
    · rw [hkept, keptFrom, List.mem_eraseDups, List.mem_filter, decide_eq_true_eq] at hcid
      exact hnull cid hcid.1 hcid.2.1 hcid.2.2
    · exact hrest m' hm' cid hcid

/-- What an accepted payload leaves in the two tables. -/
structure Replaced (sql : SqlEnv) (cs : List Posted) (ms : List (JsString × Posted))
    (w' : Workspace) : Prop where
  collections : List.Forall₂ (fun c r => rowOf sql c = .ok r) cs w'.collections
  members : w'.members = ms.flatMap (entryRows sql cs)
  ids : ∀ m ∈ ms, ∀ cid ∈ keptIds cs m.2, idValue sql cid ≠ .null

theorem replaceCollections_ok {n : Nat} (h : replaceCollections sql cs ms w = (.ok n, w')) :
    Replaced sql cs ms w' ∧ w'.broker = w.broker ∧ n = w'.version := by
  simp only [replaceCollections, Call.transaction_ok, Call.bind_ok, Call.lift_ok, Call.modify_bind,
    Call.get_bind, Call.pure_ok] at h
  obtain ⟨⟨⟩, _, ⟨-, rfl⟩, ⟨⟩, w₁, hcs, ⟨⟩, w₂, hms, rfl, rfl⟩ := h
  obtain ⟨rows, hrows, rfl⟩ := insertCollections_ok hcs
  obtain ⟨hids, rfl⟩ := insertMembers_ok hms
  exact ⟨⟨hrows, rfl, hids⟩, rfl, rfl⟩

/-! ## What is read -/

theorem mem_memberRows {agent : JsString} {kept : List Posted} {n : Nat} {r : MemberRow}
    (h : r ∈ memberRows sql agent kept n) :
    r.logicalAgentId = textOf agent ∧ n ≤ r.sortOrder ∧
      ∃ cid ∈ kept, r.collectionId = idValue sql cid := by
  obtain ⟨⟨cid, i⟩, he, rfl⟩ := List.mem_map.mp h
  exact ⟨rfl, List.le_snd_of_mem_zipIdx he, cid, List.fst_mem_of_mem_zipIdx he, rfl⟩

theorem memberRows_increasing (agent : JsString) (kept : List Posted) (n : Nat) :
    (memberRows sql agent kept n).Pairwise fun r r' => r.sortOrder < r'.sortOrder := by
  induction kept generalizing n with
  | nil => exact .nil
  | cons cid kept ih =>
    refine List.pairwise_cons.mpr ⟨fun r hr => ?_, ih (n + 1)⟩
    exact (mem_memberRows hr).2.1

theorem keptOf_entry (hkeys : (ms.map Prod.fst).Nodup) {m : JsString × Posted} (hm : m ∈ ms) :
    keptOf cs ms m.1 = keptIds cs m.2 := by
  have hsome : (ms.find? fun m' => m'.1 = m.1).isSome := by
    rw [List.find?_isSome]
    exact ⟨m, hm, decide_eq_true rfl⟩
  obtain ⟨m', hfind⟩ := Option.isSome_iff_exists.mp hsome
  have hkey : m'.1 = m.1 := by simpa using List.find?_some hfind
  have hsame : m' = m := List.inj_on_of_nodup_map hkeys (List.mem_of_find?_eq_some hfind) hm hkey
  simp only [keptOf, hfind, hsame]

/-- The agents with memberships are read as they were given. -/
def AgentsKept (cs : List Posted) (ms : List (JsString × Posted)) : Prop :=
  ∀ m ∈ ms, keptIds cs m.2 ≠ [] → paired m.1 = true

theorem filter_entries (hkeys : (ms.map Prod.fst).Nodup) (hagents : AgentsKept cs ms)
    (agent : JsString) :
    (ms.flatMap (entryRows sql cs)).filter (fun r => utf16 r.logicalAgentId = agent) =
      memberRows sql agent (keptOf cs ms agent) 0 := by
  induction ms with
  | nil => rfl
  | cons m ms ih =>
    rw [List.map_cons, List.nodup_cons] at hkeys
    obtain ⟨hpaired, hrest⟩ := List.forall_mem_cons.mp hagents
    rw [List.flatMap_cons, List.filter_append, ih hkeys.2 hrest]
    -- an agent that keeps nothing has no rows, and another is read as it was given
    have hread : ∀ r ∈ entryRows sql cs m, utf16 r.logicalAgentId = m.1 := by
      intro r hr
      have hkept : keptIds cs m.2 ≠ [] := by
        intro hnone
        simp [entryRows, hnone, memberRows] at hr
      rw [(mem_memberRows hr).1, utf16_textOf (hpaired hkept)]
    by_cases hm : m.1 = agent
    · have hnone : keptOf cs ms agent = [] := by
        unfold keptOf
        rw [List.find?_eq_none.mpr]
        intro m' hm' hagent
        refine hkeys.1 (List.mem_map.mpr ⟨m', hm', ?_⟩)
        exact (of_decide_eq_true hagent).trans hm.symm
      have hhead : keptOf cs (m :: ms) agent = keptIds cs m.2 := by simp [keptOf, hm]
      have hall : (entryRows sql cs m).filter (fun r => utf16 r.logicalAgentId = agent) =
          entryRows sql cs m :=
        List.filter_eq_self.mpr fun r hr => decide_eq_true ((hread r hr).trans hm)
      rw [hnone, hhead, hall, entryRows, hm]
      exact List.append_nil _
    · have hhead : keptOf cs (m :: ms) agent = keptOf cs ms agent := by simp [keptOf, hm]
      have hnone : (entryRows sql cs m).filter (fun r => utf16 r.logicalAgentId = agent) = [] := by
        refine List.filter_eq_nil_iff.mpr fun r hr hagent => hm ?_
        exact (hread r hr).symm.trans (of_decide_eq_true hagent)
      rw [hhead, hnone]
      rfl

/-- Sorted by their numbers, an agent's rows stand as they were inserted. -/
theorem sorted_of_agent (h : Replaced sql cs ms w') (hkeys : (ms.map Prod.fst).Nodup)
    (hagents : AgentsKept cs ms) (agent : JsString) :
    w'.sortedMembers.filter (fun r => utf16 r.logicalAgentId = agent) =
      memberRows sql agent (keptOf cs ms agent) 0 := by
  rw [← filter_entries hkeys hagents agent, ← h.members]
  refine filter_eq_of_sorted MemberRow.sortOrder (List.perm_insertionSort _ _)
    (List.pairwise_insertionSort _ _) ?_
  rw [h.members, filter_entries hkeys hagents]
  exact memberRows_increasing agent _ 0

theorem groupMembers_ok {groups groups' : List (JsString × List Posted)}
    {rows : List (JsString × Posted)} (h : groupMembers groups rows = .ok groups') :
    (∀ r ∈ rows, r.1 ∉ inheritedNames) ∧ ∀ agent, groupAt groups' agent =
      groupAt groups agent ++ (rows.filter fun r => r.1 = agent).map Prod.snd := by
  induction rows generalizing groups with
  | nil =>
    obtain rfl := Except.ok.inj h
    exact ⟨fun r hr => absurd hr List.not_mem_nil, fun agent => by simp⟩
  | cons r rows ih =>
    obtain ⟨groups₁, hpush, hrest⟩ := exceptBind_ok.mp h
    unfold pushMember at hpush
    split at hpush
    · cases hpush
    · next hown =>
      obtain rfl := Except.ok.inj hpush
      obtain ⟨hnames, hgroups⟩ := ih hrest
      refine ⟨fun r' hr' => ?_, fun agent => ?_⟩
      · rcases List.mem_cons.mp hr' with rfl | hr'
        · exact hown
        · exact hnames r' hr'
      · rw [hgroups, groupAt_pushAt]
        by_cases hr : r.1 = agent
        · simp [hr]
        · simp [hr, Ne.symm hr]

theorem groupMembers_answers {rows : List (JsString × Posted)}
    (h : ∀ r ∈ rows, r.1 ∉ inheritedNames) (groups : List (JsString × List Posted)) :
    ∃ groups', groupMembers groups rows = .ok groups' := by
  induction rows generalizing groups with
  | nil => exact ⟨groups, rfl⟩
  | cons r rows ih =>
    have hown : pushMember groups r.1 r.2 = .ok (pushAt groups r.1 r.2) :=
      if_neg (h r List.mem_cons_self)
    obtain ⟨groups', hrest⟩ := ih (fun r' hr' => h r' (List.mem_cons_of_mem r hr'))
      (pushAt groups r.1 r.2)
    exact ⟨groups', exceptBind_ok.mpr ⟨_, hown, hrest⟩⟩

/-! ## From a column and back -/

section Columns

variable {j : Posted} {v : SqlValue}

/-- A column of texts gives back nulls and texts, and those that it was given unchanged. -/
theorem asText_toJs (sql : SqlEnv) (h : SqlValue.bind (some j) = .ok v) :
    ∃ j', (v.asText sql).toJs = .ok j' ∧ (j' = .null ∧ j = .null ∨ IsText j') ∧
      ((j = .null ∨ IsText j) → j' = j) := by
  cases j with
  | null =>
    obtain rfl := Except.ok.inj h
    exact ⟨.null, rfl, .inl ⟨rfl, rfl⟩, fun _ => rfl⟩
  | str s =>
    obtain rfl := Except.ok.inj h
    refine ⟨.str (utf16 (textOf s)), rfl, .inr ⟨_, rfl, paired_utf16 _⟩, ?_⟩
    rintro (hnull | ⟨s', heq, hpaired⟩)
    · cases hnull
    · cases heq
      rw [utf16_textOf hpaired]
  | num n =>
    obtain rfl := Except.ok.inj h
    refine ⟨.str _, rfl, .inr ⟨_, rfl, paired_utf16 _⟩, ?_⟩
    rintro (h | ⟨s, h, -⟩) <;> cases h
  | bool b => cases h
  | arr items => cases h
  | obj members => cases h

/-- A column of whole numbers gives back what `ReadsBack` says, -/
theorem asInteger_toJs (h : SqlValue.bind (some j) = .ok v) (hj : ReadsBack sql j) :
    (v.asInteger sql).toJs = .ok j := by
  cases j with
  | null => exact absurd hj id
  | str s =>
    obtain rfl := Except.ok.inj h
    obtain ⟨hnumeral, hpaired⟩ := hj
    simp only [SqlValue.asInteger, hnumeral, SqlValue.toJs, utf16_textOf hpaired]
  | num n =>
    obtain rfl := Except.ok.inj h
    cases n with
    | int n => exact if_neg hj
    | fraction numeral => rfl
  | bool b => cases h
  | arr items => cases h
  | obj members => cases h

/-- and nothing else. -/
theorem readsBack_of_toJs {j' : Posted} (h : SqlValue.bind (some j) = .ok v) (hj : j ≠ .null)
    (hread : (v.asInteger sql).toJs = .ok j') : ReadsBack sql j' := by
  have hnumber : ∀ n : SqlNumber, (SqlValue.number n).toJs = .ok j' → ReadsBack sql j' := by
    rintro (n | numeral) hn
    · simp only [SqlValue.toJs] at hn
      split at hn
      · cases hn
      · next hfits =>
        obtain rfl := Except.ok.inj hn
        exact hfits
    · obtain rfl := Except.ok.inj hn
      exact trivial
  cases j with
  | null => exact absurd rfl hj
  | str s =>
    obtain rfl := Except.ok.inj h
    cases hs : sql.numeral (textOf s) with
    | none =>
      simp only [SqlValue.asInteger, hs] at hread
      obtain rfl := Except.ok.inj hread
      refine ⟨?_, paired_utf16 _⟩
      rw [textOf_utf16, hs]
    | some n =>
      simp only [SqlValue.asInteger, hs] at hread
      exact hnumber n hread
  | num n =>
    obtain rfl := Except.ok.inj h
    exact hnumber n hread
  | bool b => cases h
  | arr items => cases h
  | obj members => cases h

end Columns

theorem orElse_ne_null {v : Option Posted} {other : Posted} (h : other ≠ .null) :
    orElse v other ≠ .null := by
  rcases v with _ | v
  · exact h
  · cases v with
    | null => exact h
    | _ => exact fun heq => by cases heq

theorem rowOf_ok {c : Posted} {r : CollectionRow} (h : rowOf sql c = .ok r) :
    ∃ id vid vorder vstate, c.member? (utf16 "id") = some id ∧ SqlValue.bind (some id) = .ok vid ∧
      SqlValue.bind (some (orderOf c)) = .ok vorder ∧
      SqlValue.bind (some (stateOf c)) = .ok vstate ∧
      r.collectionId = vid.asText sql ∧ r.name = textOf (shown c).name ∧
      r.sortOrder = vorder.asInteger sql ∧ r.state = vstate.asText sql := by
  simp only [rowOf, exceptBind_ok, exceptPure_ok] at h
  obtain ⟨name, hname, vid, hid, vorder, horder, vstate, hstate, rfl⟩ := h
  have hshown : name = (shown c).name := by
    simp only [nameOf] at hname
    split at hname
    · next s hs =>
      obtain rfl := Except.ok.inj hname
      simp [shown, hs]
    · cases hname
  cases hfield : c.member? (utf16 "id") with
  | none =>
    rw [hfield] at hid
    cases hid
  | some id =>
    rw [hfield] at hid
    exact ⟨id, vid, vorder, vstate, rfl, hid, horder, hstate, rfl, by rw [hshown], rfl, rfl⟩

/-- A collection of the right types is read as it was given. -/
theorem view_of_row {c : Posted} {r : CollectionRow} (h : rowOf sql c = .ok r)
    (hid : (shown c).id = .null ∨ IsText (shown c).id) (hpaired : paired (shown c).name = true)
    (hstate : IsText (stateOf c)) (horder : ReadsBack sql (orderOf c)) :
    r.view = .ok (shown c) := by
  obtain ⟨id, vid, vorder, vstate, hfield, hvid, hvorder, hvstate, hrid, hname, hrorder, hrstate⟩ :=
    rowOf_ok h
  rw [shown, hfield, Option.getD_some] at hid
  obtain ⟨id', hreadId, -, hsameId⟩ := asText_toJs sql hvid
  obtain ⟨state', hreadState, -, hsameState⟩ := asText_toJs sql hvstate
  rw [hsameId hid] at hreadId
  rw [hsameState (.inr hstate)] at hreadState
  refine exceptBind_ok.mpr ⟨id, hrid ▸ hreadId, exceptBind_ok.mpr ⟨orderOf c, ?_,
    exceptBind_ok.mpr ⟨stateOf c, hrstate ▸ hreadState, ?_⟩⟩⟩
  · rw [hrorder]
    exact asInteger_toJs hvorder horder
  · rw [hname, utf16_textOf hpaired]
    simp [shown, hfield, exceptPure_ok]

/-- What is read of a collection is of the types that the columns give back. -/
theorem readable_of_view {c : Posted} {r : CollectionRow} {x : CollectionView}
    (h : rowOf sql c = .ok r) (hx : r.view = .ok x) :
    (x.id = .null ∨ IsText x.id) ∧ paired x.name = true ∧ IsText x.state ∧
      ReadsBack sql x.sortOrder := by
  obtain ⟨id, vid, vorder, vstate, -, hvid, hvorder, hvstate, hrid, -, hrorder, hrstate⟩ :=
    rowOf_ok h
  simp only [CollectionRow.view, exceptBind_ok, exceptPure_ok] at hx
  obtain ⟨id', hid', order', horder', state', hstate', rfl⟩ := hx
  refine ⟨?_, paired_utf16 _, ?_, ?_⟩
  · obtain ⟨id'', hread, hkind, -⟩ := asText_toJs sql hvid
    rw [hrid, hread] at hid'
    obtain rfl := Except.ok.inj hid'
    exact hkind.imp And.left (fun h => h)
  · obtain ⟨state'', hread, hkind, -⟩ := asText_toJs sql hvstate
    rw [hrstate, hread] at hstate'
    obtain rfl := Except.ok.inj hstate'
    refine hkind.resolve_left fun hnull => ?_
    exact orElse_ne_null (by simp) hnull.2
  · rw [hrorder] at horder'
    exact readsBack_of_toJs hvorder (orElse_ne_null (by simp)) horder'

/-- The ids of members are read as texts. -/
theorem member_view {m : JsString × Posted} {r : MemberRow} (hr : r ∈ entryRows sql cs m) :
    ∃ cid, r.view = .ok (utf16 (textOf m.1), cid) := by
  obtain ⟨hagent, -, cid, -, hcid⟩ := mem_memberRows hr
  have hread : ∃ j, (idValue sql cid).toJs = .ok j := by
    unfold idValue
    cases hbind : SqlValue.bind (some cid) with
    | error e => exact ⟨.null, rfl⟩
    | ok v =>
      obtain ⟨j, hj, -⟩ := asText_toJs sql hbind
      exact ⟨j, hj⟩
  obtain ⟨j, hj⟩ := hread
  refine ⟨j, exceptBind_ok.mpr ⟨j, hcid ▸ hj, ?_⟩⟩
  rw [hagent]
  rfl

/-! ## The round trip -/

/-- What the two readers answer with after a payload was accepted. -/
structure ReadsLoad (sql : SqlEnv) (cs : List Posted) (ms : List (JsString × Posted))
    (w' : Workspace) : Prop where
  store : ∃ v, w'.readCollections sql = .ok v ∧ Loads cs ms v
  dashboard : ∃ v, w'.dashboardCollections sql = .ok v ∧ Loads cs ms v

theorem mem_members (h : Replaced sql cs ms w') {r : MemberRow} :
    r ∈ w'.sortedMembers ↔ ∃ m ∈ ms, r ∈ entryRows sql cs m := by
  rw [Workspace.sortedMembers, List.mem_insertionSort, h.members, List.mem_flatMap]

theorem members_view (h : Replaced sql cs ms w') :
    ∃ rows, w'.sortedMembers.mapM MemberRow.view = .ok rows := by
  refine ⟨w'.sortedMembers.map fun r =>
    (r.view.toOption.getD ([], .null)), mapM_ok_map fun r hr => ?_⟩
  obtain ⟨m, -, hm⟩ := (mem_members h).mp hr
  obtain ⟨cid, hview⟩ := member_view hm
  rw [hview]
  rfl

theorem filter_views {rs : List MemberRow} {rows : List (JsString × Posted)}
    (h : List.Forall₂ (fun r x => MemberRow.view r = .ok x) rs rows) (agent : JsString) :
    List.Forall₂ (fun r cid => r.collectionId.toJs = .ok cid)
      (rs.filter fun r => utf16 r.logicalAgentId = agent)
      ((rows.filter fun x => x.1 = agent).map Prod.snd) := by
  induction h with
  | nil => exact .nil
  | @cons r x rs rows hview _ ih =>
    simp only [MemberRow.view, exceptBind_ok, exceptPure_ok] at hview
    obtain ⟨cid, hcid, rfl⟩ := hview
    rw [List.filter_cons, List.filter_cons]
    by_cases hagent : utf16 r.logicalAgentId = agent
    · simp only [hagent, decide_true, if_true]
      exact .cons hcid ih
    · simp only [hagent, decide_false, Bool.false_eq_true, if_false]
      exact ih

theorem memberRows_views {agent : JsString} {kept ids : List Posted} {n : Nat}
    (hids : ∀ cid ∈ kept, (idValue sql cid).toJs = .ok cid)
    (h : List.Forall₂ (fun r cid => r.collectionId.toJs = .ok cid)
      (memberRows sql agent kept n) ids) : ids = kept := by
  induction kept generalizing n ids with
  | nil =>
    cases h
    rfl
  | cons cid kept ih =>
    rcases h with _ | ⟨hhead, htail⟩
    rw [ih (fun id hid => hids id (List.mem_cons_of_mem cid hid)) htail]
    exact congrArg (· :: kept) (Except.ok.inj (hhead.symm.trans (hids cid List.mem_cons_self)))

/-- Ids that are texts are read as they were given. -/
theorem members_view_of_ids (h : Replaced sql cs ms w')
    (hs : Storable sql cs ms) {rows : List (JsString × Posted)}
    (hrows : w'.sortedMembers.mapM MemberRow.view = .ok rows) (hkeys : (ms.map Prod.fst).Nodup)
    (agent : JsString) :
    (rows.filter fun r => r.1 = agent).map Prod.snd = keptOf cs ms agent := by
  have hviews := filter_views (mapM_ok.mp hrows) agent
  rw [sorted_of_agent h hkeys fun m hm hkept => (hs.agents m hm hkept).2] at hviews
  refine memberRows_views (fun cid hcid => ?_) hviews
  unfold keptOf at hcid
  split at hcid
  · next m hm =>
    have hkept : cid ∈ idsOf cs := by
      rw [keptIds, List.mem_eraseDups, List.mem_filter, decide_eq_true_eq] at hcid
      exact hcid.2
    rcases hs.ids cid hkept with rfl | ⟨s, rfl, hpaired⟩
    · exact absurd rfl (h.ids m (List.mem_of_find?_eq_some hm) .null hcid)
    · exact congrArg (fun s => Except.ok (Json.str s)) (utf16_textOf hpaired)
  · exact absurd hcid List.not_mem_nil

theorem collections_view (h : Replaced sql cs ms w') (hs : Storable sql cs ms) :
    ∃ cols, (w'.sortedCollections sql).mapM CollectionRow.view = .ok cols ∧
      cols.Perm (cs.map shown) := by
  have hviews : List.Forall₂ (fun r x => CollectionRow.view r = .ok x) w'.collections
      (cs.map shown) := by
    rw [List.forall₂_map_right_iff]
    have hmem : List.Forall₂ (fun c r => c ∈ cs ∧ rowOf sql c = .ok r) cs w'.collections :=
      (List.forall₂_and_left _ _).mpr ⟨fun c hc => hc, h.collections⟩
    refine (hmem.imp fun c r hcr => ?_).flip
    obtain ⟨hc, hr⟩ := hcr
    exact view_of_row hr (hs.ids _ (List.mem_map_of_mem hc)) (hs.names c hc) (hs.states c hc)
      (hs.orders c hc)
  have hsort : (w'.sortedCollections sql).Perm w'.collections := List.perm_insertionSort _ _
  obtain ⟨cols, hcols, hperm⟩ := List.perm_comp_forall₂ hsort hviews
  exact ⟨cols, mapM_ok.mpr hcols, hperm⟩

theorem readsLoad_of_storable (h : Replaced sql cs ms w') (hkeys : (ms.map Prod.fst).Nodup)
    (hs : Storable sql cs ms) : ReadsLoad sql cs ms w' := by
  obtain ⟨cols, hcols, hperm⟩ := collections_view h hs
  obtain ⟨rows, hrows⟩ := members_view h
  have hnames : ∀ x ∈ rows, x.1 ∉ inheritedNames := by
    intro x hx
    obtain ⟨r, hr, hview⟩ := exists_of_mapM hrows hx
    obtain ⟨m, hm, hmember⟩ := (mem_members h).mp hr
    obtain ⟨cid, hcid⟩ := member_view hmember
    obtain rfl := Except.ok.inj (hview.symm.trans hcid)
    obtain ⟨hname, hpaired⟩ := hs.agents m hm fun hnone => by
      simp [entryRows, hnone, memberRows] at hmember
    rwa [utf16_textOf hpaired]
  obtain ⟨groups, hgroups⟩ := groupMembers_answers hnames []
  have hqueries : w'.collectionRows sql = .ok (cols, rows) :=
    exceptBind_ok.mpr ⟨cols, hcols, exceptBind_ok.mpr ⟨rows, hrows, rfl⟩⟩
  have hgrouped : Workspace.grouped cols rows =
      .ok { version := cols.length + rows.length + 1, collections := cols, members := groups } :=
    exceptBind_ok.mpr ⟨groups, hgroups, rfl⟩
  have hloads : Loads cs ms
      { version := cols.length + rows.length + 1, collections := cols, members := groups } := by
    refine ⟨hperm, fun agent => ?_⟩
    rw [(groupMembers_ok hgroups).2 agent]
    exact members_view_of_ids h hs hrows hkeys agent
  refine ⟨⟨_, exceptBind_ok.mpr ⟨_, hqueries, hgrouped⟩, hloads⟩, ⟨_, ?_, hloads⟩⟩
  rw [Workspace.dashboardCollections, hqueries]
  exact hgrouped

theorem storable_of_reads (h : Replaced sql cs ms w') (hkeys : (ms.map Prod.fst).Nodup)
    {v : CollectionsView} (hread : w'.readCollections sql = .ok v) (hloads : Loads cs ms v) :
    Storable sql cs ms := by
  simp only [Workspace.readCollections, Workspace.collectionRows, Workspace.grouped, exceptBind_ok,
    exceptPure_ok] at hread
  obtain ⟨_, ⟨cols, hcols, rows, hrows, rfl⟩, groups, hgroups, rfl⟩ := hread
  -- What is shown of a collection was read of some row, if not of its own.
  have hshown : ∀ c ∈ cs, ((shown c).id = .null ∨ IsText (shown c).id) ∧
      paired (shown c).name = true ∧ IsText (shown c).state ∧
      ReadsBack sql (shown c).sortOrder := by
    intro c hc
    have hmem : shown c ∈ cols := hloads.collections.mem_iff.mpr (List.mem_map_of_mem hc)
    obtain ⟨r, hr, hview⟩ := exists_of_mapM hcols hmem
    rw [Workspace.sortedCollections, List.mem_insertionSort] at hr
    obtain ⟨i, hi, rfl⟩ := List.getElem_of_mem hr
    have hrow := h.collections.get (h.collections.length_eq ▸ hi) hi
    exact readable_of_view hrow hview
  refine ⟨fun id hid => ?_, fun c hc => (hshown c hc).2.1, fun c hc => (hshown c hc).2.2.1,
    fun c hc => (hshown c hc).2.2.2, ?_⟩
  · obtain ⟨c, hc, rfl⟩ := List.mem_map.mp hid
    exact (hshown c hc).1
  · intro m hm hkept
    obtain ⟨cid, kept, hcons⟩ := List.exists_cons_of_ne_nil hkept
    have hrow : (⟨idValue sql cid, textOf m.1, 0⟩ : MemberRow) ∈ entryRows sql cs m := by
      simp [entryRows, hcons, memberRows]
    obtain ⟨i, hi, hget⟩ := List.getElem_of_mem ((mem_members h).mpr ⟨m, hm, hrow⟩)
    have hreads := mapM_ok.mp hrows
    have hview := hreads.get hi (hreads.length_eq ▸ hi)
    obtain ⟨id, hid⟩ := member_view hrow
    simp only [List.get_eq_getElem, hget] at hview
    have hx := Except.ok.inj (hid.symm.trans hview)
    have hown := (groupMembers_ok hgroups).1 _ (List.get_mem rows ⟨i, hreads.length_eq ▸ hi⟩)
    rw [List.get_eq_getElem, ← hx] at hown
    -- what is shown under the agent is a membership that was read
    have hagent : paired m.1 = true := by
      have hgroup := hloads.members m.1
      rw [(groupMembers_ok hgroups).2, keptOf_entry hkeys hm, hcons] at hgroup
      have hne : rows.filter (fun r => r.1 = m.1) ≠ [] := fun hnil => by
        rw [hnil] at hgroup
        cases hgroup
      obtain ⟨x, hx⟩ := List.exists_mem_of_ne_nil _ hne
      obtain ⟨hmem, hkey⟩ := List.mem_filter.mp hx
      obtain ⟨r, -, hview⟩ := exists_of_mapM hrows hmem
      simp only [MemberRow.view, exceptBind_ok, exceptPure_ok] at hview
      obtain ⟨_, -, rfl⟩ := hview
      rw [← of_decide_eq_true hkey]
      exact paired_utf16 _
    exact ⟨by rwa [utf16_textOf hagent] at hown, hagent⟩

/-- **Collections store and load**: a payload that is refused changes nothing, and one that is
accepted changes no other table and is read back exactly if it is `Storable`. -/
theorem collections_load_iff (raw : Posted)
    (hkeys : ((memberEntries raw).map Prod.fst).Nodup) :
    (∀ e w', operatorReplaceCollections sql raw w = (.error e, w') → w' = w) ∧
      ∀ n w', operatorReplaceCollections sql raw w = (.ok n, w') → w'.broker = w.broker ∧
        (ReadsLoad sql (collectionsOf raw) (memberEntries raw) w' ↔
          Storable sql (collectionsOf raw) (memberEntries raw)) := by
  refine ⟨fun e w' h => Call.transaction_error h, fun n w' h => ?_⟩
  obtain ⟨hreplaced, hbroker, -⟩ := replaceCollections_ok h
  refine ⟨hbroker, fun hload => ?_, readsLoad_of_storable hreplaced hkeys⟩
  obtain ⟨v, hread, hloads⟩ := hload.store
  exact storable_of_reads hreplaced hkeys hread hloads

/-! ## An agent called `constructor` -/

def plainSql : SqlEnv :=
  { toLowerCase := fun s => s.map fun u => if 65 ≤ u ∧ u ≤ 90 then u + 32 else u
    rendered := fun _ => "0.0", numeral := fun _ => none, value := fun _ => 0 }

def freshWorkspace : Workspace := { broker := {}, collections := [], members := [], ledger := [] }

/-- One collection, and one agent in it. -/
def oneMember (agent : String) : Posted :=
  .obj [(utf16 "collections", .arr [.obj [(utf16 "id", .str (utf16 "c1")),
      (utf16 "name", .str (utf16 "Team"))]]),
    (utf16 "members", .obj [(utf16 agent, .arr [.str (utf16 "c1")])])]

def workspaceAfter (agent : String) : Workspace :=
  (operatorReplaceCollections plainSql (oneMember agent) freshWorkspace).2

/-- The payload is accepted, and then neither reader answers. -/
theorem constructor_not_read :
    (operatorReplaceCollections plainSql (oneMember "constructor") freshWorkspace).1 = .ok 3 ∧
      (workspaceAfter "constructor").readCollections plainSql = .error .type ∧
      (workspaceAfter "constructor").dashboardCollections plainSql = .error .type ∧
      ¬ ReadsLoad plainSql (collectionsOf (oneMember "constructor"))
        (memberEntries (oneMember "constructor")) (workspaceAfter "constructor") := by
  have hstore : (workspaceAfter "constructor").readCollections plainSql = .error .type := by
    decide +kernel
  refine ⟨by decide +kernel, hstore, by decide +kernel, fun hload => ?_⟩
  obtain ⟨v, hv, -⟩ := hload.store
  cases hstore.symm.trans hv

/-- Of another name, it is read back. -/
theorem member_read :
    ReadsLoad plainSql (collectionsOf (oneMember "agent-1")) (memberEntries (oneMember "agent-1"))
      (workspaceAfter "agent-1") := by
  have hone : operatorReplaceCollections plainSql (oneMember "agent-1") freshWorkspace =
      (.ok 3, workspaceAfter "agent-1") := by
    refine Prod.ext ?_ rfl
    decide +kernel
  have hids : idsOf (collectionsOf (oneMember "agent-1")) = [.str (utf16 "c1")] := by decide +kernel
  have hstates : (collectionsOf (oneMember "agent-1")).map stateOf =
      [.str (utf16 "active")] := by
    decide +kernel
  have hnames : (collectionsOf (oneMember "agent-1")).map (fun c => paired (shown c).name) =
      [true] := by
    decide +kernel
  have horders : (collectionsOf (oneMember "agent-1")).map orderOf =
      [.num (.int 0)] := by
    decide +kernel
  -- The one collection has an id, a name, a state and an order that come back.
  refine ((collections_load_iff (oneMember "agent-1") (by decide)).2 3 _ hone).2.mpr
    ⟨?_, ?_, ?_, ?_, ?_⟩
  · intro id hid
    rw [hids, List.mem_singleton] at hid
    exact .inr ⟨utf16 "c1", hid, paired_utf16 _⟩
  · intro c hc
    have hname := List.mem_map_of_mem (f := fun c => paired (shown c).name) hc
    rwa [hnames, List.mem_singleton] at hname
  · intro c hc
    have hstate := List.mem_map_of_mem (f := stateOf) hc
    rw [hstates, List.mem_singleton] at hstate
    exact ⟨utf16 "active", hstate, paired_utf16 _⟩
  · intro c hc
    have horder := List.mem_map_of_mem (f := orderOf) hc
    rw [horders, List.mem_singleton] at horder
    rw [horder]
    show ¬ TooWide 0
    decide
  · decide +kernel

end Proof
end XBus
