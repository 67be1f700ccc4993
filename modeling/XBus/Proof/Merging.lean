import XBus.Proof.AllOrNothing

/-!
# What merge and strip do to a value

Both go over the groups of an event with the same two steps, a filter on the handlers and one on the
groups. `Throws` says of each step where it throws and what it answers elsewhere, so that the rest
is about lists: `cleanedBy` for a group, `wiredGroups` for an event. Without faults a registration
is then decided by the values alone (`Writes`), and what it writes reads back as what was merged,
with `null` in the place of an infinite number.
-/

set_option autoImplicit false

namespace XBus
namespace Proof

open Lib
open Lib.Json (Members lookup? without indexed assign orElse isString truthy setMember)

variable {ν : Type}

/-! ## Groups -/

/-- The handlers of a group, of which there may be none. -/
def handlersOf (g : Json ν) : List (Json ν) :=
  match g.member? (utf16 "hooks") with
  | some (.arr hs) => hs
  | _ => []

/-- Filtering the handlers of the group does not throw. -/
def SoundGroup (g : Json ν) : Prop :=
  g ≠ .null ∧ match g.member? (utf16 "hooks") with
    | none => True
    | some .null => True
    | some (.arr hs) => ∀ h ∈ hs, h ≠ .null
    | some _ => False

/-- The group with the handlers that `q` keeps. -/
def cleanedBy (q : Json ν → Bool) (g : Json ν) : Cleaned ν :=
  ⟨.obj (setMember g.ownMembers (utf16 "hooks") (.arr ((handlersOf g).filter q))),
    (handlersOf g).filter q, decide (((handlersOf g).filter q).length < (handlersOf g).length)⟩

theorem property_of_ne {v : Json ν} (h : v ≠ .null) (key : String) :
    property v key = .ok (v.member? (utf16 key)) := by
  cases v <;> first | rfl | exact absurd rfl h

theorem throws_isXbusHookHandler (o : UserScopeOptions ν) :
    Throws (isXbusHookHandler o) (· ≠ .null) (refersTo o) := by
  intro h
  cases h with
  | null => exact .inr ⟨fun hne => hne rfl, _, rfl⟩
  | _ => exact .inl ⟨by simp, rfl⟩

theorem throws_cleanGroup {keep : Json ν → Except JsString Bool} {q : Json ν → Bool}
    (hkeep : Throws keep (· ≠ .null) q) :
    Throws (cleanGroup keep) SoundGroup (cleanedBy q) := by
  intro g
  by_cases hg : g = .null
  · subst hg
    exact .inr ⟨fun h => h.1 rfl, _, rfl⟩
  have hread : ∀ v, g.member? (utf16 "hooks") = v → cleanGroup keep g = (do
      let hooks ← elements (some (orElse v (.arr []))) "filter"
      let kept ← filterE keep hooks
      return ⟨.obj (setMember g.ownMembers (utf16 "hooks") (.arr kept)), kept,
        decide (kept.length < hooks.length)⟩) := by
    rintro v rfl
    rw [cleanGroup, property_of_ne hg]
    rfl
  -- Missing handlers are an empty list; a value that is no list has no `filter`.
  cases hm : g.member? (utf16 "hooks") with
  | none =>
    refine .inl ⟨⟨hg, by rw [hm]; trivial⟩, ?_⟩
    rw [hread _ hm]
    simp [cleanedBy, handlersOf, hm, orElse, elements, filterE, bind, Except.bind, pure,
      Except.pure]
  | some v =>
    cases v with
    | null =>
      refine .inl ⟨⟨hg, by rw [hm]; trivial⟩, ?_⟩
      rw [hread _ hm]
      simp [cleanedBy, handlersOf, hm, orElse, elements, filterE, bind, Except.bind, pure,
        Except.pure]
    | arr hs =>
      rcases throws_filterE hkeep hs with ⟨hall, hfilter⟩ | ⟨hall, e, hfilter⟩
      · refine .inl ⟨⟨hg, by rw [hm]; exact hall⟩, ?_⟩
        rw [hread _ hm]
        simp [cleanedBy, handlersOf, hm, orElse, elements, hfilter, bind, Except.bind, pure,
          Except.pure]
      · refine .inr ⟨fun h => hall (by rw [SoundGroup, hm] at h; exact h.2), e, ?_⟩
        rw [hread _ hm]
        simp [orElse, elements, hfilter, bind, Except.bind]
    | bool b =>
      exact .inr ⟨fun h => by rw [SoundGroup, hm] at h; exact h.2, _, by rw [hread _ hm]; rfl⟩
    | num n =>
      exact .inr ⟨fun h => by rw [SoundGroup, hm] at h; exact h.2, _, by rw [hread _ hm]; rfl⟩
    | str s =>
      exact .inr ⟨fun h => by rw [SoundGroup, hm] at h; exact h.2, _, by rw [hread _ hm]; rfl⟩
    | obj ms =>
      exact .inr ⟨fun h => by rw [SoundGroup, hm] at h; exact h.2, _, by rw [hread _ hm]; rfl⟩

/-- What is left of an event's groups when `q` decides which handlers stay. -/
def leftOf (q : Json ν → Bool) (gs : List (Json ν)) : List (Json ν) :=
  groupsLeft (gs.map (cleanedBy q))

theorem mem_leftOf {q : Json ν → Bool} {gs : List (Json ν)} {x : Json ν} :
    x ∈ leftOf q gs ↔
      ∃ g ∈ gs, (handlersOf g).filter q ≠ [] ∧ x = (cleanedBy q g).group := by
  simp only [leftOf, groupsLeft, List.mem_map, List.mem_filter]
  constructor
  · rintro ⟨c, ⟨⟨g, hg, rfl⟩, hne⟩, rfl⟩
    exact ⟨g, hg, by simpa [cleanedBy] using hne, rfl⟩
  · rintro ⟨g, hg, hne, rfl⟩
    exact ⟨cleanedBy q g, ⟨⟨g, hg, rfl⟩, by simpa [cleanedBy] using hne⟩, rfl⟩

theorem leftOf_append (q : Json ν → Bool) (gs gs' : List (Json ν)) :
    leftOf q (gs ++ gs') = leftOf q gs ++ leftOf q gs' := by
  simp [leftOf, groupsLeft]

theorem leftOf_cons (q : Json ν → Bool) (g : Json ν) (gs : List (Json ν)) :
    leftOf q (g :: gs) =
      if (handlersOf g).filter q = [] then leftOf q gs
      else (cleanedBy q g).group :: leftOf q gs := by
  by_cases hempty : (handlersOf g).filter q = []
  · have hno : (!(cleanedBy q g).hooks.isEmpty) = false := by
      simp [cleanedBy, hempty]
    simp only [leftOf, groupsLeft, List.map_cons, List.filter_cons, hno, hempty, if_true,
      Bool.false_eq_true, if_false]
  · have hyes : (!(cleanedBy q g).hooks.isEmpty) = true := by
      simpa [cleanedBy] using hempty
    simp only [leftOf, groupsLeft, List.map_cons, List.filter_cons, hyes, hempty, if_true, if_false]

theorem handlersOf_cleanedBy (q : Json ν → Bool) (g : Json ν) :
    handlersOf (cleanedBy q g).group = (handlersOf g).filter q := by
  rw [handlersOf, cleanedBy]
  simp only [Json.member?, Json.lookup_setMember_self]

/-! ## Events -/

/-- The groups of an event, of which there may be none. -/
def groupsOf (v : Option (Json ν)) : List (Json ν) :=
  match v with
  | some (.arr gs) => gs
  | _ => []

/-- Going over the groups of the event does not throw. -/
def SoundEvent (v : Option (Json ν)) : Prop :=
  match v with
  | none => True
  | some .null => True
  | some (.arr gs) => ∀ g ∈ gs, SoundGroup g
  | some _ => False

/-- The group that registration adds. -/
def ownGroupFor (o : UserScopeOptions ν) (entry : JsString) : Json ν :=
  .obj [(utf16 "hooks", .arr [xbusHookHandlerFor o entry])]

def wiredGroups (o : UserScopeOptions ν) (entry : JsString) (v : Option (Json ν)) :
    List (Json ν) :=
  leftOf (fun h => !refersTo o h) (groupsOf v) ++ [ownGroupFor o entry]

theorem throws_wireEvent {o : UserScopeOptions ν} {ev : XbusHookEvent} {entry : JsString}
    (hentry : hookEntry? o ev = some entry) :
    Throws (fun es => wireEvent o es ev) (fun es => SoundEvent (lookup? es ev.key))
      fun es => setMember es ev.key (.arr (wiredGroups o entry (lookup? es ev.key))) := by
  intro es
  have hgroups := throws_mapE (throws_cleanGroup (throws_isXbusHookHandler o).map_not)
  simp only [wireEvent, hentry]
  cases hm : lookup? es ev.key with
  | none => exact .inl ⟨trivial, rfl⟩
  | some v =>
    cases v with
    | null => exact .inl ⟨trivial, rfl⟩
    | arr gs =>
      rcases hgroups gs with ⟨hall, hmap⟩ | ⟨hall, e, hmap⟩
      · refine .inl ⟨hall, ?_⟩
        simp [orElse, elements, hmap, bind, Except.bind, pure, Except.pure, wiredGroups, leftOf,
          groupsOf, ownGroupFor]
      · exact .inr ⟨hall, e, by simp [orElse, elements, hmap, bind, Except.bind]⟩
    | bool b => exact .inr ⟨fun h => h, _, rfl⟩
    | num n => exact .inr ⟨fun h => h, _, rfl⟩
    | str s => exact .inr ⟨fun h => h, _, rfl⟩
    | obj ms => exact .inr ⟨fun h => h, _, rfl⟩

theorem key_inj {ev ev' : XbusHookEvent} (h : ev.key = ev'.key) : ev = ev' := by
  cases ev <;> cases ev' <;> first | rfl | exact absurd h (by decide)

/-- What the members are after the events were wired. -/
structure Wired (o : UserScopeOptions ν) (evs : List XbusHookEvent) (es es' : Members ν) :
    Prop where
  sound : ∀ ev ∈ evs, ( hookEntry? o ev).isSome → SoundEvent (lookup? es ev.key)
  wired : ∀ ev ∈ evs, ∀ entry, hookEntry? o ev = some entry →
    lookup? es' ev.key = some (.arr (wiredGroups o entry (lookup? es ev.key)))
  others : ∀ k, (∀ ev ∈ evs, ( hookEntry? o ev).isSome → k ≠ ev.key) → lookup? es' k = lookup? es k
  keys : (es.map (·.1)).Nodup → (es'.map (·.1)).Nodup

theorem wireEvents_ok {o : UserScopeOptions ν} {evs : List XbusHookEvent} {es es' : Members ν}
    (hevs : evs.Nodup) (h : wireEvents o evs es = .ok es') : Wired o evs es es' := by
  induction evs generalizing es with
  | nil =>
    cases h
    exact ⟨by simp, by simp, fun _ _ => rfl, id⟩
  | cons ev evs ih =>
    obtain ⟨hnew, hevs⟩ := List.nodup_cons.mp hevs
    cases hwire : wireEvent o es ev with
    | error e => simp [wireEvents, hwire, bind, Except.bind] at h
    | ok mid =>
      have hrest := ih hevs (by simpa [wireEvents, hwire, bind, Except.bind] using h)
      -- The later events have other keys, so neither disturbs the other.
      have hother : ∀ ev' ∈ evs, ev'.key ≠ ev.key := by
        rintro ev' hev' hkey
        exact hnew (key_inj hkey ▸ hev')
      cases hentry : hookEntry? o ev with
      | none =>
        have hmid : mid = es := by
          simp only [wireEvent, hentry, Except.ok.injEq] at hwire
          exact hwire.symm
        subst hmid
        refine ⟨?_, ?_, ?_, hrest.keys⟩
        · intro ev' hev' hsome
          rcases List.mem_cons.mp hev' with rfl | hev'
          · simp [hentry] at hsome
          · exact hrest.sound ev' hev' hsome
        · intro ev' hev' entry hsome
          rcases List.mem_cons.mp hev' with rfl | hev'
          · simp [hentry] at hsome
          · exact hrest.wired ev' hev' entry hsome
        · intro k hne
          exact hrest.others k fun ev' hev' => hne ev' (List.mem_cons_of_mem _ hev')
      | some entry =>
        obtain ⟨hsound, hmid⟩ := ((throws_wireEvent hentry).ok_iff es mid).mp hwire
        have hsame : ∀ ev' ∈ evs, lookup? mid ev'.key = lookup? es ev'.key := fun ev' hev' => by
          rw [hmid, Json.lookup_setMember_ne (hother ev' hev')]
        refine ⟨?_, ?_, ?_, ?_⟩
        · intro ev' hev' hsome
          rcases List.mem_cons.mp hev' with rfl | hev'
          · exact hsound
          · rw [← hsame ev' hev']
            exact hrest.sound ev' hev' hsome
        · intro ev' hev' entry' hsome
          rcases List.mem_cons.mp hev' with rfl | hev'
          · rw [hentry, Option.some.injEq] at hsome
            subst hsome
            rw [hrest.others _ fun ev hev _ => (hother ev hev).symm, hmid,
              Json.lookup_setMember_self]
          · rw [← hsame ev' hev']
            exact hrest.wired ev' hev' entry' hsome
        · intro k hne
          rw [hrest.others k fun ev' hev' => hne ev' (List.mem_cons_of_mem _ hev'), hmid]
          exact Json.lookup_setMember_ne (hne ev (List.mem_cons_self ..) (by simp [hentry]))
        · intro hkeys
          apply hrest.keys
          rw [hmid]
          exact Json.setMember_keys hkeys

/-! ## What the parts of a value share, the merged value has -/

section Hereditary

variable {P : Json ν → Prop} (hP : Json.Hereditary P)

include hP

theorem hereditary_handlersOf {g : Json ν} (h : P g) : ∀ x ∈ handlersOf g, P x := by
  unfold handlersOf
  split
  · rename_i hs hm
    exact hP.arr.mp (hP.member h hm)
  · exact fun x hx => absurd hx List.not_mem_nil

theorem hereditary_cleanedBy {g : Json ν} (h : P g) (q : Json ν → Bool) :
    P (cleanedBy q g).group := by
  apply hP.set _ (hP.ownMembers h)
  exact hP.arr.mpr fun x hx => hereditary_handlersOf hP h x (List.mem_filter.mp hx).1

theorem hereditary_leftOf {gs : List (Json ν)} (h : ∀ g ∈ gs, P g) (q : Json ν → Bool) :
    ∀ g ∈ leftOf q gs, P g := by
  intro x hx
  obtain ⟨g, hg, -, rfl⟩ := mem_leftOf.mp hx
  exact hereditary_cleanedBy hP (h g hg) q

theorem hereditary_groupsOf {v : Option (Json ν)} (h : ∀ x, v = some x → P x) :
    ∀ g ∈ groupsOf v, P g := by
  unfold groupsOf
  split
  · exact hP.arr.mp (h _ rfl)
  · exact fun g hg => absurd hg List.not_mem_nil

theorem hereditary_ownGroupFor (o : UserScopeOptions ν) (entry : JsString) :
    P (ownGroupFor o entry) := by
  have hhandler : P (xbusHookHandlerFor o entry) := by
    refine hP.obj (by simp; decide) fun m hm => ?_
    simp only [List.mem_cons, List.not_mem_nil, or_false] at hm
    rcases hm with rfl | rfl | rfl | rfl
    · exact hP.str _
    · exact hP.str _
    · exact hP.arr.mpr (List.forall_mem_singleton.mpr (hP.str _))
    · exact hP.str _
  exact hP.obj (List.nodup_singleton _)
    (List.forall_mem_singleton.mpr (hP.arr.mpr (List.forall_mem_singleton.mpr hhandler)))

theorem hereditary_xbusMcpEntry (o : UserScopeOptions ν) : P (xbusMcpEntry o) := by
  refine hP.obj (by simp; decide) fun m hm => ?_
  simp only [List.mem_cons, List.not_mem_nil, or_false] at hm
  rcases hm with rfl | rfl | rfl | rfl | rfl
  · exact hP.str _
  · exact hP.str _
  · exact hP.arr.mpr (List.forall_mem_singleton.mpr (hP.str _))
  · exact hP.obj (List.nodup_singleton _) (List.forall_mem_singleton.mpr (hP.str _))
  · exact hP.str _

theorem hereditary_applyMcp {cfg : Json ν} (h : P cfg) (o : UserScopeOptions ν) :
    P (applyMcp o cfg) := by
  apply hP.set _ (hP.ownMembers h)
  exact hP.set _ (hP.table h _) (hereditary_xbusMcpEntry hP o)

theorem hereditary_wireEvent {o : UserScopeOptions ν} {ev : XbusHookEvent} {es es' : Members ν}
    (h : P (.obj es)) (hwire : wireEvent o es ev = .ok es') : P (.obj es') := by
  cases hentry : hookEntry? o ev with
  | none =>
    simp only [wireEvent, hentry, Except.ok.injEq] at hwire
    rwa [← hwire]
  | some entry =>
    obtain ⟨-, rfl⟩ := ((throws_wireEvent hentry).ok_iff es es').mp hwire
    apply hP.set _ h
    refine hP.arr.mpr fun x hx => ?_
    rcases List.mem_append.mp hx with hx | hx
    · refine hereditary_leftOf hP (hereditary_groupsOf hP fun y hy => ?_) _ x hx
      exact hP.member (v := .obj es) h hy
    · rw [List.mem_singleton.mp hx]
      exact hereditary_ownGroupFor hP o entry

theorem hereditary_wireEvents {o : UserScopeOptions ν} {evs : List XbusHookEvent}
    {es es' : Members ν} (h : P (.obj es)) (hwire : wireEvents o evs es = .ok es') :
    P (.obj es') := by
  induction evs generalizing es with
  | nil =>
    cases hwire
    exact h
  | cons ev evs ih =>
    cases hmid : wireEvent o es ev with
    | error e => simp [wireEvents, hmid, bind, Except.bind] at hwire
    | ok mid =>
      exact ih (hereditary_wireEvent hP h hmid)
        (by simpa [wireEvents, hmid, bind, Except.bind] using hwire)

end Hereditary

/-- The merged settings: their other members are the old ones, and the events are wired. -/
theorem applyHooks_ok {o : UserScopeOptions ν} {s next : Json ν}
    (h : applyHooks o s = .ok next) :
    ∃ es', next = .obj (setMember s.ownMembers (utf16 "hooks") (.obj es')) ∧
      wireEvents o XBUS_HOOK_EVENTS
        (orElse (s.member? (utf16 "hooks")) (.obj [])).ownMembers = .ok es' := by
  unfold applyHooks at h
  cases hwire : wireEvents o XBUS_HOOK_EVENTS
      (orElse (s.member? (utf16 "hooks")) (.obj [])).ownMembers with
  | error e => simp [hwire, bind, Except.bind] at h
  | ok es' =>
    refine ⟨es', ?_, rfl⟩
    simpa [hwire, bind, Except.bind, pure, Except.pure] using h.symm

theorem hereditary_applyHooks {P : Json ν → Prop} (hP : Json.Hereditary P) {o : UserScopeOptions ν}
    {s next : Json ν} (h : P s) (hnext : applyHooks o s = .ok next) : P next := by
  obtain ⟨es', rfl, hwire⟩ := applyHooks_ok hnext
  exact hP.set _ (hP.ownMembers h) (hereditary_wireEvents hP (hP.table h _) hwire)

/-! ## What is written is a value, and reads as one -/

theorem distinct_applyMcp {cfg : Json ν} (h : cfg.Distinct) (o : UserScopeOptions ν) :
    (applyMcp o cfg).Distinct := hereditary_applyMcp Json.hereditary_distinct h o

theorem distinct_applyHooks {o : UserScopeOptions ν} {s next : Json ν} (h : s.Distinct)
    (hnext : applyHooks o s = .ok next) : next.Distinct :=
  hereditary_applyHooks Json.hereditary_distinct h hnext

variable [JsFloat ν]

/-- **A file reads as what was written of the value.** -/
theorem parse_fileText {v : Json ν} (h : v.Distinct) :
    Value.parse (fileText v) = some ⟨v.written, Json.distinct_written v h⟩ :=
  Value.parse_document ⟨v.written, Json.distinct_written v h⟩

theorem readJson_fileText {ms : Members ν} (h : (Json.obj ms).Distinct) :
    readJson (some (fileText (.obj ms))) = some (Json.obj ms).written := by
  simp only [readJson, Option.bind_some, parse_fileText h, Json.written_obj]

theorem readOrEmpty_fileText {ms : Members ν} (h : (Json.obj ms).Distinct) :
    readOrEmpty (some (fileText (.obj ms))) = (Json.obj ms).written := by
  rw [readOrEmpty, readJson_fileText h, Option.getD_some]

theorem readOrEmpty_distinct (bs : Option Bytes) : (readOrEmpty bs : Json ν).Distinct := by
  have hempty : (Json.obj ([] : Members ν)).Distinct := by
    simp [Json.Distinct, Json.DistinctMembers]
  unfold readOrEmpty readJson
  split
  · rename_i v hv
    have hv := v.distinct
    split
    · exact hempty
    · exact hv
  · exact hempty

/-! ## A registration without faults -/

variable [DecidableEq ν]

/-- Both files are written: nothing ends the registration before, and nothing is rejected. -/
structure Writes (o : UserScopeOptions ν) (cfg s next : Json ν) : Prop where
  reaches : Reaches o cfg s
  config : Accepts o .config (applyMcp o cfg).written
  merged : applyHooks o s = .ok next
  settings : Accepts o .settings next.written

omit [DecidableEq ν] in
theorem backupAndWrite_calm (f : ScopeFile) (obj : Json ν) (d : ScopeDrive) :
    ∃ t d', backupAndWrite Faults.none f obj d = (.ok t, d') := by
  simp only [backupAndWrite, Call.get_bind]
  cases (d.files (.target f)).isSome with
  | true => exact ⟨_, _, rfl⟩
  | false => exact ⟨_, _, rfl⟩

omit [DecidableEq ν] in
theorem vet_accepts {f : ScopeFile} {validate : Json ν → Except JsString Verdict} {v : Json ν}
    {d : ScopeDrive} (hread : readOrEmpty (d.files (.target f)) = v) {verdict : Verdict}
    (hv : validate v = .ok verdict) (hok : verdict.ok = true) :
    vet f validate d = (.ok verdict, d) := by
  simp only [vet, hread, hv, hok, if_true]

/-- The values that a registration starts from. -/
abbrev configOf (d : ScopeDrive) : Json ν := readOrEmpty (d.files (.target .config))

abbrev settingsOf (d : ScopeDrive) : Json ν := readOrEmpty (d.files (.target .settings))

theorem register_writes {o : UserScopeOptions ν} {d : ScopeDrive} {next : Json ν}
    (h : Writes o (configOf d) (settingsOf d) next) :
    ∃ r d', registerUserScope Faults.none o d = (.ok r, d') ∧ r.ok = true ∧
      d'.files (.target .config) = some (fileText (applyMcp o (configOf d))) ∧
      d'.files (.target .settings) = some (fileText next) := by
  rcases register_cases Faults.none o d with ⟨-, heq⟩ | ⟨hnot, -⟩
  · obtain ⟨t, d₁, hcfg⟩ := backupAndWrite_calm .config (applyMcp o (configOf d)) d
    obtain ⟨t', d₂, hset⟩ := backupAndWrite_calm .settings next d₁
    have hw := backupAndWrite_ok hcfg
    have hw' := backupAndWrite_ok hset
    have hdcfg := distinct_applyMcp (readOrEmpty_distinct (d.files (.target .config))) o
    have hdset := distinct_applyHooks (readOrEmpty_distinct (d.files (.target .settings))) h.merged
    obtain ⟨v, hv, hvok⟩ := h.config
    obtain ⟨v', hv', hvok'⟩ := h.settings
    -- What was written is read back, and the validators are shown it.
    have hread : readOrEmpty (some (fileText next)) = next.written := by
      obtain ⟨es', rfl, -⟩ := applyHooks_ok h.merged
      exact readOrEmpty_fileText hdset
    have hvet := vet_accepts (f := .config) (d := d₁)
      (by rw [hw.target]; exact readOrEmpty_fileText hdcfg) hv hvok
    have hvet' := vet_accepts (f := .settings) (d := d₂)
      (by rw [hw'.target]; exact hread) hv' hvok'
    have hboth : writeBoth Faults.none o (configOf d) (settingsOf d) d =
        ({ ok := true, dryRun := false, backupPath := t.backup, settingsBackupPath := t'.backup,
           replacedConflict := replacesConflict o (configOf d) }, d₂) := by
      simp only [writeBoth, hcfg, hvet, hvok, h.merged, hset, hvet', hvok', Bool.not_true,
        Bool.false_eq_true, if_false]
    refine ⟨_, _, heq, ?_, ?_, ?_⟩
    · rw [hboth]
    · rw [hboth, (hw'.others .config (by simp)).1, hw.target]
    · rw [hboth, hw'.target]
  · exact absurd h.reaches hnot

/-- Where not both are written, neither is. -/
theorem registerUserScope_keeps {o : UserScopeOptions ν} {d : ScopeDrive}
    (h : ¬ ∃ next, Writes o (configOf d) (settingsOf d) next) :
    TargetsKept d (registerUserScope Faults.none o d).2 := by
  rcases register_cases Faults.none o d with ⟨hreaches, heq⟩ | ⟨-, hsame⟩
  · rw [heq]
    have hends := writeBoth_ends Faults.none o (configOf d) (settingsOf d) d
    generalize writeBoth Faults.none o (configOf d) (settingsOf d) d = out at hends ⊢
    cases hends with
    | neither e d' hkept => exact hkept
    | both next r d' hnext hok hvetted hconfig hsettings hsame =>
      have hdcfg := distinct_applyMcp (readOrEmpty_distinct (d.files (.target .config))) o
      have hdset := distinct_applyHooks (readOrEmpty_distinct (d.files (.target .settings))) hnext
      have hread : readOrEmpty (some (fileText next)) = next.written := by
        obtain ⟨es', rfl, -⟩ := applyHooks_ok hnext
        exact readOrEmpty_fileText hdset
      have hread' : readOrEmpty (some (fileText (applyMcp o (configOf d)))) =
          (applyMcp o (configOf d)).written := readOrEmpty_fileText hdcfg
      rw [hread', hread] at hvetted
      exact absurd ⟨next, hreaches, hvetted.1, hnext, hvetted.2⟩ h
  · rw [hsame]
    exact .refl d

end Proof
end XBus
