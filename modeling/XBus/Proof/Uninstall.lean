import XBus.Proof.Stripping

/-!
# Uninstalling restores the user's configuration

A registration on what a registration wrote finds it and writes nothing, so any number of them is
one. An uninstall then strips the merged values, and **`uninstall_restores_iff`** says when that
gives back the values from before: exactly when nothing was written, or both values can be written
and hold only what stripping leaves as it is.
-/

set_option autoImplicit false

namespace XBus
namespace Proof

open Lib
open Lib.Json (Members lookup? without indexed assign orElse isString truthy setMember)

variable {ν : Type}

/-! ## A second registration finds the first -/

/-- A search among the groups of a wired event reaches the handler that was added. -/
theorem someHandler_wired {o : UserScopeOptions ν} {entry : JsString} {v : Option (Json ν)}
    {p : Json ν → Except JsString Bool} {q : Json ν → Bool} (hp : Throws p (· ≠ .null) q)
    (hv : SoundEvent v) (hq : q (xbusHookHandlerFor o entry) = true) :
    someHandler p (some (.arr (wiredGroups o entry v))) = .ok true := by
  have hgroup : ∀ g ∈ wiredGroups o entry v, (do
      let hooks ← elements (← property g "hooks") "some"
      anyE p hooks : Except JsString Bool) = anyE p (handlersOf g) := by
    intro g hg
    obtain ⟨hm, -⟩ := fitGroup_handlers.mp (fitGroup_wired o entry v g hg)
    have hsound := sound_wired o entry hv g hg
    rw [property_of_ne hsound.1, hm]
    rfl
  have hany : ∀ g ∈ wiredGroups o entry v, ∃ b, (do
      let hooks ← elements (← property g "hooks") "some"
      anyE p hooks : Except JsString Bool) = .ok b := by
    intro g hg
    rw [hgroup g hg]
    apply anyE_ok
    intro h hh
    have hsound := sound_wired o entry hv g hg
    obtain ⟨hm, -⟩ := fitGroup_handlers.mp (fitGroup_wired o entry v g hg)
    rw [SoundGroup, hm] at hsound
    rcases hp h with ⟨-, hb⟩ | ⟨hnull, -⟩
    · exact ⟨_, hb⟩
    · exact absurd (hsound.2 h hh) hnull
  -- The product's own group is the last one, and it has the handler.
  have hlast : (do
      let hooks ← elements (← property (ownGroupFor o entry) "hooks") "some"
      anyE p hooks : Except JsString Bool) = .ok true := by
    rw [hgroup _ (List.mem_append_right _ (List.mem_singleton_self _))]
    rcases hp (xbusHookHandlerFor o entry) with ⟨-, hb⟩ | ⟨hnull, -⟩
    · rw [handlersOf_own, anyE, hb, hq]
    · exact absurd (by simp [xbusHookHandlerFor]) hnull
  have hrun := anyE_last (fun g hg => hany g (List.mem_append_left _ hg)) hlast
  simpa [someHandler, orElse, elements, bind, Except.bind, wiredGroups] using hrun

theorem throws_tagged {q : Option (Json ν) → Json ν → Bool} :
    Throws (fun h : Json ν => do
      let tag ← property h "_xbusOwner"
      return q tag h) (· ≠ .null) fun h => q (h.member? XBUS_OWNER_TAG) h := by
  intro h
  cases h with
  | null => exact .inr ⟨fun hne => hne rfl, _, rfl⟩
  | _ => exact .inl ⟨by simp, rfl⟩

theorem mem_hookEntries {o : UserScopeOptions ν} {e : XbusHookEvent × JsString}
    (h : e ∈ hookEntries o) : hookEntry? o e.1 = some e.2 := by
  unfold hookEntries at h
  unfold hookEntry? hookEntries
  cases hs : o.sessionStartHookEntry with
  | none =>
    rw [hs] at h
    simp at h
    rcases h with rfl | rfl <;> simp
  | some entry =>
    rw [hs] at h
    by_cases hne : entry = []
    · simp [hne] at h
      rcases h with rfl | rfl <;> simp
    · simp [hne] at h
      rcases h with rfl | rfl | rfl <;> simp [hne]

/-- The event of the merged settings is the wired one. -/
theorem eventOf_next {o : UserScopeOptions ν} {es es' : Members ν} {ms : Members ν}
    (hwired : Wired o XBUS_HOOK_EVENTS es es') {ev : XbusHookEvent} {entry : JsString}
    (hentry : hookEntry? o ev = some entry) :
    eventOf (.obj (setMember ms (utf16 "hooks") (.obj es'))) ev =
      some (.arr (wiredGroups o entry (lookup? es ev.key))) := by
  rw [eventOf, member_setMember]
  exact hwired.wired ev (mem_events ev) entry hentry

theorem hooksPresent_next {o : UserScopeOptions ν} {s next : Json ν}
    (h : applyHooks o s = .ok next) : hooksPresent o next = .ok true := by
  obtain ⟨es', rfl, hwire⟩ := applyHooks_ok h
  have hwired := wireEvents_ok (by decide) hwire
  apply allE_true
  intro e he
  have hentry := mem_hookEntries he
  rw [eventOf_next hwired hentry]
  apply someHandler_wired (q := fun h => isString (h.member? XBUS_OWNER_TAG) o.installId &&
    includes (h.member? (utf16 "args")) e.2)
  · exact throws_tagged (q := fun tag h => isString tag o.installId &&
      includes (h.member? (utf16 "args")) e.2)
  · exact hwired.sound e.1 (mem_events e.1) (by simp [hentry])
  · obtain ⟨hargs, htag⟩ := handlerFor_members o e.2
    simp [hargs, htag, isString, includes]

variable [JsFloat ν] [DecidableEq ν]

omit [DecidableEq ν] in
theorem mcpEntryMateriallyEqual_self (o : UserScopeOptions ν) :
    mcpEntryMateriallyEqual (xbusMcpEntry o) (xbusMcpEntry o) = true := by
  have hkeys : (utf16 "type" = utf16 "command") = False := by decide
  have hcommand : (xbusMcpEntry o).member? (utf16 "command") = some (.str o.nodePath) := by
    simp only [xbusMcpEntry, Json.member?, Json.lookup_cons, hkeys, if_false, if_true]
  simp [mcpEntryMateriallyEqual, hcommand]

theorem ownServer_applyMcp (o : UserScopeOptions ν) (cfg : Json ν) :
    ownServer o (applyMcp o cfg) = true := by
  simp only [ownServer, serverOf_applyMcp, mcpEntryMateriallyEqual_self, xbusMcpEntry_owner]
  simp [truthy, xbusMcpEntry, isString]

/-- A registration on what a registration wrote does nothing. -/
theorem reaches_not_next {o : UserScopeOptions ν} {cfg s next : Json ν}
    (h : applyHooks o s = .ok next) : ¬ Reaches o (applyMcp o cfg) next := by
  intro hreaches
  obtain ⟨present, hpresent, hnot⟩ := hreaches.missing
  rw [hooksPresent_next h, Except.ok.injEq] at hpresent
  rw [← hpresent, ownServer_applyMcp] at hnot
  cases hnot

/-! ## Both files -/

/-- Nothing of the product's in the file: uninstalling leaves it alone. -/
theorem strippedConfig_none {o : UserScopeOptions ν} {bs : Option Bytes}
    (h : ∀ v : Json ν, readJson bs = some v → serverOf v = none) :
    (strippedConfig o bs).2 = false := by
  unfold strippedConfig
  split
  · rename_i cfg hcfg
    split
    · simp [stripMcp, h cfg hcfg]
    · rfl
  · rfl

theorem stripHooks_unchanged {o : UserScopeOptions ν} {v v' : Json ν} {changed : Bool}
    (hno : NoEntry o v) (h : stripHooks o v (some o.installId) = .ok (v', changed)) :
    changed = false := by
  unfold stripHooks at h
  split at h
  · cases h
    rfl
  · rename_i t ht
    split at h
    · cases h
      rfl
    · -- No group has a handler to remove, so none is counted as changed.
      have hnone : ∀ e ∈ t.ownMembers,
          ((groupsOf (some e.2)).map (cleanedBy (staysFor o))).any (·.changed) = false := by
        intro e he
        rw [List.any_eq_false]
        intro c hc
        obtain ⟨g, hg, rfl⟩ := List.mem_map.mp hc
        have hfilter : (handlersOf g).filter (staysFor o) = handlersOf g :=
          List.filter_eq_self.mpr (stays_of_noHandler (hno t ht e he) g hg)
        simp [cleanedBy, hfilter]
      rcases throws_mapE (throws_stripEvent o) t.ownMembers with ⟨-, hmap⟩ | ⟨-, e, hmap⟩
      · have hany : ((t.ownMembers.map fun e =>
            (e.1, (groupsOf (some e.2)).map (cleanedBy (staysFor o)))).any fun e =>
              e.2.any (·.changed)) = false := by
          rw [List.any_map, List.any_eq_false]
          intro e he
          simp only [Function.comp, hnone e he, Bool.false_eq_true, not_false_iff]
        simp only [hmap, hany, bind, Except.bind, pure, Except.pure] at h
        split at h
        · cases h
          rfl
        · cases h
          rfl
      · simp only [hmap, bind, Except.bind] at h
        cases h

theorem unregister_keeps {o : UserScopeOptions ν} {d : ScopeDrive}
    (hconfig : (strippedConfig o (d.files (.target .config))).2 = false)
    (hsettings : ∀ hk, strippedSettings o (d.files (.target .settings)) = .ok hk → hk.2 = false) :
    (unregisterUserScope Faults.none o d).2 = d := by
  unfold unregisterUserScope
  cases hk : strippedSettings o (d.files (.target .settings)) with
  | error e => rfl
  | ok out => simp [hconfig, hsettings out hk]

theorem unregister_throws {o : UserScopeOptions ν} {d : ScopeDrive} {e : JsString}
    (h : strippedSettings o (d.files (.target .settings)) = .error e) :
    (unregisterUserScope Faults.none o d).2 = d := by
  unfold unregisterUserScope
  rw [h]

theorem writeIfChanged_calm (f : ScopeFile) {v : Json ν} (hv : truthy v = true) (d : ScopeDrive) :
    ∃ t d', writeIfChanged Faults.none f (some v, true) d = (.ok t, d') ∧
      d'.files (.target f) = some (fileText v) ∧
      ∀ g, g ≠ f → d'.files (.target g) = d.files (.target g) := by
  obtain ⟨t, d', hw⟩ := backupAndWrite_calm f v d
  have hwritten := backupAndWrite_ok hw
  refine ⟨some t, d', ?_, hwritten.target, fun g hg => (hwritten.others g hg).1⟩
  simp only [writeIfChanged, hv, if_true]
  exact Call.bind_of_ok hw

theorem unregister_writes {o : UserScopeOptions ν} {d : ScopeDrive} {cfg s : Json ν}
    (hcfg : truthy cfg = true) (hs : truthy s = true) (hreal : o.dryRun = false)
    (hconfig : strippedConfig o (d.files (.target .config)) = (some cfg, true))
    (hsettings : strippedSettings o (d.files (.target .settings)) = .ok (some s, true)) :
    (unregisterUserScope Faults.none o d).2.files (.target .config) = some (fileText cfg) ∧
      (unregisterUserScope Faults.none o d).2.files (.target .settings) = some (fileText s) := by
  obtain ⟨t, d₁, hw, htext, -⟩ := writeIfChanged_calm .config hcfg d
  obtain ⟨t', d₂, hw', htext', hother⟩ := writeIfChanged_calm .settings hs d₁
  have hrun : (unregisterUserScope Faults.none o d).2 = d₂ := by
    simp [unregisterUserScope, hconfig, hsettings, hreal, hw, hw']
  rw [hrun]
  exact ⟨by rw [hother .config (by simp), htext], htext'⟩

/-- Without faults a file is left alone, or holds what was left of its value. -/
theorem writeIfChanged_files (f : ScopeFile) (stripped : Option (Json ν) × Bool) (d : ScopeDrive) :
    ∃ t d', writeIfChanged Faults.none f stripped d = (.ok t, d') ∧
      (∀ g, g ≠ f → d'.files (.target g) = d.files (.target g)) ∧
      (d'.files (.target f) = d.files (.target f) ∨
        ∃ v, stripped.1 = some v ∧ d'.files (.target f) = some (fileText v)) := by
  have hleave (h : writeIfChanged Faults.none f stripped d = (.ok none, d)) :
      ∃ t d', writeIfChanged Faults.none f stripped d = (.ok t, d') ∧
        (∀ g, g ≠ f → d'.files (.target g) = d.files (.target g)) ∧
        (d'.files (.target f) = d.files (.target f) ∨
          ∃ v, stripped.1 = some v ∧ d'.files (.target f) = some (fileText v)) :=
    ⟨_, d, h, fun _ _ => rfl, .inl rfl⟩
  obtain ⟨value, changed⟩ := stripped
  cases value with
  | none => exact hleave rfl
  | some v =>
    cases changed with
    | false => exact hleave rfl
    | true =>
      cases hv : truthy v with
      | false => exact hleave (by simp [writeIfChanged, hv])
      | true =>
        obtain ⟨t, d', hw, htext, hother⟩ := writeIfChanged_calm f hv d
        exact ⟨t, d', hw, hother, .inr ⟨v, rfl, htext⟩⟩

/-- An uninstall leaves a file alone, or writes what stripping made of its value. -/
theorem unregister_files (o : UserScopeOptions ν) (d : ScopeDrive) :
    ((unregisterUserScope Faults.none o d).2.files (.target .config) = d.files (.target .config) ∨
      ∃ v, (strippedConfig o (d.files (.target .config))).1 = some v ∧
        (unregisterUserScope Faults.none o d).2.files (.target .config) = some (fileText v)) ∧
    ((unregisterUserScope Faults.none o d).2.files (.target .settings) =
        d.files (.target .settings) ∨
      ∃ v changed, strippedSettings o (d.files (.target .settings)) = .ok (some v, changed) ∧
        (unregisterUserScope Faults.none o d).2.files (.target .settings) =
          some (fileText v)) := by
  cases hk : strippedSettings o (d.files (.target .settings)) with
  | error e =>
    rw [unregister_throws hk]
    exact ⟨.inl rfl, .inl rfl⟩
  | ok hooks =>
    by_cases hidle : (!(strippedConfig o (d.files (.target .config))).2 && !hooks.2) = true
    · have hrun : (unregisterUserScope Faults.none o d).2 = d := by
        simp only [unregisterUserScope, hk, hidle, if_true]
      rw [hrun]
      exact ⟨.inl rfl, .inl rfl⟩
    · by_cases hdry : o.dryRun = true
      · have hrun : (unregisterUserScope Faults.none o d).2 = d := by
          simp only [unregisterUserScope, hk, hidle, Bool.false_eq_true, if_false, hdry, if_true]
        rw [hrun]
        exact ⟨.inl rfl, .inl rfl⟩
      · -- The two writes one after the other; each leaves the other file alone.
        obtain ⟨t, d₁, hw, hother, hconfig⟩ := writeIfChanged_files .config
          (strippedConfig o (d.files (.target .config))) d
        obtain ⟨t', d₂, hw', hother', hsettings⟩ := writeIfChanged_files .settings hooks d₁
        have hrun : (unregisterUserScope Faults.none o d).2 = d₂ := by
          simp only [unregisterUserScope, hk, hidle, Bool.false_eq_true, if_false, hdry, hw, hw']
        rw [hrun, hother' .config (by simp)]
        refine ⟨hconfig, ?_⟩
        rw [hother .settings (by simp)] at hsettings
        rcases hsettings with hsame | ⟨v, hv, htext⟩
        · exact .inl hsame
        · exact .inr ⟨v, hooks.2, by rw [← hv], htext⟩

/-- The drive after `n` registrations. -/
def registered (o : UserScopeOptions ν) : Nat → ScopeDrive → ScopeDrive
  | 0, d => d
  | n + 1, d => (registerUserScope Faults.none o (registered o n d)).2

/-- The drive after `n` registrations and an uninstall. -/
def uninstalled (o : UserScopeOptions ν) (n : Nat) (d : ScopeDrive) : ScopeDrive :=
  (unregisterUserScope Faults.none o (registered o n d)).2

/-- What the uninstall leaves are the values from before the first registration, and it is the same
    after any number of registrations. -/
def Restores (o : UserScopeOptions ν) (c s : Value ν) (d : ScopeDrive) : Prop :=
  ((uninstalled o 1 d).files (.target .config)).bind Value.parse = some c ∧
    ((uninstalled o 1 d).files (.target .settings)).bind Value.parse = some s ∧
    ∀ n f, (uninstalled o (n + 1) d).files (.target f) = (uninstalled o 1 d).files (.target f)

omit [JsFloat ν] [DecidableEq ν] in
/-- The first of the events that are always wired. -/
theorem hookEntry_stop (o : UserScopeOptions ν) : hookEntry? o .Stop = some o.hookEntry := by
  simp [ hookEntry?, hookEntries]

/-- The pass over what was merged takes a handler out. -/
theorem stripHooks_changed {o : UserScopeOptions ν} {w next v : Json ν} {changed : Bool}
    (hnext : applyHooks o w = .ok next) (hw : w.Distinct)
    (h : stripHooks o next (some o.installId) = .ok (v, changed)) : changed = true := by
  have hd := distinct_applyHooks hw hnext
  obtain ⟨es', rfl, hwire⟩ := applyHooks_ok hnext
  have hwired := wireEvents_ok (by decide) hwire
  have hlook : lookup? (setMember w.ownMembers (utf16 "hooks") (.obj es')) (utf16 "hooks")
      = some (.obj es') := Json.lookup_setMember_self
  have hkeys : (es'.map (·.1)).Nodup := by
    have hes := Json.hereditary_distinct.member hd (k := utf16 "hooks") hlook
    rw [Json.Distinct] at hes
    exact hes.1
  rcases stripHooks_cases o hlook hkeys with ⟨-, hok⟩ | ⟨-, e, herr⟩
  · rw [hok, Except.ok.injEq, Prod.mk.injEq] at h
    rw [← h.2, List.any_eq_true]
    have hstop := hwired.wired .Stop (mem_events .Stop) _ (hookEntry_stop o)
    refine ⟨_, Json.lookup_mem hstop, ?_⟩
    rw [List.any_eq_true]
    refine ⟨cleanedBy (staysFor o) (ownGroupFor o o.hookEntry), ?_, ?_⟩
    · exact List.mem_map_of_mem (List.mem_append_right _ (List.mem_singleton_self _))
    · have hgone : staysFor o (xbusHookHandlerFor o o.hookEntry) = false := by
        simp [staysFor, removes_handlerFor o (refersTo_own o (hookEntry_stop o))]
      simp [cleanedBy, handlersOf_own, hgone]
  · rw [herr] at h
    cases h

/-- Where a registration writes nothing, neither does the next. -/
theorem registered_idle {o : UserScopeOptions ν} {d : ScopeDrive}
    (h : ¬ ∃ next, Writes o (configOf d) (settingsOf d) next) (n : Nat) :
    TargetsKept d (registered o n d) := by
  induction n with
  | zero => exact .refl d
  | succ n ih =>
    have hidle : ¬ ∃ next, Writes o (configOf (registered o n d)) (settingsOf (registered o n d))
        next := by
      simpa only [configOf, settingsOf, ih .config, ih .settings] using h
    intro f
    rw [registered, registerUserScope_keeps hidle f, ih f]

/-- Where it writes, the files hold the merged values. -/
theorem registered_writes {o : UserScopeOptions ν} {d : ScopeDrive} {next : Json ν}
    (h : Writes o (configOf d) (settingsOf d) next) :
    (registered o 1 d).files (.target .config) = some (fileText (applyMcp o (configOf d))) ∧
      (registered o 1 d).files (.target .settings) = some (fileText next) := by
  obtain ⟨r, d', hrun, -, hconfig, hsettings⟩ := register_writes h
  rw [registered, registered, hrun]
  exact ⟨hconfig, hsettings⟩

/-- If they could be written, the next registration finds them. -/
theorem registered_once {o : UserScopeOptions ν} {d : ScopeDrive} {next : Json ν}
    (h : Writes o (configOf d) (settingsOf d) next)
    (hfcfg : (applyMcp o (configOf d)).Finite) (hfset : next.Finite) (n : Nat) :
    registered o (n + 1) d = registered o 1 d := by
  obtain ⟨hconfig, hsettings⟩ := registered_writes h
  have hcfg : configOf (registered o 1 d) = applyMcp o (configOf d) := by
    rw [configOf, hconfig]
    exact (readOrEmpty_fileText (distinct_applyMcp (readOrEmpty_distinct _) o)).trans
      (Json.written_eq _ hfcfg)
  have hset : settingsOf (registered o 1 d) = next := by
    have hd := distinct_applyHooks (readOrEmpty_distinct _) h.merged
    obtain ⟨es', heq, -⟩ := applyHooks_ok h.merged
    rw [settingsOf, hsettings, heq]
    exact (readOrEmpty_fileText (heq ▸ hd)).trans (Json.written_eq _ (heq ▸ hfset))
  have hstay : (registerUserScope Faults.none o (registered o 1 d)).2 = registered o 1 d := by
    rcases register_cases Faults.none o (registered o 1 d) with ⟨hreaches, -⟩ | ⟨-, hsame⟩
    · have hreaches' : Reaches o (configOf (registered o 1 d)) (settingsOf (registered o 1 d)) :=
        hreaches
      rw [hcfg, hset] at hreaches'
      exact absurd hreaches' (reaches_not_next h.merged)
    · exact hsame
  induction n with
  | zero => rfl
  | succ n ih => rw [registered, ih, hstay]

/-! ## What stripping makes of a value -/

section Hereditary

variable {P : Json ν → Prop} (hP : Json.Hereditary P)

include hP

theorem hereditary_stripMcp {cfg : Json ν} (h : P cfg) (owner : Option JsString) :
    P (stripMcp cfg owner).1 := by
  unfold stripMcp
  split
  · rename_i servers entry hservers hentry
    have hown := hP.ownMembers h
    have hrest := hP.without XBUS_MCP_KEY (hP.ownMembers (hP.member h hservers))
    split
    · exact h
    · split
      · exact h
      · simp only
        split
        · exact hP.without _ hown
        · exact hP.set _ hown hrest
  · exact h

omit [JsFloat ν] [DecidableEq ν] in
theorem hereditary_stripped {es : Members ν} (hkeys : (es.map (·.1)).Nodup) (h : P (.obj es))
    (o : UserScopeOptions ν) : P (.obj (es.filterMap (strippedEvent o))) := by
  have hevent : ∀ e x, strippedEvent o e = some x → x.1 = e.1 ∧
      x.2 = .arr (leftOf (staysFor o) (groupsOf (some e.2))) := by
    intro e x hx
    simp only [strippedEvent, eventLeft] at hx
    split at hx
    · cases hx
    · cases hx
      exact ⟨rfl, rfl⟩
  have hsub : ∀ es : Members ν,
      ((es.filterMap (strippedEvent o)).map (·.1)).Sublist (es.map (·.1)) := by
    intro es
    induction es with
    | nil => exact List.Sublist.slnil
    | cons e es ih =>
      rw [List.filterMap_cons, List.map_cons]
      cases hx : strippedEvent o e with
      | none => exact ih.cons _
      | some x =>
        rw [List.map_cons, (hevent e x hx).1]
        exact ih.cons_cons _
  refine hP.obj ((hsub es).nodup hkeys) fun x hx => ?_
  obtain ⟨e, he, hex⟩ := List.mem_filterMap.mp hx
  rw [(hevent e x hex).2]
  refine hP.arr.mpr (hereditary_leftOf hP (hereditary_groupsOf hP fun y hy => ?_) _)
  rw [← Option.some.inj hy]
  exact hP.values h e he

/-- What the pass over a table of hooks answers: an object, with what its values had. -/
theorem hereditary_stripHooks {o : UserScopeOptions ν} {ms es : Members ν} {v : Json ν}
    {changed : Bool} (h : P (.obj ms)) (hlook : lookup? ms (utf16 "hooks") = some (.obj es))
    (hkeys : (es.map (·.1)).Nodup)
    (hrun : stripHooks o (.obj ms) (some o.installId) = .ok (v, changed)) :
    P v ∧ truthy v = true := by
  have hes : P (.obj es) := hP.member (v := .obj ms) h hlook
  rcases stripHooks_cases o hlook hkeys with ⟨-, hok⟩ | ⟨-, e, herr⟩
  · rw [hok, Except.ok.injEq, Prod.mk.injEq] at hrun
    rw [← hrun.1, strippedSettingsOf]
    split
    · exact ⟨hP.without _ h, rfl⟩
    · exact ⟨hP.set _ h (hereditary_stripped hP hkeys hes o), rfl⟩
  · rw [herr] at hrun
    cases hrun

end Hereditary

omit [DecidableEq ν] in
/-- The settings that are written have a table of hooks, in which no event is twice. -/
theorem written_settings {o : UserScopeOptions ν} {w next : Json ν} (hw : w.Distinct)
    (hnext : applyHooks o w = .ok next) : ∃ ms es, next.written = .obj ms ∧
      lookup? ms (utf16 "hooks") = some (.obj es) ∧ (es.map (·.1)).Nodup := by
  have hd := Json.distinct_written _ (distinct_applyHooks hw hnext)
  obtain ⟨es', rfl, -⟩ := applyHooks_ok hnext
  have hlook : (Json.obj (setMember w.ownMembers (utf16 "hooks") (.obj es'))).written.member?
      (utf16 "hooks") = some (.obj (es'.map fun m => (m.1, m.2.written))) := by
    rw [Json.member_written, member_setMember, Option.map_some, Json.written_obj]
  have hes := Json.hereditary_distinct.member hd hlook
  rw [Json.Distinct] at hes
  rw [Json.written_obj] at hlook ⊢
  exact ⟨_, _, rfl, hlook, hes.1⟩

theorem strippedConfig_written (o : UserScopeOptions ν) {w : Json ν} (hw : w.Distinct) :
    strippedConfig o (some (fileText (applyMcp o w))) =
      (some (stripMcp (applyMcp o w).written (some o.installId)).1,
        (stripMcp (applyMcp o w).written (some o.installId)).2) := by
  have hread : readJson (some (fileText (applyMcp o w))) = some (applyMcp o w).written :=
    readJson_fileText (distinct_applyMcp hw o)
  have htruthy : truthy (applyMcp o w).written = true := by
    rw [applyMcp, Json.written_obj]
    rfl
  simp only [strippedConfig, hread, htruthy, if_true]

theorem strippedSettings_written {o : UserScopeOptions ν} {w next : Json ν} (hw : w.Distinct)
    (hnext : applyHooks o w = .ok next) :
    strippedSettings o (some (fileText next)) =
      (stripHooks o next.written (some o.installId)).map fun out => (some out.1, out.2) := by
  have hd := distinct_applyHooks hw hnext
  obtain ⟨es', rfl, -⟩ := applyHooks_ok hnext
  have htruthy : truthy (Json.obj (setMember w.ownMembers (utf16 "hooks") (.obj es'))).written =
      true := by
    rw [Json.written_obj]
    rfl
  simp only [strippedSettings, readJson_fileText hd, htruthy, if_true]
  rfl

/-! ## What the uninstall leaves -/

section Leaves

variable {o : UserScopeOptions ν} {d : ScopeDrive} {next : Json ν}

/-- Both files hold what was written of some value. -/
theorem uninstalled_texts (hw : Writes o (configOf d) (settingsOf d) next) (f : ScopeFile) :
    ∃ x : Json ν, x.Distinct ∧ (uninstalled o 1 d).files (.target f) = some (fileText x) := by
  have hdc := distinct_applyMcp (o := o) (readOrEmpty_distinct (d.files (.target .config)))
  have hds := readOrEmpty_distinct (ν := ν) (d.files (.target .settings))
  obtain ⟨hcfile, hsfile⟩ := registered_writes hw
  obtain ⟨hconfig, hsettings⟩ := unregister_files o (registered o 1 d)
  rw [uninstalled]
  cases f with
  | config =>
    rcases hconfig with hsame | ⟨v, hv, htext⟩
    · exact ⟨_, hdc, hsame.trans hcfile⟩
    · rw [hcfile, strippedConfig_written o (readOrEmpty_distinct _), Option.some.injEq] at hv
      exact ⟨v, hv ▸ hereditary_stripMcp Json.hereditary_distinct (Json.distinct_written _ hdc) _,
        htext⟩
  | settings =>
    rcases hsettings with hsame | ⟨v, changed, hv, htext⟩
    · exact ⟨_, distinct_applyHooks hds hw.merged, hsame.trans hsfile⟩
    · rw [hsfile, strippedSettings_written hds hw.merged] at hv
      cases hrun : stripHooks o next.written (some o.installId) with
      | error e =>
        rw [hrun] at hv
        cases hv
      | ok out =>
        rw [hrun] at hv
        cases hv
        have hd := Json.distinct_written _ (distinct_applyHooks hds hw.merged)
        obtain ⟨ms, es, heq, hlook, hkeys⟩ := written_settings hds hw.merged
        rw [heq] at hrun hd
        exact ⟨_, (hereditary_stripHooks Json.hereditary_distinct hd hlook hkeys hrun).1, htext⟩

/-- So what comes back was written. -/
theorem Restores.finite {c s : Value ν} (h : Restores o c s d)
    (hw : Writes o (configOf d) (settingsOf d) next) : c.json.Finite ∧ s.json.Finite := by
  have hback : ∀ (f : ScopeFile) (v : Value ν),
      ((uninstalled o 1 d).files (.target f)).bind Value.parse = some v → v.json.Finite := by
    intro f v hv
    obtain ⟨x, hx, htext⟩ := uninstalled_texts hw f
    rw [htext, Option.bind_some, parse_fileText hx, Option.some.injEq] at hv
    rw [← hv]
    exact Json.finite_written x
  exact ⟨hback .config c h.1, hback .settings s h.2.1⟩

omit [DecidableEq ν] in
theorem finite_readOrEmpty {bs : Option Bytes} {v : Value ν} (h : bs.bind Value.parse = some v)
    (hv : v.json.Finite) : (readOrEmpty bs : Json ν).Finite := by
  rcases readOrEmpty_parse h with hread | ⟨-, hread⟩
  · rwa [hread]
  · rw [hread]
    exact Json.hereditary_finite.empty

/-- Values that can be written come back exactly when stripping leaves them as they are. -/
theorem restores_written_iff {c s : Value ν}
    (hconfig : (d.files (.target .config)).bind Value.parse = some c)
    (hsettings : (d.files (.target .settings)).bind Value.parse = some s)
    (hserver : serverOf c.json = none) (hentry : NoEntry o s.json)
    (hw : Writes o (configOf d) (settingsOf d) next) (hfc : c.json.Finite) (hfs : s.json.Finite) :
    Restores o c s d ↔ ServersRestorable c.json ∧ HooksRestorable s.json := by
  obtain ⟨hcfile, hsfile⟩ := registered_writes hw
  have hdc : (configOf d : Json ν).Distinct := readOrEmpty_distinct _
  have hds : (settingsOf d : Json ν).Distinct := readOrEmpty_distinct _
  -- the merged values are written as they are
  have hfmcp : (applyMcp o (configOf d)).Finite :=
    hereditary_applyMcp Json.hereditary_finite (finite_readOrEmpty hconfig hfc) o
  have hfnext : next.Finite :=
    hereditary_applyHooks Json.hereditary_finite (finite_readOrEmpty hsettings hfs) hw.merged
  have hcfg := stripMcp_restores_iff (o := o) c.distinct (readOrEmpty_parse hconfig) hserver
  have hset := stripHooks_restores_iff s.distinct (readOrEmpty_parse hsettings) hentry hw.merged
  have hsame : ∀ n, uninstalled o (n + 1) d = uninstalled o 1 d := fun n => by
    rw [uninstalled, uninstalled, registered_once hw hfmcp hfnext n]
  have hstrip := strippedSettings_written hds hw.merged
  have hmcp := strippedConfig_written o hdc
  rw [← hsfile, Json.written_eq _ hfnext] at hstrip
  have hstripped : (stripMcp (applyMcp o (configOf d)) (some o.installId)).2 = true := by
    rw [stripMcp_applyMcp]
  rw [← hcfile, Json.written_eq _ hfmcp, hstripped] at hmcp
  cases hrun : stripHooks o next (some o.installId) with
  | error e =>
    have hthrows := unregister_throws (hstrip.trans (by rw [hrun]; rfl))
    have hnot : ¬ HooksRestorable s.json := by
      rw [← hset, hrun]
      rintro ⟨changed, hok⟩
      cases hok
    refine ⟨fun hback => ?_, fun h => absurd h.2 hnot⟩
    -- it throws before anything is written, and the entry is still there
    have hc := hback.1
    rw [uninstalled, hthrows, hcfile, Option.bind_some,
      parse_fileText (distinct_applyMcp hdc o), Option.some.injEq] at hc
    have hcjson : (applyMcp o (configOf d)).written = c.json := congrArg Value.json hc
    rw [← hcjson, Json.written_eq _ hfmcp, serverOf_applyMcp] at hserver
    cases hserver
  | ok out =>
    obtain ⟨v, changed⟩ := out
    have hchanged := stripHooks_changed hw.merged hds hrun
    subst hchanged
    obtain ⟨ms, es, heq, hlook, hkeys⟩ := written_settings hds hw.merged
    rw [Json.written_eq _ hfnext] at heq
    have hdnext := distinct_applyHooks hds hw.merged
    have hrun' := hrun
    rw [heq] at hdnext hrun' hfnext
    obtain ⟨hdv, htruthy⟩ :=
      hereditary_stripHooks Json.hereditary_distinct hdnext hlook hkeys hrun'
    obtain ⟨hfv, -⟩ := hereditary_stripHooks Json.hereditary_finite hfnext hlook hkeys hrun'
    have hdm := hereditary_stripMcp Json.hereditary_distinct (distinct_applyMcp (o := o) hdc)
      (some o.installId)
    have hfm := hereditary_stripMcp Json.hereditary_finite hfmcp (some o.installId)
    have htruthym : truthy (stripMcp (applyMcp o (configOf d)) (some o.installId)).1 = true := by
      rw [stripMcp_applyMcp]
      split <;> rfl
    obtain ⟨hcnew, hsnew⟩ := unregister_writes htruthym htruthy hw.reaches.real hmcp
      (hstrip.trans (by rw [hrun]; rfl))
    have hvalue : v = s.json ↔ HooksRestorable s.json := by
      rw [← hset, hrun]
      constructor
      · rintro rfl
        exact ⟨true, rfl⟩
      · rintro ⟨changed, hok⟩
        rw [Except.ok.injEq, Prod.mk.injEq] at hok
        exact hok.1
    have hparse : Restores o c s d ↔
        (stripMcp (applyMcp o (configOf d)) (some o.installId)).1 = c.json ∧ v = s.json := by
      rw [Restores, uninstalled, hcnew, hsnew, Option.bind_some, Option.bind_some,
        parse_fileText hdm, parse_fileText hdv, Option.some.injEq, Option.some.injEq]
      simp only [Json.written_eq _ hfm, Json.written_eq _ hfv]
      constructor
      · rintro ⟨hc, hs, -⟩
        exact ⟨congrArg Value.json hc, congrArg Value.json hs⟩
      · rintro ⟨hc, hs⟩
        obtain ⟨c, hcd⟩ := c
        obtain ⟨s, hsd⟩ := s
        subst hc
        subst hs
        exact ⟨rfl, rfl, fun n f => by rw [hsame n, uninstalled]⟩
    rw [hparse, hcfg, hvalue]

end Leaves

omit [DecidableEq ν] in
/-- What is read of a file that parses is its value. -/
theorem readJson_parse {bs : Option Bytes} {c : Value ν} {v : Json ν}
    (h : bs.bind Value.parse = some c) (hv : readJson bs = some v) : c.json = v := by
  simp only [readJson, h] at hv
  split at hv
  · cases hv
  · exact Option.some.inj hv

/-- Where registrations write nothing, an uninstall has nothing to take out. -/
theorem uninstalled_idle {o : UserScopeOptions ν} {d : ScopeDrive} {c s : Value ν}
    (hconfig : (d.files (.target .config)).bind Value.parse = some c)
    (hsettings : (d.files (.target .settings)).bind Value.parse = some s)
    (hserver : serverOf c.json = none) (hentry : NoEntry o s.json)
    (h : ¬ ∃ next, Writes o (configOf d) (settingsOf d) next) (n : Nat) :
    TargetsKept d (uninstalled o n d) := by
  have hidle := registered_idle h n
  -- Neither file has the product's entry, so stripping finds nothing to remove.
  have hsame : (unregisterUserScope Faults.none o (registered o n d)).2 = registered o n d := by
    apply unregister_keeps
    · rw [hidle .config]
      apply strippedConfig_none
      intro v hv
      rw [← readJson_parse hconfig hv, hserver]
    · rw [hidle .settings]
      intro hk hhk
      unfold strippedSettings at hhk
      split at hhk
      · rename_i v hv
        have hread : s.json = v := readJson_parse hsettings hv
        split at hhk
        · cases hrun : stripHooks o v (some o.installId) with
          | error e =>
            rw [hrun] at hhk
            cases hhk
          | ok out =>
            rw [hrun] at hhk
            obtain ⟨v', changed⟩ := out
            have hout : changed = false := stripHooks_unchanged (hread ▸ hentry) hrun
            cases hhk
            exact hout
        · cases hhk
          rfl
      · cases hhk
        rfl
  intro f
  rw [uninstalled, hsame, hidle f]

/-- **Uninstalling restores both values exactly when nothing was written, or both can be written and
    all that it passes over can be restored.** However often the registration is repeated, the
    result is the same. -/
theorem uninstall_restores_iff (o : UserScopeOptions ν) (d : ScopeDrive) (c s : Value ν)
    (hconfig : (d.files (.target .config)).bind Value.parse = some c)
    (hsettings : (d.files (.target .settings)).bind Value.parse = some s)
    (hserver : serverOf c.json = none) (hentry : NoEntry o s.json) :
    Restores o c s d ↔ ((∃ next, Writes o (configOf d) (settingsOf d) next) →
      ServersRestorable c.json ∧ HooksRestorable s.json ∧ c.json.Finite ∧ s.json.Finite) := by
  by_cases hwrites : ∃ next, Writes o (configOf d) (settingsOf d) next
  · obtain ⟨next, hw⟩ := hwrites
    constructor
    · intro h _
      obtain ⟨hfc, hfs⟩ := h.finite hw
      obtain ⟨hservers, hhooks⟩ :=
        (restores_written_iff hconfig hsettings hserver hentry hw hfc hfs).mp h
      exact ⟨hservers, hhooks, hfc, hfs⟩
    · intro h
      obtain ⟨hservers, hhooks, hfc, hfs⟩ := h ⟨next, hw⟩
      exact (restores_written_iff hconfig hsettings hserver hentry hw hfc hfs).mpr
        ⟨hservers, hhooks⟩
  · have hkept := uninstalled_idle hconfig hsettings hserver hentry hwrites
    refine ⟨fun _ hw => absurd hw hwrites, fun _ => ?_⟩
    refine ⟨by rw [hkept 1 .config, hconfig], by rw [hkept 1 .settings, hsettings], fun n f => ?_⟩
    rw [hkept (n + 1) f, hkept 1 f]

/-- A drive with the two values in the two files. -/
def stored (c s : Value Int) : ScopeDrive where
  files
    | .target .config => some c.stringify
    | .target .settings => some s.stringify
    | _ => none
  failed := []

theorem stored_parse (c s : Value Int) :
    ((stored c s).files (.target .config)).bind Value.parse = some c ∧
      ((stored c s).files (.target .settings)).bind Value.parse = some s := by
  simp only [stored, Option.bind_some, Value.parse_stringify, and_self]

/-- A configuration with a server of the user's. -/
def someServer : Value Int where
  json := .obj [(utf16 "numStartups", .num 7), (utf16 "mcpServers", .obj
    [(utf16 "files", .obj [(utf16 "command", .str (utf16 "npx"))])])]
  distinct := by
    simp [Json.Distinct, Json.DistinctMembers]
    decide

def notifyHandler : Json Int := .obj [(utf16 "command", .str (utf16 "notify"))]

/-- Settings with a handler of the user's on an event that the product wires too. -/
def someHook : Value Int where
  json := .obj [(utf16 "hooks", .obj
    [(utf16 "Stop", .arr [.obj [(utf16 "hooks", .arr [notifyHandler])]])])]
  distinct := by
    simp [Json.Distinct, Json.DistinctMembers, Json.DistinctItems, notifyHandler]

theorem someServer_restorable : ServersRestorable someServer.json := by
  refine ⟨_, rfl, fun t ht => ?_⟩
  have hkey : (utf16 "numStartups" = utf16 "mcpServers") = False := by decide
  simp only [Json.lookup_cons, hkey, if_false, if_true, Option.some.injEq] at ht
  exact ⟨_, ht.symm, by simp⟩

theorem someHook_table {t : Json Int} (h : someHook.json.member? (utf16 "hooks") = some t) :
    t = .obj [(utf16 "Stop", .arr [.obj [(utf16 "hooks", .arr [notifyHandler])]])] := by
  simp only [someHook, Json.member?, Json.lookup_cons, if_true, Option.some.injEq] at h
  exact h.symm

theorem handlersOf_notify :
    handlersOf (.obj [(utf16 "hooks", .arr [notifyHandler])]) = [notifyHandler] := by
  simp only [handlersOf, Json.member?, Json.lookup_cons, if_true]

theorem someHook_restorable : HooksRestorable someHook.json := by
  refine ⟨_, rfl, fun t ht => ⟨_, someHook_table ht, by simp, ?_⟩⟩
  intro e he
  rw [List.mem_singleton.mp he]
  refine ⟨by decide, _, rfl, by simp, ?_⟩
  intro g hg
  rw [List.mem_singleton.mp hg]
  refine ⟨⟨_, _, rfl, by rw [Json.lookup_cons, if_pos rfl], by simp⟩, ?_⟩
  rw [handlersOf_notify]
  exact List.forall_mem_singleton.mpr (by simp [notifyHandler])

theorem someHook_noEntry : NoEntry someOptions someHook.json := by
  intro t ht e he g hg h hh
  rw [someHook_table ht] at he
  obtain rfl := List.mem_singleton.mp he
  obtain rfl := List.mem_singleton.mp hg
  rw [handlersOf_notify] at hh
  obtain rfl := List.mem_singleton.mp hh
  decide

/-- The server and the handler come back, from files that the registration had changed. -/
theorem uninstall_restores_both : Restores someOptions someServer someHook
      (stored someServer someHook) ∧
    ∀ f, (registered someOptions 1 (stored someServer someHook)).files (.target f) ≠
      (stored someServer someHook).files (.target f) := by
  have hserver : serverOf someServer.json = none := by
    have hkeys : (utf16 "numStartups" = utf16 "mcpServers") = False ∧
      (utf16 "files" = XBUS_MCP_KEY) = False := by decide
    simp only [serverOf, someServer, Json.member?, Json.lookup_cons, hkeys, if_false, if_true,
      Option.bind_some]
    rfl
  have hserverFinite : someServer.json.Finite := by
    simp [someServer, Json.Finite, Json.FiniteMembers, JsFloat.isFinite]
  have hhookFinite : someHook.json.Finite := by
    simp [someHook, notifyHandler, Json.Finite, Json.FiniteMembers, Json.FiniteItems]
  refine ⟨?_, fun f => by cases f <;> decide +kernel⟩
  exact (uninstall_restores_iff someOptions (stored someServer someHook) someServer someHook
    (stored_parse _ _).1 (stored_parse _ _).2 hserver someHook_noEntry).mpr fun _ =>
      ⟨someServer_restorable, someHook_restorable, hserverFinite, hhookFinite⟩

/-- `{}` -/
def emptyObject : Value Int := ⟨.obj [], by simp [Json.Distinct, Json.DistinctMembers]⟩

/-- A table of servers with none in it. -/
def noServers : Value Int :=
  ⟨.obj [(utf16 "mcpServers", .obj [])], by simp [Json.Distinct, Json.DistinctMembers]⟩

/-- The empty table is gone afterwards. -/
theorem uninstall_drops_empty : ¬ ∀ (o : UserScopeOptions Int) (d : ScopeDrive) (c s : Value Int),
    (d.files (.target .config)).bind Value.parse = some c →
    (d.files (.target .settings)).bind Value.parse = some s →
    serverOf c.json = none → NoEntry o s.json → Restores o c s d := by
  intro h
  have hserver : serverOf noServers.json = none := by
    simp only [serverOf, noServers, Json.member?, Json.lookup_cons, if_true, Option.bind_some]
    rfl
  obtain ⟨hback, -⟩ := h someOptions (stored noServers emptyObject) noServers emptyObject
    (stored_parse _ _).1 (stored_parse _ _).2 hserver (fun t ht => by cases ht)
  have hgone : (((uninstalled someOptions 1 (stored noServers emptyObject)).files
      (.target .config)).bind Value.parse).map
      (fun v : Value Int => (v.json.member? (utf16 "mcpServers")).isSome) = some false := by
    decide +kernel
  have hthere : (noServers.json.member? (utf16 "mcpServers")).isSome = true := by decide
  rw [hback, Option.map_some, hthere] at hgone
  cases hgone

end Proof
end XBus
