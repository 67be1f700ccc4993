import XBus.Proof.Preserving

/-!
# What stripping makes of what merging made

`stripMcp` undoes `applyMcp` up to one thing: a table that is left empty is dropped, also one that
was empty to begin with. `stripHooks` goes over all events, not only those that were added to, so
every empty table, empty event and empty group goes with it, and a malformed event makes it throw.
What it makes of one event it makes of that event wired as well (`filterMap_wireEvents`), which is
why the pass can be compared with the user's own events.
-/

set_option autoImplicit false

namespace XBus
namespace Proof

open Lib
open Lib.Json (Members lookup? without indexed assign orElse isString truthy setMember)

variable {ν : Type}

/-- The handlers that merging leaves are values. -/
theorem sound_wired (o : UserScopeOptions ν) (entry : JsString) {v : Option (Json ν)}
    (hv : SoundEvent v) : ∀ g ∈ wiredGroups o entry v, SoundGroup g := by
  intro g hg
  rcases List.mem_append.mp hg with hg | hg
  · obtain ⟨g, hmem, -, rfl⟩ := mem_leftOf.mp hg
    have hsound : SoundGroup g := by
      unfold groupsOf at hmem
      split at hmem
      · exact hv g hmem
      · cases hmem
    refine ⟨by simp [cleanedBy], ?_⟩
    simp only [cleanedBy, member_setMember]
    intro h hh
    have hin := (List.mem_filter.mp hh).1
    unfold handlersOf at hin
    split at hin
    · rename_i hs hm
      rw [SoundGroup, hm] at hsound
      exact hsound.2 h hin
    · cases hin
  · rw [List.mem_singleton.mp hg]
    refine ⟨by simp [ownGroupFor], ?_⟩
    simp only [ownGroupFor, Json.member?, Json.lookup_cons, if_true]
    simp [xbusHookHandlerFor]

/-! ## Stripping the servers -/

section Servers

variable [JsFloat ν] [DecidableEq ν]

omit [JsFloat ν] [DecidableEq ν] in
theorem serverOf_applyMcp (o : UserScopeOptions ν) (cfg : Json ν) :
    serverOf (applyMcp o cfg) = some (xbusMcpEntry o) := by
  simp only [serverOf, applyMcp, member_setMember, Option.bind_some]

/-- The value has a table of servers that is not empty, or none. -/
def ServersRestorable (v : Json ν) : Prop :=
  ∃ ms, v = .obj ms ∧ ∀ t, lookup? ms (utf16 "mcpServers") = some t → ∃ ss, t = .obj ss ∧ ss ≠ []

/-- The servers that were there, and the product's taken out again. -/
def otherServers (cfg : Json ν) : Members ν :=
  without (orElse (cfg.member? (utf16 "mcpServers")) (.obj [])).ownMembers XBUS_MCP_KEY

theorem stripMcp_applyMcp (o : UserScopeOptions ν) (cfg : Json ν) :
    stripMcp (applyMcp o cfg) (some o.installId) =
      (if otherServers cfg = [] then .obj (without cfg.ownMembers (utf16 "mcpServers"))
        else .obj (setMember cfg.ownMembers (utf16 "mcpServers") (.obj (otherServers cfg))),
        true) := by
  have hserver := serverOf_applyMcp o cfg
  have htable : (applyMcp o cfg).member? (utf16 "mcpServers") = some (.obj (setMember
      (orElse (cfg.member? (utf16 "mcpServers")) (.obj [])).ownMembers XBUS_MCP_KEY
      (xbusMcpEntry o))) := by
    simp only [applyMcp, member_setMember]
  have htruthy : truthy (xbusMcpEntry o) = true := by simp [xbusMcpEntry, truthy]
  have hown : ((some o.installId).any fun owner =>
      !isString ((xbusMcpEntry o).member? XBUS_OWNER_TAG) owner) = false := by
    simp [xbusMcpEntry_owner, isString]
  simp only [stripMcp, htable, hserver, htruthy, hown, Bool.not_true, Bool.false_eq_true, if_false,
    Json.ownMembers_obj, Json.without_setMember]
  simp only [applyMcp, Json.ownMembers_obj, Json.without_setMember, Json.setMember_setMember]
  change (if (otherServers cfg).isEmpty then _ else _) = _
  by_cases hempty : otherServers cfg = []
  · rw [if_pos hempty, if_pos (List.isEmpty_iff.mpr hempty)]
  · rw [if_neg hempty, if_neg (by simpa using hempty)]
    rfl

theorem stripMcp_restores_iff {o : UserScopeOptions ν} {v w : Json ν} (hv : v.Distinct)
    (hw : w = v ∨ v = .null ∧ w = .obj []) (hno : serverOf v = none) :
    (stripMcp (applyMcp o w) (some o.installId)).1 = v ↔ ServersRestorable v := by
  rw [stripMcp_applyMcp]
  constructor
  · intro h
    -- Stripping answers an object, so the value was one.
    obtain ⟨ms, rfl⟩ : ∃ ms, v = .obj ms := by
      split at h
      · exact ⟨_, h.symm⟩
      · exact ⟨_, h.symm⟩
    have hw' : w = .obj ms := by
      rcases hw with rfl | ⟨hnull, -⟩
      · rfl
      · cases hnull
    subst hw'
    refine ⟨ms, rfl, fun t ht => ?_⟩
    split at h
    · rw [Json.obj.injEq] at h
      rw [← h, Json.ownMembers_obj, Json.lookup_without] at ht
      cases ht
    · rename_i hne
      rw [Json.obj.injEq] at h
      rw [← h, Json.lookup_setMember_self, Option.some.injEq] at ht
      exact ⟨_, ht.symm, hne⟩
  · rintro ⟨ms, rfl, hservers⟩
    have hw' : w = .obj ms := by
      rcases hw with rfl | ⟨hnull, -⟩
      · rfl
      · cases hnull
    subst hw'
    rw [Json.Distinct] at hv
    -- A table that was not there goes again, one with other servers is put back as it was.
    cases ht : lookup? ms (utf16 "mcpServers") with
    | none =>
      have hnone : otherServers (.obj ms) = [] := by
        simp [otherServers, Json.member?, ht, orElse, Json.ownMembers_obj, without]
      rw [if_pos hnone]
      simp only [Json.ownMembers_obj, Json.without_fresh (Json.lookup_eq_none.mp ht)]
    | some t =>
      obtain ⟨ss, rfl, hne⟩ := hservers t ht
      have hfresh : XBUS_MCP_KEY ∉ ss.map (·.1) := by
        simp only [serverOf, Json.member?, ht, Option.bind_some] at hno
        exact Json.lookup_eq_none.mp hno
      have hsame : otherServers (.obj ms) = ss := by
        simp only [otherServers, Json.member?, ht, orElse, Json.ownMembers_obj,
          Json.without_fresh hfresh]
      rw [hsame, if_neg hne]
      simp only [Json.ownMembers_obj, Json.setMember_same hv.1 ht]

end Servers

/-! ## Stripping the hooks -/

/-- Filtering twice is filtering once. -/
theorem leftOf_leftOf (q q' : Json ν → Bool) (gs : List (Json ν)) :
    leftOf q (leftOf q' gs) = leftOf (fun h => q h && q' h) gs := by
  induction gs with
  | nil => rfl
  | cons g gs ih =>
    have hfilter : ((handlersOf g).filter q').filter q =
        (handlersOf g).filter fun h => q h && q' h := List.filter_filter
    rw [leftOf_cons q', leftOf_cons (fun h => q h && q' h)]
    by_cases hempty : (handlersOf g).filter q' = []
    · have hboth : (handlersOf g).filter (fun h => q h && q' h) = [] := by
        rw [← hfilter, hempty, List.filter_nil]
      rw [if_pos hempty, if_pos hboth, ih]
    · rw [if_neg hempty, leftOf_cons q, handlersOf_cleanedBy, hfilter, ih]
      have hgroup : (cleanedBy q (cleanedBy q' g).group).group =
          (cleanedBy (fun h => q h && q' h) g).group := by
        simp only [cleanedBy, Json.ownMembers_obj, Json.setMember_setMember, Json.obj.injEq]
        rw [← hfilter]
        simp only [handlersOf, member_setMember]
      rw [hgroup]

theorem leftOf_congr {q q' : Json ν → Bool} {gs : List (Json ν)}
    (h : ∀ g ∈ gs, ∀ x ∈ handlersOf g, q x = q' x) : leftOf q gs = leftOf q' gs := by
  induction gs with
  | nil => rfl
  | cons g gs ih =>
    obtain ⟨hg, hrest⟩ := List.forall_mem_cons.mp h
    have hfilter : (handlersOf g).filter q = (handlersOf g).filter q' := List.filter_congr hg
    have hgroup : (cleanedBy q g).group = (cleanedBy q' g).group := by
      simp only [cleanedBy, hfilter]
    rw [leftOf_cons, leftOf_cons, ih hrest, hfilter, hgroup]

/-- The handlers that uninstalling leaves. -/
def staysFor (o : UserScopeOptions ν) (h : Json ν) : Bool := !removes o (some o.installId) h

/-- No handler of the event refers to the product. -/
def NoHandler (o : UserScopeOptions ν) (v : Option (Json ν)) : Prop :=
  ∀ g ∈ groupsOf v, ∀ h ∈ handlersOf g, refersTo o h = false

theorem removes_handlerFor (o : UserScopeOptions ν) {entry : JsString}
    (h : entry ∈ allXbusEntries o) :
    removes o (some o.installId) (xbusHookHandlerFor o entry) = true := by
  simp [removes, refersTo_handlerFor o h, (handlerFor_members o entry).2, isString]

theorem handlersOf_own (o : UserScopeOptions ν) (entry : JsString) :
    handlersOf (ownGroupFor o entry) = [xbusHookHandlerFor o entry] := by
  simp only [handlersOf, ownGroupFor, Json.member?, Json.lookup_cons, if_true]

/-- Of an event that was wired, stripping leaves what it leaves of the event itself. -/
theorem leftOf_wiredGroups {o : UserScopeOptions ν} {ev : XbusHookEvent} {entry : JsString}
    (hentry : hookEntry? o ev = some entry) {v : Option (Json ν)} (hv : NoHandler o v) :
    leftOf (staysFor o) (wiredGroups o entry v) = leftOf (staysFor o) (groupsOf v) := by
  have hown : leftOf (staysFor o) [ownGroupFor o entry] = [] := by
    rw [leftOf_cons, handlersOf_own, if_pos]
    · rfl
    · simp [staysFor, removes_handlerFor o (refersTo_own o hentry)]
  rw [wiredGroups, leftOf_append, hown, List.append_nil, leftOf_leftOf]
  apply leftOf_congr
  intro g hg h hh
  simp [hv g hg h hh]

/-- The event with the groups that are left, if it stays at all. -/
def eventLeft (ev : JsString) (left : List (Json ν)) : Option (JsString × Json ν) :=
  if ev = utf16 "__proto__" ∨ left = [] then none else some (ev, .arr left)

/-- What stripping makes of one event. -/
def strippedEvent (o : UserScopeOptions ν) (e : JsString × Json ν) : Option (JsString × Json ν) :=
  eventLeft e.1 (leftOf (staysFor o) (groupsOf (some e.2)))

/-- Wiring an event is not seen by stripping. -/
theorem filterMap_wireEvent {o : UserScopeOptions ν} {ev : XbusHookEvent} {es es' : Members ν}
    (hes : (es.map (·.1)).Nodup) (hno : NoHandler o (lookup? es ev.key))
    (hwire : wireEvent o es ev = .ok es') :
    es'.filterMap (strippedEvent o) = es.filterMap (strippedEvent o) := by
  cases hentry : hookEntry? o ev with
  | none =>
    simp only [wireEvent, hentry, Except.ok.injEq] at hwire
    rw [hwire]
  | some entry =>
    obtain ⟨-, rfl⟩ := ((throws_wireEvent hentry).ok_iff es es').mp hwire
    have hleft := leftOf_wiredGroups hentry hno
    apply Json.filterMap_setMember hes
    · intro w hw
      rw [hw] at hleft ⊢
      change eventLeft ev.key (leftOf (staysFor o) (wiredGroups o entry (some w))) = _
      rw [hleft, strippedEvent]
    · intro hw
      rw [hw] at hleft ⊢
      change eventLeft ev.key (leftOf (staysFor o) (wiredGroups o entry none)) = none
      rw [hleft]
      exact if_pos (.inr rfl)

theorem filterMap_wireEvents {o : UserScopeOptions ν} {evs : List XbusHookEvent}
    {es es' : Members ν} (hevs : evs.Nodup) (hes : (es.map (·.1)).Nodup)
    (hno : ∀ ev ∈ evs, NoHandler o (lookup? es ev.key)) (hwire : wireEvents o evs es = .ok es') :
    es'.filterMap (strippedEvent o) = es.filterMap (strippedEvent o) := by
  induction evs generalizing es with
  | nil =>
    cases hwire
    rfl
  | cons ev evs ih =>
    obtain ⟨hnew, hevs⟩ := List.nodup_cons.mp hevs
    obtain ⟨hnoev, hnorest⟩ := List.forall_mem_cons.mp hno
    cases hmid : wireEvent o es ev with
    | error e => simp [wireEvents, hmid, bind, Except.bind] at hwire
    | ok mid =>
      have hone : wireEvents o [ev] es = .ok mid := by
        simp [wireEvents, hmid, bind, Except.bind]
      have hwired := wireEvents_ok (List.nodup_singleton ev) hone
      have hrest := ih hevs (hwired.keys hes) (fun ev' hev' => by
        rw [hwired.others ev'.key fun x hx _ hkey => by
          rw [List.mem_singleton.mp hx] at hkey
          exact hnew (key_inj hkey ▸ hev')]
        exact hnorest ev' hev') (by simpa [wireEvents, hmid, bind, Except.bind] using hwire)
      rw [hrest, filterMap_wireEvent hes hnoev hmid]

/-- The event is an array, and going over its groups does not throw. -/
def FineEvent (e : JsString × Json ν) : Prop :=
  ∃ gs, e.2 = .arr gs ∧ ∀ g ∈ gs, SoundGroup g

theorem throws_stripEvent (o : UserScopeOptions ν) :
    Throws (stripEvent o (some o.installId)) FineEvent
      fun e => (e.1, (groupsOf (some e.2)).map (cleanedBy (staysFor o))) := by
  have hkeep : Throws (fun h => do
      let _ ← isXbusHookHandler o h
      return !removes o (some o.installId) h) (· ≠ .null) (staysFor o) := by
    intro h
    rcases throws_isXbusHookHandler o h with ⟨hne, hh⟩ | ⟨hnull, e, hh⟩
    · exact .inl ⟨hne, by simp only [hh]; rfl⟩
    · exact .inr ⟨hnull, e, by simp only [hh]; rfl⟩
  rintro ⟨ev, v⟩
  have hno : ∀ w : Json ν, (∀ gs, w ≠ .arr gs) → ¬ FineEvent (ev, w) := by
    rintro w hw ⟨gs, hgs, -⟩
    exact hw gs hgs
  cases v with
  | arr gs =>
    have hrun : stripEvent o (some o.installId) (ev, .arr gs) =
        (mapE (cleanGroup fun h => do
          let _ ← isXbusHookHandler o h
          return !removes o (some o.installId) h) gs).map fun cs => (ev, cs) := rfl
    rcases throws_mapE (throws_cleanGroup hkeep) gs with ⟨hall, hmap⟩ | ⟨hall, e, hmap⟩
    · refine .inl ⟨⟨gs, rfl, hall⟩, ?_⟩
      rw [hrun, hmap]
      rfl
    · refine .inr ⟨?_, e, by rw [hrun, hmap]; rfl⟩
      rintro ⟨gs', hgs', hsound⟩
      rw [Json.arr.injEq] at hgs'
      exact hall (hgs' ▸ hsound)
  | null => exact .inr ⟨hno _ (by simp), _, rfl⟩
  | bool b => exact .inr ⟨hno _ (by simp), _, rfl⟩
  | num n => exact .inr ⟨hno _ (by simp), _, rfl⟩
  | str s => exact .inr ⟨hno _ (by simp), _, rfl⟩
  | obj ms => exact .inr ⟨hno _ (by simp), _, rfl⟩

/-- Assigning the events one after the other gives those that are left, in their order. -/
theorem foldl_keepEvent {o : UserScopeOptions ν} {es acc : Members ν}
    (hkeys : ((acc ++ es).map (·.1)).Nodup) :
    (es.map fun e => (e.1, (groupsOf (some e.2)).map (cleanedBy (staysFor o)))).foldl keepEvent acc
      = acc ++ es.filterMap (strippedEvent o) := by
  induction es generalizing acc with
  | nil => simp
  | cons e es ih =>
    have hfresh : e.1 ∉ acc.map (·.1) := by
      intro hmem
      rw [List.map_append, List.map_cons] at hkeys
      exact (List.nodup_append.mp hkeys).2.2 _ hmem _ (List.mem_cons_self ..) rfl
    have hskip : ((acc ++ es).map (·.1)).Nodup := by
      have hsub : (acc ++ es).Sublist (acc ++ e :: es) :=
        (List.sublist_cons_self e es).append_left acc
      exact (hsub.map (·.1)).nodup hkeys
    have hleft : groupsLeft ((groupsOf (some e.2)).map (cleanedBy (staysFor o))) =
        leftOf (staysFor o) (groupsOf (some e.2)) := rfl
    rw [List.map_cons, List.foldl_cons, keepEvent, hleft, List.filterMap_cons]
    by_cases hempty : leftOf (staysFor o) (groupsOf (some e.2)) = []
    · rw [if_pos (by simpa using hempty), ih hskip, strippedEvent, eventLeft,
        if_pos (.inr hempty)]
    · rw [if_neg (by simpa using hempty)]
      by_cases hproto : e.1 = utf16 "__proto__"
      · rw [assign, if_pos hproto, ih hskip, strippedEvent, eventLeft, if_pos (.inl hproto)]
      · rw [assign, if_neg hproto, Json.setMember_fresh hfresh, strippedEvent, eventLeft,
          if_neg (by simp [hproto, hempty]), ih (by simpa using hkeys)]
        simp

variable [JsFloat ν] [DecidableEq ν]

/-- The settings after the pass, when it gets through. -/
def strippedSettingsOf (o : UserScopeOptions ν) (ms es : Members ν) : Json ν :=
  if es.filterMap (strippedEvent o) = [] then .obj (without ms (utf16 "hooks"))
  else .obj (setMember ms (utf16 "hooks") (.obj (es.filterMap (strippedEvent o))))

theorem stripHooks_cases (o : UserScopeOptions ν) {ms es : Members ν}
    (hhooks : lookup? ms (utf16 "hooks") = some (.obj es)) (hkeys : (es.map (·.1)).Nodup) :
    ((∀ e ∈ es, FineEvent e) ∧ stripHooks o (.obj ms) (some o.installId) =
      .ok (strippedSettingsOf o ms es, es.any fun e =>
        ((groupsOf (some e.2)).map (cleanedBy (staysFor o))).any (·.changed))) ∨
    (¬ (∀ e ∈ es, FineEvent e) ∧ ∃ e, stripHooks o (.obj ms) (some o.installId) = .error e) := by
  have hmember : (Json.obj ms).member? (utf16 "hooks") = some (.obj es) := hhooks
  have htruthy : (!truthy (Json.obj es)) = false := by simp [truthy]
  rcases throws_mapE (throws_stripEvent o) es with ⟨hall, hmap⟩ | ⟨hall, e, hmap⟩
  · refine .inl ⟨hall, ?_⟩
    have hfold : (es.map fun e => (e.1, (groupsOf (some e.2)).map (cleanedBy (staysFor o)))).foldl
        keepEvent [] = [] ++ es.filterMap (strippedEvent o) :=
      foldl_keepEvent (by simpa using hkeys)
    rw [List.nil_append] at hfold
    simp only [stripHooks, hmember, htruthy, Json.ownMembers_obj, hmap, hfold, bind, Except.bind,
      pure, Except.pure, Bool.false_eq_true, if_false, List.any_map, Function.comp_def,
      strippedSettingsOf]
    by_cases hempty : es.filterMap (strippedEvent o) = []
    · simp [hempty]
    · simp [hempty]
  · refine .inr ⟨hall, e, ?_⟩
    simp only [stripHooks, hmember, htruthy, Json.ownMembers_obj, hmap, bind, Except.bind,
      Bool.false_eq_true, if_false]

/-- A group that stripping leaves as it is: an object with handlers, none of them null. -/
def RestorableGroup (g : Json ν) : Prop := FitGroup g ∧ ∀ h ∈ handlersOf g, h ≠ .null

/-- The value has a table of hooks that is not empty, or none; each of its events has a name that
    can be assigned and is a list of groups, not empty either, that stripping leaves as they are. -/
def HooksRestorable (v : Json ν) : Prop :=
  ∃ ms, v = .obj ms ∧ ∀ t, lookup? ms (utf16 "hooks") = some t → ∃ es, t = .obj es ∧ es ≠ [] ∧
    ∀ e ∈ es, e.1 ≠ utf16 "__proto__" ∧
      ∃ gs, e.2 = .arr gs ∧ gs ≠ [] ∧ ∀ g ∈ gs, RestorableGroup g

/-- No handler in the settings refers to the product. -/
def NoEntry (o : UserScopeOptions ν) (v : Json ν) : Prop :=
  ∀ t, v.member? (utf16 "hooks") = some t → ∀ e ∈ t.ownMembers, NoHandler o (some e.2)

omit [JsFloat ν] [DecidableEq ν] in
theorem RestorableGroup.sound {g : Json ν} (h : RestorableGroup g) : SoundGroup g := by
  obtain ⟨hm, -⟩ := fitGroup_handlers.mp h.1
  refine ⟨?_, ?_⟩
  · rintro rfl
    cases hm
  · rw [hm]
    exact h.2

omit [JsFloat ν] [DecidableEq ν] in
theorem restorableGroup_of_sound {g : Json ν} (h : FitGroup g) (hs : SoundGroup g) :
    RestorableGroup g := by
  obtain ⟨hm, -⟩ := fitGroup_handlers.mp h
  rw [SoundGroup, hm] at hs
  exact ⟨h, hs.2⟩

omit [JsFloat ν] [DecidableEq ν] in
/-- Groups with handlers that all stay are left as they are. -/
theorem leftOf_self {q : Json ν → Bool} {gs : List (Json ν)} (hfit : ∀ g ∈ gs, FitGroup g)
    (hdistinct : ∀ g ∈ gs, g.Distinct) (hstay : ∀ g ∈ gs, ∀ h ∈ handlersOf g, q h = true) :
    leftOf q gs = gs := by
  induction gs with
  | nil => rfl
  | cons g gs ih =>
    obtain ⟨hg, hrest⟩ := List.forall_mem_cons.mp hfit
    obtain ⟨hd, hdrest⟩ := List.forall_mem_cons.mp hdistinct
    obtain ⟨hq, hqrest⟩ := List.forall_mem_cons.mp hstay
    obtain ⟨hm, hne⟩ := fitGroup_handlers.mp hg
    have hfilter : (handlersOf g).filter q = handlersOf g := List.filter_eq_self.mpr hq
    have hsame : (cleanedBy q g).group = g := by
      obtain ⟨ms, rfl, hlook⟩ := member_obj hm
      rw [Json.Distinct] at hd
      simp only [cleanedBy, hfilter, Json.ownMembers_obj, Json.setMember_same hd.1 hlook]
    rw [leftOf_cons, hfilter, if_neg hne, hsame, ih hrest hdrest hqrest]

omit [JsFloat ν] [DecidableEq ν] in
theorem filterMap_eq_self {α : Type} {f : α → Option α} {xs : List α} (h : xs.filterMap f = xs) :
    ∀ x ∈ xs, f x = some x := by
  induction xs with
  | nil => simp
  | cons x xs ih =>
    rw [List.filterMap_cons] at h
    cases hx : f x with
    | none =>
      rw [hx] at h
      have hlen := congrArg List.length h
      have hle := List.length_filterMap_le f xs
      simp only [List.length_cons] at hlen
      omega
    | some y =>
      rw [hx, List.cons.injEq] at h
      exact List.forall_mem_cons.mpr ⟨by rw [hx, h.1], ih h.2⟩

omit [JsFloat ν] [DecidableEq ν] in
theorem stays_of_noHandler {o : UserScopeOptions ν} {v : Option (Json ν)} (h : NoHandler o v) :
    ∀ g ∈ groupsOf v, ∀ x ∈ handlersOf g, staysFor o x = true := by
  intro g hg x hx
  simp [staysFor, removes, h g hg x hx]

omit [JsFloat ν] [DecidableEq ν] in
/-- Of what the events were, nothing is lost when each can be restored. -/
theorem filterMap_restorable {o : UserScopeOptions ν} {es : Members ν}
    (hd : (Json.obj es).Distinct) (hno : ∀ e ∈ es, NoHandler o (some e.2))
    (h : ∀ e ∈ es, e.1 ≠ utf16 "__proto__" ∧
      ∃ gs, e.2 = .arr gs ∧ gs ≠ [] ∧ ∀ g ∈ gs, RestorableGroup g) :
    es.filterMap (strippedEvent o) = es := by
  have hall : ∀ e ∈ es, strippedEvent o e = some e := by
    rintro ⟨ev, v⟩ he
    obtain ⟨hproto, gs, hgs, hne, hgroups⟩ := h _ he
    simp only at hgs
    subst hgs
    rw [Json.Distinct, Json.distinctMembers_iff] at hd
    have hgd := hd.2 _ he
    rw [Json.Distinct, Json.distinctItems_iff] at hgd
    have hleft : leftOf (staysFor o) gs = gs :=
      leftOf_self (fun g hg => (hgroups g hg).1) hgd (stays_of_noHandler (hno _ he))
    simp only [strippedEvent, groupsOf, hleft, eventLeft]
    rw [if_neg (by simp [hne]; exact hproto)]
  rw [List.filterMap_congr hall, List.filterMap_some]

omit [JsFloat ν] [DecidableEq ν] in
/-- A look-up among events without a handler of the product's finds none either. -/
theorem noHandler_lookup {o : UserScopeOptions ν} {es : Members ν}
    (h : ∀ e ∈ es, NoHandler o (some e.2)) (k : JsString) : NoHandler o (lookup? es k) := by
  cases hl : lookup? es k with
  | none =>
    intro g hg
    cases hg
  | some x => exact h _ (Json.lookup_mem hl)

/-! The events of the table and what merging made of them. -/

section Events

variable {o : UserScopeOptions ν} {es es' : Members ν}

omit [JsFloat ν] [DecidableEq ν] in
/-- Events that come back from the pass over the wired ones can be restored. -/
theorem restorable_of_stripped (hkeys : (es.map (·.1)).Nodup)
    (hwired : Wired o XBUS_HOOK_EVENTS es es') (hfine : ∀ e ∈ es', FineEvent e)
    (hself : es.filterMap (strippedEvent o) = es) :
    ∀ e ∈ es, e.1 ≠ utf16 "__proto__" ∧
      ∃ gs, e.2 = .arr gs ∧ gs ≠ [] ∧ ∀ g ∈ gs, RestorableGroup g := by
  intro e he
  have hsame := filterMap_eq_self hself e he
  simp only [strippedEvent, eventLeft] at hsame
  split at hsame
  · cases hsame
  · rename_i hstay
    rw [not_or] at hstay
    have hgs : e.2 = .arr (leftOf (staysFor o) (groupsOf (some e.2))) := by
      have h2 := congrArg Prod.snd (Option.some.inj hsame)
      exact h2.symm
    refine ⟨hstay.1, _, hgs, hstay.2, fun g hg => ?_⟩
    have hfit : FitGroup g := by
      obtain ⟨g', -, hne', rfl⟩ := mem_leftOf.mp hg
      exact fitGroup_cleanedBy hne'
    apply restorableGroup_of_sound hfit
    have hlook := Json.lookup_of_mem hkeys (k := e.1) (v := e.2) he
    -- Wiring found its own events sound; any other stands as it was, and stripping read it.
    by_cases hevent : ∃ ev, ( hookEntry? o ev).isSome ∧ e.1 = ev.key
    · obtain ⟨ev, hev, hkey⟩ := hevent
      have hsound := hwired.sound ev (mem_events ev) hev
      rw [← hkey, hlook, hgs] at hsound
      exact hsound g hg
    · have hmem : e ∈ es' := by
        apply Json.lookup_mem (k := e.1) (v := e.2)
        rw [hwired.others e.1 fun ev _ hev hkey => hevent ⟨ev, hev, hkey⟩]
        exact hlook
      obtain ⟨gs, hgs', hsound⟩ := hfine e hmem
      rw [hgs, Json.arr.injEq] at hgs'
      exact hsound g (hgs' ▸ hg)

omit [JsFloat ν] [DecidableEq ν] in
/-- The pass over wired events does not throw when those there were can be restored: a wired event
    ends in the product's own group, another is as it was. -/
theorem fine_of_restorable (hkeys : (es.map (·.1)).Nodup)
    (hwired : Wired o XBUS_HOOK_EVENTS es es')
    (h : ∀ e ∈ es, e.1 ≠ utf16 "__proto__" ∧
      ∃ gs, e.2 = .arr gs ∧ gs ≠ [] ∧ ∀ g ∈ gs, RestorableGroup g) :
    ∀ e ∈ es', FineEvent e := by
  intro e he
  have hlook := Json.lookup_of_mem (hwired.keys hkeys) (k := e.1) (v := e.2) he
  by_cases hevent : ∃ ev, ( hookEntry? o ev).isSome ∧ e.1 = ev.key
  · obtain ⟨ev, hev, hkey⟩ := hevent
    obtain ⟨entry, hentry⟩ := Option.isSome_iff_exists.mp hev
    rw [hkey, hwired.wired ev (mem_events ev) entry hentry, Option.some.injEq] at hlook
    exact ⟨_, hlook.symm, sound_wired o entry (hwired.sound ev (mem_events ev) hev)⟩
  · rw [hwired.others e.1 fun ev _ hev hkey => hevent ⟨ev, hev, hkey⟩] at hlook
    obtain ⟨-, gs, hgs, -, hgroups⟩ := h _ (Json.lookup_mem hlook)
    exact ⟨gs, hgs, fun g hg => (hgroups g hg).sound⟩

end Events

theorem stripHooks_restores_iff {o : UserScopeOptions ν} {v w next : Json ν} (hv : v.Distinct)
    (hw : w = v ∨ v = .null ∧ w = .obj []) (hno : NoEntry o v)
    (hnext : applyHooks o w = .ok next) :
    (∃ changed, stripHooks o next (some o.installId) = .ok (v, changed)) ↔ HooksRestorable v := by
  obtain ⟨es', rfl, hwire⟩ := applyHooks_ok hnext
  have hwired := wireEvents_ok (by decide) hwire
  have hobj : ∀ ms, v = .obj ms → w = .obj ms := by
    rintro ms rfl
    rcases hw with rfl | ⟨hnull, -⟩
    · rfl
    · cases hnull
  have hlook : lookup? (setMember w.ownMembers (utf16 "hooks") (.obj es')) (utf16 "hooks")
      = some (.obj es') := Json.lookup_setMember_self
  have hes₀ : ((orElse (w.member? (utf16 "hooks")) (.obj [])).ownMembers.map (·.1)).Nodup := by
    have hdw : w.Distinct := by
      rcases hw with rfl | ⟨-, rfl⟩
      · exact hv
      · simp [Json.Distinct, Json.DistinctMembers]
    have hd := Json.hereditary_distinct.table hdw (utf16 "hooks")
    rw [Json.Distinct] at hd
    exact hd.1
  have hcases := stripHooks_cases o hlook (hwired.keys hes₀)
  constructor
  · rintro ⟨changed, hstrip⟩
    rcases hcases with ⟨hfine, hok⟩ | ⟨-, e, herr⟩
    swap
    · rw [herr] at hstrip
      cases hstrip
    rw [hok, Except.ok.injEq, Prod.mk.injEq] at hstrip
    obtain ⟨hvalue, -⟩ := hstrip
    -- Stripping answers an object, so the value was one.
    obtain ⟨ms, rfl⟩ : ∃ ms, v = .obj ms := by
      rw [← hvalue, strippedSettingsOf]
      split
      · exact ⟨_, rfl⟩
      · exact ⟨_, rfl⟩
    have hwv := hobj ms rfl
    subst hwv
    -- The table there was is what is left of the events once they are wired.
    refine ⟨ms, rfl, fun t ht => ?_⟩
    simp only [strippedSettingsOf, Json.ownMembers_obj, Json.without_setMember,
      Json.setMember_setMember] at hvalue
    split at hvalue
    · rw [Json.obj.injEq] at hvalue
      rw [← hvalue, Json.lookup_without] at ht
      cases ht
    · rename_i hne
      rw [Json.obj.injEq] at hvalue
      have ht' : t = .obj (es'.filterMap (strippedEvent o)) := by
        rw [← hvalue, Json.lookup_setMember_self, Option.some.injEq] at ht
        exact ht.symm
      have hmember : (Json.obj ms).member? (utf16 "hooks") = some t := ht
      rw [hmember, ht'] at hwire hwired hes₀
      simp only [orElse, Json.ownMembers_obj] at hwire hwired hes₀
      generalize hes : es'.filterMap (strippedEvent o) = es at *
      subst ht'
      -- Stripping the wired events is stripping those there were, and it left them alone.
      have hself : es.filterMap (strippedEvent o) = es := by
        rw [← filterMap_wireEvents (by decide) hes₀
          (fun ev _ => noHandler_lookup (hno (.obj es) hmember) ev.key) hwire, hes]
      exact ⟨es, rfl, hne, restorable_of_stripped hes₀ hwired hfine hself⟩
  · rintro ⟨ms, rfl, hhooks⟩
    have hwv := hobj ms rfl
    subst hwv
    have hdes : (Json.obj (orElse ((Json.obj ms).member? (utf16 "hooks")) (.obj [])).ownMembers :
        Json ν).Distinct :=
      Json.hereditary_distinct.table hv (utf16 "hooks")
    -- Without a member `hooks` the table is empty.
    have hevents : ∃ es, (orElse ((Json.obj ms).member? (utf16 "hooks")) (.obj [])).ownMembers = es
        ∧ (∀ e ∈ es, NoHandler o (some e.2)) ∧ (∀ e ∈ es, e.1 ≠ utf16 "__proto__" ∧
          ∃ gs, e.2 = .arr gs ∧ gs ≠ [] ∧ ∀ g ∈ gs, RestorableGroup g)
        ∧ (es = [] ∧ lookup? ms (utf16 "hooks") = none ∨
          es ≠ [] ∧ lookup? ms (utf16 "hooks") = some (.obj es)) := by
      cases ht : lookup? ms (utf16 "hooks") with
      | none =>
        refine ⟨[], ?_, by simp, by simp, .inl ⟨rfl, rfl⟩⟩
        simp only [Json.member?, ht, orElse, Json.ownMembers_obj]
      | some t =>
        obtain ⟨es, rfl, hne, hall⟩ := hhooks t ht
        refine ⟨es, ?_, hno (.obj es) ht, hall, .inr ⟨hne, rfl⟩⟩
        simp only [Json.member?, ht, orElse, Json.ownMembers_obj]
    obtain ⟨es, hes, hnoes, hall, hlast⟩ := hevents
    rw [hes] at hwire hwired hes₀ hdes
    have hleft : es'.filterMap (strippedEvent o) = es := by
      rw [filterMap_wireEvents (by decide) hes₀ (fun ev _ => noHandler_lookup hnoes ev.key) hwire,
        filterMap_restorable hdes hnoes hall]
    have hvalue : strippedSettingsOf o
        (setMember (Json.obj ms).ownMembers (utf16 "hooks") (.obj es')) es' = .obj ms := by
      simp only [strippedSettingsOf, hleft, Json.ownMembers_obj, Json.without_setMember,
        Json.setMember_setMember]
      rcases hlast with ⟨hnil, hnone⟩ | ⟨hne, hsome⟩
      · rw [if_pos hnil, Json.without_fresh (Json.lookup_eq_none.mp hnone)]
      · rw [Json.Distinct] at hv
        rw [if_neg hne, Json.setMember_same hv.1 hsome]
    rcases hcases with ⟨-, hok⟩ | ⟨hnot, -⟩
    · rw [hvalue] at hok
      exact ⟨_, hok⟩
    · exact absurd (fine_of_restorable hes₀ hwired hall) hnot

end Proof
end XBus
