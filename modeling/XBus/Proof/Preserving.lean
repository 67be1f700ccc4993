import XBus.Proof.Merging

/-!
# What a registration keeps of the user's files

Registration reads a file, merges, and writes the whole file again. It reads what it cannot parse as
`{}`, reads `null` as nothing where it expects a table or a list of groups, drops a group that has
no handler left — also one that had none to begin with — and writes `null` for a number that was too
large to read. Everything else of the user's stays: **`register_preserves_iff`** says that these are
the only ways to lose something, and **`register_loses_unreadable`** is the first of them.
-/

set_option autoImplicit false

namespace XBus
namespace Proof

open Lib
open Lib.Json (Members lookup? without indexed assign orElse isString truthy setMember)

variable {ν : Type}

/-! ## What has to be kept -/

/-- The keys of an object with their values; no other value has keys. -/
def membersOf : Json ν → Members ν
  | .obj ms => ms
  | _ => []

/-- A server that is the product's: the one under its key, when it carries an owner or the caller
    takes the key by force. -/
def OwnServer (o : UserScopeOptions ν) (m : JsString × Json ν) : Prop :=
  m.1 = XBUS_MCP_KEY ∧ (o.force = true ∨ (m.2.member? XBUS_OWNER_TAG).isSome)

/-- Every key of the configuration is there with its value, and every server that is the user's. -/
structure ServersKept (o : UserScopeOptions ν) (old new : Json ν) : Prop where
  others : ∀ m ∈ membersOf old, m.1 ≠ utf16 "mcpServers" → m ∈ membersOf new
  servers : ∀ t, old.member? (utf16 "mcpServers") = some t → ∃ ms ms', t = .obj ms ∧
    new.member? (utf16 "mcpServers") = some (.obj ms') ∧ ∀ m ∈ ms, ¬ OwnServer o m → m ∈ ms'

/-- A group with handlers, all of them the product's. -/
def ownGroup (o : UserScopeOptions ν) (g : Json ν) : Bool :=
  match g.member? (utf16 "hooks") with
  | some (.arr hs) => !hs.isEmpty && hs.all (refersTo o)
  | _ => false

/-- The group without the product's handlers. -/
def otherHandlers (o : UserScopeOptions ν) (g : Json ν) : Json ν :=
  match g.member? (utf16 "hooks") with
  | some (.arr hs) =>
    .obj (setMember g.ownMembers (utf16 "hooks") (.arr (hs.filter fun h => !refersTo o h)))
  | _ => g

/-- The groups that are the user's, each without the product's handlers. -/
def usersGroups (o : UserScopeOptions ν) (gs : List (Json ν)) : List (Json ν) :=
  (gs.filter fun g => !ownGroup o g).map (otherHandlers o)

/-- An event is as it was, or still has every group that is the user's and in it every handler that
    is the user's, in their order. -/
def EventKept (o : UserScopeOptions ν) (old new : Json ν) : Prop :=
  old = new ∨ ∃ gs gs', old = .arr gs ∧ new = .arr gs' ∧
    (usersGroups o gs).Sublist (usersGroups o gs')

/-- Every key of the settings is there with its value, and every event. -/
structure HooksKept (o : UserScopeOptions ν) (old new : Json ν) : Prop where
  others : ∀ m ∈ membersOf old, m.1 ≠ utf16 "hooks" → m ∈ membersOf new
  events : ∀ t, old.member? (utf16 "hooks") = some t → ∃ es es', t = .obj es ∧
    new.member? (utf16 "hooks") = some (.obj es') ∧
    ∀ e ∈ es, ∃ x, (e.1, x) ∈ es' ∧ EventKept o e.2 x

/-! ## What can be kept -/

/-- An object with at least one handler. -/
def FitGroup (g : Json ν) : Prop :=
  ∃ ms hs, g = .obj ms ∧ lookup? ms (utf16 "hooks") = some (.arr hs) ∧ hs ≠ []

section Fits

variable [JsFloat ν]

/-- What stands under the other keys can be written. The servers are a table, if they are anything;
    the one under the product's key is its own, and those of the user can be written. -/
structure ServersFit (o : UserScopeOptions ν) (v : Json ν) : Prop where
  others : ∀ m ∈ membersOf v, m.1 ≠ utf16 "mcpServers" → m.2.Finite
  servers : ∀ t, v.member? (utf16 "mcpServers") = some t → ∃ ms, t = .obj ms ∧
    (∀ x, lookup? ms XBUS_MCP_KEY = some x → OwnServer o (XBUS_MCP_KEY, x)) ∧
    ∀ m ∈ ms, ¬ OwnServer o m → m.2.Finite

/-- The event can be written, or all in it that is the user's. -/
def EventFinite (o : UserScopeOptions ν) (x : Json ν) : Prop :=
  x.Finite ∨ ∃ gs, x = .arr gs ∧ ∀ g ∈ usersGroups o gs, g.Finite

/-- What stands under the other keys can be written. The hooks are a table of events that can be, if
    they are anything, and those the product adds itself to are lists of groups with handlers. -/
structure HooksFit (o : UserScopeOptions ν) (v : Json ν) : Prop where
  others : ∀ m ∈ membersOf v, m.1 ≠ utf16 "hooks" → m.2.Finite
  events : ∀ t, v.member? (utf16 "hooks") = some t → ∃ es, t = .obj es ∧
    (∀ e ∈ es, EventFinite o e.2) ∧
    ∀ ev, ( hookEntry? o ev).isSome → ∀ x, lookup? es ev.key = some x →
      ∃ gs, x = .arr gs ∧ ∀ g ∈ gs, FitGroup g

end Fits

/-! ## The servers -/

theorem member_setMember (ms : Members ν) (k : JsString) (v : Json ν) :
    (Json.obj (setMember ms k v)).member? k = some v := Json.lookup_setMember_self

theorem member_obj {v t : Json ν} {k : JsString} (h : v.member? k = some t) :
    ∃ ms, v = .obj ms ∧ lookup? ms k = some t := by
  cases v with
  | obj ms => exact ⟨ms, rfl, h⟩
  | _ => cases h

theorem xbusMcpEntry_owner (o : UserScopeOptions ν) :
    (xbusMcpEntry o).member? XBUS_OWNER_TAG = some (.str o.installId) := by
  have hkeys : (utf16 "type" = XBUS_OWNER_TAG) = False ∧ (utf16 "command" = XBUS_OWNER_TAG) = False
      ∧ (utf16 "args" = XBUS_OWNER_TAG) = False ∧ (utf16 "env" = XBUS_OWNER_TAG) = False := by
    decide
  simp only [xbusMcpEntry, Json.member?, Json.lookup_cons, hkeys, if_false, if_true]

theorem ownServer_entry (o : UserScopeOptions ν) : OwnServer o (XBUS_MCP_KEY, xbusMcpEntry o) :=
  ⟨rfl, .inr (by simp only [xbusMcpEntry_owner, Option.isSome_some])⟩

section Servers

variable [JsFloat ν]

/-- Of what was kept under the other keys, what is written is the same if it can be. -/
theorem others_written_iff {v w : Json ν} (hv : v.Distinct) (hw : w = v ∨ v = .null) (k : JsString)
    (x : Json ν) :
    (∀ m ∈ membersOf v, m.1 ≠ k → m ∈ membersOf (Json.obj (setMember w.ownMembers k x)).written) ↔
      ∀ m ∈ membersOf v, m.1 ≠ k → m.2.Finite := by
  rw [Json.written_obj]
  cases v with
  | obj ms =>
    obtain rfl : w = .obj ms := by
      rcases hw with hw | hnull
      · exact hw
      · cases hnull
    rw [Json.Distinct] at hv
    refine forall_congr' fun m => forall_congr' fun hm => forall_congr' fun hne => ?_
    exact Json.mem_written_iff (Json.setMember_keys hv.1) (Json.mem_setMember_ne hm hne)
  | _ => exact ⟨fun _ m hm => absurd hm List.not_mem_nil, fun _ m hm => absurd hm List.not_mem_nil⟩

theorem finite_xbusMcpEntry (o : UserScopeOptions ν) : (xbusMcpEntry o).Finite :=
  hereditary_xbusMcpEntry Json.hereditary_finite o

/-- The table that is written, where there was one. -/
theorem servers_written {v : Json ν} {ms : Members ν} (o : UserScopeOptions ν)
    (h : v.member? (utf16 "mcpServers") = some (.obj ms)) :
    (applyMcp o v).written.member? (utf16 "mcpServers") = some (.obj
      ((setMember ms XBUS_MCP_KEY (xbusMcpEntry o)).map fun m => (m.1, m.2.written))) := by
  rw [Json.member_written]
  simp only [applyMcp, h, orElse, Json.ownMembers, member_setMember, Option.map_some,
    Json.written_obj]

theorem finite_members {v : Json ν} (h : v.Finite) : ∀ m ∈ membersOf v, m.2.Finite := by
  cases v with
  | obj ms => exact Json.finite_obj.mp h
  | _ => exact fun m hm => absurd hm List.not_mem_nil

/-- A server that is not the product's is written if it can be, and the one under the product's key
    is not. -/
theorem server_written_iff {o : UserScopeOptions ν} {ms : Members ν} (hms : (ms.map (·.1)).Nodup)
    {m : JsString × Json ν} (hm : m ∈ ms) (hown : ¬ OwnServer o m) :
    m ∈ (setMember ms XBUS_MCP_KEY (xbusMcpEntry o)).map (fun m => (m.1, m.2.written)) ↔
      m.1 ≠ XBUS_MCP_KEY ∧ m.2.Finite := by
  have hkeys := Json.setMember_keys (k := XBUS_MCP_KEY) (v := xbusMcpEntry o) hms
  by_cases hkey : m.1 = XBUS_MCP_KEY
  · refine ⟨fun hmem => ?_, fun h => absurd hkey h.1⟩
    have hlook := Json.lookup_of_mem (k := m.1) (v := m.2) (by rwa [List.map_map]) hmem
    rw [Json.lookup_written, hkey, Json.lookup_setMember_self, Option.map_some,
      Json.written_eq _ (finite_xbusMcpEntry o), Option.some.injEq] at hlook
    have hentry := ownServer_entry o
    rw [hlook, ← hkey] at hentry
    exact absurd hentry hown
  · rw [Json.mem_written_iff hkeys (Json.mem_setMember_ne hm hkey)]
    exact (and_iff_right hkey).symm

theorem serversKept_iff {o : UserScopeOptions ν} {v w : Json ν} (hv : v.Distinct)
    (hw : w = v ∨ v = .null) : ServersKept o v (applyMcp o w).written ↔ ServersFit o v := by
  have hobj : ∀ {t}, v.member? (utf16 "mcpServers") = some t → w = v := by
    intro t ht
    rcases hw with hw | rfl
    · exact hw
    · cases ht
  constructor
  · intro h
    refine ⟨(others_written_iff hv hw _ _).mp h.others, fun t ht => ?_⟩
    obtain ⟨ms, ms', rfl, hms', hkept⟩ := h.servers t ht
    rw [hobj ht, servers_written o ht, Option.some.injEq, Json.obj.injEq] at hms'
    have hdistinct := Json.hereditary_distinct.member hv ht
    rw [Json.Distinct] at hdistinct
    have hserver : ∀ m ∈ ms, ¬ OwnServer o m → m.1 ≠ XBUS_MCP_KEY ∧ m.2.Finite :=
      fun m hm hown => (server_written_iff hdistinct.1 hm hown).mp (hms' ▸ hkept m hm hown)
    refine ⟨ms, rfl, fun x hx => ?_, fun m hm hown => (hserver m hm hown).2⟩
    by_contra hown
    exact (hserver _ (Json.lookup_mem hx) hown).1 rfl
  · intro h
    refine ⟨(others_written_iff hv hw _ _).mpr h.others, fun t ht => ?_⟩
    obtain ⟨ms, rfl, hown, hfinite⟩ := h.servers t ht
    refine ⟨ms, _, rfl, by rw [hobj ht]; exact servers_written o ht, fun m hm hnot => ?_⟩
    have hdistinct := Json.hereditary_distinct.member hv ht
    rw [Json.Distinct] at hdistinct
    refine (server_written_iff hdistinct.1 hm hnot).mpr ⟨fun hkey => hnot ?_, hfinite m hm hnot⟩
    have hx := hown m.2 (Json.lookup_of_mem hdistinct.1 (hkey ▸ hm))
    rwa [← hkey] at hx

end Servers

/-! ## The product's own handlers -/

theorem refersTo_own (o : UserScopeOptions ν) {ev : XbusHookEvent} {entry : JsString}
    (h : hookEntry? o ev = some entry) : entry ∈ allXbusEntries o := by
  unfold hookEntry? hookEntries at h
  unfold allXbusEntries
  cases hs : o.sessionStartHookEntry with
  | none =>
    rw [hs] at h
    cases ev <;> simp at h <;> simp [h]
  | some e =>
    rw [hs] at h
    by_cases he : e = []
    · cases ev <;> simp [he] at h <;> simp [h, he]
    · cases ev <;> simp [he] at h <;> subst h <;> simp [he]

theorem handlerFor_members (o : UserScopeOptions ν) (entry : JsString) :
    (xbusHookHandlerFor o entry).member? (utf16 "args") = some (.arr [.str entry]) ∧
      (xbusHookHandlerFor o entry).member? XBUS_OWNER_TAG = some (.str o.installId) := by
  have hkeys : (utf16 "type" = utf16 "args") = False ∧ (utf16 "command" = utf16 "args") = False
      ∧ (utf16 "type" = XBUS_OWNER_TAG) = False ∧ (utf16 "command" = XBUS_OWNER_TAG) = False
      ∧ (utf16 "args" = XBUS_OWNER_TAG) = False := by
    decide
  constructor
  · simp only [xbusHookHandlerFor, Json.member?, Json.lookup_cons, hkeys, if_false, if_true]
  · simp only [xbusHookHandlerFor, Json.member?, Json.lookup_cons, hkeys, if_false, if_true]

theorem refersTo_handlerFor (o : UserScopeOptions ν) {entry : JsString}
    (h : entry ∈ allXbusEntries o) : refersTo o (xbusHookHandlerFor o entry) = true := by
  have hargs : (allXbusEntries o).any (includes
      ((xbusHookHandlerFor o entry).member? (utf16 "args"))) = true := by
    rw [List.any_eq_true]
    exact ⟨entry, h, by simp [(handlerFor_members o entry).1, includes, isString]⟩
  rw [refersTo, hargs, Bool.true_or]

/-! ## The hooks -/

theorem fitGroup_handlers {g : Json ν} : FitGroup g ↔ g.member? (utf16 "hooks") =
    some (.arr (handlersOf g)) ∧ handlersOf g ≠ [] := by
  constructor
  · rintro ⟨ms, hs, rfl, hlook, hne⟩
    have hhandlers : handlersOf (.obj ms) = hs := by
      simp only [handlersOf, Json.member?, hlook]
    rw [hhandlers]
    exact ⟨hlook, hne⟩
  · rintro ⟨hm, hne⟩
    obtain ⟨ms, rfl, hlook⟩ := member_obj hm
    exact ⟨ms, _, rfl, hlook, hne⟩

theorem fitGroup_cleanedBy {q : Json ν → Bool} {g : Json ν} (h : (handlersOf g).filter q ≠ []) :
    FitGroup (cleanedBy q g).group :=
  ⟨_, _, rfl, Json.lookup_setMember_self, h⟩

theorem fitGroup_wired (o : UserScopeOptions ν) (entry : JsString) (v : Option (Json ν)) :
    ∀ g ∈ wiredGroups o entry v, FitGroup g := by
  intro g hg
  rcases List.mem_append.mp hg with hg | hg
  · obtain ⟨g, -, hne, rfl⟩ := mem_leftOf.mp hg
    exact fitGroup_cleanedBy hne
  · rw [List.mem_singleton.mp hg]
    exact ⟨_, _, rfl, by rw [Json.lookup_cons, if_pos rfl], by simp⟩

theorem ownGroup_iff {o : UserScopeOptions ν} {g : Json ν} (h : FitGroup g) :
    ownGroup o g = true ↔ (handlersOf g).filter (fun h => !refersTo o h) = [] := by
  obtain ⟨hm, hne⟩ := fitGroup_handlers.mp h
  simp [ownGroup, hm, hne, List.filter_eq_nil_iff]

theorem otherHandlers_eq {o : UserScopeOptions ν} {g : Json ν} (h : FitGroup g) :
    otherHandlers o g = (cleanedBy (fun h => !refersTo o h) g).group := by
  obtain ⟨hm, -⟩ := fitGroup_handlers.mp h
  simp only [otherHandlers, hm, cleanedBy]

theorem fitGroup_of_own {o : UserScopeOptions ν} {g : Json ν} (h : ownGroup o g = true) :
    FitGroup g := by
  unfold ownGroup at h
  split at h
  · rename_i hs hm
    obtain ⟨ms, rfl, hms⟩ := member_obj hm
    refine ⟨ms, hs, rfl, hms, ?_⟩
    rintro rfl
    simp at h
  · cases h

/-- A group stays fit only if it was. -/
theorem fitGroup_of_others {o : UserScopeOptions ν} {g : Json ν}
    (h : FitGroup (otherHandlers o g)) :
    FitGroup g := by
  unfold otherHandlers at h
  split at h
  · rename_i hs hm
    obtain ⟨ms, hs', heq, hlook, hne⟩ := h
    rw [Json.obj.injEq] at heq
    subst heq
    rw [Json.lookup_setMember_self, Option.some.injEq, Json.arr.injEq] at hlook
    obtain ⟨ms, rfl, hms⟩ := member_obj hm
    refine ⟨ms, hs, rfl, hms, ?_⟩
    rintro rfl
    exact hne (by rw [← hlook]; rfl)
  · exact h

/-- Of fit groups, merging keeps exactly those that are the user's. -/
theorem leftOf_fit {o : UserScopeOptions ν} {gs : List (Json ν)} (h : ∀ g ∈ gs, FitGroup g) :
    leftOf (fun h => !refersTo o h) gs = usersGroups o gs := by
  unfold usersGroups
  induction gs with
  | nil => rfl
  | cons g gs ih =>
    obtain ⟨hg, hrest⟩ := List.forall_mem_cons.mp h
    rw [leftOf_cons, List.filter_cons, ih hrest]
    cases hown : ownGroup o g with
    | true => rw [if_pos ((ownGroup_iff hg).mp hown), Bool.not_true, if_neg (by decide)]
    | false =>
      have hne : (handlersOf g).filter (fun h => !refersTo o h) ≠ [] := by
        intro hnil
        rw [(ownGroup_iff hg).mpr hnil] at hown
        cases hown
      rw [if_neg hne, Bool.not_false, if_pos rfl, List.map_cons, otherHandlers_eq hg]

/-- What merging leaves of the groups has nothing of the product's in it any more. -/
theorem usersGroups_leftOf (o : UserScopeOptions ν) (gs : List (Json ν)) :
    usersGroups o (leftOf (fun h => !refersTo o h) gs) = leftOf (fun h => !refersTo o h) gs := by
  have hleft : ∀ x ∈ leftOf (fun h => !refersTo o h) gs,
      ownGroup o x = false ∧ otherHandlers o x = x := by
    intro x hx
    obtain ⟨g, -, hne, rfl⟩ := mem_leftOf.mp hx
    have hfit := fitGroup_cleanedBy hne
    have htwice : (handlersOf (cleanedBy (fun h => !refersTo o h) g).group).filter
        (fun h => !refersTo o h) = (handlersOf g).filter fun h => !refersTo o h := by
      rw [handlersOf_cleanedBy, List.filter_filter]
      simp only [Bool.and_self]
    constructor
    · rw [← Bool.not_eq_true, ownGroup_iff hfit, htwice]
      exact hne
    · rw [otherHandlers_eq hfit, cleanedBy, htwice]
      simp only [cleanedBy, Json.ownMembers, Json.setMember_setMember]
  have hmap : (leftOf (fun h => !refersTo o h) gs).map (otherHandlers o) =
      leftOf (fun h => !refersTo o h) gs := by
    conv_rhs => rw [← List.map_id (leftOf _ gs)]
    exact List.map_congr_left fun x hx => (hleft x hx).2
  have hfilter : (leftOf (fun h => !refersTo o h) gs).filter (fun g => !ownGroup o g) =
      leftOf (fun h => !refersTo o h) gs :=
    List.filter_eq_self.mpr fun x hx => by rw [(hleft x hx).1, Bool.not_false]
  rw [usersGroups, hfilter, hmap]

/-- The user's groups of a wired event are those that merging left. -/
theorem usersGroups_wired {o : UserScopeOptions ν} {ev : XbusHookEvent} {entry : JsString}
    (hentry : hookEntry? o ev = some entry) (v : Option (Json ν)) :
    usersGroups o (wiredGroups o entry v) = leftOf (fun h => !refersTo o h) (groupsOf v) := by
  have hhandlers : (ownGroupFor o entry).member? (utf16 "hooks") =
      some (.arr [xbusHookHandlerFor o entry]) := by
    simp only [ownGroupFor, Json.member?, Json.lookup_cons, if_true]
  have hown : usersGroups o [ownGroupFor o entry] = [] := by
    simp [usersGroups, ownGroup, hhandlers, refersTo_handlerFor o (refersTo_own o hentry)]
  have happend : usersGroups o (wiredGroups o entry v) =
      usersGroups o (leftOf (fun h => !refersTo o h) (groupsOf v)) ++
        usersGroups o [ownGroupFor o entry] := by
    rw [usersGroups, wiredGroups, List.filter_append, List.map_append]
    rfl
  rw [happend, usersGroups_leftOf, hown, List.append_nil]

/-! ### What is written of them -/

section Written

variable [JsFloat ν]

/-- A handler is written as the same party's handler. -/
theorem refersTo_written (o : UserScopeOptions ν) (h : Json ν) :
    refersTo o h.written = refersTo o h := by
  have hincludes : ∀ v : Option (Json ν), includes (v.map Json.written) = includes v := by
    intro v
    funext entry
    cases v with
    | none => rfl
    | some v =>
      rw [Option.map_some]
      cases v with
      | arr xs =>
        have hitem : ∀ x : Json ν, isString (some x.written) entry = isString (some x) entry :=
          fun x => Json.isString_written (some x) entry
        simp only [Json.written_arr, includes, List.any_map, Function.comp_def, hitem]
      | num n => rcases Json.written_num n with h | h <;> simp [h, includes]
      | obj ms => rw [Json.written_obj]; rfl
      | _ => rw [Json.written]
  simp only [refersTo, Json.member_written, hincludes]
  congr 1
  cases h.member? (utf16 "command") with
  | none => rfl
  | some v =>
    rw [Option.map_some]
    cases v with
    | num n => rcases Json.written_num n with h | h <;> rw [h]
    | _ => rw [Json.written]

/-- The hooks of a group are written as a list if they are one. -/
theorem written_hooks {g : Json ν} :
    (∃ hs, g.member? (utf16 "hooks") = some (.arr hs) ∧
      g.written.member? (utf16 "hooks") = some (.arr (hs.map Json.written))) ∨
    ((∀ hs, g.member? (utf16 "hooks") ≠ some (.arr hs)) ∧
      ∀ hs, g.written.member? (utf16 "hooks") ≠ some (.arr hs)) := by
  rw [Json.member_written]
  cases g.member? (utf16 "hooks") with
  | none => exact .inr ⟨by simp, by simp⟩
  | some v =>
    cases v with
    | arr hs => exact .inl ⟨hs, rfl, by rw [Option.map_some, Json.written_arr]⟩
    | num n =>
      refine .inr ⟨by simp, ?_⟩
      rcases Json.written_num n with h | h <;> simp [h]
    | _ => exact .inr ⟨by simp, by simp [Json.written]⟩

theorem ownGroup_written (o : UserScopeOptions ν) (g : Json ν) :
    ownGroup o g.written = ownGroup o g := by
  rcases written_hooks (g := g) with ⟨hs, hm, hm'⟩ | ⟨hno, hno'⟩
  · simp only [ownGroup, hm, hm', List.isEmpty_map, List.all_map, Function.comp_def,
      refersTo_written]
  · have hnot : ∀ v : Json ν, (∀ hs, v.member? (utf16 "hooks") ≠ some (.arr hs)) →
        ownGroup o v = false := by
      intro v hv
      unfold ownGroup
      split
      · rename_i hs hm
        exact absurd hm (hv hs)
      · rfl
    rw [hnot _ hno, hnot _ hno']

theorem setMember_written (ms : Members ν) (k : JsString) (v : Json ν) :
    setMember (ms.map fun m => (m.1, m.2.written)) k v.written =
      (setMember ms k v).map fun m => (m.1, m.2.written) := by
  have hkeys : (ms.map fun m => (m.1, m.2.written)).map (·.1) = ms.map (·.1) := by
    rw [List.map_map]
    rfl
  by_cases hk : k ∈ ms.map (·.1)
  · rw [setMember, setMember, if_pos hk, if_pos (by rwa [hkeys]), List.map_map, List.map_map]
    apply List.map_congr_left
    intro m _
    simp only [Function.comp_apply]
    split <;> rfl
  · rw [Json.setMember_fresh hk, Json.setMember_fresh (by rwa [hkeys]), List.map_append]
    rfl

theorem otherHandlers_written (o : UserScopeOptions ν) (g : Json ν) :
    otherHandlers o g.written = (otherHandlers o g).written := by
  rcases written_hooks (g := g) with ⟨hs, hm, hm'⟩ | ⟨hno, hno'⟩
  · obtain ⟨ms, rfl, -⟩ := member_obj hm
    have hfilter : (hs.map Json.written).filter (fun h => !refersTo o h) =
        (hs.filter fun h => !refersTo o h).map Json.written := by
      simp only [List.filter_map, Function.comp_def, refersTo_written]
    simp only [otherHandlers, hm, hm', hfilter]
    rw [Json.written_obj, Json.written_obj, Json.ownMembers_obj, Json.ownMembers_obj,
      ← Json.written_arr, setMember_written]
  · have hnot : ∀ v : Json ν, (∀ hs, v.member? (utf16 "hooks") ≠ some (.arr hs)) →
        otherHandlers o v = v := by
      intro v hv
      unfold otherHandlers
      split
      · rename_i hs hm
        exact absurd hm (hv hs)
      · rfl
    rw [hnot _ hno, hnot _ hno']

/-- What is written of the groups holds what is written of the user's. -/
theorem usersGroups_written (o : UserScopeOptions ν) (gs : List (Json ν)) :
    usersGroups o (gs.map Json.written) = (usersGroups o gs).map Json.written := by
  simp only [usersGroups, List.filter_map, List.map_map, Function.comp_def, ownGroup_written,
    otherHandlers_written]

theorem FitGroup.of_written {g : Json ν} (h : FitGroup g) : FitGroup g.written := by
  obtain ⟨ms, hs, rfl, hlook, hne⟩ := h
  refine ⟨_, hs.map Json.written, Json.written_obj ms, ?_, by simpa using hne⟩
  rw [Json.lookup_written, hlook, Option.map_some, Json.written_arr]

/-- The user's part of a value that can be written can be written. -/
theorem EventFinite.of_finite {o : UserScopeOptions ν} {gs : List (Json ν)}
    (h : (Json.arr gs).Finite) : ∀ g ∈ usersGroups o gs, g.Finite := by
  have hsame : gs.map Json.written = gs := by
    simpa only [Json.written_arr, Json.arr.injEq] using Json.written_eq _ h
  intro g hg
  rw [← hsame, usersGroups_written] at hg
  obtain ⟨g, -, rfl⟩ := List.mem_map.mp hg
  exact Json.finite_written g

/-- An event that is not wired is written as it is, as far as it can be. -/
theorem eventKept_written_iff (o : UserScopeOptions ν) (x : Json ν) :
    EventKept o x x.written ↔ EventFinite o x := by
  constructor
  · rintro (hsame | ⟨gs, gs', rfl, hnew, hsub⟩)
    · exact .inl (Json.written_eq_iff.mp hsame.symm)
    · rw [Json.written_arr, Json.arr.injEq] at hnew
      rw [← hnew, usersGroups_written] at hsub
      exact .inr ⟨gs, rfl, Json.sublist_written_iff.mp hsub⟩
  · rintro (hfinite | ⟨gs, rfl, hfinite⟩)
    · exact .inl (Json.written_eq x hfinite).symm
    · refine .inr ⟨gs, _, rfl, Json.written_arr gs, ?_⟩
      rw [usersGroups_written]
      exact Json.sublist_written_iff.mpr hfinite

/-- A wired event is kept if it is a list of groups with handlers and can be written. -/
theorem eventKept_wired_iff {o : UserScopeOptions ν} {ev : XbusHookEvent} {entry : JsString}
    (hentry : hookEntry? o ev = some entry) (x : Json ν) :
    EventKept o x (Json.arr (wiredGroups o entry (some x))).written ↔
      EventFinite o x ∧ ∃ gs, x = .arr gs ∧ ∀ g ∈ gs, FitGroup g := by
  constructor
  · rintro (hsame | ⟨gs, gs', rfl, hnew, hsub⟩)
    · refine ⟨.inl (hsame ▸ Json.finite_written _), _, hsame.trans (Json.written_arr _), ?_⟩
      intro g hg
      obtain ⟨g', hg', rfl⟩ := List.mem_map.mp hg
      exact (fitGroup_wired o entry _ g' hg').of_written
    · rw [Json.written_arr, Json.arr.injEq] at hnew
      rw [← hnew, usersGroups_written, usersGroups_wired hentry] at hsub
      -- a group of the user's is one of those that were left, so it has handlers
      have hfit : ∀ g ∈ gs, FitGroup g := by
        intro g hg
        cases hown : ownGroup o g with
        | true => exact fitGroup_of_own hown
        | false =>
          have hmem := hsub.subset (List.mem_map_of_mem (f := otherHandlers o)
            (List.mem_filter.mpr ⟨hg, by simp [hown]⟩))
          obtain ⟨g', hg', heq⟩ := List.mem_map.mp hmem
          have hleft : FitGroup g' := fitGroup_wired o entry _ _ (List.mem_append_left _ hg')
          exact fitGroup_of_others (heq ▸ hleft.of_written)
      refine ⟨.inr ⟨gs, rfl, ?_⟩, gs, rfl, hfit⟩
      rw [groupsOf, leftOf_fit hfit] at hsub
      exact Json.sublist_written_iff.mp hsub
  · rintro ⟨hfinite, gs, rfl, hfit⟩
    have husers : ∀ g ∈ usersGroups o gs, g.Finite := by
      rcases hfinite with hall | ⟨gs', hgs', husers⟩
      · exact EventFinite.of_finite hall
      · rwa [Json.arr.inj hgs']
    refine .inr ⟨gs, _, rfl, Json.written_arr _, ?_⟩
    rw [usersGroups_written, usersGroups_wired hentry, groupsOf, leftOf_fit hfit]
    exact Json.sublist_written_iff.mpr husers

theorem mem_events (ev : XbusHookEvent) : ev ∈ XBUS_HOOK_EVENTS := by
  cases ev <;> decide

/-- What is written of an event. -/
theorem event_written {o : UserScopeOptions ν} {es es' : Members ν}
    (hwired : Wired o XBUS_HOOK_EVENTS es es') (hes : (es.map (·.1)).Nodup) (k : JsString)
    (x : Json ν) :
    (k, x) ∈ es'.map (fun m => (m.1, m.2.written)) ↔
      (lookup? es' k).map Json.written = some x := by
  have hkeys : ((es'.map fun m => (m.1, m.2.written)).map (·.1)).Nodup := by
    rw [List.map_map]
    exact hwired.keys hes
  rw [← Json.lookup_written]
  exact ⟨Json.lookup_of_mem hkeys, Json.lookup_mem⟩

/-- An event is kept exactly when it can be written and, if it is wired, consists of groups with
    handlers. -/
theorem event_kept_iff {o : UserScopeOptions ν} {es es' : Members ν}
    (hwired : Wired o XBUS_HOOK_EVENTS es es') (hes : (es.map (·.1)).Nodup) {e : JsString × Json ν}
    (he : e ∈ es) :
    (∃ x, (e.1, x) ∈ es'.map (fun m => (m.1, m.2.written)) ∧ EventKept o e.2 x) ↔
      EventFinite o e.2 ∧ ∀ ev, ( hookEntry? o ev).isSome → e.1 = ev.key →
        ∃ gs, e.2 = .arr gs ∧ ∀ g ∈ gs, FitGroup g := by
  have hlook := Json.lookup_of_mem hes (k := e.1) (v := e.2) he
  have hread : ∀ {y}, lookup? es' e.1 = some y →
      ((∃ x, (e.1, x) ∈ es'.map (fun m => (m.1, m.2.written)) ∧ EventKept o e.2 x) ↔
        EventKept o e.2 y.written) := by
    intro y hy
    have hmem : ∀ x, (e.1, x) ∈ es'.map (fun m => (m.1, m.2.written)) ↔ y.written = x := by
      intro x
      rw [event_written hwired hes, hy, Option.map_some, Option.some.injEq]
    simp only [hmem, exists_eq_left']
  by_cases hevent : ∃ ev, ( hookEntry? o ev).isSome ∧ e.1 = ev.key
  · obtain ⟨ev, hev, hkey⟩ := hevent
    obtain ⟨entry, hentry⟩ := Option.isSome_iff_exists.mp hev
    have hnew := hwired.wired ev (mem_events ev) entry hentry
    rw [← hkey, hlook] at hnew
    rw [hread hnew, eventKept_wired_iff hentry]
    exact and_congr_right fun _ => ⟨fun h ev _ _ => h, fun h => h ev hev hkey⟩
  · have hnew : lookup? es' e.1 = some e.2 := by
      rw [hwired.others e.1 fun ev _ hev hkey => hevent ⟨ev, hev, hkey⟩, hlook]
    rw [hread hnew, eventKept_written_iff]
    exact (and_iff_left fun ev hev hkey => absurd ⟨ev, hev, hkey⟩ hevent).symm

theorem hooksKept_iff {o : UserScopeOptions ν} {v w next : Json ν} (hv : v.Distinct)
    (hw : w = v ∨ v = .null) (hnext : applyHooks o w = .ok next) :
    HooksKept o v next.written ↔ HooksFit o v := by
  obtain ⟨es', rfl, hwire⟩ := applyHooks_ok hnext
  have hwired := wireEvents_ok (by decide) hwire
  have hobj : ∀ {t}, v.member? (utf16 "hooks") = some t → w = v := by
    intro t ht
    rcases hw with hw | rfl
    · exact hw
    · cases ht
  have hnew : (Json.obj (setMember w.ownMembers (utf16 "hooks") (.obj es'))).written.member?
      (utf16 "hooks") = some (.obj (es'.map fun m => (m.1, m.2.written))) := by
    rw [Json.member_written, member_setMember, Option.map_some, Json.written_obj]
  -- of the table that was there, every event is wired or untouched
  have htable : ∀ {es}, v.member? (utf16 "hooks") = some (.obj es) →
      Wired o XBUS_HOOK_EVENTS es es' ∧ (es.map (·.1)).Nodup := by
    intro es ht
    rw [hobj ht, ht] at hwired
    have hdistinct := Json.hereditary_distinct.member hv ht
    rw [Json.Distinct] at hdistinct
    exact ⟨hwired, hdistinct.1⟩
  constructor
  · intro h
    refine ⟨(others_written_iff hv hw _ _).mp h.others, fun t ht => ?_⟩
    obtain ⟨es, es'', rfl, hes'', hkept⟩ := h.events t ht
    rw [hnew, Option.some.injEq, Json.obj.injEq] at hes''
    obtain ⟨hwired, hes⟩ := htable ht
    have hevent := fun e (he : e ∈ es) =>
      (event_kept_iff hwired hes he).mp (hes'' ▸ hkept e he)
    exact ⟨es, rfl, fun e he => (hevent e he).1, fun ev hev x hx =>
      (hevent _ (Json.lookup_mem hx)).2 ev hev rfl⟩
  · intro h
    refine ⟨(others_written_iff hv hw _ _).mpr h.others, fun t ht => ?_⟩
    obtain ⟨es, rfl, hfinite, hfit⟩ := h.events t ht
    obtain ⟨hwired, hes⟩ := htable ht
    refine ⟨es, _, rfl, hnew, fun e he => (event_kept_iff hwired hes he).mpr ⟨hfinite e he, ?_⟩⟩
    intro ev hev hkey
    exact hfit ev hev e.2 (hkey ▸ Json.lookup_of_mem hes (k := e.1) (v := e.2) he)

end Written

/-! ## Files -/

variable [JsFloat ν]

/-- What was in the file is still there: nothing was, or its bytes are the same, or both contents
    are values and `R` says so of them. -/
def FileKept (R : Json ν → Json ν → Prop) (old new : Option Bytes) : Prop :=
  old = none ∨ new = old ∨ ∃ v v' : Value ν, old.bind Value.parse = some v ∧
    new.bind Value.parse = some v' ∧ R v.json v'.json

/-- There is no file, or its content is a value that fits. -/
def Mergeable (fit : Json ν → Prop) (old : Option Bytes) : Prop :=
  old = none ∨ ∃ v : Value ν, old.bind Value.parse = some v ∧ fit v.json

theorem readOrEmpty_parse {bs : Option Bytes} {v : Value ν} (h : bs.bind Value.parse = some v) :
    readOrEmpty bs = v.json ∨ v.json = .null ∧ readOrEmpty bs = (.obj [] : Json ν) := by
  cases hj : v.json with
  | null => exact .inr ⟨rfl, by simp only [readOrEmpty, readJson, h, hj, Option.getD_none]⟩
  | _ => exact .inl (by simp only [readOrEmpty, readJson, h, hj, Option.getD_some])

/-- A file that was rewritten is kept exactly when it could be merged. -/
theorem kept_iff {R : Json ν → Json ν → Prop} {fit : Json ν → Prop} (old : Option Bytes)
    {w' : Json ν} (hw' : w'.Distinct) (hself : fit w'.written)
    (hiff : ∀ v : Value ν, old.bind Value.parse = some v → (R v.json w'.written ↔ fit v.json)) :
    FileKept R old (some (fileText w')) ↔ Mergeable fit old := by
  have hparse : (some (fileText w')).bind Value.parse = some ⟨w'.written, _⟩ := parse_fileText hw'
  constructor
  · rintro (rfl | hsame | ⟨v, v', hv, hv', hkept⟩)
    · exact .inl rfl
    · exact .inr ⟨_, by rw [← hsame, hparse], hself⟩
    · rw [hparse, Option.some.injEq] at hv'
      subst hv'
      exact .inr ⟨v, hv, (hiff v hv).mp hkept⟩
  · rintro (rfl | ⟨v, hv, hfit⟩)
    · exact .inl rfl
    · exact .inr (.inr ⟨v, _, hv, hparse, (hiff v hv).mpr hfit⟩)

/-- What a merge wrote can be merged again: it was written, and is fit. -/
theorem serversFit_applyMcp (o : UserScopeOptions ν) (cfg : Json ν) :
    ServersFit o (applyMcp o cfg).written := by
  refine ⟨fun m hm _ => finite_members (Json.finite_written _) m hm, fun t ht => ?_⟩
  have hfinite := Json.hereditary_finite.member (Json.finite_written _) ht
  rw [Json.member_written] at ht
  simp only [applyMcp, member_setMember, Option.map_some, Option.some.injEq, Json.written_obj] at ht
  subst ht
  refine ⟨_, rfl, fun x hx => ?_, fun m hm _ => Json.finite_obj.mp hfinite m hm⟩
  rw [Json.lookup_written, Json.lookup_setMember_self, Option.map_some,
    Json.written_eq _ (finite_xbusMcpEntry o), Option.some.injEq] at hx
  exact hx ▸ ownServer_entry o

theorem hooksFit_applyHooks {o : UserScopeOptions ν} {s next : Json ν}
    (h : applyHooks o s = .ok next) : HooksFit o next.written := by
  obtain ⟨es', rfl, hwire⟩ := applyHooks_ok h
  have hwired := wireEvents_ok (by decide) hwire
  refine ⟨fun m hm _ => finite_members (Json.finite_written _) m hm, fun t ht => ?_⟩
  have hfinite := Json.hereditary_finite.member (Json.finite_written _) ht
  rw [Json.member_written, member_setMember, Option.map_some, Option.some.injEq,
    Json.written_obj] at ht
  subst ht
  refine ⟨_, rfl, fun e he => .inl (Json.finite_obj.mp hfinite e he), fun ev hev x hx => ?_⟩
  obtain ⟨entry, hentry⟩ := Option.isSome_iff_exists.mp hev
  rw [Json.lookup_written, hwired.wired ev (mem_events ev) entry hentry, Option.map_some,
    Option.some.injEq, Json.written_arr] at hx
  refine ⟨_, hx.symm, fun g hg => ?_⟩
  obtain ⟨g', hg', rfl⟩ := List.mem_map.mp hg
  exact (fitGroup_wired o entry _ g' hg').of_written

variable [DecidableEq ν]

/-- A registration either fails and leaves both files as they are, byte for byte, or succeeds and
    keeps what is the user's in both. -/
def Preserves (o : UserScopeOptions ν) (d : ScopeDrive) : Prop :=
  ((∀ r, (registerUserScope Faults.none o d).1 = .ok r → r.ok = false) ∧
    TargetsKept d (registerUserScope Faults.none o d).2) ∨
  ((∃ r, (registerUserScope Faults.none o d).1 = .ok r ∧ r.ok = true) ∧
    FileKept (ServersKept o) (d.files (.target .config))
      ((registerUserScope Faults.none o d).2.files (.target .config)) ∧
    FileKept (HooksKept o) (d.files (.target .settings))
      ((registerUserScope Faults.none o d).2.files (.target .settings)))

/-- **Registration preserves the files exactly when it writes neither, or can merge into both.** -/
theorem register_preserves_iff (o : UserScopeOptions ν) (d : ScopeDrive) :
    Preserves o d ↔ ((∃ next, Writes o (configOf d) (settingsOf d) next) →
      Mergeable (ServersFit o) (d.files (.target .config)) ∧
        Mergeable (HooksFit o) (d.files (.target .settings))) := by
  -- What writes nothing keeps both files; what writes is judged by what it wrote.
  by_cases hwrites : ∃ next, Writes o (configOf d) (settingsOf d) next
  · obtain ⟨next, hw⟩ := hwrites
    obtain ⟨r, d', heq, hok, hconfig, hsettings⟩ := register_writes hw
    have hcfg := kept_iff (d.files (.target .config))
      (distinct_applyMcp (readOrEmpty_distinct _) o) (serversFit_applyMcp o (configOf d))
      fun v hv => serversKept_iff v.distinct ((readOrEmpty_parse hv).imp_right And.left)
    have hset := kept_iff (d.files (.target .settings))
      (distinct_applyHooks (readOrEmpty_distinct _) hw.merged) (hooksFit_applyHooks hw.merged)
      fun v hv => hooksKept_iff v.distinct ((readOrEmpty_parse hv).imp_right And.left) hw.merged
    simp only [Preserves, heq, hconfig, hsettings, hcfg, hset]
    constructor
    · rintro (⟨hfails, -⟩ | ⟨-, hkept⟩) -
      · rw [hfails r rfl] at hok
        cases hok
      · exact hkept
    · intro hkept
      exact .inr ⟨⟨r, rfl, hok⟩, hkept ⟨next, hw⟩⟩
  · have hkept := registerUserScope_keeps hwrites
    refine ⟨fun _ hw => absurd hw hwrites, fun _ => ?_⟩
    by_cases hok : ∃ r, (registerUserScope Faults.none o d).1 = .ok r ∧ r.ok = true
    · exact .inr ⟨hok, .inr (.inl (hkept .config)), .inr (.inl (hkept .settings))⟩
    · refine .inl ⟨fun r hr => ?_, hkept⟩
      cases hr' : r.ok with
      | false => rfl
      | true => exact absurd ⟨r, hr, hr'⟩ hok

/-- A configuration that stops in the middle, and no settings. -/
def truncated : ScopeDrive := home (some "\x7b\"numStartups\": 7,") none

/-- What cannot be parsed is overwritten, and the registration succeeds. -/
theorem register_loses_unreadable :
    ¬ ∀ (o : UserScopeOptions Int) (d : ScopeDrive), Preserves o d := by
  intro h
  have hrun : (registerUserScope Faults.none someOptions truncated).2.files (.target .config) ≠
        truncated.files (.target .config) ∧
      (((truncated.files (.target .config)).bind Value.parse : Option (Value Int))).isNone := by
    decide +kernel
  obtain ⟨hchanged, hunreadable⟩ := hrun
  rcases h someOptions truncated with ⟨-, hkept⟩ | ⟨-, hkept, -⟩
  · exact hchanged (hkept .config)
  · rcases hkept with hnone | hsame | ⟨v, v', hv, -⟩
    · cases hnone
    · exact hchanged hsame
    · rw [hv] at hunreadable
      cases hunreadable

end Proof
end XBus
