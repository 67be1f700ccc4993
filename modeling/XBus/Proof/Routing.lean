import XBus.Proof.Handles
import XBus.Proof.NameAuthority

/-!
# Who answers to a handle

A recipient without a slash that is no id is looked up in two pools, the names of sessions and the
aliases, and is resolved where one session answers in all (`resolve_bare`). The pools have two
grammars and are filled without regard to each other: a name may have a dot, which no recipient may,
and an alias may be the name of somebody else. Those are the two ways in which a session that goes
by a name is not to be reached by it, and there is no third (`name_routable_iff`).
-/

set_option autoImplicit false

namespace XBus
namespace Proof

open Lib

variable {env : Env} {text : Text} {b b' : Broker} {sid : SessionId} {v n : String}

/-! ## Parsing a handle -/

theorem isNameChar_toLower (c : Char) : isNameChar c.toLower = isNameChar c := by
  have hdot : c.toLower = '.' ↔ c = '.' := toLower_eq_iff (by decide)
  have hline : c.toLower = '_' ↔ c = '_' := toLower_eq_iff (by decide)
  have hdash : c.toLower = '-' ↔ c = '-' := toLower_eq_iff (by decide)
  simp [isNameChar, isAsciiAlnum, hdot, hline, hdash]

theorem isHex_toLower {c : Char} (h : isHex true c = true) : isHex false c.toLower = true := by
  have hle (x y : Char) : x ≤ y ↔ x.toNat ≤ y.toNat := Iff.rfl
  simp only [isHex, Bool.or_eq_true, Bool.and_eq_true, decide_eq_true_eq, isDigit_iff, hle,
    toNat_toLower, Char.reduceToNat] at h ⊢
  split <;> omega

/-- Lower case takes an id to an id. -/
theorem isUuidShape_lower (hlower : v.toList.map Char.toLower = n.toList)
    (h : isUuidShape (isHex true) v = true) : isUuidShape (isHex false) n = true := by
  simp only [isUuidShape, Bool.and_eq_true, decide_eq_true_eq, List.all_eq_true] at h ⊢
  obtain ⟨hlen, hall⟩ := h
  rw [← hlower, List.length_map, List.zipIdx_map]
  refine ⟨hlen, fun x hx => ?_⟩
  obtain ⟨⟨c, i⟩, hc, rfl⟩ := List.mem_map.mp hx
  have hchar := hall (c, i) hc
  simp only [Prod.map_apply, id_eq] at hchar ⊢
  split
  · rename_i hi
    rw [if_pos hi, decide_eq_true_eq] at hchar
    simp [hchar]
  · rename_i hi
    rw [if_neg hi] at hchar
    exact isHex_toLower hchar

theorem splitOn_name (h : v.toList.all isNameChar) : v.toList.splitOn '/' = [v.toList] := by
  refine List.splitOn_eq_singleton ?_
  intro hslash
  exact absurd (List.all_eq_true.mp h '/' hslash) (by decide)

/-- What a text in the characters of a name is parsed as. -/
theorem parse_name (plain : PlainText text) (hv : v.toList.all isNameChar) :
    parseRecipient text v =
      if v.isEmpty then .error (xbusError .unknownRecipient "empty recipient")
      else if isUuidShape (isHex true) v then .ok (.session v)
      else if matchesAlias v then .ok (.bare v)
      else .error (xbusError .invalidAlias "invalid alias in recipient: charset/length") := by
  have htrim : text.trim v = v := plain.trim v (by rw [plain.nfc v hv]; exact hv)
  simp only [parseRecipient, htrim, splitOn_name hv, validateRecipientAliasPart]
  split
  · rfl
  · split
    · rfl
    · split <;> rfl

/-! ## The candidates of a handle -/

/-- The session goes by the name: it is active under it and has not expired. -/
def Named (b : Broker) (n : String) (sid : SessionId) : Prop :=
  ∃ s ∈ b.sessions, s.sessionId = sid ∧ s.normalizedSessionName = some n ∧
    s.sessionNameState = .active ∧ s.expiredAt = none

/-- The session is one of those a bare handle may mean. -/
def AnswersTo (b : Broker) (want : String) (sid : SessionId) : Prop :=
  Named b want sid ∨ HoldsAlias b want sid

/-- Setting a key adds it where it is missing. -/
theorem keys_mapSet (acc : List (SessionId × String)) (r : SessionId × String) :
    (mapSet acc r).map Prod.fst =
      if r.1 ∈ acc.map Prod.fst then acc.map Prod.fst else acc.map Prod.fst ++ [r.1] := by
  have hany : (acc.any fun x => x.1 = r.1) = true ↔ r.1 ∈ acc.map Prod.fst := by
    simp [List.any_eq_true, List.mem_map]
  unfold mapSet upsert
  by_cases h : r.1 ∈ acc.map Prod.fst
  · rw [if_pos (hany.mpr h), if_pos h]
    exact map_updateWhere Prod.fst fun x hx => (of_decide_eq_true hx).symm
  · rw [if_neg fun h' => h (hany.mp h'), if_neg h, List.map_append]
    rfl

/-- The keys of a map built up row by row: each row's, once. -/
theorem keys_foldl_mapSet (rows acc : List (SessionId × String)) (h : (acc.map Prod.fst).Nodup) :
    ((rows.foldl mapSet acc).map Prod.fst).Nodup ∧
      ∀ x, x ∈ (rows.foldl mapSet acc).map Prod.fst ↔
        x ∈ acc.map Prod.fst ∨ x ∈ rows.map Prod.fst := by
  induction rows generalizing acc with
  | nil => exact ⟨h, fun x => by simp⟩
  | cons r rows ih =>
    have hnodup : ((mapSet acc r).map Prod.fst).Nodup := by
      rw [keys_mapSet]
      split
      · exact h
      · rename_i hnew
        exact h.append (List.nodup_singleton _) (by simpa using hnew)
    obtain ⟨hdone, hkeys⟩ := ih (mapSet acc r) hnodup
    refine ⟨hdone, fun x => (hkeys x).trans ?_⟩
    rw [keys_mapSet]
    split
    · rename_i hold
      simp only [List.map_cons, List.mem_cons]
      constructor
      · exact fun h => h.imp id .inr
      · rintro (hx | rfl | hx)
        · exact .inl hx
        · exact .inl hold
        · exact .inr hx
    · simp only [List.map_cons, List.mem_cons, List.mem_append, List.not_mem_nil, or_false,
        or_assoc]

/-- The map of the rows has one entry, and it is the session's. -/
theorem mapSet_sole {rows : List (SessionId × String)} :
    (∃ h, rows.foldl mapSet [] = [(sid, h)]) ↔
      sid ∈ rows.map Prod.fst ∧ ∀ x ∈ rows.map Prod.fst, x = sid := by
  obtain ⟨hnodup, hkeys⟩ := keys_foldl_mapSet rows [] List.nodup_nil
  simp only [List.map_nil, List.not_mem_nil, false_or] at hkeys
  simp only [← hkeys]
  set entries := rows.foldl mapSet []
  constructor
  · rintro ⟨h, hone⟩
    simp [hone]
  · rintro ⟨hmem, hall⟩
    match entries with
    | [] => cases hmem
    | [(x, h)] =>
      have hx : x = sid := hall x (by simp)
      exact ⟨h, by rw [hx]⟩
    | (x, _) :: (y, _) :: rest =>
      -- Two entries would be two keys, and both the session's.
      have hx : x = sid := hall x (by simp)
      have hy : y = sid := hall y (by simp)
      rw [hx, hy] at hnodup
      simp at hnodup

/-- A bare handle resolves to the one session that answers to it. -/
theorem resolve_bare (hparse : parseRecipient env.text v = .ok (.bare v)) :
    (∃ h, resolveRecipient env b v = .ok (sid, h)) ↔
      AnswersTo b (env.text.toLowerCase v) sid ∧
        ∀ x, AnswersTo b (env.text.toLowerCase v) x → x = sid := by
  set want := env.text.toLowerCase v
  set rows := ((b.sessions.filter fun s => s.normalizedSessionName = some want ∧
      s.sessionNameState = .active ∧ s.expiredAt = none).map fun s =>
        (s.sessionId, s.sessionName.getD "")) ++
    ((b.aliases.filter fun a => a.ci = want ∧ a.active).map fun a => (a.sessionId, a.display))
    with hrows
  have hkeys (x : SessionId) : x ∈ rows.map Prod.fst ↔ AnswersTo b want x := by
    simp only [hrows, List.map_append, List.map_map, List.mem_append, List.mem_map,
      List.mem_filter, decide_eq_true_eq, Function.comp_apply, AnswersTo, Named, HoldsAlias]
    constructor
    · rintro (⟨s, ⟨hs, hn, hactive, hlive⟩, rfl⟩ | ⟨a, ⟨ha, hci, hactive⟩, rfl⟩)
      · exact .inl ⟨s, hs, rfl, hn, hactive, hlive⟩
      · exact .inr ⟨a, ha, rfl, hci, hactive⟩
    · rintro (⟨s, hs, rfl, hn, hactive, hlive⟩ | ⟨a, ha, rfl, hci, hactive⟩)
      · exact .inl ⟨s, ⟨hs, hn, hactive, hlive⟩, rfl⟩
      · exact .inr ⟨a, ⟨ha, hci, hactive⟩, rfl⟩
  have hresolve (r : SessionId × String) :
      resolveRecipient env b v = .ok r ↔ rows.foldl mapSet [] = [r] := by
    simp only [resolveRecipient, hparse]
    rw [← hrows]
    split
    · rename_i hnone
      simp [hnone]
    · rename_i hone
      simp [hone]
    · rename_i hmany
      simp only [reduceCtorEq, false_iff]
      exact fun hone => hmany r hone
  simp only [hresolve, mapSet_sole, hkeys]

/-! ## The names there are -/

/-- What is known of every name a session goes by: it is spelt with the characters of a name, it
    is no id, and it is not of the broker's own making. -/
structure Spelled (n : String) : Prop where
  chars : n.toList.all isNameChar
  nonempty : n.toList ≠ []
  short : n.length ≤ 128
  noId : isUuidShape (isHex false) n = false
  chosen : "session-".toList.isPrefixOf n.toList = false

theorem isNameChar_of_lower {c : Char} (h : isLowerAlnum c = true) : isNameChar c = true := by
  have hle : isAsciiAlnum c = true := by
    simp only [isLowerAlnum, Bool.or_eq_true, isLower_iff, isDigit_iff] at h
    rw [isAsciiAlnum, isAlphanum_iff]
    omega
  simp [isNameChar, hle]

theorem spelled_of_matches (h : matchesSessionName n = true) :
    n.toList.all isNameChar ∧ n.toList ≠ [] ∧ n.length ≤ 128 := by
  unfold matchesSessionName at h
  split at h
  · cases h
  · rename_i c cs hlist
    simp only [Bool.and_eq_true, decide_eq_true_eq, List.all_eq_true, Bool.or_eq_true] at h
    obtain ⟨⟨⟨hhead, -⟩, hlen⟩, htail⟩ := h
    rw [← String.length_toList, hlist]
    refine ⟨?_, by simp, ?_⟩
    · refine List.all_eq_true.mpr fun d hd => ?_
      rcases List.mem_cons.mp hd with rfl | hd
      · exact isNameChar_of_lower hhead
      · rcases htail d hd with ((hlower | hdot) | hline) | hdash
        · exact isNameChar_of_lower hlower
        all_goals simp [isNameChar, *]
    · rw [List.length_cons]
      omega

/-- What the validator has seen of a text it takes. -/
structure TakenAs (text : Text) (raw : String) (norm : SessionName) : Prop where
  chars : (text.nfc raw).toList.all isNameChar
  short : (text.nfc raw).length ≤ 48
  normalized : norm.normalized = text.toLowerCase (text.nfc raw)
  spelled : Spelled norm.normalized

theorem takenAs_of_valid {raw : String} {norm : SessionName}
    (h : validateSessionName text raw = .ok norm) : TakenAs text raw norm := by
  obtain ⟨hnorm, hchars, hlength, hmatches, hchosen, -, hid⟩ := validateSessionName_ok h
  obtain ⟨hspelt, hnonempty, hshort⟩ := spelled_of_matches hmatches
  exact ⟨hchars, hlength, by rw [hnorm], hspelt, hnonempty, hshort, hid, hchosen⟩

/-- The names of every state the desk reaches. -/
theorem named_of_desk {ok : Desk → DeskEvent → Prop} {u : Desk} (h : u.Reachable env ok) :
    ∃ N, NameInv u.db N ∧ ∀ x n, N.name x = some n →
      Spelled n ∧ (n = operatorSessionId → x = operatorSessionId) := by
  refine desk_of_moves (P := fun b => ∃ N, NameInv b N ∧ ∀ x n, N.name x = some n →
    Spelled n ∧ (n = operatorSessionId → x = operatorSessionId))
    ⟨_, nameInv_initial, fun x n hn => ?_⟩ ?_ h
  · obtain ⟨rfl, rfl⟩ := Naming.single_eq_some.mp hn
    exact ⟨⟨by decide, by decide, by decide, by decide, by decide⟩, fun _ => rfl⟩
  · rintro b b' k hmove ⟨N, inv, hN⟩
    obtain ⟨N', inv', hgranted⟩ := hmove.granted inv
    refine ⟨N', inv', fun x n hn => ?_⟩
    rcases hgranted x n hn with hbefore | ⟨raw, norm, hvalid, rfl⟩
    · exact hN x n hbefore
    · refine ⟨(takenAs_of_valid hvalid).spelled, fun hop => ?_⟩
      obtain ⟨-, -, -, -, -, hfree, -⟩ := validateSessionName_ok hvalid
      rw [hop] at hfree
      exact absurd hfree (by decide)

/-! ## Routing by name -/

/-- The text is resolved to the session. -/
def RoutesTo (env : Env) (b : Broker) (v : String) (sid : SessionId) : Prop :=
  ∃ h, resolveRecipient env b v = .ok (sid, h)

/-- The text is the name in capital or small letters. -/
def CaseVariant (n v : String) : Prop := v.toList.map Char.toLower = n.toList

namespace CaseVariant

theorem chars (h : CaseVariant n v) (hn : n.toList.all isNameChar) : v.toList.all isNameChar := by
  rw [← h, List.all_map] at hn
  refine List.all_eq_true.mpr fun c hc => ?_
  rw [← isNameChar_toLower]
  exact List.all_eq_true.mp hn c hc

theorem length (h : CaseVariant n v) : v.length = n.length := by
  rw [← String.length_toList, ← String.length_toList, ← h, List.length_map]

theorem dot_mem (h : CaseVariant n v) : '.' ∈ v.toList ↔ '.' ∈ n.toList := by
  rw [← h, List.mem_map]
  constructor
  · exact fun hdot => ⟨'.', hdot, by decide⟩
  · rintro ⟨c, hc, hlower⟩
    rwa [(toLower_eq_iff (by decide)).mp hlower] at hc

theorem toLowerCase (h : CaseVariant n v) (plain : PlainText text) (hn : n.toList.all isNameChar) :
    text.toLowerCase v = n :=
  String.toList_inj.mp ((plain.toLowerCase v (h.chars hn)).trans h)

/-- A variant of a name is an alias in form exactly if the name has no dot. -/
theorem matchesAlias_iff (h : CaseVariant n v) (hn : Spelled n) :
    matchesAlias v = true ↔ '.' ∉ n.toList := by
  rw [← h.dot_mem, Proof.matchesAlias_iff]
  constructor
  · rintro ⟨-, -, hall⟩ hdot
    exact absurd (List.all_eq_true.mp hall '.' hdot) (by decide)
  · intro hdot
    refine ⟨fun hnil => hn.nonempty ?_, h.length ▸ hn.short, ?_⟩
    · rw [← h, hnil]
      rfl
    · refine List.all_eq_true.mpr fun c hc => ?_
      have hname := List.all_eq_true.mp (h.chars hn.chars) c hc
      have hne : c ≠ '.' := fun heq => hdot (heq ▸ hc)
      simpa [isNameChar, isAliasChar, hne] using hname

/-- What a variant of a name is parsed as. -/
theorem parse (h : CaseVariant n v) (plain : PlainText text) (hn : Spelled n) :
    parseRecipient text v = if '.' ∈ n.toList then
      .error (xbusError .invalidAlias "invalid alias in recipient: charset/length")
    else .ok (.bare v) := by
  have hne : v.isEmpty = false := by
    by_contra hempty
    have hv : v = "" := by simpa using hempty
    refine hn.nonempty ?_
    rw [← h, hv]
    rfl
  have hid : isUuidShape (isHex true) v = false := by
    by_contra hid
    have hbad := isUuidShape_lower h (by simpa using hid)
    rw [hn.noId] at hbad
    cases hbad
  rw [parse_name plain (h.chars hn.chars), hne, hid]
  by_cases hdot : '.' ∈ n.toList
  · have hno : matchesAlias v = false := by simpa [hdot] using h.matchesAlias_iff hn
    simp [hdot, hno]
  · have hyes : matchesAlias v = true := (h.matchesAlias_iff hn).mpr hdot
    simp [hdot, hyes]

end CaseVariant

/-- A text that is parsed as a bare handle is one, up to white space around it. -/
theorem bare_of_parse {raw h : String} (hparse : parseRecipient text raw = .ok (.bare h)) :
    h = text.trim raw ∧ matchesAlias h = true := by
  have hpart {s : String} {u : Unit} (hok : validateRecipientAliasPart s = .ok u) :
      matchesAlias s = true := by
    unfold validateRecipientAliasPart at hok
    split at hok
    · assumption
    · cases hok
  unfold parseRecipient at hparse
  simp only at hparse
  split at hparse
  · cases hparse
  · split at hparse
    · cases hparse
    · split at hparse
      · cases hone : validateRecipientAliasPart (text.trim raw) with
        | error e =>
          rw [hone] at hparse
          cases hparse
        | ok u =>
          rw [hone] at hparse
          cases hparse
          exact ⟨rfl, hpart hone⟩
      · rename_i project handle _
        cases hone : validateRecipientAliasPart (String.ofList project) with
        | error e =>
          rw [hone] at hparse
          cases hparse
        | ok u =>
          cases htwo : validateRecipientAliasPart (String.ofList handle) with
          | error e =>
            rw [hone, htwo] at hparse
            cases hparse
          | ok u =>
            rw [hone, htwo] at hparse
            cases hparse
      · cases hparse

/-- A text the validator takes for a name is parsed as an alias that spells the name exactly if
    the text itself is written with the characters of an alias. -/
theorem parse_valid_iff (plain : PlainText text) {raw : String} {norm : SessionName}
    (hvalid : validateSessionName text raw = .ok norm) :
    (∃ h, parseRecipient text raw = .ok (.bare h) ∧ text.toLowerCase h = norm.normalized) ↔
      raw.toList.all isAliasChar := by
  have htaken := takenAs_of_valid hvalid
  constructor
  · rintro ⟨h, hparse, -⟩
    obtain ⟨rfl, hmatches⟩ := bare_of_parse hparse
    rw [plain.trim raw htaken.chars] at hmatches
    exact (matchesAlias_iff.mp hmatches).2.2
  · intro hall
    have hchars : raw.toList.all isNameChar :=
      List.all_eq_true.mpr fun c hc => isNameChar_of_alias (List.all_eq_true.mp hall c hc)
    have hlower : text.toLowerCase raw = norm.normalized := by
      rw [htaken.normalized, plain.nfc raw hchars]
    have hvariant : CaseVariant norm.normalized raw := by
      rw [CaseVariant, ← hlower, plain.toLowerCase raw hchars]
    refine ⟨raw, ?_, hlower⟩
    rw [hvariant.parse plain htaken.spelled, if_neg]
    rw [← hvariant.dot_mem]
    exact fun hdot => absurd (List.all_eq_true.mp hall '.' hdot) (by decide)

/-- Where a session goes by a name, a variant of the name is resolved to it exactly if the name
    has no dot and nobody else holds it as an alias. -/
theorem routes_by_name (plain : PlainText env.text) {N : Naming SessionId String}
    (inv : NameInv b N) (hn : Spelled n) (hnamed : Named b n sid) (hv : CaseVariant n v) :
    RoutesTo env b v sid ↔ '.' ∉ n.toList ∧ ∀ x, HoldsAlias b n x → x = sid := by
  have hsole : ∀ x, Named b n x → x = sid := by
    rintro x ⟨s', hs', rfl, hn', hactive', -⟩
    obtain ⟨s, hs, rfl, hns, hactive, -⟩ := hnamed
    have hx := (inv.rows s' hs').holds_iff.mp ⟨hn', by rw [hactive']; rfl⟩
    have hsid := (inv.rows s hs).holds_iff.mp ⟨hns, by rw [hactive]; rfl⟩
    exact N.sole hx hsid
  have hparse := hv.parse plain hn
  by_cases hdot : '.' ∈ n.toList
  · rw [if_pos hdot] at hparse
    simp [RoutesTo, resolveRecipient, hparse, hdot]
  · rw [if_neg hdot] at hparse
    rw [RoutesTo, resolve_bare hparse, hv.toLowerCase plain hn.chars]
    constructor
    · exact fun h => ⟨hdot, fun x hx => h.2 x (.inr hx)⟩
    · rintro ⟨-, hfree⟩
      refine ⟨.inl hnamed, fun x hx => ?_⟩
      rcases hx with hname | hheld
      · exact hsole x hname
      · exact hfree x hheld

/-- Who comes to hold an alias by a step at the desk has registered it, or it is one of the
    broker's own. -/
theorem desk_holds (plain : PlainText env.text) {u : Desk} {e : DeskEvent} {ci : String}
    {x : SessionId} (h : HoldsAlias (u.step env e).2.db ci x) :
    HoldsAlias u.db ci x ∨ (∃ y, ci = (automaticAlias env.text y).ci) ∨
      (ci = env.text.toLowerCase operatorSessionId ∧ x = operatorSessionId) ∨
      ∃ auth raw, e.1 = .store (.registerAlias auth raw) ∧ x = auth.sessionId ∧
        ci = env.text.toLowerCase raw := by
  obtain ⟨op, mom⟩ := e
  by_cases hop : ∃ auth raw, op = .store (.registerAlias auth raw)
  · obtain ⟨auth, raw, rfl⟩ := hop
    replace h : HoldsAlias ((DeskOp.store (.registerAlias auth raw)).call env mom u.db).2 ci x := h
    rw [desk_registerAlias] at h
    rcases registerAlias_holds h with hold | ⟨rfl, rfl⟩
    · exact .inl hold
    · exact .inr (.inr (.inr ⟨auth, raw, rfl, rfl, rfl⟩))
  · have hkeeps : KeepsHandles env u.db (op.call env mom u.db).2 :=
      desk_keeps plain op (fun auth raw h => hop ⟨auth, raw, h⟩) u.db
    rcases hkeeps.inherited ci x h with hold | hauto | hown
    · exact .inl hold
    · exact .inr (.inl hauto)
    · exact .inr (.inr (.inl hown))

theorem automaticAlias_display (text : Text) (sid : SessionId) :
    ∃ rest, (automaticAlias text sid).display.toList = "session-".toList ++ rest :=
  ⟨_, String.toList_append⟩

/-- No name is an automatic alias. -/
theorem spelled_not_automatic (plain : PlainText env.text) (hn : Spelled n) (y : SessionId) :
    n ≠ (automaticAlias env.text y).ci := by
  rintro rfl
  obtain ⟨rest, hrest⟩ := automaticAlias_display env.text y
  have hformed := formed_automatic plain y
  have hchosen := hn.chosen
  rw [hformed.key, plain.toLowerCase _ (nameChars_of_matchesAlias hformed.grammar), hrest,
    List.map_append] at hchosen
  exact absurd hchosen (by simp [List.isPrefixOf])

/-- **When a name is routable.** A text that is accepted as a name is parsed as an alias spelling
    the name exactly if it is itself written in alias characters. In every reachable state, a
    session that goes by a name is what every variant of the name is resolved to exactly if the name
    has no dot and no other session holds it as an alias. And while the session keeps its name, a
    step takes the name away from it only if another session registers it as an alias. -/
theorem name_routable_iff (plain : PlainText env.text) :
    (∀ raw norm, validateSessionName env.text raw = .ok norm →
      ((∃ h, parseRecipient env.text raw = .ok (.bare h) ∧
        env.text.toLowerCase h = norm.normalized) ↔ raw.toList.all isAliasChar)) ∧
    ∀ (ok : Desk → DeskEvent → Prop) (u : Desk), u.Reachable env ok → ∀ n sid,
      Named u.db n sid → ∀ v, CaseVariant n v →
      (RoutesTo env u.db v sid ↔ '.' ∉ n.toList ∧ ∀ x, HoldsAlias u.db n x → x = sid) ∧
      ∀ e : DeskEvent, RoutesTo env u.db v sid → Named (u.step env e).2.db n sid →
        RoutesTo env (u.step env e).2.db v sid ∨
          ∃ auth raw, e.1 = .store (.registerAlias auth raw) ∧ auth.sessionId ≠ sid ∧
            env.text.toLowerCase raw = n := by
  refine ⟨fun raw norm => parse_valid_iff plain, ?_⟩
  intro ok u hreach n sid hnamed v hv
  obtain ⟨N, inv, hN⟩ := named_of_desk hreach
  obtain ⟨hspelled, hop⟩ : Spelled n ∧ (n = operatorSessionId → sid = operatorSessionId) := by
    obtain ⟨s, hs, rfl, hn, hactive, -⟩ := hnamed
    exact hN _ n ((inv.rows s hs).holds_iff.mp ⟨hn, by rw [hactive]; rfl⟩)
  have hhere := routes_by_name plain inv hspelled hnamed hv
  -- A name stops routing only when another session takes it for an alias.
  refine ⟨hhere, fun e hroutes hkept => ?_⟩
  obtain ⟨hdot, hfree⟩ := hhere.mp hroutes
  obtain ⟨log, run⟩ := hreach
  have hnext : (u.step env e).2.Reachable env Any := ⟨_, run.any.snoc e trivial⟩
  obtain ⟨N', inv', -⟩ := named_of_desk hnext
  by_cases hregistered : ∃ auth raw, e.1 = .store (.registerAlias auth raw) ∧
      auth.sessionId ≠ sid ∧ env.text.toLowerCase raw = n
  · exact .inr hregistered
  · refine .inl ((routes_by_name plain inv' hspelled hkept hv).mpr ⟨hdot, fun x hx => ?_⟩)
    by_contra hne
    rcases desk_holds plain hx with hold | ⟨y, hauto⟩ | ⟨hown, rfl⟩ | ⟨auth, raw, he, rfl, hraw⟩
    · exact hne (hfree x hold)
    · exact spelled_not_automatic plain hspelled y hauto
    · have hsame : CaseVariant operatorSessionId operatorSessionId := by
        unfold CaseVariant
        decide
      have hlower := hsame.toLowerCase plain (by decide)
      exact hne (hop (hown.trans hlower)).symm
    · exact hregistered ⟨auth, raw, he, hne, hraw.symm⟩

/-- `beta` can be written to under its name, in capitals too. -/
theorem beta_routable :
    let u := deskAfter (atDesk requestSent)
    Named u.db "beta-name" "beta" ∧ RoutesTo plainEnv u.db "Beta-NAME" "beta" := by
  intro u
  have hrows : (∃ s ∈ u.db.sessions, s.sessionId = "beta" ∧
      s.normalizedSessionName = some "beta-name" ∧ s.sessionNameState = .active ∧
      s.expiredAt = none) ∧ ∀ a ∈ u.db.aliases, a.ci ≠ "beta-name" := by decide +kernel
  have hvariant : CaseVariant "beta-name" "Beta-NAME" := by
    unfold CaseVariant
    decide
  obtain ⟨-, hroutes⟩ := name_routable_iff plainText_plainEnv
  refine ⟨hrows.1, ((hroutes Any u (reachable_deskAfter _) _ _ hrows.1 _ hvariant).1).mpr
    ⟨by decide, ?_⟩⟩
  rintro x ⟨a, ha, -, hci, -⟩
  exact absurd hci (hrows.2 a ha)

/-- `alpha` registers `beta`'s name as an alias, and nobody reaches `beta` by its name any more. A
    name with a dot cannot be written to in the first place. -/
theorem beta_no_longer_routable :
    let u := deskAfter (atDesk (requestSent ++
      [(.registerAlias (component "alpha" .mcp 1 1) "beta-name", { nowMs := 1001 })]))
    (u.Reachable plainEnv Any ∧ Named u.db "beta-name" "beta" ∧
      ¬ RoutesTo plainEnv u.db "beta-name" "beta") ∧
    (∃ norm, validateSessionName plainEnv.text "team.one" = .ok norm) ∧
      ∀ h, parseRecipient plainEnv.text "team.one" ≠ .ok (.bare h) := by
  intro u
  have hrows : (∃ s ∈ u.db.sessions, s.sessionId = "beta" ∧
      s.normalizedSessionName = some "beta-name" ∧ s.sessionNameState = .active ∧
      s.expiredAt = none) ∧ (resolveRecipient plainEnv u.db "beta-name").isOk = false := by
    decide +kernel
  have htexts : (validateSessionName plainEnv.text "team.one").isOk = true ∧
      (parseRecipient plainEnv.text "team.one").isOk = false := by decide +kernel
  refine ⟨⟨reachable_deskAfter _, hrows.1, ?_⟩, ?_, ?_⟩
  · rintro ⟨h, hresolve⟩
    rw [hresolve] at hrows
    cases hrows.2
  · cases hvalid : validateSessionName plainEnv.text "team.one" with
    | error e =>
      rw [hvalid] at htexts
      cases htexts.1
    | ok norm => exact ⟨norm, rfl⟩
  · intro h hparse
    rw [hparse] at htexts
    cases htexts.2

end Proof
end XBus
