import XBus.Proof.Routing
import XBus.Proof.Ttl

/-!
# Return addresses

A stored message shows its recipient the sender's alias, and the recipient answers to that. The
alias is the sender's to the router exactly where the sender is in the alias table at all: the
session that lost a collision of automatic aliases is not, and shows the one it lost, which is the
winner's (`return_address_iff`).

The alias shown is the first active one that the session registered, in the order of the index the
query scans, or its automatic one; `shownAlias` says so without the second sort, that of the query.
Where there is none it is the automatic alias of the session's own row, and that is `stamped` there
when the row is made.
-/

set_option autoImplicit false

namespace XBus
namespace Proof

open Lib

variable {env : Env} {mom : Moment} {now : Iso} {auth : SessionAuthority} {k : Kind}
  {b b' : Broker} {sid : SessionId}

/-! ## The automatic alias of a row -/

/-- Every row but the operator's carries the automatic alias of its id. -/
def Stamped (env : Env) (b : Broker) : Prop :=
  ∀ s ∈ b.sessions, s.sessionId ≠ operatorSessionId →
    s.automaticAlias = (automaticAlias env.text s.sessionId).display

/-- The columns of the stamp. -/
def stampCols (s : Session) : SessionId × String := (s.sessionId, s.automaticAlias)

/-- The stamps are as they were. -/
def SameStamps (b b' : Broker) : Prop := b'.sessions.map stampCols = b.sessions.map stampCols

instance : IsFrame SameStamps where
  refl _ := rfl
  trans h h' := Eq.trans h' h

namespace SameStamps

theorem of_core (h : b'.sessions.map core = b.sessions.map core) : SameStamps b b' := by
  have := congrArg (List.map stampCols) h
  rwa [List.map_map, List.map_map] at this

theorem mail (h : MailOnly b b') : SameStamps b b' := of_core h.sessions

theorem updateWhere {p : Session → Bool} {f : Session → Session}
    (h : b'.sessions = Lib.updateWhere p f b.sessions) (hf : ∀ s, stampCols (f s) = stampCols s) :
    SameStamps b b' := by
  rw [SameStamps, h]
  exact map_updateWhere stampCols fun s _ => hf s

theorem keeps (h : SameStamps b b') (hb : Stamped env b) : Stamped env b' := by
  intro s hs hmortal
  have hcols : stampCols s ∈ b.sessions.map stampCols := h ▸ List.mem_map_of_mem hs
  obtain ⟨s₀, hs₀, heq⟩ := List.mem_map.mp hcols
  obtain ⟨hid, hauto⟩ := Prod.mk.inj heq
  rw [← hid, ← hauto]
  exact hb s₀ hs₀ (hid ▸ hmortal)

theorem claim {requested : Option String} :
    SameStamps b (claimNameForRegister env mom sid requested b).2 := by
  unfold claimNameForRegister
  split
  · exact IsFrame.refl b
  · split
    · exact updateWhere rfl fun _ => rfl
    · split
      · exact updateWhere rfl fun _ => rfl
      · exact updateWhere rfl fun _ => rfl

theorem operatorRename {norm : SessionName} :
    SameStamps b (b.operatorRename env mom sid norm) := updateWhere rfl fun _ => rfl

theorem rename {norm : SessionName} {wasExpired : Bool} :
    SameStamps b (b.rename env mom sid norm wasExpired).2 := by
  unfold Broker.rename
  extract_lets b₁ b₂ b₃
  have hname : SameStamps b (b.setSessionName sid norm) := updateWhere rfl fun _ => rfl
  have hrevive : SameStamps (b.setSessionName sid norm) b₁ := updateWhere rfl fun _ => rfl
  have halias : SameStamps b₁ b₂ := by
    show SameStamps b₁ (if wasExpired then _ else _)
    split
    · exact .of_core Bookkeeping.upsertAutomaticAliasSafe.sessions
    · exact IsFrame.refl b₁
  have hrefresh : SameStamps b₂ b₃ := .of_core Bookkeeping.refresh.sessions
  have howned : SameStamps b₃
    (b₃.setNameOwnershipActive env mom (b₃.logicalIdOf sid) sid norm).2 := rfl
  exact IsFrame.trans hname (IsFrame.trans hrevive (IsFrame.trans halias
    (IsFrame.trans hrefresh howned)))

theorem lapse : SameStamps b (reapStalePendingNames now b) := by
  unfold reapStalePendingNames
  split
  · exact updateWhere rfl fun _ => rfl
  · exact IsFrame.refl b

end SameStamps

theorem Stamped.updateWhere (h : Stamped env b) {p : Session → Bool} {f : Session → Session}
    (hb' : b'.sessions = Lib.updateWhere p f b.sessions) (hf : ∀ s, stampCols (f s) = stampCols s) :
    Stamped env b' := (SameStamps.updateWhere hb' hf).keeps h

theorem Stamped.append (h : Stamped env b) {s : Session}
    (hs : s.sessionId ≠ operatorSessionId →
      s.automaticAlias = (automaticAlias env.text s.sessionId).display)
    (hb' : b'.sessions = b.sessions ++ [s]) : Stamped env b' := by
  intro x hx hmortal
  rw [hb'] at hx
  rcases List.mem_append.mp hx with hold | hnew
  · exact h x hold hmortal
  · rw [List.mem_singleton.mp hnew] at hmortal ⊢
    exact hs hmortal

/-- A row is stamped when it is made, and no move writes the stamp. -/
theorem Move.stamped (h : Move env k b b') (hb : Stamped env b) : Stamped env b' := by
  -- A row is made with its stamp, and no update takes it away.
  cases h with
  | note h => exact (SameStamps.of_core h.sessions).keeps hb
  | restate => exact hb
  | redrive => exact hb
  | consume => exact hb
  | inject now auth ck audited m =>
    exact (SameStamps.mail (injectOne_spec env now auth ck audited m b).rest).keeps hb
  | reissue =>
    exact (SameStamps.mail (IsFrame.trans (.of_bookkeeping .mint) .issue)).keeps hb
  | post m h => exact (SameStamps.of_core h.sessions).keeps hb
  | answer m h => exact (SameStamps.of_core h.sessions).keeps hb
  | create input =>
    obtain ⟨as, es, n, hb', -⟩ := createSession_eq b env input
    rw [hb']
    exact hb.append (s := firstRow env input) (fun _ => rfl) rfl
  | dormant sid mode => exact hb.append (s := dormantSession env sid mode) (fun _ => rfl) rfl
  | advance now sid resume =>
    obtain ⟨is, as, es, n, hb', -⟩ := advanceEpoch_eq b env now sid _ resume
    rw [hb']
    exact hb.updateWhere rfl fun _ => rfl
  | join now input =>
    rw [joinEpoch_eq]
    exact hb.updateWhere rfl fun _ => rfl
  | component => exact hb
  | redirect => exact hb
  | claim => exact SameStamps.claim.keeps hb
  | rename => exact SameStamps.rename.keeps hb
  | operatorRename => exact SameStamps.operatorRename.keeps hb
  | reclaim mom sid =>
    refine SameStamps.rename.keeps ?_
    exact hb.updateWhere rfl fun _ => rfl
  | tombstone sid now =>
    obtain ⟨as, es, ds, hb', -⟩ := tombstone_eq b sid now
    rw [hb']
    exact hb.updateWhere rfl fun _ => rfl
  | lapse => exact SameStamps.lapse.keeps hb
  | close => exact hb.updateWhere rfl fun _ => rfl
  | remove => exact fun s hs => hb s (List.mem_of_mem_filter hs)
  | operator =>
    unfold Broker.ensureOperatorSession
    split
    · exact hb.append (fun hmortal => absurd rfl hmortal) rfl
    · exact hb.updateWhere rfl fun _ => rfl

theorem stamped_of_desk {ok : Desk → DeskEvent → Prop} {u : Desk} (h : u.Reachable env ok) :
    Stamped env u.db := by
  refine desk_of_moves (fun s hs hmortal => ?_) (fun _ _ _ => Move.stamped) h
  obtain rfl := List.mem_singleton.mp hs
  exact absurd rfl hmortal

/-! ## The alias shown -/

/-- Sorted by a rank of two values, a list begins with its first row of the lower one. -/
theorem head?_insertionSort_rank {α : Type} (rank : α → Nat) (hrank : ∀ a, rank a ≤ 1)
    (l : List α) : (l.insertionSort fun a a' => rank a ≤ rank a').head? =
      (l.find? fun a => rank a = 0).or l.head? := by
  induction l with
  | nil => rfl
  | cons a l ih =>
    rw [List.insertionSort_cons]
    cases hsorted : l.insertionSort fun a a' => rank a ≤ rank a' with
    | nil =>
      have hnil : l = [] := by
        have hlen := congrArg List.length hsorted
        rw [List.length_insertionSort] at hlen
        exact List.length_eq_zero_iff.mp hlen
      subst hnil
      by_cases ha : rank a = 0
      · simp [ha]
      · simp [ha]
    | cons c cs =>
      rw [hsorted] at ih
      have hc := hrank c
      have ha := hrank a
      have hmem : c ∈ l := by
        rw [← List.mem_insertionSort fun a a' => rank a ≤ rank a', hsorted]
        exact List.mem_cons_self
      have hinsert : (List.orderedInsert (fun a a' => rank a ≤ rank a') a (c :: cs)).head? =
          if rank a ≤ rank c then some a else some c := by
        rw [List.orderedInsert]
        split <;> rfl
      rw [hinsert]
      by_cases hle : rank a ≤ rank c
      · rw [if_pos hle]
        by_cases hzero : rank a = 0
        · simp [hzero]
        · -- The rows behind it all have the higher rank.
          have hnone : l.find? (fun a => rank a = 0) = none := by
            cases hfind : l.find? fun a => rank a = 0 with
            | none => rfl
            | some x =>
              rw [hfind] at ih
              have hx : rank x = 0 := by simpa using List.find?_some hfind
              have hcx : c = x := by simpa using ih
              rw [hcx, hx] at hle
              omega
          simp [hzero, hnone]
      · have hzero : rank c = 0 := by omega
        have hone : ¬ rank a = 0 := by omega
        have hfind : l.find? (fun a => rank a = 0) = some c := by
          cases hfind : l.find? fun a => rank a = 0 with
          | none => exact absurd hzero (by simpa using List.find?_eq_none.mp hfind c hmem)
          | some x =>
            rw [hfind] at ih
            exact ih.symm
        rw [if_neg hle]
        simp [hone, hfind]

/-- The alias a session is shown by: the first it has chosen, or else the first it has, in the
    order of their keys. -/
def shownAlias (b : Broker) (sid : SessionId) : Option AliasRow :=
  ((b.activeAliases sid).find? fun a => a.ci ≠ "session-" ++ String.ofList (sid.toList.take 8)).or
    (b.activeAliases sid).head?

theorem aliasForSession_eq (b : Broker) (sid : SessionId) : b.aliasForSession sid =
    match shownAlias b sid with
    | some a => a.display
    | none => ((b.session? sid).map (·.automaticAlias)).getD "unknown" := by
  set rank : AliasRow → Nat := fun a =>
    if a.ci = "session-" ++ String.ofList (sid.toList.take 8) then 1 else 0 with hrank
  have hle : ∀ a, rank a ≤ 1 := by
    intro a
    simp only [hrank]
    split <;> omega
  have hfind : (fun a => decide (rank a = 0)) =
      fun a => decide (a.ci ≠ "session-" ++ String.ofList (sid.toList.take 8)) := by
    funext a
    simp only [hrank]
    split <;> simp_all
  have hhead := head?_insertionSort_rank rank hle (b.activeAliases sid)
  rw [hfind] at hhead
  unfold Broker.aliasForSession
  simp only
  rewrite [shownAlias, ← hhead]
  rfl

theorem mem_activeAliases {a : AliasRow} : a ∈ b.activeAliases sid ↔
    a ∈ b.aliases ∧ a.sessionId = sid ∧ a.active = true := by
  simp [Broker.activeAliases]

theorem shownAlias_some {a : AliasRow} (h : shownAlias b sid = some a) :
    a ∈ b.aliases ∧ a.sessionId = sid ∧ a.active = true := by
  rw [← mem_activeAliases]
  rcases Option.or_eq_some_iff.mp h with hfind | ⟨-, hhead⟩
  · exact List.mem_of_find?_eq_some hfind
  · exact List.mem_of_mem_head? hhead

theorem shownAlias_none (h : shownAlias b sid = none) {ci : String} : ¬ HoldsAlias b ci sid := by
  rintro ⟨a, ha, hsid, -, hactive⟩
  obtain ⟨-, hhead⟩ := Option.or_eq_none_iff.mp h
  have hnil : b.activeAliases sid = [] := List.head?_eq_none_iff.mp hhead
  have hmem : a ∈ b.activeAliases sid := mem_activeAliases.mpr ⟨ha, hsid, hactive⟩
  rw [hnil] at hmem
  cases hmem

/-! ## Where it leads -/

/-- The session has an address of its own: it is in the alias table, and the alias it is shown by is
    its own id, or no id and nobody else's name. -/
def OwnAddress (b : Broker) (sid : SessionId) : Prop :=
  ∃ a, shownAlias b sid = some a ∧
    if isUuidShape (isHex true) a.display then a.display = sid ∧ (b.session? sid).isSome
    else ∀ x, Named b a.ci x → x = sid

/-- The first letter of an automatic alias is no digit of an id. -/
theorem automaticAlias_noId (text : Text) (sid : SessionId) :
    isUuidShape (isHex true) (automaticAlias text sid).display = false := by
  obtain ⟨rest, hrest⟩ := automaticAlias_display text sid
  by_contra hid
  have hshape : isUuidShape (isHex true) (automaticAlias text sid).display = true := by
    simpa using hid
  simp only [isUuidShape, hrest, Bool.and_eq_true, List.all_eq_true] at hshape
  have hfirst := hshape.2 ('s', 0) (by simp [List.zipIdx_cons])
  exact absurd hfirst (by decide)

/-- An alias in order that is no id is a bare handle. -/
theorem parse_formed {text : Text} (plain : PlainText text) {v : String}
    (hv : matchesAlias v = true) : parseRecipient text v =
      if isUuidShape (isHex true) v then .ok (.session v) else .ok (.bare v) := by
  have hne : v.isEmpty = false := by
    by_contra hempty
    have hnil : v = "" := by simpa using hempty
    exact (matchesAlias_iff.mp hv).1 (by rw [hnil]; rfl)
  rw [parse_name plain (nameChars_of_matchesAlias hv), hne]
  simp [hv]

/-- An id is resolved to the session of that id, if there is one. -/
theorem resolve_id {v : String} (hparse : parseRecipient env.text v = .ok (.session v)) :
    RoutesTo env b v sid ↔ v = sid ∧ (b.session? sid).isSome := by
  simp only [RoutesTo, resolveRecipient, hparse]
  cases hs : b.session? v with
  | none =>
    constructor
    · rintro ⟨h, hno⟩
      cases hno
    · rintro ⟨rfl, hsome⟩
      rw [hs] at hsome
      cases hsome
  | some s =>
    obtain ⟨-, hid⟩ := session?_eq_some hs
    constructor
    · rintro ⟨h, hok⟩
      have hsid : s.sessionId = sid := congrArg Prod.fst (Except.ok.inj hok)
      refine ⟨hid.symm.trans hsid, ?_⟩
      rw [← hsid, hid, hs]
      rfl
    · rintro ⟨rfl, -⟩
      exact ⟨s.automaticAlias, by simp [hid]⟩

/-- The alias a session is shown by is resolved to the session exactly if it is an address of its
    own. -/
theorem routes_shown (plain : PlainText env.text) {N : Naming SessionId String}
    (t : HandleTable env b) (inv : NameInv b N) (hN : ∀ x n, N.name x = some n → Spelled n)
    (hst : Stamped env b) :
    RoutesTo env b (b.aliasForSession sid) sid ↔ OwnAddress b sid := by
  have hspelled {n : String} {x : SessionId} (h : Named b n x) : Spelled n := by
    obtain ⟨s, hs, rfl, hn, hactive, -⟩ := h
    exact hN _ n ((inv.rows s hs).holds_iff.mp ⟨hn, by rw [hactive]; rfl⟩)
  rw [aliasForSession_eq, OwnAddress]
  cases hshown : shownAlias b sid with
  | some a =>
    obtain ⟨ha, hsid, hactive⟩ := shownAlias_some hshown
    have hformed := t.formed a ha
    simp only [Option.some.injEq, exists_eq_left']
    have hparse := parse_formed plain hformed.grammar
    by_cases hid : isUuidShape (isHex true) a.display = true
    · rw [if_pos hid] at hparse ⊢
      exact resolve_id hparse
    · rw [if_neg hid] at hparse ⊢
      rw [RoutesTo, resolve_bare hparse, ← hformed.key]
      constructor
      · exact fun h x hx => h.2 x (.inl hx)
      · intro hnames
        refine ⟨.inr ⟨a, ha, hsid, rfl, hactive⟩, ?_⟩
        rintro x (hname | ⟨a', ha', rfl, hci, hactive'⟩)
        · exact hnames x hname
        · exact (t.sole a' ha' a ha hactive' hactive hci).trans hsid
  | none =>
    simp only [reduceCtorEq, false_and, exists_false, iff_false]
    -- Without a row of its own a session answers by its name only, and no name is automatic.
    intro hroutes
    cases hs : b.session? sid with
    | none =>
      have hparse := parse_formed plain (v := "unknown") (by decide)
      rw [if_neg (by decide)] at hparse
      simp only [hs, Option.map_none, Option.getD_none, RoutesTo, resolve_bare hparse] at hroutes
      rcases hroutes.1 with ⟨s, hrow, hsid, -⟩ | hheld
      · have hfound : (b.session? sid).isSome := mem_ids_iff.mp (hsid ▸ List.mem_map_of_mem hrow)
        rw [hs] at hfound
        cases hfound
      · exact shownAlias_none hshown hheld
    | some s =>
      obtain ⟨hmem, hsid⟩ := session?_eq_some hs
      have hmortal : s.sessionId ≠ operatorSessionId := by
        intro hop
        obtain ⟨a, ha, howner, hactive⟩ := t.operator
        exact shownAlias_none hshown ⟨a, ha, howner.trans (hop.symm.trans hsid), rfl, hactive⟩
      have hformed := formed_automatic plain sid
      have hparse := parse_formed plain hformed.grammar
      rw [automaticAlias_noId, if_neg (by decide)] at hparse
      simp only [hs, Option.map_some, Option.getD_some, hst s hmem hmortal, hsid, RoutesTo,
        resolve_bare hparse, ← hformed.key] at hroutes
      rcases hroutes.1 with hname | hheld
      · exact spelled_not_automatic plain (hspelled hname) sid rfl
      · exact shownAlias_none hshown hheld

/-! ## After a send -/

theorem Named.of_core {n : String} {x : SessionId} (h : b'.sessions.map core = b.sessions.map core)
    (hx : Named b n x) : Named b' n x := by
  obtain ⟨s, hs, hid, hn, hactive, hlive⟩ := hx
  have hcore : core s ∈ b'.sessions.map core := h ▸ List.mem_map_of_mem hs
  obtain ⟨s', hs', heq⟩ := List.mem_map.mp hcore
  refine ⟨s', hs', ?_, ?_, ?_, ?_⟩
  · exact (congrArg Session.sessionId heq).trans hid
  · exact (congrArg Session.normalizedSessionName heq).trans hn
  · exact (congrArg Session.sessionNameState heq).trans hactive
  · exact (congrArg Session.expiredAt heq).trans hlive

theorem shownAlias_congr (h : b'.aliases = b.aliases) (sid : SessionId) :
    shownAlias b' sid = shownAlias b sid := by
  simp only [shownAlias, Broker.activeAliases, h]

/-- A posting leaves a session the address it had. -/
theorem ownAddress_posted (haliases : b'.aliases = b.aliases)
    (hcore : b'.sessions.map core = b.sessions.map core) :
    OwnAddress b' sid ↔ OwnAddress b sid := by
  have hnames {n : String} {x : SessionId} : Named b' n x ↔ Named b n x :=
    ⟨fun h => h.of_core hcore.symm, fun h => h.of_core hcore⟩
  simp only [OwnAddress, shownAlias_congr haliases, isSome_core hcore, hnames]

theorem aliasForSession_posted (haliases : b'.aliases = b.aliases)
    (hcore : b'.sessions.map core = b.sessions.map core) :
    b'.aliasForSession sid = b.aliasForSession sid := by
  have hauto :
    (b'.session? sid).map (·.automaticAlias) = (b.session? sid).map (·.automaticAlias) := by
    have := congrArg (Option.map (·.automaticAlias)) (session?_core hcore sid)
    simpa [Option.map_map, Function.comp_def, core] using this
  rw [aliasForSession_eq, aliasForSession_eq, shownAlias_congr haliases, hauto]

/-- **When a return address leads back.** The alias a message shows its recipient is resolved, in
    the state the send leaves behind, to the sender exactly if the sender had an address of its own:
    an active row in the alias table whose alias is the sender's own id, or is no id and not the
    name of another session. -/
theorem return_address_iff (plain : PlainText env.text) {u : Desk} {input : SendInput}
    {r : SendResult} {m : Message} (hreach : u.Reachable env Any)
    (hsend : send env mom.now auth input u.db = (.ok r, b'))
    (hstored : b'.messages = u.db.messages ++ [m]) :
    RoutesTo env b' m.senderAlias auth.sessionId ↔ OwnAddress u.db auth.sessionId := by
  rcases send_posts hsend with ⟨dup, -, -, rfl⟩ | ⟨-, m', sent⟩
  · exact absurd hstored (by simp)
  · have hm : m = m' := by
      have happend := hstored.symm.trans sent.posted.messages
      simpa using happend
    obtain ⟨traceId, sequence, threadSequence, hrow⟩ := sent.row
    have halias : m.senderAlias = u.db.aliasForSession auth.sessionId := by
      rw [hm, hrow]
      rfl
    have haliases : b'.aliases = u.db.aliases := by
      have hsame : SameAliases u.db (send env mom.now auth input u.db).2 := send_aliases u.db
      rwa [hsend] at hsame
    have hcore := sent.posted.sessions
    obtain ⟨v, hv, rfl⟩ := Sent.desk hreach hsend
    obtain ⟨N, inv, hN⟩ := named_of_desk hv
    rw [halias, ← aliasForSession_posted haliases hcore, ← ownAddress_posted haliases hcore]
    exact routes_shown plain (handleTable_of_desk plain hv) inv (fun x n h => (hN x n h).1)
      (stamped_of_desk hv)

/-- `beta` can answer `alpha` at the alias its message shows. -/
theorem alpha_answerable :
    let u := deskAfter (atDesk (requestSent.take 3))
    let sent := send plainEnv ⟨1000⟩ (component "alpha" .mcp 1 1) plea u.db
    ∃ m, sent.2.messages = u.db.messages ++ [m] ∧
      RoutesTo plainEnv sent.2 m.senderAlias "alpha" := by
  intro u sent
  have hrun : sent.1 = .ok (SendResult.mk 8 none 8 "beta" "beta-name" 1 .queued false none none) ∧
      u.db.messages = [] ∧ sent.2.messages.length = 1 ∧
      shownAlias u.db "alpha" = some ⟨"session-alpha", "session-alpha", "alpha", true⟩ ∧
      ∀ s ∈ u.db.sessions, s.normalizedSessionName ≠ some "session-alpha" := by decide +kernel
  obtain ⟨hok, hbefore, hone, hshown, hnames⟩ := hrun
  obtain ⟨m, hm⟩ := List.length_eq_one_iff.mp hone
  have hstored : sent.2.messages = u.db.messages ++ [m] := by
    rw [hm, hbefore]
    rfl
  refine ⟨m, hstored, (@return_address_iff plainEnv { nowMs := 1000 } (component "alpha" .mcp 1 1)
    sent.2 plainText_plainEnv u plea _ m (reachable_deskAfter _) (Prod.ext hok rfl) hstored).mpr
    ⟨_, hshown, ?_⟩⟩
  rw [if_neg (by decide)]
  rintro x ⟨s, hs, -, hn, -⟩
  exact absurd hn (hnames s hs)

/-- Two sessions whose ids begin alike, and `beta`. -/
def alikeIds : List Event :=
  [ (.register { sessionId := "abcdefgh-1", connectionId := 1, processId := 1 }, { nowMs := 1000 }),
    (.register { sessionId := "abcdefgh-2", connectionId := 2, processId := 2 }, { nowMs := 1000 }),
    (.register { sessionId := "beta", connectionId := 3, processId := 3
                 requestedSessionName := some "beta-name" }, { nowMs := 1000 }) ]

/-- What the second of them sends shows an alias that leads to the first. -/
theorem return_address_misroutes :
    let u := deskAfter (atDesk alikeIds)
    let sent := send plainEnv ⟨1000⟩ (component "abcdefgh-2" .mcp 1 2) plea u.db
    u.Reachable plainEnv Any ∧ sent.1.isOk = true ∧
      ∃ m, sent.2.messages = u.db.messages ++ [m] ∧ m.senderSessionId = "abcdefgh-2" ∧
        RoutesTo plainEnv sent.2 m.senderAlias "abcdefgh-1" ∧
        ¬ RoutesTo plainEnv sent.2 m.senderAlias "abcdefgh-2" := by
  intro u sent
  have hrun : sent.1.isOk = true ∧ u.db.messages = [] ∧ sent.2.messages.length = 1 ∧
      (∀ m ∈ sent.2.messages, m.senderSessionId = "abcdefgh-2" ∧
        m.senderAlias = "session-abcdefgh") ∧
      (resolveRecipient plainEnv sent.2 "session-abcdefgh").toOption =
        some ("abcdefgh-1", "session-abcdefgh") := by decide +kernel
  obtain ⟨hok, hbefore, hone, hrows, hresolved⟩ := hrun
  obtain ⟨m, hm⟩ := List.length_eq_one_iff.mp hone
  obtain ⟨hsender, halias⟩ := hrows m (by rw [hm]; exact List.mem_singleton_self m)
  have hfirst : resolveRecipient plainEnv sent.2 m.senderAlias =
      .ok ("abcdefgh-1", "session-abcdefgh") := by
    rw [halias]
    cases hcase : resolveRecipient plainEnv sent.2 "session-abcdefgh" with
    | error e =>
      rw [hcase] at hresolved
      cases hresolved
    | ok r =>
      rw [hcase] at hresolved
      exact congrArg Except.ok (Option.some.inj hresolved)
  refine ⟨reachable_deskAfter _, hok, m, ?_, hsender, ⟨_, hfirst⟩, ?_⟩
  · rw [hm, hbefore]
    rfl
  · rintro ⟨h, hsecond⟩
    rw [hfirst] at hsecond
    have hsame : "abcdefgh-1" = "abcdefgh-2" := congrArg Prod.fst (Except.ok.inj hsecond)
    exact absurd hsame (by decide)

end Proof
end XBus
