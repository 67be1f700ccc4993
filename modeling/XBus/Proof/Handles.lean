import XBus.Proof.Finality
import XBus.Lib.Ascii

/-!
# The alias table

Aliases are bookkeeping to the other invariants and have their own here. In every reachable state
every row of the table spells its key (`formed`), an active key belongs to one session (`sole`),
and the operator is never without an active alias (`operator`).

Four statements write the table: a row is taken where nobody holds the key, a row of the session's
own is woken where nobody holds the key, and the rows of a session are put to sleep or deleted when
it expires or its record is removed. Everything else leaves the table alone, and the walks below say
so call by call.

The automatic alias is cut out of an id that can be any text. That what is left of it spells an
alias is the one thing that depends on the host's `toLowerCase`: `PlainText` states what the host
documents of its text functions on the characters of a handle.
-/

set_option autoImplicit false

namespace XBus
namespace Proof

open Lib

variable {env : Env} {mom : Moment} {now : Iso} {auth : SessionAuthority} {b b' : Broker}
  {sid : SessionId}

/-! ## Text -/

/-- The host's text functions on names: ASCII text is in normal form, its lower case is that of
    its characters, and what normalises to a name has no white space around it. -/
structure PlainText (text : Text) : Prop where
  nfc : ∀ s : String, s.toList.all isNameChar → text.nfc s = s
  toLowerCase : ∀ s : String, s.toList.all isNameChar →
    (text.toLowerCase s).toList = s.toList.map Char.toLower
  trim : ∀ s : String, (text.nfc s).toList.all isNameChar → text.trim s = s

theorem plainText_plainEnv : PlainText plainEnv.text where
  nfc _ _ := rfl
  toLowerCase _ _ := String.toList_map
  trim _ _ := rfl

/-- `[A-Za-z0-9_-]`. -/
def isAliasChar (c : Char) : Bool := isAsciiAlnum c || c = '_' || c = '-'

theorem isNameChar_of_alias {c : Char} (h : isAliasChar c = true) : isNameChar c = true := by
  simp only [isAliasChar, isNameChar, Bool.or_eq_true] at h ⊢
  rcases h with (h | h) | h
  · exact .inl (.inl (.inl h))
  · exact .inl (.inr h)
  · exact .inr h

theorem matchesAlias_iff {s : String} : matchesAlias s = true ↔
    s.toList ≠ [] ∧ s.length ≤ 128 ∧ s.toList.all isAliasChar := by
  simp [matchesAlias, isAliasChar, and_assoc]

theorem nameChars_of_matchesAlias {s : String} (h : matchesAlias s = true) :
    s.toList.all isNameChar := by
  obtain ⟨-, -, hall⟩ := matchesAlias_iff.mp h
  exact List.all_eq_true.mpr fun c hc => isNameChar_of_alias (List.all_eq_true.mp hall c hc)

/-- An alias in order: it fits the grammar, and its key is its lower case. -/
structure Formed (env : Env) (handle : Alias) : Prop where
  grammar : matchesAlias handle.display = true
  key : handle.ci = env.text.toLowerCase handle.display

theorem formed_of_valid {raw : String} {handle : Alias}
    (h : validateUserAlias env.text raw = .ok handle) : Formed env handle := by
  simp only [validateUserAlias, check_ok] at h
  obtain ⟨-, -, hgrammar, -, -, hhandle⟩ := h
  obtain rfl := Except.ok.inj hhandle
  exact ⟨not_not.mp hgrammar, rfl⟩

theorem display_of_valid {raw : String} {handle : Alias}
    (h : validateUserAlias env.text raw = .ok handle) : handle.display = raw := by
  simp only [validateUserAlias, check_ok] at h
  obtain ⟨-, -, -, -, -, hhandle⟩ := h
  obtain rfl := Except.ok.inj hhandle
  rfl

/-- Whatever the id, its automatic alias is in order. -/
theorem formed_automatic (plain : PlainText env.text) (sid : SessionId) :
    Formed env (automaticAlias env.text sid) := by
  refine ⟨?_, rfl⟩
  set cut := (sid.toList.filter isAsciiAlnum).take 8 with hcut
  have halnum : ∀ c ∈ cut, isAsciiAlnum c = true := fun c hc =>
    (List.mem_filter.mp (List.mem_of_mem_take hc)).2
  have hname : (String.ofList cut).toList.all isNameChar := by
    rw [String.toList_ofList]
    exact List.all_eq_true.mpr fun c hc => by simp [isNameChar, halnum c hc]
  have hsafe := plain.toLowerCase _ hname
  rw [String.toList_ofList] at hsafe
  have hshort : cut.length ≤ 8 := by
    rw [hcut, List.length_take]
    exact Nat.min_le_left _ _
  rw [matchesAlias_iff]
  simp only [automaticAlias, ← hcut]
  split
  · decide
  · refine ⟨by simp, ?_, ?_⟩
    · rw [← String.length_toList, String.toList_append, hsafe]
      simp only [List.length_append, List.length_map]
      exact Nat.le_trans (Nat.add_le_add_left hshort _) (by decide)
    · rw [String.toList_append, hsafe, List.all_append, Bool.and_eq_true]
      refine ⟨by decide, List.all_eq_true.mpr fun c hc => ?_⟩
      obtain ⟨d, hd, rfl⟩ := List.mem_map.mp hc
      have hlower : isAsciiAlnum d.toLower = true := (isAlphanum_toLower d).trans (halnum d hd)
      simp [isAliasChar, hlower]

/-! ## The table -/

/-- What holds of the alias table in every reachable state. -/
structure HandleTable (env : Env) (b : Broker) : Prop where
  formed : ∀ a ∈ b.aliases, Formed env { display := a.display, ci := a.ci }
  sole : ∀ a ∈ b.aliases, ∀ a' ∈ b.aliases, a.active = true → a'.active = true → a.ci = a'.ci →
    a.sessionId = a'.sessionId
  operator : ∃ a ∈ b.aliases, a.sessionId = operatorSessionId ∧ a.active = true

theorem aliasHolder_none {ci : String} :
    b.aliasHolder ci = none ↔ ∀ a ∈ b.aliases, a.active = true → a.ci ≠ ci := by
  simp only [Broker.aliasHolder, Option.map_eq_none_iff, List.find?_eq_none, decide_eq_true_eq]
  constructor
  · exact fun h a ha hactive hci => h a ha ⟨hci, hactive⟩
  · exact fun h a ha hboth => h a ha hboth.2 hboth.1

namespace HandleTable

theorem same (t : HandleTable env b) (h : b'.aliases = b.aliases) : HandleTable env b' :=
  ⟨h ▸ t.formed, h ▸ t.sole, h ▸ t.operator⟩

/-- A key that nobody holds is taken. -/
theorem take (t : HandleTable env b) {handle : Alias} (hf : Formed env handle)
    (free : b.aliasHolder handle.ci = none)
    (h : b'.aliases = b.aliases ++ [{ display := handle.display, ci := handle.ci
                                      sessionId := sid, active := true }]) :
    HandleTable env b' := by
  have hfree := aliasHolder_none.mp free
  refine ⟨?_, ?_, ?_⟩
  · intro a ha
    rw [h] at ha
    rcases List.mem_append.mp ha with hold | hnew
    · exact t.formed a hold
    · rw [List.mem_singleton.mp hnew]
      exact hf
  · intro a ha a' ha' hactive hactive' hci
    rw [h] at ha ha'
    rcases List.mem_append.mp ha with hold | hnew
    · rcases List.mem_append.mp ha' with hold' | hnew'
      · exact t.sole a hold a' hold' hactive hactive' hci
      · rw [List.mem_singleton.mp hnew'] at hci
        exact absurd hci (hfree a hold hactive)
    · rcases List.mem_append.mp ha' with hold' | hnew'
      · rw [List.mem_singleton.mp hnew] at hci
        exact absurd hci.symm (hfree a' hold' hactive')
      · rw [List.mem_singleton.mp hnew, List.mem_singleton.mp hnew']
  · obtain ⟨a, ha, hop⟩ := t.operator
    exact ⟨a, h ▸ List.mem_append_left _ ha, hop⟩

/-- The rows of one session under a key nobody holds are woken. -/
theorem wake (t : HandleTable env b) {ci : String} (free : b.aliasHolder ci = none)
    (h : b'.aliases = updateWhere (fun a => a.sessionId = sid ∧ a.ci = ci)
      (fun a => { a with active := true }) b.aliases) : HandleTable env b' := by
  have hfree := aliasHolder_none.mp free
  -- An active row is an old one under another key, or one of the woken.
  have hrow : ∀ a ∈ b'.aliases, ∃ a₀ ∈ b.aliases, a.display = a₀.display ∧ a.ci = a₀.ci ∧
      a.sessionId = a₀.sessionId ∧ (a.active = true → a₀.active = true ∨
        a₀.sessionId = sid ∧ a₀.ci = ci) := by
    intro a ha
    rw [h] at ha
    obtain ⟨a₀, ha₀, rfl⟩ := mem_updateWhere.mp ha
    refine ⟨a₀, ha₀, ?_⟩
    by_cases hhit : a₀.sessionId = sid ∧ a₀.ci = ci
    · simp [hhit]
    · simp [hhit]
  refine ⟨?_, ?_, ?_⟩
  · intro a ha
    obtain ⟨a₀, ha₀, hdisplay, hci, -, -⟩ := hrow a ha
    rw [hdisplay, hci]
    exact t.formed a₀ ha₀
  · intro a ha a' ha' hactive hactive' hci
    obtain ⟨a₀, ha₀, -, hci₀, hsid₀, hon⟩ := hrow a ha
    obtain ⟨a₁, ha₁, -, hci₁, hsid₁, hon'⟩ := hrow a' ha'
    rw [hsid₀, hsid₁]
    have hkeys : a₀.ci = a₁.ci := hci₀.symm.trans (hci.trans hci₁)
    rcases hon hactive with hold | hwoken
    · rcases hon' hactive' with hold' | hwoken'
      · exact t.sole a₀ ha₀ a₁ ha₁ hold hold' hkeys
      · exact absurd (hkeys.trans hwoken'.2) (hfree a₀ ha₀ hold)
    · rcases hon' hactive' with hold' | hwoken'
      · exact absurd (hkeys.symm.trans hwoken.2) (hfree a₁ ha₁ hold')
      · exact hwoken.1.trans hwoken'.1.symm
  · obtain ⟨a, ha, hop, hactive⟩ := t.operator
    refine ⟨_, h ▸ mem_updateWhere.mpr ⟨a, ha, rfl⟩, ?_⟩
    split
    · exact ⟨hop, rfl⟩
    · exact ⟨hop, hactive⟩

/-- Rows fall asleep or go, and the operator keeps one. -/
theorem shrink (t : HandleTable env b)
    (hrow : ∀ a ∈ b'.aliases, ∃ a₀ ∈ b.aliases, a.display = a₀.display ∧ a.ci = a₀.ci ∧
      a.sessionId = a₀.sessionId ∧ (a.active = true → a₀.active = true))
    (hop : ∃ a ∈ b'.aliases, a.sessionId = operatorSessionId ∧ a.active = true) :
    HandleTable env b' := by
  refine ⟨?_, ?_, hop⟩
  · intro a ha
    obtain ⟨a₀, ha₀, hdisplay, hci, -, -⟩ := hrow a ha
    rw [hdisplay, hci]
    exact t.formed a₀ ha₀
  · intro a ha a' ha' hactive hactive' hci
    obtain ⟨a₀, ha₀, -, hci₀, hsid₀, hon⟩ := hrow a ha
    obtain ⟨a₁, ha₁, -, hci₁, hsid₁, hon'⟩ := hrow a' ha'
    rw [hsid₀, hsid₁]
    exact t.sole a₀ ha₀ a₁ ha₁ (hon hactive) (hon' hactive') (hci₀.symm.trans (hci.trans hci₁))

/-- The rows of a session other than the operator's are put to sleep. -/
theorem sleep (t : HandleTable env b) (mortal : sid ≠ operatorSessionId)
    (h : b'.aliases = updateWhere (fun a => a.sessionId = sid ∧ a.active)
      (fun a => { a with active := false }) b.aliases) : HandleTable env b' := by
  refine t.shrink ?_ ?_
  · intro a ha
    rw [h] at ha
    obtain ⟨a₀, ha₀, rfl⟩ := mem_updateWhere.mp ha
    refine ⟨a₀, ha₀, ?_⟩
    split
    · exact ⟨rfl, rfl, rfl, fun hoff => nomatch hoff⟩
    · exact ⟨rfl, rfl, rfl, id⟩
  · obtain ⟨a, ha, hop, hactive⟩ := t.operator
    have hmiss : ¬ (a.sessionId = sid ∧ a.active = true) := fun hhit =>
      mortal (hhit.1.symm.trans hop)
    refine ⟨a, ?_, hop, hactive⟩
    rw [h]
    exact mem_updateWhere_of_mem ha (by simpa using hmiss)

/-- The rows of a session other than the operator's are deleted. -/
theorem delete (t : HandleTable env b) (mortal : sid ≠ operatorSessionId)
    (h : b'.aliases = b.aliases.filter fun a => a.sessionId ≠ sid) : HandleTable env b' := by
  refine t.shrink ?_ ?_
  · intro a ha
    rw [h] at ha
    exact ⟨a, List.mem_of_mem_filter ha, rfl, rfl, rfl, id⟩
  · obtain ⟨a, ha, hop, hactive⟩ := t.operator
    refine ⟨a, ?_, hop, hactive⟩
    rw [h]
    exact List.mem_filter.mpr ⟨ha, by simpa [hop] using Ne.symm mortal⟩

end HandleTable

/-! ## What the calls do to it -/

/-- The alias table is as it was. -/
def SameAliases (b b' : Broker) : Prop := b'.aliases = b.aliases

instance : IsFrame SameAliases where
  refl _ := rfl
  trans h h' := Eq.trans h' h

/-- The session actively holds the alias. -/
def HoldsAlias (b : Broker) (ci : String) (sid : SessionId) : Prop :=
  ∃ a ∈ b.aliases, a.sessionId = sid ∧ a.ci = ci ∧ a.active = true

/-- The table stays in order, and nobody comes to hold an alias but the broker's own: an automatic
    one, or the operator's. -/
structure KeepsHandles (env : Env) (b b' : Broker) : Prop where
  table : HandleTable env b → HandleTable env b'
  inherited : ∀ ci x, HoldsAlias b' ci x → HoldsAlias b ci x ∨
    (∃ y, ci = (automaticAlias env.text y).ci) ∨
    ci = env.text.toLowerCase operatorSessionId ∧ x = operatorSessionId

instance : IsFrame (KeepsHandles env) where
  refl _ := ⟨id, fun _ _ => .inl⟩
  trans h h' := by
    refine ⟨fun t => h'.table (h.table t), fun ci x hx => ?_⟩
    rcases h'.inherited ci x hx with hold | hown
    · exact h.inherited ci x hold
    · exact .inr hown

theorem SameAliases.keeps (h : SameAliases b b') : KeepsHandles env b b' := by
  refine ⟨fun t => t.same h, fun ci x hx => .inl ?_⟩
  obtain ⟨a, ha, hrest⟩ := hx
  exact ⟨a, h ▸ ha, hrest⟩

theorem respects_same {α : Type} {x : BrokerCall α} (h : Respects SameAliases x) :
    Respects (KeepsHandles env) x := h.mono fun _ _ => SameAliases.keeps

theorem upsertAutomaticAliasSafe_keeps (hf : Formed env (automaticAlias env.text sid)) :
    KeepsHandles env b (b.upsertAutomaticAliasSafe (automaticAlias env.text sid) sid) := by
  unfold Broker.upsertAutomaticAliasSafe
  split
  · split
    · exact SameAliases.keeps rfl
    · exact IsFrame.refl b
  · rename_i hfree
    split
    · refine ⟨fun t => t.wake hfree rfl, fun ci x hx => ?_⟩
      obtain ⟨a, ha, hsid, hci, hactive⟩ := hx
      obtain ⟨a₀, ha₀, rfl⟩ := mem_updateWhere.mp ha
      by_cases hhit : a₀.sessionId = sid ∧ a₀.ci = (automaticAlias env.text sid).ci
      · rw [if_pos (decide_eq_true hhit)] at hci
        exact .inr (.inl ⟨sid, hci.symm.trans hhit.2⟩)
      · rw [if_neg (by simpa using hhit)] at hsid hci hactive
        exact .inl ⟨a₀, ha₀, hsid, hci, hactive⟩
    · refine ⟨fun t => t.take hf hfree rfl, fun ci x hx => ?_⟩
      obtain ⟨a, ha, hsid, hci, hactive⟩ := hx
      rcases List.mem_append.mp ha with hold | hnew
      · exact .inl ⟨a, hold, hsid, hci, hactive⟩
      · rw [List.mem_singleton.mp hnew] at hci
        exact .inr (.inl ⟨sid, hci.symm⟩)

/-! ### Calls that leave it alone -/

theorem assertCurrentEpoch_aliases : Respects SameAliases (assertCurrentEpoch auth) :=
  assertCurrentEpoch_auditTrail.mono fun _ _ => by
    rintro ⟨es, n, rfl⟩
    rfl

theorem allocSequence_aliases : Respects SameAliases (allocSequence sid) :=
  Respects.bind .get fun _ => Respects.bind .require fun _ =>
    Respects.bind (.modify fun _ => rfl) fun _ => .pure _

theorem insertMessage_aliases {m : Message} : Respects SameAliases (insertMessage m) :=
  Respects.bind .get fun _ => Respects.bind .require fun _ => Respects.bind .require fun _ =>
    .modify fun _ => rfl

theorem authorizeIfRequired_aliases {op : ReceiptOp} {mid : Id} {given : Option Id} :
    Respects SameAliases (authorizeIfRequired env now op mid auth given) := by
  refine Respects.bind .get fun b => ?_
  split
  · exact Respects.bind .lift fun _ => .pure _
  · exact .pure _

theorem consumeIfAny_aliases {op : ReceiptOp} (i : Option Id) :
    (b.consumeIfAny i op).aliases = b.aliases := by cases i <;> rfl

theorem queueReply_aliases {orig : Message} {replyId tid seq : Id} :
    (b.queueReply auth orig now replyId tid seq).aliases = b.aliases := rfl

theorem settleReply_aliases {input : ReplyInput} (i : Option Id) :
    (b.settleReply auth input now i).aliases = b.aliases := by cases i <;> rfl

theorem ensureParticipant_aliases {tid : Id} {author : AuthorType} :
    (b.ensureParticipant tid sid author now).aliases = b.aliases := rfl

theorem openTurn_aliases {tid mid : Id} {s r : SessionId} {author : AuthorType} :
    (b.openTurn tid mid s r author now).aliases = b.aliases := by
  unfold Broker.openTurn
  rw [ensureParticipant_aliases, ensureParticipant_aliases]
  rfl

theorem send_aliases {input : SendInput} : Respects SameAliases (send env now auth input) := by
  refine Respects.transaction (Respects.bind .get fun b => ?_)
  split
  · exact Respects.bind (.requireElse fun _ => rfl) fun _ => .pure _
  · refine Respects.bind .lift fun _ => Respects.bind (.requireElse fun _ => rfl) fun _ => ?_
    refine Respects.bind (.requireElse fun _ => rfl) fun _ => ?_
    refine Respects.bind (.act fun _ => rfl) fun _ => Respects.bind (.act fun _ => rfl) fun _ => ?_
    refine Respects.bind allocSequence_aliases fun _ => Respects.bind .lift fun _ => ?_
    refine Respects.bind (.act fun _ => openTurn_aliases) fun _ => ?_
    refine Respects.bind insertMessage_aliases fun _ => ?_
    exact Respects.bind (.modify fun _ => rfl) fun _ => .pure _

theorem setSubject_aliases {input : OperatorSendInput} {tid : Id} :
    (b.setSubject input tid).aliases = b.aliases := by
  unfold Broker.setSubject
  split <;> rfl

theorem operatorSend_aliases {input : OperatorSendInput} :
    Respects SameAliases (operatorSend env now input) := by
  refine Respects.transaction (Respects.bind .get fun b => ?_)
  split
  · exact .pure _
  · refine Respects.bind .lift fun _ => Respects.bind .require fun _ => ?_
    refine Respects.bind .require fun _ => Respects.bind (.act fun _ => rfl) fun _ => ?_
    refine Respects.bind (.act fun _ => rfl) fun _ => Respects.bind .lift fun _ => ?_
    refine Respects.bind (.act fun _ => setSubject_aliases.trans openTurn_aliases) fun _ => ?_
    refine Respects.bind allocSequence_aliases fun _ => Respects.bind .lift fun _ => ?_
    refine Respects.bind insertMessage_aliases fun _ => ?_
    exact Respects.bind (.modify fun _ => rfl) fun _ => .pure _

theorem ack_aliases {input : AckInput} : Respects SameAliases (ack env now auth input) := by
  refine Respects.bind assertAllowed_respects fun _ => ?_
  refine Respects.bind assertCurrentEpoch_aliases fun _ => Respects.transaction ?_
  refine Respects.bind .get fun b => Respects.bind .orThrow fun _ => ?_
  refine Respects.bind .require fun _ => ?_
  split
  · refine Respects.bind (.requireElse fun _ => rfl) fun _ => ?_
    exact Respects.bind .orThrow fun _ => .pure _
  · refine Respects.bind authorizeIfRequired_aliases fun _ => ?_
    refine Respects.bind (.requireElse fun _ => rfl) fun _ => ?_
    refine Respects.bind (.modify fun _ => rfl) fun _ =>
      Respects.bind (.modify fun _ => rfl) fun _ => ?_
    exact Respects.bind (.modify fun _ => consumeIfAny_aliases _) fun _ => .pure _

theorem reply_aliases {input : ReplyInput} : Respects SameAliases (reply env now auth input) := by
  refine Respects.bind assertAllowed_respects fun _ => ?_
  refine Respects.bind assertCurrentEpoch_aliases fun _ => Respects.transaction ?_
  refine Respects.bind .get fun b => Respects.bind .orThrow fun _ => ?_
  refine Respects.bind .require fun _ => ?_
  split
  · exact .pure _
  · refine Respects.bind authorizeIfRequired_aliases fun _ => ?_
    refine Respects.bind (.requireElse fun _ => rfl) fun _ => ?_
    refine Respects.bind (.modify fun _ => rfl) fun _ =>
      Respects.bind allocSequence_aliases fun _ => ?_
    refine Respects.bind (.modify fun _ => rfl) fun _ => ?_
    refine Respects.bind insertMessage_aliases fun _ => ?_
    exact Respects.bind (.modify fun _ => (settleReply_aliases _).trans queueReply_aliases)
      fun _ => .pure _

/-! ### Pulls -/

theorem issue_aliases {mid : Id} {epoch logical : Nat} {ck : CheckpointId} :
    (issue env now mid sid epoch ck logical b).2.aliases = b.aliases := by
  unfold issue
  split
  · rfl
  · split <;> rfl

theorem complete_aliases {mid : Id} {ra rr : Bool} :
    (b.completeIfNoResponseRequired mid ra rr now).aliases = b.aliases := by
  unfold Broker.completeIfNoResponseRequired
  split
  · rfl
  · split <;> rfl

theorem injectOne_aliases {ck : CheckpointId} {audited : Bool} {m : Message} :
    (injectOne env now auth ck audited m b).2.aliases = b.aliases := by
  unfold injectOne
  split
  · extract_lets b₁ issued b₂
    have hissued : issued.2.aliases = b.aliases := issue_aliases
    have hb₂ : b₂.aliases = b.aliases := by
      show (if audited then _ else _ : Broker).aliases = _
      split <;> exact hissued
    split
    · exact hb₂
    · exact complete_aliases.trans hb₂
  · rfl

theorem injectAll_aliases {ck : CheckpointId} {audited : Bool} (ms : List Message) (b : Broker) :
    (injectAll env now auth ck audited ms b).2.aliases = b.aliases := by
  induction ms generalizing b with
  | nil => rfl
  | cons m ms ih =>
    simp only [injectAll]
    split <;> exact (ih _).trans injectOne_aliases

theorem pullForced_aliases {ck : CheckpointId} {limit : Nat} {audited : Bool} :
    Respects SameAliases (pullForced env now auth ck limit audited) := by
  refine Respects.transaction (Respects.act fun b => ?_)
  show (if _ then _ else _ : Broker).aliases = b.aliases
  split <;> exact injectAll_aliases _ b

theorem checkpointPull_aliases {ck : CheckpointId} {limit : Nat} :
    Respects SameAliases (checkpointPull env now auth ck limit) := by
  refine Respects.bind assertAllowed_respects fun _ => ?_
  refine Respects.bind assertCurrentEpoch_aliases fun _ => Respects.bind .get fun b => ?_
  refine .ite (.ite pullForced_aliases (.pure _)) ?_
  exact Respects.bind (.modify fun _ => rfl) fun _ => .pure _

theorem processNext_aliases {ck : CheckpointId} :
    Respects SameAliases (processNext env now auth ck) := by
  refine Respects.bind assertAllowed_respects fun _ => ?_
  refine Respects.bind assertCurrentEpoch_aliases fun _ => Respects.bind .get fun b => ?_
  refine .ite pullForced_aliases ?_
  exact Respects.bind (.modify fun _ => rfl) fun _ => .pure _

theorem inboxView_aliases {ck : CheckpointId} {limit : Nat} :
    Respects SameAliases (inboxView env now auth ck limit) :=
  Respects.bind assertAllowed_respects fun _ => Respects.bind assertCurrentEpoch_aliases fun _ =>
    Respects.bind checkpointPull_aliases fun _ => Respects.bind .get fun _ => .pure _

theorem markInjectedFor_aliases (mids : List Id) (b : Broker) :
    (markInjectedFor env now auth mids b).2.aliases = b.aliases := by
  induction mids generalizing b with
  | nil => rfl
  | cons mid mids ih =>
    simp only [markInjectedFor]
    split
    · exact ih b
    · split <;> exact (ih _).trans injectOne_aliases

theorem pendingForSession_aliases {limit : Nat} :
    Respects SameAliases (pendingForSession now auth limit) :=
  Respects.bind assertCurrentEpoch_aliases fun _ => Respects.bind .get fun _ => .pure _

theorem daemonCheckpointPull_aliases {limit : Nat} :
    Respects SameAliases (daemonCheckpointPull env now auth limit) := by
  refine Respects.bind pendingForSession_aliases fun _ => ?_
  refine Respects.bind (Respects.bind assertCurrentEpoch_aliases fun _ =>
    Respects.transaction (.act fun b => markInjectedFor_aliases _ b)) fun marked => ?_
  refine Respects.bind (.modify fun b => ?_) fun _ => Respects.bind .get fun _ => .pure _
  show (if _ then _ else _ : Broker).aliases = b.aliases
  split <;> rfl

theorem redeliver_aliases {mid : Id} : Respects SameAliases (redeliver env now auth mid) := by
  refine Respects.bind assertAllowed_respects fun _ => ?_
  refine Respects.bind assertCurrentEpoch_aliases fun _ => Respects.transaction ?_
  refine Respects.bind .get fun b => ?_
  split
  · exact .pure _
  · refine .ite (.pure _) (.ite ?_ ?_)
    · exact Respects.bind (.modify fun _ => rfl) fun _ => .pure _
    · refine Respects.bind (.act fun _ => issue_aliases) fun _ => Respects.bind .orThrow fun _ => ?_
      exact Respects.bind (.modify fun _ => rfl) fun _ => .pure _

/-! ### Calls that write it -/

/-- A registered alias is taken where nobody holds it, and is the caller's. -/
theorem registerAlias_snd (env : Env) (auth : SessionAuthority) (raw : String) (b : Broker) :
    SameAliases b (registerAlias env auth raw b).2 ∨ ∃ handle,
      validateUserAlias env.text raw = .ok handle ∧ b.aliasHolder handle.ci = none ∧
      (registerAlias env auth raw b).2.aliases = b.aliases ++
        [⟨handle.display, handle.ci, auth.sessionId, true⟩] := by
  rcases hcall : registerAlias env auth raw b with ⟨e | r, b'⟩
  · have hrefused : b' = b := by
      simp only [registerAlias, registerAliasTransaction] at hcall
      cases hvalid : validateUserAlias env.text raw with
      | error e' => simpa [hvalid, Call.lift, bind] using (congrArg Prod.snd hcall).symm
      | ok handle =>
        rw [hvalid, Call.lift_ok_bind] at hcall
        exact Call.transaction_error hcall
    exact .inl (congrArg Broker.aliases hrefused)
  · simp only [registerAlias, registerAliasTransaction, Call.bind_ok, Call.lift_ok,
      Call.transaction_ok,
      assertCurrentEpoch_ok, Call.get_bind] at hcall
    obtain ⟨handle, _, ⟨hvalid, rfl⟩, _, _, ⟨-, rfl⟩, hcall⟩ := hcall
    cases hholder : b.aliasHolder handle.ci with
    | some holder =>
      simp only [hholder, Call.bind_ok, Call.require_ok, Call.modify_bind, Call.pure_ok] at hcall
      obtain ⟨_, _, ⟨-, rfl⟩, -, rfl⟩ := hcall
      exact .inl rfl
    | none =>
      simp only [hholder, Call.modify_bind, Call.pure_ok] at hcall
      obtain ⟨-, rfl⟩ := hcall
      exact .inr ⟨handle, hvalid, hholder, rfl⟩

theorem registerAlias_table {raw : String} (t : HandleTable env b) :
    HandleTable env (registerAlias env auth raw b).2 := by
  rcases registerAlias_snd env auth raw b with hsame | ⟨handle, hvalid, hfree, hrow⟩
  · exact t.same hsame
  · exact t.take (formed_of_valid hvalid) hfree hrow

/-- Who holds an alias after a registration held it before, or has just registered it. -/
theorem registerAlias_holds {raw ci : String} {x : SessionId}
    (h : HoldsAlias (registerAlias env auth raw b).2 ci x) :
    HoldsAlias b ci x ∨ x = auth.sessionId ∧ ci = env.text.toLowerCase raw := by
  obtain ⟨a, ha, hsid, hci, hactive⟩ := h
  rcases registerAlias_snd env auth raw b with hsame | ⟨handle, hvalid, -, hrow⟩
  · exact .inl ⟨a, hsame ▸ ha, hsid, hci, hactive⟩
  · rw [hrow] at ha
    rcases List.mem_append.mp ha with hold | hnew
    · exact .inl ⟨a, hold, hsid, hci, hactive⟩
    · rw [List.mem_singleton.mp hnew] at hsid hci
      refine .inr ⟨hsid.symm, hci.symm.trans ?_⟩
      rw [← display_of_valid hvalid]
      exact (formed_of_valid hvalid).key

section Plain

variable (plain : PlainText env.text)

include plain

theorem createSession_keeps {input : RegisterInput} :
    KeepsHandles env b (b.createSession env input) := by
  unfold Broker.createSession
  extract_lets auto b₁
  have hrow : KeepsHandles env b b₁ := SameAliases.keeps rfl
  exact IsFrame.trans hrow (upsertAutomaticAliasSafe_keeps (formed_automatic plain _))

omit plain in
theorem rehome_aliases {epoch : Nat} :
    (b.rehomeAcceptedReplyAuthority sid epoch now).aliases = b.aliases := by
  have hfold : SameAliases b (b.rehomeAcceptedReplyAuthority sid epoch now) := by
    refine IsFrame.foldl id (b.acceptedOwingReply sid) b fun acc mid _ => ?_
    show (acc.rehomeOne sid epoch now mid).aliases = acc.aliases
    unfold Broker.rehomeOne
    split <;> rfl
  exact hfold

theorem advanceEpoch_keeps {epoch : Nat} {resume : Bool} :
    KeepsHandles env b (b.advanceEpoch env now sid epoch resume) := by
  unfold Broker.advanceEpoch
  extract_lets b₁ b₂ b₃ b₄ b₅
  have hbegun : KeepsHandles env b b₅ :=
    SameAliases.keeps (rehome_aliases.trans (rfl : b₄.aliases = b.aliases))
  split
  · exact IsFrame.trans hbegun (upsertAutomaticAliasSafe_keeps (formed_automatic plain sid))
  · exact hbegun

theorem entered_keeps {input : RegisterInput} {epoch : Nat}
    (h : Entered env now input b epoch b') : KeepsHandles env b b' := by
  cases h with
  | created => exact createSession_keeps plain
  | advanced => exact advanceEpoch_keeps plain
  | joined => exact SameAliases.keeps rfl

omit plain in
theorem claim_aliases {requested : Option String} :
    (claimNameForRegister env mom sid requested b).2.aliases = b.aliases := by
  unfold claimNameForRegister
  split
  · rfl
  · split
    · rfl
    · split <;> rfl

omit plain in
theorem settleName_aliases {input : RegisterInput} {isNew : Bool} :
    (settleName env mom input isNew b).2.aliases = b.aliases := by
  unfold settleName
  split
  · exact claim_aliases
  · split
    · rfl
    · split
      · exact claim_aliases
      · rfl

theorem register_keeps {raw : RegisterInput} :
    Respects (KeepsHandles env) (register env mom raw) := by
  refine register_refuses.respects (fun _ _ h => h ▸ IsFrame.refl _) fun b a b' h => ?_
  obtain ⟨reclaim, input, b₁, b₂, hreg⟩ := register_ok h
  obtain ⟨es, hb₁⟩ := hreg.before_eq
  have hbefore : KeepsHandles env b b₁ := by
    rw [hb₁]
    exact SameAliases.keeps rfl
  have hafter : KeepsHandles env b₂ b' := by
    rw [hreg.after]
    exact SameAliases.keeps settleName_aliases
  exact IsFrame.trans hbefore (IsFrame.trans (entered_keeps plain hreg.entered) hafter)

theorem rename_keeps {norm : SessionName} {wasExpired : Bool} :
    KeepsHandles env b (b.rename env mom sid norm wasExpired).2 := by
  unfold Broker.rename
  extract_lets b₁ b₂ b₃
  have hrow : KeepsHandles env b b₁ := SameAliases.keeps rfl
  have halias : KeepsHandles env b₁ b₂ := by
    show KeepsHandles env b₁ (if wasExpired then _ else _)
    split
    · exact upsertAutomaticAliasSafe_keeps (formed_automatic plain sid)
    · exact IsFrame.refl b₁
  have howned : KeepsHandles env b₂ _ := SameAliases.keeps
    (rfl : (b₃.setNameOwnershipActive env mom (b₃.logicalIdOf sid) sid norm).2.aliases = b₂.aliases)
  exact IsFrame.trans hrow (IsFrame.trans halias howned)

theorem renameSession_keeps {raw : String} {secret : Option String} :
    Respects (KeepsHandles env) (renameSession env mom auth raw secret) := by
  refine renameSession_refuses.respects (fun _ _ h => h ▸ IsFrame.refl _) fun b r b' h => ?_
  obtain ⟨-, -, norm, s, b₁, -, -, rfl, ⟨-, rfl⟩ | ⟨-, own, hown⟩⟩ := renameSession_ok h
  · exact rename_keeps plain
  · have hforfeit : KeepsHandles env b b₁ := by
      rw [hown.state]
      exact SameAliases.keeps rfl
    exact IsFrame.trans hforfeit (rename_keeps plain)

end Plain

theorem operatorRenameAlias_aliases {raw : String} :
    Respects SameAliases (operatorRenameAlias env mom sid raw) := by
  refine operatorRenameAlias_refuses.respects (fun _ _ h => h ▸ IsFrame.refl _) fun b r b' h => ?_
  obtain ⟨norm, -, -, -, rfl⟩ := operatorRenameAlias_ok h
  exact rfl

theorem reapAckTimeout_aliases (acc : AckSweep) (r : Delivery) :
    SameAliases acc.db (reapAckTimeout env mom acc r).db := by
  unfold reapAckTimeout
  split
  · exact rfl
  · dsimp only
    split
    · exact rfl
    · split <;> exact rfl

theorem expireWaiting_aliases (acc : Nat × Broker) (r : Delivery) :
    SameAliases acc.2 (expireWaiting now acc r).2 := by
  unfold expireWaiting
  split <;> exact rfl

theorem expireSession_keeps (acc : Nat × Broker) {s : Session}
    (mortal : s.sessionId ≠ operatorSessionId) :
    KeepsHandles env acc.2 (expireSession now acc s).2 := by
  unfold expireSession
  split
  · refine ⟨fun t => t.sleep mortal rfl, fun ci x hx => .inl ?_⟩
    obtain ⟨a, ha, hsid, hci, hactive⟩ := hx
    obtain ⟨a₀, ha₀, rfl⟩ := mem_updateWhere.mp ha
    by_cases hhit : a₀.sessionId = s.sessionId ∧ a₀.active = true
    · rw [if_pos (decide_eq_true hhit)] at hactive
      cases hactive
    · rw [if_neg (by simpa using hhit)] at hsid hci hactive
      exact ⟨a₀, ha₀, hsid, hci, hactive⟩
  · exact IsFrame.refl _

theorem lapse_aliases : SameAliases b (reapStalePendingNames now b) := by
  unfold reapStalePendingNames
  split <;> exact rfl

theorem sweep_keeps : Respects (KeepsHandles env) (sweep env mom) := by
  refine Respects.transaction (.act fun b => ?_)
  have hacks : SameAliases b (reapAckTimeouts env mom b).db :=
    IsFrame.foldl AckSweep.db (b.lapsed mom.now) { db := b } fun acc r _ =>
      reapAckTimeout_aliases acc r
  have httl (b : Broker) : SameAliases b (reapAcceptanceTtl mom.now b).2 :=
    IsFrame.foldl Prod.snd (b.pastTtl mom.now) (0, b) fun acc r _ => expireWaiting_aliases acc r
  have hgone (b : Broker) : KeepsHandles env b (reapExpiredSessions mom.now b).2 :=
    IsFrame.foldl Prod.snd (b.dueSessions mom.now) (0, b) fun acc s hs =>
      expireSession_keeps acc (mortal_of_mem_dueSessions hs)
  exact IsFrame.trans hacks.keeps (IsFrame.trans (httl _).keeps
    (IsFrame.trans (hgone _) lapse_aliases.keeps))

theorem operatorRemoveRecord_keeps :
    Respects (KeepsHandles env) (operatorRemoveRecord now sid) := by
  refine Respects.bind_of_ok .require fun b _ t h => ?_
  obtain ⟨hmortal, rfl⟩ := Call.require_ok.mp h
  refine Respects.transaction_at fun r b' h => ?_
  simp only [Call.get_bind] at h
  cases hs : b.session? sid with
  | none =>
    simp only [hs, Call.pure_ok] at h
    exact h.2 ▸ IsFrame.refl b
  | some s =>
    simp only [hs, Call.bind_ok, Call.require_ok, Call.modify_bind, Call.pure_ok] at h
    obtain ⟨_, _, ⟨-, rfl⟩, -, rfl⟩ := h
    refine ⟨fun t => t.delete hmortal rfl, fun ci x hx => .inl ?_⟩
    obtain ⟨a, ha, hrest⟩ := hx
    exact ⟨a, List.mem_of_mem_filter ha, hrest⟩

theorem ensureOperatorSession_keeps : KeepsHandles env b (b.ensureOperatorSession env) := by
  unfold Broker.ensureOperatorSession
  split
  · cases hholder : b.aliasHolder (env.text.toLowerCase operatorSessionId) with
    | some holder =>
      exact SameAliases.keeps (by simp [SameAliases, Broker.provisionOperator, hholder])
    | none =>
      have hgrammar : matchesAlias operatorSessionId = true := by decide
      have hf : Formed env ⟨operatorSessionId, env.text.toLowerCase operatorSessionId⟩ :=
        ⟨hgrammar, rfl⟩
      have hrow : (b.provisionOperator env).aliases = b.aliases ++ [⟨operatorSessionId,
          env.text.toLowerCase operatorSessionId, operatorSessionId, true⟩] := by
        simp [Broker.provisionOperator, hholder]
      refine ⟨fun t => t.take hf hholder hrow, fun ci x hx => ?_⟩
      obtain ⟨a, ha, hsid, hci, hactive⟩ := hx
      rw [hrow] at ha
      rcases List.mem_append.mp ha with hold | hnew
      · exact .inl ⟨a, hold, hsid, hci, hactive⟩
      · rw [List.mem_singleton.mp hnew] at hsid hci
        exact .inr (.inr ⟨hci.symm, hsid.symm⟩)
  · exact SameAliases.keeps rfl

/-! ## Every call, and every reachable state -/

theorem operatorRedeliver_aliases {mid : Id} {confirm : Bool} :
    Respects SameAliases (operatorRedeliver now mid confirm) := by
  refine Respects.transaction (Respects.bind .get fun b => ?_)
  split
  · exact .pure _
  · refine .ite ?_ ?_
    · exact Respects.bind (.requireElse fun _ => rfl) fun _ => Respects.bind (.act fun _ => rfl)
        fun _ => Respects.bind (.modify fun _ => rfl) fun _ => .pure _
    · exact Respects.bind .require fun _ => Respects.bind (.modify fun _ => rfl) fun _ => .pure _

theorem redrive_aliases {mid : Id} {validate : SessionId → String → Option String} :
    Respects SameAliases (redrive env now mid validate) := by
  refine Respects.transaction (Respects.bind .get fun b => ?_)
  split
  · exact .pure _
  · exact .pure _
  · refine .ite (.pure _) ?_
    split
    · exact .pure _
    · exact Respects.bind (.act fun _ => rfl) fun _ =>
        Respects.bind (.modify fun _ => rfl) fun _ => .pure _

theorem discard_aliases {mid : Id} : Respects SameAliases (discard now mid) := by
  refine Respects.act fun b => ?_
  split <;> exact rfl

theorem cancel_aliases {mid : Id} : Respects SameAliases (cancel now mid) := by
  refine Respects.transaction (Respects.bind .get fun b => ?_)
  split
  · exact .pure _
  · refine .ite ?_ (.ite ?_ (.ite (.pure _) (.pure _)))
    · exact Respects.bind (.modify fun _ => rfl) fun _ => .pure _
    · exact Respects.bind (.modify fun _ => rfl) fun _ => .pure _

theorem signalReadiness_aliases {hints : ReadinessHints} :
    Respects SameAliases (signalReadiness auth hints) :=
  Respects.transaction (Respects.bind .get fun _ => Respects.bind .orThrow fun _ =>
    Respects.bind .require fun _ => Respects.bind (.modify fun _ => rfl) fun _ => .pure _)

theorem setControl_aliases {mode : ReceiveControl} :
    Respects SameAliases (setControl now auth mode) :=
  Respects.modify fun _ => rfl

theorem operatorSetControl_aliases {mode : ReceiveControl} :
    Respects SameAliases (operatorSetControl sid mode) :=
  Respects.transaction (Respects.bind .get fun _ => Respects.bind .require fun _ =>
    Respects.modify fun _ => rfl)

theorem recordWakeAttempt_aliases {mid : Id} : Respects SameAliases (recordWakeAttempt mid sid) :=
  Respects.modify fun _ => rfl

theorem blockPeer_aliases {handle : String} {unblock : Bool} :
    Respects SameAliases (blockPeer env auth handle unblock) := by
  refine Respects.bind .require fun _ => Respects.modify fun b => ?_
  split <;> exact rfl

theorem recordManagedSession_aliases : Respects SameAliases (recordManagedSession env sid) := by
  refine Respects.modify fun b => ?_
  split <;> exact rfl

theorem importDormantSession_aliases : Respects SameAliases (importDormantSession env sid) := by
  refine Respects.modify fun b => ?_
  split <;> exact rfl

theorem checkpointOf_aliases {given : Option String} :
    Respects SameAliases (checkpointOf given) := by
  unfold checkpointOf
  split
  · exact .pure _
  · exact .act fun _ => rfl

/-- Every call of the stores but the registration of an alias. -/
theorem exec_keeps (plain : PlainText env.text) (op : Op)
    (hop : ∀ auth raw, op ≠ .registerAlias auth raw) :
    Respects (KeepsHandles env) (exec env mom op) := by
  cases op with
  | register input => exact (register_keeps plain).map
  | send auth input => exact respects_same send_aliases.map
  | operatorSend input => exact respects_same operatorSend_aliases.map
  | checkpointPull auth ck limit =>
    exact respects_same (Respects.bind checkpointOf_aliases fun _ => checkpointPull_aliases.map)
  | processNext auth ck =>
    exact respects_same (Respects.bind checkpointOf_aliases fun _ => processNext_aliases.map)
  | inboxView auth ck limit =>
    exact respects_same (Respects.bind checkpointOf_aliases fun _ => inboxView_aliases.map)
  | daemonCheckpointPull auth limit => exact respects_same daemonCheckpointPull_aliases.map
  | peek auth limit => exact respects_same pendingForSession_aliases.map
  | ack auth input => exact respects_same ack_aliases.map
  | reply auth input => exact respects_same reply_aliases.map
  | redeliver auth mid => exact respects_same redeliver_aliases.map
  | registerAlias auth raw => exact absurd rfl (hop auth raw)
  | renameSession auth raw secret => exact (renameSession_keeps plain).map
  | signalReadiness auth hints => exact respects_same signalReadiness_aliases.map
  | setControl auth mode => exact respects_same setControl_aliases.map
  | blockPeer auth handle unblock => exact respects_same blockPeer_aliases.map
  | connClosed auth conn =>
    exact respects_same (Respects.bind (.modify fun _ => rfl) fun _ => .pure _)
  | sweep => exact sweep_keeps.map
  | operatorRedeliver mid confirm => exact respects_same operatorRedeliver_aliases.map
  | redrive mid validate => exact respects_same redrive_aliases.map
  | discard mid => exact respects_same discard_aliases.map
  | operatorRenameAlias sid raw => exact respects_same operatorRenameAlias_aliases.map
  | operatorSetControl sid mode => exact respects_same operatorSetControl_aliases.map
  | operatorRemoveRecord sid => exact operatorRemoveRecord_keeps.map
  | recordManagedSession sid => exact respects_same recordManagedSession_aliases.map
  | importDormantSession sid => exact respects_same importDormantSession_aliases.map
  | ensureOperatorSession =>
    exact Respects.bind (.modify fun _ => ensureOperatorSession_keeps) fun _ => .pure _

theorem desk_keeps (plain : PlainText env.text) (op : DeskOp)
    (hop : ∀ auth raw, op ≠ .store (.registerAlias auth raw)) :
    Respects (KeepsHandles env) (op.call env mom) := by
  cases op with
  | store op =>
    exact (exec_keeps plain op fun auth raw h => hop auth raw (congrArg DeskOp.store h)).map
  | cancel mid => exact respects_same cancel_aliases.map
  | recordWakeAttempt mid sid outcome => exact respects_same recordWakeAttempt_aliases.map

theorem desk_registerAlias {raw : String} :
    ((DeskOp.store (.registerAlias auth raw)).call env mom b).2 =
      (registerAlias env auth raw b).2 :=
  Call.map_snd.trans Call.map_snd

theorem desk_handleTable (plain : PlainText env.text) (op : DeskOp) (t : HandleTable env b) :
    HandleTable env (op.call env mom b).2 := by
  by_cases hop : ∃ auth raw, op = .store (.registerAlias auth raw)
  · obtain ⟨auth, raw, rfl⟩ := hop
    rw [desk_registerAlias]
    exact registerAlias_table t
  · exact (desk_keeps plain op (fun auth raw h => hop ⟨auth, raw, h⟩) b).table t

theorem handleTable_initial : HandleTable env (initial env) := by
  have hrow : (initial env).aliases = [⟨operatorSessionId,
      env.text.toLowerCase operatorSessionId, operatorSessionId, true⟩] := rfl
  have hgrammar : matchesAlias operatorSessionId = true := by decide
  refine ⟨?_, ?_, ?_⟩
  · intro a ha
    rw [hrow] at ha
    rw [List.mem_singleton.mp ha]
    exact ⟨hgrammar, rfl⟩
  · intro a ha a' ha' _ _ _
    rw [hrow] at ha ha'
    rw [List.mem_singleton.mp ha, List.mem_singleton.mp ha']
  · exact ⟨_, hrow ▸ List.mem_singleton_self _, rfl, rfl⟩

/-- **The alias table is in order** in every state the desk reaches. -/
theorem handleTable_of_desk (plain : PlainText env.text) {ok : Desk → DeskEvent → Prop} {u : Desk}
    (h : u.Reachable env ok) : HandleTable env u.db := by
  obtain ⟨log, run⟩ := h
  refine run.invariant (P := fun d => HandleTable env d.db) handleTable_initial fun d e hd _ => ?_
  exact desk_handleTable plain e.1 hd

end Proof
end XBus
