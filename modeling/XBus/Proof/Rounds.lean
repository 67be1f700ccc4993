import XBus.Responses
import XBus.Proof.AtMostOnce
import XBus.Proof.Gate

/-!
# Pulls, exactly

`InjectSpec` says what a round of a pull may do. Here it is what a round does, given that the
message waits: the body comes back unless it was seen before, and the delivery lands in flight or,
where no response is asked for, in `completed`. The loops put the rounds together (`Foretold`). The
id of a new injection is the one thing left open; `blur` puts `0` in its place.
-/

set_option autoImplicit false

namespace XBus

open Lib

/-- The message was shown before, at this epoch or under this checkpoint id: a pull re-arms its
    delivery and keeps the body back. -/
def Broker.shown (b : Broker) (epoch : Nat) (ck : Option String) (mid : Id) : Bool :=
  b.injections.any fun i => i.messageId = mid ∧
    ((i.recipientEpoch = epoch ∧ i.logicalInjectionNumber = 1) ∨
      ck.any fun text => i.checkpointId = .given text)

/-- The body of a message as a pull returns it. -/
def freshBody (m : Message) : PendingMessage := (rowToPending m).withInjection 0

/-- The message with the id of its injection put out. -/
def PendingMessage.blur (m : PendingMessage) : PendingMessage :=
  { m with injectionId := m.injectionId.map fun _ => 0 }

namespace Proof

variable {env : Env} {mom : Moment} {now : Iso} {auth : SessionAuthority} {ck : CheckpointId}
  {audited : Bool} {b b' : Broker}

/-! ## One round of a pull -/

/-- A delivery of the message waits. -/
def Awaits (b : Broker) (mid : Id) : Prop :=
  ∃ d ∈ b.deliveries, d.messageId = mid ∧ d.state.waiting = true

instance (b : Broker) (auth : SessionAuthority) (ck : CheckpointId) (mid : Id) :
    Decidable (SeenBefore b auth ck mid) :=
  inferInstanceAs (Decidable (∃ i ∈ b.injections, i.messageId = mid ∧
    ((i.recipientEpoch = auth.epoch ∧ i.logicalInjectionNumber = 1) ∨ i.checkpointId = ck)))

/-- The delivery of `m` as a pull leaves it; `again` if its body was shown before. -/
def landed (m : Message) (again : Bool) : DeliveryState :=
  if again || m.requiresAck || m.requiresReply then .transportWritten else .completed

/-- What a round does to the deliveries. -/
structure Lands (m : Message) (again : Bool) (d d' : Delivery) : Prop where
  messageId : d'.messageId = d.messageId
  recipient : d'.recipientSessionId = d.recipientSessionId
  other : d.messageId ≠ m.messageId → d' = d
  state : d.messageId = m.messageId → d.state.waiting = true → d'.state = landed m again

/-- Completing on injection: only what asks for no response, and only the message's delivery in
    flight. -/
theorem complete_lands (now : Iso) {m : Message} (hm : b.message? m.messageId = some m) :
    ∃ g : Delivery → Delivery,
      (b.completeIfNoResponseRequired m.messageId m.requiresAck m.requiresReply now).deliveries =
        b.deliveries.map g ∧
      ∀ d ∈ b.deliveries, (g d).messageId = d.messageId ∧
        (g d).recipientSessionId = d.recipientSessionId ∧
        (d.messageId ≠ m.messageId → g d = d) ∧
        (d.messageId = m.messageId → d.state = .transportWritten →
          (g d).state = landed m false) := by
  have hack : b.requiresAck m.messageId = m.requiresAck := by simp [Broker.requiresAck, hm]
  unfold Broker.completeIfNoResponseRequired
  split
  · rename_i hresp
    refine ⟨id, by simp, fun d _ => ⟨rfl, rfl, fun _ => rfl, fun _ htw => ?_⟩⟩
    have : landed m false = .transportWritten := by
      rcases hresp with h | h <;> simp [landed, h]
    rw [this]
    exact htw
  · rename_i hresp
    obtain ⟨hra, hrr⟩ := not_or.mp hresp
    have hland : landed m false = .completed := by simp [landed, hra, hrr]
    split
    · refine ⟨_, rfl, fun d _ => ?_⟩
      split
      · rename_i hp
        simp only [decide_eq_true_eq] at hp
        exact ⟨rfl, rfl, fun hne => absurd hp.1 hne, fun _ _ => hland.symm⟩
      · rename_i hp
        refine ⟨rfl, rfl, fun _ => rfl, fun hid htw => absurd ?_ hp⟩
        simp [hid, htw, hack, hra]
    · rename_i hnone
      refine ⟨id, by simp, fun d hd => ⟨rfl, rfl, fun _ => rfl, fun hid htw => absurd ?_ hnone⟩⟩
      exact List.any_eq_true.mpr ⟨d, hd, by simp [hid, htw, hack, hra]⟩

/-- **One round, exactly.** The body comes back unless it was seen before, and the delivery lands
    accordingly. -/
theorem injectOne_lands (env : Env) (now : Iso) (auth : SessionAuthority) (ck : CheckpointId)
    (audited : Bool) {m : Message} (hm : b.message? m.messageId = some m)
    (hw : Awaits b m.messageId) :
    (injectOne env now auth ck audited m b).1.isSome =
        ! decide (SeenBefore b auth ck m.messageId) ∧
      ∃ g, (injectOne env now auth ck audited m b).2.deliveries = b.deliveries.map g ∧
        ∀ d ∈ b.deliveries, Lands m (SeenBefore b auth ck m.messageId) d (g d) := by
  have hany : (b.deliveries.any fun d => d.messageId = m.messageId ∧ d.state.waiting) = true := by
    obtain ⟨d, hd, hid, hwait⟩ := hw
    exact List.any_eq_true.mpr ⟨d, hd, by simp [hid, hwait]⟩
  unfold injectOne
  rw [if_pos hany]
  set b₁ := (b.markTransportWritten m.messageId (ackDeadlineFor env now m.requiresAck)
    auth.epoch now).mint with hb₁
  obtain ⟨mark, hmark, hmarked⟩ : ∃ mark : Delivery → Delivery,
      b₁.deliveries = b.deliveries.map mark ∧ ∀ d, Lands m true d (mark d) := by
    refine ⟨_, rfl, fun d => ?_⟩
    split
    · rename_i hp
      simp only [decide_eq_true_eq] at hp
      exact ⟨rfl, rfl, fun hne => absurd hp.1 hne, fun _ _ => by simp [landed]⟩
    · rename_i hp
      exact ⟨rfl, rfl, fun _ => rfl, fun hid hwait => absurd (by simp [hid, hwait]) hp⟩
  dsimp only
  rcases hiss : issue env now m.messageId auth.sessionId auth.epoch ck 1 b₁ with ⟨_ | id, b₂⟩
  · -- Seen before: the delivery stays as marked.
    obtain ⟨hissued, i, hi, hrow⟩ := issue_none hiss
    have hseen : SeenBefore b auth ck m.messageId := ⟨i, hi, hrow⟩
    refine ⟨by simp [hseen], mark, ?_, fun d _ => by simpa [hseen] using hmarked d⟩
    cases audited with
    | true => exact hissued.deliveries.trans hmark
    | false => exact hissued.deliveries.trans hmark
  · -- A new row: what asks for no response completes.
    obtain ⟨-, hb₂, hepoch, hck⟩ := issue_some hiss
    have hunseen : ¬ SeenBefore b auth ck m.messageId := by
      rintro ⟨i, hi, hid, ⟨he, hl⟩ | hc⟩
      · exact hepoch i hi ⟨hid, he, hl⟩
      · exact hck i hi ⟨hid, hc⟩
    set b₃ := if audited then
        b₂.audit .transportWritten (some auth.sessionId) (some m.messageId) else b₂ with hb₃
    have hdel₃ : b₃.deliveries = b.deliveries.map mark := by
      rw [hb₃]
      split
      · exact (congrArg Broker.deliveries hb₂).trans hmark
      · exact (congrArg Broker.deliveries hb₂).trans hmark
    have hm₃ : b₃.message? m.messageId = some m := by
      have hsame : b₃.messages = b.messages := by
        rw [hb₃]
        split
        · rw [hb₂]; rfl
        · rw [hb₂]; rfl
      rw [Broker.message?, hsame]
      exact hm
    obtain ⟨g, hg, hlands⟩ := complete_lands now hm₃
    refine ⟨by simp [hunseen], g ∘ mark, ?_, fun d hd => ?_⟩
    · rw [hg, hdel₃, List.map_map]
    · have hmem : mark d ∈ b₃.deliveries := hdel₃ ▸ List.mem_map_of_mem hd
      obtain ⟨hid, hto, hother, hstate⟩ := hlands (mark d) hmem
      have hmd := hmarked d
      refine ⟨hid.trans hmd.messageId, hto.trans hmd.recipient, fun hne => ?_, fun heq hwait => ?_⟩
      · exact (hother (hmd.messageId.trans_ne hne)).trans (hmd.other hne)
      · have hflying : (mark d).state = .transportWritten := hmd.state heq hwait
        simpa [hunseen] using hstate (hmd.messageId.trans heq) hflying

/-! ## The loop -/

/-- Another message's round changes neither whether a message waits nor the rows of the message. -/
theorem InjectSpec.apart {m : Message} {r : Option Id × Broker}
    (h : InjectSpec env now auth ck m b r) {mid : Id} (hne : mid ≠ m.messageId) :
    (Awaits b mid → Awaits r.2 mid) ∧
      ∀ i : Injection, i.messageId = mid → (i ∈ r.2.injections ↔ i ∈ b.injections) := by
  constructor
  · rintro ⟨d, hd, hid, hwait⟩
    obtain ⟨g, hdel, hg⟩ := h.deliveries
    refine ⟨d, ?_, hid, hwait⟩
    rw [hdel]
    exact List.mem_map.mpr ⟨d, hd, (hg d).other (hid.trans_ne hne)⟩
  · intro i hi
    cases hid : r.1 with
    | none => rw [(h.silent hid).1]
    | some id =>
      rw [(h.presented id hid).2.2.1, List.mem_append, List.mem_singleton]
      refine or_iff_left fun heq => hne ?_
      rw [← hi, heq]
      rfl

theorem seenBefore_congr {mid : Id} (h : ∀ i : Injection, i.messageId = mid →
    (i ∈ b'.injections ↔ i ∈ b.injections)) :
    SeenBefore b' auth ck mid ↔ SeenBefore b auth ck mid :=
  ⟨fun ⟨i, hi, hrow⟩ => ⟨i, (h i hrow.1).mp hi, hrow⟩,
    fun ⟨i, hi, hrow⟩ => ⟨i, (h i hrow.1).mpr hi, hrow⟩⟩

/-- What a whole pull does to a delivery; `seen` is how its state before saw the messages. -/
structure Settles (rows : List Message) (seen : Id → Prop) [DecidablePred seen]
    (d d' : Delivery) : Prop where
  messageId : d'.messageId = d.messageId
  recipient : d'.recipientSessionId = d.recipientSessionId
  other : (∀ m ∈ rows, m.messageId ≠ d.messageId) → d' = d
  state : ∀ m ∈ rows, m.messageId = d.messageId → d.state.waiting = true →
    d'.state = landed m (seen m.messageId)

/-- What a pull needs to know of the messages it goes through. -/
structure Pullable (b : Broker) (rows : List Message) : Prop where
  nodup : (rows.map (·.messageId)).Nodup
  found : ∀ m ∈ rows, b.message? m.messageId = some m
  waits : ∀ m ∈ rows, Awaits b m.messageId

/-- The rest of the loop starts out as the whole did. -/
theorem Pullable.rest {m : Message} {rows : List Message} (h : Pullable b (m :: rows))
    {r : Option Id × Broker} (hspec : InjectSpec env now auth ck m b r) :
    Pullable r.2 rows ∧ ∀ m' ∈ rows, m'.messageId ≠ m.messageId := by
  have hnd := List.nodup_cons.mp (List.map_cons ▸ h.nodup)
  have hne : ∀ m' ∈ rows, m'.messageId ≠ m.messageId := fun m' hm' heq =>
    hnd.1 (heq ▸ List.mem_map_of_mem hm')
  refine ⟨⟨hnd.2, fun m' hm' => ?_, fun m' hm' => ?_⟩, hne⟩
  · rw [Broker.message?, hspec.rest.messages]
    exact h.found m' (List.mem_cons_of_mem _ hm')
  · exact (hspec.apart (hne m' hm')).1 (h.waits m' (List.mem_cons_of_mem _ hm'))

/-- The first round and the rest of the rounds, on one delivery. -/
theorem Settles.cons {m : Message} {rows : List Message} {seen seen' : Id → Prop}
    [DecidablePred seen] [DecidablePred seen'] {d d₁ d₂ : Delivery}
    (hne : ∀ m' ∈ rows, m'.messageId ≠ m.messageId)
    (hseen : ∀ m' ∈ rows, seen' m'.messageId ↔ seen m'.messageId)
    (h₁ : Lands m (seen m.messageId) d d₁) (h₂ : Settles rows seen' d₁ d₂) :
    Settles (m :: rows) seen d d₂ := by
  refine ⟨h₂.messageId.trans h₁.messageId, h₂.recipient.trans h₁.recipient, fun hall => ?_,
    fun m' hm' heq hwait => ?_⟩
  · obtain ⟨hm, hrows⟩ := List.forall_mem_cons.mp hall
    have hd₁ : d₁ = d := h₁.other hm.symm
    exact (h₂.other (hd₁ ▸ hrows)).trans hd₁
  · rcases List.mem_cons.mp hm' with rfl | hm'
    · have hlast : d₂ = d₁ := h₂.other fun m'' hm'' => by
        rw [h₁.messageId, ← heq]
        exact hne m'' hm''
      rw [hlast]
      exact h₁.state heq.symm hwait
    · have hd₁ : d₁ = d := h₁.other (heq ▸ hne m' hm')
      rw [h₂.state m' hm' (by rw [hd₁, heq]) (by rw [hd₁, hwait])]
      congr 1
      exact decide_eq_decide.mpr (hseen m' hm')

/-- **A pull, exactly**: the bodies that come back, and where the deliveries end up. -/
theorem injectAll_settles (rows : List Message) (b : Broker) (h : Pullable b rows) :
    (injectAll env now auth ck audited rows b).1.map (·.blur) =
        (rows.filter fun m => ¬ SeenBefore b auth ck m.messageId).map freshBody ∧
      ∃ g, (injectAll env now auth ck audited rows b).2.deliveries = b.deliveries.map g ∧
        ∀ d ∈ b.deliveries, Settles rows (SeenBefore b auth ck) d (g d) := by
  induction rows generalizing b with
  | nil =>
    exact ⟨rfl, id, by simp [injectAll], fun d _ => ⟨rfl, rfl, fun _ => rfl, by simp⟩⟩
  | cons m rows ih =>
    have hspec := injectOne_spec env now auth ck audited m b
    obtain ⟨hone, g₁, hg₁, hlands⟩ := injectOne_lands env now auth ck audited
      (h.found m List.mem_cons_self) (h.waits m List.mem_cons_self)
    obtain ⟨hrest, hne⟩ := h.rest hspec
    -- Injecting `m` changes nothing about the rows behind it.
    have hseen (m' : Message) (hm' : m' ∈ rows) :
        SeenBefore (injectOne env now auth ck audited m b).2 auth ck m'.messageId ↔
          SeenBefore b auth ck m'.messageId := seenBefore_congr (hspec.apart (hne m' hm')).2
    obtain ⟨hbodies, g₂, hg₂, hsettles⟩ := ih _ hrest
    have hfilter : (rows.filter fun m' =>
        ¬ SeenBefore (injectOne env now auth ck audited m b).2 auth ck m'.messageId) =
        rows.filter fun m' => ¬ SeenBefore b auth ck m'.messageId :=
      List.filter_congr fun m' hm' => decide_eq_decide.mpr (not_congr (hseen m' hm'))
    have hdel : (injectAll env now auth ck audited (m :: rows) b).2 =
        (injectAll env now auth ck audited rows
          (injectOne env now auth ck audited m b).2).2 := by
      simp only [injectAll]
      split <;> rfl
    refine ⟨?_, g₂ ∘ g₁, ?_, fun d hd => ?_⟩
    · by_cases hs : SeenBefore b auth ck m.messageId
      · have hnone : (injectOne env now auth ck audited m b).1 = none := by simpa [hs] using hone
        simp only [injectAll, hnone, hbodies, hfilter]
        simp [hs]
      · obtain ⟨id, hid⟩ := Option.isSome_iff_exists.mp (by simpa [hs] using hone)
        simp only [injectAll, hid, List.map_cons, hbodies, hfilter]
        simp only [List.filter_cons, hs, not_false_eq_true, decide_true, if_true, List.map_cons]
        rfl
    · rw [hdel, hg₂, hg₁, List.map_map]
    · exact .cons hne hseen (hlands d hd) (hsettles (g₁ d) (hg₁ ▸ List.mem_map_of_mem hd))

/-- A loop writes no message, and the rows it records are of the messages it answers with. -/
theorem injectAll_rows (rows : List Message) (b : Broker) :
    (injectAll env now auth ck audited rows b).2.messages = b.messages ∧
    ∃ is, (injectAll env now auth ck audited rows b).2.injections = b.injections ++ is ∧
      ∀ i ∈ is, i.messageId ∈
        (injectAll env now auth ck audited rows b).1.map (·.messageId) := by
  induction rows generalizing b with
  | nil => exact ⟨rfl, [], by simp [injectAll], by simp⟩
  | cons m rows ih =>
    have hspec := injectOne_spec env now auth ck audited m b
    obtain ⟨hmsgs, is, his, hids⟩ := ih (injectOne env now auth ck audited m b).2
    cases hid : (injectOne env now auth ck audited m b).1 with
    | none =>
      simp only [injectAll, hid]
      refine ⟨hmsgs.trans hspec.rest.messages, is, ?_, hids⟩
      rw [his, (hspec.silent hid).1]
    | some id =>
      simp only [injectAll, hid, List.map_cons]
      refine ⟨hmsgs.trans hspec.rest.messages, pulledRow env now auth ck m.messageId id :: is, ?_,
        fun i hi => ?_⟩
      · rw [his, (hspec.presented id hid).2.2.1, List.append_assoc]
        rfl
      · rcases List.mem_cons.mp hi with rfl | hi
        · exact List.mem_cons_self
        · exact List.mem_cons_of_mem _ (hids i hi)

/-! ## The pulls -/

/-- What is pending can be pulled. -/
theorem MailInv.pullable (inv : MailInv b) {sid : SessionId} {limit : Nat} :
    Pullable b (b.pendingForSessionId sid limit now) := by
  refine ⟨inv.pending_nodup, fun m hm => ?_, fun m hm => waiting_of_mem_pending hm⟩
  have hm := List.mem_of_mem_take hm
  rw [Broker.eligible, List.mem_insertionSort] at hm
  obtain ⟨d, -, hfound⟩ := List.mem_filterMap.mp (List.mem_of_mem_filter hm)
  have hid : m.messageId = d.messageId := by simpa using List.find?_some hfound
  rw [hid]
  exact hfound

/-- A pull through `rows` did exactly what they were due. -/
structure Foretold (b : Broker) (rows : List Message) (seen : Id → Prop) [DecidablePred seen]
    (ms : List PendingMessage) (b' : Broker) : Prop where
  bodies : ms.map (·.blur) = (rows.filter fun m => ¬ seen m.messageId).map freshBody
  messages : b'.messages = b.messages
  deliveries : ∃ g, b'.deliveries = b.deliveries.map g ∧
    ∀ d ∈ b.deliveries, Settles rows seen d (g d)
  injections : ∃ is, b'.injections = b.injections ++ is ∧
    ∀ i ∈ is, i.messageId ∈ ms.map (·.messageId)

/-- Nothing was due. -/
theorem Foretold.nothing {seen : Id → Prop} [DecidablePred seen] (h : Bookkeeping b b') :
    Foretold b [] seen [] b' :=
  ⟨rfl, h.messages, ⟨id, by simp [h.deliveries], fun d _ => ⟨rfl, rfl, fun _ => rfl, by simp⟩⟩,
    [], by simp [h.injections], by simp⟩

theorem pullForced_foretold {limit : Nat} {ms : List PendingMessage} (inv : MailInv b)
    (h : pullForced env now auth ck limit audited b = (.ok ms, b')) :
    Foretold b (b.pendingForSessionId auth.sessionId (min (max 1 limit) 50) now)
      (SeenBefore b auth ck) ms b' := by
  simp only [pullForced, Call.transaction_ok, Call.act_ok] at h
  obtain ⟨rfl, rfl⟩ := Prod.mk.inj h
  obtain ⟨hbodies, hdel⟩ := injectAll_settles _ b (inv.pullable (b := b))
  obtain ⟨hmsgs, hrows⟩ := injectAll_rows _ b
  refine ⟨hbodies, ?_, ?_, ?_⟩
  · split
    · exact hmsgs
    · exact hmsgs
  · split
    · exact hdel
    · exact hdel
  · split
    · exact hrows
    · exact hrows

theorem checkpointPull_foretold {limit : Nat} {ms : List PendingMessage} (inv : MailInv b)
    (h : checkpointPull env now auth ck limit b = (.ok ms, b')) :
    Foretold b (if acceptsInjection (b.readinessOf auth.sessionId) &&
        b.autoDeliveryEnabled auth.sessionId then
          b.pendingForSessionId auth.sessionId (min (max 1 limit) 50) now else [])
      (SeenBefore b auth ck) ms b' := by
  simp only [checkpointPull, assertAllowed, Call.bind_ok, Call.require_ok, assertCurrentEpoch_ok,
    Call.get_bind] at h
  obtain ⟨_, _, ⟨-, rfl⟩, _, _, ⟨-, rfl⟩, h⟩ := h
  split at h
  · rename_i hready
    split at h
    · rename_i hauto
      rw [if_pos (by simp [hready, hauto])]
      exact pullForced_foretold inv h
    · rename_i hauto
      obtain ⟨rfl, rfl⟩ := Call.pure_ok.mp h
      rw [if_neg (by simp [hauto])]
      exact .nothing .rfl'
  · rename_i hready
    simp only [Call.modify_bind, Call.pure_ok] at h
    obtain ⟨rfl, rfl⟩ := h
    rw [if_neg (by simp [hready])]
    exact .nothing .audit

theorem processNext_foretold {ms : List PendingMessage} (inv : MailInv b)
    (h : processNext env now auth ck b = (.ok ms, b')) :
    Foretold b (if acceptsInjection (b.readinessOf auth.sessionId) then
          b.pendingForSessionId auth.sessionId 1 now else [])
      (SeenBefore b auth ck) ms b' := by
  simp only [processNext, assertAllowed, Call.bind_ok, Call.require_ok, assertCurrentEpoch_ok,
    Call.get_bind] at h
  obtain ⟨_, _, ⟨-, rfl⟩, _, _, ⟨-, rfl⟩, h⟩ := h
  split at h
  · rename_i hready
    rw [if_pos hready]
    exact pullForced_foretold inv h
  · rename_i hready
    simp only [Call.modify_bind, Call.pure_ok] at h
    obtain ⟨rfl, rfl⟩ := h
    rw [if_neg hready]
    exact .nothing .audit

/-! ## Marking -/

theorem shown_iff {epoch : Nat} {given : Option String} {mid : Id} :
    b.shown epoch given mid = true ↔ ∃ i ∈ b.injections, i.messageId = mid ∧
      ((i.recipientEpoch = epoch ∧ i.logicalInjectionNumber = 1) ∨
        ∃ text, given = some text ∧ i.checkpointId = .given text) := by
  cases given with
  | none => simp [Broker.shown]
  | some text => simp [Broker.shown]

theorem seenBefore_given {text : String} {mid : Id} :
    SeenBefore b auth (.given text) mid ↔ b.shown auth.epoch (some text) mid = true := by
  rw [shown_iff]
  simp [SeenBefore]

/-- No row has a checkpoint id that is minted only now. -/
theorem seenBefore_minted (inv : MailInv b) {p : String} {mid : Id} :
    SeenBefore b auth (.minted p b.nextId) mid ↔ b.shown auth.epoch none mid = true := by
  rw [shown_iff]
  constructor
  · rintro ⟨i, hi, hid, hrow | hck⟩
    · exact ⟨i, hi, hid, .inl hrow⟩
    · exact absurd (inv.minted i hi p b.nextId hck) (Nat.lt_irrefl _)
  · rintro ⟨i, hi, hid, hrow | ⟨text, hnone, -⟩⟩
    · exact ⟨i, hi, hid, .inl hrow⟩
    · cases hnone

theorem markInjectedFor_settles (env : Env) (now : Iso) (rows : List Message) (b : Broker)
    (inv : MailInv b)
    (h : Pullable b rows) (haddr : ∀ m ∈ rows, Addressed b auth.sessionId m.messageId) :
    (markInjectedFor env now auth (rows.map (·.messageId)) b).1 =
        (rows.filter fun m => ¬ b.shown auth.epoch none m.messageId = true).map (·.messageId) ∧
      ∃ g, (markInjectedFor env now auth (rows.map (·.messageId)) b).2.deliveries =
          b.deliveries.map g ∧
        ∀ d ∈ b.deliveries,
          Settles rows (fun mid => b.shown auth.epoch none mid = true) d (g d) := by
  induction rows generalizing b with
  | nil =>
    exact ⟨rfl, id, by simp [markInjectedFor], fun d _ => ⟨rfl, rfl, fun _ => rfl, by simp⟩⟩
  | cons m rows ih =>
    have hnote : Move env .note b b.mint := .note .mint
    have hinv : MailInv b.mint := hnote.mailInv inv
    have hck := mintedBefore_mint b "mark-"
    have hfound : b.message? m.messageId = some m := h.found m List.mem_cons_self
    have hpull : Pullable b.mint (m :: rows) := ⟨h.nodup, h.found, h.waits⟩
    have hspec := injectOne_spec env now auth (.minted "mark-" b.nextId) true m b.mint
    obtain ⟨hone, g₁, hg₁, hlands⟩ := injectOne_lands env now auth (.minted "mark-" b.nextId) true
      (hpull.found m List.mem_cons_self) (hpull.waits m List.mem_cons_self)
    have hfirst : SeenBefore b.mint auth (.minted "mark-" b.nextId) m.messageId ↔
        b.shown auth.epoch none m.messageId = true := seenBefore_minted inv
    obtain ⟨hrest, hne⟩ := hpull.rest hspec
    set b₁ := (injectOne env now auth (.minted "mark-" b.nextId) true m b.mint).2
    have hinv₁ : MailInv b₁ := (MailFrame.inject hspec (haddr m List.mem_cons_self) hck).keeps hinv
    -- Injecting `m` changes nothing about the rows behind it.
    have hseen (m' : Message) (hm' : m' ∈ rows) :
        b₁.shown auth.epoch none m'.messageId = true ↔
          b.shown auth.epoch none m'.messageId = true := by
      have hsame := (hspec.apart (hne m' hm')).2
      rw [shown_iff, shown_iff]
      constructor
      · rintro ⟨i, hi, hrow⟩
        exact ⟨i, (hsame i hrow.1).mp hi, hrow⟩
      · rintro ⟨i, hi, hrow⟩
        exact ⟨i, (hsame i hrow.1).mpr hi, hrow⟩
    obtain ⟨hmarked, g₂, hg₂, hsettles⟩ := ih b₁ hinv₁ hrest fun m' hm' =>
      hspec.addressed.mpr (haddr m' (List.mem_cons_of_mem _ hm'))
    have hfilter : (rows.filter fun m' => ¬ b₁.shown auth.epoch none m'.messageId = true) =
        rows.filter fun m' => ¬ b.shown auth.epoch none m'.messageId = true :=
      List.filter_congr fun m' hm' => decide_eq_decide.mpr (not_congr (hseen m' hm'))
    have hdel : (markInjectedFor env now auth ((m :: rows).map (·.messageId)) b).2 =
        (markInjectedFor env now auth (rows.map (·.messageId)) b₁).2 := by
      simp only [List.map_cons, markInjectedFor, hfound]
      split <;> rfl
    -- `m` is marked unless it was shown before; the rest is the induction hypothesis.
    refine ⟨?_, g₂ ∘ g₁, ?_, fun d hd => ?_⟩
    · simp only [List.map_cons, markInjectedFor, hfound]
      by_cases hs : b.shown auth.epoch none m.messageId = true
      · have hnone :
          (injectOne env now auth (.minted "mark-" b.nextId) true m b.mint).1 = none := by
          simpa [hfirst.mpr hs] using hone
        rw [hnone]
        dsimp only
        rw [hmarked, hfilter]
        simp [hs]
      · obtain ⟨id, hid⟩ := Option.isSome_iff_exists.mp
          (by simpa [mt hfirst.mp hs] using hone)
        rw [hid]
        dsimp only
        rw [hmarked, hfilter]
        simp [hs]
    · rw [hdel, hg₂, hg₁, List.map_map]
      rfl
    · refine .cons hne hseen ?_ (hsettles (g₁ d) (hg₁ ▸ List.mem_map_of_mem hd))
      have hland := hlands d hd
      rwa [decide_eq_decide.mpr hfirst] at hland

/-- Marking writes no message, and the rows it records are of the messages it names. -/
theorem markInjectedFor_rows (env : Env) (now : Iso) (auth : SessionAuthority) (mids : List Id)
    (b : Broker) :
    (markInjectedFor env now auth mids b).2.messages = b.messages ∧
    ∃ is, (markInjectedFor env now auth mids b).2.injections = b.injections ++ is ∧
      ∀ i ∈ is, i.messageId ∈ (markInjectedFor env now auth mids b).1 := by
  induction mids generalizing b with
  | nil => exact ⟨rfl, [], by simp [markInjectedFor], by simp⟩
  | cons mid mids ih =>
    cases hmsg : b.message? mid with
    | none =>
      simp only [markInjectedFor, hmsg]
      exact ih b
    | some m =>
      have hid : m.messageId = mid := by simpa using List.find?_some hmsg
      have hspec := injectOne_spec env now auth (.minted "mark-" b.nextId) true m b.mint
      obtain ⟨hmsgs, is, his, hids⟩ :=
        ih (injectOne env now auth (.minted "mark-" b.nextId) true m b.mint).2
      cases hone : (injectOne env now auth (.minted "mark-" b.nextId) true m b.mint).1 with
      | none =>
        simp only [markInjectedFor, hmsg, hone]
        refine ⟨hmsgs.trans hspec.rest.messages, is, ?_, hids⟩
        rw [his, (hspec.silent hone).1]
        rfl
      | some id =>
        simp only [markInjectedFor, hmsg, hone]
        refine ⟨hmsgs.trans hspec.rest.messages,
          pulledRow env now auth (.minted "mark-" b.nextId) m.messageId id :: is, ?_, fun i hi =>
            ?_⟩
        · rw [his, (hspec.presented id hone).2.2.1, List.append_assoc]
          rfl
        · rcases List.mem_cons.mp hi with rfl | hi
          · rw [← hid]
            exact List.mem_cons_self
          · exact List.mem_cons_of_mem _ (hids i hi)

/-- A message with a row at an epoch has an injection id there. -/
theorem injectionIdFor_isSome {i : Injection} (hi : i ∈ b.injections) :
    ∃ id, b.injectionIdFor i.messageId i.recipientEpoch = some id := by
  set rows := (b.injections.filter fun x => x.messageId = i.messageId ∧
    x.recipientEpoch = i.recipientEpoch).insertionSort
      fun x y => y.logicalInjectionNumber ≤ x.logicalInjectionNumber with hrows
  have hmem : i ∈ rows := by
    rw [hrows, List.mem_insertionSort]
    exact List.mem_filter.mpr ⟨hi, by simp⟩
  cases hhead : rows with
  | nil => simp [hhead] at hmem
  | cons x xs => exact ⟨x.injectionId, by rw [Broker.injectionIdFor, ← hrows, hhead]; rfl⟩

/-- The marked messages come back with whatever ids they got. -/
theorem blur_injected (xs : List Message) (epoch : Nat)
    (h : ∀ m ∈ xs, ∃ id, b.injectionIdFor m.messageId epoch = some id) :
    (xs.filterMap fun m => (b.injectionIdFor m.messageId epoch).map
      (rowToPending m).withInjection).map (·.blur) = xs.map freshBody := by
  induction xs with
  | nil => rfl
  | cons m xs ih =>
    obtain ⟨⟨id, hid⟩, hrest⟩ := List.forall_mem_cons.mp h
    rw [List.filterMap_cons, hid, Option.map_some, List.map_cons, List.map_cons, ih hrest]
    rfl

theorem daemonCheckpointPull_foretold {limit : Nat} {ms : List PendingMessage} (inv : MailInv b)
    (h : daemonCheckpointPull env now auth limit b = (.ok ms, b')) :
    Foretold b (b.pendingForSessionId auth.sessionId limit now)
      (fun mid => b.shown auth.epoch none mid = true) ms b' := by
  simp only [daemonCheckpointPull, pendingForSession, markInjected, Call.bind_ok,
    assertCurrentEpoch_ok, Call.get_bind, Call.pure_ok, Call.transaction_ok, Call.act_ok,
    Call.modify_bind] at h
  obtain ⟨_, _, ⟨_, _, ⟨_, rfl⟩, rfl, rfl⟩, marked, b₁, ⟨_, _, ⟨_, rfl⟩, hmark⟩, rfl, rfl⟩ := h
  set pending := b.pendingForSessionId auth.sessionId limit now
  set b₂ := if marked.isEmpty then b₁ else b₁.refreshMeaningfulActivity auth.sessionId now with hb₂
  have hsame : b₂.messages = b₁.messages ∧ b₂.deliveries = b₁.deliveries ∧
      b₂.injections = b₁.injections := by
    rw [hb₂]
    split
    · exact ⟨rfl, rfl, rfl⟩
    · exact ⟨rfl, rfl, rfl⟩
  obtain ⟨hmarked, hdel⟩ := markInjectedFor_settles env now pending b inv inv.pullable
    fun m hm => addressed_of_mem_pending hm
  obtain ⟨hmsgs, is, his, hids⟩ := markInjectedFor_rows env now auth (pending.map (·.messageId)) b
  have hpres : Presents auth.sessionId auth.epoch b
      (markInjectedFor env now auth (pending.map (·.messageId)) b).2
      (markInjectedFor env now auth (pending.map (·.messageId)) b).1 :=
    markInjectedFor_presents (pending.map (·.messageId)) b
  rw [hmark] at hmarked hdel hmsgs his hids hpres
  have hfilter : (pending.filter fun m => marked.contains m.messageId) =
      pending.filter fun m => ¬ b.shown auth.epoch none m.messageId = true := by
    refine List.filter_congr fun m hm => ?_
    have hiff : m.messageId ∈ marked ↔ ¬ b.shown auth.epoch none m.messageId = true := by
      rw [show marked = _ from hmarked, List.mem_map]
      constructor
      · rintro ⟨m', hm', heq⟩
        obtain ⟨hmem, hunseen⟩ := List.mem_filter.mp hm'
        rw [← heq]
        exact of_decide_eq_true hunseen
      · intro hunseen
        exact ⟨m, List.mem_filter.mpr ⟨hm, decide_eq_true hunseen⟩, rfl⟩
    rw [List.contains_eq_mem]
    exact decide_eq_decide.mpr hiff
  have hidsome (m : Message) (hm : m ∈ pending.filter fun m => marked.contains m.messageId) :
      ∃ id, b₂.injectionIdFor m.messageId auth.epoch = some id := by
    have hin : m.messageId ∈ marked := by simpa using (List.mem_filter.mp hm).2
    obtain ⟨i, hi, hfirst⟩ := hpres.first m.messageId hin
    rw [← hfirst.messageId, ← hfirst.atEpoch]
    exact injectionIdFor_isSome (hsame.2.2 ▸ hi)
  have hbodies : (b₂.markedBodies auth marked pending).map (·.blur) =
      (pending.filter fun m => ¬ b.shown auth.epoch none m.messageId = true).map freshBody := by
    rw [← hfilter]
    exact blur_injected _ _ hidsome
  refine ⟨hbodies, hsame.1.trans hmsgs, ?_, is, hsame.2.2.trans his, fun i hi => ?_⟩
  · rw [hsame.2.1]
    exact hdel
  · -- The bodies that come back are those of all the messages marked.
    have hback : (b₂.markedBodies auth marked pending).map (·.messageId) = marked := by
      have hkeys := congrArg (List.map (·.messageId)) hbodies
      rw [List.map_map, List.map_map] at hkeys
      exact hkeys.trans hmarked.symm
    rw [hback]
    exact hids i hi

end Proof
end XBus
