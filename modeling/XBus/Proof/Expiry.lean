import XBus.Proof.Machine
import XBus.Proof.AtMostOnce

/-!
# Expiry is final

A session without activity for fifteen days expires: its row becomes a tombstone, what was
waiting for it is dead-lettered, and what it had accepted and owed a reply to is expired. It
may come back, by registering or by a rename, as a fresh lifecycle. What was addressed to the
dead one is meant to stay where the sweep put it.

`Resting B b` is the invariant: every delivery to an expired session is at rest, and so is
every delivery of a message in `B`, the messages that were ever addressed to an expired
session. Whatever only takes deliveries down the machine keeps it; a posting keeps it because
the senders look at the tombstone. An operator's replay of accepted work does not look, and
neither does an explicit redelivery: a session revived by a rename keeps its epoch, and with it
the right to ask for what was presented to it before it died.

The scheduler writes mail through `operatorSend` only, so its ticks are among these runs.
-/

set_option autoImplicit false

namespace XBus
namespace Proof

open Lib

variable {env : Env} {mom : Moment} {now : Iso} {auth : SessionAuthority} {k : Kind}
  {b b' : Broker} {B : List Id} {sid : SessionId}

/-- Terminal, or accepted with no reply owed. -/
def AtRest (b : Broker) (d : Delivery) : Prop :=
  d.state.isTerminal = true ∨ (d.state = .accepted ∧ b.requiresReply d.messageId = false)

theorem AtRest.settled {d : Delivery} (h : AtRest b d) : unsettled d.state = false := by
  rcases h with h | ⟨h, -⟩ <;> simp [unsettled, h]

/-! ## What stays expired -/

/-- Nothing has expired that was not expired before. -/
def Waking (b b' : Broker) : Prop := ∀ sid, b'.isExpired sid = true → b.isExpired sid = true

instance : IsFrame Waking where
  refl _ := fun _ h => h
  trans h h' := fun sid hs => h sid (h' sid hs)

theorem isExpired_eq
    (h : (b'.session? sid).bind (·.expiredAt) = (b.session? sid).bind (·.expiredAt)) :
    b'.isExpired sid = b.isExpired sid := by
  rw [Broker.isExpired, h, Broker.isExpired]

theorem isExpired_core (h : b'.sessions.map core = b.sessions.map core) (sid : SessionId) :
    b'.isExpired sid = b.isExpired sid := by
  have hcore := congrArg (fun o => o.bind (·.expiredAt)) (session?_core h sid)
  simp only [Option.bind_map] at hcore
  exact isExpired_eq hcore

namespace Waking

theorem of_eq (h : b'.sessions = b.sessions) : Waking b b' := by
  intro sid hs
  rwa [Broker.isExpired, Broker.session?, h] at hs

theorem of_core (h : b'.sessions.map core = b.sessions.map core) : Waking b b' :=
  fun sid hs => (isExpired_core h sid).symm.trans hs

/-- A write to sessions that sets no tombstone. -/
theorem update {p : Session → Bool} {f : Session → Session}
    (h : b'.sessions = updateWhere p f b.sessions) (hid : ∀ s, (f s).sessionId = s.sessionId)
    (hf : ∀ s, (f s).expiredAt = s.expiredAt ∨ (f s).expiredAt = none) : Waking b b' := by
  intro sid hs
  rw [Broker.isExpired, Broker.session?, h, find?_updateWhere fun s => by rw [hid]] at hs
  rw [Broker.isExpired, Broker.session?]
  cases hfind : b.sessions.find? fun s => s.sessionId = sid with
  | none => simp [hfind] at hs
  | some s =>
    simp only [hfind, Option.map_some, Option.bind_some] at hs ⊢
    split at hs
    · rcases hf s with h | h
      · rwa [h] at hs
      · rw [h] at hs
        cases hs
    · exact hs

/-- A new row is not expired. -/
theorem append {s : Session} (h : b'.sessions = b.sessions ++ [s]) (hs : s.expiredAt = none) :
    Waking b b' := by
  intro sid hexp
  rw [Broker.isExpired, Broker.session?, h, List.find?_append] at hexp
  rw [Broker.isExpired, Broker.session?]
  cases hfind : b.sessions.find? fun s => s.sessionId = sid with
  | some x => simpa [hfind] using hexp
  | none =>
    rw [hfind, Option.none_or, List.find?_singleton] at hexp
    split at hexp
    · simp [hs] at hexp
    · cases hexp

theorem setSessionName {norm : SessionName} : Waking b (b.setSessionName sid norm) :=
  update rfl (fun _ => rfl) fun _ => .inl rfl

theorem markPending : Waking b (b.markPending sid now) :=
  update rfl (fun _ => rfl) fun _ => .inl rfl

theorem claim {requested : Option String} :
    Waking b (claimNameForRegister env mom sid requested b).2 := by
  unfold claimNameForRegister
  split
  · exact IsFrame.refl b
  · split
    · exact markPending
    · split
      · exact markPending
      · exact IsFrame.trans setSessionName (of_eq rfl)

theorem rename {norm : SessionName} {wasExpired : Bool} :
    Waking b (b.rename env mom sid norm wasExpired).2 := by
  unfold Broker.rename
  extract_lets b₁ b₂ b₃
  have hrevive : Waking (b.setSessionName sid norm) b₁ :=
    update rfl (fun _ => rfl) fun _ => .inr rfl
  have halias : Waking b₁ b₂ := by
    show Waking b₁ (if wasExpired then _ else _)
    split
    · exact of_core Bookkeeping.upsertAutomaticAliasSafe.sessions
    · exact IsFrame.refl b₁
  have hrefresh : Waking b₂ b₃ := of_core Bookkeeping.refresh.sessions
  exact IsFrame.trans setSessionName (IsFrame.trans hrevive (IsFrame.trans halias
    (IsFrame.trans hrefresh (of_eq rfl))))

theorem forfeit {normalized : String} {lid : SessionId} {csid : Option SessionId} :
    Waking b (b.forfeit normalized lid csid) :=
  update rfl (fun _ => rfl) fun _ => .inl rfl

theorem lapse : Waking b (reapStalePendingNames now b) := by
  unfold reapStalePendingNames
  split
  · exact update rfl (fun _ => rfl) fun _ => .inl rfl
  · exact IsFrame.refl b

theorem remove : Waking b (b.deleteSession sid now) := by
  intro sid' hs
  by_cases h : sid' = sid
  · have hgone : (b.deleteSession sid now).session? sid' = none := by
      show (b.sessions.filter fun s => s.sessionId ≠ sid).find? (fun s => s.sessionId = sid') = none
      rw [find?_deleted, if_pos h]
    rw [Broker.isExpired, hgone] at hs
    cases hs
  · rwa [Broker.isExpired, deleteSession_session? h] at hs

theorem operator : Waking b (b.ensureOperatorSession env) := by
  unfold Broker.ensureOperatorSession
  split
  · exact append rfl rfl
  · exact update rfl (fun _ => rfl) fun _ => .inr rfl

end Waking

/-- Only the sweep sets a tombstone. -/
theorem Move.waking (h : Move env k b b') (hk : k ≠ .tombstone) : Waking b b' := by
  cases h with
  | note h => exact .of_core h.sessions
  | restate | redrive | consume | component | redirect => exact .of_eq rfl
  | inject now auth ck audited m =>
    exact .of_core (injectOne_spec env now auth ck audited m b).rest.sessions
  | reissue => exact .of_core (MailOnly.issue (b := b.mint)).sessions
  | post m h => exact .of_core h.sessions
  | answer m h => exact .of_core h.sessions
  | create input =>
    obtain ⟨as, es, n, hb', -⟩ := createSession_eq b env input
    rw [hb']
    exact .append rfl rfl
  | dormant => exact .append rfl rfl
  | @advance _ now sid resume s =>
    obtain ⟨is, as, es, n, hb', -⟩ := advanceEpoch_eq b env now sid (s.activeEpoch + 1) resume
    rw [hb']
    exact .update rfl (fun _ => rfl) fun _ => .inr rfl
  | join now input =>
    rw [joinEpoch_eq]
    exact .update rfl (fun _ => rfl) fun _ => .inl rfl
  | claim => exact .claim
  | rename => exact .rename
  | operatorRename => exact IsFrame.trans Waking.setSessionName (.of_eq rfl)
  | reclaim => exact IsFrame.trans Waking.forfeit .rename
  | tombstone => exact absurd rfl hk
  | lapse => exact .lapse
  | close => exact .update rfl (fun _ => rfl) fun _ => .inl rfl
  | remove => exact .remove
  | operator => exact .operator

theorem Moves.waking {kinds : List Kind} (h : Moves env kinds b b')
    (hk : .tombstone ∉ kinds) : Waking b b' :=
  h.frame fun _ _ _ hmem hmove => hmove.waking fun heq => hk (heq ▸ hmem)

/-! ## Going down the machine -/

/-- Messages are only added. -/
structure Grows (b b' : Broker) : Prop where
  ids : b.nextId ≤ b'.nextId
  messages : b.messages <+: b'.messages

instance : IsFrame Grows where
  refl _ := ⟨Nat.le_refl _, List.prefix_rfl⟩
  trans h h' := ⟨h.ids.trans h'.ids, h.messages.trans h'.messages⟩

theorem Posted.grows {m : Message} (h : Posted b b' m) : Grows b b' :=
  ⟨h.fresh.trans (Nat.le_of_lt h.ids), h.messages ▸ List.prefix_append _ _⟩

theorem Move.grows (h : Move env k b b') (inv : MailInv b) : Grows b b' := by
  rcases h.mail inv with ⟨m, hposted, -⟩ | hframe
  · exact hposted.grows
  · exact ⟨hframe.ids, hframe.messages ▸ List.prefix_rfl⟩

theorem Moves.grows {kinds : List Kind} (h : Moves env kinds b b') (inv : MailInv b) :
    Grows b b' :=
  (h.keeps (P := fun u => MailInv u ∧ Grows b u) ⟨inv, IsFrame.refl b⟩ fun _ _ _ _ hmove hu =>
    ⟨hmove.mailInv hu.1, IsFrame.trans hu.2 (hmove.grows hu.1)⟩).2

/-- A message that is there is found again. -/
theorem Grows.requiresReply (h : Grows b b') (inv : MailInv b) {d : Delivery}
    (hd : d ∈ b.deliveries) : b'.requiresReply d.messageId = b.requiresReply d.messageId := by
  have hmem : Delivery.pair d ∈ b.messages.map Message.pair := by
    rw [← inv.pairs]
    exact List.mem_map_of_mem hd
  obtain ⟨m, hm, hpair⟩ := List.mem_map.mp hmem
  have hid : m.messageId = d.messageId := congrArg Prod.fst hpair
  have hfound : b.message? d.messageId = some m := hid ▸ find?_key_of_mem inv.unique hm
  have hfound' : b'.message? d.messageId = some m := by
    obtain ⟨more, hmore⟩ := h.messages
    rw [Broker.message?, ← hmore, List.find?_append]
    rw [Broker.message?] at hfound
    rw [hfound]
    rfl
  rw [Broker.requiresReply, hfound', Broker.requiresReply, hfound]

/-- Messages are only added, and deliveries only go down the machine. -/
structure Winds (b b' : Broker) : Prop where
  grows : Grows b b'
  backed : ∀ A, Down A → Backed A b b'

instance : IsFrame Winds where
  refl b := ⟨IsFrame.refl b, fun _ _ => IsFrame.refl b⟩
  trans h h' := ⟨IsFrame.trans h.grows h'.grows, fun A hA =>
    IsFrame.trans (h.backed A hA) (h'.backed A hA)⟩

/-- A delivery that has only gone down is at rest where it was at rest. -/
theorem Winds.atRest (h : Winds b b') (inv : MailInv b) {d' : Delivery}
    (hd' : d' ∈ b'.deliveries)
    (hrest : ∀ d ∈ b.deliveries, Delivery.pair d = Delivery.pair d' → AtRest b d) :
    AtRest b' d' := by
  by_cases hu : unsettled d'.state = true
  · obtain ⟨d, hd, hpair, hbefore⟩ := h.backed _ unsettled_down d' hd' hu
    rw [(hrest d hd hpair).settled] at hbefore
    cases hbefore
  · by_cases ho : outstanding d'.state = true
    · obtain ⟨d, hd, hpair, hbefore⟩ := h.backed _ outstanding_down d' hd' ho
      have hlive : d.state.isTerminal = false := by simpa [outstanding] using hbefore
      have hlive' : d'.state.isTerminal = false := by simpa [outstanding] using ho
      have haccepted : d'.state = .accepted := by simpa [unsettled, hlive'] using hu
      have hid : d.messageId = d'.messageId := congrArg Prod.fst hpair
      rcases hrest d hd hpair with ht | ⟨-, hrr⟩
      · rw [ht] at hlive
        cases hlive
      · exact .inr ⟨haccepted, by rw [← hid, h.grows.requiresReply inv hd, hrr]⟩
    · exact .inl (by simpa [outstanding] using ho)

/-- The kinds of move that only take deliveries down. -/
def winding : Kind → Bool
  | .restate | .redrive | .post | .answer => false
  | _ => true

theorem Move.down {A : DeliveryState → Bool} (hA : Down A) (h : Move env k b b')
    (hk : winding k = true) : Backed A b b' := by
  by_cases hi : ∃ c, k = .inject c
  · obtain ⟨c, rfl⟩ := hi
    cases h with
    | inject => exact .inject hA
  · refine h.backed hA.hops ?_
    cases k with
    | inject c => exact absurd ⟨c, rfl⟩ hi
    | restate | redrive | post | answer => cases hk
    | _ => rfl

theorem Moves.down {A : DeliveryState → Bool} {kinds : List Kind} (hA : Down A)
    (h : Moves env kinds b b') (hk : kinds.all winding = true) : Backed A b b' :=
  h.frame fun _ _ k hmem hmove => hmove.down hA (List.all_eq_true.mp hk k hmem)

/-! ## Resting -/

/-- What is addressed to an expired session is at rest, and so are the deliveries of the
    messages `B`. -/
structure Resting (B : List Id) (b : Broker) : Prop where
  mail : MailInv b
  rests : ∀ d ∈ b.deliveries,
    d.messageId ∈ B ∨ b.isExpired d.recipientSessionId = true → AtRest b d
  below : ∀ mid ∈ B, mid < b.nextId
  grounded : ∀ d ∈ b.deliveries, d.state ≠ .dispatching

theorem AtRest.grows {d : Delivery} (h : AtRest b d) (hd : d ∈ b.deliveries) (inv : MailInv b)
    (hg : Grows b b') : AtRest b' d := by
  refine h.imp_right fun ⟨hs, hr⟩ => ⟨hs, ?_⟩
  rw [hg.requiresReply inv hd, hr]

namespace Resting

/-- Whatever only takes deliveries down, and sets no tombstone. -/
theorem moves (env : Env) {kinds : List Kind} (h : Resting B b) (hm : Moves env kinds b b')
    (hk : .tombstone ∉ kinds) (hdown : ∀ A, Down A → Backed A b b') : Resting B b' := by
  have hwinds : Winds b b' := ⟨hm.grows h.mail, hdown⟩
  refine ⟨hm.mailInv h.mail, fun d' hd' hor => ?_, fun mid hmid => ?_, fun d' hd' hdisp => ?_⟩
  · refine hwinds.atRest h.mail hd' fun d hd hpair => h.rests d hd ?_
    obtain ⟨hid, hto⟩ := Prod.mk.inj hpair
    exact hor.imp (fun hB => hid ▸ hB) fun hexp => hm.waking hk _ (hto ▸ hexp)
  · exact Nat.lt_of_lt_of_le (h.below mid hmid) hwinds.grows.ids
  · obtain ⟨d, hd, -, hbefore⟩ := hdown _ dispatching_down d' hd' (by simp [hdisp])
    exact h.grounded d hd (by simpa using hbefore)

/-- A posting to a session that is not expired. -/
theorem posted {m : Message} (h : Resting B b) (hp : Posted b b' m)
    (hlive : b.isExpired m.recipientSessionId = false) : Resting B b' := by
  have hexp (sid : SessionId) : b'.isExpired sid = b.isExpired sid := isExpired_core hp.sessions sid
  obtain ⟨id, now, hdel⟩ := hp.deliveries
  refine ⟨hp.keeps h.mail, fun d hd hor => ?_, fun mid hmid => ?_, fun d hd => ?_⟩
  · rw [hexp] at hor
    rw [hdel] at hd
    rcases List.mem_append.mp hd with hd | hd
    · exact (h.rests d hd hor).grows hd h.mail hp.grows
    · obtain rfl := List.mem_singleton.mp hd
      rcases hor with hB | hexpired
      · exact absurd (h.below _ hB) (Nat.not_lt.mpr hp.fresh)
      · rw [hlive] at hexpired
        cases hexpired
  · exact Nat.lt_of_lt_of_le (h.below mid hmid) hp.grows.ids
  · rw [hdel] at hd
    rcases List.mem_append.mp hd with hd | hd
    · exact h.grounded d hd
    · obtain rfl := List.mem_singleton.mp hd
      simp

end Resting

/-! ## The sweep -/

theorem tombstone_isExpired {sid' : SessionId} (h : sid' ≠ sid) :
    (b.tombstone sid now).isExpired sid' = b.isExpired sid' := by
  refine isExpired_eq (congrArg (fun o : Option Session => o.bind (·.expiredAt)) ?_)
  show (updateWhere _ _ b.sessions).find? _ = b.sessions.find? _
  rw [find?_updateWhere fun _ => by rfl]
  cases hs : b.sessions.find? fun s => s.sessionId = sid' with
  | none => rfl
  | some s =>
    have hid : s.sessionId = sid' := by simpa using List.find?_some hs
    simp [hid, h]

/-- The tombstone takes everything addressed to its session to rest. -/
theorem tombstone_atRest (grounded : ∀ d ∈ b.deliveries, d.state ≠ .dispatching) {d' : Delivery}
    (hd' : d' ∈ (b.tombstone sid now).deliveries) (hto : d'.recipientSessionId = sid) :
    AtRest (b.tombstone sid now) d' := by
  have hreply (mid : Id) : (b.tombstone sid now).requiresReply mid = b.requiresReply mid := rfl
  unfold AtRest
  rw [hreply]
  change d' ∈ updateWhere (fun d => decide (d.recipientSessionId = sid ∧ d.state = .accepted ∧
    b.requiresReply d.messageId = true)) _ (updateWhere _ _ b.deliveries) at hd'
  obtain ⟨d₁, hd₁, rfl⟩ := mem_updateWhere.mp hd'
  obtain ⟨d, hd, rfl⟩ := mem_updateWhere.mp hd₁
  have hto' : d.recipientSessionId = sid := by
    revert hto
    split_ifs <;> exact id
  have hstate := grounded d hd
  cases hs : d.state with
  | dispatching => exact absurd hs hstate
  | accepted =>
    cases hr : b.requiresReply d.messageId <;>
      simp [hs, hto', hr, DeliveryState.waiting, DeliveryState.isTerminal]
  | _ => simp [hs, hto', DeliveryState.waiting, DeliveryState.isTerminal]

theorem Resting.tombstone (mortal : sid ≠ operatorSessionId) (h : Resting B b) :
    Resting B (b.tombstone sid now) := by
  have hmove : Move plainEnv .tombstone b (b.tombstone sid now) := .tombstone sid now mortal
  have hwinds : Winds b (b.tombstone sid now) :=
    ⟨hmove.grows h.mail, fun A hA => .tombstone hA.hops⟩
  refine ⟨hmove.mailInv h.mail, fun d' hd' hor => ?_, fun mid hmid => ?_, fun d' hd' hdisp => ?_⟩
  · by_cases hto : d'.recipientSessionId = sid
    · exact tombstone_atRest h.grounded hd' hto
    · refine hwinds.atRest h.mail hd' fun d hd hpair => h.rests d hd ?_
      obtain ⟨hid, hsame⟩ := Prod.mk.inj hpair
      rw [tombstone_isExpired hto] at hor
      exact hor.imp (fun hB => hid ▸ hB) fun hexp => hsame ▸ hexp
  · exact Nat.lt_of_lt_of_le (h.below mid hmid) hwinds.grows.ids
  · obtain ⟨d, hd, -, hbefore⟩ := hwinds.backed _ dispatching_down d' hd' (by simp [hdisp])
    exact h.grounded d hd (by simpa using hbefore)

/-- What is at rest stays at rest. -/
def Rests (B : List Id) (b b' : Broker) : Prop := Resting B b → Resting B b'

instance : IsFrame (Rests B) where
  refl _ := id
  trans h h' := h' ∘ h

theorem sweep_rests : Respects (Rests B) (sweep env mom) := by
  refine Respects.transaction (.act fun b => ?_)
  have hacks : Rests B b (reapAckTimeouts env mom b).db :=
    IsFrame.foldl AckSweep.db (b.lapsed mom.now) { db := b } fun acc r _ h =>
      h.moves env (reapAckTimeout_moves acc r) (by simp) fun A hA =>
        reapAckTimeout_backed hA.hops acc r
  have httl (b : Broker) : Rests B b (reapAcceptanceTtl mom.now b).2 :=
    IsFrame.foldl Prod.snd (b.pastTtl mom.now) (0, b) fun acc r _ h =>
      h.moves env (expireWaiting_moves acc r) (by simp) fun A hA =>
        expireWaiting_backed hA.hops acc r
  have hgone (b : Broker) : Rests B b (reapExpiredSessions mom.now b).2 := by
    refine IsFrame.foldl Prod.snd (b.dueSessions mom.now) (0, b) fun acc s hs h => ?_
    unfold expireSession
    split
    · exact h.tombstone (mortal_of_mem_dueSessions hs)
    · exact h
  have hlapse (b : Broker) : Rests B b (reapStalePendingNames mom.now b) := by
    intro h
    have hmoves : Moves env [.lapse] b (reapStalePendingNames mom.now b) :=
      .one (by simp) (.lapse mom.now)
    exact h.moves env hmoves (by simp) fun A hA => .namesOnly .lapse
  exact IsFrame.trans hacks (IsFrame.trans (httl _) (IsFrame.trans (hgone _) (hlapse _)))

/-! ## The operations that write mail -/

theorem send_rests {input : SendInput} : Respects (Rests B) (send env now auth input) := by
  refine Refuses.respects (.transaction _) (fun _ _ h => h) fun b r b' h hb => ?_
  obtain ⟨-, rfl⟩ | ⟨-, m, hposted, -, -, -, hm⟩ := send_ok h
  · exact hb
  · exact hb.posted hposted hm.reachable

theorem operatorSend_rests {input : OperatorSendInput} :
    Respects (Rests B) (operatorSend env now input) := by
  refine Refuses.respects (.transaction _) (fun _ _ h => h) fun b r b' h hb => ?_
  obtain ⟨-, rfl⟩ | ⟨-, m, hposted, -, -, -, hm⟩ := operatorSend_ok h
  · exact hb
  · exact hb.posted hposted hm.reachable

theorem reply_rests {input : ReplyInput} : Respects (Rests B) (reply env now auth input) := by
  refine reply_refuses.respects (fun _ _ hnote hb => ?_) fun b r b' h hb => ?_
  · have hmoves : Moves env [.note] _ _ := .note (by simp) hnote
    exact hb.moves env hmoves (by simp) fun _ _ => .bookkeeping hnote
  · obtain ⟨-, orig, -, -, ⟨dup, -, -, -, rfl⟩ | hr⟩ := reply_ok h
    · exact hb
    · obtain ⟨b₁, row, hposted, -, -, hrow, -, -, -, -, hdel, -, hmoves⟩ := hr.posted
      exact (hb.posted hposted hrow.reachable).moves env hmoves (by simp) fun A hA =>
        .answered hA.hops hdel

theorem ack_rests {input : AckInput} : Respects (Rests B) (ack env now auth input) := fun b h =>
  h.moves env (ack_respects b) (by simp) fun _ hA => ack_backed hA.hops b

theorem discard_rests {mid : Id} : Respects (Rests B) (discard now mid) := fun b h =>
  h.moves plainEnv (discard_respects b) (by simp) fun _ hA => discard_backed hA.hops b

/-! ## Putting a delivery back to work -/

/-- Only the delivery of one message may differ. -/
structure Touches (mid : Id) (b b' : Broker) : Prop where
  ids : b.nextId ≤ b'.nextId
  messages : b'.messages = b.messages
  sessions : b'.sessions.map core = b.sessions.map core
  deliveries : ∀ d ∈ b'.deliveries,
    d ∈ b.deliveries ∨ (d.messageId = mid ∧ d.state ≠ .dispatching)

instance {mid : Id} : IsFrame (Touches mid) where
  refl _ := ⟨Nat.le_refl _, rfl, rfl, fun _ hd => .inl hd⟩
  trans h h' :=
    ⟨h.ids.trans h'.ids, h'.messages.trans h.messages, h'.sessions.trans h.sessions,
      fun d hd => (h'.deliveries d hd).elim (h.deliveries d) .inr⟩

theorem Touches.bookkeeping {mid : Id} (h : Bookkeeping b b') : Touches mid b b' :=
  ⟨h.ids, h.messages, h.sessions, fun _ hd => .inl (h.deliveries ▸ hd)⟩

theorem Touches.update {mid : Id} {p : Delivery → Bool} {f : Delivery → Delivery}
    (hp : ∀ d, p d = true → d.messageId = mid) (hid : ∀ d, (f d).messageId = d.messageId)
    (hf : ∀ d, (f d).state ≠ .dispatching) : Touches mid b (b.updateDeliveries p f) := by
  refine ⟨Nat.le_refl _, rfl, rfl, fun d hd => ?_⟩
  obtain ⟨d₀, hd₀, rfl⟩ := mem_updateWhere.mp hd
  split
  · rename_i hpd
    exact .inr ⟨(hid d₀).trans (hp d₀ hpd), hf d₀⟩
  · exact .inl hd₀

/-- A message that is not in `B`, to a session that is not expired, may be put back to work. -/
theorem Resting.touches {mid : Id} (h : Resting B b) (ht : Touches mid b b') (mail' : MailInv b')
    (hB : mid ∉ B)
    (hlive : ∀ m ∈ b.messages, m.messageId = mid → b.isExpired m.recipientSessionId = false) :
    Resting B b' := by
  have hgrows : Grows b b' := ⟨ht.ids, ht.messages ▸ List.prefix_rfl⟩
  refine ⟨mail', fun d hd hor => ?_, fun x hx => Nat.lt_of_lt_of_le (h.below x hx) ht.ids,
    fun d hd => ?_⟩
  · rw [isExpired_core ht.sessions] at hor
    rcases ht.deliveries d hd with hd₀ | ⟨hid, -⟩
    · exact (h.rests d hd₀ hor).grows hd₀ h.mail hgrows
    · rcases hor with hin | hexp
      · exact absurd (hid ▸ hin) hB
      · have hmem : Delivery.pair d ∈ b.messages.map Message.pair := by
          rw [← ht.messages, ← mail'.pairs]
          exact List.mem_map_of_mem hd
        obtain ⟨m, hm, hpair⟩ := List.mem_map.mp hmem
        obtain ⟨hmid, hto⟩ := Prod.mk.inj hpair
        rw [← hto, hlive m hm (hmid.trans hid)] at hexp
        cases hexp
  · rcases ht.deliveries d hd with hd₀ | ⟨-, hs⟩
    · exact h.grounded d hd₀
    · exact hs

theorem operatorRedeliver_touches {mid : Id} {confirm : Bool} :
    Respects (Touches mid) (operatorRedeliver now mid confirm) := by
  have hrearm (b : Broker) (p : DeliveryState → Bool) : Touches mid b (b.rearm mid p now) :=
    .update (fun d hp => by simpa using (of_decide_eq_true hp).1) (fun _ => rfl) fun _ => by simp
  refine Respects.transaction (Respects.bind .get fun b => ?_)
  split
  · exact .pure _
  · refine Respects.ite ?_ ?_
    · exact Respects.bind (.requireElse fun _ => .bookkeeping .audit) fun _ =>
        Respects.bind (.act fun _ => .bookkeeping .mint) fun _ =>
        Respects.bind (.modify fun b => IsFrame.trans (hrearm b _) (.bookkeeping .audit))
          fun _ => .pure _
    · exact Respects.bind .require fun _ =>
        Respects.bind (.modify fun b => IsFrame.trans (hrearm b _) (.bookkeeping .audit))
          fun _ => .pure _

theorem redrive_touches {mid : Id} {validate : SessionId → String → Option String} :
    Respects (Touches mid) (redrive env now mid validate) := by
  refine Respects.transaction (Respects.bind .get fun b => ?_)
  split
  · exact .pure _
  · exact .pure _
  · refine Respects.ite (.pure _) ?_
    split
    · exact .pure _
    · refine Respects.bind (.act fun _ => .bookkeeping .mint) fun id =>
        Respects.bind (.modify fun b => IsFrame.trans (.update ?_ ?_ ?_) (.bookkeeping .audit))
          fun _ => .pure _
      · intro d hp
        exact of_decide_eq_true hp
      · exact fun _ => rfl
      · exact fun _ => by simp

/-- An unconfirmed redelivery of what is at rest is refused. -/
theorem operatorRedeliver_atRest {mid : Id} {confirm : Bool}
    (hrest : ∀ d, b.delivery? mid = some d → AtRest b d)
    (hconfirm : ∀ d, b.delivery? mid = some d → d.state = .accepted → confirm = false) :
    b = (operatorRedeliver now mid confirm b).2 := by
  refine Respects.transaction_at fun a t h => ?_
  simp only [operatorRedeliverTransaction, Call.get_bind] at h
  cases hd : b.delivery? mid with
  | none =>
    simp only [hd, Call.pure_ok] at h
    exact h.2
  | some d =>
    simp only [hd] at h
    split at h
    · rename_i hacc
      simp [hconfirm d hd hacc] at h
    · simp only [Call.bind_ok, Call.require_ok] at h
      obtain ⟨_, _, ⟨hstate, -⟩, -⟩ := h
      have hsettled := (hrest d hd).settled
      rcases hstate with h | h | h <;> simp [unsettled, h, DeliveryState.isTerminal] at hsettled

/-! ## Bodies -/

/-- The messages whose bodies an answer carries. -/
def bodiesOf : Except Failure Response → List Id
  | .ok (.bodies ms) => ms.map (·.messageId)
  | .ok (.inbox es) => (es.filter (·.bodyIncluded)).map (·.messageId)
  | .ok (.listed ms) => ms.map (·.messageId)
  | .ok (.redelivered (some e)) => [e.messageId]
  | _ => []

/-- The message has a delivery that waits. -/
def Waits (b : Broker) (mid : Id) : Prop :=
  ∃ d ∈ b.deliveries, d.messageId = mid ∧ d.state.waiting = true

theorem Selected.waits {sid : SessionId} {limit : Nat} {ms : List PendingMessage}
    (h : Selected (b.pendingForSessionId sid limit now) ms) {mid : Id}
    (hmid : mid ∈ ms.map (·.messageId)) : Waits b mid := by
  obtain ⟨x, hx, rfl⟩ := List.mem_map.mp hmid
  obtain ⟨m, hm, hid⟩ := h.mem hx
  rw [hid]
  exact waiting_of_mem_pending hm

/-- A redelivery that would answer with the body of a message. -/
def Broker.represents (b : Broker) (auth : SessionAuthority) (mid : Id) : Bool :=
  (b.message? mid).any (fun m => m.recipientSessionId = auth.sessionId) ∧
    b.epochOf auth.sessionId = some auth.epoch ∧ b.maxLogical mid auth.epoch ≠ 0

theorem redeliver_represents {mid : Id} {e : InboxEntry}
    (h : redeliver env now auth mid b = (.ok (some e), b')) :
    e.messageId = mid ∧ Broker.represents b auth mid = true := by
  simp only [redeliver, assertAllowed, Call.bind_ok, Call.require_ok, assertCurrentEpoch_ok,
    Call.transaction_ok, Call.get_bind] at h
  obtain ⟨_, _, ⟨_, rfl⟩, _, _, ⟨hcur, rfl⟩, h⟩ := h
  cases hm : b.message? mid with
  | none => simp [hm] at h
  | some m =>
    have hid : m.messageId = mid := by simpa using List.find?_some hm
    simp only [hm] at h
    split at h
    · simp at h
    · rename_i hto
      split at h
      · simp at h
      · rename_i hpres
        simp only [Call.act_bind, Call.bind_ok, Call.orThrow_ok, Call.modify_bind,
          Call.pure_ok, Option.some.injEq] at h
        obtain ⟨_, _, -, rfl, -⟩ := h
        exact ⟨hid, by simp [Broker.represents, hm, not_not.mp hto, hcur, hpres]⟩

/-- A body that is answered waited, or was asked for again. -/
theorem exec_bodies {op : Op} {mid : Id} (h : mid ∈ bodiesOf (exec env mom op b).1) :
    Waits b mid ∨ ∃ auth, op = .redeliver auth mid ∧ Broker.represents b auth mid = true := by
  rcases hx : exec env mom op b with ⟨e | r, b'⟩
  · rw [hx] at h
    cases h
  rw [hx] at h
  -- Naming the checkpoint moves no delivery.
  have hnamed {given : Option String} {ck : CheckpointId} {b₁ : Broker}
      (hck : checkpointOf given b = (.ok ck, b₁)) (hw : Waits b₁ mid) : Waits b mid := by
    rcases checkpointOf_ok hck with rfl | rfl <;> exact hw
  -- A pull shows what it selected, and it selects what waits.
  cases op with
  | checkpointPull auth given limit =>
    simp only [exec, Call.bind_ok, Call.map_ok] at hx
    obtain ⟨ck, b₁, hck, ms, hpull, rfl⟩ := hx
    exact .inl (hnamed hck ((checkpointPull_selected hpull).waits h))
  | processNext auth given =>
    simp only [exec, Call.bind_ok, Call.map_ok] at hx
    obtain ⟨ck, b₁, hck, ms, hpull, rfl⟩ := hx
    exact .inl (hnamed hck ((processNext_selected hpull).waits h))
  | inboxView auth given limit =>
    simp only [exec, Call.bind_ok, Call.map_ok] at hx
    obtain ⟨ck, b₁, hck, es, hview, rfl⟩ := hx
    obtain ⟨ms, hsel, hes⟩ := inboxView_selected hview
    rw [bodiesOf, hes, List.map_map] at h
    exact .inl (hnamed hck (hsel.waits h))
  | daemonCheckpointPull auth limit =>
    simp only [exec, Call.map_ok] at hx
    obtain ⟨ms, hpull, rfl⟩ := hx
    exact .inl ((daemonCheckpointPull_selected hpull).waits h)
  | peek auth limit =>
    simp only [exec, pendingForSession, Call.map_ok, Call.bind_ok, assertCurrentEpoch_ok,
      Call.get_bind, Call.pure_ok] at hx
    obtain ⟨_, ⟨_, _, ⟨-, rfl⟩, rfl, -⟩, rfl⟩ := hx
    obtain ⟨m, hm, rfl⟩ := List.mem_map.mp h
    exact .inl (waiting_of_mem_pending hm)
  | redeliver auth mid' =>
    simp only [exec, Call.map_ok] at hx
    obtain ⟨o, hredeliver, rfl⟩ := hx
    cases o with
    | none => cases h
    | some e =>
      obtain ⟨hid, hrep⟩ := redeliver_represents hredeliver
      obtain rfl : mid = mid' := (List.mem_singleton.mp h).trans hid
      exact .inr ⟨auth, rfl, hrep⟩
  | connClosed | ensureOperatorSession =>
    simp only [exec, Call.modify_bind, Call.pure_ok] at hx
    rw [← hx.1] at h
    cases h
  | _ =>
    simp only [exec, Call.map_ok] at hx
    obtain ⟨_, -, rfl⟩ := hx
    cases h

/-! ## Runs -/

/-- The history: the messages that were ever addressed to an expired session. -/
def buries (buried : List Id) (_ : Broker) (_ : Event) (_ : Except Failure Response)
    (b' : Broker) : List Id :=
  buried ++ (b'.messages.filter fun m => b'.isExpired m.recipientSessionId).map (·.messageId)

/-- The step does not itself put a buried message back to work, or its body before a reader:
    no replay of one that was accepted, no redelivery of one that was presented at the
    caller's epoch, no redrive. -/
def respectsExpiry (p : Broker × List Id) (e : Event) : Bool :=
  match e.1 with
  | .operatorRedeliver mid confirm =>
    ¬ (mid ∈ p.2 ∧ confirm = true ∧ (p.1.delivery? mid).any fun d => d.state = .accepted)
  | .redeliver auth mid => ¬ (mid ∈ p.2 ∧ Broker.represents p.1 auth mid = true)
  | .redrive mid _ => mid ∉ p.2
  | _ => true

/-- What the run keeps: beside the rest, every message to an expired session is in the
    history. -/
structure ExpiryInv (p : Broker × List Id) : Prop where
  resting : Resting p.2 p.1
  covered : ∀ m ∈ p.1.messages, p.1.isExpired m.recipientSessionId = true → m.messageId ∈ p.2

/-- A message outside the history is addressed to a session that is not expired. -/
theorem ExpiryInv.live (inv : ExpiryInv (b, B)) {mid : Id} (hmid : mid ∉ B) :
    ∀ m ∈ b.messages, m.messageId = mid → b.isExpired m.recipientSessionId = false := by
  intro m hm hid
  by_contra hexp
  exact hmid (hid ▸ inv.covered m hm (by simpa using hexp))

theorem ExpiryInv.exec_rests (inv : ExpiryInv (b, B)) {op : Op}
    (hop : respectsExpiry (b, B) (op, mom) = true) : Resting B (exec env mom op b).2 := by
  have hrest := inv.resting
  have hmoves (hk : (kindsOf false op).all winding = true)
      (ht : (kindsOf false op).contains .tombstone = false) :
      Resting B (exec env mom op b).2 := by
    have hmoved := exec_moves env mom op b false (by simp)
    exact hrest.moves env hmoved (by simpa using ht) fun A hA => hmoved.down hA hk
  -- The last group is settled by its kinds of moves; the others touch deliveries.
  cases op with
  | send => exact send_rests.map b hrest
  | operatorSend => exact operatorSend_rests.map b hrest
  | reply => exact reply_rests.map b hrest
  | ack => exact ack_rests.map b hrest
  | discard => exact discard_rests.map b hrest
  | sweep => exact sweep_rests.map b hrest
  | operatorRedeliver mid confirm =>
    simp only [exec, Call.map_snd]
    by_cases hmid : mid ∈ B
    · have hcond :
        confirm = false ∨ ((b.delivery? mid).any fun d => d.state = .accepted) = false := by
        simpa [respectsExpiry, hmid] using hop
      rw [← operatorRedeliver_atRest]
      · exact hrest
      · intro d hd
        have hd' : d.messageId = mid := by simpa using List.find?_some hd
        exact hrest.rests d (List.mem_of_find?_eq_some hd) (.inl (hd' ▸ hmid))
      · intro d hd hacc
        simpa [hd, hacc] using hcond
    · have hmoved : Moves env [.note, .restate] b (operatorRedeliver mom.now mid confirm b).2 :=
        operatorRedeliver_respects b
      exact hrest.touches (operatorRedeliver_touches b) (hmoved.mailInv hrest.mail) hmid
        (inv.live hmid)
  | redrive mid validate =>
    have hmid : mid ∉ B := by simpa [respectsExpiry] using hop
    simp only [exec, Call.map_snd]
    exact hrest.touches (redrive_touches b) ((redrive_respects b).mailInv hrest.mail) hmid
      (inv.live hmid)
  | register | checkpointPull | processNext | inboxView | daemonCheckpointPull | peek | redeliver
  | registerAlias | renameSession | signalReadiness | setControl | blockPeer | connClosed
  | operatorRenameAlias | operatorSetControl | operatorRemoveRecord | recordManagedSession
  | importDormantSession | ensureOperatorSession => exact hmoves rfl rfl

/-- One step. -/
theorem ExpiryInv.step {p : Broker × List Id} (inv : ExpiryInv p) {e : Event}
    (he : respectsExpiry p e = true) : ExpiryInv (recording (step env) buries p e).2 := by
  obtain ⟨b, B⟩ := p
  obtain ⟨op, mom⟩ := e
  have hrest : Resting B (XBus.step env b (op, mom)).2 := inv.exec_rests he
  set b' := (XBus.step env b (op, mom)).2
  have hB (mid : Id) : mid ∈ (recording (XBus.step env) buries (b, B) (op, mom)).2.2 ↔
      mid ∈ B ∨ ∃ m ∈ b'.messages, b'.isExpired m.recipientSessionId = true ∧
        m.messageId = mid := by
    simp [recording, buries, b', and_assoc]
  refine ⟨⟨hrest.mail, fun d hd hor => ?_, fun mid hmid => ?_, hrest.grounded⟩, fun m hm hexp => ?_⟩
  · refine hrest.rests d hd ?_
    rcases hor with hin | hexp
    · rcases (hB _).mp hin with hin | ⟨m, hm, hexp, hid⟩
      · exact .inl hin
      · obtain ⟨d₀, hd₀, hid₀, hto⟩ := hrest.mail.addressed_of_mem hm
        obtain rfl : d₀ = d := hrest.mail.delivery_eq hd₀ hd (hid₀.trans hid)
        exact .inr (hto ▸ hexp)
    · exact .inr hexp
  · rcases (hB _).mp hmid with hin | ⟨m, hm, -, rfl⟩
    · exact hrest.below mid hin
    · exact hrest.mail.below m hm
  · exact (hB _).mpr (.inr ⟨m, hm, hexp, rfl⟩)

theorem expiryInv_initial : ExpiryInv (initial env, []) := by
  refine ⟨⟨mailInv_initial, fun d hd => ?_, by simp, fun d hd => ?_⟩, fun m hm => ?_⟩
  · cases hd
  · cases hd
  · cases hm

/-- What expiry promises of a state and of the messages buried so far. -/
structure ExpiryFinal (env : Env) (b : Broker) (buried : List Id) : Prop where
  /-- Nothing addressed to an expired session waits or is in flight. -/
  quiet : ∀ d ∈ b.deliveries, b.isExpired d.recipientSessionId = true →
    d.state ≠ .queued ∧ d.state ≠ .retryWait ∧ d.state ≠ .transportWritten
  /-- Everything addressed to an expired session is buried. -/
  covered : ∀ m ∈ b.messages, b.isExpired m.recipientSessionId = true → m.messageId ∈ buried
  /-- What is buried is at an end, or accepted with no reply owed, also once its session has
      come back. -/
  rests : ∀ d ∈ b.deliveries, d.messageId ∈ buried → AtRest b d
  /-- No answer carries a buried body. -/
  unread : ∀ e, respectsExpiry (b, buried) e = true →
    ∀ mid ∈ bodiesOf (step env b e).1, mid ∉ buried

/-- **Expiry is final.** In every run in which no step itself replays, redelivers or redrives a
    buried message: what is addressed to an expired session is at rest, it is at rest after
    the session has come back by a registration or a rename, and no answer carries its body. -/
theorem expiry_is_final {log : List (Event × Except Failure Response)} {buried : List Id}
    (run : Run (recording (step env) buries) (fun p e => respectsExpiry p e = true)
      (initial env, []) log (b, buried)) : ExpiryFinal env b buried := by
  have inv : ExpiryInv (b, buried) :=
    run.invariant expiryInv_initial fun p e hp he => hp.step he
  refine ⟨fun d hd hexp => ?_, inv.covered, fun d hd hin => inv.resting.rests d hd (.inl hin),
    fun e he mid hmid hin => ?_⟩
  · have hsettled := (inv.resting.rests d hd (.inr hexp)).settled
    refine ⟨?_, ?_, ?_⟩ <;> intro hs <;> simp [unsettled, hs, DeliveryState.isTerminal] at hsettled
  · obtain ⟨op, mom⟩ := e
    rcases exec_bodies hmid with ⟨d, hd, hid, hwaits⟩ | ⟨auth, rfl, hrep⟩
    · have hsettled := (inv.resting.rests d hd (.inl (hid ▸ hin))).settled
      cases hs : d.state <;>
        simp [unsettled, hs, DeliveryState.waiting, DeliveryState.isTerminal] at hsettled hwaits
    · simp [respectsExpiry, hin, hrep] at he

/-- `beta` accepts a message that asks for no reply, and fifteen days later it expires. -/
def acceptedThenExpired : List Event :=
  requestSent.take 3 ++
    [ (.send (component "alpha" .mcp 1 1)
        { recipient := "beta-name", text := "note", requiresAck := true }, { nowMs := 1000 }),
      (.checkpointPull (component "beta" .hook 1 2) (some "ck") 10, { nowMs := 1001 }),
      (.ack (component "beta" .mcp 1 2)
        { messageId := 8, accept := true, injectionId := some 15 }, { nowMs := 1002 }),
      (.sweep, { nowMs := 1002 + retentionMs }) ]

/-- `beta` registers anew: the message of its dead lifecycle is buried and stays accepted. -/
theorem expired_work_stays_buried :
    let events := acceptedThenExpired ++
      [(.register { sessionId := "beta", connectionId := 3, processId := 3 },
        { nowMs := 1003 + retentionMs })]
    let p := (runAll (recording (step plainEnv) buries) (initial plainEnv, []) events).2
    8 ∈ p.2 ∧ p.1.isExpired "beta" = false ∧ ExpiryFinal plainEnv p.1 p.2 := by
  intro events p
  have hrun : Run (recording (step plainEnv) buries) (fun p e => respectsExpiry p e = true)
      (initial plainEnv, []) _ p := Run.of_runAll events (by decide +kernel)
  exact ⟨by decide +kernel, by decide +kernel, expiry_is_final hrun⟩

/-- The operator replays what `beta` had accepted, and it waits for a session that is
    expired. -/
theorem replay_waits_for_expired :
    ∃ log p, Run (recording (step plainEnv) buries) Any (initial plainEnv, []) log p ∧
      ¬ ExpiryFinal plainEnv p.1 p.2 := by
  refine ⟨_, _, Run.of_events (recording (step plainEnv) buries) (initial plainEnv, [])
    (acceptedThenExpired ++ [(.operatorRedeliver 8 true, { nowMs := 1003 + retentionMs })]),
    fun hfinal => ?_⟩
  have hwaits : ∃ d ∈ (runAll (recording (step plainEnv) buries) (initial plainEnv, [])
      (acceptedThenExpired ++
        [(.operatorRedeliver 8 true, { nowMs := 1003 + retentionMs })])).2.1.deliveries,
      (runAll (recording (step plainEnv) buries) (initial plainEnv, [])
        (acceptedThenExpired ++
          [(.operatorRedeliver 8 true, { nowMs := 1003 + retentionMs })])).2.1.isExpired
            d.recipientSessionId = true ∧ d.state = .queued := by
    decide +kernel
  obtain ⟨d, hd, hexp, hstate⟩ := hwaits
  exact (hfinal.quiet d hd hexp).1 hstate

end Proof
end XBus
