import XBus.Proof.Steps

/-!
# The mail invariant

What the tables of the mail path have in common in every reachable state: messages and
deliveries are the same list of (message, recipient) pairs, ids are unique and below the
next one, and an injection row belongs to a delivery to its own recipient.

`MailFrame` says what any move other than a posting does to these tables. Besides keeping
the invariant it is what makes two things permanent: an injection row, once made, stays, and
a delivery, once completed, stays completed.
-/

set_option autoImplicit false

namespace XBus
namespace Proof

open Lib

variable {env : Env} {k : Kind} {b b' b'' : Broker}

/-- What a delivery and its message have in common. -/
def Delivery.pair (d : Delivery) : Id × SessionId := (d.messageId, d.recipientSessionId)

def Message.pair (m : Message) : Id × SessionId := (m.messageId, m.recipientSessionId)

structure MailInv (b : Broker) : Prop where
  pairs : b.deliveries.map Delivery.pair = b.messages.map Message.pair
  unique : (b.messages.map (·.messageId)).Nodup
  below : ∀ m ∈ b.messages, m.messageId < b.nextId
  rows : ∀ i ∈ b.injections, Addressed b i.recipientSessionId i.messageId
  minted : MintedBelow b

/-- A logical number that is not 0 belongs to a row. -/
theorem row_of_maxLogical {mid : Id} {epoch : Nat} (h : b.maxLogical mid epoch ≠ 0) :
    ∃ i ∈ b.injections, i.messageId = mid ∧ i.recipientEpoch = epoch := by
  by_contra hnone
  refine h ?_
  have hfilter : (b.injections.filter fun i => i.messageId = mid ∧ i.recipientEpoch = epoch) = [] :=
    List.filter_eq_nil_iff.mpr fun i hi hp => hnone ⟨i, hi, of_decide_eq_true hp⟩
  rw [Broker.maxLogical, hfilter]
  rfl

/-! ## Consequences -/

namespace MailInv

theorem deliveryIds (inv : MailInv b) : (b.deliveries.map (·.messageId)).Nodup := by
  have := congrArg (List.map Prod.fst) inv.pairs
  simp only [List.map_map] at this
  exact (show b.deliveries.map (·.messageId) = b.messages.map (·.messageId) from this) ▸ inv.unique

theorem delivery_eq (inv : MailInv b) {d d' : Delivery} (hd : d ∈ b.deliveries)
    (hd' : d' ∈ b.deliveries) (h : d.messageId = d'.messageId) : d = d' :=
  eq_of_key_eq inv.deliveryIds hd hd' h

theorem delivery?_of_mem (inv : MailInv b) {d : Delivery} (hd : d ∈ b.deliveries) :
    b.delivery? d.messageId = some d := find?_key_of_mem inv.deliveryIds hd

/-- Every message has a delivery, to its own recipient. -/
theorem addressed_of_mem (inv : MailInv b) {m : Message} (hm : m ∈ b.messages) :
    Addressed b m.recipientSessionId m.messageId := by
  have : Message.pair m ∈ b.deliveries.map Delivery.pair := by
    rw [inv.pairs]
    exact List.mem_map_of_mem hm
  obtain ⟨d, hd, hpair⟩ := List.mem_map.mp this
  exact ⟨d, hd, congrArg Prod.fst hpair, congrArg Prod.snd hpair⟩

/-- A message is addressed to one session. -/
theorem addressed_unique (inv : MailInv b) {mid : Id} {r r' : SessionId}
    (h : Addressed b r mid) (h' : Addressed b r' mid) : r = r' := by
  obtain ⟨d, hd, hm, rfl⟩ := h
  obtain ⟨d', hd', hm', rfl⟩ := h'
  rw [inv.delivery_eq hd hd' (hm.trans hm'.symm)]

theorem below_of_addressed (inv : MailInv b) {mid : Id} {r : SessionId}
    (h : Addressed b r mid) : mid < b.nextId := by
  obtain ⟨d, hd, rfl, -⟩ := h
  have : Delivery.pair d ∈ b.messages.map Message.pair := by
    rw [← inv.pairs]
    exact List.mem_map_of_mem hd
  obtain ⟨m, hm, hpair⟩ := List.mem_map.mp this
  have hid : m.messageId = d.messageId := congrArg Prod.fst hpair
  exact hid ▸ inv.below m hm

end MailInv

/-! ## Frames of the mail tables -/

/-- How any move but a posting may change a delivery. -/
structure Restated (d d' : Delivery) : Prop where
  messageId : d'.messageId = d.messageId
  recipient : d'.recipientSessionId = d.recipientSessionId
  settled : d.state = .completed → d' = d

theorem Restated.rfl' {d : Delivery} : Restated d d := ⟨rfl, rfl, fun _ => rfl⟩

theorem Grounded.restated {d d' : Delivery} (h : Grounded d d') : Restated d d' :=
  ⟨h.messageId, h.recipient, h.settled⟩

theorem InjectedDelivery.restated {mid : Id} {e : Nat} {d d' : Delivery}
    (h : InjectedDelivery mid e d d') : Restated d d' :=
  ⟨h.messageId, h.recipient, h.settled⟩

theorem Restated.pair {d d' : Delivery} (h : Restated d d') :
    Delivery.pair d' = Delivery.pair d := by
  rw [Delivery.pair, Delivery.pair, h.messageId, h.recipient]

/-- Two injection rows that differ at most in their use. -/
def SameRow (i i' : Injection) : Prop := i' = { i with consumedOp := i'.consumedOp }

theorem SameRow.rfl' {i : Injection} : SameRow i i := rfl

/-- A row recorded between two states, of a message addressed to its recipient. -/
structure NewRow (b b' : Broker) (i : Injection) : Prop where
  addressed : Addressed b i.recipientSessionId i.messageId
  minted : MintedBefore i.checkpointId b'.nextId

structure MailFrame (b b' : Broker) : Prop where
  ids : b.nextId ≤ b'.nextId
  messages : b'.messages = b.messages
  deliveries : ∃ g, b'.deliveries = b.deliveries.map g ∧ ∀ d ∈ b.deliveries, Restated d (g d)
  kept : ∀ i ∈ b.injections, ∃ i' ∈ b'.injections, SameRow i i'
  rows : ∀ i' ∈ b'.injections, (∃ i ∈ b.injections, SameRow i i') ∨ NewRow b b' i'

namespace MailFrame

/-- A frame that leaves injections alone. -/
theorem of_injections (ids : b.nextId ≤ b'.nextId) (messages : b'.messages = b.messages)
    (injections : b'.injections = b.injections)
    (deliveries : ∃ g, b'.deliveries = b.deliveries.map g ∧
      ∀ d ∈ b.deliveries, Restated d (g d)) : MailFrame b b' :=
  ⟨ids, messages, deliveries, fun i hi => ⟨i, injections ▸ hi, .rfl'⟩,
    fun i hi => .inl ⟨i, injections ▸ hi, .rfl'⟩⟩

/-- A frame that leaves the mail tables alone. -/
theorem of_eq (ids : b.nextId ≤ b'.nextId) (messages : b'.messages = b.messages)
    (deliveries : b'.deliveries = b.deliveries) (injections : b'.injections = b.injections) :
    MailFrame b b' :=
  of_injections ids messages injections ⟨id, by simp [deliveries], fun _ _ => .rfl'⟩

/-- A frame that appends injections. -/
theorem of_append {is : List Injection} (ids : b.nextId ≤ b'.nextId)
    (messages : b'.messages = b.messages) (injections : b'.injections = b.injections ++ is)
    (new : ∀ i ∈ is, NewRow b b' i)
    (deliveries : ∃ g, b'.deliveries = b.deliveries.map g ∧
      ∀ d ∈ b.deliveries, Restated d (g d)) : MailFrame b b' := by
  refine ⟨ids, messages, deliveries, fun i hi => ⟨i, ?_, .rfl'⟩, fun i hi => ?_⟩
  · rw [injections]
    exact List.mem_append_left _ hi
  · rw [injections] at hi
    rcases List.mem_append.mp hi with hi | hi
    · exact .inl ⟨i, hi, .rfl'⟩
    · exact .inr (new i hi)

theorem bookkeeping (h : Bookkeeping b b') : MailFrame b b' :=
  of_eq h.ids h.messages h.deliveries h.injections

theorem namesOnly (h : NamesOnly b b') : MailFrame b b' :=
  of_eq h.ids h.messages h.deliveries h.injections

theorem consume {id : Id} {op : ReceiptOp} : MailFrame b (b.consume id op) := by
  refine ⟨Nat.le_refl _, rfl, ⟨fun d => d, by simp [Broker.consume], fun _ _ => .rfl'⟩,
    fun i hi => ⟨_, List.mem_map_of_mem hi, ?_⟩, fun i hi => ?_⟩
  · split
    · rfl
    · rfl
  · obtain ⟨i₀, hi₀, rfl⟩ := List.mem_map.mp hi
    refine .inl ⟨i₀, hi₀, ?_⟩
    split
    · rfl
    · rfl

theorem inject {now : Iso} {auth : SessionAuthority} {ck : CheckpointId} {m : Message}
    {r : Option Id × Broker} (h : InjectSpec env now auth ck m b r)
    (addressed : Addressed b auth.sessionId m.messageId)
    (minted : MintedBefore ck b.nextId) : MailFrame b r.2 := by
  obtain ⟨g, hdel, hg⟩ := h.deliveries
  have hdel : ∃ g, r.2.deliveries = b.deliveries.map g ∧ ∀ d ∈ b.deliveries, Restated d (g d) :=
    ⟨g, hdel, fun d _ => (hg d).restated⟩
  cases hid : r.1 with
  | none => exact of_injections h.rest.ids h.rest.messages (h.silent hid).1 hdel
  | some id =>
    refine of_append h.rest.ids h.rest.messages (h.presented id hid).2.2.1 (fun i hi => ?_) hdel
    obtain rfl := List.mem_singleton.mp hi
    exact ⟨addressed, minted.mono h.rest.ids⟩

theorem addressed (h : MailFrame b b') {sid : SessionId} {mid : Id} :
    Addressed b' sid mid ↔ Addressed b sid mid := by
  obtain ⟨g, hdel, hg⟩ := h.deliveries
  simp only [Addressed, hdel, List.mem_map]
  constructor
  · rintro ⟨_, ⟨d, hd, rfl⟩, hm, hr⟩
    exact ⟨d, hd, (hg d hd).messageId.symm.trans hm, (hg d hd).recipient.symm.trans hr⟩
  · rintro ⟨d, hd, hm, hr⟩
    exact ⟨g d, ⟨d, hd, rfl⟩, (hg d hd).messageId.trans hm, (hg d hd).recipient.trans hr⟩

theorem keeps (h : MailFrame b b') (inv : MailInv b) : MailInv b' := by
  obtain ⟨g, hdel, hg⟩ := h.deliveries
  refine ⟨?_, h.messages ▸ inv.unique, fun m hm => ?_, fun i hi => ?_, fun i hi p n hck => ?_⟩
  · rw [hdel, h.messages, ← inv.pairs, List.map_map]
    exact List.map_congr_left fun d hd => (hg d hd).pair
  · exact Nat.lt_of_lt_of_le (inv.below m (h.messages ▸ hm)) h.ids
  · rw [h.addressed]
    rcases h.rows i hi with ⟨i₀, hi₀, hsame⟩ | hnew
    · rw [hsame]
      exact inv.rows i₀ hi₀
    · exact hnew.addressed
  · rcases h.rows i hi with ⟨i₀, hi₀, hsame⟩ | hnew
    · rw [hsame] at hck
      exact Nat.lt_of_lt_of_le (inv.minted i₀ hi₀ p n hck) h.ids
    · exact hnew.minted p n hck

end MailFrame

/-! ## Postings -/

theorem Posted.keeps {m : Message} (h : Posted b b' m) (inv : MailInv b) : MailInv b' := by
  obtain ⟨id, now, hdel⟩ := h.deliveries
  have hmono : b.nextId ≤ b'.nextId := (h.fresh.trans_lt h.ids).le
  refine ⟨?_, ?_, fun x hx => ?_, fun i hi => ?_, fun i hi p n hck => ?_⟩
  · rw [hdel, h.messages, List.map_append, List.map_append, inv.pairs]
    rfl
  · rw [h.messages, List.map_append, List.nodup_append]
    refine ⟨inv.unique, List.nodup_singleton _, fun a ha c hc hac => ?_⟩
    obtain ⟨x, hx, rfl⟩ := List.mem_map.mp ha
    obtain rfl := List.mem_singleton.mp hc
    exact absurd (inv.below x hx) (Nat.not_lt.mpr (hac ▸ h.fresh))
  · rw [h.messages] at hx
    rcases List.mem_append.mp hx with hx | hx
    · exact (inv.below x hx).trans_le hmono
    · rw [List.mem_singleton.mp hx]
      exact h.ids
  · rw [h.injections] at hi
    obtain ⟨d, hd, hkey⟩ := inv.rows i hi
    exact ⟨d, by rw [hdel]; exact List.mem_append_left _ hd, hkey⟩
  · rw [h.injections] at hi
    exact (inv.minted i hi p n hck).trans_le hmono

/-! ## Every move -/

theorem ensureOperatorSession_mail (env : Env) (b : Broker) :
    MailFrame b (b.ensureOperatorSession env) := by
  unfold Broker.ensureOperatorSession
  split
  · exact .of_eq (Nat.le_refl _) rfl rfl rfl
  · exact .of_eq (Nat.le_refl _) rfl rfl rfl

/-- What a move does to the mail tables: it posts a message, or it is a frame. -/
theorem Move.mail (h : Move env k b b') (inv : MailInv b) :
    (∃ m, Posted b b' m ∧ (k ≠ .answer → m.kind ≠ .reply)) ∨ MailFrame b b' := by
  cases h with
  | note h => exact .inr (.bookkeeping h)
  | restate p f key grounded open' =>
    exact .inr (.of_injections (Nat.le_refl _) rfl rfl ⟨_, rfl, fun d _ =>
      (Grounded.ite (key d) (grounded d) (open' d)).restated⟩)
  | @redrive _ mid f dead found state key grounded =>
    -- The one delivery of the message is the dead letter, so none of its rows is completed.
    refine .inr (.of_injections (Nat.le_refl _) rfl rfl ⟨_, rfl, fun d hd =>
      (Grounded.ite (key d) (grounded d) fun hp hc => ?_).restated⟩)
    have hdead : dead.messageId = mid := by simpa using List.find?_some found
    have hsame : d = dead := inv.delivery_eq hd (List.mem_of_find?_eq_some found)
      ((by simpa using hp : d.messageId = mid).trans hdead.symm)
    rw [hsame, state] at hc
    cases hc
  | consume id op => exact .inr .consume
  | inject now auth ck audited m current addressed minted clean apart =>
    exact .inr (.inject (injectOne_spec env now auth ck audited m b) addressed minted)
  | reissue now auth m found addressed presented =>
    have hmint : Bookkeeping b b.mint := .mint
    have hto : Addressed b auth.sessionId m.messageId :=
      addressed ▸ inv.addressed_of_mem (List.mem_of_find?_eq_some found)
    rcases hiss : issue env now m.messageId auth.sessionId auth.epoch
      (.minted "redeliver-" b.nextId) (b.maxLogical m.messageId auth.epoch + 1) b.mint
      with ⟨_ | id, b''⟩
    · exact .inr (.bookkeeping (IsFrame.trans hmint (issue_none hiss).1))
    · obtain ⟨-, rfl, -, -⟩ := issue_some hiss
      refine .inr (.of_append (hmint.ids.trans (Nat.le_succ _)) rfl rfl (fun i hi => ?_)
        ⟨fun d => d, by simp [Broker.mint], fun _ _ => .rfl'⟩)
      obtain rfl := List.mem_singleton.mp hi
      refine ⟨hto, fun p n hck => ?_⟩
      obtain ⟨-, rfl⟩ := CheckpointId.minted.inj hck
      exact Nat.lt_succ_of_lt (Nat.lt_succ_self _)
  | post m h kind => exact .inl ⟨m, h, fun _ => kind⟩
  | answer m h _ => exact .inl ⟨m, h, fun hk => absurd rfl hk⟩
  | create input absent =>
    obtain ⟨as, es, n, hb', hn⟩ := createSession_eq b env input
    rw [hb']
    exact .inr (.of_eq hn rfl rfl rfl)
  | dormant => exact .inr (.of_eq (Nat.le_refl _) rfl rfl rfl)
  | @advance _ now sid resume s found =>
    obtain ⟨is, as, es, n, hb', hn, his⟩ :=
      advanceEpoch_eq b env now sid (s.activeEpoch + 1) resume
    rw [hb']
    refine .inr (.of_append hn rfl rfl (fun i hi => ?_) ⟨_, rfl, fun d _ =>
      (requeued_grounded d).restated⟩)
    obtain ⟨hr, d, hd, hm, hto, -⟩ := his i hi
    obtain ⟨p, k, hck, -, hk⟩ := hr.minted
    refine ⟨⟨d, hd, hm, hto.trans hr.recipient.symm⟩, fun p' k' hck' => ?_⟩
    obtain ⟨-, rfl⟩ := CheckpointId.minted.inj (hck.symm.trans hck')
    exact hk
  | join now input =>
    rw [joinEpoch_eq]
    exact .inr (.of_injections (Nat.le_refl _) rfl rfl ⟨_, rfl, fun d _ =>
      (requeued_grounded d).restated⟩)
  | component => exact .inr (.of_eq (Nat.le_refl _) rfl rfl rfl)
  | redirect => exact .inr (.of_eq (Nat.le_refl _) rfl rfl rfl)
  | claim => exact .inr (.namesOnly .claim)
  | rename => exact .inr (.namesOnly .rename)
  | operatorRename => exact .inr (.namesOnly .operatorRename)
  | reclaim => exact .inr (.namesOnly (IsFrame.trans NamesOnly.forfeit .rename))
  | tombstone sid now =>
    obtain ⟨as, es, ds, hb', g, rfl, hg⟩ := tombstone_eq b sid now
    rw [hb']
    exact .inr (.of_injections (Nat.le_succ _) rfl rfl ⟨g, rfl, fun d _ => (hg d).restated⟩)
  | lapse => exact .inr (.namesOnly .lapse)
  | close => exact .inr (.of_eq (Nat.le_refl _) rfl rfl rfl)
  | remove sid now =>
    obtain ⟨g, hdel, hg⟩ := deleteSession_deliveries b sid now
    exact .inr (.of_injections (Nat.le_refl _) rfl rfl ⟨g, hdel, fun d _ => (hg d).1.restated⟩)
  | operator => exact .inr (ensureOperatorSession_mail env b)

/-- The moves that write injection rows. -/
def writesRows : Kind → Bool
  | .inject _ | .reissue | .consume | .advance => true
  | _ => false

theorem Move.sameRows (h : Move env k b b') (hk : writesRows k = false) :
    b'.injections = b.injections := by
  cases h with
  | note h => exact h.injections
  | restate | redrive | dormant | join | component | redirect | close | remove => rfl
  | inject | advance | consume | reissue => cases hk
  | post m h | answer m h => exact h.injections
  | create input absent =>
    obtain ⟨as, es, n, hb', -⟩ := createSession_eq b env input
    rw [hb']
  | claim => exact NamesOnly.claim.injections
  | rename => exact NamesOnly.rename.injections
  | operatorRename => exact NamesOnly.operatorRename.injections
  | reclaim => exact (IsFrame.trans NamesOnly.forfeit .rename : NamesOnly _ _).injections
  | tombstone sid now =>
    obtain ⟨as, es, ds, hb', -⟩ := tombstone_eq b sid now
    rw [hb']
  | lapse => exact NamesOnly.lapse.injections
  | operator =>
    unfold Broker.ensureOperatorSession
    split <;> rfl

theorem Moves.sameRows {kinds : List Kind} (h : Moves env kinds b b')
    (hk : ∀ k ∈ kinds, writesRows k = false) : b'.injections = b.injections := by
  refine h.keeps (P := fun u => u.injections = b.injections) rfl fun u u' k hmem hmove hu => ?_
  exact (Move.sameRows hmove (hk k hmem)).trans hu

/-- Ids are never taken back. -/
theorem Move.ids (h : Move env k b b') (inv : MailInv b) : b.nextId ≤ b'.nextId := by
  rcases Move.mail h inv with ⟨m, hposted, -⟩ | hframe
  · exact (hposted.fresh.trans_lt hposted.ids).le
  · exact hframe.ids

theorem Move.mailInv (h : Move env k b b') (inv : MailInv b) : MailInv b' := by
  rcases Move.mail h inv with ⟨m, hposted, -⟩ | hframe
  · exact hposted.keeps inv
  · exact hframe.keeps inv

theorem mailInv_initial : MailInv (initial env) :=
  (ensureOperatorSession_mail env {}).keeps
    ⟨rfl, List.nodup_nil, by simp, by simp, fun i hi => by cases hi⟩

/-- The mail invariant holds in every reachable state. -/
theorem mailInv_of_reachable {ok : Broker → Event → Prop} (h : Reachable env ok b) : MailInv b :=
  reachable_of_moves mailInv_initial (fun _ _ _ => Move.mailInv) h

/-- The delivery of the message is completed. -/
def Completed (b : Broker) (mid : Id) : Prop :=
  (b.delivery? mid).map (·.state) = some .completed

theorem completed_iff {mid : Id} :
    Completed b mid ↔ ∃ d, b.delivery? mid = some d ∧ d.state = .completed :=
  Option.map_eq_some_iff

/-- Completed once, completed for good. -/
theorem Move.completed (h : Move env k b b') (inv : MailInv b) {mid : Id}
    (hc : Completed b mid) : Completed b' mid := by
  obtain ⟨d, hd, hstate⟩ := completed_iff.mp hc
  have hmem : d ∈ b.deliveries := List.mem_of_find?_eq_some hd
  have hmid : d.messageId = mid := by simpa using List.find?_some hd
  have hmem' : d ∈ b'.deliveries := by
    rcases Move.mail h inv with ⟨m, hposted, -⟩ | hframe
    · obtain ⟨id, now, hdel⟩ := hposted.deliveries
      rw [hdel]
      exact List.mem_append_left _ hmem
    · obtain ⟨g, hdel, hg⟩ := hframe.deliveries
      rw [hdel]
      exact (hg d hmem).settled hstate ▸ List.mem_map_of_mem hmem
  exact completed_iff.mpr ⟨d, hmid ▸ (Move.mailInv h inv).delivery?_of_mem hmem', hstate⟩

/-- Whatever a sequence of moves starts from that is completed, stays so. -/
theorem Moves.completed {kinds : List Kind} (h : Moves env kinds b b') (inv : MailInv b) {mid : Id}
    (hc : Completed b mid) : Completed b' mid :=
  (h.keeps (P := fun b => MailInv b ∧ Completed b mid) ⟨inv, hc⟩ fun _ _ _ _ hmove hu =>
    ⟨Move.mailInv hmove hu.1, Move.completed hmove hu.1 hu.2⟩).2

theorem Moves.mailInv {kinds : List Kind} (h : Moves env kinds b b') (inv : MailInv b) :
    MailInv b' := h.keeps inv fun _ _ _ _ => Move.mailInv

end Proof
end XBus
