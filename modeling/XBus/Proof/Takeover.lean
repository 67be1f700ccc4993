import XBus.Proof.Authority

/-!
# Takeovers and the reply that is owed

A takeover advances the epoch of a session, and with it ends every authority its predecessor
had. A request the predecessor had accepted still owes its reply, so the takeover records one row
of it at the new epoch, good for the retention period. By that row, and no other, the successor
can answer: once, and without seeing the body again.

The row is the newest one of its epoch until the message is redelivered explicitly: from then on
the redelivery's, which lasts half an hour, is the one that is looked at. It also runs out by
itself, however active the session is. And a reply has to be numbered for the asker, which fails
if the asker's record was removed.
-/

set_option autoImplicit false

namespace XBus
namespace Proof

open Lib

variable {env : Env} {mom : Moment} {now : Iso} {auth : SessionAuthority} {mid : Id}
  {sid : SessionId} {b b' : Broker}

/-! ## The rows of a takeover -/

/-- An accepted delivery to the session, of a message that still owes a reply. -/
def OwesReply (b : Broker) (mid : Id) (sid : SessionId) : Prop :=
  b.requiresReply mid = true ∧
    ∃ d, b.delivery? mid = some d ∧ d.recipientSessionId = sid ∧ d.state = .accepted

theorem OwesReply.handled (h : OwesReply b mid sid) : Handled b mid := by
  obtain ⟨-, d, hd, -, hstate⟩ := h
  exact ⟨d, hd, .inl hstate⟩

/-- The only row of its message at its epoch. -/
structure Sole (b : Broker) (mid : Id) (i : Injection) : Prop where
  row : i ∈ rowsFor b mid
  only : ∀ j ∈ rowsFor b mid, j.recipientEpoch = i.recipientEpoch → j = i

theorem Sole.same {i : Injection} (h : Sole b mid i) (hrows : SameRowsFor mid b b') :
    Sole b' mid i := by
  rw [SameRowsFor] at hrows
  exact ⟨hrows ▸ h.row, fun j hj => h.only j (hrows ▸ hj)⟩

/-- Rows of other messages or other epochs are added. -/
theorem Sole.append {i : Injection} (h : Sole b mid i) {is : List Injection}
    (hrows : b'.injections = b.injections ++ is)
    (hother : ∀ j ∈ is, j.messageId = mid → j.recipientEpoch ≠ i.recipientEpoch) :
    Sole b' mid i := by
  constructor
  · obtain ⟨hi, him⟩ := mem_rowsFor.mp h.row
    exact mem_rowsFor.mpr ⟨hrows ▸ List.mem_append_left _ hi, him⟩
  · intro j hj hepoch
    obtain ⟨hj, hjm⟩ := mem_rowsFor.mp hj
    rw [hrows] at hj
    rcases List.mem_append.mp hj with hj | hj
    · exact h.only j (mem_rowsFor.mpr ⟨hj, hjm⟩) hepoch
    · exact absurd hepoch (hother j hj hjm)

/-- A row as the rehoming makes it. -/
structure IsRehomed (sid : SessionId) (epoch : Nat) (now : Iso) (i : Injection) : Prop where
  recipient : i.recipientSessionId = sid
  epoch : i.recipientEpoch = epoch
  expires : i.expiresAt = now.plus retentionMs
  unused : i.consumedOp = none

/-- Where no row of the epoch is there yet, each message gets one. -/
theorem rehomeAll_rows {epoch : Nat} (mids : List Id) (b : Broker) (hnd : mids.Nodup)
    (free : ∀ i ∈ b.injections, i.recipientEpoch = epoch → i.messageId ∉ mids) :
    ∃ is, (mids.foldl (fun b mid => b.rehomeOne sid epoch now mid) b).injections =
        b.injections ++ is ∧ is.map (·.messageId) = mids ∧
      ∀ i ∈ is, IsRehomed sid epoch now i := by
  induction mids generalizing b with
  | nil => exact ⟨[], by simp, rfl, by simp⟩
  | cons mid mids ih =>
    obtain ⟨hnew, hnd⟩ := List.nodup_cons.mp hnd
    -- No row of the new epoch stands in the way of the first.
    have hfirst : (b.injections.any fun i => i.messageId = mid ∧ i.recipientEpoch = epoch ∧
        i.logicalInjectionNumber = 1) = false := by
      refine Bool.eq_false_iff.mpr fun hany => ?_
      obtain ⟨i, hi, hrow⟩ := List.any_eq_true.mp hany
      obtain ⟨him, hepoch, -⟩ := of_decide_eq_true hrow
      exact free i hi hepoch (him ▸ List.mem_cons_self)
    obtain ⟨row, hrow, hmid, hrehomed⟩ : ∃ row,
        (b.rehomeOne sid epoch now mid).injections = b.injections ++ [row] ∧
          row.messageId = mid ∧ IsRehomed sid epoch now row := by
      unfold Broker.rehomeOne
      rw [hfirst]
      exact ⟨_, rfl, rfl, rfl, rfl, rfl, rfl⟩
    obtain ⟨is, his, hmids, hall⟩ := ih (b.rehomeOne sid epoch now mid) hnd fun i hi hepoch => by
      rw [hrow] at hi
      rcases List.mem_append.mp hi with hi | hi
      · exact fun hmem => free i hi hepoch (List.mem_cons_of_mem _ hmem)
      · rw [List.mem_singleton.mp hi, hmid]
        exact hnew
    refine ⟨row :: is, ?_, by rw [List.map_cons, hmid, hmids], fun i hi => ?_⟩
    · rw [List.foldl_cons, his, hrow, List.append_assoc]
      rfl
    · rcases List.mem_cons.mp hi with rfl | hi
      · exact hrehomed
      · exact hall i hi

/-- A registration that supersedes a session which is not expired, explicitly or by a reclaim. -/
structure Takeover (env : Env) (mom : Moment) (raw : RegisterInput) (b : Broker)
    (a : SessionAuthority) (b' : Broker) (s : Session) : Prop where
  answered : register env mom raw b = (.ok a, b')
  found : b.session? a.sessionId = some s
  alive : s.expiredAt = none
  advanced : a.epoch = s.activeEpoch + 1

theorem Entered.of_advanced {input : RegisterInput} {epoch : Nat} {s : Session}
    (h : Entered env now input b epoch b') (found : b.session? input.sessionId = some s)
    (hadv : epoch = s.activeEpoch + 1) :
    b' = b.advanceEpoch env now input.sessionId (s.activeEpoch + 1) s.expiredAt.isSome := by
  cases h with
  | created absent => rw [absent] at found; cases found
  | advanced found' =>
    obtain rfl := Option.some.inj (found'.symm.trans found)
    rfl
  | joined found' =>
    obtain rfl := Option.some.inj (found'.symm.trans found)
    exact absurd hadv (Nat.ne_of_lt (Nat.lt_succ_self _))

/-- Seating a component and settling a name leave the mail alone. -/
theorem Moves.seats_mail (h : Moves env [.note, .component, .claim] b b') :
    b'.messages = b.messages ∧ b'.deliveries = b.deliveries ∧ b'.injections = b.injections := by
  refine h.keeps (P := fun u => u.messages = b.messages ∧ u.deliveries = b.deliveries ∧
    u.injections = b.injections) ⟨rfl, rfl, rfl⟩ ?_
  rintro u u' k hk hmove ⟨hm, hd, hi⟩
  cases hmove with
  | note h => exact ⟨h.messages.trans hm, h.deliveries.trans hd, h.injections.trans hi⟩
  | component => exact ⟨hm, hd, hi⟩
  | claim =>
    exact ⟨NamesOnly.claim.messages.trans hm, NamesOnly.claim.deliveries.trans hd,
      NamesOnly.claim.injections.trans hi⟩
  | _ => simp at hk

section Takeover

variable {raw : RegisterInput} {a : SessionAuthority} {s : Session}

/-- What a takeover does to the mail. -/
structure MailTakenOver (now : Iso) (sid : SessionId) (epoch : Nat) (b b' : Broker) : Prop where
  messages : b'.messages = b.messages
  deliveries : b'.deliveries = b.deliveries.map (requeued sid now fun _ => true)
  injections : ∃ es, b'.injections = ((Broker.begun { b.mint with physicalMap := es } now sid
    epoch).rehomeAcceptedReplyAuthority sid epoch now).injections

theorem Takeover.mail (h : Takeover env mom raw b a b' s) :
    MailTakenOver mom.now a.sessionId a.epoch b b' := by
  obtain ⟨reclaim, input, b₁, b₂, hreg⟩ := register_ok h.answered
  obtain ⟨es, rfl⟩ := hreg.before_eq
  have hb₂ := hreg.entered.of_advanced (hreg.sessionId ▸ h.found) h.advanced
  obtain ⟨hmsgs, hdel, hinj⟩ := hreg.seats.seats_mail
  obtain ⟨as, es', n, hbegun, -⟩ := advanceEpoch_begun { b.mint with physicalMap := es } env mom.now
    input.sessionId (s.activeEpoch + 1) s.expiredAt.isSome
  obtain ⟨is, as₂, es₂, n₂, hadv, -⟩ := advanceEpoch_eq { b.mint with physicalMap := es } env
    mom.now input.sessionId (s.activeEpoch + 1) s.expiredAt.isSome
  rw [← hb₂] at hbegun hadv
  rw [hreg.sessionId, h.advanced]
  exact ⟨by rw [hmsgs, hadv]; rfl, by rw [hdel, hadv]; rfl, es, by rw [hinj, hbegun]⟩

theorem requeued_of_accepted {d : Delivery} (h : d.state = .accepted) :
    requeued sid now (fun _ => true) d = d := by
  simp [requeued, h]

/-- What is owed stays owed. -/
theorem MailTakenOver.owesReply {epoch : Nat} (h : MailTakenOver now sid epoch b b')
    (howes : OwesReply b mid sid) : OwesReply b' mid sid := by
  obtain ⟨hreply, d, hd, hto, hstate⟩ := howes
  refine ⟨?_, d, ?_, hto, hstate⟩
  · rwa [Broker.requiresReply, Broker.message?, h.messages]
  · have hkey (x : Delivery) : (requeued sid now (fun _ => true) x).messageId = x.messageId :=
      (requeued_grounded x).messageId
    rw [Broker.delivery?, h.deliveries, List.find?_map]
    simp only [Function.comp_def, hkey]
    rw [show b.deliveries.find? _ = some d from hd, Option.map_some, requeued_of_accepted hstate]

/-- What is owed gets its row. -/
theorem MailTakenOver.sole {epoch : Nat} (h : MailTakenOver now sid epoch b b') (inv : RowInv b)
    (current : b.epochOf sid = some s.activeEpoch) (hadv : epoch = s.activeEpoch + 1)
    (howes : OwesReply b mid sid) : ∃ i, Sole b' mid i ∧ IsRehomed sid epoch now i := by
  obtain ⟨es, hrows⟩ := h.injections
  obtain ⟨hreply, d, hd, hto, hstate⟩ := howes
  have hdm : d.messageId = mid := by simpa using List.find?_some hd
  have hmem : d ∈ b.deliveries := List.mem_of_find?_eq_some hd
  set begun := Broker.begun { b.mint with physicalMap := es } now sid epoch with hbegun
  have hpairs : begun.deliveries.map (·.messageId) = b.deliveries.map (·.messageId) := by
    show (b.deliveries.map (requeued sid now fun _ => true)).map (·.messageId) = _
    rw [List.map_map]
    exact List.map_congr_left fun x _ => (requeued_grounded x).messageId
  have hnd : (begun.acceptedOwingReply sid).Nodup := by
    have hsub : (begun.acceptedOwingReply sid).Sublist (begun.deliveries.map (·.messageId)) :=
      List.Sublist.map _ List.filter_sublist
    exact hsub.nodup (hpairs ▸ inv.mail.deliveryIds)
  have hmid : mid ∈ begun.acceptedOwingReply sid := by
    refine List.mem_map.mpr ⟨d, List.mem_filter.mpr ⟨?_, ?_⟩, hdm⟩
    · exact List.mem_map.mpr ⟨d, hmem, requeued_of_accepted hstate⟩
    · simp only [decide_eq_true_eq]
      exact ⟨hto, hstate, hdm ▸ hreply⟩
  -- A message that gets a row is addressed to the session, which has none of the new epoch.
  have hold {i : Injection} (hi : i ∈ b.injections) {x : Delivery} (hx : x ∈ b.deliveries)
      (hxm : x.messageId = i.messageId) (hxto : x.recipientSessionId = sid) :
      i.recipientEpoch ≠ epoch := by
    have hsid : i.recipientSessionId = sid :=
      inv.mail.addressed_unique (inv.mail.rows i hi) ⟨x, hx, hxm, hxto⟩
    have := inv.epochs i hi s.activeEpoch (hsid ▸ current)
    omega
  have hfree : ∀ i ∈ begun.injections, i.recipientEpoch = epoch →
      i.messageId ∉ begun.acceptedOwingReply sid := by
    intro i hi hepoch hacc
    obtain ⟨x', hx', hxm⟩ := List.mem_map.mp hacc
    obtain ⟨hx', hxstate⟩ := List.mem_filter.mp hx'
    simp only [decide_eq_true_eq] at hxstate
    obtain ⟨x, hx, rfl⟩ := List.mem_map.mp hx'
    have hg : Grounded x (requeued sid now (fun _ => true) x) := requeued_grounded x
    exact hold hi hx (hg.messageId.symm.trans hxm) (hg.recipient.symm.trans hxstate.1) hepoch
  obtain ⟨is, his, hmids, hall⟩ : ∃ is,
      (begun.rehomeAcceptedReplyAuthority sid epoch now).injections = begun.injections ++ is ∧
        is.map (·.messageId) = begun.acceptedOwingReply sid ∧
        ∀ i ∈ is, IsRehomed sid epoch now i := rehomeAll_rows _ begun hnd hfree
  have hrows : b'.injections = b.injections ++ is := hrows.trans his
  obtain ⟨i, hi, him⟩ := List.mem_map.mp (hmids ▸ hmid)
  refine ⟨i, ⟨mem_rowsFor.mpr ⟨hrows ▸ List.mem_append_right _ hi, him⟩, fun j hj hepoch => ?_⟩,
    hall i hi⟩
  obtain ⟨hj, hjm⟩ := mem_rowsFor.mp hj
  rw [hrows] at hj
  rcases List.mem_append.mp hj with hj | hj
  · exact absurd (hepoch.trans (hall i hi).epoch)
      (hold hj hmem (hdm.trans hjm.symm) hto)
  · exact eq_of_key_eq (hmids ▸ hnd) hj hi (hjm.trans him.symm)

end Takeover

/-! ## While the reply is owed -/

/-- Every registration adds only rows of the new epoch of the session it takes over, for what was
    accepted by it. -/
theorem register_adds {raw : RegisterInput} {a : SessionAuthority}
    (h : register env mom raw b = (.ok a, b')) : ∃ is, b'.injections = b.injections ++ is ∧
      ∀ i ∈ is, ∃ s, b.session? a.sessionId = some s ∧ i.recipientEpoch = s.activeEpoch + 1 ∧
        ∃ d ∈ b.deliveries, d.messageId = i.messageId ∧ d.recipientSessionId = a.sessionId ∧
          d.state = .accepted := by
  obtain ⟨reclaim, input, b₁, b₂, hreg⟩ := register_ok h
  obtain ⟨es, rfl⟩ := hreg.before_eq
  obtain ⟨-, -, hinj⟩ := hreg.seats.seats_mail
  have hentered : ∃ is, b₂.injections = b.injections ++ is ∧
      ∀ i ∈ is, ∃ s, b.session? input.sessionId = some s ∧ i.recipientEpoch = s.activeEpoch + 1 ∧
        ∃ d ∈ b.deliveries, d.messageId = i.messageId ∧ d.recipientSessionId = input.sessionId ∧
          d.state = .accepted := by
    have hentered := hreg.entered
    generalize a.epoch = epoch at hentered
    cases hentered with
    | created absent =>
      obtain ⟨as, es', n, hb₂, -⟩ := createSession_eq { b.mint with physicalMap := es } env input
      exact ⟨[], by rw [hb₂]; exact (List.append_nil _).symm, by simp⟩
    | @advanced s found =>
      obtain ⟨is, as, es', n, hb₂, -, his⟩ := advanceEpoch_eq { b.mint with physicalMap := es } env
        mom.now input.sessionId (s.activeEpoch + 1) s.expiredAt.isSome
      refine ⟨is, by rw [hb₂]; rfl, fun i hi => ?_⟩
      obtain ⟨hr, hd⟩ := his i hi
      exact ⟨s, found, hr.epoch, hd⟩
    | joined => exact ⟨[], by rw [joinEpoch_eq]; exact (List.append_nil _).symm, by simp⟩
  obtain ⟨is, his, hall⟩ := hentered
  rw [hreg.sessionId]
  exact ⟨is, hinj.trans his, hall⟩

/-- No registration adds a row of an epoch that is there already. -/
theorem register_sole {raw : RegisterInput} {i : Injection} (inv : RowInv b) (h : Sole b mid i) :
    Sole (register env mom raw b).2 mid i := by
  rcases hr : register env mom raw b with ⟨f | a, b'⟩
  · obtain rfl : b = b' := register_refuses b f b' hr
    exact h
  · obtain ⟨is, his, hall⟩ := register_adds hr
    refine h.append his fun j hj hjm hepoch => ?_
    obtain ⟨s, hs, hjepoch, d, hd, hdm, hdto, -⟩ := hall j hj
    obtain ⟨hi, him⟩ := mem_rowsFor.mp h.row
    have hto : i.recipientSessionId = a.sessionId := inv.mail.addressed_unique (inv.mail.rows i hi)
      ⟨d, hd, hdm.trans (hjm.trans him.symm), hdto⟩
    have hcurrent : b.epochOf i.recipientSessionId = some s.activeEpoch := by
      rw [hto, Broker.epochOf, hs]
      rfl
    have := inv.epochs i hi s.activeEpoch hcurrent
    omega

/-- A step taken while the reply is owed: it makes no session with rows anew, and does not
    redeliver the message. -/
def Held (env : Env) (mid : Id) (sid : SessionId) (b : Broker) (e : Event) : Prop :=
  OwesReply b mid sid ∧ NotRecreated env b e ∧ ∀ auth, e.1 ≠ .redeliver auth mid

theorem not_owed_of_completed (h : Completed b mid) : ¬ OwesReply b mid sid := by
  rintro ⟨-, d, hd, -, hstate⟩
  rw [Completed, hd, Option.map_some, Option.some.injEq, hstate] at h
  cases h

/-- A reply to what is accepted completes it, or changes nothing but the audit trail. -/
theorem reply_completes (inv : RowInv b) {input : ReplyInput}
    (howes : OwesReply b input.messageId sid) :
    AuditTrail b (reply env now auth input b).2 ∨
      Completed (reply env now auth input b).2 input.messageId := by
  rcases hr : reply env now auth input b with ⟨f | r, b'⟩
  · exact .inl (reply_refuses_auditTrail b f b' hr)
  · obtain ⟨-, orig, horig, -, ⟨dup, -, -, -, rfl⟩ | hreplied⟩ := reply_ok hr
    · exact .inl (IsFrame.refl _)
    · obtain ⟨-, d, hd, -, hstate⟩ := howes
      obtain ⟨d₂, hd₂, hd'⟩ := hreplied.delivery inv.mail horig
      obtain rfl := Option.some.inj (hd.symm.trans hd₂)
      have hdm : d.messageId = input.messageId := by simpa using List.find?_some hd
      refine .inr ?_
      show (b'.delivery? input.messageId).map (·.state) = some .completed
      rw [hd', Option.map_some, (answered_state_completed hdm).mpr (.inl hstate)]

theorem held_step (hreq : env.requireReceipt = true) {i : Injection} {e : Event} (inv : RowInv b)
    (hsole : Sole b mid i) (hheld : Held env mid sid b e)
    (howes : OwesReply (step env b e).2 mid sid) : Sole (step env b e).2 mid i := by
  obtain ⟨howed, -, hredeliver⟩ := hheld
  by_cases hreg : ∃ raw, e.1 = .register raw
  · obtain ⟨raw, hraw⟩ := hreg
    have hstep : (step env b e).2 = (register env e.2 raw b).2 := by
      rw [step, hraw]
      exact Call.map_snd
    rw [hstep]
    exact register_sole inv hsole
  by_cases hrep : ∃ auth input, e.1 = .reply auth input ∧ input.messageId = mid
  · obtain ⟨auth, input, hraw, rfl⟩ := hrep
    have hstep : (step env b e).2 = (reply env e.2.now auth input b).2 := by
      rw [step, hraw]
      exact Call.map_snd
    rw [hstep] at howes ⊢
    rcases reply_completes inv howed with htrail | hdone
    · exact hsole.same htrail.rowsFor
    · exact absurd howes (not_owed_of_completed hdone)
  refine hsole.same (step_rowsFor hreq inv howed.handled hredeliver ?_ fun raw h => hreg ⟨raw, h⟩)
  exact fun auth input h heq => hrep ⟨auth, input, h, heq⟩

/-- As long as the reply is owed, its row stands. -/
theorem held_run (hreq : env.requireReceipt = true) {i : Injection} {u : Broker}
    {log : List (Event × Except Failure Response)} (inv : RowInv b) (hsole : Sole b mid i)
    (run : Run (step env) (Held env mid sid) b log u) :
    RowInv u ∧ (OwesReply u mid sid → Sole u mid i) := by
  refine run.invariant (P := fun u => RowInv u ∧ (OwesReply u mid sid → Sole u mid i))
    ⟨inv, fun _ => hsole⟩ fun u e hu hheld => ?_
  exact ⟨hu.1.step hheld.2.1, held_step hreq hu.1 (hu.2 hheld.1) hheld⟩

/-! ## The reply -/

/-- The row authorises the reply of its own session at its own epoch. -/
theorem Sole.authorizes {i : Injection} (h : Sole b mid i) (ids : InjectionIds b)
    (hto : i.recipientSessionId = sid) (hunused : i.consumedOp ≠ some .reply)
    (hlive : i.expiresAt.le now = false) {given : Option Id}
    (hgiven : given = none ∨ given = some i.injectionId) :
    authorize now .reply mid sid i.recipientEpoch given b = .ok i := by
  obtain ⟨hi, him⟩ := mem_rowsFor.mp h.row
  have hfound : b.authorizingInjection mid sid i.recipientEpoch given = some i := by
    rcases hgiven with rfl | rfl
    · -- Every row the query selects is this one.
      set rows := (b.injections.filter fun x => x.messageId = mid ∧ x.recipientSessionId = sid ∧
        x.recipientEpoch = i.recipientEpoch).insertionSort fun x y => y.injectedAt.le x.injectedAt
        with hrows
      have hall : ∀ x ∈ rows, x = i := by
        intro x hx
        rw [hrows, List.mem_insertionSort] at hx
        obtain ⟨hx, hsel⟩ := List.mem_filter.mp hx
        obtain ⟨hxm, -, hepoch⟩ := of_decide_eq_true hsel
        exact h.only x (mem_rowsFor.mpr ⟨hx, hxm⟩) hepoch
      have hmem : i ∈ rows := by
        rw [hrows, List.mem_insertionSort]
        exact List.mem_filter.mpr ⟨hi, by simp [him, hto]⟩
      show rows.head? = some i
      cases hhead : rows with
      | nil => rw [hhead] at hmem; cases hmem
      | cons x xs => rw [List.head?_cons, hall x (hhead ▸ List.mem_cons_self)]
    · exact find?_key_of_mem ids.unique hi
  simp [authorize, hfound, him, hto, hlive, hunused]

/-- Who may reply, how, and when: an mcp component of the session at the epoch of the row, while
    the row is good, to an asker who is there and whose numbers are free. The key, if there is one,
    is new. -/
structure MayReply (b : Broker) (now : Iso) (auth : SessionAuthority) (input : ReplyInput)
    (i : Injection) : Prop where
  role : auth.role = .mcp
  session : auth.sessionId = i.recipientSessionId
  epoch : auth.epoch = i.recipientEpoch
  current : b.epochOf auth.sessionId = some auth.epoch
  message : input.messageId = i.messageId
  named : input.injectionId = none ∨ input.injectionId = some i.injectionId
  live : i.expiresAt.le now = false
  newKey : input.idempotencyKey = none ∨ ∀ x ∈ b.messages,
    ¬ (x.senderSessionId = auth.sessionId ∧ x.idempotencyKey = input.idempotencyKey)
  asker : ∀ m, b.message? input.messageId = some m → (b.session? m.senderSessionId).isSome ∧
    b.isExpired m.senderSessionId = false ∧ ∀ x ∈ b.messages,
      ¬ (x.recipientSessionId = m.senderSessionId ∧
        x.recipientSequence = b.nextSequence m.senderSessionId)

theorem MayReply.fresh {input : ReplyInput} {i : Injection} (h : MayReply b now auth input i) :
    b.duplicateOf auth.sessionId input.idempotencyKey = none := by
  unfold Broker.duplicateOf
  split
  · rfl
  · rename_i key hkey
    split
    · rfl
    · refine List.find?_eq_none.mpr fun x hx hdup => ?_
      rcases h.newKey with hnone | hnew
      · rw [hnone] at hkey
        cases hkey
      · exact hnew x hx (by simpa [hkey] using hdup)

/-- Such a reply goes through. -/
theorem MayReply.goes_through {input : ReplyInput} {i : Injection} (h : MayReply b now auth input i)
    (hreq : env.requireReceipt = true) (inv : RowInv b) (hsole : Sole b input.messageId i)
    (hunused : i.consumedOp ≠ some .reply) :
    ∃ r b', reply env now auth input b = (.ok r, b') ∧ r.deduplicated = false := by
  obtain ⟨hi, him⟩ := mem_rowsFor.mp hsole.row
  obtain ⟨d, hd, hdm, hdto⟩ := inv.mail.rows i hi
  have hpair : Delivery.pair d ∈ b.messages.map Message.pair := by
    rw [← inv.mail.pairs]
    exact List.mem_map_of_mem hd
  obtain ⟨orig, horig, horigpair⟩ := List.mem_map.mp hpair
  have hid : orig.messageId = input.messageId :=
    (congrArg Prod.fst horigpair).trans (hdm.trans him)
  have hto : orig.recipientSessionId = auth.sessionId :=
    (congrArg Prod.snd horigpair).trans (hdto.trans h.session.symm)
  have hfound : b.message? input.messageId = some orig := by
    rw [← hid]
    exact find?_key_of_mem inv.mail.unique horig
  obtain ⟨hasker, hawake, hfree⟩ := h.asker orig hfound
  have hauth : authorize now .reply input.messageId auth.sessionId auth.epoch input.injectionId b =
      .ok i := by
    rw [h.epoch]
    exact hsole.authorizes inv.ids h.session.symm hunused h.live h.named
  -- The two statements that can fail find the asker's row, a free number and a new key.
  have halloc : allocSequence orig.senderSessionId b.mint =
      (.ok (b.nextSequence orig.senderSessionId), { b.mint with
        recipientSequences := insertOrReplace (·.recipientSessionId)
          { recipientSessionId := orig.senderSessionId
            nextSequence := b.nextSequence orig.senderSessionId + 1 } b.recipientSequences }) := by
    simp only [allocSequence, Call.get_bind]
    exact Call.bind_of_ok (a := ()) (Call.require_ok.mpr ⟨hasker, rfl⟩)
  have hinsert (row : Message) (u : Broker) (hu : u.messages = b.messages)
      (hnum : row.recipientSessionId = orig.senderSessionId ∧
        row.recipientSequence = b.nextSequence orig.senderSessionId)
      (hkey : row.senderSessionId = auth.sessionId ∧ row.idempotencyKey = input.idempotencyKey) :
      insertMessage row u = (.ok (), { u with messages := u.messages ++ [row] }) := by
    have hfree' : ¬ u.messages.any fun x => x.recipientSessionId = row.recipientSessionId ∧
        x.recipientSequence = row.recipientSequence := by
      rw [List.any_eq_true]
      rintro ⟨x, hx, hclash⟩
      rw [hnum.1, hnum.2] at hclash
      exact hfree x (hu ▸ hx) (of_decide_eq_true hclash)
    have hkey' : row.idempotencyKey = none ∨ ¬ u.messages.any fun x =>
        x.senderSessionId = row.senderSessionId ∧ x.idempotencyKey = row.idempotencyKey := by
      rw [hkey.1, hkey.2]
      refine h.newKey.imp id fun hnew => ?_
      rw [List.any_eq_true]
      rintro ⟨x, hx, hclash⟩
      exact hnew x (hu ▸ hx) (of_decide_eq_true hclash)
    simp only [insertMessage, Call.get_bind]
    rw [Call.bind_of_ok (a := ()) (Call.require_ok.mpr ⟨hfree', rfl⟩),
      Call.bind_of_ok (a := ()) (Call.require_ok.mpr ⟨hkey', rfl⟩)]
    rfl
  simp only [reply, replyTransaction, assertAllowed, Call.bind_ok, Call.require_ok,
    assertCurrentEpoch_ok,
    Call.transaction_ok, Call.get_bind, Call.orThrow_ok]
  apply Exists.intro
  apply Exists.intro
  refine ⟨⟨(), b, ⟨by rw [h.role]; rfl, rfl⟩, (), b, ⟨h.current, rfl⟩, orig, b, ⟨hfound, rfl⟩, (),
    b, ⟨hto, rfl⟩, ?_⟩, ?_⟩
  · simp only [h.fresh, Call.bind_ok, authorizeIfRequired_ok, Call.requireElse_ok,
      Call.modify_bind, Call.pure_ok, if_pos hreq]
    exact ⟨some i.injectionId, b, ⟨rfl, i, hauth, rfl⟩, (), b, ⟨hawake, rfl⟩, _, _, halloc, (), _,
      hinsert _ _ rfl ⟨rfl, rfl⟩ ⟨rfl, rfl⟩, rfl, rfl⟩
  · rfl

/-! ## Once it is answered -/

/-- The message is completed, and its rows from the epoch of the reply on are used up. -/
structure RepliedAt (b : Broker) (mid : Id) (sid : SessionId) (epoch : Nat) : Prop where
  completed : Completed b mid
  row : ∃ j ∈ rowsFor b mid, j.recipientSessionId = sid ∧ j.recipientEpoch = epoch
  used : ∀ j ∈ rowsFor b mid, epoch ≤ j.recipientEpoch → j.consumedOp = some .reply

/-- A further reply is refused, or answered from its key without effect. -/
def NotAgain (env : Env) (b : Broker) (mid : Id) : Prop :=
  ∀ now auth (input : ReplyInput), input.messageId = mid →
    (∃ f b', reply env now auth input b = (.error f, b') ∧ AuditTrail b b') ∨
      ∃ r, reply env now auth input b = (.ok r, b) ∧ r.deduplicated = true

/-- A step that does not redeliver the message, nor makes a session with rows anew. -/
def Unredelivered (env : Env) (mid : Id) (b : Broker) (e : Event) : Prop :=
  NotRecreated env b e ∧ ∀ auth, e.1 ≠ .redeliver auth mid

theorem authorize_unused {op : ReceiptOp} {epoch : Nat} {given : Option Id} {i : Injection}
    (h : authorize now op mid sid epoch given b = .ok i) : i.consumedOp ≠ some op := by
  unfold authorize at h
  cases hrow : b.authorizingInjection mid sid epoch given with
  | none => simp [hrow] at h
  | some row =>
    simp only [hrow] at h
    split_ifs at h with _ _ _ _ hused
    obtain rfl := Except.ok.inj h
    exact hused

section Once

variable {epoch : Nat}

theorem RepliedAt.notAgain (hreq : env.requireReceipt = true) (inv : RowInv b)
    (h : RepliedAt b mid sid epoch) : NotAgain env b mid := by
  rintro now auth input rfl
  rcases hr : reply env now auth input b with ⟨f | r, b'⟩
  · exact .inl ⟨f, b', rfl, reply_refuses_auditTrail b f b' hr⟩
  · obtain ⟨hcurrent, orig, -, -, ⟨dup, -, -, hflag, rfl⟩ | hreplied⟩ := reply_ok hr
    · exact .inr ⟨r, rfl, hflag⟩
    · -- Its row would be of the current epoch, which is not before the one of the reply.
      obtain ⟨i, hauth, -⟩ := hreplied.authorised hreq
      obtain ⟨hi, him, hto, hepoch⟩ := authorize_row hauth
      obtain ⟨j, hj, hjto, hjepoch⟩ := h.row
      obtain ⟨hj, hjm⟩ := mem_rowsFor.mp hj
      have hsid : j.recipientSessionId = auth.sessionId :=
        (inv.mail.addressed_unique (hjm ▸ inv.mail.rows j hj) (him ▸ inv.mail.rows i hi)).trans hto
      have hle := inv.epochs j hj auth.epoch (hsid ▸ hcurrent)
      rw [hjepoch, ← hepoch] at hle
      exact absurd (h.used i (mem_rowsFor.mpr ⟨hi, him⟩) hle) (authorize_unused hauth)

theorem RepliedAt.same (h : RepliedAt b mid sid epoch) (hdone : Completed b' mid)
    (hrows : SameRowsFor mid b b') : RepliedAt b' mid sid epoch := by
  rw [SameRowsFor] at hrows
  exact ⟨hdone, hrows ▸ h.row, hrows ▸ h.used⟩

/-- What is completed is not rehomed. -/
theorem register_rowsFor {raw : RegisterInput} (mail : MailInv b) (hdone : Completed b mid) :
    SameRowsFor mid b (register env mom raw b).2 := by
  rcases hr : register env mom raw b with ⟨f | a, b'⟩
  · obtain rfl : b = b' := register_refuses b f b' hr
    exact IsFrame.refl _
  · obtain ⟨is, his, hall⟩ := register_adds hr
    refine .append his fun j hj hjm => ?_
    obtain ⟨-, -, -, d, hd, hdm, -, hstate⟩ := hall j hj
    obtain ⟨x, hx, hxstate⟩ := completed_iff.mp hdone
    have hxm : x.messageId = mid := by simpa using List.find?_some hx
    obtain rfl := mail.delivery_eq hd (List.mem_of_find?_eq_some hx)
      (hdm.trans (hjm.trans hxm.symm))
    rw [hstate] at hxstate
    cases hxstate

theorem RepliedAt.step (hreq : env.requireReceipt = true) (inv : RowInv b)
    (h : RepliedAt b mid sid epoch) {e : Event} (hok : Unredelivered env mid b e) :
    RepliedAt (step env b e).2 mid sid epoch := by
  have hdone : Completed (XBus.step env b e).2 mid :=
    (exec_moves env e.2 e.1 b false (by simp)).completed inv.mail h.completed
  refine h.same hdone ?_
  by_cases hreg : ∃ raw, e.1 = .register raw
  · obtain ⟨raw, hraw⟩ := hreg
    have hstep : (XBus.step env b e).2 = (register env e.2 raw b).2 := by
      rw [XBus.step, hraw]
      exact Call.map_snd
    rw [hstep]
    exact register_rowsFor inv.mail h.completed
  by_cases hrep : ∃ auth input, e.1 = .reply auth input ∧ input.messageId = mid
  · obtain ⟨auth, input, hraw, hmid⟩ := hrep
    have hstep : (XBus.step env b e).2 = (reply env e.2.now auth input b).2 := by
      rw [XBus.step, hraw]
      exact Call.map_snd
    rw [hstep]
    rcases h.notAgain hreq inv e.2.now auth input hmid with ⟨f, b', hr, htrail⟩ | ⟨r, hr, -⟩
    · rw [hr]
      exact htrail.rowsFor
    · rw [hr]
      exact IsFrame.refl _
  have hhandled : Handled b mid := by
    obtain ⟨d, hd, hstate⟩ := completed_iff.mp h.completed
    exact ⟨d, hd, .inr hstate⟩
  refine step_rowsFor hreq inv hhandled hok.2 ?_ fun raw hraw => hreg ⟨raw, hraw⟩
  exact fun auth input hraw hmid => hrep ⟨auth, input, hraw, hmid⟩

/-- The reply that used the row is the only one. -/
theorem repliedAt_of_sole (hreq : env.requireReceipt = true) (inv : RowInv b) {input : ReplyInput}
    {i : Injection} (hsole : Sole b input.messageId i) (hmay : MayReply b now auth input i)
    {orig : Message} {r : SendResult} (hreplied : Replied env now auth input orig b b' r)
    (hdone : Completed b' input.messageId) :
    RepliedAt b' input.messageId auth.sessionId auth.epoch := by
  obtain ⟨j, hauth, hrows⟩ := hreplied.authorised hreq
  obtain ⟨hj, hjm, hjto, hjepoch⟩ := authorize_row hauth
  have hmem (x : Injection) : x ∈ rowsFor b' input.messageId ↔
      x ∈ (b.consume j.injectionId .reply).injections ∧ x.messageId = input.messageId := by
    rw [mem_rowsFor, hrows]
  refine ⟨hdone, ⟨{ j with consumedOp := some .reply }, (hmem _).mpr ⟨?_, hjm⟩, hjto, hjepoch⟩,
    fun x hx hle => ?_⟩
  · exact mem_updateWhere.mpr ⟨j, hj, by simp⟩
  · obtain ⟨hx, hxm⟩ := (hmem x).mp hx
    obtain ⟨y, hy, rfl⟩ := mem_updateWhere.mp hx
    by_cases hid : y.injectionId = j.injectionId
    · simp [hid]
    · -- Another row of the message would be of a later epoch than the current one.
      simp only [hid, decide_false, Bool.false_eq_true, if_false] at hxm hle ⊢
      have hyto : y.recipientSessionId = auth.sessionId :=
        (inv.mail.addressed_unique (hxm ▸ inv.mail.rows y hy)
          (hjm ▸ inv.mail.rows j hj)).trans hjto
      have hcurrent := inv.epochs y hy auth.epoch (hyto ▸ hmay.current)
      have hsame (z : Injection) (hz : z ∈ b.injections) (hzm : z.messageId = input.messageId)
          (hzepoch : z.recipientEpoch = auth.epoch) : z = i :=
        hsole.only z (mem_rowsFor.mpr ⟨hz, hzm⟩) (hzepoch.trans hmay.epoch)
      have hyi := hsame y hy hxm (Nat.le_antisymm hcurrent hle)
      have hji := hsame j hj hjm hjepoch
      exact absurd (hyi.trans hji.symm ▸ rfl) hid

end Once

/-! ## Nobody else, and no body -/

/-- No pull returns the body of what has been handled. -/
theorem Handled.unseen (mail : MailInv b) (h : Handled b mid) {op : Op} {r : Response}
    (hr : exec env mom op b = (.ok r, b')) : ∀ p ∈ presentedBy op (.ok r), p.messageId ≠ mid := by
  have hmoves := exec_moves env mom op b false (by simp)
  rw [hr] at hmoves
  have hpull (hk : kindsOf false op = [.note, .inject false]) :
      ∀ p ∈ presentedBy op (.ok r), p.messageId ≠ mid := by
    have hsame := Moves.pull_rowsFor (hk ▸ hmoves) mail h
    have hnew := exec_presents mail (hmoves.mailInv mail) hr
    generalize presentedBy op (.ok r) = ps at hnew
    cases hnew with
    | none => simp
    | @bodies auth ms hans =>
      -- A body that is returned leaves a row that was not there.
      rintro p hp rfl
      obtain ⟨m, hm, rfl⟩ := List.mem_map.mp hp
      have hmid : m.messageId ∈ ms.map (·.messageId) := List.mem_map_of_mem hm
      obtain ⟨i, hi, hfirst⟩ := hans.presents.first _ hmid
      have hold : i ∈ rowsFor b m.messageId :=
        hsame ▸ mem_rowsFor.mpr ⟨hi, hfirst.messageId⟩
      exact hans.presents.fresh _ hmid i (mem_rowsFor.mp hold).1
        ⟨hfirst.messageId, hfirst.atEpoch, hfirst.logical⟩
  cases op with
  | checkpointPull | processNext | inboxView | daemonCheckpointPull => exact hpull rfl
  | _ => exact fun p hp => nomatch hp

theorem ack_current {input : AckInput} {r : AckResult}
    (h : ack env now auth input b = (.ok r, b')) : b.epochOf auth.sessionId = some auth.epoch := by
  simp only [ack, ackTransaction, assertAllowed, Call.bind_ok, Call.require_ok,
    assertCurrentEpoch_ok] at h
  obtain ⟨_, _, ⟨_, rfl⟩, _, _, ⟨hcurrent, rfl⟩, -⟩ := h
  exact hcurrent

/-! ## The theorem -/

/-- What the row of a takeover gives its session. -/
structure AuthorityStands (env : Env) (b : Broker) (mid : Id) (sid : SessionId) (i : Injection) :
    Prop where
  /-- It is there, as it was made, and the only one of its epoch. -/
  sole : Sole b mid i
  /-- One reply at its epoch is accepted and completes the request; no further one is, whatever
      comes after, unless the message is redelivered. -/
  answerable : ∀ now auth input, input.messageId = mid → MayReply b now auth input i →
    ∃ r b', reply env now auth input b = (.ok r, b') ∧ r.deduplicated = false ∧
      Completed b' mid ∧
        ∀ log u, Run (step env) (Unredelivered env mid) b' log u → NotAgain env u mid
  /-- An ack or a reply by an older epoch is refused. -/
  fenced : ∀ now auth e, auth.sessionId = sid → b.epochOf sid = some e → auth.epoch < e →
    (∀ input r b', ack env now auth input b ≠ (.ok r, b')) ∧
      ∀ input r b', reply env now auth input b ≠ (.ok r, b')
  /-- No pull returns the body. -/
  unseen : ∀ mom op r b', exec env mom op b = (.ok r, b') →
    ∀ p ∈ presentedBy op (.ok r), p.messageId ≠ mid

theorem authorityStands (hreq : env.requireReceipt = true) (inv : RowInv b) {i : Injection}
    (hsole : Sole b mid i) (hunused : i.consumedOp ≠ some .reply) (howes : OwesReply b mid sid) :
    AuthorityStands env b mid sid i := by
  refine ⟨hsole, ?_, ?_, fun mom op r b' hr => howes.handled.unseen inv.mail hr⟩
  · rintro now auth input rfl hmay
    obtain ⟨r, b', hr, hnew⟩ := hmay.goes_through hreq inv hsole hunused
    obtain ⟨-, orig, horig, -, ⟨dup, -, -, hdup, -⟩ | hreplied⟩ := reply_ok hr
    · rw [hnew] at hdup
      cases hdup
    obtain ⟨-, d, hd, -, hstate⟩ := howes
    obtain ⟨d₂, hd₂, hd'⟩ := hreplied.delivery inv.mail horig
    obtain rfl := Option.some.inj (hd.symm.trans hd₂)
    have hdm : d.messageId = input.messageId := by simpa using List.find?_some hd
    -- The reply completes the request, and no later step reopens it.
    have hdone : Completed b' input.messageId := by
      rw [Completed, hd', Option.map_some, (answered_state_completed hdm).mpr (.inl hstate)]
    have hreplied' := repliedAt_of_sole hreq inv hsole hmay hreplied hdone
    have inv' : RowInv b' := by
      have hmoves : Moves env _ b (reply env now auth input b).2 := reply_respects b
      rw [hr] at hmoves
      exact inv.moves hmoves (by decide)
    refine ⟨r, b', hr, hnew, hdone, fun log u run => ?_⟩
    have hrun := run.invariant
      (P := fun u => RowInv u ∧ RepliedAt u input.messageId auth.sessionId auth.epoch)
      ⟨inv', hreplied'⟩ fun u e hu hok => ⟨hu.1.step hok.1, hu.2.step hreq hu.1 hok⟩
    exact hrun.2.notAgain hreq hrun.1
  · rintro now auth e rfl hcurrent hold
    constructor
    · intro input r b' hr
      exact absurd (Option.some.inj (hcurrent.symm.trans (ack_current hr))) (Nat.ne_of_gt hold)
    · intro input r b' hr
      exact absurd (Option.some.inj (hcurrent.symm.trans (reply_ok hr).1)) (Nat.ne_of_gt hold)

theorem rowInv_initial : RowInv (initial env) := by
  have hmove : Move env .operator {} (initial env) := .operator
  have hrows : (initial env).injections = [] := Move.sameRows hmove rfl
  refine ⟨mailInv_initial, ⟨by simp [hrows], by simp [hrows]⟩, ?_⟩
  intro i hi
  rw [hrows] at hi
  cases hi

/-- **Reply authority survives takeover.** In every run that makes no session with rows anew, and
    for every takeover in it, whatever takeovers came before: what was owed is still owed, and has
    a row at the new epoch, unused and good for the retention period. As long as it is owed and
    not redelivered, the row stands, and gives what `AuthorityStands` says. -/
theorem reply_authority_survives (hreq : env.requireReceipt = true)
    {log : List (Event × Except Failure Response)}
    (run : Run (step env) (NotRecreated env) (initial env) log b) {raw : RegisterInput}
    {a : SessionAuthority} {s : Session} (h : Takeover env mom raw b a b' s)
    (howes : OwesReply b mid a.sessionId) :
    OwesReply b' mid a.sessionId ∧ ∃ i, IsRehomed a.sessionId a.epoch mom.now i ∧
      ∀ log' u, Run (step env) (Held env mid a.sessionId) b' log' u →
        OwesReply u mid a.sessionId → AuthorityStands env u mid a.sessionId i := by
  have inv : RowInv b := run.invariant rowInv_initial fun _ _ hu hok => hu.step hok
  have hcurrent : b.epochOf a.sessionId = some s.activeEpoch := by
    rw [Broker.epochOf, h.found]
    rfl
  have inv' : RowInv b' := by
    obtain ⟨reclaim, input, b₁, b₂, hreg⟩ := register_ok h.answered
    refine inv.registered hreg fun habsent => ?_
    rw [← hreg.sessionId, h.found] at habsent
    cases habsent
  obtain ⟨i, hsole, hrehomed⟩ := h.mail.sole inv hcurrent h.advanced howes
  refine ⟨h.mail.owesReply howes, i, hrehomed, fun log' u run' hu => ?_⟩
  obtain ⟨invu, hsoleu⟩ := held_run hreq inv' hsole run'
  exact authorityStands hreq invu (hsoleu hu) (by rw [hrehomed.unused]; decide) hu

/-- `beta` accepts the request. -/
def requestAccepted : List Event :=
  requestPulled ++
    [(.ack (component "beta" .mcp 1 2) { messageId := 8, accept := true }, { nowMs := 1002 })]

/-- Another component takes `beta` over. -/
def betaTakenOver : RegisterInput :=
  { sessionId := "beta", connectionId := 3, processId := 3, supersede := true }

theorem betaTakenOver_takeover :
    let b := (runAll (step plainEnv) (initial plainEnv) requestAccepted).2
    let out := register plainEnv { nowMs := 2000 } betaTakenOver b
    ∃ a s, Takeover plainEnv { nowMs := 2000 } betaTakenOver b a out.2 s ∧ a.sessionId = "beta" ∧
      a.epoch = 2 := by
  intro b out
  have hout : out.1.toOption.map (fun a => (a.sessionId, a.epoch)) = some ("beta", 2) := by
    decide +kernel
  have hsession : (b.session? "beta").map (fun s => (s.expiredAt, s.activeEpoch)) =
      some (none, 1) := by decide +kernel
  obtain ⟨s, hs, hspair⟩ := Option.map_eq_some_iff.mp hsession
  rcases hreg : register plainEnv { nowMs := 2000 } betaTakenOver b with ⟨f | a, b'⟩
  · rw [show out = (.error f, b') from hreg] at hout
    cases hout
  rw [show out = (.ok a, b') from hreg] at hout ⊢
  have hpair := Option.some.inj hout
  have hsid : a.sessionId = "beta" := congrArg Prod.fst hpair
  have hepoch : a.epoch = 2 := congrArg Prod.snd hpair
  refine ⟨a, s, ⟨hreg, hsid ▸ hs, congrArg Prod.fst hspair, ?_⟩, hsid, hepoch⟩
  exact hepoch.trans (congrArg (· + 1) (congrArg Prod.snd hspair)).symm

theorem OwesReply.of_states {mid : Id} {sid : SessionId} {b : Broker}
    (h : b.requiresReply mid = true ∧ (b.delivery? mid).map (fun d =>
      (d.recipientSessionId, d.state)) = some (sid, .accepted)) : OwesReply b mid sid := by
  obtain ⟨hreply, hd⟩ := h
  obtain ⟨d, hd, hpair⟩ := Option.map_eq_some_iff.mp hd
  exact ⟨hreply, d, hd, congrArg Prod.fst hpair, congrArg Prod.snd hpair⟩

/-- `reply_authority_survives` at a takeover a second after the request was accepted. -/
theorem reply_authority_survives_supersede :
    let b := (runAll (step plainEnv) (initial plainEnv) requestAccepted).2
    let out := register plainEnv { nowMs := 2000 } betaTakenOver b
    OwesReply b 8 "beta" ∧ OwesReply out.2 8 "beta" ∧
      ∃ i, IsRehomed "beta" 2 ⟨2000⟩ i ∧ AuthorityStands plainEnv out.2 8 "beta" i := by
  intro b out
  have run : Run (step plainEnv) (NotRecreated plainEnv) (initial plainEnv) _ b :=
    Run.of_runAll requestAccepted (by decide +kernel)
  have howed : OwesReply b 8 "beta" := .of_states (by decide +kernel)
  obtain ⟨a, s, htakeover, hsid, hepoch⟩ := betaTakenOver_takeover
  obtain ⟨hafter, i, hrow, hstands⟩ :=
    reply_authority_survives rfl run htakeover (hsid ▸ howed)
  rw [hsid] at hafter hrow hstands
  rw [hepoch] at hrow
  exact ⟨howed, hafter, i, hrow, hstands _ _ .nil hafter⟩

/-- Ten days after the takeover both sessions speak, and once the fifteen are over the reaper
    sweeps: nothing expires. -/
def bothStayActive : List Event :=
  [ (.send (component "alpha" .mcp 1 1) { recipient := "session-beta", text := "still there?" },
      { nowMs := 2000 + 10 * 24 * 60 * 60 * 1000 }),
    (.send (component "beta" .mcp 2 3) { recipient := "session-alpha", text := "soon" },
      { nowMs := 2000 + 10 * 24 * 60 * 60 * 1000 }),
    (.sweep, { nowMs := 2001 + retentionMs }) ]

/-- The row of a takeover runs out after fifteen days, though the session it serves and the asker
    are both active and the reply is still owed: the successor's reply is then refused. -/
theorem rehomed_authority_runs_out : ¬ ∀ (b : Broker) (mom : Moment) (raw : RegisterInput)
    (a : SessionAuthority) (b' : Broker) (s : Session) (mid : Id), Reachable plainEnv Any b →
    Takeover plainEnv mom raw b a b' s → OwesReply b mid a.sessionId →
    ∀ log u, Run (step plainEnv) Any b' log u → OwesReply u mid a.sessionId →
    ∀ (now : Iso) (auth : SessionAuthority) (input : ReplyInput), auth.role = .mcp →
    auth.sessionId = a.sessionId → auth.epoch = a.epoch →
    u.epochOf a.sessionId = some a.epoch → input.messageId = mid → input.injectionId = none →
    input.idempotencyKey = none →
    (∀ m, u.message? mid = some m → u.isExpired m.senderSessionId = false) →
    ∃ r u', reply plainEnv now auth input u = (.ok r, u') := by
  intro hclaim
  obtain ⟨a, s, htakeover, hsid, hepoch⟩ := betaTakenOver_takeover
  set b := (runAll (step plainEnv) (initial plainEnv) requestAccepted).2
  set b' := (register plainEnv { nowMs := 2000 } betaTakenOver b).2
  set u := (runAll (step plainEnv) b' bothStayActive).2
  have howed : OwesReply b 8 "beta" := .of_states (by decide +kernel)
  have hrun : (u.requiresReply 8 = true ∧ (u.delivery? 8).map (fun d =>
        (d.recipientSessionId, d.state)) = some ("beta", .accepted)) ∧
      u.epochOf "beta" = some 2 ∧
      ((u.message? 8).all fun m => u.isExpired m.senderSessionId = false) ∧
      (reply plainEnv ⟨2002 + retentionMs⟩ (component "beta" .mcp 2 3) answerRequest
        u).1.isOk = false := by
    decide +kernel
  obtain ⟨hstates, hcurrent, hasker, hrefused⟩ := hrun
  have howes : OwesReply u 8 "beta" := .of_states hstates
  have hreach : Reachable plainEnv Any b := ⟨_, Run.of_events _ _ requestAccepted⟩
  obtain ⟨log, run⟩ : ∃ log, Run (step plainEnv) Any b' log u :=
    ⟨_, Run.of_events _ _ bothStayActive⟩
  clear_value u b' b
  obtain ⟨r, u', hr⟩ := hclaim b _ _ a b' s 8 hreach htakeover (hsid ▸ howed) log u run
    (hsid ▸ howes) ⟨2002 + retentionMs⟩ (component "beta" .mcp 2 3) answerRequest rfl hsid.symm
    hepoch.symm (by rw [hsid, hepoch, hcurrent]) rfl rfl rfl (by
      intro m hm
      rw [hm] at hasker
      simpa using hasker)
  rw [hr] at hrefused
  cases hrefused

end Proof
end XBus
