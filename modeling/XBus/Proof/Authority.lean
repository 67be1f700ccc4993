import XBus.Proof.AtMostOnce
import XBus.Proof.Foreign
import XBus.Proof.Refusals
import XBus.Proof.Standing

/-!
# The rows a reply is authorised by

An ack or a reply needs an injection row of its message at the caller's epoch. This module says
what becomes of these rows: which ids they have (`InjectionIds`), which epochs (`EpochsBelow`),
and that no step touches the rows of a message whose delivery is accepted or completed, but a
reply to it, an explicit redelivery of it, or a takeover of its recipient (`step_rowsFor`).

Epochs are numbered anew when the record of a session is removed and the session registers
again, while the rows of its former life stay. `NotRecreated` is the condition that this does
not happen to a session with rows.
-/

set_option autoImplicit false

namespace XBus
namespace Proof

open Lib

variable {env : Env} {mom : Moment} {now : Iso} {auth : SessionAuthority} {k : Kind} {mid : Id}
  {sid : SessionId} {b b' : Broker}

/-! ## Ids -/

/-- Injection ids are unique, and below the next one. -/
structure InjectionIds (b : Broker) : Prop where
  unique : (b.injections.map (·.injectionId)).Nodup
  below : ∀ i ∈ b.injections, i.injectionId < b.nextId

namespace InjectionIds

theorem same (inv : InjectionIds b) (hids : b.nextId ≤ b'.nextId)
    (h : b'.injections = b.injections) : InjectionIds b' :=
  ⟨h ▸ inv.unique, fun i hi => (inv.below i (h ▸ hi)).trans_le hids⟩

/-- One more row, under an id not given out before. -/
theorem snoc (inv : InjectionIds b) {i : Injection} (h : b'.injections = b.injections ++ [i])
    (hfresh : b.nextId ≤ i.injectionId) (hbelow : i.injectionId < b'.nextId) :
    InjectionIds b' := by
  constructor
  · rw [h, List.map_append, List.nodup_append]
    refine ⟨inv.unique, List.nodup_singleton _, fun x hx y hy hxy => ?_⟩
    obtain ⟨j, hj, rfl⟩ := List.mem_map.mp hx
    obtain rfl := List.mem_singleton.mp hy
    exact absurd (inv.below j hj) (Nat.not_lt.mpr (hxy ▸ hfresh))
  · intro j hj
    rw [h] at hj
    rcases List.mem_append.mp hj with hj | hj
    · exact (inv.below j hj).trans (hfresh.trans_lt hbelow)
    · rw [List.mem_singleton.mp hj]
      exact hbelow

theorem consume (inv : InjectionIds b) {id : Id} {op : ReceiptOp} :
    InjectionIds (b.consume id op) := by
  constructor
  · have hmap : (b.consume id op).injections.map (·.injectionId) =
        b.injections.map (·.injectionId) := map_updateWhere _ fun _ _ => rfl
    rw [hmap]
    exact inv.unique
  · intro i hi
    obtain ⟨j, hj, rfl⟩ := mem_updateWhere.mp hi
    have := inv.below j hj
    split
    · exact this
    · exact this

theorem issue (inv : InjectionIds b) {epoch logical : Nat} {ck : CheckpointId} :
    InjectionIds (issue env now mid sid epoch ck logical b).2 := by
  rcases hissue : XBus.issue env now mid sid epoch ck logical b with ⟨_ | id, b₁⟩
  · have hbook := (issue_none hissue).1
    exact inv.same hbook.ids hbook.injections
  · obtain ⟨rfl, rfl, -, -⟩ := issue_some hissue
    exact inv.snoc rfl (Nat.le_refl _) (Nat.lt_succ_self _)

theorem rehomeOne (inv : InjectionIds b) {epoch : Nat} :
    InjectionIds (b.rehomeOne sid epoch now mid) := by
  unfold Broker.rehomeOne
  split
  · exact inv
  · have hbelow : b.nextId < b.nextId + 3 := Nat.lt_add_of_pos_right (by decide)
    exact inv.snoc rfl (Nat.le_refl _) hbelow

theorem rehomeAll (inv : InjectionIds b) {epoch : Nat} (mids : List Id) :
    InjectionIds (mids.foldl (fun b mid => b.rehomeOne sid epoch now mid) b) := by
  induction mids generalizing b with
  | nil => exact inv
  | cons mid mids ih => exact ih inv.rehomeOne

end InjectionIds

theorem Move.injectionIds (h : Move env k b b') (mail : MailInv b) (inv : InjectionIds b) :
    InjectionIds b' := by
  by_cases hsame : writesRows k = false
  · exact inv.same (Move.ids h mail) (Move.sameRows h hsame)
  cases h with
  | inject now auth ck audited m =>
    have hspec := injectOne_spec env now auth ck audited m b
    cases hid : (injectOne env now auth ck audited m b).1 with
    | none => exact inv.same hspec.rest.ids (hspec.silent hid).1
    | some id =>
      obtain ⟨hfresh, hbelow, hrows, -⟩ := hspec.presented id hid
      exact inv.snoc hrows hfresh hbelow
  | reissue now auth m =>
    have hmint : InjectionIds b.mint := inv.same (Nat.le_succ _) rfl
    exact hmint.issue
  | consume => exact inv.consume
  | @advance _ now sid resume s found =>
    obtain ⟨as, es, n, hb', hn⟩ := advanceEpoch_begun b env now sid (s.activeEpoch + 1) resume
    have hbegun : InjectionIds (Broker.begun b now sid (s.activeEpoch + 1)) :=
      inv.same (Nat.le_refl _) rfl
    have hrehomed : InjectionIds ((Broker.begun b now sid
        (s.activeEpoch + 1)).rehomeAcceptedReplyAuthority sid (s.activeEpoch + 1) now) :=
      hbegun.rehomeAll _
    rw [hb']
    exact hrehomed.same hn rfl
  | _ => exact absurd rfl hsame

/-- A row is known by its id. -/
theorem InjectionIds.row_eq (inv : InjectionIds b) {i j : Injection} (hi : i ∈ b.injections)
    (hj : j ∈ b.injections) (h : i.injectionId = j.injectionId) : i = j :=
  eq_of_key_eq inv.unique hi hj h

/-! ## Epochs -/

/-- No row is of an epoch its session has not reached. -/
def EpochsBelow (b : Broker) : Prop :=
  ∀ i ∈ b.injections, ∀ e, b.epochOf i.recipientSessionId = some e → i.recipientEpoch ≤ e

theorem EpochsBelow.same (inv : EpochsBelow b) (rows : b'.injections = b.injections)
    (epochs : ∀ sid e, b'.epochOf sid = some e → b.epochOf sid = some e) : EpochsBelow b' := by
  intro i hi e he
  rw [rows] at hi
  exact inv i hi e (epochs _ e he)

/-- One more row, of the session's current epoch or an earlier one. -/
theorem EpochsBelow.snoc (inv : EpochsBelow b) {i : Injection}
    (rows : b'.injections = b.injections ++ [i]) (epochs : ∀ sid, b'.epochOf sid = b.epochOf sid)
    (reached : ∀ e, b.epochOf i.recipientSessionId = some e → i.recipientEpoch ≤ e) :
    EpochsBelow b' := by
  intro j hj e he
  rw [epochs] at he
  rw [rows] at hj
  rcases List.mem_append.mp hj with hj | hj
  · exact inv j hj e he
  · obtain rfl := List.mem_singleton.mp hj
    exact reached e he

/-- A new session has no rows. -/
theorem EpochsBelow.newcomer (inv : EpochsBelow b) {s : Session}
    (rows : b'.injections = b.injections) (sessions : b'.sessions = b.sessions ++ [s])
    (new : ∀ i ∈ b.injections, i.recipientSessionId ≠ s.sessionId) : EpochsBelow b' := by
  intro i hi e he
  rw [rows] at hi
  refine inv i hi e ?_
  have hfind : b'.session? i.recipientSessionId = b.session? i.recipientSessionId := by
    rw [Broker.session?, Broker.session?, sessions, List.find?_append]
    simp [(new i hi).symm]
  rwa [Broker.epochOf, hfind] at he

theorem EpochsBelow.advance (inv : EpochsBelow b) {s : Session} {resume : Bool}
    (found : b.session? sid = some s) :
    EpochsBelow (b.advanceEpoch env now sid (s.activeEpoch + 1) resume) := by
  obtain ⟨is, as, es, n, hb', -, his⟩ :=
    advanceEpoch_eq b env now sid (s.activeEpoch + 1) resume
  intro i hi e he
  rw [Broker.epochOf, advanceEpoch_session?] at he
  have hold : ∀ e₀, b.epochOf i.recipientSessionId = some e₀ → e₀ ≤ e := by
    intro e₀ he₀
    obtain ⟨t, ht, rfl⟩ := Option.map_eq_some_iff.mp he₀
    by_cases hsid : i.recipientSessionId = sid
    · rw [hsid, found] at ht
      obtain rfl := Option.some.inj ht
      simp only [hsid, found, Option.map_some, if_true, Option.some.injEq,
        Broker.resetForLifecycle] at he
      omega
    · simp only [ht, Option.map_some, if_neg hsid, Option.some.injEq] at he
      exact he.le
  have hinj : (b.advanceEpoch env now sid (s.activeEpoch + 1) resume).injections =
      b.injections ++ is := by rw [hb']
  rw [hinj] at hi
  rcases List.mem_append.mp hi with hi | hi
  · cases hep : b.epochOf i.recipientSessionId with
    | some e₀ => exact (inv i hi e₀ hep).trans (hold e₀ hep)
    | none =>
      obtain ⟨t, ht, -⟩ := Option.map_eq_some_iff.mp he
      obtain ⟨t₀, ht₀, -⟩ := Option.map_eq_some_iff.mp ht
      rw [Broker.epochOf, ht₀] at hep
      cases hep
  · obtain ⟨hr, -⟩ := his i hi
    rw [hr.recipient] at he
    simp only [found, Option.map_some, if_true, Option.some.injEq, Broker.resetForLifecycle] at he
    rw [hr.epoch, he]

/-- The moves that make a session. -/
def makesSession : Kind → Bool
  | .create | .dormant | .operator => true
  | _ => false

theorem Move.epochsBelow (h : Move env k b b') (hk : makesSession k = false) (mail : MailInv b)
    (inv : EpochsBelow b) : EpochsBelow b' := by
  by_cases hsame : writesRows k = false
  · refine inv.same (Move.sameRows h hsame) ?_
    by_cases hcalm : calms k = true
    · exact (Move.calm h hcalm).epochs
    · cases h with
      | component => exact fun _ _ he => he
      | create | dormant | operator => cases hk
      | _ => first | exact absurd rfl hcalm | cases hsame
  cases h with
  | inject now auth ck audited m current =>
    have hspec := injectOne_spec env now auth ck audited m b
    have hepochs (sid : SessionId) := hspec.epochOf sid
    cases hid : (injectOne env now auth ck audited m b).1 with
    | none => exact inv.same (hspec.silent hid).1 fun sid e he => (hepochs sid).symm.trans he
    | some id =>
      refine inv.snoc (hspec.presented id hid).2.2.1 hepochs fun e he => ?_
      obtain rfl := Option.some.inj (current.symm.trans he)
      exact Nat.le_refl _
  | reissue now auth m found addressed presented =>
    have hframe : MailOnly b (issue env now m.messageId auth.sessionId auth.epoch
        (.minted "redeliver-" b.nextId) (b.maxLogical m.messageId auth.epoch + 1) b.mint).2 :=
      IsFrame.trans (MailOnly.of_bookkeeping .mint) .issue
    have hepochs := epochOf_core hframe.sessions
    rcases hissue : issue env now m.messageId auth.sessionId auth.epoch
      (.minted "redeliver-" b.nextId) (b.maxLogical m.messageId auth.epoch + 1) b.mint
      with ⟨_ | id, b₁⟩
    · rw [hissue] at hepochs
      exact inv.same (issue_none hissue).1.injections fun sid e he => (hepochs sid).symm.trans he
    · rw [hissue] at hepochs
      have hrows := congrArg Broker.injections (issue_some hissue).2.1
      refine inv.snoc hrows hepochs fun e he => ?_
      -- A row of the message at this epoch is there already.
      obtain ⟨i, hi, hmid, hepoch⟩ := row_of_maxLogical presented
      have hto : i.recipientSessionId = auth.sessionId := by
        refine mail.addressed_unique (hmid ▸ mail.rows i hi) ?_
        exact addressed ▸ mail.addressed_of_mem (List.mem_of_find?_eq_some found)
      show auth.epoch ≤ e
      rw [← hepoch]
      exact inv i hi e (hto ▸ he)
  | consume id op =>
    intro i hi e he
    obtain ⟨j, hj, rfl⟩ := mem_updateWhere.mp hi
    have hrow (p : Prop) [Decidable p] :
        (if p then { j with consumedOp := some op } else j).recipientSessionId =
            j.recipientSessionId ∧
          (if p then { j with consumedOp := some op } else j).recipientEpoch =
            j.recipientEpoch := by
      split
      · exact ⟨rfl, rfl⟩
      · exact ⟨rfl, rfl⟩
    rw [(hrow _).1] at he
    rw [(hrow _).2]
    exact inv j hj e he
  | advance now sid resume found => exact inv.advance found
  | _ => exact absurd rfl hsame

/-! ## Every step -/

/-- The session an event makes a row for, if there is none. -/
def madeBy (env : Env) (b : Broker) (e : Event) : Option SessionId :=
  match e.1 with
  | .register raw => some (targetOf env e.2 b raw)
  | .recordManagedSession sid | .importDormantSession sid => some sid
  | .ensureOperatorSession => some operatorSessionId
  | _ => none

/-- No session with rows on record is made anew. -/
def NotRecreated (env : Env) (b : Broker) (e : Event) : Prop :=
  ∀ sid ∈ (madeBy env b e).toList, b.session? sid = none →
    ∀ i ∈ b.injections, i.recipientSessionId ≠ sid

instance (env : Env) (b : Broker) (e : Event) : Decidable (NotRecreated env b e) :=
  inferInstanceAs (Decidable (∀ sid ∈ (madeBy env b e).toList, b.session? sid = none →
    ∀ i ∈ b.injections, i.recipientSessionId ≠ sid))

/-- What holds of the rows in every run that makes no session with rows anew. -/
structure RowInv (b : Broker) : Prop where
  mail : MailInv b
  ids : InjectionIds b
  epochs : EpochsBelow b

theorem RowInv.moves {kinds : List Kind} (inv : RowInv b) (h : Moves env kinds b b')
    (hk : ∀ k ∈ kinds, makesSession k = false) : RowInv b' :=
  h.keeps inv fun _ _ k hmem hmove hu =>
    ⟨Move.mailInv hmove hu.mail, Move.injectionIds hmove hu.mail hu.ids,
      Move.epochsBelow hmove (hk k hmem) hu.mail hu.epochs⟩

theorem RowInv.entered {input : RegisterInput} {epoch : Nat} (inv : RowInv b)
    (h : Entered env now input b epoch b')
    (hnew : b.session? input.sessionId = none →
      ∀ i ∈ b.injections, i.recipientSessionId ≠ input.sessionId) : RowInv b' := by
  cases h with
  | created absent =>
    have hmove : Move env .create b (b.createSession env input) := .create input absent
    refine ⟨Move.mailInv hmove inv.mail, Move.injectionIds hmove inv.mail inv.ids, ?_⟩
    obtain ⟨as, es, n, hb', -⟩ := createSession_eq b env input
    exact inv.epochs.newcomer (s := firstRow env input) (by rw [hb']) (by rw [hb']) (hnew absent)
  | advanced found fresh =>
    exact inv.moves (.one (List.mem_singleton_self _) (.advance now input.sessionId _ found))
      (by decide)
  | joined found =>
    have hjoin : Moves env [.join] b (b.joinEpoch now input) := .one (by decide) (.join now input)
    exact inv.moves hjoin (by decide)

theorem RowInv.registered {raw input : RegisterInput} {a : SessionAuthority}
    {reclaim : ReclaimOutcome} {b₁ b₂ : Broker} (inv : RowInv b)
    (h : Registered env mom raw b a b' reclaim input b₁ b₂)
    (hnew : b.session? input.sessionId = none →
      ∀ i ∈ b.injections, i.recipientSessionId ≠ input.sessionId) : RowInv b' := by
  obtain ⟨es, rfl⟩ := h.before_eq
  have hedges : Moves env [.note, .redirect] b { b.mint with physicalMap := es } :=
    IsFrame.trans (.note (by decide) .mint) (.one (by decide) (.redirect es))
  exact ((inv.moves hedges (by decide)).entered h.entered hnew).moves h.seats (by decide)

theorem RowInv.newcomer (inv : RowInv b) {s : Session} (hids : b'.nextId = b.nextId)
    (hmsgs : b'.messages = b.messages) (hdel : b'.deliveries = b.deliveries)
    (rows : b'.injections = b.injections) (sessions : b'.sessions = b.sessions ++ [s])
    (new : ∀ i ∈ b.injections, i.recipientSessionId ≠ s.sessionId) : RowInv b' :=
  ⟨(MailFrame.of_eq hids.ge hmsgs hdel rows).keeps inv.mail, inv.ids.same hids.ge rows,
    inv.epochs.newcomer rows sessions new⟩

theorem RowInv.step (inv : RowInv b) {e : Event} (hok : NotRecreated env b e) :
    RowInv (step env b e).2 := by
  have hother (h : ∀ k ∈ kindsOf false e.1, makesSession k = false) :
      RowInv (XBus.step env b e).2 :=
    inv.moves (exec_moves env e.2 e.1 b false (by simp)) h
  have hmade {sid : SessionId} (h : madeBy env b e = some sid) :
      b.session? sid = none → ∀ i ∈ b.injections, i.recipientSessionId ≠ sid :=
    hok sid (by simp [h])
  obtain ⟨op, mom⟩ := e
  -- These four may make a session; all others are settled by their moves.
  cases op with
  | register raw =>
    show RowInv (exec env mom (.register raw) b).2
    rw [show (exec env mom (.register raw) b).2 = (register env mom raw b).2 from Call.map_snd]
    rcases hr : register env mom raw b with ⟨f | a, b'⟩
    · obtain rfl : b = b' := register_refuses b f b' hr
      exact inv
    · obtain ⟨reclaim, input, b₁, b₂, hreg⟩ := register_ok hr
      obtain ⟨cs, hseat⟩ := register_seated hr
      have htarget : input.sessionId = targetOf env mom b raw :=
        hreg.sessionId.symm.trans hseat.target
      exact inv.registered hreg (htarget ▸ hmade rfl)
  | recordManagedSession sid =>
    show RowInv (recordManagedSession env sid b).2
    simp only [recordManagedSession, Call.modify]
    cases hs : b.session? sid with
    | some s => exact inv
    | none => exact inv.newcomer rfl rfl rfl rfl rfl (hmade rfl hs)
  | importDormantSession sid =>
    show RowInv (importDormantSession env sid b).2
    simp only [importDormantSession, Call.modify]
    cases hs : b.session? sid with
    | some s => exact inv
    | none => exact inv.newcomer rfl rfl rfl rfl rfl (hmade rfl hs)
  | ensureOperatorSession =>
    have hmove : Move env .operator b (b.ensureOperatorSession env) := .operator
    refine ⟨Move.mailInv hmove inv.mail, Move.injectionIds hmove inv.mail inv.ids, ?_⟩
    show EpochsBelow (b.ensureOperatorSession env)
    unfold Broker.ensureOperatorSession
    cases hs : b.session? operatorSessionId with
    | some s =>
      refine inv.epochs.same rfl fun sid e he => ?_
      refine (epochOf_updateWhere rfl ?_ sid).symm.trans he
      exact fun _ => rfl
    | none => exact inv.epochs.newcomer rfl rfl (hmade rfl hs)
  | _ => exact hother (by simp [kindsOf, makesSession])

/-! ## The rows of a message that has been handled -/

/-- The rows of a message. -/
def rowsFor (b : Broker) (mid : Id) : List Injection :=
  b.injections.filter fun i => i.messageId = mid

theorem mem_rowsFor {i : Injection} : i ∈ rowsFor b mid ↔ i ∈ b.injections ∧ i.messageId = mid := by
  simp [rowsFor]

/-- The rows of the message are as they were. -/
def SameRowsFor (mid : Id) (b b' : Broker) : Prop := rowsFor b' mid = rowsFor b mid

instance : IsFrame (SameRowsFor mid) where
  refl _ := rfl
  trans h h' := Eq.trans h' h

theorem SameRowsFor.of_eq (h : b'.injections = b.injections) : SameRowsFor mid b b' :=
  congrArg (List.filter _) h

/-- Rows of other messages are added. -/
theorem SameRowsFor.append {is : List Injection} (h : b'.injections = b.injections ++ is)
    (hother : ∀ i ∈ is, i.messageId ≠ mid) : SameRowsFor mid b b' := by
  have hnone : is.filter (fun i => i.messageId = mid) = [] :=
    List.filter_eq_nil_iff.mpr fun i hi => by simpa using hother i hi
  rw [SameRowsFor, rowsFor, h, List.filter_append, hnone, List.append_nil]
  rfl

/-- A row of another message is used. -/
theorem SameRowsFor.consume (ids : InjectionIds b) {i : Injection} (hi : i ∈ b.injections)
    (hother : i.messageId ≠ mid) {op : ReceiptOp} :
    SameRowsFor mid b (b.consume i.injectionId op) := by
  refine filter_updateWhere fun j hj hid => ?_
  obtain rfl : j = i := ids.row_eq hj hi (of_decide_eq_true hid)
  simp [hother]

/-- The message has been accepted, and perhaps answered. -/
def Handled (b : Broker) (mid : Id) : Prop :=
  DeliveryIn b mid fun s => s = .accepted ∨ s = .completed

theorem Handled.of_deliveries (h : Handled b mid) (hdel : b'.deliveries = b.deliveries) :
    Handled b' mid := by
  rwa [Handled, DeliveryIn, Broker.delivery?, hdel]

/-- It waits for no pull. -/
theorem Handled.not_waiting (mail : MailInv b) (h : Handled b mid) :
    (b.deliveries.any fun d => d.messageId = mid ∧ d.state.waiting) = false := by
  obtain ⟨d, hd, hstate⟩ := h
  refine Bool.eq_false_iff.mpr fun hany => ?_
  obtain ⟨x, hx, hwait⟩ := List.any_eq_true.mp hany
  obtain ⟨hmid, hwait⟩ := of_decide_eq_true hwait
  have hdm : d.messageId = mid := by simpa using List.find?_some hd
  obtain rfl := mail.delivery_eq hx (List.mem_of_find?_eq_some hd) (hmid.trans hdm.symm)
  rcases hstate with hstate | hstate
  · simp [DeliveryState.waiting, hstate] at hwait
  · simp [DeliveryState.waiting, hstate] at hwait

/-- One round of a pull passes it by. -/
theorem injectOne_handled {ck : CheckpointId} {audited : Bool} {m : Message} (mail : MailInv b)
    (h : Handled b mid) : Handled (injectOne env now auth ck audited m b).2 mid ∧
      SameRowsFor mid b (injectOne env now auth ck audited m b).2 := by
  have hspec := injectOne_spec env now auth ck audited m b
  by_cases hm : m.messageId = mid
  · have hskip : injectOne env now auth ck audited m b = (none, b) := by
      unfold injectOne
      rw [hm, h.not_waiting mail]
      rfl
    rw [hskip]
    exact ⟨h, rfl⟩
  · constructor
    · obtain ⟨d, hd, hstate⟩ := h
      obtain ⟨g, hdel, hg⟩ := hspec.deliveries
      have hdm : d.messageId = mid := by simpa using List.find?_some hd
      have hkey (x : Delivery) : decide ((g x).messageId = mid) = decide (x.messageId = mid) := by
        rw [(hg x).messageId]
      refine ⟨d, ?_, hstate⟩
      rw [Broker.delivery?, hdel, List.find?_map]
      simp only [Function.comp_def, hkey]
      rw [show b.deliveries.find? _ = some d from hd, Option.map_some,
        (hg d).other fun heq => hm (heq.symm.trans hdm)]
    · cases hid : (injectOne env now auth ck audited m b).1 with
      | none => exact .of_eq (hspec.silent hid).1
      | some id =>
        refine .append (hspec.presented id hid).2.2.1 fun i hi => ?_
        rw [List.mem_singleton.mp hi]
        exact hm

/-- No pull touches it. -/
theorem Moves.pull_rowsFor {c : Bool} (h : Moves env [.note, .inject c] b b') (mail : MailInv b)
    (hset : Handled b mid) : SameRowsFor mid b b' := by
  refine (h.keeps (P := fun u => MailInv u ∧ Handled u mid ∧ SameRowsFor mid b u)
    ⟨mail, hset, rfl⟩ ?_).2.2
  rintro u u' k hk hmove ⟨hmail, hu, hsame⟩
  refine ⟨Move.mailInv hmove hmail, ?_⟩
  cases hmove with
  | note h =>
    exact ⟨hu.of_deliveries h.deliveries, IsFrame.trans hsame (.of_eq h.injections)⟩
  | inject now auth ck audited m =>
    obtain ⟨hset', hsame'⟩ := injectOne_handled hmail hu
    exact ⟨hset', IsFrame.trans hsame hsame'⟩
  | _ => simp at hk

/-- An ack leaves an audit row at most, or it was to a body in flight and has used its row. -/
theorem ack_rows (hreq : env.requireReceipt = true) (input : AckInput) :
    AuditTrail b (ack env now auth input b).2 ∨
      (∃ d ∈ b.deliveries, d.messageId = input.messageId ∧ d.state = .transportWritten) ∧
        ∃ i ∈ b.injections, i.messageId = input.messageId ∧
          (ack env now auth input b).2.injections = (b.consume i.injectionId .ack).injections := by
  rcases hack : ack env now auth input b with ⟨f | r, b'⟩
  · exact .inl (ack_refuses_auditTrail b f b' hack)
  simp only [ack, ackTransaction, assertAllowed, Call.bind_ok, Call.require_ok,
    assertCurrentEpoch_ok,
    Call.transaction_ok, Call.get_bind, Call.orThrow_ok] at hack
  obtain ⟨_, _, ⟨_, rfl⟩, _, _, ⟨-, rfl⟩, msg, _, ⟨-, rfl⟩, _, _, ⟨-, rfl⟩, hack⟩ := hack
  cases hreceipt : b.receipts.find? fun r => r.messageId = input.messageId ∧
      r.receiverSessionId = auth.sessionId ∧ r.receiptType = .ack with
  | some existing =>
    simp only [hreceipt, Call.bind_ok, Call.requireElse_ok, Call.orThrow_ok, Call.pure_ok] at hack
    obtain ⟨_, _, ⟨-, rfl⟩, _, _, ⟨-, rfl⟩, -, rfl⟩ := hack
    exact .inl (IsFrame.refl _)
  | none =>
    simp only [hreceipt, Call.bind_ok, authorizeIfRequired_ok, Call.requireElse_ok,
      Call.modify_bind, Call.pure_ok, if_pos hreq] at hack
    obtain ⟨o, _, ⟨rfl, i, hauth, rfl⟩, _, _, ⟨hany, rfl⟩, -, rfl⟩ := hack
    obtain ⟨d, hd, hstate⟩ := List.any_eq_true.mp hany
    obtain ⟨hrow, hmid, -, -⟩ := authorize_row hauth
    exact .inr ⟨⟨d, hd, of_decide_eq_true hstate⟩, i, hrow, hmid, rfl⟩

theorem AuditTrail.rowsFor (h : AuditTrail b b') : SameRowsFor mid b b' :=
  .of_eq h.mailUntouched.injections

theorem ack_rowsFor (hreq : env.requireReceipt = true) (inv : RowInv b) (hset : Handled b mid)
    {input : AckInput} : SameRowsFor mid b (ack env now auth input b).2 := by
  obtain htrail | ⟨⟨d, hd, hdm, htw⟩, i, hi, him, hrows⟩ := ack_rows hreq input (b := b)
  · exact htrail.rowsFor
  · refine IsFrame.trans (SameRowsFor.consume inv.ids hi fun hmid => ?_) (.of_eq hrows)
    -- A body in flight is not handled yet.
    obtain ⟨x, hx, hstate⟩ := hset
    have hxm : x.messageId = mid := by simpa using List.find?_some hx
    obtain rfl := inv.mail.delivery_eq hd (List.mem_of_find?_eq_some hx)
      (hdm.trans (him.symm.trans (hmid.trans hxm.symm)))
    rw [htw] at hstate
    rcases hstate with hstate | hstate <;> cases hstate

theorem reply_rowsFor (hreq : env.requireReceipt = true) (inv : RowInv b) {input : ReplyInput}
    (hother : input.messageId ≠ mid) : SameRowsFor mid b (reply env now auth input b).2 := by
  rcases hr : reply env now auth input b with ⟨f | r, b'⟩
  · exact (reply_refuses_auditTrail b f b' hr).rowsFor
  · obtain ⟨-, orig, -, -, ⟨dup, -, -, -, rfl⟩ | hreplied⟩ := reply_ok hr
    · exact IsFrame.refl _
    · obtain ⟨i, hauth, hrows⟩ := hreplied.authorised hreq
      obtain ⟨hi, him, -, -⟩ := authorize_row hauth
      exact IsFrame.trans (SameRowsFor.consume inv.ids hi (him ▸ hother)) (.of_eq hrows)

theorem redeliver_rowsFor {mid' : Id} (hother : mid' ≠ mid) :
    SameRowsFor mid b (redeliver env now auth mid' b).2 := by
  rcases hr : redeliver env now auth mid' b with ⟨f | r, b'⟩
  · have htrail : Refuses AuditTrail (redeliver env now auth mid') :=
      Refuses.bind assertAllowed_respects fun _ =>
        Refuses.bind assertCurrentEpoch_auditTrail fun _ => .transaction _
    exact (htrail b f b' hr).rowsFor
  simp only [redeliver, assertAllowed, Call.bind_ok, Call.require_ok, assertCurrentEpoch_ok,
    Call.transaction_ok, Call.get_bind] at hr
  obtain ⟨_, _, ⟨_, rfl⟩, _, _, ⟨-, rfl⟩, hr⟩ := hr
  cases hmsg : b.message? mid' with
  | none =>
    simp only [hmsg, Call.pure_ok] at hr
    exact hr.2 ▸ IsFrame.refl _
  | some m =>
    simp only [hmsg] at hr
    split at hr
    · exact (Call.pure_ok.mp hr).2 ▸ IsFrame.refl _
    · split at hr
      · simp only [Call.modify_bind, Call.pure_ok] at hr
        exact hr.2 ▸ .of_eq rfl
      · simp only [Call.act_bind, Call.bind_ok, Call.orThrow_ok, Call.modify_bind,
          Call.pure_ok] at hr
        obtain ⟨id, _, ⟨hissue, rfl⟩, -, rfl⟩ := hr
        obtain ⟨-, hrow, -, -⟩ := issue_some (Prod.ext hissue rfl)
        refine .append (congrArg Broker.injections hrow) fun i hi => ?_
        rw [List.mem_singleton.mp hi]
        exact hother

/-- No step but three touches the rows of a message that has been handled. -/
theorem step_rowsFor (hreq : env.requireReceipt = true) (inv : RowInv b) (hset : Handled b mid)
    {e : Event} (hredeliver : ∀ auth, e.1 ≠ .redeliver auth mid)
    (hreply : ∀ auth input, e.1 = .reply auth input → input.messageId ≠ mid)
    (hregister : ∀ raw, e.1 ≠ .register raw) : SameRowsFor mid b (step env b e).2 := by
  have hmoves := exec_moves env e.2 e.1 b false (by simp)
  have hpull (h : kindsOf false e.1 = [.note, .inject false]) :
      SameRowsFor mid b (step env b e).2 :=
    Moves.pull_rowsFor (h ▸ hmoves) inv.mail hset
  have hother (h : ∀ k ∈ kindsOf false e.1, writesRows k = false) :
      SameRowsFor mid b (step env b e).2 := .of_eq (hmoves.sameRows h)
  obtain ⟨op, mom⟩ := e
  cases op with
  | register raw => exact absurd rfl (hregister raw)
  | checkpointPull | processNext | inboxView | daemonCheckpointPull => exact hpull rfl
  | ack auth input =>
    show SameRowsFor mid b (exec env mom (.ack auth input) b).2
    rw [show (exec env mom (.ack auth input) b).2 = (ack env mom.now auth input b).2 from
      Call.map_snd]
    exact ack_rowsFor hreq inv hset
  | reply auth input =>
    show SameRowsFor mid b (exec env mom (.reply auth input) b).2
    rw [show (exec env mom (.reply auth input) b).2 = (reply env mom.now auth input b).2 from
      Call.map_snd]
    exact reply_rowsFor hreq inv (hreply auth input rfl)
  | redeliver auth mid' =>
    show SameRowsFor mid b (exec env mom (.redeliver auth mid') b).2
    rw [show (exec env mom (.redeliver auth mid') b).2 = (redeliver env mom.now auth mid' b).2 from
      Call.map_snd]
    exact redeliver_rowsFor fun heq => hredeliver auth (heq ▸ rfl)
  | _ => exact hother (by simp [kindsOf, writesRows])

end Proof
end XBus
