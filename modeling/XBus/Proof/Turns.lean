import XBus.Reading
import XBus.Proof.Steps

/-!
# What a step does to the threads

Of a thread three numbers matter: the sequence of its last turn, the sequence its next turn gets,
and the operator's cursor. They are its `Threading`, and what the operations write is a handful of
changes of it. A step either keeps the threading and the messages, or it adds one turn to one
thread.
-/

set_option autoImplicit false

namespace XBus
namespace Proof

open Lib

variable {env : Env} {mom : Moment} {now : Iso} {auth : SessionAuthority} {b b' : Broker}
  {tid root : Id} {sid : SessionId} {author : AuthorType}

/-! ## The three numbers -/

@[ext] structure Threading where
  last : Id → Option Nat
  next : Id → Nat
  cursor : Id → Option Nat

namespace Threading

def ensure (v : Threading) (tid : Id) : Threading :=
  { v with last := fun t => (v.last t).or (if t = tid then some 0 else none) }

def alloc (v : Threading) (tid : Id) : Threading :=
  { v with next := fun t => if t = tid then v.next t + 1 else v.next t }

def join (v : Threading) (tid : Id) (sid : SessionId) : Threading :=
  { v with cursor := fun t =>
      (v.cursor t).or (if t = tid ∧ sid = operatorSessionId then some 0 else none) }

def touch (v : Threading) (tid : Id) (n : Nat) : Threading :=
  { v with last := fun t => if t = tid then (v.last t).map (max · n) else v.last t }

def mark (v : Threading) (tid : Id) (n : Nat) : Threading :=
  { v with cursor := fun t =>
      if t = tid then some (max ((v.cursor t).getD 0) n) else v.cursor t }

end Threading

def threading (b : Broker) : Threading := ⟨b.lastSequenceOf, b.nextThreadSequence, b.cursorOf⟩

theorem SameThreads.threading_eq (h : SameThreads b b') : threading b' = threading b := by
  unfold threading
  congr 1
  · funext t
    rw [Broker.lastSequenceOf, Broker.lastSequenceOf, h.threads]
  · funext t
    rw [Broker.nextThreadSequence, Broker.nextThreadSequence, h.threadSequences]
  · funext t
    rw [Broker.cursorOf, Broker.cursorOf, h.threadParticipants]

theorem threading_ensureThread :
    threading (b.ensureThread tid root) = (threading b).ensure tid := by
  ext t : 2
  · show (List.find? _ (insertOrIgnore _ _ _)).map _ = _
    rw [find?_insertOrIgnore]
    simp only [Threading.ensure, threading, Broker.lastSequenceOf]
    cases b.threads.find? fun r => r.threadId = t with
    | some r => simp
    | none =>
      by_cases ht : t = tid
      · simp [ht]
      · simp [ht]
  · show ((List.find? _ (insertOrIgnore _ _ _)).map _).getD 1 = b.nextThreadSequence t
    rw [find?_insertOrIgnore, Broker.nextThreadSequence]
    cases hf : b.threadSequences.find? fun r => r.threadId = t with
    | some r => rfl
    | none =>
      by_cases ht : t = tid
      · simp [ht]
      · simp [ht]
  · rfl

theorem threading_allocThreadSequence :
    threading (b.allocThreadSequence tid) = (threading b).alloc tid := by
  ext t : 2
  · rfl
  · show ((List.find? _ (insertOrReplace _ _ _)).map _).getD 1 = _
    rw [find?_insertOrReplace]
    by_cases ht : t = tid
    · simp [Threading.alloc, threading, ht]
    · simp [Threading.alloc, threading, Broker.nextThreadSequence, ht]
  · rfl

theorem threading_ensureParticipant :
    threading (b.ensureParticipant tid sid author now) = (threading b).join tid sid := by
  ext t : 2
  · rfl
  · rfl
  · have hkey :
      (fun p : ThreadParticipant => decide (p.threadId = t ∧ p.sessionId = operatorSessionId)) =
        fun p => decide ((p.threadId, p.sessionId) = (t, operatorSessionId)) := by
      funext p
      simp only [Prod.mk.injEq]
    show (List.find? _ (insertOrIgnore _ _ _)).map _ = _
    simp only [hkey]
    rw [find?_insertOrIgnore]
    simp only [Threading.join, threading, Broker.cursorOf, hkey]
    cases hf : b.threadParticipants.find? fun p =>
        (p.threadId, p.sessionId) = (t, operatorSessionId) with
    | some p => simp
    | none =>
      by_cases hjoin : t = tid ∧ sid = operatorSessionId
      · simp [hjoin]
      · have hne : ¬ (t, operatorSessionId) = (tid, sid) := by
          rintro ⟨⟩
          exact hjoin ⟨rfl, rfl⟩
        simp [hjoin, hne]

theorem threading_touchThread {n : Nat} :
    threading (b.touchThread tid n) = (threading b).touch tid n := by
  ext t : 2
  · show (List.find? _ (updateWhere _ _ _)).map _ = _
    rw [find?_updateWhere]
    swap
    · exact fun _ => rfl
    simp only [Threading.touch, threading, Broker.lastSequenceOf]
    cases hf : b.threads.find? fun r => r.threadId = t with
    | none => simp
    | some r =>
      have hr : r.threadId = t := by simpa using List.find?_some hf
      by_cases ht : t = tid
      · simp [hr, ht]
      · simp [hr, ht]
  · rfl
  · rfl

theorem threading_setSubject {input : OperatorSendInput} :
    threading (b.setSubject input tid) = threading b := by
  unfold Broker.setSubject
  split
  · ext t : 2
    · show (List.find? _ (updateWhere _ _ _)).map _ = _
      rw [find?_updateWhere]
      swap
      · exact fun _ => rfl
      show _ = (b.threads.find? _).map _
      cases b.threads.find? fun r => r.threadId = t with
      | none => rfl
      | some r =>
        simp only [Option.map_some]
        split <;> rfl
    · rfl
    · rfl
  · rfl

/-- A participant that is not the operator has a cursor of its own. -/
theorem threading_otherCursor {n : Nat} (hsid : sid ≠ operatorSessionId) :
    threading { b with
      threadParticipants := updateWhere (fun p => p.threadId = tid ∧ p.sessionId = sid)
        (fun p => { p with lastReadThreadSeq := max p.lastReadThreadSeq n })
        b.threadParticipants } = threading b := by
  ext t : 2
  · rfl
  · rfl
  · show (List.find? _ (updateWhere _ _ _)).map _ = (List.find? _ b.threadParticipants).map _
    rw [find?_updateWhere]
    swap
    · exact fun _ => rfl
    cases hf : b.threadParticipants.find? fun p =>
        p.threadId = t ∧ p.sessionId = operatorSessionId with
    | none => rfl
    | some p =>
      have hp := List.find?_some hf
      rw [decide_eq_true_eq] at hp
      have hne : ¬ (p.threadId = tid ∧ p.sessionId = sid) := fun h => hsid (h.2.symm.trans hp.2)
      simp [hne]

theorem threading_deleteSession (hsid : sid ≠ operatorSessionId) :
    threading (b.deleteSession sid now) = threading b := by
  ext t : 2
  · rfl
  · rfl
  · show (List.find? _ (b.threadParticipants.filter _)).map _ = (List.find? _ _).map _
    rw [List.find?_filter]
    congr 2
    funext p
    by_cases hp : p.sessionId = operatorSessionId
    · simp [hp, Ne.symm hsid]
    · simp [hp]

/-! ## One step -/

/-- Neither the threads nor the messages have changed, as far as anybody counts them. -/
structure Still (b b' : Broker) : Prop where
  threading : threading b' = threading b
  messages : b'.messages = b.messages

instance : IsFrame Still where
  refl _ := ⟨rfl, rfl⟩
  trans h h' := ⟨h'.threading.trans h.threading, h'.messages.trans h.messages⟩

theorem SameThreads.still (h : SameThreads b b') (messages : b'.messages = b.messages) :
    Still b b' := ⟨h.threading_eq, messages⟩

theorem MailOnly.still (h : MailOnly b b') : Still b b' := h.turns.still h.messages

theorem NamesOnly.still (h : NamesOnly b b') : Still b b' := h.turns.still h.messages

/-- Moves other than a posting do not change them. -/
theorem Move.still {k : Kind} (h : Move env k b b') (hpost : k ≠ .post) (hanswer : k ≠ .answer) :
    Still b b' := by
  -- Only a post and an answer add a turn.
  cases h with
  | note h => exact h.toSameThreads.still h.messages
  | restate => exact SameThreads.still ⟨rfl, rfl, rfl⟩ rfl
  | redrive => exact SameThreads.still ⟨rfl, rfl, rfl⟩ rfl
  | consume => exact SameThreads.still ⟨rfl, rfl, rfl⟩ rfl
  | inject now auth ck audited m => exact (injectOne_spec env now auth ck audited m b).rest.still
  | reissue => exact MailOnly.still (IsFrame.trans (.of_bookkeeping .mint) .issue)
  | post => exact absurd rfl hpost
  | answer => exact absurd rfl hanswer
  | create input =>
    obtain ⟨as, es, n, hb', -⟩ := createSession_eq b env input
    rw [hb']
    exact SameThreads.still ⟨rfl, rfl, rfl⟩ rfl
  | dormant => exact SameThreads.still ⟨rfl, rfl, rfl⟩ rfl
  | @advance _ now sid resume s =>
    obtain ⟨is, as, es, n, hb', -⟩ := advanceEpoch_eq b env now sid (s.activeEpoch + 1) resume
    rw [hb']
    exact SameThreads.still ⟨rfl, rfl, rfl⟩ rfl
  | join =>
    rw [joinEpoch_eq]
    exact SameThreads.still ⟨rfl, rfl, rfl⟩ rfl
  | component => exact SameThreads.still ⟨rfl, rfl, rfl⟩ rfl
  | redirect => exact SameThreads.still ⟨rfl, rfl, rfl⟩ rfl
  | claim => exact NamesOnly.claim.still
  | rename => exact NamesOnly.rename.still
  | operatorRename => exact NamesOnly.operatorRename.still
  | reclaim => exact NamesOnly.still (IsFrame.trans NamesOnly.forfeit .rename)
  | tombstone sid now =>
    obtain ⟨as, es, ds, hb', -⟩ := tombstone_eq b sid now
    rw [hb']
    exact SameThreads.still ⟨rfl, rfl, rfl⟩ rfl
  | lapse => exact NamesOnly.lapse.still
  | close => exact SameThreads.still ⟨rfl, rfl, rfl⟩ rfl
  | remove sid now mortal => exact ⟨threading_deleteSession mortal, rfl⟩
  | operator =>
    unfold Broker.ensureOperatorSession
    split
    · exact SameThreads.still ⟨rfl, rfl, rfl⟩ rfl
    · exact SameThreads.still ⟨rfl, rfl, rfl⟩ rfl

/-- What a step does to threads and messages. -/
inductive Turned (b b' : Broker) : Prop
  | still (h : Still b b') : Turned b b'
  /-- A turn in a thread that is opened if it is not there, and that two sessions take part in. -/
  | opened (m : Message) (tid : Id) (from' to' : SessionId) (thread : m.threadId = some tid)
      (sequence : m.threadSequence = b.nextThreadSequence tid)
      (messages : b'.messages = b.messages ++ [m])
      (after : threading b' = (((((threading b).ensure tid).alloc tid).join tid from').join tid
        to').touch tid (b.nextThreadSequence tid)) : Turned b b'
  /-- A turn in the thread of the message it answers. -/
  | answered (m : Message) (tid : Id) (thread : m.threadId = some tid)
      (sequence : m.threadSequence = b.nextThreadSequence tid)
      (messages : b'.messages = b.messages ++ [m])
      (after : threading b' = ((threading b).alloc tid).touch tid (b.nextThreadSequence tid)) :
      Turned b b'

theorem Turned.rfl' : Turned b b := .still (IsFrame.refl b)

theorem threading_openTurn {from' to' : SessionId} :
    threading (b.openTurn tid root from' to' author now) =
      ((((threading b).ensure tid).alloc tid).join tid from').join tid to' := by
  unfold Broker.openTurn
  rw [threading_ensureParticipant, threading_ensureParticipant, threading_allocThreadSequence,
    threading_ensureThread]

theorem nextThreadSequence_ensureThread :
    (b.ensureThread tid root).nextThreadSequence tid = b.nextThreadSequence tid :=
  congrFun (congrArg Threading.next threading_ensureThread) tid

theorem allocSequence_sameThreads {n : Nat} (h : allocSequence sid b = (.ok n, b')) :
    SameThreads b b' ∧ b'.messages = b.messages := by
  simp only [allocSequence, Call.get_bind, Call.modify_bind, Call.bind_ok, Call.require_ok,
    Call.pure_ok] at h
  obtain ⟨_, _, ⟨-, rfl⟩, -, rfl⟩ := h
  exact ⟨⟨rfl, rfl, rfl⟩, rfl⟩

theorem insertMessage_sameThreads {m : Message} (h : insertMessage m b = (.ok (), b')) :
    SameThreads b b' ∧ b'.messages = b.messages ++ [m] := by
  simp only [insertMessage, Call.get_bind, Call.bind_ok, Call.require_ok, Call.modify_ok] at h
  obtain ⟨_, _, ⟨-, rfl⟩, _, _, ⟨-, rfl⟩, rfl⟩ := h
  exact ⟨⟨rfl, rfl, rfl⟩, rfl⟩

theorem enqueue_sameThreads {mid : Id} : SameThreads b (b.enqueue mid sid now) := ⟨rfl, rfl, rfl⟩

/-- What follows the row of a message, whichever bookkeeping comes last. -/
theorem threading_queued {n : Nat} {mid : Id} {to' : SessionId}
    (h : SameThreads ((b.touchThread tid n).enqueue mid to' now) b') :
    threading b' = (threading b).touch tid n := by
  rw [h.threading_eq, enqueue_sameThreads.threading_eq, threading_touchThread]

theorem threading_queueReply (hpeer : auth.sessionId ≠ operatorSessionId) {orig : Message}
    {rid : Id} {n : Nat} :
    threading (b.queueReply auth orig now rid tid n) = (threading b).touch tid n := by
  unfold Broker.queueReply
  rw [enqueue_sameThreads.threading_eq, threading_otherCursor hpeer, threading_touchThread]

theorem threading_mints : threading b.mint.mint = threading b :=
  SameThreads.threading_eq ⟨rfl, rfl, rfl⟩

theorem send_turned {input : SendInput} {r : SendResult}
    (h : send env now auth input b = (.ok r, b')) : Turned b b' := by
  simp only [send, sendTransaction, Call.transaction_ok, Call.get_bind] at h
  cases hdup : b.duplicateOf auth.sessionId input.idempotencyKey with
  | some dup =>
    simp only [hdup, Call.bind_ok, Call.requireElse_ok, Call.pure_ok] at h
    obtain ⟨_, _, ⟨_, rfl⟩, rfl, rfl⟩ := h
    exact .rfl'
  | none =>
    simp only [hdup, Call.bind_ok, Call.lift_ok, Call.requireElse_ok,
      Call.act_bind, Call.modify_bind,
      Call.pure_ok] at h
    obtain ⟨recipient, _, ⟨-, rfl⟩, _, _, ⟨-, rfl⟩, _, _, ⟨-, rfl⟩, sequence, b₂, halloc,
      expiresAt, _, ⟨-, rfl⟩, _, b₄, hinsert, -, rfl⟩ := h
    obtain ⟨hsame₂, hmsgs₂⟩ := allocSequence_sameThreads halloc
    obtain ⟨hsame₄, hmsgs₄⟩ := insertMessage_sameThreads hinsert
    have hbefore : threading b₂ = threading b := hsame₂.threading_eq.trans threading_mints
    have hnext : (b₂.ensureThread b.nextId b.nextId).nextThreadSequence b.nextId =
        b.nextThreadSequence b.nextId :=
      nextThreadSequence_ensureThread.trans (congrFun (congrArg Threading.next hbefore) b.nextId)
    rw [TurnKeeping.openTurn.messages, hmsgs₂] at hmsgs₄
    refine .opened _ b.nextId auth.sessionId recipient.1 ?_ ?_ hmsgs₄ ?_
    · rfl
    · exact hnext
    · refine (threading_queued (IsFrame.trans Bookkeeping.refresh .audit :
        Bookkeeping _ _).toSameThreads).trans ?_
      rw [hsame₄.threading_eq, threading_openTurn, hbefore, hnext]

theorem operatorSend_turned {input : OperatorSendInput} {r : SendResult}
    (h : operatorSend env now input b = (.ok r, b')) : Turned b b' := by
  simp only [operatorSend, Call.transaction_ok, Call.get_bind] at h
  cases hdup : b.duplicateOf operatorSessionId input.idempotencyKey with
  | some dup =>
    simp only [hdup, Call.pure_ok] at h
    obtain ⟨rfl, rfl⟩ := h
    exact .rfl'
  | none =>
    simp only [hdup, Call.bind_ok, Call.lift_ok, Call.require_ok, Call.act_bind,
      Call.modify_bind, Call.pure_ok] at h
    obtain ⟨recipient, _, ⟨-, rfl⟩, _, _, ⟨-, rfl⟩, _, _, ⟨-, rfl⟩, place, _, ⟨-, rfl⟩,
      sequence, b₂, halloc, expiresAt, _, ⟨-, rfl⟩, _, b₄, hinsert, -, rfl⟩ := h
    obtain ⟨hsame₂, hmsgs₂⟩ := allocSequence_sameThreads halloc
    obtain ⟨hsame₄, hmsgs₄⟩ := insertMessage_sameThreads hinsert
    have hnext : (b.mint.mint.ensureThread place.threadId place.rootMessageId).nextThreadSequence
        place.threadId = b.nextThreadSequence place.threadId :=
      nextThreadSequence_ensureThread.trans
        (congrFun (congrArg Threading.next threading_mints) place.threadId)
    rw [hmsgs₂, TurnKeeping.setSubject.messages, TurnKeeping.openTurn.messages] at hmsgs₄
    refine .opened _ place.threadId operatorSessionId recipient.1 ?_ ?_ hmsgs₄ ?_
    · rfl
    · exact hnext
    · refine (threading_queued Bookkeeping.audit.toSameThreads).trans ?_
      rw [hsame₄.threading_eq, hsame₂.threading_eq, threading_setSubject,
        threading_openTurn, threading_mints, hnext]

theorem settleReply_sameThreads {input : ReplyInput} {o : Option Id} :
    SameThreads b (b.settleReply auth input now o) := by
  cases o with
  | none => exact ⟨rfl, rfl, rfl⟩
  | some i => exact ⟨rfl, rfl, rfl⟩

theorem reply_turned (hpeer : auth.sessionId ≠ operatorSessionId) {input : ReplyInput}
    {r : SendResult} (h : reply env now auth input b = (.ok r, b')) : Turned b b' := by
  simp only [reply, replyTransaction, assertAllowed, Call.bind_ok, Call.require_ok,
    assertCurrentEpoch_ok,
    Call.transaction_ok, Call.get_bind, Call.orThrow_ok] at h
  obtain ⟨_, _, ⟨_, rfl⟩, _, _, ⟨-, rfl⟩, orig, _, ⟨-, rfl⟩, _, _, ⟨-, rfl⟩, h⟩ := h
  cases hdup : b.duplicateOf auth.sessionId input.idempotencyKey with
  | some dup =>
    simp only [hdup, Call.pure_ok] at h
    obtain ⟨rfl, rfl⟩ := h
    exact .rfl'
  | none =>
    simp only [hdup, Call.bind_ok, authorizeIfRequired_ok, Call.requireElse_ok,
      Call.modify_bind, Call.pure_ok] at h
    obtain ⟨injectionId, _, ⟨rfl, -⟩, _, _, ⟨-, rfl⟩, sequence, b₂, halloc, _, b₄, hinsert, -,
      rfl⟩ := h
    obtain ⟨hsame₂, hmsgs₂⟩ := allocSequence_sameThreads halloc
    obtain ⟨hsame₄, hmsgs₄⟩ := insertMessage_sameThreads hinsert
    replace hmsgs₂ : (b₂.allocThreadSequence (orig.threadId.getD orig.correlationId)).messages =
        b.messages := hmsgs₂
    rw [hmsgs₂] at hmsgs₄
    refine .answered _ (orig.threadId.getD orig.correlationId) ?_ ?_
      (settleReply_messages.trans hmsgs₄) ?_
    · rfl
    · rfl
    · rw [settleReply_sameThreads.threading_eq, threading_queueReply hpeer, hsame₄.threading_eq,
        threading_allocThreadSequence, hsame₂.threading_eq]
      rfl

/-- A call that posts or is taken back. -/
theorem turned_of_ok {α : Type} {x : BrokerCall α} (hok : ∀ r b', x b = (.ok r, b') → Turned b b')
    (herror : Refuses Still x) : Turned b (x b).2 := by
  rcases hx : x b with ⟨e | r, b'⟩
  · exact .still (herror b e b' hx)
  · exact hok r b' hx

theorem still_of_moves {kinds : List Kind} (h : Moves env kinds b b') (hpost : .post ∉ kinds)
    (hanswer : .answer ∉ kinds) : Still b b' := by
  refine h.frame fun b b' k hk hmove => hmove.still ?_ ?_
  · rintro rfl
    exact hpost hk
  · rintro rfl
    exact hanswer hk

/-- Every operation but a reply in the operator's name keeps the threads or adds one turn. -/
theorem exec_turned (env : Env) (mom : Moment) (op : Op) (b : Broker)
    (hpeer : ∀ auth input, op = .reply auth input → auth.sessionId ≠ operatorSessionId) :
    Turned b (exec env mom op b).2 := by
  have hmoves := exec_moves env mom op b false (by simp)
  have hrest (hpost : .post ∉ kindsOf false op) (hanswer : .answer ∉ kindsOf false op) :
      Turned b (exec env mom op b).2 := .still (still_of_moves hmoves hpost hanswer)
  cases op with
  | send auth input =>
    show Turned b ((Response.sent <$> send env mom.now auth input) b).2
    rw [Call.map_snd]
    exact turned_of_ok (fun r b' => send_turned) (Refuses.transaction _)
  | operatorSend input =>
    show Turned b ((Response.sent <$> operatorSend env mom.now input) b).2
    rw [Call.map_snd]
    exact turned_of_ok (fun r b' => operatorSend_turned) (Refuses.transaction _)
  | reply auth input =>
    show Turned b ((Response.sent <$> reply env mom.now auth input) b).2
    rw [Call.map_snd]
    refine turned_of_ok (fun r b' => reply_turned (hpeer auth input rfl)) fun b e b' h => ?_
    have hbooks := reply_refuses b e b' h
    exact hbooks.toSameThreads.still hbooks.messages
  | register => exact hrest (by simp [kindsOf, registerKinds]) (by simp [kindsOf, registerKinds])
  | _ => exact hrest (by simp [kindsOf]) (by simp [kindsOf])

/-! ## The mark -/

theorem threading_mark {n : Nat} (hc : b.cursorOf tid ≠ none) :
    threading { b with
      threadParticipants := updateWhere
        (fun p => p.threadId = tid ∧ p.sessionId = operatorSessionId)
        (fun p => { p with lastReadThreadSeq := max ((b.cursorOf tid).getD 0) n })
        b.threadParticipants } = (threading b).mark tid n := by
  ext t : 2
  · rfl
  · rfl
  · show (List.find? _ (updateWhere _ _ _)).map _ = _
    rw [find?_updateWhere]
    swap
    · exact fun _ => rfl
    by_cases ht : t = tid
    · subst ht
      obtain ⟨p, hp⟩ : ∃ p, b.threadParticipants.find? (fun p =>
          p.threadId = t ∧ p.sessionId = operatorSessionId) = some p := by
        refine Option.ne_none_iff_exists'.mp fun hnone => hc ?_
        rw [Broker.cursorOf, hnone]
        rfl
      have hkey := List.find?_some hp
      rw [decide_eq_true_eq] at hkey
      rw [hp]
      simp [Threading.mark, threading, hkey]
    · simp only [Threading.mark, threading, Broker.cursorOf, if_neg ht]
      cases hf : b.threadParticipants.find? fun p =>
          p.threadId = t ∧ p.sessionId = operatorSessionId with
      | none => rfl
      | some p =>
        have hp := List.find?_some hf
        rw [decide_eq_true_eq] at hp
        have hne : ¬ (p.threadId = tid ∧ p.sessionId = operatorSessionId) :=
          fun h => ht (hp.1.symm.trans h.1)
        simp [hne]

/-- A mark of a thread that is there moves the cursor up. -/
theorem markThreadRead_ok {upTo n : Nat} (h : markThreadRead now tid upTo b = (.ok n, b')) :
    threading b' = ((threading b).join tid operatorSessionId).mark tid upTo ∧
      b'.messages = b.messages ∧ ∃ l, b.lastSequenceOf tid = some l := by
  simp only [markThreadRead, Call.transaction_ok, Call.get_bind, Call.bind_ok, Call.require_ok,
    Call.modify_bind, Call.pure_ok] at h
  obtain ⟨_, _, ⟨hthere, rfl⟩, -, rfl⟩ := h
  have hjoin : threading (b.ensureParticipant tid operatorSessionId .operator now) =
      (threading b).join tid operatorSessionId := threading_ensureParticipant
  refine ⟨?_, rfl, ?_⟩
  · refine (threading_mark fun hnone => ?_).trans (congrArg (Threading.mark · tid upTo) hjoin)
    have hcursor := (congrFun (congrArg Threading.cursor hjoin) tid).symm.trans hnone
    simp [Threading.join] at hcursor
  · obtain ⟨t, ht, htid⟩ := List.any_eq_true.mp hthere
    rw [Broker.lastSequenceOf, ← Option.isSome_iff_exists, Option.isSome_map,
      List.find?_isSome]
    exact ⟨t, ht, htid⟩

end Proof
end XBus
