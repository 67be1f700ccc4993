import XBus.Proof.Forecast
import XBus.Proof.Writes

/-!
# The way of an answer

A pull commits first and answers then. The frame of the answer may be too long for `seal` or for
`encodeFrame`, and all that happens then is a line in the log. How long it will be is known before
the pull: the ids of the new injections, which are not, are all equally long (`Response.blur` takes
none of the length away).

`Accounted` is the other half: what stands presented, or is recorded as shown, is among the
messages whose body was written. Nothing but a pull adds to it, and a pull only what it answers
with (`PullForetold.accounted`).
-/

set_option autoImplicit false

namespace XBus
namespace Proof

open Lib

/-! ## The length of an answer -/

section Length

variable {ν : Type} [JsNumber ν] {rn : Rendering}

/-- Two payloads whose JSON is equally long. -/
def SameSize (ν : Type) [JsNumber ν] (v w : JsonValue) : Prop :=
  (v.encode : Json ν).size = (w.encode : Json ν).size

@[simp] theorem SameSize.refl (v : JsonValue) : SameSize ν v v := rfl

theorem encodeItems_eq (vs : List JsonValue) :
    (JsonValue.encodeItems vs : List (Json ν)) = vs.map (·.encode) := by
  induction vs with
  | nil => rfl
  | cons v vs ih => rw [JsonValue.encodeItems, ih, List.map_cons]

theorem encodeMembers_eq (ms : List (String × JsonValue)) :
    (JsonValue.encodeMembers ms : List (JsString × Json ν)) =
      ms.map fun m => (utf16 m.1, m.2.encode) := by
  induction ms with
  | nil => rfl
  | cons m ms ih => rw [JsonValue.encodeMembers, ih, List.map_cons]

theorem sameSize_arr {vs ws : List JsonValue} (h : List.Forall₂ (SameSize ν) vs ws) :
    SameSize ν (.arr vs) (.arr ws) := by
  refine Json.size_arr ?_
  rw [encodeItems_eq, encodeItems_eq, List.forall₂_map_left_iff, List.forall₂_map_right_iff]
  exact h

theorem sameSize_obj {ms ms' : List (String × JsonValue)}
    (h : List.Forall₂ (fun m m' => m.1 = m'.1 ∧ SameSize ν m.2 m'.2) ms ms') :
    SameSize ν (.obj ms) (.obj ms') := by
  have hms : Json.SameSizes (JsonValue.encodeMembers ms : List (JsString × Json ν))
      (JsonValue.encodeMembers ms') := by
    rw [encodeMembers_eq, encodeMembers_eq, Json.SameSizes, List.forall₂_map_left_iff,
      List.forall₂_map_right_iff]
    exact List.Forall₂.imp (fun m m' hm => ⟨congrArg utf16 hm.1, hm.2⟩) h
  exact Json.size_obj hms.setMembers

/-- A string of plain characters takes its length and two quotes. -/
theorem size_plain {s : String} (h : ∀ c ∈ s.toList, isPlain c) :
    ((JsonValue.str s).encode : Json ν).size = s.toList.length + 2 := by
  have htext : ((JsonValue.str s).encode : Json ν).text = '"' :: (s.toList ++ ['"']) := by
    rw [JsonValue.encode, Json.text, quote, utf16, quoted_plain h]
  have hquote : (String.utf8EncodeChar '"').length = 1 := by decide
  rw [Json.size, htext]
  simp only [utf8_cons, utf8_append, utf8_nil, List.length_append, length_utf8_plain h, hquote,
    List.length_nil]
  omega

/-- Of a control character without a short escape, six bytes are written. -/
theorem size_control (n : Nat) :
    ((JsonValue.str (String.ofList (List.replicate n '\x01'))).encode : Json ν).size =
      6 * n + 2 := by
  have hquoted : (utf8 (quoted ((List.replicate n '\x01').flatMap units))).length =
      6 * n + 1 := by
    induction n with
    | zero => decide
    | succ n ih =>
      have hescape : (utf8 (escapeUnit 1)).length = 6 := by decide
      rw [List.replicate_succ, List.flatMap_cons, show units '\x01' = [1] by decide,
        List.singleton_append, quoted_cons (by decide), utf8_append, List.length_append, hescape,
        ih]
      omega
  have hquote : (String.utf8EncodeChar '"').length = 1 := by decide
  rw [Json.size, JsonValue.encode, Json.text, quote, utf16, String.toList_ofList, utf8_cons,
    List.length_append, hquote, hquoted]
  omega

/-- An object with distinct keys is longer than any of its fields. -/
theorem size_le_field {ms : List (String × JsonValue)} {m : String × JsonValue}
    (hkeys : (ms.map fun m => utf16 m.1).Nodup) (hm : m ∈ ms) :
    (m.2.encode : Json ν).size ≤ ((JsonValue.obj ms).encode : Json ν).size := by
  have hset : Json.setMembers (JsonValue.encodeMembers ms : List (JsString × Json ν)) =
      ms.map fun m => (utf16 m.1, m.2.encode) := by
    rw [encodeMembers_eq, Json.setMembers_eq]
    rw [List.map_map]
    exact hkeys
  rw [JsonValue.encode, hset]
  exact Json.size_le_obj (m := (utf16 m.1, m.2.encode)) (List.mem_map.mpr ⟨m, hm, rfl⟩)

@[simp] theorem sameSize_id (i j : Id) : SameSize ν (rn.id i) (rn.id j) := by
  rw [SameSize, Rendering.id, Rendering.id, size_plain (rn.idText_plain i),
    size_plain (rn.idText_plain j), rn.idText_length, rn.idText_length]

@[simp] theorem sameSize_orNull {x : Option Id} :
    SameSize ν (Rendering.orNull rn.id (x.map fun _ => 0)) (Rendering.orNull rn.id x) := by
  cases x with
  | none => exact .refl _
  | some i => exact sameSize_id 0 i

@[simp] theorem sameSize_metadata {metadata : Option Metadata} {x : Option Id} :
    SameSize ν (rn.injectedMetadata metadata (x.map fun _ => 0))
      (rn.injectedMetadata metadata x) := by
  cases x with
  | none => exact .refl _
  | some i =>
    refine sameSize_obj (List.rel_append (List.forall₂_same.mpr fun _ _ => ⟨rfl, .refl _⟩) ?_)
    exact .cons ⟨rfl, sameSize_id 0 i⟩ .nil

theorem sameSize_pending (m : PendingMessage) :
    SameSize ν (rn.pendingMessage m.blur) (rn.pendingMessage m) := by
  refine sameSize_obj ?_
  simp [PendingMessage.blur]

theorem sameSize_entryBody (e : InboxEntry) :
    List.Forall₂ (fun m m' => m.1 = m'.1 ∧ SameSize ν m.2 m'.2) (rn.entryBody e.blur)
      (rn.entryBody e) := by
  have hmetadata : SameSize ν (rn.entryMetadata e.blur) (rn.entryMetadata e) := by
    by_cases hfirst : e.state = .queuedNotInjected
    · simp [Rendering.entryMetadata, InboxEntry.blur, hfirst]
    · simp [Rendering.entryMetadata, InboxEntry.blur, hfirst]
  cases htext : e.text with
  | none => simp [Rendering.entryBody, InboxEntry.blur, htext]
  | some text =>
    have htext' : e.blur.text = some text := htext
    simp [Rendering.entryBody, htext, htext', hmetadata]

theorem sameSize_entry (e : InboxEntry) :
    SameSize ν (rn.inboxEntry e.blur) (rn.inboxEntry e) := by
  refine sameSize_obj (List.rel_append (List.rel_append ?_ (sameSize_entryBody e)) ?_)
  · simp [InboxEntry.blur, InboxEntry.bodyIncluded]
  · simp [InboxEntry.blur]

/-- The payloads of an answer and of its blur. -/
theorem payload_blur (rn : Rendering) (response : Response) :
    (rn.payload response.blur = none ∧ rn.payload response = none) ∨
      ∃ p q, rn.payload response.blur = some q ∧ rn.payload response = some p ∧
        SameSize ν q p := by
  have hmessages {vs ws : List JsonValue} (h : List.Forall₂ (SameSize ν) vs ws) :
      SameSize ν (.obj [("messages", .arr vs)]) (.obj [("messages", .arr ws)]) :=
    sameSize_obj (.cons ⟨rfl, sameSize_arr h⟩ .nil)
  cases response with
  | bodies ms =>
    refine .inr ⟨_, _, rfl, rfl, hmessages ?_⟩
    rw [List.map_map, List.forall₂_map_left_iff, List.forall₂_map_right_iff]
    exact List.forall₂_same.mpr fun m _ => sameSize_pending m
  | inbox es =>
    refine .inr ⟨_, _, rfl, rfl, hmessages ?_⟩
    rw [List.map_map, List.forall₂_map_left_iff, List.forall₂_map_right_iff]
    exact List.forall₂_same.mpr fun e _ => sameSize_entry e
  | redelivered entry =>
    cases entry with
    | none => exact .inl ⟨rfl, rfl⟩
    | some e =>
      exact .inr ⟨_, _, rfl, rfl,
        sameSize_obj (.cons ⟨rfl, sameSize_entry e⟩ (.cons ⟨rfl, .refl _⟩ .nil))⟩
  | listed ms => exact .inr ⟨_, _, rfl, rfl, .refl _⟩
  | _ => exact .inl ⟨rfl, rfl⟩

/-- **The length of an answer does not depend on the ids of its injections.** -/
theorem responseFrame_blur (ν : Type) [JsNumber ν] (rn : Rendering) (r : Request)
    (response : Response) (requestId : Option JsonValue) (now : Iso) :
    (responseFrame ν rn r response.blur requestId now).map (·.stringify.length) =
      (responseFrame ν rn r response requestId now).map (·.stringify.length) := by
  unfold responseFrame
  cases r.ackType with
  | none => rfl
  | some frameType =>
    rcases payload_blur (ν := ν) rn response with ⟨hblur, hplain⟩ | ⟨p, q, hblur, hplain, hsize⟩
    · rw [hblur, hplain]
    · rw [hblur, hplain]
      refine congrArg some (sameSize_obj (List.rel_append ?_
        (List.forall₂_same.mpr fun _ _ => ⟨rfl, .refl _⟩)))
      simpa using hsize

end Length

/-! ## The room of a connection -/

/-- The length a frame has to stay below on a connection as it is. -/
def room (c : ConnEntry) : Nat :=
  match c.secure with
  | none => frameBytes + 1
  | some session => if session.sendSeq < 0xffffffff then wireLimit else 0

section Room

open SecureSession

variable {ν : Type} [JsNumber ν] {senv : ServerEnv ν} {s : IpcServer ν} {frame : Value ν}

theorem encodeFrame_room :
    (∃ bytes, encodeFrame frame = .ok bytes) ↔ frame.stringify.length < frameBytes + 1 := by
  unfold encodeFrame
  dsimp only
  by_cases hlong : frame.stringify.length > frameBytes
  · rw [if_pos hlong]
    exact ⟨fun ⟨_, h⟩ => (nomatch h), fun h => absurd h (by omega)⟩
  · have hword : frame.stringify.length < 4294967296 := by
      simp only [frameBytes] at hlong
      omega
    rw [if_neg hlong, if_pos hword]
    exact ⟨fun _ => by omega, fun _ => ⟨_, rfl⟩⟩

theorem secureWrite_room (frame : Value ν) (aead : Aead) (session : SecureSession) :
    (∃ bytes, (secureWrite aead frame session).1 = .ok bytes) ↔
      frame.stringify.length < if session.sendSeq < 0xffffffff then wireLimit else 0 := by
  have hgap : wireLimit ≤ maxPlaintext := by decide
  rcases hwrite : secureWrite aead frame session with ⟨e | bytes, session'⟩
  · refine ⟨fun ⟨_, h⟩ => (nomatch h), fun hroom => ?_⟩
    rcases secureWrite_error hwrite with ⟨-, hlong | hend⟩ | ⟨-, hseq, hlong, -⟩
    · split at hroom <;> omega
    · rw [if_neg (by omega)] at hroom
      omega
    · rw [if_pos hseq] at hroom
      omega
  · refine ⟨fun _ => ?_, fun _ => ⟨bytes, rfl⟩⟩
    obtain ⟨buf, hseal, hencode⟩ := secureWrite_ok hwrite
    obtain ⟨-, hseq, hbuf, -⟩ := sealFrame_ok hseal
    rw [if_pos hseq]
    have hshort : ¬ wireLimit + 32 ≤ buf.length := fun hlong => by
      obtain ⟨e, herror⟩ := (encodeFrame_wrapped (ν := ν) buf).mpr hlong
      rw [hencode] at herror
      cases herror
    rw [hbuf, length_bufferOf] at hshort
    omega

/-- **`send` writes the frame exactly if the connection has room for it**; otherwise it leaves no
    trace. -/
theorem send_room (senv : ServerEnv ν) (frame : Value ν) {conn : ConnId} {c : ConnEntry}
    (hopen : s.conn? conn = some c) :
    (frame.stringify.length < room c ∧
      ∃ bytes, (IpcServer.send senv conn frame s).trace = s.trace ++ [.wrote conn bytes]) ∨
    (¬ frame.stringify.length < room c ∧
      (IpcServer.send senv conn frame s).trace = s.trace) := by
  simp only [IpcServer.send, hopen, room]
  cases hsecure : c.secure with
  | none =>
    simp only [← encodeFrame_room]
    cases hencode : encodeFrame frame with
    | ok bytes => exact .inl ⟨⟨bytes, rfl⟩, bytes, rfl⟩
    | error e => exact .inr ⟨fun ⟨_, h⟩ => (nomatch h), rfl⟩
  | some session =>
    have hroom := secureWrite_room frame senv.aead session
    simp only [← hroom]
    cases hwrite : (secureWrite senv.aead frame session).1 with
    | ok bytes => exact .inl ⟨⟨bytes, rfl⟩, bytes, rfl⟩
    | error e => exact .inr ⟨fun ⟨_, h⟩ => (nomatch h), rfl⟩

/-- On a connection that is not open nothing is written. -/
theorem send_closed {conn : ConnId} (hclosed : s.conn? conn = none) :
    IpcServer.send senv conn frame s = s := by
  simp only [IpcServer.send, hclosed]

end Room

/-! ## Records of what was shown -/

section Accounted

variable {env : Env} {mom : Moment} {auth : SessionAuthority} {b b' : Broker} {k : Kind}
  {sofar sofar' : List Id}

/-- Every message that is presented, or recorded as shown, is among those whose body was
    written. -/
structure Accounted (b : Broker) (sofar : List Id) : Prop where
  deliveries : ∀ x ∈ b.deliveries, presented x.state = true → x.messageId ∈ sofar
  rows : ∀ i ∈ b.injections, i.messageId ∈ sofar

theorem Accounted.mono (h : Accounted b sofar) (hsub : sofar ⊆ sofar') : Accounted b sofar' :=
  ⟨fun x hx hp => hsub (h.deliveries x hx hp), fun i hi => hsub (h.rows i hi)⟩

/-- No message is recorded as shown that was not before. -/
def RowsOf (b b' : Broker) : Prop :=
  ∀ i' ∈ b'.injections, ∃ i ∈ b.injections, i.messageId = i'.messageId

instance : IsFrame RowsOf where
  refl _ i hi := ⟨i, hi, rfl⟩
  trans h h' i hi := by
    obtain ⟨i₁, hi₁, heq₁⟩ := h' i hi
    obtain ⟨i₂, hi₂, heq₂⟩ := h i₁ hi₁
    exact ⟨i₂, hi₂, heq₂.trans heq₁⟩

theorem RowsOf.of_eq (h : b'.injections = b.injections) : RowsOf b b' :=
  fun i hi => ⟨i, h ▸ hi, rfl⟩

theorem Accounted.backed (h : Accounted b sofar) (hdel : Backed presented b b') :
    ∀ x ∈ b'.deliveries, presented x.state = true → x.messageId ∈ sofar := by
  intro x hx hp
  obtain ⟨x₀, hx₀, hpair, hp₀⟩ := hdel x hx hp
  rw [← show x₀.messageId = x.messageId from congrArg Prod.fst hpair]
  exact h.deliveries x₀ hx₀ hp₀

theorem Accounted.of_frames (h : Accounted b sofar) (hdel : Backed presented b b')
    (hrows : RowsOf b b') : Accounted b' sofar := by
  refine ⟨h.backed hdel, fun i hi => ?_⟩
  obtain ⟨i₀, hi₀, heq⟩ := hrows i hi
  rw [← heq]
  exact h.rows i₀ hi₀

/-- The moves that record a message as shown for the first time. -/
def records : Kind → Bool
  | .inject _ | .advance => true
  | _ => false

theorem Move.rowsOf (h : Move env k b b') (hk : records k = false) : RowsOf b b' := by
  by_cases hsame : writesRows k = false
  · exact .of_eq (Move.sameRows h hsame)
  cases h with
  | consume id op =>
    intro i hi
    obtain ⟨i₀, hi₀, rfl⟩ := mem_updateWhere.mp hi
    refine ⟨i₀, hi₀, ?_⟩
    split
    · rfl
    · rfl
  | inject | advance => cases hk
  | reissue now auth m found addressed shown =>
    rcases hissue : issue env now m.messageId auth.sessionId auth.epoch
      (.minted "redeliver-" b.nextId) (b.maxLogical m.messageId auth.epoch + 1) b.mint
      with ⟨_ | id, b₁⟩
    · exact .of_eq ((issue_none hissue).1.injections)
    · obtain ⟨-, rfl, -, -⟩ := issue_some hissue
      intro i hi
      rcases List.mem_append.mp hi with hi | hi
      · exact ⟨i, hi, rfl⟩
      · rw [List.mem_singleton.mp hi]
        obtain ⟨i, hi, hmid, -⟩ := row_of_maxLogical shown
        exact ⟨i, hi, hmid⟩
  | _ => exact absurd rfl hsame

/-- What is accounted for stays so. -/
def KeepsAccount (b b' : Broker) : Prop := ∀ sofar, Accounted b sofar → Accounted b' sofar

instance : IsFrame KeepsAccount where
  refl _ _ h := h
  trans h h' sofar hacc := h' sofar (h sofar hacc)

theorem KeepsAccount.bookkeeping (h : Bookkeeping b b') : KeepsAccount b b' := fun _ hacc =>
  hacc.of_frames (.bookkeeping h) (.of_eq h.injections)

/-- The rows an advance writes are of messages that are accepted. -/
theorem Move.keepsAccount (h : Move env k b b') (hk : hops k = true) : KeepsAccount b b' := by
  intro sofar hacc
  have hdel : Backed presented b b' := h.backed presented_sealed hk
  by_cases hrows : records k = false
  · exact hacc.of_frames hdel (h.rowsOf hrows)
  cases h with
  | inject => cases hk
  | @advance _ now sid resume s found =>
    refine ⟨hacc.backed hdel, fun i hi => ?_⟩
    obtain ⟨is, as, es, n, hb', -, his⟩ := advanceEpoch_eq b env now sid (s.activeEpoch + 1) resume
    rw [hb'] at hi
    rcases List.mem_append.mp hi with hi | hi
    · exact hacc.rows i hi
    · obtain ⟨-, x, hx, hid, -, hstate⟩ := his i hi
      rw [← hid]
      exact hacc.deliveries x hx (by rw [hstate]; rfl)
  | _ => exact absurd rfl hrows

/-- Outside a pull, everything accounted for stays so. -/
theorem exec_keepsAccount (env : Env) (mom : Moment) {op : Op} (hop : pullsOp op = false)
    (b : Broker) : KeepsAccount b (exec env mom op b).2 := by
  have hmoves : Moves env (kindsOf false op) b (exec env mom op b).2 :=
    exec_moves env mom op b false (by simp)
  by_cases hregister : (kindsOf false op).all hops = true
  · exact hmoves.frame fun _ _ k hk hmove =>
      hmove.keepsAccount (List.all_eq_true.mp hregister k hk)
  · have hkinds : ∀ k ∈ kindsOf false op, records k = false := by
      cases op <;> simp_all [kindsOf, pullsOp, records, hops, registerKinds]
    intro sofar hacc
    exact hacc.of_frames (exec_presented env mom hop b)
      (hmoves.frame fun _ _ k hk hmove => hmove.rowsOf (hkinds k hk))

/-! ### Pulls -/

/-- A pull that refuses has kept books at most. -/
theorem checkpointPull_refuses {ck : CheckpointId} {limit : Nat} :
    Refuses Bookkeeping (checkpointPull env mom.now auth ck limit) := by
  refine Refuses.bind assertAllowed_respects fun _ =>
    Refuses.bind assertCurrentEpoch_bookkeeping fun _ => Refuses.bind .get fun b => ?_
  split
  · split
    · exact .transaction _
    · exact .of_respects (.pure _)
  · exact .of_respects (Respects.bind (.modify fun _ => .audit) fun _ => .pure _)

theorem processNext_refuses {ck : CheckpointId} :
    Refuses Bookkeeping (processNext env mom.now auth ck) := by
  refine Refuses.bind assertAllowed_respects fun _ =>
    Refuses.bind assertCurrentEpoch_bookkeeping fun _ => Refuses.bind .get fun b => ?_
  split
  · exact .transaction _
  · exact .of_respects (Respects.bind (.modify fun _ => .audit) fun _ => .pure _)

theorem inboxView_refuses {ck : CheckpointId} {limit : Nat} :
    Refuses Bookkeeping (inboxView env mom.now auth ck limit) :=
  Refuses.bind assertAllowed_respects fun _ =>
    Refuses.bind assertCurrentEpoch_bookkeeping fun _ =>
      Refuses.bind_total checkpointPull_refuses fun _ _ _ _ h => nomatch h

theorem daemonCheckpointPull_refuses {limit : Nat} :
    Refuses Bookkeeping (daemonCheckpointPull env mom.now auth limit) := by
  refine Refuses.bind pendingForSession_respects fun pending => ?_
  have hmark : Refuses Bookkeeping (markInjected env mom.now auth (pending.map (·.messageId))) :=
    Refuses.bind assertCurrentEpoch_bookkeeping fun _ => .transaction _
  exact Refuses.bind_total hmark fun _ _ _ _ h => nomatch h

theorem checkpointOf_bookkeeping {given : Option String} :
    Respects Bookkeeping (checkpointOf given) := by
  cases given with
  | some text => exact .pure _
  | none => exact .act fun _ => .mint

theorem pull_refuses {r : Request} (hr : r.pulls = true) :
    Refuses Bookkeeping (exec env mom (r.op auth)) := by
  cases r with
  | checkpointPull => exact daemonCheckpointPull_refuses.map
  | checkpointPullHook =>
    exact Refuses.bind checkpointOf_bookkeeping fun _ => checkpointPull_refuses.map
  | inbox markInjected =>
    cases markInjected with
    | false => cases hr
    | true => exact Refuses.bind checkpointOf_bookkeeping fun _ => inboxView_refuses.map
  | processNext => exact Refuses.bind checkpointOf_bookkeeping fun _ => processNext_refuses.map
  | _ => cases hr

/-- A message that was shown has a row. -/
theorem row_of_shown {epoch : Nat} {given : Option String} {mid : Id}
    (h : b.shown epoch given mid = true) : ∃ i ∈ b.injections, i.messageId = mid := by
  obtain ⟨i, hi, hp⟩ := List.any_eq_true.mp h
  simp only [decide_eq_true_eq] at hp
  exact ⟨i, hi, hp.1⟩

/-- **Whatever a pull presents is in its answer or was accounted for.** -/
theorem PullForetold.accounted {r : Request} {response : Response} {ms : List PendingMessage}
    (h : PullForetold b auth mom.now r response b' ms) (hacc : Accounted b sofar) :
    Accounted b' (sofar ++ response.bodyIds) := by
  have hbody (m : Message) (hm : m ∈ b.pulled auth mom.now r) :
      m.messageId ∈ sofar ++ response.bodyIds := by
    rw [h.bodies, h.did.ids, List.mem_append]
    by_cases hshown : b.shown auth.epoch r.checkpoint m.messageId = true
    · obtain ⟨i, hi, heq⟩ := row_of_shown hshown
      exact .inl (heq ▸ hacc.rows i hi)
    · refine .inr (List.mem_map_of_mem ?_)
      rw [fresh_eq]
      exact List.mem_filter.mpr ⟨hm, decide_eq_true hshown⟩
  refine ⟨fun x hx hp => ?_, fun i hi => ?_⟩
  · obtain ⟨g, hdel, hg⟩ := h.did.deliveries
    rw [hdel] at hx
    obtain ⟨x₀, hx₀, rfl⟩ := List.mem_map.mp hx
    have hsettles := hg x₀ hx₀
    by_cases hpulled : ∃ m ∈ b.pulled auth mom.now r, m.messageId = x₀.messageId
    · obtain ⟨m, hm, heq⟩ := hpulled
      rw [hsettles.messageId, ← heq]
      exact hbody m hm
    · have hsame : g x₀ = x₀ := hsettles.other fun m hm heq => hpulled ⟨m, hm, heq⟩
      rw [hsame] at hp ⊢
      exact List.mem_append_left _ (hacc.deliveries x₀ hx₀ hp)
  · obtain ⟨is, his, hids⟩ := h.did.injections
    rw [his] at hi
    rcases List.mem_append.mp hi with hi | hi
    · exact List.mem_append_left _ (hacc.rows i hi)
    · rw [h.bodies]
      exact List.mem_append_right _ (hids i hi)

end Accounted

end Proof
end XBus
