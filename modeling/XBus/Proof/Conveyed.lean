import XBus.Proof.Boundary
import XBus.Proof.Outgoing
import XBus.Proof.Server
import Mathlib.Algebra.Order.BigOperators.Group.List
import Mathlib.Algebra.Order.Group.Nat

/-!
# From commit to wire

The daemon and the connections its answers go out on, step by step.

**`pull_conveyed_iff`**: in every run whose pulls had room for their answers, a further pull has its
answer written, and the body of every delivery it commits, exactly if it has room too. Nothing else
the broker checks gives it room: a body within the limits of a send can be six times as long in
JSON (`two_long_bodies_lost`).
-/

set_option autoImplicit false

namespace XBus
namespace Proof

open Lib

/-! ## Runs -/

section Runs

variable {ν : Type} [JsNumber ν] {env : Env} {rn : Rendering} {senv : ServerEnv ν}
  {p : Daemon × List Id} {a : Arrival ν}

/-- The connection of a pull that will be answered is open and has room for the answer. -/
def HasRoom (rn : Rendering) (d : Daemon) (a : Arrival ν) : Prop :=
  ∀ conn r auth frame, a.event.1 = .frame conn (.request r) → d.authOf conn = some auth →
    admits d.db auth r = true →
    responseFrame ν rn r (d.db.foreseen auth a.event.2.now r) a.requestId a.event.2.now =
      some frame →
    ∃ c, a.server.conn? conn = some c ∧ frame.stringify.length < room c

/-- What is promised of one step. -/
structure Conveyed (env : Env) (rn : Rendering) (senv : ServerEnv ν) (p : Daemon × List Id)
    (a : Arrival ν) : Prop where
  /-- The answer to a pull is written to the connection the pull came in on. -/
  answered : ∀ conn r auth response, a.event.1 = .frame conn (.request r) → r.ackType.isSome →
    p.1.authOf conn = some auth → (replyingStep env rn senv p a).1 = .ok response → ∃ bytes,
      (replied rn senv a (.ok response)).trace = a.server.trace ++ [.wrote conn bytes]
  /-- The body of every delivery that goes into flight has been written. -/
  launched : ∀ x, Launched p.1.db (replyingStep env rn senv p a).2.1.db x →
    x.messageId ∈ (replyingStep env rn senv p a).2.2

/-- What holds in every run whose pulls had room. -/
structure WireInv (p : Daemon × List Id) : Prop where
  mail : MailInv p.1.db
  accounted : Accounted p.1.db p.2

theorem wireInv_initial (env : Env) : WireInv (Daemon.initial env, []) := by
  refine ⟨mailInv_initial, fun x hx => ?_, fun i hi => ?_⟩
  · cases hx
  · cases hi

/-- A request on a registered connection is answered as its call is. -/
theorem step_request {d : Daemon} {e : DaemonEvent} {conn : ConnId} {r : Request}
    {auth : SessionAuthority} (hevent : e.1 = .frame conn (.request r))
    (hauth : d.authOf conn = some auth) : d.step env e =
      ((onRequest env e.2 auth r d.db).1, { d with db := (onRequest env e.2 auth r d.db).2 }) := by
  obtain ⟨c, hc, hauth⟩ := Option.bind_eq_some_iff.mp hauth
  simp only [Daemon.step, hevent, hc, handle, hauth]
  rfl

/-- Where nothing is registered, a request changes nothing. -/
theorem step_unregistered {d : Daemon} {e : DaemonEvent} {conn : ConnId} {r : Request}
    (hevent : e.1 = .frame conn (.request r)) (hauth : d.authOf conn = none) :
    (d.step env e).2 = d := by
  simp only [Daemon.step, hevent]
  split
  · rename_i c hc
    have hnone : c.auth = none := by simpa [Daemon.authOf, hc] using hauth
    simp only [handle, hnone]
    rfl
  · rfl

/-- What a pull answers has a payload. -/
theorem payload_answered (rn : Rendering) {b : Broker} {auth : SessionAuthority}
    {now : Iso} {r : Request}
    {response : Response} (hr : r.ackType.isSome) (hfound : response ≠ .redelivered none)
    (h : response.blur = b.foreseen auth now r) : (rn.payload response).isSome := by
  cases response with
  | bodies | inbox | listed => rfl
  | redelivered entry =>
    cases entry with
    | none => exact absurd rfl hfound
    | some e => rfl
  | _ =>
    cases r with
    | inbox markInjected => cases markInjected <;> cases h
    | checkpointPull | checkpointPullHook | processNext | redeliver => cases h
    | _ => cases hr

/-- **The answer to a pull is a frame as long as the one foreseen.** -/
theorem answer_length (ν : Type) [JsNumber ν] (rn : Rendering) {b b' : Broker} (inv : MailInv b)
    {r : Request} {mom : Moment}
    {auth : SessionAuthority} {response : Response} (hr : r.ackType.isSome)
    (h : onRequest env mom auth r b = (.ok response, b')) (requestId : Option JsonValue) :
    ∃ frame frame', responseFrame ν rn r response requestId mom.now = some frame ∧
      responseFrame ν rn r (b.foreseen auth mom.now r) requestId mom.now = some frame' ∧
      frame'.stringify.length = frame.stringify.length := by
  have hblur := onRequest_foreseen inv hr h
  obtain ⟨frameType, htype⟩ := Option.isSome_iff_exists.mp hr
  obtain ⟨payload, hpayload⟩ := Option.isSome_iff_exists.mp
    (payload_answered rn hr (onRequest_ok h).2 hblur)
  have hframe : responseFrame ν rn r response requestId mom.now =
      some (makeFrame ν rn frameType payload requestId mom.now) := by
    simp only [responseFrame, htype, hpayload]
  have hlength := responseFrame_blur ν rn r response requestId mom.now
  rw [hblur, hframe, Option.map_some] at hlength
  obtain ⟨frame', hframe', heq⟩ := Option.map_eq_some_iff.mp hlength
  exact ⟨_, frame', hframe, hframe', heq⟩

/-- Outside the pulls, a signal keeps what is accounted for. -/
theorem Stepped.keepsAccount {mom : Moment} {d d' : Daemon} {s : Signal}
    {answer : Except Failure Response} (h : Stepped env mom d s answer d')
    (hs : ∀ conn r, s = .frame conn (.request r) → r.pulls = false) :
    KeepsAccount d.db d'.db := by
  -- What is no pull hands out no message.
  cases h with
  | noted h =>
    obtain ⟨b, hb, rfl⟩ := h
    exact .bookkeeping hb.bookkeeping
  | accepted | greeted => exact IsFrame.refl _
  | @registered c payload auth b found answered =>
    have hmoves : Moves env registerKinds d.db (register env mom (payload.input c.id) d.db).2 :=
      register_respects d.db
    rw [answered] at hmoves
    have hkinds : registerKinds.all hops = true := rfl
    exact hmoves.frame fun _ _ k hk hmove => hmove.keepsAccount (List.all_eq_true.mp hkinds k hk)
  | @requested c r auth found hauth =>
    have hop : pullsOp (r.op auth) = false := by
      have hr := hs c.id r rfl
      cases r with
      | inbox markInjected => cases markInjected <;> simp_all [Request.pulls, Request.op, pullsOp]
      | _ => simp_all [Request.pulls, Request.op, pullsOp]
    rcases onRequest_snd env mom auth r d.db with hsame | hexec
    · simp only [hsame]
      exact IsFrame.refl _
    · simp only [hexec]
      exact exec_keepsAccount env mom hop d.db
  | @closed c =>
    cases hauth : c.auth with
    | none => simp only [Daemon.close, hauth]; exact IsFrame.refl _
    | some auth =>
      have hmove : Move env .close d.db (d.db.connClosed auth c.id) := .close auth c.id
      simp only [Daemon.close, hauth]
      exact hmove.keepsAccount rfl
  | upkept u =>
    refine exec_keepsAccount env mom ?_ d.db
    cases u <;> rfl
  | restarted =>
    have hmove : Move env .operator d.db (d.db.ensureOperatorSession env) := .operator
    exact hmove.keepsAccount rfl

/-- **The answer to a pull is written exactly if the connection has room for the one
    foreseen.** -/
theorem replied_iff {d : Daemon} (inv : MailInv d.db) {conn : ConnId} {r : Request}
    {auth : SessionAuthority} {response : Response} {b' : Broker} {frame : Value ν}
    (hevent : a.event.1 = .frame conn (.request r)) (hr : r.ackType.isSome)
    (h : onRequest env a.event.2 auth r d.db = (.ok response, b'))
    (hforeseen : responseFrame ν rn r (d.db.foreseen auth a.event.2.now r) a.requestId
      a.event.2.now = some frame) :
    (∃ bytes, (replied rn senv a (.ok response)).trace = a.server.trace ++ [.wrote conn bytes]) ↔
      ∃ c, a.server.conn? conn = some c ∧ frame.stringify.length < room c := by
  obtain ⟨frame', frame'', hframe', hframe'', hlength⟩ := answer_length ν rn inv hr h a.requestId
  obtain rfl : frame = frame'' := Option.some.inj (hforeseen.symm.trans hframe'')
  simp only [replied, hevent, hframe', hlength]
  cases hopen : a.server.conn? conn with
  | none => simp [send_closed hopen]
  | some c =>
    rcases send_room senv frame' hopen with ⟨hfits, hwrote⟩ | ⟨hlong, hsame⟩
    · exact ⟨fun _ => ⟨c, rfl, hfits⟩, fun _ => hwrote⟩
    · simp [hsame, hlong]

theorem Request.acked {r : Request} (hr : r.pulls = true) : r.ackType.isSome := by
  cases r with
  | checkpointPull | checkpointPullHook | inbox | processNext => rfl
  | _ => cases hr

/-- A pull that the daemon refuses has kept books at most. -/
theorem onRequest_refused {b b' : Broker} (inv : MailInv b) {r : Request} {mom : Moment}
    {auth : SessionAuthority} {e : Failure} (hr : r.pulls = true)
    (h : onRequest env mom auth r b = (.error e, b')) : Bookkeeping b b' := by
  have hb' : b' = (onRequest env mom auth r b).2 := by rw [h]
  rcases hexec : exec env mom (r.op auth) b with ⟨e' | response, b₁⟩
  · have hbooks : Bookkeeping b b₁ := pull_refuses hr b e' b₁ hexec
    rcases onRequest_snd env mom auth r b with hsame | hsame
    · rw [hb', hsame]
      exact IsFrame.refl b
    · rw [hb', hsame, hexec]
      exact hbooks
  · obtain ⟨ms, hpull⟩ := exec_foretold inv hr hexec
    have hfound : response ≠ .redelivered none := by
      rintro rfl
      have hanswered := hpull.answered
      cases r with
      | inbox markInjected => cases markInjected <;> cases hanswered
      | checkpointPull | checkpointPullHook | processNext => cases hanswered
      | _ => cases hr
    rw [onRequest_of_exec (Request.acked hr) hexec hfound] at h
    cases h

theorem wireInv_step (inv : WireInv p) (hroom : HasRoom rn p.1 a) :
    WireInv (replyingStep env rn senv p a).2 := by
  have hstep := step_stepped env p.1 a.event
  refine ⟨?_, ?_⟩
  · obtain ⟨K, hmoves⟩ := hstep.moves
    exact hmoves.keeps inv.mail fun _ _ _ _ hmove => hmove.mailInv
  show Accounted (p.1.step env a.event).2.db
    (p.2 ++ written rn senv a (p.1.step env a.event).1)
  -- A pull with room for its answer writes what it hands out.
  by_cases hpull : ∃ conn r, a.event.1 = .frame conn (.request r) ∧ r.pulls = true
  · obtain ⟨conn, r, hevent, hr⟩ := hpull
    cases hauth : p.1.authOf conn with
    | none =>
      rw [step_unregistered hevent hauth]
      exact inv.accounted.mono (List.subset_append_left _ _)
    | some auth =>
      rw [step_request hevent hauth]
      rcases hexec : onRequest env a.event.2 auth r p.1.db with ⟨e | response, b'⟩
      · exact KeepsAccount.bookkeeping (onRequest_refused inv.mail hr hexec) _
          (inv.accounted.mono (List.subset_append_left _ _))
      · have hack := Request.acked hr
        obtain ⟨frame, frame', -, hframe, -⟩ := answer_length ν rn inv.mail hack hexec a.requestId
        have hadmits : admits p.1.db auth r = true :=
          (onRequest_answers inv.mail hack).mp ⟨response, b', hexec⟩
        obtain ⟨bytes, hwrote⟩ := (replied_iff inv.mail hevent hack hexec hframe).mpr
          (hroom conn r auth frame' hevent hauth hadmits hframe)
        have hwritten : written rn senv a (.ok response) = response.bodyIds := by
          rw [written, if_pos]
          rw [hwrote, List.length_append]
          exact Nat.lt_succ_self _
        obtain ⟨ms, hforetold⟩ := exec_foretold inv.mail hr (onRequest_ok hexec).1
        show Accounted b' (p.2 ++ written rn senv a (.ok response))
        rw [hwritten]
        exact hforetold.accounted inv.accounted
  · have hkeeps : KeepsAccount p.1.db (p.1.step env a.event).2.db := by
      refine hstep.keepsAccount fun conn r hevent => ?_
      by_contra hr
      exact hpull ⟨conn, r, hevent, by simpa using hr⟩
    exact hkeeps _ (inv.accounted.mono (List.subset_append_left _ _))

theorem WireInv.run {log : List (Arrival ν × Except Failure Response)}
    (run : Run (replyingStep env rn senv) (fun p a => HasRoom rn p.1 a) (Daemon.initial env, [])
      log p) : WireInv p :=
  run.invariant (wireInv_initial env) fun _ _ inv hroom => wireInv_step inv hroom

theorem conveyed_iff (inv : WireInv p) : Conveyed env rn senv p a ↔ HasRoom rn p.1 a := by
  constructor
  · intro hconveyed conn r auth frame' hevent hauth hadmits hframe'
    have hr : r.ackType.isSome := by
      unfold responseFrame at hframe'
      cases hack : r.ackType with
      | none => rw [hack] at hframe'; cases hframe'
      | some frameType => rfl
    have hsucceeds : Succeeds (onRequest env a.event.2 auth r) p.1.db :=
      (onRequest_answers inv.mail hr).mpr hadmits
    obtain ⟨response, b', hexec⟩ := hsucceeds
    have hanswer : (replyingStep env rn senv p a).1 = .ok response := by
      show (p.1.step env a.event).1 = .ok response
      rw [step_request hevent hauth, hexec]
    exact (replied_iff inv.mail hevent hr hexec hframe').mp
      (hconveyed.answered conn r auth response hevent hr hauth hanswer)
  · intro hroom
    refine ⟨fun conn r auth response hevent hr hauth hanswer => ?_, ?_⟩
    · replace hanswer : (p.1.step env a.event).1 = .ok response := hanswer
      rw [step_request hevent hauth] at hanswer
      have hexec : onRequest env a.event.2 auth r p.1.db = (.ok response, _) :=
        Prod.ext hanswer rfl
      obtain ⟨frame, frame', -, hframe, -⟩ := answer_length ν rn inv.mail hr hexec a.requestId
      have hadmits : admits p.1.db auth r = true :=
        (onRequest_answers inv.mail hr).mp ⟨response, _, hexec⟩
      exact (replied_iff inv.mail hevent hr hexec hframe).mpr
        (hroom conn r auth frame' hevent hauth hadmits hframe)
    · rintro x ⟨-, -, x', hx', hid, hstate⟩
      rw [← hid]
      refine (wireInv_step inv hroom).accounted.deliveries x' hx' ?_
      rcases hstate with h | h <;> rw [h] <;> rfl

/-- **No body is lost between commit and wire, where there is room.** In every run whose pulls
    have room for their answers, a further event has every answer to a pull written to the
    connection it came in on, and the body of every delivery that goes into flight, exactly if
    it has room as well. -/
theorem pull_conveyed_iff {log : List (Arrival ν × Except Failure Response)}
    (run : Run (replyingStep env rn senv) (fun p a => HasRoom rn p.1 a) (Daemon.initial env, [])
      log p) (a : Arrival ν) : Conveyed env rn senv p a ↔ HasRoom rn p.1 a :=
  conveyed_iff (.run run)

/-- A signal that is no pull needs no room. -/
theorem hasRoom_of_other {d : Daemon}
    (h : ∀ conn r, a.event.1 = .frame conn (.request r) → r.ackType = none) : HasRoom rn d a := by
  intro conn r auth frame hevent hauth hadmits hframe
  rw [responseFrame, h conn r hevent] at hframe
  cases hframe

end Runs

/-! ## Two concrete pulls -/

/-- In a concrete run ids are written in binary and times within the first ten seconds. -/
def binaryIds : Rendering where
  idText n := String.ofList ((List.range 36).map fun k => if n.testBit k then '1' else '0')
  isoText t := "1970-01-01T00:00:0" ++ String.ofList [hexDigit (t.ms / 1000), '.',
    hexDigit (t.ms / 100 % 10), hexDigit (t.ms / 10 % 10), hexDigit (t.ms % 10), 'Z']
  idText_length n := by simp
  idText_plain n := by
    intro c hc
    rw [String.toList_ofList] at hc
    obtain ⟨k, -, rfl⟩ := List.mem_map.mp hc
    split
    · decide
    · decide

/-- `alpha` and `beta` register, `beta` becomes ready, and `alpha` sends it the text twice. -/
def sentTwice (text : String) : List DaemonEvent :=
  arrives 1 { sessionId := "alpha", processId := 1 } ++
    arrives 2 { sessionId := "beta", processId := 2, capabilities := ["ack"]
                requestedSessionName := some "beta-name" } ++
    [ (.frame 2 (.request (.signalReadiness {})), { nowMs := 1000 }),
      (.frame 1 (.request (.sendMessage { recipient := "beta-name", text })), { nowMs := 1000 }),
      (.frame 1 (.request (.sendMessage { recipient := "beta-name", text })), { nowMs := 1000 }) ]

/-- The events on a server whose connection 2 is as given. -/
def arrivalsAt (c : ConnEntry) (es : List DaemonEvent) : List (Arrival Int) :=
  es.map fun e => { event := e, server := { conns := [(2, c)] } }

/-- `beta` looks into its inbox. -/
def looksIn (c : ConnEntry) : Arrival Int :=
  { event := (.frame 2 (.request (.inbox true none none)), { nowMs := 1001 })
    server := { conns := [(2, c)] } }

theorem sentTwice_run (c : ConnEntry) (text : String) :
    Run (replyingStep plainEnv binaryIds quietServer) (fun p a => HasRoom binaryIds p.1 a)
      (Daemon.initial plainEnv, [])
      (runAll (replyingStep plainEnv binaryIds quietServer) (Daemon.initial plainEnv, [])
        (arrivalsAt c (sentTwice text))).1
      (runAll (replyingStep plainEnv binaryIds quietServer) (Daemon.initial plainEnv, [])
        (arrivalsAt c (sentTwice text))).2 := by
  refine Run.of_runAll _ (.of_forall (fun a ha p => hasRoom_of_other ?_) _)
  obtain ⟨e, he, rfl⟩ := List.mem_map.mp ha
  simp only [sentTwice, arrives, List.cons_append, List.nil_append, List.mem_cons,
    List.not_mem_nil, or_false] at he
  intro conn r hr
  rcases he with rfl | rfl | rfl | rfl | rfl | rfl | rfl | rfl | rfl <;> cases hr <;> rfl

/-- Two short messages have room on an open connection, and are written. -/
theorem two_short_bodies_written :
    let p := (runAll (replyingStep plainEnv binaryIds quietServer) (Daemon.initial plainEnv, [])
      (arrivalsAt {} (sentTwice "please"))).2
    (p.1.db.deliveries.map fun x => (x.recipientSessionId, x.state)) =
        [("beta", .queued), ("beta", .queued)] ∧
      Conveyed plainEnv binaryIds quietServer p (looksIn {}) := by
  intro p
  refine ⟨by decide +kernel, (pull_conveyed_iff (sentTwice_run {} "please") (looksIn {})).mpr ?_⟩
  intro conn r auth frame hevent hauth hadmits hframe
  obtain ⟨rfl, hr⟩ := Signal.frame.inj hevent
  obtain rfl := Frame.request.inj hr
  have hshort : (p.1.authOf 2).all fun auth => (responseFrame Int binaryIds (.inbox true none none)
      (p.1.db.foreseen auth ⟨1001⟩ (.inbox true none none)) none ⟨1001⟩).all fun frame =>
        frame.stringify.length < frameBytes + 1 := by
    decide +kernel
  rw [show p.1.authOf 2 = some auth from hauth, Option.all_some] at hshort
  have hfits := (Option.all_eq_true _ _).mp hshort frame hframe
  exact ⟨{}, rfl, of_decide_eq_true hfits⟩

/-! A body is counted in its own bytes when it is sent, and in the bytes of its JSON when it is
pulled. -/

section Oversize

variable {ν : Type} [JsNumber ν] {rn : Rendering} {b : Broker} {auth : SessionAuthority} {now : Iso}

theorem text_le_entry (m : Message) : ((JsonValue.str m.text).encode : Json ν).size ≤
    ((rn.inboxEntry (freshBody m).freshEntry).encode : Json ν).size := by
  refine size_le_field (m := ("text", .str m.text)) ?_ ?_
  · show (["messageId", "injectionId", "senderAlias", "recipientAlias", "kind", "correlationId",
      "causationId", "sequence", "requiresAck", "requiresReply", "state", "bodyAlreadyPresented",
      "bodyIncluded", "text", "metadata", "createdAt", "expiresAt", "allowedActions"].map
        utf16).Nodup
    decide +kernel
  · simp [Rendering.entryBody, freshBody, PendingMessage.freshEntry,
      PendingMessage.withInjection, rowToPending]

/-- The answer to an inbox pull is longer than the texts in it. -/
theorem texts_le_inbox {given : Option String} {limit : Option Nat} {frame : Value ν}
    {requestId : Option JsonValue}
    (h : responseFrame ν rn (.inbox true given limit)
      (b.foreseen auth now (.inbox true given limit)) requestId now = some frame) :
    ((b.fresh auth now (.inbox true given limit)).map fun m =>
      ((JsonValue.str m.text).encode : Json ν).size).sum ≤ frame.stringify.length := by
  set r : Request := .inbox true given limit
  set entries : List InboxEntry := (b.fresh auth now r).map (fun m => (freshBody m).freshEntry) ++
    b.recovered auth now r (limit.getD 50) with hentries
  set payload : JsonValue := .obj [("messages", .arr (entries.map rn.inboxEntry))]
  obtain rfl : makeFrame ν rn "inbox_ack" payload requestId now = frame := Option.some.inj h
  -- Text, entry, array, payload, frame: each is within the next.
  have hitems : ((b.fresh auth now r).map fun m =>
      ((JsonValue.str m.text).encode : Json ν).size).sum ≤
        ((entries.map rn.inboxEntry).map fun v => (v.encode : Json ν).size).sum := by
    rw [hentries, List.map_append, List.map_append, List.sum_append, List.map_map, List.map_map]
    exact (List.sum_le_sum fun m _ => text_le_entry m).trans (Nat.le_add_right _ _)
  have harray : ((entries.map rn.inboxEntry).map fun v => (v.encode : Json ν).size).sum ≤
      ((JsonValue.arr (entries.map rn.inboxEntry)).encode : Json ν).size := by
    have hsum := Json.sum_size_le_arr
      (JsonValue.encodeItems (entries.map rn.inboxEntry) : List (Json ν))
    rw [encodeItems_eq, List.map_map] at hsum
    rw [JsonValue.encode, encodeItems_eq]
    exact hsum
  have hpayload : ((JsonValue.arr (entries.map rn.inboxEntry)).encode : Json ν).size ≤
      (payload.encode : Json ν).size :=
    size_le_field (m := ("messages", .arr (entries.map rn.inboxEntry))) (by simp) (by simp)
  have hframe : (payload.encode : Json ν).size ≤
      (makeFrame ν rn "inbox_ack" payload requestId now).stringify.length := by
    refine size_le_field (m := ("payload", payload)) ?_ (by simp)
    cases requestId with
    | none =>
      show (["protocolVersion", "frameType", "timestamp", "payload"].map utf16).Nodup
      decide +kernel
    | some id =>
      show (["protocolVersion", "frameType", "timestamp", "payload", "requestId"].map utf16).Nodup
      decide +kernel
  exact hitems.trans (harray.trans (hpayload.trans hframe))

/-- Every message has the same text. -/
def AllSay (text : String) (b : Broker) : Prop := ∀ m ∈ b.messages, m.text = text

/-- The text of everything a signal posts. -/
def postsOnly (text : String) : Signal → Prop
  | .frame _ (.request (.sendMessage input)) => input.text = text
  | .frame _ (.request (.replyMessage _)) | .upkeep (.operatorSend _) => False
  | _ => True

theorem send_allSay {env : Env} {input : SendInput} :
    Respects (fun b b' => AllSay input.text b → AllSay input.text b')
      (send env now auth input) := by
  refine Refuses.respects (R := Eq) (.transaction _) (fun s t h => h ▸ id) fun b r b' h hall => ?_
  obtain ⟨-, rfl⟩ | ⟨-, m, hposted, -, -, -, hm⟩ := send_ok h
  · exact hall
  · intro x hx
    rw [hposted.messages] at hx
    rcases List.mem_append.mp hx with hx | hx
    · exact hall x hx
    · rw [List.mem_singleton.mp hx]
      exact hm.text

theorem step_allSay (env : Env) {text : String} {d : Daemon} {e : DaemonEvent}
    (he : postsOnly text e.1) (h : AllSay text d.db) : AllSay text (d.step env e).2.db := by
  have hstep := step_stepped env d e
  by_cases hsend : ∃ conn input, e.1 = .frame conn (.request (.sendMessage input))
  · obtain ⟨conn, input, hevent⟩ := hsend
    rw [hevent] at he
    obtain rfl : input.text = text := he
    rcases @request_db env d e _ _ hevent with hsame | ⟨auth, hexec⟩
    · rw [hsame]
      exact h
    · rw [hexec]
      exact send_allSay.map d.db h
  · have hquiet : (d.step env e).2.db.messages = d.db.messages := by
      refine hstep.messages ?_ fun input heq => ?_
      · cases hs : e.1 with
        | frame conn f =>
          cases f with
          | registerSession => rfl
          | request r =>
            cases r with
            | sendMessage input => exact absurd ⟨conn, input, hs⟩ hsend
            | replyMessage => rw [hs] at he; exact he.elim
            | _ => rfl
        | _ => rfl
      · rw [heq] at he
        exact he
    intro m hm
    exact h m (hquiet ▸ hm)

theorem run_allSay {env : Env} {senv : ServerEnv ν} {text : String} {p : Daemon × List Id}
    {log : List (Arrival ν × Except Failure Response)}
    (run : Run (replyingStep env rn senv) (fun _ a => postsOnly text a.event.1)
      (Daemon.initial env, []) log p) : AllSay text p.1.db := by
  refine run.invariant (P := fun p => AllSay text p.1.db) (fun m hm => ?_)
    fun p a hall hposts => step_allSay env hposts hall
  cases hm

end Oversize

/-- As long as a text may be, and every character of it six bytes in JSON. -/
def longText : String := String.ofList (List.replicate Limits.textBytes '\x01')

/-- The connection of `beta`, sealed, and nothing sent on it so far. -/
def sealedEntry : ConnEntry :=
  { secure := some (SecureSession.new
      { c2sEnc := [1], s2cEnc := [2], c2sIv := [3], s2cIv := [4], mkClient := [5], mkServer := [6] }
      [7] .server) }

theorem sentTwice_allSay (c : ConnEntry) (text : String) : AllSay text
    (runAll (replyingStep plainEnv binaryIds quietServer) (Daemon.initial plainEnv, [])
      (arrivalsAt c (sentTwice text))).2.1.db := by
  refine run_allSay (Run.of_runAll _ (.of_forall (fun a ha p => ?_) _))
  obtain ⟨e, he, rfl⟩ := List.mem_map.mp ha
  simp only [sentTwice, arrives, List.cons_append, List.nil_append, List.mem_cons,
    List.not_mem_nil, or_false] at he
  rcases he with rfl | rfl | rfl | rfl | rfl | rfl | rfl | rfl | rfl <;> trivial

/-- Two bodies within the limit are pulled together, committed, and never written: their JSON is
    too long to be sealed. -/
theorem two_long_bodies_lost :
    ∃ log p, Run (replyingStep plainEnv binaryIds quietServer) Any (Daemon.initial plainEnv, [])
        log p ∧ ¬ Conveyed plainEnv binaryIds quietServer p (looksIn sealedEntry) := by
  have hrun := sentTwice_run sealedEntry longText
  refine ⟨_, _, hrun.any, fun hconveyed => ?_⟩
  have hroom := (conveyed_iff (.run hrun)).mp hconveyed
  set p := (runAll (replyingStep plainEnv binaryIds quietServer) (Daemon.initial plainEnv, [])
    (arrivalsAt sealedEntry (sentTwice longText))).2
  have hall : AllSay longText p.1.db := sentTwice_allSay sealedEntry longText
  have htwo : (p.1.authOf 2).any fun auth => admits p.1.db auth (.inbox true none none) ∧
      (p.1.db.fresh auth ⟨1001⟩ (.inbox true none none)).length = 2 := by
    decide +kernel
  obtain ⟨auth, hauth, hpull⟩ := (Option.any_eq_true _ _).mp htwo
  obtain ⟨hadmits, hlength⟩ := of_decide_eq_true hpull
  obtain ⟨frame, hframe⟩ : ∃ frame, responseFrame Int binaryIds (.inbox true none none)
      (p.1.db.foreseen auth ⟨1001⟩ (.inbox true none none)) none ⟨1001⟩ = some frame := ⟨_, rfl⟩
  obtain ⟨c, hopen, hfits⟩ := hroom 2 _ auth frame rfl hauth hadmits hframe
  obtain rfl : sealedEntry = c := Option.some.inj hopen
  have htexts : (p.1.db.fresh auth ⟨1001⟩ (.inbox true none none)).map (fun m =>
      ((JsonValue.str m.text).encode : Json Int).size) = List.replicate 2 393218 := by
    have hmail : MailInv p.1.db := (WireInv.run hrun).mail
    refine List.eq_replicate_iff.mpr ⟨by rw [List.length_map, hlength], fun n hn => ?_⟩
    obtain ⟨m, hm, rfl⟩ := List.mem_map.mp hn
    have hfound := (pulled_pullable hmail _).found m (List.mem_of_mem_filter hm)
    rw [hall m (List.mem_of_find?_eq_some hfound)]
    exact size_control Limits.textBytes
  have hlong := texts_le_inbox hframe
  rw [htexts] at hlong
  have hroomy : room sealedEntry = 786395 := by decide +kernel
  have hsum : (List.replicate 2 393218).sum = 786436 := by decide
  omega

end Proof
end XBus
