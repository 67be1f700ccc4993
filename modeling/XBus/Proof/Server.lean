import XBus.IpcServer
import XBus.Lib.Runs
import Mathlib.Data.List.Nodup

/-!
# The connections of the server

`conns` is a map. What finds, writes and removes an entry is said here once, and that ids are handed
out once; what is proved about the server is proved over these.
-/

set_option autoImplicit false

namespace XBus

open Lib

/-- The server as a system: an event comes with the time of day. -/
def IpcServer.next {ν : Type} [JsNumber ν] (env : ServerEnv ν) (s : IpcServer ν)
    (i : String × IpcServer.Event ν) : Unit × IpcServer ν :=
  ((), s.step env i.1 i.2)

namespace Proof

open IpcServer

section Conns

variable {ν : Type} {s : IpcServer ν} {id : ConnId} {c : ConnEntry} {f : ConnEntry → ConnEntry}

/-- Connection ids are handed out once. -/
structure ServerIds (s : IpcServer ν) : Prop where
  distinct : (s.conns.map (·.1)).Nodup
  below : ∀ c ∈ s.conns, c.1 ≤ s.seq

theorem conn?_mem (h : s.conn? id = some c) : (id, c) ∈ s.conns := by
  obtain ⟨⟨id', c'⟩, hfind, rfl⟩ := Option.map_eq_some_iff.mp h
  have hid : id' = id := by simpa using List.find?_some hfind
  exact hid ▸ List.mem_of_find?_eq_some hfind

theorem ne_of_conn?_none (h : s.conn? id = none) : ∀ c ∈ s.conns, c.1 ≠ id := by
  intro c hc heq
  have hfind : s.conns.find? (·.1 = id) = none := Option.map_eq_none_iff.mp h
  exact absurd (decide_eq_true heq) (List.find?_eq_none.mp hfind c hc)

/-! ### Writing -/

theorem fst_updated (c : ConnId × ConnEntry) :
    (if c.1 = id then (c.1, f c.2) else c).1 = c.1 := by
  split <;> rfl

theorem conn?_updateEntry (f : ConnEntry → ConnEntry) (s : IpcServer ν) (id' : ConnId) :
    (updateEntry id f s).conn? id' =
      (s.conn? id').map fun c => if id' = id then f c else c := by
  unfold updateEntry conn?
  induction s.conns with
  | nil => rfl
  | cons c cs ih =>
    simp only [List.map_cons, List.find?_cons, fst_updated]
    by_cases hc : c.1 = id'
    · subst hc
      by_cases hid : c.1 = id
      · simp [hid]
      · simp [hid]
    · simp only [hc, decide_false]
      exact ih

theorem updateEntry_of_none (h : s.conn? id = none) : updateEntry id f s = s := by
  have hconns : (s.conns.map fun c => if c.1 = id then (c.1, f c.2) else c) = s.conns := by
    refine (List.map_congr_left fun c hc => ?_).trans (List.map_id _)
    exact if_neg (ne_of_conn?_none h c hc)
  rw [updateEntry, hconns]

theorem ServerIds.update (h : ServerIds s) : ServerIds (updateEntry id f s) := by
  have hkeys : (updateEntry id f s).conns.map (·.1) = s.conns.map (·.1) := by
    simp only [updateEntry, List.map_map]
    exact List.map_congr_left fun c _ => fst_updated c
  refine ⟨hkeys ▸ h.distinct, fun c hc => ?_⟩
  obtain ⟨c₀, hc₀, heq⟩ := List.mem_map.mp (hkeys ▸ List.mem_map_of_mem hc)
  exact heq ▸ h.below c₀ hc₀

/-! ### Closing -/

theorem conn?_closeConn (s : IpcServer ν) (id' : ConnId) :
    (closeConn id s).conn? id' = if id' = id then none else s.conn? id' := by
  have hfilter : ((s.conns.filter fun c => c.1 ≠ id).find? (·.1 = id')).map (·.2) =
      if id' = id then none else (s.conns.find? (·.1 = id')).map (·.2) := by
    rw [List.find?_filter]
    by_cases hid : id' = id
    · rw [if_pos hid, Option.map_eq_none_iff, List.find?_eq_none]
      intro c _
      simp [hid]
    · rw [if_neg hid]
      congr 2
      funext c
      by_cases hc : c.1 = id'
      · simp [hc, hid]
      · simp [hc]
  unfold closeConn
  cases hentry : s.conn? id with
  | none =>
    by_cases hid : id' = id
    · rw [if_pos hid, hid]
      exact hentry
    · rw [if_neg hid]
  | some c => exact hfilter

theorem ServerIds.closeConn (h : ServerIds s) : ServerIds (closeConn id s) := by
  unfold IpcServer.closeConn
  cases s.conn? id with
  | none => exact h
  | some c =>
    exact ⟨h.distinct.sublist (List.filter_sublist.map _),
      fun c hc => h.below c (List.mem_of_mem_filter hc)⟩

end Conns

/-! ## What dispatching writes

A frame that is dispatched writes to the entry of its connection, but not to its decoder; it closes
the connection, draws a nonce, and is seen from outside. A relation that each of these moves along,
dispatching moves along (`dispatchAll_along`). -/

section Dispatch

variable {ν : Type} [JsNumber ν] {id : ConnId} {R : IpcServer ν → IpcServer ν → Prop}

/-- The relation allows what dispatching writes on the connection. -/
structure Allows (id : ConnId) (R : IpcServer ν → IpcServer ν → Prop) : Prop where
  emits : ∀ s e, R s (emit e s)
  draws : ∀ s : IpcServer ν, R s { s with drawn := s.drawn + 1 }
  closes : ∀ s, R s (closeConn id s)
  writes : ∀ s f, (∀ c, (f c).decoder = c.decoder) → R s (updateEntry id f s)

variable [IsFrame R] (hR : Allows id R) (env : ServerEnv ν)

include hR

theorem send_along (frame : Value ν) (s : IpcServer ν) : R s (send env id frame s) := by
  unfold send
  split
  · exact IsFrame.refl s
  · split
    · dsimp only
      split
      · refine IsFrame.trans (hR.writes s _ ?_) (hR.emits _ _)
        exact fun _ => rfl
      · exact hR.writes s _ fun _ => rfl
    · split
      · exact hR.emits _ _
      · exact IsFrame.refl s

theorem act_along (acts : List (HandlerAct ν)) (s : IpcServer ν) : R s (act env id acts s).2 := by
  induction acts generalizing s with
  | nil => exact IsFrame.refl s
  | cons a acts ih =>
    cases a with
    | sends frame => exact IsFrame.trans (send_along hR env frame s) (ih _)
    | closes => exact IsFrame.trans (hR.closes s) (ih _)
    | throws => exact IsFrame.refl s

theorem deliverFrame_along (frame : Value ν) (s : IpcServer ν) :
    R s (deliverFrame env id frame s).2 := by
  unfold deliverFrame
  split
  · exact send_along hR env _ s
  · exact IsFrame.trans (hR.emits s _) (act_along hR env _ _)

theorem onClientHello_along (root : Bytes) (b64 : JsString) (s : IpcServer ν) :
    R s (onClientHello env root id b64 s) := by
  unfold onClientHello
  split
  · exact hR.closes s
  · split
    · exact hR.closes s
    · dsimp only
      refine IsFrame.trans (hR.draws s) ?_
      split
      · refine IsFrame.trans (hR.writes _ _ ?_) (hR.emits _ _)
        exact fun _ => rfl
      · refine IsFrame.trans (hR.writes _ _ ?_) (hR.closes _)
        exact fun _ => rfl

omit [JsNumber ν] in
theorem onClientFinish_along (b64 : JsString) (s : IpcServer ν) :
    R s (onClientFinish env id b64 s) := by
  unfold onClientFinish
  split
  · exact IsFrame.refl s
  · split
    · split
      · exact hR.closes s
      · refine IsFrame.trans (hR.writes s _ ?_) (hR.emits _ _)
        exact fun _ => rfl
    · exact hR.closes s

theorem onHandshake_along (root : Bytes) (payload : Value ν) (s : IpcServer ν) :
    R s (onHandshake env root id payload s) := by
  unfold onHandshake
  split
  · split
    · exact onClientHello_along hR env root _ s
    · split
      · exact onClientFinish_along hR env _ s
      · exact hR.closes s
  · exact hR.closes s

theorem onSealed_along (session : SecureSession) (payload : Value ν) (s : IpcServer ν) :
    R s (onSealed env id session payload s) := by
  unfold onSealed
  split
  · exact hR.closes s
  · split
    · exact hR.closes s
    · rename_i session' _
      have hopened : R s (updateEntry id (fun c => { c with secure := some session' }) s) :=
        hR.writes s _ fun _ => rfl
      refine IsFrame.trans hopened ?_
      split
      · exact hR.closes _
      · dsimp only
        split
        · exact IsFrame.trans (deliverFrame_along hR env _ _) (hR.closes _)
        · exact deliverFrame_along hR env _ _

theorem dispatch_along (payload : Value ν) (s : IpcServer ν) :
    R s (dispatch env id payload s).2 := by
  unfold dispatch
  split
  · exact IsFrame.refl s
  · split
    · exact deliverFrame_along hR env payload s
    · split
      · exact onHandshake_along hR env _ payload s
      · exact onSealed_along hR env _ payload s

theorem dispatchAll_along (payloads : List (Value ν)) (s : IpcServer ν) :
    R s (dispatchAll env id payloads s).2 := by
  induction payloads generalizing s with
  | nil => exact IsFrame.refl s
  | cons payload payloads ih =>
    have hone := dispatch_along hR env payload s
    unfold dispatchAll
    split
    · rename_i s₁ hthrew
      rw [hthrew] at hone
      exact hone
    · rename_i s₁ hdone
      rw [hdone] at hone
      exact IsFrame.trans hone (ih s₁)

/-- The relation allows writes to the decoder and to the count as well. -/
structure AllowsData (id : ConnId) (R : IpcServer ν → IpcServer ν → Prop) : Prop
    extends Allows id R where
  decodes : ∀ s d, R s (setDecoder id d s)
  counts : ∀ (s : IpcServer ν) total, R s { s with totalBuffered := total }

omit hR in
theorem drainConn_along (hR : AllowsData id R) (turns : Nat) (r : DecodeResult ν)
    (d : FrameDecoder) (s : IpcServer ν) : R s (drainConn env id turns r d s).2 := by
  induction turns generalizing r d s with
  | zero => exact dispatchAll_along hR.toAllows env r.frames s
  | succ turns ih =>
    have hframes := dispatchAll_along hR.toAllows env r.frames s
    rw [drainConn]
    rcases hdisp : dispatchAll env id r.frames s with ⟨threw, s₁⟩
    rw [hdisp] at hframes
    cases threw with
    | true => exact hframes
    | false =>
      dsimp only
      split
      · split
        · exact IsFrame.trans hframes (hR.decodes s₁ _)
        · exact IsFrame.trans hframes (IsFrame.trans (hR.decodes s₁ _) (ih _ _ _))
      · exact hframes

omit hR in
theorem onData_along (hR : AllowsData id R) (chunk : Bytes) (s : IpcServer ν) :
    R s (onData env id chunk s) := by
  unfold onData
  split
  · exact IsFrame.refl s
  · split
    · exact IsFrame.trans (hR.decodes s _) (hR.closes _)
    · rename_i r d _
      dsimp only
      set total : Int := s.totalBuffered + d.bufferedBytes - _
      have hpushed : R s { setDecoder id d s with totalBuffered := total } :=
        IsFrame.trans (hR.decodes s d) (hR.counts _ total)
      refine IsFrame.trans hpushed ?_
      split
      · exact hR.closes _
      · have hloop := drainConn_along env hR d.buf.length r d
          { setDecoder id d s with totalBuffered := total }
        split
        · rename_i s₂ hs₂
          rw [hs₂] at hloop
          exact IsFrame.trans hloop (hR.closes _)
        · rename_i s₂ hs₂
          rw [hs₂] at hloop
          exact hloop

end Dispatch

/-! ## Ids -/

section Ids

variable {ν : Type} [JsNumber ν] {env : ServerEnv ν} {s : IpcServer ν}

instance : IsFrame fun s s' : IpcServer ν => ServerIds s → ServerIds s' where
  refl _ h := h
  trans h h' hs := h' (h hs)

omit [JsNumber ν] in
theorem serverIds_allows (id : ConnId) :
    AllowsData id fun s s' : IpcServer ν => ServerIds s → ServerIds s' where
  emits _ _ h := ⟨h.distinct, h.below⟩
  draws _ h := ⟨h.distinct, h.below⟩
  closes _ h := h.closeConn
  writes _ _ _ h := h.update
  decodes _ _ h := h.update
  counts _ _ h := ⟨h.distinct, h.below⟩

omit [JsNumber ν] in
theorem ServerIds.accept (h : ServerIds s) (nowMs : Nat) : ServerIds (accept env nowMs s) := by
  unfold IpcServer.accept
  split
  · exact h
  · dsimp only
    split
    · exact ⟨h.distinct, h.below⟩
    · refine ⟨?_, fun c hc => ?_⟩
      · rw [List.map_append]
        refine h.distinct.append (by simp) fun id hid hnew => ?_
        obtain ⟨c, hc, rfl⟩ := List.mem_map.mp hid
        have heq : c.1 = s.seq + 1 := by simpa using hnew
        exact absurd (heq ▸ h.below c hc) (Nat.not_succ_le_self _)
      · rcases List.mem_append.mp hc with hc | hc
        · exact Nat.le_succ_of_le (h.below c hc)
        · obtain rfl := List.mem_singleton.mp hc
          exact Nat.le_refl _

theorem ServerIds.next (h : ServerIds s) (i : String × Event ν) :
    ServerIds (s.next env i).2 := by
  obtain ⟨nowIso, e⟩ := i
  have hnow : ServerIds { s with nowIso } := ⟨h.distinct, h.below⟩
  cases e with
  | accept nowMs => exact hnow.accept nowMs
  | data id chunk => exact onData_along env (serverIds_allows id) chunk _ hnow
  | handshakeTimeout id =>
    show ServerIds (if (s.secure? id).isSome then _ else _)
    split
    · exact hnow
    · exact hnow.closeConn
  | close id => exact hnow.closeConn
  | send id frame => exact send_along (serverIds_allows id).toAllows env frame _ hnow

theorem ServerIds.run {ok : IpcServer ν → String × Event ν → Prop}
    {log : List ((String × Event ν) × Unit)} (run : Run (IpcServer.next env) ok {} log s) :
    ServerIds s :=
  run.invariant ⟨List.nodup_nil, fun _ hc => nomatch hc⟩ fun _ i h _ => h.next i

end Ids

/-- In a concrete run: a server without a root secret, whose daemon does nothing. -/
def quietServer : ServerEnv Int where
  crypto := { sha256 := id, hkdf := fun ikm _ _ _ => ikm, hmac := fun _ message => message }
  aead := { encrypt := fun _ _ _ plaintext => (plaintext, List.replicate 16 0)
            length_ciphertext := fun _ _ _ _ => rfl, length_tag := fun _ _ _ _ => rfl }
  decrypt := fun _ _ _ ciphertext _ => some ciphertext
  rootSecret := none
  onFrame := fun _ _ => []
  coerce := fun _ => none
  randomNonce := fun _ => []
  one := 1

end Proof
end XBus
