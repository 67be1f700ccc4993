import XBus.Proof.Framing
import XBus.Proof.Server
import Mathlib.Algebra.BigOperators.Group.List.Basic
import Mathlib.Data.Int.Order.Basic

/-!
# The count of buffered bytes

`totalBuffered` is kept by differences. A chunk adds what its decoder grew by, a closed connection
takes away what its decoder holds, and the budget is checked against the count. Two things move a
decoder's buffer and not the count: `continueDrain`, and a push that throws.

`drift` is what the count is ahead of the buffers. Frames that are dispatched, whatever the handler
does with them, leave it where it is, and so does closing, unless it is negative and the clamp at
zero hides it (`Steady`). So the count is exact in every run whose chunks move nothing uncounted,
and a chunk that does leaves it wrong (`buffered_exact_iff`).
-/

set_option autoImplicit false

namespace XBus

open Lib FrameDecoder

variable {ν : Type}

/-- The bytes in the decoders of the open connections. -/
def IpcServer.buffered (s : IpcServer ν) : Nat :=
  (s.conns.map fun c => c.2.decoder.bufferedBytes).sum

variable [JsNumber ν]

/-- A chunk moves nothing uncounted: a push that throws leaves as many bytes as there were, or the
    clamp makes up for it; and a drain that has to go on finds the connection closed, or throws at
    once. -/
def counted (env : ServerEnv ν) (s : IpcServer ν) : IpcServer.Event ν → Bool
  | .data id chunk =>
    match s.conn? id with
    | none => true
    | some c =>
      match (push chunk c.decoder : Except Failure (DecodeResult ν) × FrameDecoder) with
      | (.error _, d) => d.bufferedBytes = c.decoder.bufferedBytes ∨
          (s.buffered = c.decoder.bufferedBytes ∧ c.decoder.bufferedBytes ≤ d.bufferedBytes)
      | (.ok r, d) =>
        let total := s.totalBuffered + d.bufferedBytes - c.decoder.bufferedBytes
        let dispatched := IpcServer.dispatchAll env id r.frames
          { IpcServer.setDecoder id d s with totalBuffered := total }
        r.hasMore = false ∨ total > env.globalBudget ∨ dispatched.1 = true ∨
          dispatched.2.conn? id = none ∨
          (continueDrain d : Except Failure (DecodeResult ν) × FrameDecoder).2.bufferedBytes =
            d.bufferedBytes
  | _ => true

namespace Proof

open IpcServer

/-! ## Sums over the connections -/

section Sums

omit [JsNumber ν]

variable {s : IpcServer ν} {id : ConnId} {c : ConnEntry} {f : ConnEntry → ConnEntry}

theorem sum_updated {cs : List (ConnId × ConnEntry)} (hnodup : (cs.map (·.1)).Nodup)
    (hc : (id, c) ∈ cs) :
    ((cs.map fun c => if c.1 = id then (c.1, f c.2) else c).map
        fun c => c.2.decoder.bufferedBytes).sum + c.decoder.bufferedBytes =
      (cs.map fun c => c.2.decoder.bufferedBytes).sum + (f c).decoder.bufferedBytes := by
  induction cs with
  | nil => cases hc
  | cons c₀ cs ih =>
    obtain ⟨hfresh, hrest⟩ := List.nodup_cons.mp hnodup
    rcases List.mem_cons.mp hc with rfl | hc
    · -- no other entry has the id
      have hsame : (cs.map fun c => if c.1 = id then (c.1, f c.2) else c) = cs := by
        refine (List.map_congr_left fun x hx => ?_).trans (List.map_id _)
        exact if_neg fun heq => hfresh (List.mem_map.mpr ⟨x, hx, heq⟩)
      simp only [List.map_cons, List.sum_cons, if_true, hsame]
      omega
    · have hne : c₀.1 ≠ id := fun heq => hfresh (List.mem_map.mpr ⟨(id, c), hc, heq.symm⟩)
      have hcs := ih hrest hc
      simp only [List.map_cons, List.sum_cons, if_neg hne]
      omega

theorem sum_removed {cs : List (ConnId × ConnEntry)} (hnodup : (cs.map (·.1)).Nodup)
    (hc : (id, c) ∈ cs) :
    ((cs.filter fun c => c.1 ≠ id).map fun c => c.2.decoder.bufferedBytes).sum +
        c.decoder.bufferedBytes =
      (cs.map fun c => c.2.decoder.bufferedBytes).sum := by
  induction cs with
  | nil => cases hc
  | cons c₀ cs ih =>
    obtain ⟨hfresh, hrest⟩ := List.nodup_cons.mp hnodup
    rcases List.mem_cons.mp hc with rfl | hc
    · have hsame : (cs.filter fun c => c.1 ≠ id) = cs := by
        refine List.filter_eq_self.mpr fun x hx => decide_eq_true fun heq => ?_
        exact hfresh (List.mem_map.mpr ⟨x, hx, heq⟩)
      simp only [List.filter_cons, ne_eq, not_true_eq_false, decide_false, Bool.false_eq_true,
        if_false, List.map_cons, List.sum_cons]
      simp only [ne_eq] at hsame
      rw [hsame, Nat.add_comm]
    · have hne : c₀.1 ≠ id := fun heq => hfresh (List.mem_map.mpr ⟨(id, c), hc, heq.symm⟩)
      have hcs := ih hrest hc
      simp only [List.filter_cons, hne, ne_eq, not_false_eq_true, decide_true, if_true,
        List.map_cons, List.sum_cons] at hcs ⊢
      omega

theorem buffered_updateEntry (ids : ServerIds s) (hopen : s.conn? id = some c) :
    (updateEntry id f s).buffered + c.decoder.bufferedBytes =
      s.buffered + (f c).decoder.bufferedBytes :=
  sum_updated ids.distinct (conn?_mem hopen)

/-- What the count is ahead of the buffers. -/
def drift (s : IpcServer ν) : Int := s.totalBuffered - s.buffered

/-- Closing takes the bytes of the connection off the buffers and off the count, as far as it
    goes. -/
theorem closeConn_open (ids : ServerIds s) (hopen : s.conn? id = some c) :
    (closeConn id s).totalBuffered = max 0 (s.totalBuffered - c.decoder.bufferedBytes) ∧
      (closeConn id s).buffered + c.decoder.bufferedBytes = s.buffered := by
  have hremoved := sum_removed ids.distinct (conn?_mem hopen)
  simp only [closeConn, hopen]
  exact ⟨rfl, hremoved⟩

theorem closeConn_drift (ids : ServerIds s) (h : 0 ≤ drift s) :
    drift (closeConn id s) = drift s := by
  cases hopen : s.conn? id with
  | none => simp only [closeConn, hopen]
  | some c =>
    obtain ⟨htotal, hbuffered⟩ := closeConn_open ids hopen
    simp only [drift] at h ⊢
    omega

theorem setDecoder_drift (ids : ServerIds s) (hopen : s.conn? id = some c) (d : FrameDecoder) :
    drift (setDecoder id d s) = drift s + c.decoder.bufferedBytes - d.bufferedBytes := by
  have hbuffered : (setDecoder id d s).buffered + _ = s.buffered + d.bufferedBytes :=
    buffered_updateEntry ids hopen
  have htotal : (setDecoder id d s).totalBuffered = s.totalBuffered := rfl
  simp only [drift]
  omega

end Sums

/-! ## Dispatching -/

section Steady

omit [JsNumber ν]

variable {s s' : IpcServer ν} {id : ConnId}

/-- The count stays as far ahead as it was, and what is open has the decoder it had. -/
structure Steady (s s' : IpcServer ν) : Prop where
  ids : ServerIds s → ServerIds s'
  drift : ServerIds s → 0 ≤ drift s → Proof.drift s' = Proof.drift s
  decoder : ∀ id c', s'.conn? id = some c' → ∃ c, s.conn? id = some c ∧ c'.decoder = c.decoder

instance : IsFrame (Steady (ν := ν)) where
  refl s := ⟨fun ids => ids, fun _ _ => rfl, fun _ c h => ⟨c, h, rfl⟩⟩
  trans h h' := by
    refine ⟨fun ids => h'.ids (h.ids ids), fun ids hd => ?_, fun id c'' hopen => ?_⟩
    · have hfirst := h.drift ids hd
      rw [h'.drift (h.ids ids) (hfirst ▸ hd), hfirst]
    · obtain ⟨c', hopen', heq'⟩ := h'.decoder id c'' hopen
      obtain ⟨c, hopen₀, heq⟩ := h.decoder id c' hopen'
      exact ⟨c, hopen₀, heq'.trans heq⟩

theorem steady_allows (id : ConnId) : Allows id (Steady (ν := ν)) where
  emits s e := ⟨fun ids => ⟨ids.distinct, ids.below⟩, fun _ _ => rfl, fun _ c h => ⟨c, h, rfl⟩⟩
  draws s := ⟨fun ids => ⟨ids.distinct, ids.below⟩, fun _ _ => rfl, fun _ c h => ⟨c, h, rfl⟩⟩
  closes s := by
    refine ⟨fun ids => ids.closeConn, fun ids hd => closeConn_drift ids hd, fun id' c h => ?_⟩
    rw [conn?_closeConn] at h
    split at h
    · cases h
    · exact ⟨c, h, rfl⟩
  writes s f hf := by
    refine ⟨fun ids => ids.update, fun ids _ => ?_, fun id' c' h => ?_⟩
    · cases hopen : s.conn? id with
      | none => rw [updateEntry_of_none hopen]
      | some c =>
        have hbuffered := buffered_updateEntry (f := f) ids hopen
        rw [hf c] at hbuffered
        have htotal : (updateEntry id f s).totalBuffered = s.totalBuffered := rfl
        simp only [Proof.drift]
        omega
    · rw [conn?_updateEntry] at h
      obtain ⟨c, hopen, rfl⟩ := Option.map_eq_some_iff.mp h
      refine ⟨c, hopen, ?_⟩
      split
      · exact hf c
      · rfl

end Steady

/-! ## Draining -/

section Draining

variable {d d' : FrameDecoder}

/-- A drain takes bytes off the buffer at most. -/
theorem drainLoop_le (turns : Nat) (frames : List (Value ν)) (d : FrameDecoder) :
    (drainLoop turns frames d).2.bufferedBytes ≤ d.bufferedBytes := by
  induction turns generalizing frames d with
  | zero => exact Nat.le_refl _
  | succ turns ih =>
    rw [drainLoop]
    dsimp only
    split_ifs with hprefix hzero hlimit hbody
    · exact Nat.le_refl _
    · exact Nat.le_refl _
    · exact Nat.le_refl _
    · exact Nat.le_refl _
    · split
      · exact Nat.le_refl _
      · have hdrop : (d.buf.drop (prefixBytes + declared d.buf)).length ≤ d.buf.length := by
          rw [List.length_drop]
          exact Nat.sub_le _ _
        split
        · exact hdrop
        · exact Nat.le_trans (ih _ _) hdrop

/-- Where a complete frame is left, going on takes it off, unless it throws. -/
theorem continueDrain_lt {r : DecodeResult ν} (hmore : d.hasCompleteFrame = true)
    (h : continueDrain d = (.ok r, d')) : d'.bufferedBytes < d.bufferedBytes := by
  simp only [hasCompleteFrame, Bool.and_eq_true, decide_eq_true_eq] at hmore
  simp only [continueDrain, drain] at h
  cases hturns : d.buf.length with
  | zero => simp only [prefixBytes] at hmore; omega
  | succ turns =>
    rw [hturns, drainLoop] at h
    dsimp only at h
    rw [if_neg (by omega)] at h
    split_ifs at h with hzero hlimit hbody
    · cases h
    · cases h
    · omega
    · cases hparse : (Value.parse ((d.buf.drop prefixBytes).take (declared d.buf)) :
        Option (Value ν)) with
      | none => simp [hparse] at h
      | some v =>
        simp only [hparse] at h
        have hdrop : (d.buf.drop (prefixBytes + declared d.buf)).length < d.buf.length := by
          rw [List.length_drop]
          simp only [prefixBytes] at hmore ⊢
          omega
        split at h
        · cases h
          exact hdrop
        · have hrest := drainLoop_le turns [v]
            { d with buf := d.buf.drop (prefixBytes + declared d.buf) }
          simp only [List.nil_append] at h
          rw [h] at hrest
          exact Nat.lt_of_le_of_lt hrest hdrop

end Draining

/-! ## Data -/

section Data

variable {env : ServerEnv ν} {s : IpcServer ν} {id : ConnId} {c : ConnEntry} {d : FrameDecoder}

theorem dispatchAll_steady (env : ServerEnv ν) (id : ConnId) (payloads : List (Value ν))
    (s : IpcServer ν) : Steady s (dispatchAll env id payloads s).2 :=
  dispatchAll_along (steady_allows id) env payloads s

/-- A closed connection's frames go nowhere. -/
theorem dispatchAll_closed (hclosed : s.conn? id = none) (payloads : List (Value ν)) :
    dispatchAll env id payloads s = (false, s) := by
  induction payloads with
  | nil => rfl
  | cons payload payloads ih =>
    have hone : dispatch env id payload s = (false, s) := by simp only [dispatch, hclosed]
    simp only [dispatchAll, hone, ih]

theorem drainConn_closed (hclosed : s.conn? id = none) (turns : Nat) (r : DecodeResult ν)
    (d : FrameDecoder) : (drainConn env id turns r d s).2 = s := by
  induction turns generalizing r d with
  | zero => rw [drainConn, dispatchAll_closed hclosed]
  | succ turns ih =>
    have hset (d : FrameDecoder) : setDecoder id d s = s := updateEntry_of_none hclosed
    rw [drainConn, dispatchAll_closed hclosed]
    dsimp only
    split
    · split
      · exact hset _
      · rw [hset]
        exact ih _ _
    · rfl

omit [JsNumber ν] in
/-- A decoder is written back with fewer bytes. -/
theorem setDecoder_ahead (ids : ServerIds s) (d' : FrameDecoder)
    (hsync : ∀ c, s.conn? id = some c → c.decoder = d)
    (hle : d'.bufferedBytes ≤ d.bufferedBytes) : drift s ≤ drift (setDecoder id d' s) := by
  cases hopen : s.conn? id with
  | none => exact (congrArg drift (updateEntry_of_none hopen)).ge
  | some c =>
    rw [setDecoder_drift ids hopen, hsync c hopen]
    omega

omit [JsNumber ν] in
theorem setDecoder_sync (s : IpcServer ν) (d : FrameDecoder) :
    ∀ c, (setDecoder id d s).conn? id = some c → c.decoder = d := by
  intro c hopen
  rw [setDecoder, conn?_updateEntry] at hopen
  obtain ⟨c₀, -, rfl⟩ := Option.map_eq_some_iff.mp hopen
  rw [if_pos rfl]

/-- Draining never brings the count back. -/
theorem drainConn_ahead (env : ServerEnv ν) (turns : Nat) (r : DecodeResult ν)
    (d : FrameDecoder) (s : IpcServer ν)
    (ids : ServerIds s) (hahead : 0 ≤ drift s)
    (hsync : ∀ c, s.conn? id = some c → c.decoder = d) :
    ServerIds (drainConn env id turns r d s).2 ∧
      drift s ≤ drift (drainConn env id turns r d s).2 := by
  induction turns generalizing r d s with
  | zero =>
    have hsteady := dispatchAll_steady env id r.frames s
    exact ⟨hsteady.ids ids, (hsteady.drift ids hahead).ge⟩
  | succ turns ih =>
    have hsteady := dispatchAll_steady env id r.frames s
    rw [drainConn]
    rcases hdisp : dispatchAll env id r.frames s with ⟨threw, s₁⟩
    rw [hdisp] at hsteady
    have ids₁ : ServerIds s₁ := hsteady.ids ids
    have hdrift₁ : drift s₁ = drift s := hsteady.drift ids hahead
    have hsync₁ : ∀ c, s₁.conn? id = some c → c.decoder = d := fun c' hopen => by
      obtain ⟨c, hopen₀, heq⟩ := hsteady.decoder id c' hopen
      exact heq.trans (hsync c hopen₀)
    cases threw with
    | true => exact ⟨ids₁, hdrift₁.ge⟩
    | false =>
      dsimp only
      split
      · have hle (d' : FrameDecoder)
            (h : (continueDrain d : Except Failure (DecodeResult ν) × FrameDecoder).2 = d') :
            drift s ≤ drift (setDecoder id d' s₁) := by
          rw [← hdrift₁]
          refine setDecoder_ahead ids₁ d' hsync₁ ?_
          rw [← h]
          exact drainLoop_le _ _ d
        -- A turn that throws leaves its decoder; one that answers goes on.
        rcases hdrain : (continueDrain d : Except Failure (DecodeResult ν) × FrameDecoder)
          with ⟨e | r', d'⟩
        · have herror := hle d' (by rw [hdrain])
          exact ⟨(ids₁.update : ServerIds (setDecoder id d' s₁)), herror⟩
        · have hstep := hle d' (by rw [hdrain])
          obtain ⟨hids, hrest⟩ := ih r' d' (setDecoder id d' s₁) ids₁.update
            (hahead.trans hstep) (setDecoder_sync s₁ d')
          exact ⟨hids, hstep.trans hrest⟩
      · exact ⟨ids₁, hdrift₁.ge⟩

theorem push_hasMore {chunk : Bytes} {d₀ : FrameDecoder} {r : DecodeResult ν}
    (h : push chunk d₀ = (.ok r, d)) : r.hasMore = d.hasCompleteFrame :=
  drainLoop_hasMore _ _ _ _ _ (Nat.le_refl _) h

/-- The loop of a chunk keeps an exact count exactly if it need not go on, or goes on with a
    connection that is closed, or throws before it takes a frame. -/
theorem drainConn_exact (env : ServerEnv ν) {r : DecodeResult ν} (ids : ServerIds s)
    (hexact : drift s = 0)
    (hopen : s.conn? id = some c) (hc : c.decoder = d) (hmore : r.hasMore = d.hasCompleteFrame) :
    drift (drainConn env id d.buf.length r d s).2 = 0 ↔
      r.hasMore = false ∨ (dispatchAll env id r.frames s).1 = true ∨
        (dispatchAll env id r.frames s).2.conn? id = none ∨
        (continueDrain d : Except Failure (DecodeResult ν) × FrameDecoder).2.bufferedBytes =
          d.bufferedBytes := by
  have hsteady := dispatchAll_steady env id r.frames s
  rcases hdisp : dispatchAll env id r.frames s with ⟨threw, s₁⟩
  rw [hdisp] at hsteady
  have ids₁ : ServerIds s₁ := hsteady.ids ids
  have hdrift₁ : drift s₁ = 0 := (hsteady.drift ids hexact.ge).trans hexact
  cases hturns : d.buf.length with
  | zero =>
    -- an empty buffer has no frame left
    have hdone : r.hasMore = false := by
      rw [hmore]
      exact not_complete_of_short (by simp [hturns, prefixBytes])
    rw [drainConn, hdisp]
    exact ⟨fun _ => .inl hdone, fun _ => hdrift₁⟩
  | succ turns =>
    rw [drainConn, hdisp]
    cases threw with
    | true => exact ⟨fun _ => .inr (.inl rfl), fun _ => hdrift₁⟩
    | false =>
      dsimp only
      cases hcontinue : r.hasMore with
      | false => exact ⟨fun _ => .inl rfl, fun _ => hdrift₁⟩
      | true =>
        rw [if_pos rfl]
        simp only [Bool.true_eq_false, Bool.false_eq_true, false_or]
        have hle :
          (continueDrain d : Except Failure (DecodeResult ν) × FrameDecoder).2.bufferedBytes
            ≤ d.bufferedBytes := drainLoop_le _ _ d
        cases hopen₁ : s₁.conn? id with
        | none =>
          have hset (d' : FrameDecoder) : setDecoder id d' s₁ = s₁ := updateEntry_of_none hopen₁
          refine ⟨fun _ => .inl rfl, fun _ => ?_⟩
          split
          · rw [hset]
            exact hdrift₁
          · rw [hset, drainConn_closed hopen₁]
            exact hdrift₁
        | some c₁ =>
          obtain ⟨c', hopen', hdec⟩ := hsteady.decoder id c₁ hopen₁
          obtain rfl : c' = c := Option.some.inj (hopen'.symm.trans hopen)
          have hset (d' : FrameDecoder) : drift (setDecoder id d' s₁) =
              d.bufferedBytes - d'.bufferedBytes := by
            rw [setDecoder_drift ids₁ hopen₁, hdrift₁, hdec, hc]
            omega
          simp only [reduceCtorEq, false_or]
          rcases hdrain : (continueDrain d : Except Failure (DecodeResult ν) × FrameDecoder)
            with ⟨e | r', d'⟩
          · rw [hset]
            simp only
            omega
          · -- a frame was taken off and is not counted: nothing brings it back
            have hlt := continueDrain_lt (hmore.symm.trans hcontinue) hdrain
            have hahead : 0 < drift (setDecoder id d' s₁) := by
              rw [hset]
              omega
            obtain ⟨-, hrest⟩ := drainConn_ahead env turns r' d' (setDecoder id d' s₁)
              ids₁.update hahead.le (setDecoder_sync s₁ d')
            constructor
            · intro h
              have hzero : drift (drainConn env id turns r' d' (setDecoder id d' s₁)).2 = 0 := h
              omega
            · intro h
              exact absurd h (Nat.ne_of_lt hlt)

theorem onData_exact_iff (ids : ServerIds s) (hexact : drift s = 0) (chunk : Bytes) :
    drift (onData env id chunk s) = 0 ↔ counted env s (.data id chunk) = true := by
  cases hopen : s.conn? id with
  | none =>
    simp only [onData, counted, hopen]
    exact ⟨fun _ => trivial, fun _ => hexact⟩
  | some c =>
    simp only [onData, counted, hopen]
    rcases hpush : (push chunk c.decoder : Except Failure (DecodeResult ν) × FrameDecoder)
      with ⟨e | r, d⟩
    · -- A decoder that throws closes the connection; the total still counts its old bytes.
      have hset : (setDecoder id d s).conn? id = some { c with decoder := d } := by
        rw [setDecoder, conn?_updateEntry, hopen, Option.map_some, if_pos rfl]
      have hids : ServerIds (setDecoder id d s) := ids.update
      obtain ⟨htotal, hbuffered⟩ := closeConn_open hids hset
      obtain ⟨-, hshare⟩ := closeConn_open ids hopen
      have hdrift := setDecoder_drift ids hopen d
      have hcount : (setDecoder id d s).totalBuffered = s.totalBuffered := rfl
      dsimp only at htotal hbuffered
      simp only [decide_eq_true_eq]
      simp only [drift] at hexact hdrift ⊢
      omega
    · set total : Int := s.totalBuffered + d.bufferedBytes - c.decoder.bufferedBytes with htotal
      set s₁ : IpcServer ν := { setDecoder id d s with totalBuffered := total } with hs₁
      have hset : s₁.conn? id = some { c with decoder := d } := by
        show (setDecoder id d s).conn? id = _
        rw [setDecoder, conn?_updateEntry, hopen, Option.map_some, if_pos rfl]
      have hids₀ : ServerIds (setDecoder id d s) := ids.update
      have hids : ServerIds s₁ := ⟨hids₀.distinct, hids₀.below⟩
      have hexact₁ : drift s₁ = 0 := by
        have hdrift := setDecoder_drift ids hopen d
        have hcount : (setDecoder id d s).totalBuffered = s.totalBuffered := rfl
        have hsame : s₁.buffered = (setDecoder id d s).buffered := rfl
        have hnew : s₁.totalBuffered = total := rfl
        simp only [drift] at hexact hdrift ⊢
        omega
      simp only [decide_eq_true_eq]
      -- Over the budget the connection is closed, else its frames are drained.
      by_cases hbudget : total > env.globalBudget
      · rw [if_pos hbudget, closeConn_drift hids hexact₁.ge]
        exact ⟨fun _ => .inr (.inl hbudget), fun _ => hexact₁⟩
      · rw [if_neg hbudget]
        have hloop := drainConn_exact env hids hexact₁ hset rfl (push_hasMore hpush)
        have hahead := drainConn_ahead env d.buf.length r d s₁ hids hexact₁.ge
          fun c' h => by rw [hset] at h; cases h; rfl
        refine Iff.trans ?_ (hloop.trans (or_congr_right (or_iff_right hbudget).symm))
        split
        · rename_i s₂ hs₂
          rw [hs₂] at hahead ⊢
          rw [closeConn_drift hahead.1 (hexact₁ ▸ hahead.2)]
        · rename_i s₂ hs₂
          rw [hs₂]

end Data

/-! ## Runs -/

section Runs

variable {env : ServerEnv ν} {s : IpcServer ν}

/-- The count is the bytes in the buffers, and so the budget refuses a chunk exactly if they
    exceed it. -/
structure Exact (env : ServerEnv ν) (s : IpcServer ν) : Prop where
  total : s.totalBuffered = s.buffered
  refuses : ∀ id chunk c (r : DecodeResult ν) d, s.conn? id = some c →
    push chunk c.decoder = (.ok r, d) →
    (s.totalBuffered + d.bufferedBytes - c.decoder.bufferedBytes > env.globalBudget ↔
      (setDecoder id d s).buffered > env.globalBudget)

theorem exact_iff (ids : ServerIds s) : Exact env s ↔ drift s = 0 := by
  constructor
  · intro h
    have htotal := h.total
    simp only [drift]
    omega
  · intro h
    simp only [drift] at h
    refine ⟨by omega, fun id chunk c r d hopen _ => ?_⟩
    have hset : (setDecoder id d s).buffered + _ = s.buffered + d.bufferedBytes :=
      buffered_updateEntry ids hopen
    omega

omit [JsNumber ν] in
theorem accept_drift (nowMs : Nat) : drift (accept env nowMs s) = drift s := by
  unfold accept
  split
  · rfl
  · dsimp only
    split
    · rfl
    · simp [drift, IpcServer.buffered, bufferedBytes]

/-- **What one event does to the count.** -/
theorem next_exact_iff (ids : ServerIds s) (hexact : drift s = 0) (i : String × Event ν) :
    drift (s.next env i).2 = 0 ↔ counted env { s with nowIso := i.1 } i.2 = true := by
  obtain ⟨nowIso, e⟩ := i
  have hids : ServerIds { s with nowIso } := ⟨ids.distinct, ids.below⟩
  have hnow : drift { s with nowIso } = 0 := hexact
  have hsteady {s' : IpcServer ν} (h : Steady { s with nowIso } s') : drift s' = 0 :=
    (h.drift hids hnow.ge).trans hnow
  cases e with
  | accept nowMs => exact ⟨fun _ => rfl, fun _ => (accept_drift nowMs).trans hnow⟩
  | data id chunk => exact onData_exact_iff hids hnow chunk
  | handshakeTimeout id =>
    refine ⟨fun _ => rfl, fun _ => ?_⟩
    show drift (if (s.secure? id).isSome then _ else _) = 0
    split
    · exact hnow
    · exact hsteady ((steady_allows id).closes _)
  | close id => exact ⟨fun _ => rfl, fun _ => hsteady ((steady_allows id).closes _)⟩
  | send id frame =>
    exact ⟨fun _ => rfl, fun _ => hsteady (send_along (steady_allows id) env frame _)⟩

/-- **The count of buffered bytes.** In every run whose chunks move nothing uncounted, the count is
    the sum over the open connections and the budget refuses by that sum; and one more event keeps
    it so exactly if it moves nothing uncounted either. -/
theorem buffered_exact_iff {log : List ((String × Event ν) × Unit)}
    (run : Run (IpcServer.next env) (fun s i => counted env { s with nowIso := i.1 } i.2 = true) {}
      log s) :
    Exact env s ∧ ∀ i, Exact env (s.next env i).2 ↔
      counted env { s with nowIso := i.1 } i.2 = true := by
  have ids : ServerIds s := .run run
  have hexact : drift s = 0 := by
    have hinv : ServerIds s ∧ drift s = 0 := by
      refine run.invariant (P := fun s => ServerIds s ∧ drift s = 0)
        ⟨⟨List.nodup_nil, fun _ hc => nomatch hc⟩, rfl⟩ fun u i hu hi => ?_
      exact ⟨hu.1.next i, (next_exact_iff hu.1 hu.2 i).mpr hi⟩
    exact hinv.2
  exact ⟨(exact_iff ids).mpr hexact, fun i =>
    (exact_iff (ids.next i)).trans (next_exact_iff ids hexact i)⟩

end Runs

/-- Two connections, and three bytes of a length on the first. -/
def threeBytesWaiting : List (String × Event Int) :=
  [("", .accept 0), ("", .accept 1), ("", .data 1 [0, 0, 0])]

theorem threeBytes_counted :
    let s := (runAll (IpcServer.next quietServer) {} threeBytesWaiting).2
    s.buffered = 3 ∧ s.totalBuffered = 3 := by
  intro s
  have hrun : Run (IpcServer.next quietServer)
      (fun s i => counted quietServer { s with nowIso := i.1 } i.2 = true) {} _ s :=
    Run.of_runAll threeBytesWaiting (by decide +kernel)
  have hthree : s.buffered = 3 := by decide +kernel
  exact ⟨hthree, by rw [(buffered_exact_iff hrun).1.total, hthree]; rfl⟩

/-- A frame of length zero on the second connection closes it; its four bytes, which were never
    counted, are taken off the first one's three. -/
theorem zero_frame_miscounts :
    ∃ log s, Run (IpcServer.next quietServer) Any {} log s ∧ ¬ Exact quietServer s := by
  refine ⟨_, _, Run.of_events (IpcServer.next quietServer) {}
    (threeBytesWaiting ++ [("", .data 2 [0, 0, 0, 0])]), fun h => ?_⟩
  have hwrong : (runAll (IpcServer.next quietServer) {}
      (threeBytesWaiting ++ [("", .data 2 [0, 0, 0, 0])])).2.totalBuffered ≠
      (runAll (IpcServer.next quietServer) {}
        (threeBytesWaiting ++ [("", .data 2 [0, 0, 0, 0])])).2.buffered := by
    decide +kernel
  exact hwrong h.total

end Proof
end XBus
