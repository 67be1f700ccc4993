import XBus.Framing

/-!
# `Proof/Framing.lean` — frames survive every segmentation

`InStream d rest values` says where a decoder stands in a stream of frames: its buffer, followed by
the bytes still to come, is the encoding of `values`. Every drain takes some frames off the front of
both (`drainLoop_takes`), the loop around it ends where no complete frame is left (`drainOn_takes`),
and a chunk only moves bytes from what is still to come into the buffer.
-/

set_option autoImplicit false

namespace XBus
namespace Proof

open Lib FrameDecoder

variable {ν : Type} [JsNumber ν]

/-! ## What is accepted, and what it looks like -/

def frameOf (v : Value ν) : Bytes := u32 v.stringify.length ++ v.stringify

def Fits (limit : Nat) (v : Value ν) : Prop :=
  v.stringify.length ≤ limit ∧ v.stringify.length < 4294967296

theorem encodeFrame_ok {v : Value ν} {limit : Nat} {e : Bytes} (h : encodeFrame v limit = .ok e) :
    Fits limit v ∧ e = frameOf v := by
  unfold encodeFrame at h
  dsimp only at h
  split at h
  · cases h
  · rename_i hlimit
    split at h
    · rename_i hword
      exact ⟨⟨Nat.not_lt.mp hlimit, hword⟩, (Except.ok.inj h).symm⟩
    · cases h

theorem length_frameOf (v : Value ν) : (frameOf v).length = prefixBytes + v.stringify.length := by
  simp [frameOf, prefixBytes]

/-- Where a decoder stands in a stream of frames. -/
structure InStream (d : FrameDecoder) (rest : Bytes) (values : List (Value ν)) : Prop where
  stream : d.buf ++ rest = values.flatMap frameOf
  fits : ∀ v ∈ values, Fits d.maxFrameBytes v

/-- A list that starts with `e`, cut behind `e`. -/
theorem drop_append_eq {α : Type} {xs rest e tail : List α} (h : xs ++ rest = e ++ tail)
    (hlen : e.length ≤ xs.length) : xs.take e.length = e ∧ xs.drop e.length ++ rest = tail := by
  obtain ⟨ys, rfl⟩ : ∃ ys, xs = e ++ ys := by
    rcases List.append_eq_append_iff.mp h with ⟨ys, he, -⟩ | ⟨ys, hxs, -⟩
    · subst he
      rw [List.length_append] at hlen
      have hnil : ys = [] := List.eq_nil_of_length_eq_zero (by omega)
      exact ⟨[], by simp [hnil]⟩
    · exact ⟨ys, hxs⟩
  rw [List.append_assoc] at h
  simpa using List.append_cancel_left h

section Front

variable {d : FrameDecoder} {rest : Bytes} {v : Value ν} {values : List (Value ν)}

/-- The length that the front of the buffer declares. -/
theorem InStream.declared_eq (h : InStream d rest (v :: values))
    (hheader : prefixBytes ≤ d.buf.length) :
    declared d.buf = v.stringify.length := by
  have hstream := h.stream
  rw [List.flatMap_cons, frameOf, List.append_assoc] at hstream
  have hword := (drop_append_eq hstream (by simpa [prefixBytes] using hheader)).1
  rw [declared, prefixBytes, ← length_u32 v.stringify.length, hword]
  exact beNat_u32 (h.fits v (List.mem_cons_self ..)).2

/-- A complete frame at the front, taken off. -/
theorem InStream.take_front (h : InStream d rest (v :: values))
    (hlen : prefixBytes + v.stringify.length ≤ d.buf.length) :
    (d.buf.drop prefixBytes).take v.stringify.length = v.stringify ∧
      InStream { d with buf := d.buf.drop (prefixBytes + v.stringify.length) } rest values := by
  have hstream := h.stream
  rw [List.flatMap_cons] at hstream
  obtain ⟨hfront, htail⟩ := drop_append_eq hstream (by rwa [length_frameOf])
  rw [length_frameOf] at hfront htail
  refine ⟨?_, htail, fun w hw => h.fits w (List.mem_cons_of_mem _ hw)⟩
  rw [List.take_drop, hfront, frameOf, prefixBytes, ← length_u32 v.stringify.length,
    List.drop_left]

end Front

/-! ## A drain -/

theorem not_complete_of_short {d : FrameDecoder} (h : d.buf.length < prefixBytes) :
    d.hasCompleteFrame = false := by
  simp only [hasCompleteFrame, Bool.and_eq_false_iff, decide_eq_false_iff_not]
  exact .inl (Nat.not_le.mpr h)

theorem not_complete_of_body {d : FrameDecoder}
    (h : d.buf.length < prefixBytes + declared d.buf) : d.hasCompleteFrame = false := by
  simp only [hasCompleteFrame, Bool.and_eq_false_iff, decide_eq_false_iff_not]
  exact .inr (Nat.not_le.mpr h)

/-- An answered drain says truly whether a complete frame is left, in any state of the buffer. -/
theorem drainLoop_hasMore (turns : Nat) (frames : List (Value ν)) (d d' : FrameDecoder)
    (r : DecodeResult ν) (hturns : d.buf.length ≤ turns)
    (h : drainLoop turns frames d = (.ok r, d')) : r.hasMore = d'.hasCompleteFrame := by
  induction turns generalizing frames d with
  | zero =>
    cases h
    exact (not_complete_of_short (by simp [prefixBytes, Nat.le_zero.mp hturns])).symm
  | succ turns ih =>
    rw [drainLoop] at h
    dsimp only at h
    split_ifs at h with hheader hzero hlimit hbody
    · cases h
      exact (not_complete_of_short hheader).symm
    · cases h
    · cases h
    · cases h
      exact (not_complete_of_body hbody).symm
    · cases hparse : (Value.parse ((d.buf.drop prefixBytes).take (declared d.buf)) :
        Option (Value ν)) with
      | none => simp [hparse] at h
      | some v =>
        simp only [hparse] at h
        split at h
        · cases h
          rfl
        · apply ih _ _ _ h
          simp only [List.length_drop, prefixBytes]
          omega

/-- What a drain does in a stream: it hands over some of the values, in order, at least one if a
    complete frame is there, and stands in what is left. -/
structure Takes (d : FrameDecoder) (rest : Bytes) (values taken : List (Value ν))
    (d' : FrameDecoder) : Prop where
  settings : d'.maxFrameBytes = d.maxFrameBytes ∧ d'.drainCap = d.drainCap
  left : ∃ later, values = taken ++ later ∧ InStream d' rest later
  shrinks : d'.buf.length ≤ d.buf.length
  progress : d.hasCompleteFrame → d'.buf.length < d.buf.length

theorem Takes.none {d : FrameDecoder} {rest : Bytes} {values : List (Value ν)}
    (h : InStream d rest values) (hnone : d.hasCompleteFrame = false) :
    Takes d rest values [] d :=
  ⟨⟨rfl, rfl⟩, ⟨values, rfl, h⟩, Nat.le_refl _, fun hc => by rw [hnone] at hc; cases hc⟩

theorem drainLoop_takes (turns : Nat) (frames : List (Value ν)) (d : FrameDecoder) (rest : Bytes)
    (values : List (Value ν)) (hturns : d.buf.length ≤ turns) (hd : InStream d rest values) :
    ∃ r d' taken, drainLoop turns frames d = (.ok r, d') ∧ r.frames = frames ++ taken ∧
      Takes d rest values taken d' := by
  induction turns generalizing frames d values with
  | zero =>
    have hnone : d.hasCompleteFrame = false :=
      not_complete_of_short (by simp [prefixBytes, Nat.le_zero.mp hturns])
    exact ⟨{ frames }, d, [], rfl, by simp, .none hd hnone⟩
  | succ turns ih =>
    -- The buffer ends inside a header, inside a body, or holds the first frame whole.
    by_cases hheader : d.buf.length < prefixBytes
    · refine ⟨{ frames }, d, [], ?_, by simp, .none hd (not_complete_of_short hheader)⟩
      rw [drainLoop]
      simp [hheader]
    cases values with
    | nil =>
      have hlen := congrArg List.length hd.stream
      simp only [List.length_append, List.flatMap_nil, List.length_nil, prefixBytes] at hlen hheader
      omega
    | cons v values =>
      have hlen := hd.declared_eq (Nat.not_lt.mp hheader)
      have hfits := hd.fits v (List.mem_cons_self ..)
      have hpos := v.stringify_pos
      by_cases hbody : d.buf.length < prefixBytes + v.stringify.length
      · have hnone := not_complete_of_body (d := d) (by rwa [hlen])
        refine ⟨{ frames }, d, [], ?_, by simp, .none hd hnone⟩
        rw [drainLoop]
        simp [hheader, hlen, Nat.pos_iff_ne_zero.mp hpos, Nat.not_lt.mpr hfits.1, hbody]
      · obtain ⟨hfront, hleft⟩ := hd.take_front (Nat.not_lt.mp hbody)
        obtain ⟨d₁, hd₁⟩ : ∃ d₁ : FrameDecoder,
          d₁ = { d with buf := d.buf.drop (prefixBytes + v.stringify.length) } := ⟨_, rfl⟩
        have hcut : d₁.buf.length < d.buf.length := by
          simp only [hd₁, List.length_drop, prefixBytes] at hbody ⊢
          omega
        -- A turn takes the first frame off the buffer and then looks at the cap.
        have hstep : drainLoop (turns + 1) frames d =
            if 0 < d.drainCap ∧ d.drainCap ≤ (frames ++ [v]).length then
              (.ok ⟨frames ++ [v], d₁.hasCompleteFrame⟩, d₁)
            else drainLoop turns (frames ++ [v]) d₁ := by
          rw [drainLoop]
          simp only [hheader, hlen, Nat.pos_iff_ne_zero.mp hpos, Nat.not_lt.mpr hfits.1, hbody,
            hfront, Value.parse_stringify, if_false, hd₁]
        have hsettings : d₁.maxFrameBytes = d.maxFrameBytes ∧ d₁.drainCap = d.drainCap := by
          rw [hd₁]
          exact ⟨rfl, rfl⟩
        rw [← hd₁] at hleft
        by_cases hcap : 0 < d.drainCap ∧ d.drainCap ≤ (frames ++ [v]).length
        · rw [hstep, if_pos hcap]
          exact ⟨_, _, [v], rfl, rfl, hsettings, ⟨values, rfl, hleft⟩, Nat.le_of_lt hcut,
            fun _ => hcut⟩
        · obtain ⟨r, d', taken, hdrain, hframes, htakes⟩ :=
            ih (frames ++ [v]) d₁ values (by omega) hleft
          obtain ⟨later, hvalues, hlater⟩ := htakes.left
          rw [hstep, if_neg hcap]
          refine ⟨r, d', v :: taken, hdrain, by simp [hframes], ?_,
            ⟨later, by simp [hvalues], hlater⟩, ?_, ?_⟩
          · exact ⟨htakes.settings.1.trans hsettings.1, htakes.settings.2.trans hsettings.2⟩
          · exact Nat.le_trans htakes.shrinks (Nat.le_of_lt hcut)
          · exact fun _ => Nat.lt_of_le_of_lt htakes.shrinks hcut

/-! ## Chunks -/

/-- What the handling of a chunk leaves: all that was complete is handed over. -/
structure Exhausts (d : FrameDecoder) (rest : Bytes) (values taken : List (Value ν))
    (d' : FrameDecoder) : Prop where
  settings : d'.maxFrameBytes = d.maxFrameBytes ∧ d'.drainCap = d.drainCap
  left : ∃ later, values = taken ++ later ∧ InStream d' rest later
  complete : d'.hasCompleteFrame = false

theorem drainOn_exhausts (turns : Nat) (r : DecodeResult ν) (d : FrameDecoder) (rest : Bytes)
    (values : List (Value ν)) (hturns : d.buf.length ≤ turns)
    (hmore : r.hasMore = d.hasCompleteFrame) (hd : InStream d rest values) :
    ∃ r' d' taken, drainOn turns r d = (.ok r', d') ∧ r'.frames = r.frames ++ taken ∧
      r'.hasMore = false ∧ Exhausts d rest values taken d' := by
  induction turns generalizing r d values with
  | zero =>
    have hnone : d.hasCompleteFrame = false :=
      not_complete_of_short (by simp [prefixBytes, Nat.le_zero.mp hturns])
    exact ⟨r, d, [], rfl, by simp, hmore.trans hnone, ⟨rfl, rfl⟩, ⟨values, rfl, hd⟩, hnone⟩
  | succ turns ih =>
    cases hc : d.hasCompleteFrame with
    | false =>
      rw [hc] at hmore
      refine ⟨r, d, [], ?_, by simp, hmore, ⟨rfl, rfl⟩, ⟨values, rfl, hd⟩, hc⟩
      simp [drainOn, hmore, pure]
    | true =>
      -- A drain of a buffer with a whole frame takes it, so the buffer gets shorter.
      obtain ⟨next, d₁, taken, hdrain, hframes, htakes⟩ :=
        drainLoop_takes d.buf.length [] d rest values (Nat.le_refl _) hd
      have hmore₁ := drainLoop_hasMore _ _ _ _ _ (Nat.le_refl _) hdrain
      obtain ⟨later, hvalues, hlater⟩ := htakes.left
      have hshorter := htakes.progress hc
      obtain ⟨r', d', more, hon, hout, hdone, hexhausts⟩ :=
        ih { next with frames := r.frames ++ next.frames } d₁ later (by omega) hmore₁ hlater
      obtain ⟨last, hlast, hstand⟩ := hexhausts.left
      refine ⟨r', d', taken ++ more, ?_, ?_, hdone, ?_, ⟨last, ?_, hstand⟩, hexhausts.complete⟩
      · rw [drainOn, if_pos (hmore.trans hc)]
        exact (Call.bind_of_ok hdrain).trans hon
      · simp [hout, hframes]
      · exact ⟨hexhausts.settings.1.trans htakes.settings.1,
          hexhausts.settings.2.trans htakes.settings.2⟩
      · rw [hvalues, hlast, List.append_assoc]

theorem receive_exhausts (chunk : Bytes) (d : FrameDecoder) (rest : Bytes)
    (values : List (Value ν)) (hd : InStream d (chunk ++ rest) values) :
    ∃ r d' taken, receive chunk d = (.ok r, d') ∧ r.frames = taken ∧ r.hasMore = false ∧
      Exhausts d rest values taken d' := by
  have hpushed : InStream { d with buf := d.buf ++ chunk } rest values :=
    ⟨by rw [List.append_assoc]; exact hd.stream, hd.fits⟩
  obtain ⟨r, d₁, taken, hdrain, hframes, htakes⟩ :=
    drainLoop_takes _ [] _ rest values (Nat.le_refl _) hpushed
  have hmore := drainLoop_hasMore _ _ _ _ _ (Nat.le_refl _) hdrain
  obtain ⟨later, hvalues, hlater⟩ := htakes.left
  obtain ⟨r', d', more, hon, hout, hdone, hexhausts⟩ :=
    drainOn_exhausts d₁.buf.length r d₁ rest later (Nat.le_refl _) hmore hlater
  obtain ⟨last, hlast, hstand⟩ := hexhausts.left
  refine ⟨r', d', taken ++ more, ?_, ?_, hdone, ?_, ⟨last, ?_, hstand⟩, hexhausts.complete⟩
  · have hpush : push chunk d = (.ok r, d₁) := hdrain
    exact (Call.bind_of_ok hpush).trans hon
  · simp [hout, hframes]
  · exact ⟨hexhausts.settings.1.trans htakes.settings.1,
      hexhausts.settings.2.trans htakes.settings.2⟩
  · rw [hvalues, hlast, List.append_assoc]

/-- Chunk after chunk: the values handed over are the first ones of the stream, no chunk ends with
    frames waiting, and what is left in the buffer is short of a frame. -/
theorem receiveAll_exhausts (chunks : List Bytes) (d : FrameDecoder) (rest : Bytes)
    (values : List (Value ν)) (hd : InStream d (chunks.flatten ++ rest) values)
    (hstart : d.hasCompleteFrame = false) :
    ∃ results d', receiveAll chunks d = (.ok results, d') ∧ (∀ r ∈ results, r.hasMore = false) ∧
      Exhausts d rest values (results.flatMap (·.frames)) d' := by
  induction chunks generalizing d values with
  | nil =>
    exact ⟨[], d, rfl, fun _ hr => absurd hr (List.not_mem_nil), ⟨rfl, rfl⟩, ⟨values, rfl, hd⟩,
      hstart⟩
  | cons chunk chunks ih =>
    rw [List.flatten_cons, List.append_assoc] at hd
    obtain ⟨r, d₁, taken, hreceive, rfl, hdone, hexhausts⟩ := receive_exhausts chunk d _ values hd
    obtain ⟨later, hvalues, hlater⟩ := hexhausts.left
    obtain ⟨results, d', hall, hresults, hrest⟩ := ih d₁ later hlater hexhausts.complete
    obtain ⟨last, hlast, hstand⟩ := hrest.left
    refine ⟨r :: results, d', ?_, ?_, ?_, ⟨last, ?_, hstand⟩, hrest.complete⟩
    · exact (Call.bind_of_ok hreceive).trans ((Call.bind_of_ok hall).trans rfl)
    · exact List.forall_mem_cons.mpr ⟨hdone, hresults⟩
    · exact ⟨hrest.settings.1.trans hexhausts.settings.1,
        hrest.settings.2.trans hexhausts.settings.2⟩
    · rw [hvalues, hlast, List.flatMap_cons, List.append_assoc]

/-- Where nothing more is to come, what is short of a frame is nothing. -/
theorem InStream.finished {d : FrameDecoder} {values : List (Value ν)} (h : InStream d [] values)
    (hnone : d.hasCompleteFrame = false) : values = [] ∧ d.buf = [] := by
  cases values with
  | nil => exact ⟨rfl, by simpa using h.stream⟩
  | cons v values =>
    have hlen := congrArg List.length h.stream
    simp only [List.length_append, List.flatMap_cons, List.length_nil, length_frameOf] at hlen
    have hheader : prefixBytes ≤ d.buf.length := by omega
    have hcomplete : d.hasCompleteFrame = true := by
      simp only [hasCompleteFrame, h.declared_eq hheader, Bool.and_eq_true, decide_eq_true_eq]
      omega
    rw [hcomplete] at hnone
    cases hnone

theorem accepted_frames {values : List (Value ν)} {limit : Nat} {encodings : List Bytes}
    (h : List.Forall₂ (fun v e => encodeFrame v limit = .ok e) values encodings) :
    (∀ v ∈ values, Fits limit v) ∧ encodings = values.map frameOf := by
  induction h with
  | nil => exact ⟨fun _ hv => absurd hv (List.not_mem_nil), rfl⟩
  | cons hv _ ih =>
    obtain ⟨hfits, rfl⟩ := encodeFrame_ok hv
    obtain ⟨hrest, rfl⟩ := ih
    exact ⟨List.forall_mem_cons.mpr ⟨hfits, hrest⟩, rfl⟩

/-- All of a stream, cut in any way: exactly its values, and an empty buffer. -/
theorem receiveAll_stream {values : List (Value ν)} {limit : Nat} (cap : Nat)
    (hfits : ∀ v ∈ values, Fits limit v) {chunks : List Bytes}
    (hcut : chunks.flatten = values.flatMap frameOf) :
    ∃ results : List (DecodeResult ν),
      receiveAll chunks { maxFrameBytes := limit, drainCap := cap } =
        (.ok results, { maxFrameBytes := limit, drainCap := cap }) ∧
      results.flatMap (·.frames) = values ∧ ∀ r ∈ results, r.hasMore = false := by
  have hstart :
    InStream { maxFrameBytes := limit, drainCap := cap } (chunks.flatten ++ []) values :=
    ⟨by rw [List.append_nil, hcut]; rfl, hfits⟩
  obtain ⟨results, d', hreceive, hdone, hexhausts⟩ :=
    receiveAll_exhausts chunks _ [] values hstart (by rfl)
  obtain ⟨later, hvalues, hlater⟩ := hexhausts.left
  obtain ⟨rfl, hempty⟩ := hlater.finished hexhausts.complete
  have hd' : d' = { maxFrameBytes := limit, drainCap := cap } := by
    obtain ⟨buf, limit', cap'⟩ := d'
    obtain ⟨rfl, rfl⟩ := hexhausts.settings
    rw [show buf = [] from hempty]
  exact ⟨results, by rw [hreceive, hd'], by simpa using hvalues.symm, hdone⟩

/-- **Framing round trip.** Whatever values `encodeFrame` accepts, however the bytes are cut and
    whatever the fairness cap: the chunks yield exactly the values, in order; no chunk ends with
    frames waiting, the buffer ends empty, and an answer without more leaves no complete frame. -/
theorem framing_round_trip (values : List (Value ν)) (limit cap : Nat) (encodings : List Bytes)
    (haccepted : List.Forall₂ (fun v e => encodeFrame v limit = .ok e) values encodings)
    (chunks : List Bytes) (hcut : chunks.flatten = encodings.flatten) :
    (∃ results : List (DecodeResult ν),
      receiveAll chunks { maxFrameBytes := limit, drainCap := cap } =
        (.ok results, { maxFrameBytes := limit, drainCap := cap }) ∧
      results.flatMap (·.frames) = values ∧ ∀ r ∈ results, r.hasMore = false) ∧
    (∀ before after, chunks = before ++ after →
      ∃ (results : List (DecodeResult ν)) (d : FrameDecoder),
        receiveAll before { maxFrameBytes := limit, drainCap := cap } = (.ok results, d) ∧
        d.hasCompleteFrame = false ∧ results.flatMap (·.frames) <+: values) ∧
    ∀ (d d' : FrameDecoder) (r : DecodeResult ν),
      (continueDrain d = (.ok r, d') ∨ ∃ chunk, push chunk d = (.ok r, d')) →
      r.hasMore = d'.hasCompleteFrame := by
  obtain ⟨hfits, rfl⟩ := accepted_frames haccepted
  rw [← List.flatMap_def] at hcut
  refine ⟨receiveAll_stream cap hfits hcut, ?_, ?_⟩
  · rintro before after rfl
    have hstart : InStream { maxFrameBytes := limit, drainCap := cap }
        (before.flatten ++ after.flatten) values :=
      ⟨by rw [← List.flatten_append, hcut]; rfl, hfits⟩
    obtain ⟨results, d', hreceive, -, hexhausts⟩ :=
      receiveAll_exhausts before _ after.flatten values hstart (by rfl)
    obtain ⟨later, hvalues, -⟩ := hexhausts.left
    exact ⟨results, d', hreceive, hexhausts.complete, ⟨later, hvalues.symm⟩⟩
  · rintro d d' r (hdrain | ⟨chunk, hpush⟩)
    · exact drainLoop_hasMore _ _ _ _ _ (Nat.le_refl _) hdrain
    · exact drainLoop_hasMore _ _ _ _ _ (Nat.le_refl _) hpush

/-- Two values in three chunks, cut inside a prefix and inside a body, one frame at a time. -/
theorem two_frames_in_three_chunks :
    let first : Value Int := ⟨.bool true, trivial⟩
    let second : Value Int := ⟨.num 7, trivial⟩
    (∃ results, receiveAll [[0, 0], [0, 4, 116, 114, 117, 101, 0, 0, 0, 1], [55]]
        { drainCap := 1 } = (.ok results, { drainCap := 1 }) ∧
      results.flatMap (·.frames) = [first, second] ∧ ∀ r ∈ results, r.hasMore = false) := by
  intro first second
  have haccepted : List.Forall₂ (fun v e => encodeFrame v frameBytes = .ok e) [first, second]
      [[0, 0, 0, 4, 116, 114, 117, 101], [0, 0, 0, 1, 55]] :=
    .cons (by decide +kernel) (.cons (by decide +kernel) .nil)
  exact (framing_round_trip [first, second] frameBytes 1 _ haccepted _ (by rfl)).1

end Proof
end XBus
