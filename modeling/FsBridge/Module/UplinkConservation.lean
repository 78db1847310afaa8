/-
  FsBridge.Module.UplinkConservation

  What becomes of the caller's audio in `stream_frame`.

  A frame goes into `sbuffer` whole or not at all, and `sbuffer` is emptied only
  when it is exactly full; so every byte is kept exactly when the frames fill
  the buffer again and again without crossing its end.  With a resampler the
  room left in `sbuffer` bounds the output, and with it the input consumed.
-/

import FsBridge.Module.StreamFrame

namespace FsBridge.Module

open FsBridge.Lib

variable {B : SwitchBuffer} {channels : Nat} {R : Resampler channels}

/-- The bytes of the frames, in order. -/
def frameBytes (frames : List MediaFrame) : Bytes := (frames.map MediaFrame.data).flatten

-- ============================================================================
-- One frame
-- ============================================================================

/-- `sbuffer` between two frames: it is never full, unless it has no room at all. -/
def Room (sbuffer : B.Buffer) : Prop :=
  (B.contents sbuffer).length < B.size sbuffer ∨ B.size sbuffer = 0

/-- A buffer that is exactly full becomes a chunk. -/
theorem flushFull_spec (sbuffer : B.Buffer) :
    (flushFull B sbuffer).2.flatten ++ B.contents (flushFull B sbuffer).1
        = B.contents sbuffer ∧
      B.size (flushFull B sbuffer).1 = B.size sbuffer ∧ Room (flushFull B sbuffer).1 ∧
      (B.contents (flushFull B sbuffer).1).length
        = (B.contents sbuffer).length % B.size sbuffer := by
  have hle := B.contents_le sbuffer
  have hfree := B.freespace_eq sbuffer
  unfold flushFull
  split
  · rename_i hfull
    have heq : (B.contents sbuffer).length = B.size sbuffer := by omega
    dsimp only
    rw [B.inuse_eq]
    split
    · have htake : (B.contents sbuffer).take (B.contents sbuffer).length = B.contents sbuffer :=
        List.take_length
      refine ⟨?_, ?_, ?_, ?_⟩
      · rw [B.read_fst, htake, B.contents_zero]
        simp
      · rw [B.size_zero, B.size_read]
      · left
        rw [B.contents_zero, B.size_zero, B.size_read, List.length_nil]
        omega
      · rw [B.contents_zero, heq, Nat.mod_self]
        rfl
    · rename_i hempty
      have hzero : (B.contents sbuffer).length = 0 := by omega
      have hsize : B.size sbuffer = 0 := by omega
      refine ⟨rfl, rfl, .inr hsize, ?_⟩
      rw [hzero, Nat.zero_mod]
  · rename_i hfree'
    have hlt : (B.contents sbuffer).length < B.size sbuffer := by omega
    exact ⟨rfl, rfl, .inl hlt, (Nat.mod_eq_of_lt hlt).symm⟩

/-- Bytes that fit go to the end of the buffer. -/
theorem write_flush_spec (sbuffer : B.Buffer) (data : Bytes)
    (hfits : (B.contents sbuffer).length + data.length ≤ B.size sbuffer) :
    (flushFull B (B.write sbuffer data)).2.flatten
        ++ B.contents (flushFull B (B.write sbuffer data)).1 = B.contents sbuffer ++ data ∧
      B.size (flushFull B (B.write sbuffer data)).1 = B.size sbuffer ∧
      Room (flushFull B (B.write sbuffer data)).1 ∧
      (B.contents (flushFull B (B.write sbuffer data)).1).length
        = ((B.contents sbuffer).length + data.length) % B.size sbuffer := by
  have hfree := B.freespace_eq sbuffer
  have hwrite := B.contents_write sbuffer data (by omega)
  obtain ⟨hbytes, hsize, hroom, hlen⟩ := flushFull_spec (B.write sbuffer data)
  rw [hwrite] at hbytes hlen
  rw [B.size_write] at hsize hlen
  rw [List.length_append] at hlen
  exact ⟨hbytes, hsize, hroom, hlen⟩

/-- A buffer with room is not flushed. -/
theorem flushFull_of_room {sbuffer : B.Buffer} (h : Room sbuffer) :
    flushFull B sbuffer = (sbuffer, []) := by
  have hle := B.contents_le sbuffer
  have hfree := B.freespace_eq sbuffer
  unfold flushFull
  rcases h with hlt | hzero
  · rw [if_neg (by omega)]
  · rw [if_pos (by omega)]
    dsimp only
    rw [B.inuse_eq, if_neg (by omega)]

-- ============================================================================
-- Without a resampler
-- ============================================================================

/-- What is kept of the frames by a buffer of size `L` that holds `fill` bytes. -/
def kept (L : Nat) : Nat → List MediaFrame → Bytes
  | _, [] => []
  | fill, frame :: frames =>
      if fill + frame.data.length ≤ L then
        frame.data ++ kept L ((fill + frame.data.length) % L) frames
      else kept L fill frames

/-- The frames fill a buffer of size `L` again and again, none crossing its end. -/
def Aligned (L : Nat) : Nat → List MediaFrame → Prop
  | _, [] => True
  | fill, frame :: frames =>
      fill + frame.data.length ≤ L ∧ Aligned L ((fill + frame.data.length) % L) frames

instance decidableAligned (L : Nat) : ∀ fill frames, Decidable (Aligned L fill frames)
  | _, [] => .isTrue trivial
  | fill, frame :: frames =>
      have := decidableAligned L ((fill + frame.data.length) % L) frames
      inferInstanceAs (Decidable (_ ∧ _))

theorem kept_length_le (L fill : Nat) (frames : List MediaFrame) :
    (kept L fill frames).length ≤ (frameBytes frames).length := by
  induction frames generalizing fill with
  | nil => exact Nat.le_refl _
  | cons frame frames ih =>
      have hcons : (frameBytes (frame :: frames)).length
          = frame.data.length + (frameBytes frames).length := by
        simp [frameBytes]
      rw [hcons, kept]
      split
      · rw [List.length_append]
        have := ih ((fill + frame.data.length) % L)
        omega
      · have := ih fill
        omega

/-- Everything is kept exactly of aligned frames. -/
theorem kept_eq_iff (L : Nat) (frames : List MediaFrame) :
    ∀ fill, (fill < L ∨ fill = 0 ∧ L = 0) →
      (kept L fill frames = frameBytes frames ↔ Aligned L fill frames) := by
  induction frames with
  | nil => exact fun fill _ => ⟨fun _ => trivial, fun _ => rfl⟩
  | cons frame frames ih =>
      intro fill hfill
      have hcons : frameBytes (frame :: frames) = frame.data ++ frameBytes frames := rfl
      rw [hcons, kept, Aligned]
      by_cases hfits : fill + frame.data.length ≤ L
      · have hfill' : (fill + frame.data.length) % L < L ∨
            (fill + frame.data.length) % L = 0 ∧ L = 0 := by
          rcases Nat.eq_zero_or_pos L with hL | hL
          · right
            have hzero : fill + frame.data.length = 0 := by omega
            rw [hzero, Nat.zero_mod]
            exact ⟨rfl, hL⟩
          · exact .inl (Nat.mod_lt _ hL)
        rw [if_pos hfits, List.append_cancel_left_eq, ih _ hfill']
        exact ⟨fun h => ⟨hfits, h⟩, fun h => h.2⟩
      · rw [if_neg hfits]
        constructor
        · -- the frame is lost, so fewer bytes are kept
          intro heq
          have hlen := congrArg List.length heq
          have hle := kept_length_le L fill frames
          rw [List.length_append] at hlen
          omega
        · exact fun h => absurd h.1 hfits

theorem plainFrame_spec {rtp_packets : Int32} (hrtp : rtp_packets ≠ 1) {sbuffer : B.Buffer}
    (hroom : Room sbuffer) (frame : MediaFrame) :
    let r := plainFrame B rtp_packets sbuffer frame
    B.size r.1 = B.size sbuffer ∧ Room r.1 ∧
      (if (B.contents sbuffer).length + frame.data.length ≤ B.size sbuffer then
        r.2.flatten ++ B.contents r.1 = B.contents sbuffer ++ frame.data ∧
        (B.contents r.1).length
          = ((B.contents sbuffer).length + frame.data.length) % B.size sbuffer
      else r = (sbuffer, [])) := by
  have hle := B.contents_le sbuffer
  have hfree := B.freespace_eq sbuffer
  intro r
  by_cases hempty : frame.data.length = 0
  · have hr : r = (sbuffer, []) := by
      show plainFrame B rtp_packets sbuffer frame = _
      rw [plainFrame, if_pos hempty]
    rw [hr, if_pos (by omega), hempty, Nat.add_zero]
    refine ⟨rfl, hroom, ?_, ?_⟩
    · rw [List.length_eq_zero_iff.mp hempty]
      simp
    · rcases hroom with hlt | hzero
      · exact (Nat.mod_eq_of_lt hlt).symm
      · have hnone : (B.contents sbuffer).length = 0 := by omega
        rw [hnone, Nat.zero_mod]
  · by_cases hfits : (B.contents sbuffer).length + frame.data.length ≤ B.size sbuffer
    · have hr : r = flushFull B (B.write sbuffer frame.data) := by
        show plainFrame B rtp_packets sbuffer frame = _
        rw [plainFrame, if_neg hempty, if_neg hrtp]
        dsimp only
        rw [if_pos (by omega)]
      obtain ⟨hbytes, hsize, hroom', hlen⟩ := write_flush_spec sbuffer frame.data hfits
      rw [hr, if_pos hfits]
      exact ⟨hsize, hroom', hbytes, hlen⟩
    · have hr : r = (sbuffer, []) := by
        show plainFrame B rtp_packets sbuffer frame = _
        rw [plainFrame, if_neg hempty, if_neg hrtp]
        dsimp only
        rw [if_neg (by omega), flushFull_of_room hroom]
      rw [hr, if_neg hfits]
      exact ⟨rfl, hroom, rfl⟩

theorem plainFrames_cons (rtp_packets : Int32) (sbuffer : B.Buffer) (frame : MediaFrame)
    (frames : List MediaFrame) :
    plainFrames B rtp_packets sbuffer (frame :: frames) =
      ((plainFrames B rtp_packets (plainFrame B rtp_packets sbuffer frame).1 frames).1,
        (plainFrame B rtp_packets sbuffer frame).2 ++
          (plainFrames B rtp_packets (plainFrame B rtp_packets sbuffer frame).1 frames).2) := rfl

/-- The chunks and what is left in `sbuffer` are what is kept of the frames. -/
theorem plainFrames_kept {rtp_packets : Int32} (hrtp : rtp_packets ≠ 1) (frames : List MediaFrame) :
    ∀ {sbuffer : B.Buffer}, Room sbuffer →
      let r := plainFrames B rtp_packets sbuffer frames
      B.size r.1 = B.size sbuffer ∧ Room r.1 ∧
        r.2.flatten ++ B.contents r.1
          = B.contents sbuffer ++ kept (B.size sbuffer) (B.contents sbuffer).length frames := by
  induction frames with
  | nil =>
      intro sbuffer hroom
      exact ⟨rfl, hroom, by simp [plainFrames, kept]⟩
  | cons frame frames ih =>
      intro sbuffer hroom
      obtain ⟨hsize, hroom', hframe⟩ := plainFrame_spec hrtp hroom frame
      obtain ⟨hsizes, hrooms, hframes⟩ := ih hroom'
      rw [plainFrames_cons]
      refine ⟨hsizes.trans hsize, hrooms, ?_⟩
      rw [List.flatten_append, List.append_assoc, hframes, hsize, kept, ← List.append_assoc]
      split at hframe
      · rename_i hfits
        rw [if_pos hfits, hframe.1, hframe.2, List.append_assoc]
      · rename_i hfits
        rw [if_neg hfits, hframe]
        rfl

theorem plainFrames_append (rtp_packets : Int32) (frames frames' : List MediaFrame) :
    ∀ sbuffer : B.Buffer, plainFrames B rtp_packets sbuffer (frames ++ frames') =
      ((plainFrames B rtp_packets (plainFrames B rtp_packets sbuffer frames).1 frames').1,
        (plainFrames B rtp_packets sbuffer frames).2 ++
          (plainFrames B rtp_packets (plainFrames B rtp_packets sbuffer frames).1 frames').2) := by
  induction frames with
  | nil => exact fun sbuffer => rfl
  | cons frame frames ih =>
      intro sbuffer
      rw [List.cons_append, plainFrames_cons, ih, plainFrames_cons]
      simp only [List.append_assoc]

/-- With one packet a chunk every frame is a chunk of its own. -/
theorem plainFrames_one (frames : List MediaFrame) (sbuffer : B.Buffer) :
    (plainFrames B 1 sbuffer frames).1 = sbuffer ∧
      (plainFrames B 1 sbuffer frames).2.flatten = frameBytes frames := by
  induction frames with
  | nil => exact ⟨rfl, rfl⟩
  | cons frame frames ih =>
      obtain ⟨hbuf, hbytes⟩ := ih
      have hframe : (plainFrame B 1 sbuffer frame).1 = sbuffer ∧
          (plainFrame B 1 sbuffer frame).2.flatten = frame.data := by
        rw [plainFrame]
        split
        · rename_i hempty
          rw [List.length_eq_zero_iff.mp hempty]
          exact ⟨rfl, rfl⟩
        · rw [if_pos rfl]
          exact ⟨rfl, List.append_nil _⟩
      rw [plainFrames_cons, hframe.1]
      refine ⟨hbuf, ?_⟩
      rw [List.flatten_append, hframe.2, hbytes]
      rfl

/-- The stream is running: none of the early returns of `stream_frame` is taken. -/
structure Uplink.Streaming (pvt : Uplink B R) : Prop where
  not_paused : pvt.audio_paused = false
  not_cleanup : pvt.cleanup_started = false
  streamer : pvt.pAudioStreamer = true

theorem streamFrame_plain {pvt : Uplink B R} (h : pvt.Streaming) (hplain : pvt.resampler = none)
    (frames : List MediaFrame) :
    streamFrame B R pvt true true frames =
      ⟨{ pvt with sbuffer := (plainFrames B pvt.rtp_packets pvt.sbuffer frames).1 },
        (plainFrames B pvt.rtp_packets pvt.sbuffer frames).2.filter (· ≠ []), []⟩ := by
  simp only [streamFrame, h.not_paused, h.not_cleanup, h.streamer, hplain]
  simp

/-- How the frames are cut into calls does not matter. -/
theorem streamCalls_plain (calls : List (List MediaFrame)) :
    ∀ pvt : Uplink B R, pvt.Streaming → pvt.resampler = none →
      streamCalls B R pvt calls =
        ⟨{ pvt with sbuffer := (plainFrames B pvt.rtp_packets pvt.sbuffer calls.flatten).1 },
          (plainFrames B pvt.rtp_packets pvt.sbuffer calls.flatten).2.filter (· ≠ []), []⟩ := by
  induction calls with
  | nil => exact fun _ _ _ => rfl
  | cons frames calls ih =>
      intro pvt h hplain
      have hnext := ih { pvt with sbuffer := (plainFrames B pvt.rtp_packets pvt.sbuffer frames).1 }
        ⟨h.not_paused, h.not_cleanup, h.streamer⟩ hplain
      rw [streamCalls, streamFrame_plain h hplain]
      dsimp only
      rw [hnext, List.flatten_cons, plainFrames_append, List.filter_append]
      rfl

-- ============================================================================
-- With a resampler
-- ============================================================================

/-- Each frame's output fits the room a buffer of size `L` has at its time. -/
def OutputFits (R : Resampler channels) (L : Nat) (rtp_packets : Int32) :
    Nat → R.State → List MediaFrame → Prop
  | _, _, [] => True
  | fill, σ, frame :: frames =>
      if frame.data.length = 0 then OutputFits R L rtp_packets fill σ frames
      else
        let out_len := (L - fill) / (channels * sampleSize)
        let output := R.yield σ frame.data frame.samples
        (out_len = 0 → frame.samples = 0) ∧ output ≤ out_len ∧
          OutputFits R L rtp_packets
            (if rtp_packets = 1 then fill else (fill + output * (channels * sampleSize)) % L)
            (if out_len = 0 then σ else (R.process σ frame.data frame.samples out_len).1) frames

/-- A call of the resampler consumes its whole input exactly when the output fits. -/
theorem Resampler.consumed_eq_iff (R : Resampler channels) (σ : R.State) (data : Bytes)
    (inLen outLen : Nat) :
    (R.process σ data inLen outLen).2.1 = inLen ↔ R.yield σ data inLen ≤ outLen := by
  constructor
  · intro h
    have hfits := R.consumed_fits σ data inLen outLen
    rwa [h] at hfits
  · intro h
    have hle := R.consumed_le σ data inLen outLen
    have hmax := R.consumed_max σ data inLen outLen inLen (Nat.le_refl _) h
    omega

/-- The room left in `sbuffer` is not used up to the last byte. -/
theorem Room.fill_mod {sbuffer : B.Buffer} (h : Room sbuffer) :
    (B.contents sbuffer).length % B.size sbuffer = (B.contents sbuffer).length := by
  have hle := B.contents_le sbuffer
  rcases h with hlt | hzero
  · exact Nat.mod_eq_of_lt hlt
  · have hnone : (B.contents sbuffer).length = 0 := by omega
    rw [hnone, Nat.zero_mod]

theorem resampleFrame_spec (rtp_packets : Int32) {sbuffer : B.Buffer} (hroom : Room sbuffer)
    (σ : R.State) {frame : MediaFrame} (hdata : frame.data.length ≠ 0) :
    let r := resampleFrame B R rtp_packets sbuffer σ frame
    let fill := (B.contents sbuffer).length
    let out_len := (B.size sbuffer - fill) / (channels * sampleSize)
    let output := R.yield σ frame.data frame.samples
    ∃ c, r.consumed = [(c, frame)] ∧
      (c = frame.samples ↔ (out_len = 0 → frame.samples = 0) ∧ output ≤ out_len) ∧
      (c = frame.samples → B.size r.sbuffer = B.size sbuffer ∧ Room r.sbuffer ∧
        (B.contents r.sbuffer).length = (if rtp_packets = 1 then fill
          else (fill + output * (channels * sampleSize)) % B.size sbuffer) ∧
        r.resampler = if out_len = 0 then σ
          else (R.process σ frame.data frame.samples out_len).1) := by
  intro r fill out_len output
  have hfree : B.freespace sbuffer / (channels * sampleSize) = out_len := by
    rw [B.freespace_eq]
  by_cases hout : out_len = 0
  · -- no room for a single output sample: the frame is passed over
    have hr : r = ⟨sbuffer, σ, [], [(0, frame)]⟩ := by
      show resampleFrame B R rtp_packets sbuffer σ frame = _
      rw [resampleFrame, if_neg hdata]
      dsimp only
      rw [hfree, if_pos hout, flushFull_of_room hroom]
    refine ⟨0, by rw [hr], ?_, fun hc => ?_⟩
    · constructor
      · intro hc
        have hzero : output = 0 := by
          show R.yield σ frame.data frame.samples = 0
          rw [← hc, R.yield_zero]
        exact ⟨fun _ => hc.symm, by omega⟩
      · exact fun h => (h.1 hout).symm
    · have hzero : output = 0 := by
        show R.yield σ frame.data frame.samples = 0
        rw [← hc, R.yield_zero]
      rw [hr, hzero, Nat.zero_mul, Nat.add_zero, if_pos hout]
      refine ⟨rfl, hroom, ?_, rfl⟩
      split
      · rfl
      · exact hroom.fill_mod.symm
  · refine ⟨(R.process σ frame.data frame.samples out_len).2.1, ?_, ?_, fun hc => ?_⟩
    · show (resampleFrame B R rtp_packets sbuffer σ frame).consumed = _
      rw [resampleFrame, if_neg hdata]
      dsimp only
      rw [hfree, if_neg hout]
      split
      · split <;> rfl
      · rfl
    · rw [R.consumed_eq_iff]
      exact ⟨fun h => ⟨fun hzero => absurd hzero hout, h⟩, fun h => h.2⟩
    · -- the whole frame is consumed, and its output fits
      have hfits : output ≤ out_len := (R.consumed_eq_iff ..).mp hc
      have hlength : (R.process σ frame.data frame.samples out_len).2.2.length
          = output * (channels * sampleSize) := by
        rw [R.out_length, hc]
      have hbytes : output * (channels * sampleSize) ≤ B.size sbuffer - fill :=
        Nat.le_trans (Nat.mul_le_mul_right _ hfits) (Nat.div_mul_le_self _ _)
      have hle : fill ≤ B.size sbuffer := B.contents_le sbuffer
      have hfree' := B.freespace_eq sbuffer
      by_cases hpos : 0 < (R.process σ frame.data frame.samples out_len).2.2.length
      · by_cases hrtp : rtp_packets = 1
        · have hr : r = ⟨sbuffer, (R.process σ frame.data frame.samples out_len).1,
              [(R.process σ frame.data frame.samples out_len).2.2],
              [((R.process σ frame.data frame.samples out_len).2.1, frame)]⟩ := by
            show resampleFrame B R rtp_packets sbuffer σ frame = _
            rw [resampleFrame, if_neg hdata]
            dsimp only
            rw [hfree, if_neg hout, if_pos hpos, if_pos hrtp]
          rw [hr, if_pos hrtp, if_neg hout]
          exact ⟨rfl, hroom, rfl, rfl⟩
        · have hwrite := write_flush_spec sbuffer
            (R.process σ frame.data frame.samples out_len).2.2 (by rw [hlength]; omega)
          obtain ⟨-, hsize, hroom', hlen⟩ := hwrite
          rw [hlength] at hlen
          have hr : r.sbuffer = (flushFull B
                (B.write sbuffer (R.process σ frame.data frame.samples out_len).2.2)).1 ∧
              r.resampler = (R.process σ frame.data frame.samples out_len).1 := by
            show (resampleFrame B R rtp_packets sbuffer σ frame).sbuffer = _ ∧
              (resampleFrame B R rtp_packets sbuffer σ frame).resampler = _
            rw [resampleFrame, if_neg hdata]
            dsimp only
            rw [hfree, if_neg hout, if_pos hpos, if_neg hrtp, if_pos (by rw [hlength]; omega)]
            exact ⟨rfl, rfl⟩
          rw [hr.1, hr.2, if_neg hrtp, if_neg hout]
          exact ⟨hsize, hroom', hlen, rfl⟩
      · have hr : r = ⟨sbuffer, (R.process σ frame.data frame.samples out_len).1, [],
            [((R.process σ frame.data frame.samples out_len).2.1, frame)]⟩ := by
          show resampleFrame B R rtp_packets sbuffer σ frame = _
          rw [resampleFrame, if_neg hdata]
          dsimp only
          rw [hfree, if_neg hout, if_neg hpos, flushFull_of_room hroom]
        have hnone : output * (channels * sampleSize) = 0 := by omega
        rw [hr, hnone, Nat.add_zero, if_neg hout]
        refine ⟨rfl, hroom, ?_, rfl⟩
        split
        · rfl
        · exact hroom.fill_mod.symm

/-- The frames that bring data. -/
def withData (frames : List MediaFrame) : List MediaFrame :=
  frames.filter fun frame => frame.data.length ≠ 0

/-- Every sample of every frame is consumed exactly when each output fits. -/
theorem resampleFrames_consumed_iff (rtp_packets : Int32) (frames : List MediaFrame) :
    ∀ {sbuffer : B.Buffer} (σ : R.State), Room sbuffer →
      ((resampleFrames B R rtp_packets sbuffer σ frames).consumed
          = (withData frames).map (fun frame => (frame.samples, frame)) ↔
        OutputFits R (B.size sbuffer) rtp_packets (B.contents sbuffer).length σ frames) := by
  induction frames with
  | nil => exact fun _ _ => ⟨fun _ => trivial, fun _ => rfl⟩
  | cons frame frames ih =>
      intro sbuffer σ hroom
      rw [resampleFrames, OutputFits]
      dsimp only
      by_cases hdata : frame.data.length = 0
      · have hr : resampleFrame B R rtp_packets sbuffer σ frame = ⟨sbuffer, σ, [], []⟩ := by
          rw [resampleFrame, if_pos hdata]
        have hskip : withData (frame :: frames) = withData frames := by
          rw [withData, List.filter_cons_of_neg (by simpa using hdata)]
          rfl
        rw [hr, if_pos hdata, hskip]
        exact ih σ hroom
      · obtain ⟨c, hconsumed, hiff, hkept⟩ := resampleFrame_spec rtp_packets hroom σ hdata
        have hkeep : withData (frame :: frames) = frame :: withData frames := by
          rw [withData, List.filter_cons_of_pos (by simpa using hdata)]
          rfl
        rw [if_neg hdata, hkeep, hconsumed, List.map_cons, List.singleton_append,
          List.cons_eq_cons, Prod.mk.injEq, hiff, ← and_assoc]
        constructor
        · rintro ⟨⟨hfits, -⟩, hrest⟩
          obtain ⟨hsize, hroom', hfill, hres⟩ := hkept (hiff.mpr hfits)
          have := (ih _ hroom').mp hrest
          rw [hsize, hfill, hres] at this
          exact ⟨hfits, this⟩
        · rintro ⟨hfits, hrest⟩
          obtain ⟨hsize, hroom', hfill, hres⟩ := hkept (hiff.mpr hfits)
          refine ⟨⟨hfits, rfl⟩, (ih _ hroom').mpr ?_⟩
          rw [hsize, hfill, hres]
          exact hrest

theorem resampleFrames_append (rtp_packets : Int32) (frames frames' : List MediaFrame) :
    ∀ (sbuffer : B.Buffer) (σ : R.State),
      resampleFrames B R rtp_packets sbuffer σ (frames ++ frames') =
        (let r := resampleFrames B R rtp_packets sbuffer σ frames
         let r' := resampleFrames B R rtp_packets r.sbuffer r.resampler frames'
         ⟨r'.sbuffer, r'.resampler, r.pending ++ r'.pending, r.consumed ++ r'.consumed⟩) := by
  induction frames with
  | nil => exact fun sbuffer σ => rfl
  | cons frame frames ih =>
      intro sbuffer σ
      rw [List.cons_append, resampleFrames, ih, resampleFrames]
      simp only [List.append_assoc]

theorem streamCalls_resampled (calls : List (List MediaFrame)) :
    ∀ (pvt : Uplink B R) (σ : R.State), pvt.Streaming → pvt.resampler = some σ →
      (streamCalls B R pvt calls).consumed =
        (resampleFrames B R pvt.rtp_packets pvt.sbuffer σ calls.flatten).consumed := by
  induction calls with
  | nil => exact fun _ _ _ _ => rfl
  | cons frames calls ih =>
      intro pvt σ h hsome
      have hfirst : streamFrame B R pvt true true frames =
          (let r := resampleFrames B R pvt.rtp_packets pvt.sbuffer σ frames
           ⟨{ pvt with sbuffer := r.sbuffer, resampler := some r.resampler },
             r.pending.filter (· ≠ []), r.consumed⟩) := by
        simp only [streamFrame, h.not_paused, h.not_cleanup, h.streamer, hsome]
        simp
      have hnext := ih
        { pvt with
          sbuffer := (resampleFrames B R pvt.rtp_packets pvt.sbuffer σ frames).sbuffer
          resampler := some (resampleFrames B R pvt.rtp_packets pvt.sbuffer σ frames).resampler }
        _ ⟨h.not_paused, h.not_cleanup, h.streamer⟩ rfl
      rw [streamCalls, hfirst, List.flatten_cons, resampleFrames_append]
      dsimp only
      rw [hnext]

-- ============================================================================
-- Conservation
-- ============================================================================

theorem streamCalls_append (calls calls' : List (List MediaFrame)) :
    ∀ pvt : Uplink B R, streamCalls B R pvt (calls ++ calls') =
      (let s := streamCalls B R pvt calls
       let s' := streamCalls B R s.uplink calls'
       ⟨s'.uplink, s.written ++ s'.written, s.consumed ++ s'.consumed⟩) := by
  induction calls with
  | nil => exact fun _ => rfl
  | cons frames calls ih =>
      intro pvt
      rw [List.cons_append, streamCalls, ih, streamCalls]
      simp only [List.append_assoc]

/-- Without a resampler: the chunks written and the bytes left in `sbuffer` are
    the bytes of the frames, and never are all later frames passed over. -/
structure Conserved (pvt : Uplink B R) (calls : List (List MediaFrame)) : Prop where
  bytes : (streamCalls B R pvt calls).written.flatten
      ++ B.contents (streamCalls B R pvt calls).uplink.sbuffer = frameBytes calls.flatten
  never_stuck : ∀ before after, calls = before ++ after → frameBytes after.flatten ≠ [] →
    ¬ ((streamCalls B R (streamCalls B R pvt before).uplink after).written = [] ∧
      (streamCalls B R (streamCalls B R pvt before).uplink after).uplink
        = (streamCalls B R pvt before).uplink)

/-- With a resampler: every sample of every frame is consumed. -/
def AllConsumed (pvt : Uplink B R) (calls : List (List MediaFrame)) : Prop :=
  (streamCalls B R pvt calls).consumed =
    (withData calls.flatten).map fun frame => (frame.samples, frame)

theorem room_create (n : Nat) : Room (B.create n) := by
  rw [Room, B.contents_create, B.size_create, List.length_nil]
  omega

theorem Aligned.of_append {L : Nat} {frames frames' : List MediaFrame} :
    ∀ {fill : Nat}, Aligned L fill (frames ++ frames') → Aligned L fill frames := by
  induction frames with
  | nil => exact fun _ => trivial
  | cons frame frames ih => exact fun h => ⟨h.1, ih h.2⟩

/-- A stream with an empty `sbuffer` of `buflen` bytes, running. -/
def freshUplink (B : SwitchBuffer) (R : Resampler channels) (buflen : Nat) (rtp_packets : Int32)
    (resampler : Option R.State) : Uplink B R where
  audio_paused := false
  cleanup_started := false
  pAudioStreamer := true
  rtp_packets := rtp_packets
  sbuffer := B.create buflen
  resampler := resampler

theorem streaming_freshUplink (buflen : Nat) (rtp_packets : Int32) (resampler : Option R.State) :
    (freshUplink B R buflen rtp_packets resampler).Streaming := ⟨rfl, rfl, rfl⟩

/-- The bytes of the frames are kept exactly when each frame is a chunk of its
    own or the frames are aligned to the buffer. -/
theorem bytes_iff_aligned (buflen : Nat) (rtp_packets : Int32) (calls : List (List MediaFrame)) :
    let s := streamCalls B R (freshUplink B R buflen rtp_packets none) calls
    s.written.flatten ++ B.contents s.uplink.sbuffer = frameBytes calls.flatten ↔
      rtp_packets = 1 ∨ Aligned buflen 0 calls.flatten := by
  intro s
  have hs := streamCalls_plain calls (freshUplink B R buflen rtp_packets none)
    (streaming_freshUplink buflen rtp_packets none) rfl
  show (streamCalls B R _ calls).written.flatten ++
    B.contents (streamCalls B R _ calls).uplink.sbuffer = _ ↔ _
  rw [hs]
  dsimp only
  rw [List.flatten_filter_ne_nil]
  by_cases hrtp : rtp_packets = 1
  · subst hrtp
    have hone := plainFrames_one calls.flatten (B.create buflen)
    have hbuf : (freshUplink B R buflen 1 none).sbuffer = B.create buflen := rfl
    have hrtp : (freshUplink B R buflen 1 none).rtp_packets = 1 := rfl
    rw [hbuf, hrtp, hone.1, hone.2, B.contents_create, List.append_nil]
    exact ⟨fun _ => .inl rfl, fun _ => rfl⟩
  · have hkept := plainFrames_kept hrtp calls.flatten (room_create (B := B) buflen)
    obtain ⟨-, -, hbytes⟩ := hkept
    rw [B.contents_create, B.size_create, List.length_nil, List.nil_append] at hbytes
    rw [show (freshUplink B R buflen rtp_packets none).rtp_packets = rtp_packets from rfl,
      show (freshUplink B R buflen rtp_packets none).sbuffer = B.create buflen from rfl, hbytes,
      kept_eq_iff _ _ 0 (by omega)]
    exact ⟨.inr, fun h => h.resolve_left hrtp⟩

theorem conserved_iff (buflen : Nat) (rtp_packets : Int32) (calls : List (List MediaFrame)) :
    Conserved (freshUplink B R buflen rtp_packets none) calls ↔
      rtp_packets = 1 ∨ Aligned buflen 0 calls.flatten := by
  constructor
  · exact fun h => (bytes_iff_aligned buflen rtp_packets calls).mp h.bytes
  · intro h
    have hall := (bytes_iff_aligned (B := B) (R := R) buflen rtp_packets calls).mpr h
    refine ⟨hall, fun before after hcalls hnonempty hstuck => hnonempty ?_⟩
    subst hcalls
    have hbefore := (bytes_iff_aligned (B := B) (R := R) buflen rtp_packets before).mpr
      (h.imp id fun ha => by
        rw [List.flatten_append] at ha
        exact ha.of_append)
    rw [streamCalls_append] at hall
    dsimp only at hall hbefore
    rw [hstuck.1, hstuck.2, List.append_nil, hbefore, List.flatten_append] at hall
    have hsplit : frameBytes (before.flatten ++ after.flatten)
        = frameBytes before.flatten ++ frameBytes after.flatten := by
      simp [frameBytes]
    rw [hsplit] at hall
    exact List.self_eq_append_right.mp hall

/-- Every sample is consumed exactly when each frame's output fits. -/
theorem allConsumed_iff (buflen : Nat) (rtp_packets : Int32) (calls : List (List MediaFrame))
    (σ : R.State) :
    AllConsumed (freshUplink B R buflen rtp_packets (some σ)) calls ↔
      OutputFits R buflen rtp_packets 0 σ calls.flatten := by
  have hres := streamCalls_resampled calls (freshUplink B R buflen rtp_packets (some σ)) σ
    (streaming_freshUplink buflen rtp_packets (some σ)) rfl
  have hiff := resampleFrames_consumed_iff (R := R) rtp_packets calls.flatten σ
    (room_create (B := B) buflen)
  rw [B.contents_create, B.size_create, List.length_nil] at hiff
  rw [AllConsumed, hres]
  exact hiff

-- ============================================================================
-- The size of `sbuffer`
-- ============================================================================

/-- The bytes of a frame of 20 ms. -/
def frameLen (desiredSampling : Int32) (channels : Nat) : Int :=
  (BufferSizes.frameSize8000 * desiredSampling.toInt).tdiv 8000 * channels

/-- No product of the size of `sbuffer` overflows an `int`, and the size is not negative. -/
structure SizeFits (desiredSampling rtp_packets : Int32) (channels : Nat) : Prop where
  rate_ge : -2147483648 ≤ BufferSizes.frameSize8000 * desiredSampling.toInt
  rate_le : BufferSizes.frameSize8000 * desiredSampling.toInt ≤ 2147483647
  frame_ge : -2147483648 ≤ frameLen desiredSampling channels
  frame_le : frameLen desiredSampling channels ≤ 2147483647
  nonneg : 0 ≤ frameLen desiredSampling channels * rtp_packets.toInt
  le : frameLen desiredSampling channels * rtp_packets.toInt ≤ 2147483647

/-- The size of `sbuffer`, where it fits. -/
def sbufferLen (desiredSampling rtp_packets : Int32) (channels : Nat) : Nat :=
  (frameLen desiredSampling channels * rtp_packets.toInt).toNat

theorem streamDataInit_eq_some_iff {desiredSampling rtp_packets : Int32}
    {resampler : Option R.State} {pvt : Uplink B R} :
    streamDataInit B R desiredSampling rtp_packets resampler = some pvt ↔
      SizeFits desiredSampling rtp_packets channels ∧
        pvt = freshUplink B R (sbufferLen desiredSampling rtp_packets channels) rtp_packets
          resampler := by
  have hmono : ∀ x : Int, -2147483648 ≤ x → x ≤ 2147483647 →
      BufferSizes.int (x.tdiv 8000) = some (x.tdiv 8000) := by
    intro x hlow hhigh
    have hle : (x.tdiv 8000).natAbs = x.natAbs / 8000 := Int.natAbs_tdiv x 8000
    exact BufferSizes.int_of_le (by omega) (by omega)
  unfold streamDataInit BufferSizes.buflen
  constructor
  · intro h
    obtain ⟨n, hn, h⟩ := Option.bind_eq_some_iff.mp h
    obtain ⟨atRate, hrate, hn⟩ := Option.bind_eq_some_iff.mp hn
    obtain ⟨⟨hrlow, hrhigh⟩, rfl⟩ := BufferSizes.int_eq_some_iff.mp hrate
    obtain ⟨mono, hmono', hn⟩ := Option.bind_eq_some_iff.mp hn
    obtain rfl := Option.some.inj ((hmono _ hrlow hrhigh).symm.trans hmono')
    obtain ⟨frame, hframe, hn⟩ := Option.bind_eq_some_iff.mp hn
    obtain ⟨⟨hflow, hfhigh⟩, rfl⟩ := BufferSizes.int_eq_some_iff.mp hframe
    obtain ⟨frames, hframes, hn⟩ := Option.bind_eq_some_iff.mp hn
    obtain ⟨⟨hlow, hhigh⟩, rfl⟩ := BufferSizes.int_eq_some_iff.mp hframes
    obtain rfl := Option.some.inj hn
    split at h
    · rename_i hsmall
      obtain rfl := Option.some.inj h
      have hnonneg := (BufferSizes.sizeT_le_iff hlow hhigh).mp hsmall
      have hsize : BufferSizes.sizeT (frameLen desiredSampling channels * rtp_packets.toInt)
          = sbufferLen desiredSampling rtp_packets channels :=
        BufferSizes.sizeT_eq_toNat hnonneg hhigh
      refine ⟨⟨hrlow, hrhigh, hflow, hfhigh, hnonneg, hhigh⟩, ?_⟩
      rw [← hsize]
      rfl
    · exact absurd h (by simp)
  · rintro ⟨h, rfl⟩
    have hsize : BufferSizes.sizeT (frameLen desiredSampling channels * rtp_packets.toInt)
        = sbufferLen desiredSampling rtp_packets channels :=
      BufferSizes.sizeT_eq_toNat h.nonneg h.le
    rw [BufferSizes.int_of_le h.rate_ge h.rate_le]
    simp only [Option.bind_eq_bind, Option.bind_some]
    rw [hmono _ h.rate_ge h.rate_le, Option.bind_some]
    rw [show (BufferSizes.frameSize8000 * desiredSampling.toInt).tdiv 8000 * (channels : Int)
      = frameLen desiredSampling channels from rfl, BufferSizes.int_of_le h.frame_ge h.frame_le,
      Option.bind_some, BufferSizes.int_of_le (Int.le_trans (by decide) h.nonneg) h.le,
      Option.bind_some]
    show (if BufferSizes.sizeT (frameLen desiredSampling channels * rtp_packets.toInt)
      ≤ 2147483647 then _ else _) = _
    rw [if_pos ((BufferSizes.sizeT_le_iff (Int.le_trans (by decide) h.nonneg) h.le).mpr h.nonneg),
      hsize]
    rfl

/-- **Uplink conservation.**  Where the size of `sbuffer` can be computed: without a
    resampler the audio is conserved exactly when every frame is a chunk of its own
    (`rtp_packets = 1`) or the frames fill `sbuffer` again and again without crossing its
    end; with a resampler every sample is consumed exactly when each frame's output fits
    the room left. -/
theorem uplink_conserved_iff (desiredSampling rtp_packets : Int32)
    (calls : List (List MediaFrame)) :
    ((∃ pvt, streamDataInit B R desiredSampling rtp_packets none = some pvt ∧
        Conserved pvt calls) ↔
      SizeFits desiredSampling rtp_packets channels ∧
        (rtp_packets = 1 ∨
          Aligned (sbufferLen desiredSampling rtp_packets channels) 0 calls.flatten)) ∧
    ∀ σ, (∃ pvt, streamDataInit B R desiredSampling rtp_packets (some σ) = some pvt ∧
        AllConsumed pvt calls) ↔
      SizeFits desiredSampling rtp_packets channels ∧
        OutputFits R (sbufferLen desiredSampling rtp_packets channels) rtp_packets 0 σ
          calls.flatten := by
  constructor
  · rw [← conserved_iff (B := B) (R := R)]
    constructor
    · rintro ⟨pvt, hpvt, h⟩
      obtain ⟨hfits, rfl⟩ := streamDataInit_eq_some_iff.mp hpvt
      exact ⟨hfits, h⟩
    · rintro ⟨hfits, h⟩
      exact ⟨_, streamDataInit_eq_some_iff.mpr ⟨hfits, rfl⟩, h⟩
  · intro σ
    rw [← allConsumed_iff (B := B)]
    constructor
    · rintro ⟨pvt, hpvt, h⟩
      obtain ⟨hfits, rfl⟩ := streamDataInit_eq_some_iff.mp hpvt
      exact ⟨hfits, h⟩
    · rintro ⟨hfits, h⟩
      exact ⟨_, streamDataInit_eq_some_iff.mpr ⟨hfits, rfl⟩, h⟩

/-- A resampler that repeats each sample `ratio` times. -/
def repeatResampler (channels ratio : Nat) (hratio : 0 < ratio) : Resampler channels where
  State := Unit
  process _ data inLen outLen :=
    let k := min inLen (outLen / ratio)
    ((), k, (List.range (k * ratio * (channels * sampleSize))).map fun j =>
      data.getD (j / (ratio * (channels * sampleSize)) * (channels * sampleSize)
        + j % (channels * sampleSize)) 0)
  yield _ _ k := k * ratio
  yield_zero _ _ := Nat.zero_mul _
  consumed_le _ _ _ _ := Nat.min_le_left _ _
  consumed_fits _ _ inLen outLen :=
    Nat.le_trans (Nat.mul_le_mul_right _ (Nat.min_le_right inLen _)) (Nat.div_mul_le_self _ _)
  consumed_max _ _ _ _ k hk hfits := by
    have hdiv := (Nat.le_div_iff_mul_le hratio).mpr hfits
    exact Nat.le_min.mpr ⟨hk, hdiv⟩
  out_length _ _ _ _ := by rw [List.length_map, List.length_range]

/-- Two frames that do not fit together do not fill the buffer exactly. -/
theorem not_aligned_pair {L : Nat} {frame frame' : MediaFrame} (hfirst : frame.data.length < L)
    (hboth : L < frame.data.length + frame'.data.length) : ¬ Aligned L 0 [frame, frame'] := by
  rintro ⟨-, hsecond, -⟩
  rw [Nat.zero_add, Nat.mod_eq_of_lt hfirst] at hsecond
  omega

/-- A frame whose output exceeds the whole buffer is not consumed. -/
theorem not_allConsumed_single {buflen : Nat} {rtp_packets : Int32} {σ : R.State}
    {frame : MediaFrame} (hdata : frame.data.length ≠ 0)
    (hout : buflen / (channels * sampleSize) < R.yield σ frame.data frame.samples) :
    ¬ AllConsumed (freshUplink B R buflen rtp_packets (some σ)) [[frame]] := by
  intro h
  have hfits := (allConsumed_iff buflen rtp_packets [[frame]] σ).mp h
  rw [List.flatten_cons, List.singleton_append, OutputFits, if_neg hdata] at hfits
  have hle := hfits.2.1
  rw [Nat.sub_zero] at hle
  omega

/-- 25 ms and 30 ms of 8 kHz mono. -/
def frame25 : MediaFrame := ⟨List.replicate 400 1, 200⟩
def frame30 : MediaFrame := ⟨List.replicate 480 1, 240⟩

/-- 8 kHz mono with two packets a chunk and frames of 25 ms: the second frame
    does not fit.  16 kHz from 8 kHz with one packet a chunk and a frame of
    30 ms: a third of its samples is not consumed. -/
theorem uplink_not_conserved :
    (∃ pvt, streamDataInit fifoBuffer (repeatResampler 1 1 (by decide)) 8000 2 none = some pvt ∧
        ¬ Conserved pvt [[frame25, frame25]]) ∧
      ∃ pvt, streamDataInit fifoBuffer (repeatResampler 1 2 (by decide)) 16000 1 (some ())
          = some pvt ∧ ¬ AllConsumed pvt [[frame30]] := by
  have h25 : frame25.data.length = 400 := List.length_replicate
  have h30 : frame30.data.length = 480 := List.length_replicate
  refine ⟨⟨freshUplink _ _ 640 2 none, rfl, ?_⟩, ⟨freshUplink _ _ 640 1 (some ()), rfl, ?_⟩⟩
  · rw [conserved_iff]
    rintro (hone | haligned)
    · exact absurd hone (by decide)
    · refine not_aligned_pair ?_ ?_ haligned
      · rw [h25]
        decide
      · rw [h25]
        decide
  · refine not_allConsumed_single ?_ ?_
    · rw [h30]
      decide
    · show 640 / (1 * sampleSize) < 240 * 2
      decide

end FsBridge.Module
