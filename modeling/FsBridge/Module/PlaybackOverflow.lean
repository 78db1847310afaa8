/-
  FsBridge.Module.PlaybackOverflow

  What `onBinary` drops when `play_buffer` is full.  The loop takes the oldest
  blocks until the frame fits or the buffer is empty; the write behind it is
  made only when the frame fits.  `contents_makeRoom` says which bytes the loop
  leaves, so the buffer after a frame is known in both cases of the write, and a
  frame longer than the whole buffer is the case in which all is lost.
-/

import FsBridge.Module.PlaybackFifo

namespace FsBridge.Module

open FsBridge.Lib

/-- A buffer of `cap` bytes that drops the oldest: it held `old`, a frame `data`
    came, and it holds `new`. -/
structure DropsOldest (cap : Nat) (old data new : Bytes) : Prop where
  bounded : new.length ≤ cap
  suffix : new <:+ old ++ data
  /-- The last bytes of the frame are there, as many as there is room for. -/
  newest : data.drop (data.length - min data.length cap) <:+ new
  /-- Less than a block more is dropped than has to be. -/
  thrifty : old.length + data.length - new.length
    < (old.length + data.length - cap) + blockSize

section PlaybackOverflow

variable {B : SwitchBuffer} {R : PlaybackResampler}

/-- A frame that fits the buffer fits what the loop has made of it. -/
theorem le_freespace_makeRoom {len : Nat} {q : B.Buffer} (hfits : len ≤ B.size q) :
    len ≤ B.freespace (makeRoom len q) := by
  have hle := B.contents_le q
  have hblocks := le_blocks (len - (B.size q - (B.contents q).length))
  rw [B.freespace_eq, size_makeRoom, contents_makeRoom, List.length_drop]
  omega

/-- The loop empties the buffer for a frame that cannot fit. -/
theorem contents_makeRoom_overlong {len : Nat} {q : B.Buffer} (hlong : B.size q < len) :
    B.contents (makeRoom len q) = [] := by
  have hle := B.contents_le q
  have hblocks := le_blocks (len - (B.size q - (B.contents q).length))
  rw [contents_makeRoom]
  apply List.drop_of_length_le
  omega

/-- A stream that is torn down takes no more audio. -/
theorem onBinary_closing {tp : Playback B R} (hclosing : tp.cleanup_started = true)
    (data : Bytes) : tp.onBinary data = tp := by
  rw [Playback.onBinary, if_pos hclosing]

theorem onBinary_live {tp : Playback B R} (hlive : tp.cleanup_started = false) (data : Bytes) :
    (tp.onBinary data).play_buffer
      = if data.length ≤ B.freespace (makeRoom data.length tp.play_buffer) then
          B.write (makeRoom data.length tp.play_buffer) data
        else makeRoom data.length tp.play_buffer := by
  rw [Playback.onBinary, hlive, if_neg Bool.false_ne_true]

theorem contents_onBinary_fits {tp : Playback B R} (hlive : tp.cleanup_started = false)
    {data : Bytes} (hfits : data.length ≤ B.size tp.play_buffer) :
    B.contents (tp.onBinary data).play_buffer
      = (B.contents tp.play_buffer).drop (blocks (data.length
          - (B.size tp.play_buffer - (B.contents tp.play_buffer).length))) ++ data := by
  have hroom := le_freespace_makeRoom hfits
  rw [onBinary_live hlive, if_pos hroom, B.contents_write _ _ hroom, contents_makeRoom]

/-- A frame longer than the buffer leaves nothing of what was in it, and nothing
    of itself. -/
theorem contents_onBinary_overlong {tp : Playback B R} (hlive : tp.cleanup_started = false)
    {data : Bytes} (hlong : B.size tp.play_buffer < data.length) :
    B.contents (tp.onBinary data).play_buffer = [] := by
  have hfull : ¬ data.length ≤ B.freespace (makeRoom data.length tp.play_buffer) := by
    rw [B.freespace_eq, size_makeRoom]
    omega
  rw [onBinary_live hlive, if_neg hfull, contents_makeRoom_overlong hlong]

theorem dropsOldest_of_fits {tp : Playback B R} (hlive : tp.cleanup_started = false)
    {data : Bytes} (hfits : data.length ≤ B.size tp.play_buffer) :
    DropsOldest (B.size tp.play_buffer) (B.contents tp.play_buffer) data
      (B.contents (tp.onBinary data).play_buffer) := by
  have hle := B.contents_le tp.play_buffer
  have hlower := le_blocks
    (data.length - (B.size tp.play_buffer - (B.contents tp.play_buffer).length))
  have hupper := blocks_lt
    (data.length - (B.size tp.play_buffer - (B.contents tp.play_buffer).length))
  rw [contents_onBinary_fits hlive hfits]
  constructor
  · rw [List.length_append, List.length_drop]
    omega
  · obtain ⟨front, hfront⟩ := List.drop_suffix (blocks (data.length
      - (B.size tp.play_buffer - (B.contents tp.play_buffer).length))) (B.contents tp.play_buffer)
    refine ⟨front, ?_⟩
    rw [← List.append_assoc, hfront]
  · -- the frame is there as a whole
    rw [Nat.min_eq_left hfits, Nat.sub_self, List.drop_zero]
    exact List.suffix_append _ _
  · rw [List.length_append, List.length_drop]
    -- with no byte missing no block goes
    by_cases hroom :
        data.length - (B.size tp.play_buffer - (B.contents tp.play_buffer).length) = 0
    · rw [hroom, blocks_zero]
      unfold blockSize
      omega
    · omega

/-- Nothing in the buffer can be the newest of a frame, unless there is no room. -/
theorem not_dropsOldest_nil {cap : Nat} {old data : Bytes} (hcap : cap ≠ 0)
    (hlong : cap < data.length) : ¬ DropsOldest cap old data [] := by
  intro h
  have hnone := h.newest.length_le
  rw [List.length_drop, Nat.min_eq_right (Nat.le_of_lt hlong), List.length_nil] at hnone
  omega

/-- A buffer of no bytes holds what it can hold. -/
theorem dropsOldest_no_room (old data : Bytes) : DropsOldest 0 old data [] where
  bounded := Nat.le_refl 0
  suffix := List.nil_suffix
  newest := by
    have hnone : data.drop (data.length - min data.length 0) = [] := by
      rw [Nat.min_zero, Nat.sub_zero, List.drop_length]
    exact ⟨[], hnone⟩
  thrifty := by
    rw [List.length_nil]
    exact Nat.lt_add_of_pos_right (by decide)

/-- **`onBinary` drops the oldest audio, and no more than it has to, for the frames
    that fit the buffer and for no others.**  Once the stream is torn down it takes
    no audio at all. -/
theorem onBinary_dropsOldest_iff (tp : Playback B R) (data : Bytes) :
    (tp.cleanup_started = true → tp.onBinary data = tp) ∧
    (tp.cleanup_started = false →
      (DropsOldest (B.size tp.play_buffer) (B.contents tp.play_buffer) data
          (B.contents (tp.onBinary data).play_buffer) ↔
        data.length ≤ B.size tp.play_buffer ∨ B.size tp.play_buffer = 0)) := by
  refine ⟨fun hclosing => onBinary_closing hclosing data, fun hlive => ⟨fun h => ?_, fun h => ?_⟩⟩
  · by_cases hfits : data.length ≤ B.size tp.play_buffer
    · exact .inl hfits
    · have hlong := Nat.lt_of_not_le hfits
      rw [contents_onBinary_overlong hlive hlong] at h
      exact .inr (Classical.byContradiction fun hcap => not_dropsOldest_nil hcap hlong h)
  · by_cases hfits : data.length ≤ B.size tp.play_buffer
    · exact dropsOldest_of_fits hlive hfits
    · have hnone := h.resolve_left hfits
      rw [contents_onBinary_overlong hlive (Nat.lt_of_not_le hfits), hnone]
      exact dropsOldest_no_room _ _

end PlaybackOverflow

/-- A mono stream of 8 kHz that waits to play one sample. -/
def oneSampleWaits : Playback fifoBuffer silentResampler :=
  (Playback.init fifoBuffer silentResampler 8000 1).onBinary [1, 2]

/-- A frame of ten seconds and one byte empties the buffer and is not stored. -/
theorem onBinary_overlong_lost :
    ¬ DropsOldest (fifoBuffer.size oneSampleWaits.play_buffer)
      (fifoBuffer.contents oneSampleWaits.play_buffer) (List.replicate 160001 0)
      (fifoBuffer.contents (oneSampleWaits.onBinary (List.replicate 160001 0)).play_buffer) := by
  have hsize : fifoBuffer.size oneSampleWaits.play_buffer = 160000 := by
    show fifoBuffer.size (Playback.onBinary _ _).play_buffer = 160000
    rw [onBinary_live rfl]
    split
    · rw [fifoBuffer.size_write, size_makeRoom]
      rfl
    · rw [size_makeRoom]
      rfl
  have hlong : fifoBuffer.size oneSampleWaits.play_buffer
      < (List.replicate 160001 (0 : UInt8)).length := by
    rw [hsize, List.length_replicate]
    decide
  have hlive : oneSampleWaits.cleanup_started = false := rfl
  rw [contents_onBinary_overlong hlive hlong]
  exact not_dropsOldest_nil (by rw [hsize]; decide) hlong

end FsBridge.Module
