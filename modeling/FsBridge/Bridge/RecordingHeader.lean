/-
  FsBridge.Bridge.RecordingHeader

  The sizes in the header of an audio.wav.  `finalizeWAV` writes the header first,
  from the number of bytes the caller has sent; its loop then copies whole samples.
  The two agree when the bytes are whole samples and twice their number, with the
  rest of the header, is a number of 32 bits.
-/

import FsBridge.Bridge.RecordingTracks

namespace FsBridge.Bridge

open FsBridge.Lib FsBridge.Lib.Fs

-- ============================================================================
-- The header
-- ============================================================================

/-- The RIFF size of a file with a header of 44 bytes. -/
def riffSize (wav : Bytes) : Nat := getU32 ((wav.take 44).drop 4)

/-- The size of its data chunk. -/
def dataSize (wav : Bytes) : Nat := getU32 ((wav.take 44).drop 40)

/-- The stereo data of a call of `callerBytes`: two samples for each sample of the
    caller. -/
def stereoBytes (callerBytes : Nat) : Nat := callerBytes / 2 * 4

/-- What is left under audio.wav after a call of `callerBytes` has a header that
    fits it. -/
structure HeaderMatches (callerBytes : Nat) (wav : Option Bytes) : Prop where
  /-- The data fits a RIFF file. -/
  fits : stereoBytes callerBytes + 36 < 2 ^ 32 → ∃ file, wav = some file ∧
    dataSize file = (file.drop 44).length ∧ riffSize file = (file.drop 44).length + 36 ∧
    (leftChannel (file.drop 44)).length = callerBytes / 2 * 2
  /-- It does not: no file is left that says less than there is. -/
  long : ¬ stereoBytes callerBytes + 36 < 2 ^ 32 → ∀ file, wav = some file →
    (file.drop 44).length ≤ dataSize file ∧ (file.drop 44).length + 36 ≤ riffSize file

theorem getU32_putU32_append (v : UInt32) (rest : Bytes) : getU32 (putU32 v ++ rest) = v.toNat :=
  getU32_putU32 v

-- ============================================================================
-- The file Finish writes
-- ============================================================================

section Finish

variable (rate : Int) (up down : Bytes)

/-- The sizes count twice the caller's bytes, modulo `2 ^ 32`. -/
theorem sizes_wavFile :
    dataSize (wavFile rate up down) = up.length * 2 % 2 ^ 32 ∧
      riffSize (wavFile rate up down) = (36 + up.length * 2 % 2 ^ 32) % 2 ^ 32 := by
  have hhead : (wavFile rate up down).take 44
      = writeWAVHeader (UInt32.ofNat (up.length * 2)) (UInt32.ofInt rate) := by
    have hown : (own (writeWAVHeader (UInt32.ofNat (up.length * 2)) (UInt32.ofInt rate)) : Bytes)
        = writeWAVHeader (UInt32.ofNat (up.length * 2)) (UInt32.ofInt rate) := List.map_id _
    rw [wavFile, hown, List.take_left' (length_writeWAVHeader _ _)]
  have hdata : (writeWAVHeader (UInt32.ofNat (up.length * 2)) (UInt32.ofInt rate)).drop 40
      = putU32 (UInt32.ofNat (up.length * 2)) := rfl
  obtain ⟨rest, hriff⟩ : ∃ rest, (writeWAVHeader (UInt32.ofNat (up.length * 2))
      (UInt32.ofInt rate)).drop 4 = putU32 (36 + UInt32.ofNat (up.length * 2)) ++ rest :=
    ⟨_, rfl⟩
  constructor
  · rw [dataSize, hhead, hdata, getU32_putU32, UInt32.toNat_ofNat']
  · rw [riffSize, hhead, hriff, getU32_putU32_append, UInt32.toNat_add, UInt32.toNat_ofNat']
    rfl

/-- The samples behind the header are those of the caller. -/
theorem data_wavFile :
    ((wavFile rate up down).drop 44).length = stereoBytes up.length ∧
      (leftChannel ((wavFile rate up down).drop 44)).length = up.length / 2 * 2 := by
  have hheader : (own (writeWAVHeader (UInt32.ofNat (up.length * 2)) (UInt32.ofInt rate))
      : Bytes).length = 44 := by
    rw [own, List.length_map, length_writeWAVHeader]
  have htake : (up.take (up.length / 2 * 2)).length = up.length / 2 * 2 := by
    rw [List.length_take]
    omega
  have hheld : (held blockSize down (up.length / 2 * 2)).length = up.length / 2 * 2 := by
    rw [held, List.length_map, List.length_range]
  have heven : (up.take (up.length / 2 * 2)).length % 2 = 0 := by
    rw [htake]
    omega
  rw [wavFile, List.drop_left' hheader,
    ← interleave_take blockSize up down (q := up.length / 2 * 2) (by omega) (by omega) (by omega)]
  constructor
  · rw [length_interleave _ _ (htake.trans hheld.symm) heven, htake, stereoBytes]
    omega
  · rw [leftChannel_interleave _ _ (htake.trans hheld.symm) heven, htake]

theorem headerMatches_wavFile_iff :
    HeaderMatches up.length (some (wavFile rate up down)) ↔
      up.length % 2 = 0 ∧ up.length * 2 + 36 < 2 ^ 32 := by
  obtain ⟨hdata, hriff⟩ := sizes_wavFile rate up down
  obtain ⟨hlen, hleft⟩ := data_wavFile rate up down
  constructor
  · intro h
    by_cases hfits : stereoBytes up.length + 36 < 2 ^ 32
    · obtain ⟨file, hfile, hsize, -, -⟩ := h.fits hfits
      obtain rfl := Option.some.inj hfile
      rw [hdata, hlen] at hsize
      unfold stereoBytes at hfits hsize
      omega
    · -- the RIFF size would be a number of more than 32 bits
      obtain ⟨-, hle⟩ := h.long hfits _ rfl
      rw [hriff, hlen] at hle
      omega
  · rintro ⟨heven, hshort⟩
    constructor
    · intro hfits
      refine ⟨_, rfl, ?_, ?_, hleft⟩
      · rw [hdata, hlen, stereoBytes]
        omega
      · rw [hriff, hlen, stereoBytes]
        omega
    · intro hlong
      unfold stereoBytes at hlong
      omega

end Finish

-- ============================================================================
-- The session
-- ============================================================================

/-- **The header matches the data exactly for the calls of whole samples that fit a
    RIFF file.**  Frames of any length, on every disk on which the file operations
    succeed. -/
theorem record_headerMatches_iff (cwd : List Bytes) (fs : List Bytes → Slot UInt8) (r : Recorder)
    (s : SessionInfo) (marshal : RecordingMeta → Option Bytes) (frames : List (Frame UInt8))
    (hclear : Clear cwd (r.bundleDir s.fsUUID s.id) fs) :
    ((cells UInt8 cwd).run (r.record s marshal frames) fs).1 = some true ∧
      (HeaderMatches (frames.flatMap Frame.upBytes).length
          (((cells UInt8 cwd).run (r.record s marshal frames) fs).2
            (filePlace cwd (r.bundleDir s.fsUUID s.id) audioWav)).content ↔
        (frames.flatMap Frame.upBytes).length % 2 = 0 ∧
          (frames.flatMap Frame.upBytes).length * 2 + 36 < 2 ^ 32) := by
  obtain ⟨fs', hrun, hcontent⟩ := run_record cwd r s marshal frames hclear
  rw [hrun]
  refine ⟨rfl, ?_⟩
  rw [hcontent]
  exact headerMatches_wavFile_iff s.sampleRate _ _

theorem record_headerMatches_iff_halves :
    ((cells UInt8 []).run (spoolRecorder.record plainSession (fun _ => none)
        [.up none [1], .up none [2]]) emptyFs).1 = some true ∧
      (HeaderMatches 2
          (((cells UInt8 []).run (spoolRecorder.record plainSession (fun _ => none)
            [.up none [1], .up none [2]]) emptyFs).2
            (filePlace [] (spoolRecorder.bundleDir (ascii "f3a1") plainSession.id)
              audioWav)).content ↔
        2 % 2 = 0 ∧ 2 * 2 + 36 < 2 ^ 32) :=
  record_headerMatches_iff [] emptyFs spoolRecorder plainSession (fun _ => none)
    [.up none [1], .up none [2]] (clear_emptyFs _)

/-- A caller that sends a sample and a half: the header counts six bytes, four follow. -/
theorem odd_call_overstated :
    ¬ HeaderMatches 3
      (((cells UInt8 []).run (spoolRecorder.record plainSession (fun _ => none)
        [.up none [1, 2, 3]]) emptyFs).2
        (filePlace [] (spoolRecorder.bundleDir (ascii "f3a1") plainSession.id)
          audioWav)).content := by
  obtain ⟨fs', hrun, hcontent⟩ := run_record (B := UInt8) [] spoolRecorder plainSession
    (fun _ => none) [.up none [1, 2, 3]] (clear_emptyFs _)
  have hplace : (fs' (filePlace [] (spoolRecorder.bundleDir (ascii "f3a1") plainSession.id)
      audioWav)).content = some (wavFile plainSession.sampleRate [1, 2, 3] []) := hcontent
  rw [hrun, hplace]
  intro h
  have hodd := (headerMatches_wavFile_iff plainSession.sampleRate [1, 2, 3] []).mp h
  exact absurd hodd.1 (by decide)

end FsBridge.Bridge
