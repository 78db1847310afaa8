/-
  FsBridge.Bridge.RecordingTracks

  The recording of one session from Begin to Finish: whatever the frames, the left
  channel of its audio.wav is the caller's track, and the right channel is the
  agent's track, cut or padded, as long as no sound of the agent's last block would
  be repeated in a later one.
-/

import FsBridge.Bridge.RecordingContent

namespace FsBridge.Bridge

open FsBridge.Lib FsBridge.Lib.Fs

variable {B : Type} [Octet B]

/-- A frame of the caller, with the session's metadata at the time, or of the agent. -/
inductive Frame (B : Type) where
  | up (sMetadata : Option Bytes) (pcm : List B)
  | down (pcm : List B)

def Frame.upBytes : Frame B → List B
  | .up _ pcm => pcm
  | .down _ => []

def Frame.downBytes : Frame B → List B
  | .up _ _ => []
  | .down pcm => pcm

def CallRecording.frame (cr : CallRecording) : Frame B → FsProg B CallRecording
  | .up sMetadata pcm => cr.uplink sMetadata pcm
  | .down pcm => cr.downlink pcm

def CallRecording.frames (cr : CallRecording) : List (Frame B) → FsProg B CallRecording
  | [] => pure cr
  | f :: rest => do
      let cr ← cr.frame f
      cr.frames rest

/-- A session from Begin to Finish: `none` if Begin gives up, else whether
    `finalizeWAV` succeeded. -/
def Recorder.record (r : Recorder) (s : SessionInfo) (marshal : RecordingMeta → Option Bytes)
    (frames : List (Frame B)) : FsProg B (Option Bool) := do
  match ← r.begin s with
  | none => pure none
  | some cr => do
      let cr ← cr.frames frames
      let ok ← cr.finish marshal
      pure (some ok)

/-- The file holds the two tracks: the caller's on the left, the agent's on the
    right, cut or padded to the caller's length. -/
def HoldsTracks (wav : Option (List B)) (up down : List B) : Prop :=
  ∃ file data, wav = some file ∧ sampleData file = some data ∧ leftChannel data = up ∧
    rightChannel data = padded up.length down

-- ============================================================================
-- The file
-- ============================================================================

/-- The channels of the file Finish writes. -/
theorem wavFile_channels (rate : Int) {up : List B} (down : List B) (hup : up.length % 2 = 0)
    (hlen : up.length < 2 ^ 31) :
    ∃ data, sampleData (wavFile rate up down) = some data ∧ leftChannel data = up ∧
      rightChannel data = held blockSize down up.length := by
  have hheld : up.length = (held blockSize down up.length).length := by
    rw [held, List.length_map, List.length_range]
  refine ⟨interleave up (held blockSize down up.length), ?_, ?_, ?_⟩
  · exact sampleData_header (up.length * 2) _ (length_interleave _ _ hheld hup) (by omega)
  · exact leftChannel_interleave _ _ hheld hup
  · exact rightChannel_interleave _ _ hheld hup

theorem holdsTracks_wavFile_iff (rate : Int) {up : List B} (down : List B)
    (hup : up.length % 2 = 0) (hlen : up.length < 2 ^ 31) :
    HoldsTracks (some (wavFile rate up down)) up down ↔ RepeatsSilence blockSize down up.length := by
  obtain ⟨data, hdata, hleft, hright⟩ := wavFile_channels rate down hup hlen
  rw [← held_eq_padded_iff (by decide)]
  constructor
  · rintro ⟨file, data', hfile, hdata', -, hright'⟩
    rw [← Option.some.inj hfile, hdata] at hdata'
    rw [← Option.some.inj hdata', hright] at hright'
    exact hright'
  · intro hheld
    exact ⟨_, data, rfl, hdata, hleft, hright.trans hheld⟩

-- ============================================================================
-- The session
-- ============================================================================

variable {cwd : List Bytes} {fs : List Bytes → Slot B}

/-- Frames, one after the other. -/
theorem Recording.run_frames {cr : CallRecording} {up down : List B}
    (h : Recording cwd fs cr up down) (frames : List (Frame B)) :
    ∃ cr' fs', (cells B cwd).run (cr.frames frames) fs = (cr', fs') ∧
      Recording cwd fs' cr' (up ++ frames.flatMap Frame.upBytes)
        (down ++ frames.flatMap Frame.downBytes) ∧ cr'.dir = cr.dir ∧ cr'.rate = cr.rate := by
  induction frames generalizing cr up down fs with
  | nil => exact ⟨cr, fs, rfl, by simpa using h, rfl, rfl⟩
  | cons f rest ih =>
      have hframe : ∃ cr' fs', (cells B cwd).run (cr.frame f) fs = (cr', fs') ∧
          Recording cwd fs' cr' (up ++ f.upBytes) (down ++ f.downBytes) ∧
          cr'.dir = cr.dir ∧ cr'.rate = cr.rate := by
        cases f with
        | up sMetadata pcm =>
            obtain ⟨cr', slot, hrun, hrec, hkeep⟩ := h.run_uplink sMetadata pcm
            exact ⟨cr', _, hrun, by simpa [Frame.upBytes, Frame.downBytes] using hrec, hkeep⟩
        | down pcm =>
            obtain ⟨cr', slot, hrun, hrec, hkeep⟩ := h.run_downlink pcm
            exact ⟨cr', _, hrun, by simpa [Frame.upBytes, Frame.downBytes] using hrec, hkeep⟩
      obtain ⟨cr1, fs1, hrun1, hrec1, hdir1, hrate1⟩ := hframe
      obtain ⟨cr2, fs2, hrun2, hrec2, hdir2, hrate2⟩ := ih hrec1
      refine ⟨cr2, fs2, ?_, ?_, hdir2.trans hdir1, hrate2.trans hrate1⟩
      · rw [CallRecording.frames, Cells.run_bind, hrun1]
        exact hrun2
      · simpa [List.append_assoc] using hrec2

/-- The audio.wav of a session. -/
theorem run_record (cwd : List Bytes) {fs : List Bytes → Slot B} (r : Recorder) (s : SessionInfo)
    (marshal : RecordingMeta → Option Bytes) (frames : List (Frame B))
    (hclear : Clear cwd (r.bundleDir s.fsUUID s.id) fs) :
    ∃ fs', (cells B cwd).run (r.record s marshal frames) fs = (some true, fs') ∧
      (fs' (filePlace cwd (r.bundleDir s.fsUUID s.id) audioWav)).content
        = some (wavFile s.sampleRate (frames.flatMap Frame.upBytes)
            (frames.flatMap Frame.downBytes)) := by
  obtain ⟨cr, fs1, hbegin, hrec, hdir, hrate⟩ := run_begin r s hclear
  obtain ⟨cr2, fs2, hframes, hrec2, hdir2, hrate2⟩ := hrec.run_frames frames
  rw [List.nil_append, List.nil_append] at hrec2
  obtain ⟨fs3, hfinish, ⟨gen, hholds⟩, -⟩ := hrec2.run_finish marshal
  refine ⟨fs3, ?_, ?_⟩
  · rw [Recorder.record, Cells.run_bind, hbegin]
    show (cells B cwd).run (cr.frames frames >>= _) fs1 = _
    rw [Cells.run_bind, hframes, Cells.run_bind, hfinish]
    rfl
  · rw [← hdir, ← hdir2, ← hrate, ← hrate2]
    exact hholds.content

/-- For every session: all operations succeed, and its audio.wav holds the two
    tracks exactly when what a later block repeats of the agent's track is silence. -/
theorem record_holdsTracks_iff {fs : List Bytes → Slot UInt8} (r : Recorder) (s : SessionInfo)
    (marshal : RecordingMeta → Option Bytes) (frames : List (Frame UInt8))
    (hclear : Clear cwd (r.bundleDir s.fsUUID s.id) fs)
    (hup : (frames.flatMap Frame.upBytes).length % 2 = 0)
    (hlen : (frames.flatMap Frame.upBytes).length < 2 ^ 31) :
    ((cells UInt8 cwd).run (r.record s marshal frames) fs).1 = some true ∧
      (HoldsTracks
          (((cells UInt8 cwd).run (r.record s marshal frames) fs).2
            (filePlace cwd (r.bundleDir s.fsUUID s.id) audioWav)).content
          (frames.flatMap Frame.upBytes) (frames.flatMap Frame.downBytes) ↔
        RepeatsSilence blockSize (frames.flatMap Frame.downBytes)
          (frames.flatMap Frame.upBytes).length) := by
  obtain ⟨fs', hrun, hcontent⟩ := run_record cwd r s marshal frames hclear
  rw [hrun]
  refine ⟨rfl, ?_⟩
  rw [hcontent]
  exact holdsTracks_wavFile_iff s.sampleRate _ hup hlen

/-- An empty disk. -/
def emptyFs : List Bytes → Slot B := fun _ => Slot.empty

omit [Octet B] in
theorem clear_emptyFs (dir : Bytes) : Clear cwd dir (emptyFs : List Bytes → Slot B) :=
  ⟨fun _ h => absurd h (by simp [emptyFs, Slot.empty]),
    fun _ _ h => absurd h (by simp [emptyFs, Slot.empty])⟩

def spoolRecorder : Recorder := ⟨ascii "/spool", by decide, true⟩

def plainSession : SessionInfo :=
  ⟨⟨ascii "0a", List.all_eq_true.mp rfl⟩, ascii "f3a1", 16000, ascii "mono"⟩

theorem record_holdsTracks_iff_short :
    ((cells UInt8 []).run (spoolRecorder.record plainSession (fun _ => none)
        [.up none [1, 2], .down [3, 4]]) emptyFs).1 = some true ∧
      (HoldsTracks
          (((cells UInt8 []).run (spoolRecorder.record plainSession (fun _ => none)
            [.up none [1, 2], .down [3, 4]]) emptyFs).2
            (filePlace [] (spoolRecorder.bundleDir (ascii "f3a1") plainSession.id) audioWav)).content
          [1, 2] [3, 4] ↔
        RepeatsSilence blockSize ([3, 4] : List UInt8) 2) :=
  record_holdsTracks_iff spoolRecorder plainSession (fun _ => none) [.up none [1, 2], .down [3, 4]]
    (clear_emptyFs _) (by decide) (by decide)

/-- The caller's track of one block and a sample. -/
def longTrack : List UInt8 := List.replicate (blockSize + 2) 0

theorem length_longTrack : longTrack.length = blockSize + 2 := List.length_replicate

/-- One sample of the agent, and a caller's track of more than a block: the sample
    is heard again a block later. -/
theorem record_repeats_sample :
    ¬ HoldsTracks
        (((cells UInt8 []).run (spoolRecorder.record plainSession (fun _ => none)
          [.up none longTrack, .down [1, 1]]) emptyFs).2
          (filePlace [] (spoolRecorder.bundleDir (ascii "f3a1") plainSession.id) audioWav)).content
        longTrack [1, 1] := by
  have hups : [Frame.up none longTrack, .down [1, 1]].flatMap Frame.upBytes = longTrack :=
    List.append_nil _
  have hdowns : [Frame.up none longTrack, .down [1, 1]].flatMap Frame.downBytes = [1, 1] := rfl
  obtain ⟨fs', hrun, hcontent⟩ := run_record [] spoolRecorder plainSession (fun _ => none)
    [.up none longTrack, .down [1, 1]] (clear_emptyFs _)
  rw [hups, hdowns] at hcontent
  have hplace : (fs' (filePlace [] (spoolRecorder.bundleDir (ascii "f3a1") plainSession.id)
      audioWav)).content = some (wavFile plainSession.sampleRate longTrack [1, 1]) := hcontent
  rw [hrun, hplace, holdsTracks_wavFile_iff _ _ (by rw [length_longTrack]; decide)
    (by rw [length_longTrack]; decide), length_longTrack]
  intro hsilent
  exact absurd (hsilent 0 (by decide) (by decide)) (by decide)

end FsBridge.Bridge
