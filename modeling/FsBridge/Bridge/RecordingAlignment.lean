/-
  FsBridge.Bridge.RecordingAlignment

  When the agent's frames were sent, and where they are in audio.wav.

  A byte of the agent is marked with the call it came in and its place in the frame
  (`Sent`), so that it can be found in the file; the recorder's own bytes and the
  caller's carry no mark.  The tracks are appended to independently, so a frame of the
  agent is where the agent's track has got to, not where the caller's has.
-/

import FsBridge.Bridge.RecordingTracks

namespace FsBridge.Bridge

open FsBridge.Lib FsBridge.Lib.Fs

/-- A byte and, if it is the agent's, the number of its call and its place in the
    frame. -/
structure Sent where
  byte : UInt8
  source : Option (Nat × Nat)
deriving DecidableEq

instance : Octet Sent := ⟨fun b => ⟨b, none⟩, Sent.byte, fun _ => rfl⟩

/-- The frame of call `n`, marked. -/
def Frame.mark (n : Nat) : Frame UInt8 → Frame Sent
  | .up sMetadata pcm => .up sMetadata (pcm.map fun b => ⟨b, none⟩)
  | .down pcm => .down (pcm.mapIdx fun j b => ⟨b, some (n, j)⟩)

/-- The calls of a session from number `n` on, marked. -/
def markFrom (n : Nat) : List (Frame UInt8) → List (Frame Sent)
  | [] => []
  | f :: rest => f.mark n :: markFrom (n + 1) rest

/-- The samples of the caller and of the agent in some calls. -/
def callerSamples (frames : List (Frame UInt8)) : Nat := (frames.flatMap Frame.upBytes).length / 2

def agentSamples (frames : List (Frame UInt8)) : Nat := (frames.flatMap Frame.downBytes).length / 2

/-- Frames of whole samples. -/
def WholeSamples (frames : List (Frame UInt8)) : Prop :=
  ∀ f ∈ frames, f.upBytes.length % 2 = 0 ∧ f.downBytes.length % 2 = 0

/-- Wherever the first sample of a frame of the agent is in the file, the caller had sent
    no more samples before that frame. -/
def TimeAligned (frames : List (Frame UInt8)) (wav : Option (List Sent)) : Prop :=
  ∃ file, wav = some file ∧ ∀ n p b, (rightChannel (file.drop 44))[2 * p]? = some b →
    b.source = some (n, 0) → callerSamples (frames.take n) ≤ p

/-- Whenever the agent sends something, it has sent as many samples before as the
    caller. -/
def NeverBehind (frames : List (Frame UInt8)) : Prop :=
  ∀ n pcm, frames[n]? = some (.down pcm) → pcm ≠ [] →
    callerSamples (frames.take n) ≤ agentSamples (frames.take n)

-- ============================================================================
-- Marks
-- ============================================================================

theorem upBytes_mark (n : Nat) (f : Frame UInt8) :
    (f.mark n).upBytes.map Sent.byte = f.upBytes := by
  cases f with
  | up sMetadata pcm =>
      show (pcm.map _).map Sent.byte = pcm
      rw [List.map_map]
      exact List.map_id pcm
  | down pcm => rfl

theorem downBytes_mark (n : Nat) (f : Frame UInt8) :
    (f.mark n).downBytes.map Sent.byte = f.downBytes := by
  cases f with
  | up sMetadata pcm => rfl
  | down pcm =>
      show (pcm.mapIdx _).map Sent.byte = pcm
      apply List.ext_getElem
      · rw [List.length_map, List.length_mapIdx]
      · intro j hj hj'
        rw [List.getElem_map, List.getElem_mapIdx]

/-- The marks apart, the bytes are those of the session. -/
theorem upBytes_markFrom (n : Nat) (frames : List (Frame UInt8)) :
    ((markFrom n frames).flatMap Frame.upBytes).map Sent.byte = frames.flatMap Frame.upBytes := by
  induction frames generalizing n with
  | nil => rfl
  | cons f rest ih =>
      rw [markFrom, List.flatMap_cons, List.flatMap_cons, List.map_append, upBytes_mark, ih]

theorem downBytes_markFrom (n : Nat) (frames : List (Frame UInt8)) :
    ((markFrom n frames).flatMap Frame.downBytes).map Sent.byte
      = frames.flatMap Frame.downBytes := by
  induction frames generalizing n with
  | nil => rfl
  | cons f rest ih =>
      rw [markFrom, List.flatMap_cons, List.flatMap_cons, List.map_append, downBytes_mark, ih]

theorem length_upBytes_markFrom (n : Nat) (frames : List (Frame UInt8)) :
    ((markFrom n frames).flatMap Frame.upBytes).length
      = (frames.flatMap Frame.upBytes).length := by
  rw [← upBytes_markFrom n frames, List.length_map]

theorem length_downBytes_mark (n : Nat) (f : Frame UInt8) :
    (f.mark n).downBytes.length = f.downBytes.length := by
  rw [← downBytes_mark n f, List.length_map]

/-- The mark of a byte says where it is in the agent's track. -/
theorem source_of_getElem? {n g : Nat} {frames : List (Frame UInt8)} {b : Sent}
    (hb : ((markFrom n frames).flatMap Frame.downBytes)[g]? = some b) :
    ∃ m j pcm, b.source = some (n + m, j) ∧ frames[m]? = some (.down pcm) ∧ j < pcm.length ∧
      g = ((frames.take m).flatMap Frame.downBytes).length + j := by
  induction frames generalizing n g with
  | nil => exact nomatch hb
  | cons f rest ih =>
      rw [markFrom, List.flatMap_cons] at hb
      by_cases hg : g < (f.mark n).downBytes.length
      · -- a byte of the first frame
        rw [List.getElem?_append_left hg] at hb
        cases f with
        | up sMetadata pcm => exact nomatch hb
        | down pcm =>
            have hmark : (pcm.mapIdx fun j b => (⟨b, some (n, j)⟩ : Sent))[g]? = some b := hb
            rw [List.getElem?_mapIdx] at hmark
            obtain ⟨x, hx, rfl⟩ := Option.map_eq_some_iff.mp hmark
            obtain ⟨hlt, -⟩ := List.getElem?_eq_some_iff.mp hx
            exact ⟨0, g, pcm, rfl, rfl, hlt, by simp⟩
      · rw [List.getElem?_append_right (by omega)] at hb
        obtain ⟨m, j, pcm, hsource, hframe, hlt, hplace⟩ := ih hb
        refine ⟨m + 1, j, pcm, by rw [hsource, Nat.add_assoc, Nat.add_comm 1 m], hframe, hlt, ?_⟩
        rw [List.take_succ_cons, List.flatMap_cons, List.length_append,
          ← length_downBytes_mark n f]
        omega

/-- The first byte of a frame is at the end of the track before it. -/
theorem getElem?_of_frame {n m : Nat} {frames : List (Frame UInt8)} {c : UInt8}
    {pcm : List UInt8} (hframe : frames[m]? = some (.down (c :: pcm))) :
    ((markFrom n frames).flatMap Frame.downBytes)[((frames.take m).flatMap
      Frame.downBytes).length]? = some ⟨c, some (n + m, 0)⟩ := by
  induction frames generalizing n m with
  | nil => exact nomatch hframe
  | cons f rest ih =>
      cases m with
      | zero =>
          obtain rfl : f = .down (c :: pcm) := Option.some.inj hframe
          show (((c :: pcm).mapIdx fun j b => (⟨b, some (n, j)⟩ : Sent)) ++ _)[0]? = _
          rw [List.mapIdx_cons]
          rfl
      | succ m =>
          have hrest := ih (n := n + 1) (m := m) hframe
          rw [markFrom, List.take_succ_cons, List.flatMap_cons, List.flatMap_cons,
            List.length_append, ← length_downBytes_mark n f,
            List.getElem?_append_right (by omega), Nat.add_sub_cancel_left, hrest,
            Nat.add_assoc, Nat.add_comm 1 m]

-- ============================================================================
-- The right channel
-- ============================================================================

/-- A byte of the right channel is silence or a byte of the agent's track, which is not
    heard before its place. -/
theorem heldByte_cases {B : Type} [Octet B] (size : Nat) (agent : List B) (g : Nat) :
    heldByte size agent g = Octet.ofByte 0 ∨
      ∃ g', g' ≤ g ∧ agent[g']? = some (heldByte size agent g) := by
  induction g using Nat.strongRecOn with
  | ind g ih =>
      rw [heldByte]
      by_cases hlt : g < agent.length
      · rw [if_pos hlt]
        refine .inr ⟨g, Nat.le_refl g, ?_⟩
        rw [List.getD_eq_getElem _ _ hlt, List.getElem?_eq_getElem hlt]
      · rw [if_neg hlt]
        by_cases hback : 0 < size ∧ size ≤ g
        · rw [if_pos hback]
          rcases ih (g - size) (by omega) with hzero | ⟨g', hle, hg'⟩
          · exact .inl hzero
          · exact .inr ⟨g', by omega, hg'⟩
        · rw [if_neg hback]
          exact .inl rfl

theorem getElem?_held {B : Type} [Octet B] {size n g : Nat} {agent : List B} {b : B}
    (h : (held size agent n)[g]? = some b) : g < n ∧ b = heldByte size agent g := by
  rw [held, List.getElem?_map] at h
  obtain ⟨i, hi, rfl⟩ := Option.map_eq_some_iff.mp h
  obtain ⟨hlt, rfl⟩ := List.getElem?_eq_some_iff.mp hi
  rw [List.length_range] at hlt
  rw [List.getElem_range]
  exact ⟨hlt, rfl⟩

theorem getElem?_held_of_lt {B : Type} [Octet B] {size n g : Nat} {agent : List B}
    (hn : g < n) (hg : g < agent.length) : (held size agent n)[g]? = agent[g]? := by
  rw [held, List.getElem?_map, List.getElem?_range hn, Option.map_some, heldByte, if_pos hg,
    List.getD_eq_getElem _ _ hg, List.getElem?_eq_getElem hg]

-- ============================================================================
-- The file
-- ============================================================================

theorem length_even_of_wholeSamples {frames : List (Frame UInt8)} (h : WholeSamples frames) :
    (frames.flatMap Frame.upBytes).length % 2 = 0 ∧
      (frames.flatMap Frame.downBytes).length % 2 = 0 := by
  induction frames with
  | nil => exact ⟨rfl, rfl⟩
  | cons f rest ih =>
      obtain ⟨hup, hdown⟩ := h f List.mem_cons_self
      obtain ⟨hups, hdowns⟩ := ih fun f hf => h f (List.mem_cons_of_mem _ hf)
      rw [List.flatMap_cons, List.flatMap_cons, List.length_append, List.length_append]
      omega

theorem WholeSamples.take {frames : List (Frame UInt8)} (h : WholeSamples frames) (m : Nat) :
    WholeSamples (frames.take m) := fun f hf => h f (List.mem_of_mem_take hf)

/-- The caller has no less in all than before some call. -/
theorem length_upBytes_take_le (frames : List (Frame UInt8)) (m : Nat) :
    ((frames.take m).flatMap Frame.upBytes).length ≤ (frames.flatMap Frame.upBytes).length := by
  have hsplit : frames.flatMap Frame.upBytes
      = (frames.take m).flatMap Frame.upBytes ++ (frames.drop m).flatMap Frame.upBytes := by
    rw [← List.flatMap_append, List.take_append_drop]
  rw [hsplit, List.length_append]
  omega

/-- The samples of the file Finish writes, on the right. -/
theorem rightChannel_wavFile {B : Type} [Octet B] (rate : Int) {up : List B} (down : List B)
    (hup : up.length % 2 = 0) :
    rightChannel ((wavFile rate up down).drop 44) = held blockSize down up.length := by
  have hheader : (own (writeWAVHeader (UInt32.ofNat (up.length * 2)) (UInt32.ofInt rate)) :
      List B).length = 44 := by
    rw [own, List.length_map, length_writeWAVHeader]
  have hheld : up.length = (held blockSize down up.length).length := by
    rw [held, List.length_map, List.length_range]
  rw [wavFile, List.drop_left' hheader]
  exact rightChannel_interleave _ _ hheld hup

theorem timeAligned_wavFile_iff (rate : Int) {frames : List (Frame UInt8)}
    (hwhole : WholeSamples frames) :
    TimeAligned frames (some (wavFile rate ((markFrom 0 frames).flatMap Frame.upBytes)
      ((markFrom 0 frames).flatMap Frame.downBytes))) ↔ NeverBehind frames := by
  have hup : ((markFrom 0 frames).flatMap Frame.upBytes).length % 2 = 0 := by
    rw [length_upBytes_markFrom]
    exact (length_even_of_wholeSamples hwhole).1
  constructor
  · rintro ⟨file, hfile, haligned⟩ n pcm hframe hpcm
    obtain ⟨c, pcm, rfl⟩ := List.exists_cons_of_ne_nil hpcm
    obtain rfl := Option.some.inj hfile
    rw [rightChannel_wavFile rate _ hup, length_upBytes_markFrom] at haligned
    obtain ⟨-, hdowns⟩ := length_even_of_wholeSamples (hwhole.take n)
    -- the agent behind, its frame is in the file, and before its time
    by_contra hbehind
    have hplace : 2 * agentSamples (frames.take n)
        = ((frames.take n).flatMap Frame.downBytes).length := by
      rw [agentSamples]
      omega
    have hbyte := getElem?_of_frame (n := 0) hframe
    obtain ⟨hlt, -⟩ := List.getElem?_eq_some_iff.mp hbyte
    have htotal := length_upBytes_take_le frames n
    have hheld := haligned n (agentSamples (frames.take n)) ⟨c, some (0 + n, 0)⟩ (by
      rw [hplace, getElem?_held_of_lt ?_ hlt, hbyte]
      rw [callerSamples] at hbehind
      omega) (by rw [Nat.zero_add])
    exact hbehind hheld
  · intro hnever
    refine ⟨_, rfl, fun n p b hb hsource => ?_⟩
    rw [rightChannel_wavFile rate _ hup] at hb
    obtain ⟨-, rfl⟩ := getElem?_held hb
    rcases heldByte_cases blockSize ((markFrom 0 frames).flatMap Frame.downBytes) (2 * p) with
      hzero | ⟨g, hle, hg⟩
    · rw [hzero] at hsource
      exact nomatch hsource
    · obtain ⟨m, j, pcm, hsource', hframe, hlt, hplace⟩ := source_of_getElem? hg
      rw [hsource', Option.some.injEq, Prod.mk.injEq, Nat.zero_add] at hsource
      obtain ⟨rfl, rfl⟩ := hsource
      have hcaught := hnever m pcm hframe (List.ne_nil_of_length_pos hlt)
      rw [agentSamples] at hcaught
      omega

-- ============================================================================
-- The bytes without their marks
-- ============================================================================

theorem heldByte_byte (size : Nat) (agent : List Sent) (g : Nat) :
    (heldByte size agent g).byte = heldByte size (agent.map Sent.byte) g := by
  induction g using Nat.strongRecOn with
  | ind g ih =>
      rw [heldByte.eq_def size agent g, heldByte.eq_def size (agent.map Sent.byte) g,
        List.length_map]
      by_cases hlt : g < agent.length
      · rw [if_pos hlt, if_pos hlt, List.getD_eq_getElem _ _ hlt,
          List.getD_eq_getElem _ _ (by rwa [List.length_map]), List.getElem_map]
      · rw [if_neg hlt, if_neg hlt]
        by_cases hback : 0 < size ∧ size ≤ g
        · rw [if_pos hback, if_pos hback]
          exact ih (g - size) (by omega)
        · rw [if_neg hback, if_neg hback]
          rfl

theorem interleave_byte (cs as : List Sent) :
    (interleave cs as).map Sent.byte = interleave (cs.map Sent.byte) (as.map Sent.byte) := by
  induction cs, as using interleave.induct with
  | case1 c0 c1 cs a0 a1 as ih =>
      rw [interleave, List.map_cons, List.map_cons, List.map_cons, List.map_cons, ih]
      rfl
  | case2 cs as hno =>
      rcases cs with _ | ⟨c0, _ | ⟨c1, cs⟩⟩
      · rfl
      · rfl
      · rcases as with _ | ⟨a0, _ | ⟨a1, as⟩⟩
        · rfl
        · rfl
        · exact absurd rfl (hno c0 c1 cs a0 a1 as rfl)

/-- The file of a marked session has the bytes of the file of the session. -/
theorem wavFile_byte (rate : Int) (frames : List (Frame UInt8)) :
    (wavFile rate ((markFrom 0 frames).flatMap Frame.upBytes)
        ((markFrom 0 frames).flatMap Frame.downBytes)).map Sent.byte
      = wavFile rate (frames.flatMap Frame.upBytes) (frames.flatMap Frame.downBytes) := by
  have hheader : (own (writeWAVHeader (UInt32.ofNat ((frames.flatMap Frame.upBytes).length * 2))
      (UInt32.ofInt rate)) : List Sent).map Sent.byte
        = own (writeWAVHeader (UInt32.ofNat ((frames.flatMap Frame.upBytes).length * 2))
          (UInt32.ofInt rate)) := by
    rw [own, own, List.map_map]
    rfl
  have hheld : ∀ n, (held blockSize ((markFrom 0 frames).flatMap Frame.downBytes) n).map Sent.byte
      = held blockSize (frames.flatMap Frame.downBytes) n := by
    intro n
    rw [held, held, List.map_map, ← downBytes_markFrom 0 frames]
    exact List.map_congr_left fun g _ => heldByte_byte blockSize _ g
  rw [wavFile, wavFile, List.map_append, length_upBytes_markFrom, hheader, interleave_byte,
    upBytes_markFrom, hheld]

-- ============================================================================
-- Alignment
-- ============================================================================

/-- For every session of whole samples: its audio.wav has the bytes it has without the
    marks, and no frame of the agent is heard before the time it was sent exactly when
    the agent has never sent less than the caller before a frame of its own. -/
theorem record_timeAligned_iff {cwd : List Bytes} {fs : List Bytes → Slot Sent} (r : Recorder)
    (s : SessionInfo) (marshal : RecordingMeta → Option Bytes) (frames : List (Frame UInt8))
    (hclear : Clear cwd (r.bundleDir s.fsUUID s.id) fs) (hwhole : WholeSamples frames) :
    ∃ fs' file, (cells Sent cwd).run (r.record s marshal (markFrom 0 frames)) fs
        = (some true, fs') ∧
      (fs' (filePlace cwd (r.bundleDir s.fsUUID s.id) audioWav)).content = some file ∧
      file.map Sent.byte = wavFile s.sampleRate (frames.flatMap Frame.upBytes)
        (frames.flatMap Frame.downBytes) ∧
      (TimeAligned frames (some file) ↔ NeverBehind frames) := by
  obtain ⟨fs', hrun, hcontent⟩ := run_record cwd r s marshal (markFrom 0 frames) hclear
  exact ⟨fs', _, hrun, hcontent, wavFile_byte s.sampleRate frames,
    timeAligned_wavFile_iff s.sampleRate hwhole⟩

/-- The agent speaks first, and then the caller. -/
theorem record_timeAligned_iff_first :
    ∃ fs' file, (cells Sent []).run (spoolRecorder.record plainSession (fun _ => none)
        (markFrom 0 [.down [3, 4], .up none [1, 2]])) emptyFs = (some true, fs') ∧
      (fs' (filePlace [] (spoolRecorder.bundleDir (ascii "f3a1") plainSession.id)
        audioWav)).content = some file ∧
      file.map Sent.byte = wavFile 16000 [1, 2] [3, 4] ∧
      (TimeAligned [.down [3, 4], .up none [1, 2]] (some file) ↔
        NeverBehind [.down [3, 4], .up none [1, 2]]) :=
  record_timeAligned_iff spoolRecorder plainSession (fun _ => none) [.down [3, 4], .up none [1, 2]]
    (clear_emptyFs _) (by
      intro f hf
      rcases List.mem_cons.mp hf with rfl | hf
      · exact ⟨rfl, rfl⟩
      · obtain rfl := List.mem_singleton.mp hf
        exact ⟨rfl, rfl⟩)

/-- The agent answers after one sample of the caller, and is heard with that sample. -/
theorem answer_before_its_time :
    ∃ fs', (cells Sent []).run (spoolRecorder.record plainSession (fun _ => none)
        (markFrom 0 [.up none [1, 2], .down [3, 4]])) emptyFs = (some true, fs') ∧
      ¬ TimeAligned [.up none [1, 2], .down [3, 4]]
        (fs' (filePlace [] (spoolRecorder.bundleDir (ascii "f3a1") plainSession.id)
          audioWav)).content := by
  obtain ⟨fs', hrun, hcontent⟩ := run_record [] spoolRecorder plainSession (fun _ => none)
    (markFrom 0 [.up none [1, 2], .down [3, 4]]) (clear_emptyFs _)
  refine ⟨fs', hrun, fun haligned => ?_⟩
  have hwhole : WholeSamples [.up none [1, 2], .down [3, 4]] := by
    intro f hf
    rcases List.mem_cons.mp hf with rfl | hf
    · exact ⟨rfl, rfl⟩
    · obtain rfl := List.mem_singleton.mp hf
      exact ⟨rfl, rfl⟩
  have hplace : (fs' (filePlace [] (spoolRecorder.bundleDir (ascii "f3a1") plainSession.id)
      audioWav)).content = _ := hcontent
  rw [hplace] at haligned
  have hnever := (timeAligned_wavFile_iff plainSession.sampleRate hwhole).mp haligned
  exact absurd (hnever 1 [3, 4] rfl (by simp)) (by decide)

end FsBridge.Bridge
