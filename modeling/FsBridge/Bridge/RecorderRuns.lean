/-
  FsBridge.Bridge.RecorderRuns

  The recorder with many sessions at once: Begin and Finish of different sessions
  interleave one file operation at a time, a frame is one write.

  A byte of a frame carries the session it came from (`Owned`), so that what is in a
  file can be traced; the recorder's own bytes carry none.
-/

import FsBridge.Bridge.RecordingTracks
import FsBridge.Lib.Machine
import Mathlib.Data.Fintype.Basic

namespace FsBridge.Bridge

open FsBridge.Lib FsBridge.Lib.Fs

/-- A byte and the session whose audio it is, if it is any session's. -/
structure Owned (S : Type) where
  byte : UInt8
  owner : Option S
deriving DecidableEq

instance {S : Type} : Octet (Owned S) := ⟨fun b => ⟨b, none⟩, Owned.byte, fun _ => rfl⟩

namespace Recorder

variable {S : Type}

/-- The process: its recorder, the sessions, `json.MarshalIndent`, and what is on
    the disk before the first session, which is no session's. -/
structure Setup (S : Type) where
  cwd : List Bytes
  recorder : Recorder
  session : S → SessionInfo
  marshal : RecordingMeta → Option Bytes
  disk : List Bytes → Slot (Owned S)
  disk_unowned : ∀ q file, (disk q).content = some file → ∀ b ∈ file, b.owner = none

/-- Where a session is.  `unrecorded`: its Begin gave up. -/
inductive Phase (B : Type) where
  | idle
  | beginning (p : FsProg B (Option CallRecording))
  | recording (cr : CallRecording)
  | unrecorded
  | finishing (p : FsProg B Bool)
  | finished

/-- The disk, the sessions, and the audio their callers have sent. -/
structure State (S : Type) where
  fs : List Bytes → Slot (Owned S)
  phase : S → Phase (Owned S)
  up : S → List (Owned S)

inductive Act (S : Type) where
  | begin (s : S)
  /-- The next file operation of the session's Begin or Finish, or its return. -/
  | op (s : S)
  | uplink (s : S) (sMetadata : Option Bytes) (pcm : List UInt8)
  | downlink (s : S) (pcm : List UInt8)
  | finish (s : S)

/-- The audio of a session's frame. -/
def audio (s : S) (pcm : List UInt8) : List (Owned S) := pcm.map fun b => ⟨b, some s⟩

variable [DecidableEq S]

def State.setPhase (st : State S) (s : S) (phase : Phase (Owned S)) : State S :=
  { st with phase := Function.update st.phase s phase }

def State.hear (st : State S) (s : S) (pcm : List UInt8) : State S :=
  { st with up := Function.update st.up s (st.up s ++ audio s pcm) }

/-- Begin or Finish go on. -/
def stepOp (cfg : Setup S) (st : State S) (s : S) : Option (State S) :=
  match st.phase s with
  | .beginning (.ret (some cr)) => some (st.setPhase s (.recording cr))
  | .beginning (.ret none) => some (st.setPhase s .unrecorded)
  | .beginning p =>
      let r := (cells (Owned S) cfg.cwd).next p st.fs
      some { st.setPhase s (.beginning r.1) with fs := r.2 }
  | .finishing (.ret _) => some (st.setPhase s .finished)
  | .finishing p =>
      let r := (cells (Owned S) cfg.cwd).next p st.fs
      some { st.setPhase s (.finishing r.1) with fs := r.2 }
  | _ => none

/-- One atomic step. -/
def step (cfg : Setup S) (st : State S) : Act S → Option (State S)
  | .begin s =>
      match st.phase s with
      | .idle => some (st.setPhase s (.beginning (cfg.recorder.begin (cfg.session s))))
      | _ => none
  | .op s => stepOp cfg st s
  | .uplink s sMetadata pcm =>
      match st.phase s with
      | .recording cr =>
          let r := (cells (Owned S) cfg.cwd).run (cr.uplink sMetadata (audio s pcm)) st.fs
          some { (st.hear s pcm).setPhase s (.recording r.1) with fs := r.2 }
      | .unrecorded => some (st.hear s pcm)
      | _ => none
  | .downlink s pcm =>
      match st.phase s with
      | .recording cr =>
          let r := (cells (Owned S) cfg.cwd).run (cr.downlink (audio s pcm)) st.fs
          some { st.setPhase s (.recording r.1) with fs := r.2 }
      -- no recording is stored, or its files are closed
      | .unrecorded | .finishing _ | .finished => some st
      | _ => none
  | .finish s =>
      match st.phase s with
      | .recording cr => some (st.setPhase s (.finishing (cr.finish cfg.marshal)))
      | .unrecorded => some (st.setPhase s .finished)
      | _ => none

def initial (cfg : Setup S) : State S := ⟨cfg.disk, fun _ => .idle, fun _ => []⟩

def machine (cfg : Setup S) : Machine (State S) (Act S) := ⟨initial cfg, step cfg⟩

-- ============================================================================
-- The property and its condition
-- ============================================================================

/-- Every session that has begun has finished. -/
def AllFinished (st : State S) : Prop :=
  ∀ s, st.phase s = .idle ∨ st.phase s = .finished

/-- The audio of the caller is the left channel of some audio.wav. -/
def Found (st : State S) (s : S) : Prop :=
  ∃ dir file data, (st.fs (dir ++ [audioWav])).content = some file ∧
    sampleData file = some data ∧ leftChannel data = st.up s

/-- The file has bytes of one session at most. -/
def OneOwner (file : List (Owned S)) : Prop :=
  ∀ b ∈ file, ∀ b' ∈ file, ∀ s s', b.owner = some s → b'.owner = some s' → s = s'

/-- Once all sessions have finished: each is found, none is mixed with another. -/
def RecordingsKept (st : State S) : Prop :=
  AllFinished st → (∀ s, st.phase s = .finished → Found st s) ∧
    ∀ dir file, (st.fs (dir ++ [audioWav])).content = some file → OneOwner file

/-- The directory of a session's bundle. -/
def Setup.dir (cfg : Setup S) (s : S) : Bytes :=
  cfg.recorder.bundleDir (cfg.session s).fsUUID (cfg.session s).id

/-- The places of a session's bundle: its directory and the files in it. -/
def Setup.places (cfg : Setup S) (s : S) : List (List Bytes) :=
  Path.resolve cfg.cwd (cfg.dir s) :: bundleEntries.map (filePlace cfg.cwd (cfg.dir s))

def Setup.Bundle (cfg : Setup S) (s : S) (q : List Bytes) : Prop := q ∈ cfg.places s

/-- A session that begins finds nothing in the way of its bundle and shares no place
    with a session that has begun before; one that finishes has had whole samples,
    and fewer than 2^31 bytes of them. -/
def Apart (cfg : Setup S) (st : State S) : Act S → Prop
  | .begin s => Clear cfg.cwd (cfg.dir s) st.fs ∧
      ∀ s', st.phase s' ≠ .idle → ∀ q, cfg.Bundle s q → ¬ cfg.Bundle s' q
  | .finish s => (st.up s).length % 2 = 0 ∧ (st.up s).length < 2 ^ 31
  | _ => True

-- With finitely many sessions the condition can be evaluated.

instance (phase : Phase (Owned S)) : Decidable (phase = .idle) :=
  match phase with
  | .idle => .isTrue rfl
  | .beginning _ | .recording _ | .unrecorded | .finishing _ | .finished =>
      .isFalse fun h => nomatch h

instance (phase : Phase (Owned S)) : Decidable (phase = .finished) :=
  match phase with
  | .finished => .isTrue rfl
  | .beginning _ | .recording _ | .unrecorded | .finishing _ | .idle =>
      .isFalse fun h => nomatch h

instance [Fintype S] (st : State S) : Decidable (AllFinished st) :=
  inferInstanceAs (Decidable (∀ s, st.phase s = .idle ∨ st.phase s = .finished))

instance [Fintype S] (file : List (Owned S)) : Decidable (OneOwner file) :=
  inferInstanceAs (Decidable (∀ b ∈ file, ∀ b' ∈ file, ∀ s s',
    b.owner = some s → b'.owner = some s' → s = s'))

instance [Fintype S] (cfg : Setup S) (st : State S) (a : Act S) : Decidable (Apart cfg st a) :=
  match a with
  | .begin s => inferInstanceAs (Decidable (Clear cfg.cwd (cfg.dir s) st.fs ∧
      ∀ s', st.phase s' ≠ .idle → ∀ q ∈ cfg.places s, q ∉ cfg.places s'))
  | .finish s => inferInstanceAs (Decidable ((st.up s).length % 2 = 0 ∧ _ < 2 ^ 31))
  | .op _ | .uplink _ _ _ | .downlink _ _ => .isTrue trivial

end Recorder

end FsBridge.Bridge
