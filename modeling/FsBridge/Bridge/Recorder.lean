/-
  FsBridge.Bridge.Recorder

  Recording a session to its bundle (bridge/recorder.go): Begin, Uplink,
  Downlink and Finish as programs on the file system.

  The bytes are those of `Octet`: the recorder moves PCM bytes from one file to
  another and writes bytes of its own, but never looks at one.  Of Finish the
  wait for the event sidecar is left out, and so are the events written to it.
-/

import FsBridge.Bridge.Bundle
import FsBridge.Lib.Fs

namespace FsBridge.Bridge

open FsBridge.Lib FsBridge.Lib.Fs

def callerRaw : Bytes := ascii "caller.raw"
def agentRaw : Bytes := ascii "agent.raw"
def audioWav : Bytes := ascii "audio.wav"
def metaJson : Bytes := ascii "meta.json"
def eventsJsonl : Bytes := ascii "events.jsonl"

/-- What the recorder reads of a `Session`. -/
structure SessionInfo where
  id : SessionID
  fsUUID : Bytes
  sampleRate : Int
  mixType : Bytes

/-- `callRecording`. -/
structure CallRecording where
  uuid : Bytes
  sessionID : Bytes
  rate : Int
  mix : Bytes
  dir : Bytes
  callerFile : Handle
  agentFile : Handle
  callerBytes : Nat
  agentBytes : Nat
  metadata : Option Bytes

/-- `recordingMeta`, without the times. -/
structure RecordingMeta where
  uuid : Bytes
  session : Bytes
  rate : Int
  mix : Bytes
  durationMs : Int
  callerPCM : Nat
  agentPCM : Nat
  metadata : Option Bytes

variable {B : Type} [Octet B]

/-- Bytes of the recorder's own. -/
def own (s : Bytes) : List B := s.map Octet.ofByte

/-- `cr` of `Begin`. -/
def SessionInfo.callRecording (s : SessionInfo) (dir : Bytes) (caller agent : Handle) :
    CallRecording where
  uuid := bundleName s.fsUUID s.id
  sessionID := s.id.id
  rate := s.sampleRate
  mix := s.mixType
  dir := dir
  callerFile := caller
  agentFile := agent
  callerBytes := 0
  agentBytes := 0
  metadata := none

/-- `Recorder.Begin`. -/
def Recorder.begin (r : Recorder) (s : SessionInfo) : FsProg B (Option CallRecording) := do
  let dir := r.bundleDir s.fsUUID s.id
  if ← mkdirAll dir then
    match ← create (Path.join [dir, callerRaw]) with
    | none => pure none
    | some caller =>
        match ← create (Path.join [dir, agentRaw]) with
        | none => pure none
        | some agent =>
            let cr := s.callRecording dir caller agent
            if r.bus then
              let _ ← create (Path.join [dir, eventsJsonl])
              pure (some cr)
            else pure (some cr)
  else pure none

/-- `Recorder.Uplink`, with the session's metadata at the time. -/
def CallRecording.uplink (cr : CallRecording) (sMetadata : Option Bytes) (pcm : List B) :
    FsProg B CallRecording := do
  let callerFile ← write cr.callerFile pcm
  pure { cr with
    callerFile
    callerBytes := cr.callerBytes + pcm.length
    metadata := cr.metadata.or (sMetadata.filter (· ≠ [])) }

/-- `Recorder.Downlink`. -/
def CallRecording.downlink (cr : CallRecording) (pcm : List B) : FsProg B CallRecording := do
  let agentFile ← write cr.agentFile pcm
  pure { cr with agentFile, agentBytes := cr.agentBytes + pcm.length }

-- ============================================================================
-- audio.wav
-- ============================================================================

/-- `putU16`. -/
def putU16 (v : UInt16) : Bytes := [v.toUInt8, (v >>> 8).toUInt8]

/-- `putU32`. -/
def putU32 (v : UInt32) : Bytes :=
  [v.toUInt8, (v >>> 8).toUInt8, (v >>> 16).toUInt8, (v >>> 24).toUInt8]

/-- The bytes `writeWAVHeader` writes. -/
def writeWAVHeader (dataLen sampleRate : UInt32) : Bytes :=
  let byteRate := sampleRate * 2 * 16 / 8
  ascii "RIFF" ++ putU32 (36 + dataLen) ++ ascii "WAVE" ++ ascii "fmt " ++ putU32 16 ++ putU16 1
    ++ putU16 2 ++ putU32 sampleRate ++ putU32 byteRate ++ putU16 (2 * 16 / 8) ++ putU16 16
    ++ ascii "data" ++ putU32 dataLen

/-- The size of `cbuf` and `abuf`. -/
def blockSize : Nat := 64 * 1024

/-- The inner loop of `finalizeWAV`: samples of two bytes, caller and agent in turn. -/
def interleave : List B → List B → List B
  | c0 :: c1 :: cs, a0 :: a1 :: as => c0 :: c1 :: a0 :: a1 :: interleave cs as
  | _, _ => []

/-- The outer loop of `finalizeWAV`, over blocks of `size` bytes, at most `fuel` of
    them: `abuf` keeps what a short read leaves behind.  `false`: it returns an error. -/
def wavLoop (size : Nat) : Nat → Handle → Handle → Handle → List B → Nat → FsProg B Bool
  | 0, _, _, _, _, _ => pure true
  | fuel + 1, caller, agent, out, abuf, remaining =>
      let n := min size remaining / 2 * 2
      if n = 0 then pure true
      else do
        let (cbuf, caller) ← readFull caller n
        if cbuf.length < n then pure false
        else do
          let (read, agent) ← readFull agent n
          let abuf := read ++ abuf.drop read.length
          let out ← write out (interleave cbuf (abuf.take n))
          wavLoop size fuel caller agent out abuf (remaining - n)

/-- `finalizeWAV`.  Each block of the loop takes a byte of `remaining`. -/
def CallRecording.finalizeWAV (cr : CallRecording) : FsProg B Bool := do
  match ← openFile (Path.join [cr.dir, callerRaw]) with
  | none => pure false
  | some caller =>
      match ← openFile (Path.join [cr.dir, agentRaw]) with
      | none => pure false
      | some agent =>
          match ← create (Path.join [cr.dir, audioWav]) with
          | none => pure false
          | some out => do
              let dataLen := UInt32.ofNat (cr.callerBytes * 2)
              let out ← write out (own (writeWAVHeader dataLen (UInt32.ofInt cr.rate)))
              wavLoop blockSize cr.callerBytes caller agent out
                (List.replicate blockSize (Octet.ofByte 0)) cr.callerBytes

-- ============================================================================
-- Finish
-- ============================================================================

/-- `durationMs` of `Finish`. -/
def CallRecording.durationMs (cr : CallRecording) : Int :=
  if cr.rate > 0 then (cr.callerBytes / 2 * 1000 : Nat) / cr.rate else 0

/-- `writeMeta`; `marshal` is `json.MarshalIndent` of a `RecordingMeta`. -/
def CallRecording.writeMeta (cr : CallRecording) (marshal : RecordingMeta → Option Bytes) :
    FsProg B Unit := do
  match marshal ⟨cr.uuid, cr.sessionID, cr.rate, cr.mix, cr.durationMs, cr.callerBytes,
    cr.agentBytes, cr.metadata⟩ with
  | none => pure ()
  | some data =>
      match ← create (Path.join [cr.dir, metaJson]) with
      | none => pure ()
      | some h => do
          let _ ← write h (own data)
          pure ()

/-- `Finish` once audio.wav is written. -/
def CallRecording.cleanup (cr : CallRecording) (marshal : RecordingMeta → Option Bytes) :
    FsProg B Unit := do
  remove (Path.join [cr.dir, callerRaw])
  remove (Path.join [cr.dir, agentRaw])
  cr.writeMeta marshal

/-- `Recorder.Finish`, with whether `finalizeWAV` succeeded. -/
def CallRecording.finish (cr : CallRecording) (marshal : RecordingMeta → Option Bytes) :
    FsProg B Bool := do
  let ok ← cr.finalizeWAV
  cr.cleanup marshal
  pure ok

end FsBridge.Bridge
