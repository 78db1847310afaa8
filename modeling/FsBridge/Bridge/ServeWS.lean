/-
  FsBridge.Bridge.ServeWS

  The goroutine of a session (`serveWS` and `readPump`, bridge/server.go) from the
  accepted connection on, with the callbacks of the handlers main can wire
  (cmd/fsbridge/main.go, pipeline/cascade.go, bridge/agent.go).

  Each call of the goroutine is a step and leaves an event in `log`.  What a call
  meets outside is in its action: the result of the read, of the dial of the
  agent, of the lookup over ESL.  `closeElsewhere` is every other goroutine that
  closes the session: the write pump, the agent's reader, `CloseAllSessions`.

  `log` and `frames` are history: no step reads them.
-/

import FsBridge.Lib.Ascii
import FsBridge.Lib.Machine

namespace FsBridge.Bridge.ServeWS

open FsBridge.Lib

-- ============================================================================
-- The handlers
-- ============================================================================

/-- A Go interface over pointers to `α`: the nil interface, or a pointer, which
    may be nil itself. -/
abbrev Interface (α : Type*) := Option (Option α)

/-- `ESLClient`. -/
structure ESLClient where
  addr : Bytes
deriving DecidableEq, Repr

/-- `ESLClient.API` on a pointer: a nil client panics at `c.apiMu.Lock()`, any
    other gets its result. -/
def ESLClient.api (c : Option ESLClient) (_cmd : Bytes) (result : Except Unit Bytes) :
    Option (Except Unit Bytes) :=
  match c with
  | none => none
  | some _ => some result

/-- `ASRFactory`. -/
inductive ASRFactory where
  | mock
  | deepgram
deriving DecidableEq, Repr

/-- Whether the factory gives an ASR; `dialed`: its connection comes up. -/
def ASRFactory.newASR : ASRFactory → (dialed : Bool) → Bool
  | .mock, _ => true
  | .deepgram, dialed => dialed

/-- `bridge.Handler`, as wired. -/
inductive Handler where
  | stats
  | cascade (newASR : ASRFactory)
  | agentForwarder (ESL : Interface ESLClient)
deriving DecidableEq, Repr

/-- What `OnStart` meets. -/
structure StartOutcome where
  asrDialed : Bool
  dump : Except Unit Bytes
  urlParsed : Bool
  agentDialed : Bool
  startSent : Bool

/-- What `OnStart` leaves: the handler keeps state of the session, the session is
    closed. -/
structure Started where
  kept : Bool
  closed : Bool
deriving DecidableEq, Repr

/-- `AgentForwarder.callInfo`: the dump of the call, where it was looked up; a
    panic is `none`. -/
def callInfo (ESL : Interface ESLClient) (fsUUID : Bytes) (dump : Except Unit Bytes) :
    Option (Option Bytes) :=
  match ESL with
  | none => some none
  | some client =>
      if fsUUID = [] then some none
      else
        match ESLClient.api client (ascii "uuid_dump " ++ fsUUID) dump with
        | none => none
        | some (.error _) => some none
        | some (.ok reply) => some (some reply)

/-- `OnStart`; a panic is `none`. -/
def Handler.onStart (h : Handler) (fsUUID : Bytes) (o : StartOutcome) : Option Started :=
  match h with
  | .stats => some ⟨false, false⟩
  | .cascade newASR =>
      if newASR.newASR o.asrDialed then some ⟨true, false⟩ else some ⟨false, true⟩
  | .agentForwarder ESL =>
      match callInfo ESL fsUUID o.dump with
      | none => none
      | some _ =>
          if ¬ o.urlParsed then some ⟨false, true⟩
          else if ¬ o.agentDialed then some ⟨false, true⟩
          else if ¬ o.startSent then some ⟨false, true⟩
          else some ⟨true, false⟩

/-- `OnAudio`: whether it closes the session. -/
def Handler.onAudio (h : Handler) (kept sent : Bool) : Bool :=
  match h with
  | .stats => false
  | .cascade _ => false
  | .agentForwarder _ => kept && !sent

-- ============================================================================
-- serveWS
-- ============================================================================

/-- A message of the module. -/
inductive Frame where
  | binary (data : Bytes)
  | text (data : Bytes)
deriving DecidableEq, Repr

/-- The calls of the goroutine. -/
inductive Event where
  | store
  | recorderBegin
  | audioStart
  | onStart
  | uplink (data : Bytes)
  | onAudio (data : Bytes)
  | setMetadata (data : Bytes)
  | onText (data : Bytes)
  | close
  | delete
  | onEnd
  | recorderFinish
  | audioEnd
deriving DecidableEq, Repr

/-- What `Recorder.Begin` leaves: no recording (a directory or a raw file cannot be
    made), or one; `capturing`: events.jsonl could be made too, and `captureEvents`
    runs. -/
inductive Begun where
  | nothing
  | recording (capturing : Bool)
deriving DecidableEq, Repr

/-- The options of a `Server`, and what the session finds: the uuid of its query and
    the file system under the recorder. -/
structure Setting where
  handler : Handler
  recorder : Bool
  bus : Bool
  fsUUID : Bytes
  begun : Begun
deriving DecidableEq, Repr

/-- Where the goroutine is. -/
inductive Pc where
  | accepted
  | stored
  | begun
  | announced
  | reading
  | gotBinary (data : Bytes)
  | uplinked (data : Bytes)
  | gotText (data : Bytes)
  | metadataSet (data : Bytes)
  | readFailed
  | closed
  | deleted
  | ended
  /-- Inside `Recorder.Finish`, at `<-cr.eventsDone`. -/
  | waitingForEvents
  | finished
  | returned
  | panicked
deriving DecidableEq, Repr

structure State where
  pc : Pc
  /-- `srv.sessions` has the session. -/
  inMap : Bool
  /-- `s.Close` has been called. -/
  closed : Bool
  /-- The handler keeps state of the session. -/
  kept : Bool
  recording : Begun
  frames : List Frame
  log : List Event
deriving DecidableEq, Repr

inductive Act where
  | store
  | begin
  | announce
  | onStart (o : StartOutcome)
  | read (f : Frame)
  | readFails
  | uplink
  | onAudio (sent : Bool)
  | setMetadata
  | onText
  | close
  | delete
  | onEnd
  | finish
  | eventsDone
  | announceEnd
  | closeElsewhere

/-- The goroutine goes on, having made the calls `evs`. -/
def State.goOn (s : State) (pc : Pc) (evs : List Event) : State :=
  { s with pc := pc, log := s.log ++ evs }

section Step

variable (st : Setting)

def begins : List Event := if st.recorder then [.recorderBegin] else []
def starts : List Event := if st.bus then [.audioStart] else []
def uplinks (data : Bytes) : List Event := if st.recorder then [.uplink data] else []
def finishes : List Event := if st.recorder then [.recorderFinish] else []
def ends : List Event := if st.bus then [.audioEnd] else []

/-- One step of the goroutine, or a close by another one. -/
def step (s : State) : Act → Option State
  | .store =>
      if s.pc = .accepted then some { s.goOn .stored [.store] with inMap := true } else none
  | .begin =>
      if s.pc = .stored then
        some { s.goOn .begun (begins st) with
          recording := if st.recorder then st.begun else s.recording }
      else none
  | .announce => if s.pc = .begun then some (s.goOn .announced (starts st)) else none
  | .onStart o =>
      if s.pc = .announced then
        match st.handler.onStart st.fsUUID o with
        | none => some (s.goOn .panicked [.onStart])
        | some r => some { s.goOn .reading [.onStart] with
            kept := r.kept, closed := s.closed || r.closed }
      else none
  | .read f =>
      if s.pc = .reading then
        match f with
        | .binary data => some { s with pc := .gotBinary data, frames := s.frames ++ [f] }
        | .text data => some { s with pc := .gotText data, frames := s.frames ++ [f] }
      else none
  | .readFails => if s.pc = .reading then some (s.goOn .readFailed []) else none
  | .uplink =>
      match s.pc with
      | .gotBinary data => some (s.goOn (.uplinked data) (uplinks st data))
      | _ => none
  | .onAudio sent =>
      match s.pc with
      | .uplinked data => some { s.goOn .reading [.onAudio data] with
          closed := s.closed || st.handler.onAudio s.kept sent }
      | _ => none
  | .setMetadata =>
      match s.pc with
      | .gotText data => some (s.goOn (.metadataSet data) [.setMetadata data])
      | _ => none
  | .onText =>
      match s.pc with
      | .metadataSet data => some (s.goOn .reading [.onText data])
      | _ => none
  | .close =>
      if s.pc = .readFailed then some { s.goOn .closed [.close] with closed := true } else none
  | .delete =>
      if s.pc = .closed then some { s.goOn .deleted [.delete] with inMap := false } else none
  | .onEnd =>
      if s.pc = .deleted then some { s.goOn .ended [.onEnd] with kept := false } else none
  | .finish =>
      if s.pc = .ended then
        if s.recording ≠ .nothing ∧ st.bus then some (s.goOn .waitingForEvents (finishes st))
        else some { s.goOn .finished (finishes st) with recording := .nothing }
      else none
  | .eventsDone =>
      -- only `captureEvents` closes `eventsDone`
      if s.pc = .waitingForEvents ∧ s.recording = .recording true then
        some { s.goOn .finished [] with recording := .nothing }
      else none
  | .announceEnd => if s.pc = .finished then some (s.goOn .returned (ends st)) else none
  | .closeElsewhere => some { s with closed := true }

/-- The connection has been accepted. -/
def initial : State where
  pc := .accepted
  inMap := false
  closed := false
  kept := false
  recording := .nothing
  frames := []
  log := []

def machine : Machine State Act where
  init := initial
  step := step st

end Step

end FsBridge.Bridge.ServeWS
