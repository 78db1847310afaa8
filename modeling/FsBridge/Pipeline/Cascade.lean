/-
  FsBridge.Pipeline.Cascade

  One call of the ASR -> LLM -> TTS cascade (pipeline/cascade.go) after
  `OnStart`: the ASR, the `consumeASR` goroutine, the `respond` goroutines it
  spawns, `OnEnd`, and the Session the reply audio is queued on.

  A turn is the `respond` goroutine of one final transcript; turns are numbered
  in the order of their transcripts, which is the order in which `consumeASR`
  spawns them.  Every critical section of `callState.mu` is one step, and so is
  every call to a stage (ASR, LLM, TTS), whose result is part of the action:
  any reply, any chunks, any errors.

  `SendAudio` and `ClearPlayback` are modelled by the instant at which the frame
  enters the queue of the Session (`Bridge.Session`); a frame may still enter
  while the Session is being closed.
-/

import Mathlib.Logic.Function.Basic
import FsBridge.Lib.Ascii
import FsBridge.Lib.Machine

namespace FsBridge.Pipeline

open FsBridge.Lib

/-- `ASREvent`. -/
inductive ASREvent where
  | speechStarted
  | transcript (text : Bytes) (isFinal : Bool)
deriving DecidableEq, Repr

inductive Role where
  | system
  | user
  | assistant
deriving DecidableEq, Repr

/-- `Message`: a single conversational turn. -/
structure Message where
  role : Role
  content : Bytes
deriving DecidableEq, Repr

/-- What `consumeASR` publishes on the bus. -/
inductive BusEvent where
  | speechStart
  | transcript (text : Bytes) (isFinal : Bool)
deriving DecidableEq, Repr

namespace Cascade

/-- Where a `respond` goroutine is. -/
inductive RespondPc where
  | notSpawned
  /-- Before the first critical section. -/
  | spawned
  | llmRespond (history : List Message)
  | appendReply (reply : Bytes)
  | newTTS (reply : Bytes)
  | synthesize (reply : Bytes)
  /-- At `for chunk := range chunks`. -/
  | nextChunk
  | checkCtx (chunk : Bytes)
  | sendAudio (chunk : Bytes)
  /-- In the deferred function. -/
  | cleanup
  | finished
deriving DecidableEq, Repr

/-- A `respond` goroutine: its local `turn`, its context, where it is. -/
structure Turn where
  userText : Bytes
  number : Nat
  cancelled : Bool
  pc : RespondPc
deriving DecidableEq, Repr

/-- Where `consumeASR` is. -/
inductive ConsumerPc where
  /-- At `for ev := range st.asr.Events()`. -/
  | receiving
  /-- In `bargeIn`, before its critical section. -/
  | bargeIn
  /-- In `bargeIn`, before `s.ClearPlayback()`. -/
  | clearing
  | returned
deriving DecidableEq, Repr

/-- Where `OnEnd` is. -/
inductive OnEndPc where
  | notCalled
  | cancelling
  | closingASR
  | returned
deriving DecidableEq, Repr

/-- A frame in the order of the Session's queue: reply audio of a turn, or the
    clear frame of a barge-in with the number of turns spawned before it. -/
inductive Frame where
  | audio (turn : Nat) (chunk : Bytes)
  | clear (turns : Nat)
deriving DecidableEq, Repr

/-- `callState`.  `cancel` names the turn whose cancel function is stored. -/
structure CallState where
  history : List Message
  cancel : Option Nat
  speaking : Bool
  turn : Nat
deriving DecidableEq, Repr

structure State where
  /-- Events buffered in the ASR channel, oldest first. -/
  events : List ASREvent
  asrClosed : Bool
  consumer : ConsumerPc
  onEnd : OnEndPc
  st : CallState
  turns : Nat → Turn
  spawned : Nat
  sessionClosed : Bool
  published : List BusEvent
  queued : List Frame

inductive Act where
  | asrEmit (ev : ASREvent)
  | asrRecv
  | asrDrained
  | bargeInLock
  | clearQueued
  | clearFailed
  | register (k : Nat)
  | llmReply (k : Nat) (reply : Bytes)
  | llmError (k : Nat)
  | appendReply (k : Nat)
  | ttsInit (k : Nat) (ok : Bool)
  | ttsSynthesize (k : Nat) (ok : Bool)
  | chunk (k : Nat) (chunk : Bytes)
  | chunksDone (k : Nat)
  | checkCtx (k : Nat)
  | sendAudio (k : Nat)
  | sendFailed (k : Nat)
  | cleanup (k : Nat)
  | onEndDelete
  | onEndCancel
  | onEndClose
  | sessionClose
deriving DecidableEq, Repr

namespace State

def setTurn (s : State) (k : Nat) (t : Turn) : State :=
  { s with turns := Function.update s.turns k t }

/-- Turn `k` goes on to `pc`. -/
def goto (s : State) (k : Nat) (pc : RespondPc) : State :=
  s.setTurn k { s.turns k with pc := pc }

/-- `if st.cancel != nil { st.cancel() }`. -/
def callCancel (s : State) : State :=
  match s.st.cancel with
  | some k => s.setTurn k { s.turns k with cancelled := true }
  | none => s

end State

/-- The body of the loop of `consumeASR` for one event, up to the call of
    `bargeIn` or the `go` statement. -/
def consume (bus : Bool) (s : State) : ASREvent → State
  | .speechStarted =>
      { s with
        published := s.published ++ if bus then [.speechStart] else []
        consumer := .bargeIn }
  | .transcript text isFinal =>
      let s := { s with
        published := s.published ++
          if bus ∧ text ≠ [] then [.transcript text isFinal] else [] }
      if ¬ isFinal ∨ text = [] then s
      else { s.setTurn s.spawned ⟨text, 0, false, .spawned⟩ with spawned := s.spawned + 1 }

/-- The first critical section of `respond`. -/
def register (s : State) (k : Nat) : State :=
  let s := s.callCancel
  let history := s.st.history ++ [⟨.user, (s.turns k).userText⟩]
  let number := s.st.turn + 1
  { s.setTurn k { s.turns k with number := number, pc := .llmRespond history } with
    st := { history := history, cancel := some k, speaking := true, turn := number } }

/-- The deferred critical section of `respond`. -/
def cleanup (s : State) (k : Nat) : State :=
  if s.st.turn = (s.turns k).number then
    { s.goto k .finished with st := { s.st with cancel := none, speaking := false } }
  else s.goto k .finished

/-- One atomic step; `bus` says whether `Cascade.Bus` is set. -/
def step (bus : Bool) (s : State) : Act → Option State
  | .asrEmit ev => if s.asrClosed then none else some { s with events := s.events ++ [ev] }
  | .asrRecv =>
      match s.consumer, s.events with
      | .receiving, ev :: rest => some (consume bus { s with events := rest } ev)
      | _, _ => none
  | .asrDrained =>
      match s.consumer, s.events with
      | .receiving, [] => if s.asrClosed then some { s with consumer := .returned } else none
      | _, _ => none
  | .bargeInLock =>
      match s.consumer with
      | .bargeIn =>
          let s := s.callCancel
          some { s with st := { s.st with cancel := none }, consumer := .clearing }
      | _ => none
  | .clearQueued =>
      match s.consumer with
      | .clearing => some { s with
          queued := s.queued ++ [.clear s.spawned], consumer := .receiving }
      | _ => none
  | .clearFailed =>
      match s.consumer with
      | .clearing => if s.sessionClosed then some { s with consumer := .receiving } else none
      | _ => none
  | .register k =>
      match (s.turns k).pc with
      | .spawned => some (register s k)
      | _ => none
  | .llmReply k reply =>
      match (s.turns k).pc with
      | .llmRespond _ => some (s.goto k (if reply = [] then .cleanup else .appendReply reply))
      | _ => none
  | .llmError k =>
      match (s.turns k).pc with
      | .llmRespond _ => some (s.goto k .cleanup)
      | _ => none
  | .appendReply k =>
      match (s.turns k).pc with
      | .appendReply reply => some { s.goto k (.newTTS reply) with
          st := { s.st with history := s.st.history ++ [⟨.assistant, reply⟩] } }
      | _ => none
  | .ttsInit k ok =>
      match (s.turns k).pc with
      | .newTTS reply => some (s.goto k (if ok then .synthesize reply else .cleanup))
      | _ => none
  | .ttsSynthesize k ok =>
      match (s.turns k).pc with
      | .synthesize _ => some (s.goto k (if ok then .nextChunk else .cleanup))
      | _ => none
  | .chunk k chunk =>
      match (s.turns k).pc with
      | .nextChunk => some (s.goto k (.checkCtx chunk))
      | _ => none
  | .chunksDone k =>
      match (s.turns k).pc with
      | .nextChunk => some (s.goto k .cleanup)
      | _ => none
  | .checkCtx k =>
      match (s.turns k).pc with
      | .checkCtx chunk =>
          some (s.goto k (if (s.turns k).cancelled then .cleanup else .sendAudio chunk))
      | _ => none
  | .sendAudio k =>
      match (s.turns k).pc with
      -- an empty chunk is not queued and is no error
      | .sendAudio [] => some (s.goto k .nextChunk)
      | .sendAudio chunk => some { s.goto k .nextChunk with
          queued := s.queued ++ [.audio k chunk] }
      | _ => none
  | .sendFailed k =>
      match (s.turns k).pc with
      | .sendAudio (_ :: _) => if s.sessionClosed then some (s.goto k .cleanup) else none
      | _ => none
  | .cleanup k =>
      match (s.turns k).pc with
      | .cleanup => some (cleanup s k)
      | _ => none
  | .onEndDelete =>
      if s.onEnd = .notCalled then some { s with onEnd := .cancelling } else none
  | .onEndCancel =>
      if s.onEnd = .cancelling then some { s.callCancel with onEnd := .closingASR } else none
  | .onEndClose =>
      if s.onEnd = .closingASR then some { s with onEnd := .returned, asrClosed := true } else none
  | .sessionClose => some { s with sessionClosed := true }

/-- The call as `OnStart` leaves it. -/
def initial (systemPrompt : Bytes) : State where
  events := []
  asrClosed := false
  consumer := .receiving
  onEnd := .notCalled
  st :=
    { history := if systemPrompt = [] then [] else [⟨.system, systemPrompt⟩]
      cancel := none
      speaking := false
      turn := 0 }
  turns := fun _ => ⟨[], 0, false, .notSpawned⟩
  spawned := 0
  sessionClosed := false
  published := []
  queued := []

/-- One call of the cascade as a transition system. -/
def machine (bus : Bool) (systemPrompt : Bytes) : Machine State Act where
  init := initial systemPrompt
  step := step bus

end Cascade

end FsBridge.Pipeline
