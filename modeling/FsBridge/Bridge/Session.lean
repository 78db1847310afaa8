/-
  FsBridge.Bridge.Session

  The downlink side of a `Session` (bridge/session.go): any number of sender
  goroutines inside `enqueue`, the `writePump` goroutine and `Close`, over the
  buffered channel `writeQueue` and the channel `done`.

  `enqueue` is four `select` statements, and other goroutines run between any
  two of them, so each `select` is a step of its own.  Where a `select` has
  several ready cases Go picks one at random; the cases are then separate
  actions.  The receive of `writePump` and its call of `conn.Write` with the
  received frame are one step: between the two only `downlinkTap` runs, which
  touches neither channel.

  The last five fields of `State` are history: no step reads them.
-/

import Mathlib.Logic.Function.Basic
import FsBridge.Lib.Ascii
import FsBridge.Lib.Chan
import FsBridge.Lib.Machine

namespace FsBridge.Bridge.Session

open FsBridge.Lib

/-- `websocket.MessageType`. -/
inductive MessageType where
  | messageText
  | messageBinary
deriving DecidableEq, Repr

/-- `writeRequest`: a queued outbound frame. -/
structure WriteRequest where
  mt : MessageType
  data : Bytes
deriving DecidableEq, Repr

/-- `ErrSessionClosed`, the one error of the send operations. -/
inductive SendError where
  | errSessionClosed
deriving DecidableEq, Repr

/-- `SendAudio`: an empty chunk is not queued at all, any other one is copied
    into a binary frame. -/
def sendAudio (pcm : Bytes) : Option WriteRequest :=
  if pcm = [] then none else some ⟨.messageBinary, pcm⟩

/-- `SendControl` with the message already marshalled. -/
def sendControl (msg : Bytes) : WriteRequest := ⟨.messageText, msg⟩

/-- `ClearPlayback`. -/
def clearPlayback : WriteRequest := sendControl (ascii "\x7b\"type\":\"clear\"\x7d")

/-- One call of `enqueue`: the `seq`-th call of the goroutine `sender`. -/
structure Call (ι : Type*) where
  sender : ι
  seq : Nat
  req : WriteRequest
deriving DecidableEq, Repr

/-- Which `select` of `enqueue` comes next. -/
inductive EnqueuePc where
  | checkDone
  | tryQueue
  | dropOldest
  | lastAttempt
deriving DecidableEq, Repr

/-- A goroutine that sends: how often it has called `enqueue`, and the call it
    is in now. -/
structure Sender where
  calls : Nat
  inside : Option (EnqueuePc × WriteRequest)
deriving DecidableEq, Repr

/-- Where `writePump` is. -/
inductive PumpPc (ι : Type*) where
  | selecting
  | writing (c : Call ι)
  | returned
deriving DecidableEq, Repr

/-- How a frame left `writeQueue`. -/
inductive Exit (ι : Type*) where
  | toConnWrite
  | evictedBy (c : Call ι)
deriving DecidableEq, Repr

/-- The call that evicted the frame, if one did. -/
def Exit.evictor {ι : Type*} : Exit ι → Option (Call ι)
  | .toConnWrite => none
  | .evictedBy c => some c

/-- A session with senders named by `ι` and `PlaybackQueueSize = cap`. -/
structure State (ι : Type*) (cap : Nat) where
  writeQueue : Chan (Call ι) cap
  /-- `done` is closed. -/
  done : Bool
  senders : ι → Sender
  pump : PumpPc ι
  /-- Frames that entered `writeQueue`, in order. -/
  entered : List (Call ι)
  /-- Frames that left `writeQueue`, in order, and how. -/
  left : List (Call ι × Exit ι)
  /-- Calls of `enqueue` that returned, and what. -/
  returned : List (Call ι × Except SendError Unit)
  /-- Calls whose second `select` found the queue full. -/
  foundFull : List (Call ι)

inductive Act (ι : Type*) where
  | call (i : ι) (req : WriteRequest)
  | checkDone (i : ι)
  | tryQueue (i : ι)
  | dropOldest (i : ι)
  | lastSend (i : ι)
  | lastDone (i : ι)
  | pumpDone
  | pumpRecv
  | pumpWrite (ok : Bool)
  | close
deriving DecidableEq, Repr

/-- The action is a step of `enqueue` in sender `i`. -/
@[simp] def Act.isOf {ι : Type*} (i : ι) : Act ι → Prop
  | .call j _ | .checkDone j | .tryQueue j | .dropOldest j | .lastSend j | .lastDone j => j = i
  | .pumpDone | .pumpRecv | .pumpWrite _ | .close => False

namespace State

variable {ι : Type*} {cap : Nat}

/-- The frames handed to `conn.Write`, in order. -/
def handed (s : State ι cap) : List (Call ι) :=
  (s.left.filter fun d => d.2.evictor.isNone).map Prod.fst

/-- The frames evicted from a full queue, in order. -/
def evicted (s : State ι cap) : List (Call ι) :=
  (s.left.filter fun d => d.2.evictor.isSome).map Prod.fst

/-- The calls that evicted a frame, in order. -/
def evictors (s : State ι cap) : List (Call ι) := s.left.filterMap fun d => d.2.evictor

/-- The call of `enqueue` that sender `i` is in, at the given `select`. -/
def current (s : State ι cap) (i : ι) : Option (EnqueuePc × Call ι) :=
  (s.senders i).inside.map fun p => (p.1, ⟨i, (s.senders i).calls - 1, p.2⟩)

variable [DecidableEq ι]

/-- Sender `i` goes on to the given `select`, or leaves `enqueue`. -/
def goto (s : State ι cap) (i : ι) (inside : Option (EnqueuePc × WriteRequest)) : State ι cap :=
  { s with senders := Function.update s.senders i { s.senders i with inside := inside } }

/-- Sender `i` returns from its call `c`. -/
def ret (s : State ι cap) (i : ι) (c : Call ι) (r : Except SendError Unit) : State ι cap :=
  { s.goto i none with returned := s.returned ++ [(c, r)] }

end State

variable {ι : Type*} [DecidableEq ι] {cap : Nat}

/-- `select { case s.writeQueue <- req: return nil }`, where the send is ready. -/
def pushAndReturn (s : State ι cap) (i : ι) (c : Call ι) (q : Chan (Call ι) cap) : State ι cap :=
  { s.ret i c (.ok ()) with writeQueue := q, entered := s.entered ++ [c] }

/-- One atomic step of the goroutines around a session. -/
def step (s : State ι cap) : Act ι → Option (State ι cap)
  | .call i req =>
      match (s.senders i).inside with
      | some _ => none
      | none => some { s with
          senders := Function.update s.senders i ⟨(s.senders i).calls + 1, some (.checkDone, req)⟩ }
  | .checkDone i =>
      match s.current i with
      | some (.checkDone, c) =>
          if s.done then some (s.ret i c (.error .errSessionClosed))
          else some (s.goto i (some (.tryQueue, c.req)))
      | _ => none
  | .tryQueue i =>
      match s.current i with
      | some (.tryQueue, c) =>
          match s.writeQueue.trySend c with
          | some q => some (pushAndReturn s i c q)
          | none => some { s.goto i (some (.dropOldest, c.req)) with
              foundFull := s.foundFull ++ [c] }
      | _ => none
  | .dropOldest i =>
      match s.current i with
      | some (.dropOldest, c) =>
          match s.writeQueue.tryRecv with
          | some (old, q) => some { s.goto i (some (.lastAttempt, c.req)) with
              writeQueue := q
              left := s.left ++ [(old, .evictedBy c)] }
          | none => some (s.goto i (some (.lastAttempt, c.req)))
      | _ => none
  | .lastSend i =>
      match s.current i with
      | some (.lastAttempt, c) => (s.writeQueue.trySend c).map (pushAndReturn s i c)
      | _ => none
  | .lastDone i =>
      match s.current i with
      | some (.lastAttempt, c) =>
          if s.done then some (s.ret i c (.error .errSessionClosed)) else none
      | _ => none
  | .pumpDone =>
      if s.pump = .selecting ∧ s.done then some { s with pump := .returned } else none
  | .pumpRecv =>
      if s.pump = .selecting then
        match s.writeQueue.tryRecv with
        | some (c, q) => some { s with
            writeQueue := q, pump := .writing c, left := s.left ++ [(c, .toConnWrite)] }
        | none => none
      else none
  | .pumpWrite ok =>
      match s.pump with
      | .writing _ =>
          if ok then some { s with pump := .selecting }
          else some { s with pump := .returned, done := true }
      | _ => none
  | .close => some { s with done := true }

/-- A session as `serveWS` makes it. -/
def initial (ι : Type*) (cap : Nat) : State ι cap where
  writeQueue := .empty
  done := false
  senders := fun _ => ⟨0, none⟩
  pump := .selecting
  entered := []
  left := []
  returned := []
  foundFull := []

/-- The session as a transition system. -/
def machine (ι : Type*) [DecidableEq ι] (cap : Nat) : Machine (State ι cap) (Act ι) where
  init := initial ι cap
  step := step

end FsBridge.Bridge.Session
