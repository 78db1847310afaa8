/-
  FsBridge.Bridge.EslClient

  One `ESLClient` (bridge/esl.go): the goroutine of `Run`, any number of
  concurrent calls of `API` and of `Close`, and the FreeSWITCH end of each
  connection the client dials.

  Connections are numbered from 1 in the order in which they are dialled; the
  local variable `conn` of the running `connectAndServe` is the last of them.
  Every access to a shared variable is a step: a critical section of `connMu`,
  a load or store of `ready`, a `select` on `pendingReply`, a write or read of
  one message.  A call returns and releases `apiMu` in one step.

  FreeSWITCH greets, answers the commands of a connection in order and at most
  once each, sends events only after it has answered the subscription, and may
  say goodbye at any time, after which it answers nothing.  Reads, writes and
  dials may fail at any time, and a write that fails may still have reached
  FreeSWITCH.  Durations are not modelled: a timeout may fire at any time.

  Messages carry what they answer (`Tag`); no step reads the tag.
-/

import Mathlib.Logic.Function.Basic
import FsBridge.Bridge.Esl
import FsBridge.Lib.Chan
import FsBridge.Lib.Machine

namespace FsBridge.Bridge.EslClient

open FsBridge.Lib

/-- The fields of `ESLClient` that `NewESLClient` is given. -/
structure Config where
  password : Bytes
  events : List Bytes

/-- What a message answers: the connection itself, a command of the handshake,
    or the command of the `API` call `call`; events answer nothing. -/
inductive Tag where
  | greeting
  | auth
  | subscribe
  | api (call : Nat)
  | event
deriving DecidableEq, Repr

/-- The message belongs to the handshake. -/
def Tag.handshake : Tag → Bool
  | .greeting | .auth | .subscribe => true
  | .api _ | .event => false

/-- A command as `writeESLCommand` is given it. -/
structure Command where
  text : Bytes
  tag : Tag
deriving DecidableEq, Repr

/-- A message FreeSWITCH sent; what it sends of its own accord is no reply. -/
structure Sent where
  msg : EslMessage
  tag : Tag
  event_not_reply : tag = .event → msg.isReply = false
deriving DecidableEq, Repr

/-- One connection. -/
structure Wire where
  /-- Commands FreeSWITCH has still to answer, oldest first. -/
  unanswered : List Command
  /-- Messages on their way to the client, oldest first. -/
  inbox : List Sent
  /-- FreeSWITCH has answered the subscription. -/
  subscribed : Bool
  /-- FreeSWITCH has said goodbye. -/
  gone : Bool
  /-- The client has closed its end. -/
  closed : Bool
deriving DecidableEq, Repr

/-- What is still to come on the connection, in the order of its arrival. -/
def Wire.tags (w : Wire) : List Tag :=
  w.inbox.map Sent.tag ++ w.unanswered.map Command.tag

/-- Where the goroutine of `Run` is. -/
inductive RunPc where
  /-- At the head of the loop of `Run`. -/
  | looping
  | dialing
  /-- Before `c.conn = conn`. -/
  | installing
  | readGreeting
  | writeAuth
  | readAuthReply
  | writeSubscribe
  | readSubscribeReply
  | settingReady
  /-- At `readESLMessage` in the read loop. -/
  | serving
  /-- Before the `select` on `pendingReply`. -/
  | delivering (m : Sent)
  /-- In the deferred functions. -/
  | clearingReady
  | uninstalling
  | closing
  /-- Back in `Run`. -/
  | ended
  | backoff
  | stopped
deriving DecidableEq, Repr

/-- How a call of `API` ended. -/
inductive Outcome where
  | failed (err : ApiError)
  /-- It received `m` from `pendingReply` and returned `apiResult m.msg`. -/
  | received (m : Sent)
deriving DecidableEq, Repr

def Outcome.result : Outcome → Except ApiError Bytes
  | .failed err => .error err
  | .received m => apiResult m.msg

/-- Where a call of `API` is; `conn` is its local variable. -/
inductive ApiPc where
  | notCalled
  /-- At `c.apiMu.Lock()`. -/
  | locking (cmd : Bytes)
  | readConn (cmd : Bytes)
  | loadReady (cmd : Bytes) (conn : Option Nat)
  | draining (cmd : Bytes) (conn : Nat)
  | writing (cmd : Bytes) (conn : Nat)
  /-- In the `select` at the end. -/
  | waiting (cmd : Bytes)
  | returned (outcome : Outcome)
deriving DecidableEq, Repr

/-- The call holds `apiMu`. -/
def ApiPc.holdsMutex : ApiPc → Bool
  | .notCalled | .locking _ | .returned _ => false
  | _ => true

/-- Where a call of `Close` is. -/
inductive ClosePc where
  | notCalled
  /-- At the `select` on `done`. -/
  | checkDone
  /-- Before `close(c.done)`. -/
  | closeDone
  /-- Before the critical section of `connMu`. -/
  | closeConn
  | returned
  /-- `close` of a closed channel. -/
  | panicked
deriving DecidableEq, Repr

structure State where
  conn : Option Nat
  ready : Bool
  apiMu : Option Nat
  pendingReply : Chan Sent 1
  done : Bool
  /-- The context of `Run` is cancelled. -/
  ctxDone : Bool
  run : RunPc
  /-- Number of connections dialled. -/
  dialled : Nat
  wires : Nat → Wire
  calls : Nat → ApiPc
  closers : Nat → ClosePc

inductive Act where
  -- FreeSWITCH
  | answer (conn : Nat) (msg : EslMessage)
  | event (conn : Nat) (m : Sent)
  | goodbye (conn : Nat) (m : Sent)
  -- `Run` and `connectAndServe`
  | cancelRun
  | checkCtx
  | dialFailed
  | dialOk (greeting : EslMessage)
  | install
  | read
  | readFailed
  | writeCmd (ok : Bool)
  | setReady
  | deliver
  | clearReady
  | uninstall
  | closeConn
  | backoffDone
  -- `API`
  | call (i : Nat) (cmd : Bytes)
  | lock (i : Nat)
  | readConn (i : Nat)
  | loadReady (i : Nat)
  | drain (i : Nat)
  | write (i : Nat)
  | writeFailed (i : Nat) (arrived : Bool)
  | stopWaiting (i : Nat) (err : ApiError)
  | recv (i : Nat)
  -- `Close`
  | closeCall (j : Nat)
  | closeCheck (j : Nat)
  | closeDone (j : Nat)
  | closeWire (j : Nat)
deriving DecidableEq, Repr

namespace State

def setWire (s : State) (c : Nat) (w : Wire) : State :=
  { s with wires := Function.update s.wires c w }

def setCall (s : State) (i : Nat) (pc : ApiPc) : State :=
  { s with calls := Function.update s.calls i pc }

def setCloser (s : State) (j : Nat) (pc : ClosePc) : State :=
  { s with closers := Function.update s.closers j pc }

/-- The command reaches FreeSWITCH, which ignores it after its goodbye. -/
def deliverCommand (s : State) (c : Nat) (cmd : Command) : State :=
  let w := s.wires c
  if w.gone then s else s.setWire c { w with unanswered := w.unanswered ++ [cmd] }

/-- `conn.Close()`. -/
def closeWire (s : State) (c : Nat) : State :=
  s.setWire c { s.wires c with closed := true }

/-- The call returns and its deferred `Unlock` runs. -/
def ret (s : State) (i : Nat) (outcome : Outcome) : State :=
  { s.setCall i (.returned outcome) with apiMu := none }

end State

/-- The program counter after a message of the handshake or the read loop. -/
def afterRead (cfg : Config) (m : Sent) : RunPc → RunPc
  | .readGreeting => if m.msg.isGreeting then .writeAuth else .uninstalling
  | .readAuthReply =>
      if m.msg.authOk then (if cfg.events = [] then .settingReady else .writeSubscribe)
      else .uninstalling
  | .readSubscribeReply => .settingReady
  | .serving =>
      if m.msg.isReply then .delivering m
      else if m.msg.isDisconnectNotice then .clearingReady
      -- events go to `eventsCh`, which `API` never reads; the rest is ignored
      else .serving
  | pc => pc

/-- The goroutine of `Run` is at `readESLMessage`. -/
def RunPc.reading : RunPc → Bool
  | .readGreeting | .readAuthReply | .readSubscribeReply | .serving => true
  | _ => false

def step (cfg : Config) (s : State) : Act → Option State
  | .answer c msg =>
      match (s.wires c).unanswered with
      | cmd :: rest =>
          if h : cmd.tag = .event → msg.isReply = false then
            some (s.setWire c { s.wires c with
              unanswered := rest
              inbox := (s.wires c).inbox ++ [⟨msg, cmd.tag, h⟩]
              subscribed := (s.wires c).subscribed || cmd.tag = .subscribe })
          else none
      | [] => none
  | .event c m =>
      if (s.wires c).subscribed ∧ ¬ (s.wires c).gone ∧ m.tag = .event then
        some (s.setWire c { s.wires c with inbox := (s.wires c).inbox ++ [m] })
      else none
  | .goodbye c m =>
      if ¬ (s.wires c).gone ∧ m.tag = .event then
        some (s.setWire c { s.wires c with
          unanswered := [], inbox := (s.wires c).inbox ++ [m], gone := true })
      else none
  | .cancelRun => some { s with ctxDone := true }
  | .checkCtx =>
      match s.run with
      | .looping => some { s with run := if s.ctxDone then .stopped else .dialing }
      | .ended => some { s with run := if s.ctxDone then .stopped else .backoff }
      | .backoff => if s.ctxDone then some { s with run := .stopped } else none
      | _ => none
  | .dialFailed => if s.run = .dialing then some { s with run := .ended } else none
  | .dialOk greeting =>
      if s.run = .dialing then
        some { s.setWire (s.dialled + 1)
            ⟨[], [⟨greeting, .greeting, fun h => nomatch h⟩], false, false, false⟩ with
          dialled := s.dialled + 1, run := .installing }
      else none
  | .install =>
      if s.run = .installing then
        some { s with conn := some s.dialled, run := .readGreeting }
      else none
  | .read =>
      match s.run.reading, (s.wires s.dialled).inbox with
      | true, m :: rest => some { s.setWire s.dialled { s.wires s.dialled with inbox := rest } with
          run := afterRead cfg m s.run }
      | _, _ => none
  | .readFailed =>
      if s.run.reading then
        some { s with run := if s.run = .serving then .clearingReady else .uninstalling }
      else none
  | .writeCmd ok =>
      match s.run with
      | .writeAuth =>
          if ok then
            if (s.wires s.dialled).closed then none
            else some { s.deliverCommand s.dialled ⟨ascii "auth " ++ cfg.password, .auth⟩ with
              run := .readAuthReply }
          else some { s with run := .uninstalling }
      | .writeSubscribe =>
          if ok then
            if (s.wires s.dialled).closed then none
            else some { s.deliverCommand s.dialled
                ⟨ascii "event json " ++ (ascii " ").intercalate cfg.events, .subscribe⟩ with
              run := .readSubscribeReply }
          else some { s with run := .uninstalling }
      | _ => none
  | .setReady =>
      if s.run = .settingReady then some { s with ready := true, run := .serving } else none
  | .deliver =>
      match s.run with
      | .delivering m =>
          match s.pendingReply.trySend m with
          | some ch => some { s with pendingReply := ch, run := .serving }
          -- nobody waiting; drop
          | none => some { s with run := .serving }
      | _ => none
  | .clearReady =>
      if s.run = .clearingReady then some { s with ready := false, run := .uninstalling }
      else none
  | .uninstall =>
      if s.run = .uninstalling then
        some { s with
          conn := if s.conn = some s.dialled then none else s.conn, run := .closing }
      else none
  | .closeConn =>
      if s.run = .closing then some { s.closeWire s.dialled with run := .ended } else none
  | .backoffDone => if s.run = .backoff then some { s with run := .looping } else none
  | .call i cmd => if s.calls i = .notCalled then some (s.setCall i (.locking cmd)) else none
  | .lock i =>
      match s.calls i, s.apiMu with
      | .locking cmd, none => some { s.setCall i (.readConn cmd) with apiMu := some i }
      | _, _ => none
  | .readConn i =>
      match s.calls i with
      | .readConn cmd => some (s.setCall i (.loadReady cmd s.conn))
      | _ => none
  | .loadReady i =>
      match s.calls i with
      | .loadReady cmd (some c) =>
          if s.ready then some (s.setCall i (.draining cmd c))
          else some (s.ret i (.failed .notConnected))
      | .loadReady _ none => some (s.ret i (.failed .notConnected))
      | _ => none
  | .drain i =>
      match s.calls i with
      | .draining cmd c =>
          match s.pendingReply.tryRecv with
          | some (_, ch) => some { s.setCall i (.writing cmd c) with pendingReply := ch }
          | none => some (s.setCall i (.writing cmd c))
      | _ => none
  | .write i =>
      match s.calls i with
      | .writing cmd c =>
          if (s.wires c).closed then none
          else some ((s.deliverCommand c ⟨ascii "api " ++ cmd, .api i⟩).setCall i (.waiting cmd))
      | _ => none
  | .writeFailed i arrived =>
      match s.calls i with
      | .writing cmd c =>
          if arrived ∧ ¬ (s.wires c).closed then
            some ((s.deliverCommand c ⟨ascii "api " ++ cmd, .api i⟩).ret i (.failed .write))
          else some (s.ret i (.failed .write))
      | _ => none
  | .stopWaiting i err =>
      match s.calls i with
      | .waiting _ =>
          if err = .ctx ∨ err = .replyTimeout ∨ err = .clientClosed ∧ s.done then
            some (s.ret i (.failed err))
          else none
      | _ => none
  | .recv i =>
      match s.calls i with
      | .waiting _ =>
          match s.pendingReply.tryRecv with
          | some (m, ch) => some { s.ret i (.received m) with pendingReply := ch }
          | none => none
      | _ => none
  | .closeCall j =>
      if s.closers j = .notCalled then some (s.setCloser j .checkDone) else none
  | .closeCheck j =>
      if s.closers j = .checkDone then
        some (s.setCloser j (if s.done then .closeConn else .closeDone))
      else none
  | .closeDone j =>
      if s.closers j = .closeDone then
        if s.done then some (s.setCloser j .panicked)
        else some { s.setCloser j .closeConn with done := true }
      else none
  | .closeWire j =>
      if s.closers j = .closeConn then
        match s.conn with
        | some c => some ((s.closeWire c).setCloser j .returned)
        | none => some (s.setCloser j .returned)
      else none

/-- The client as `NewESLClient` returns it. -/
def initial : State where
  conn := none
  ready := false
  apiMu := none
  pendingReply := .empty
  done := false
  ctxDone := false
  run := .looping
  dialled := 0
  wires := fun _ => ⟨[], [], false, false, false⟩
  calls := fun _ => .notCalled
  closers := fun _ => .notCalled

/-- One client as a transition system. -/
def machine (cfg : Config) : Machine State Act where
  init := initial
  step := step cfg

end FsBridge.Bridge.EslClient
