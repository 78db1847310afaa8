/-
  FsBridge.Libwsc.Context

  The connection of the WebSocket client (`WebSocketContext`,
  module/libs/libwsc/src/WebSocketContext.cpp) as a machine.

  One thread runs the event loop; it alone writes the state of the connection, the
  output buffer and the callbacks.  Other threads put messages into the queue, ask
  for a flush and request the stop.  An action is one callback of the loop, one frame
  of `onData`, one of the steps of `sendData`, or the stop.

  What the application does inside its callbacks is a parameter (`App`): it may send,
  and it may disconnect.  libevent is modelled as its documentation has it: an event
  that was made active has its callback run once, a loop exit ends the loop after
  callbacks that may still run, and nothing is read behind an error or an end of file.
-/

import FsBridge.Lib.Machine
import FsBridge.Libwsc.Messages
import FsBridge.Libwsc.Upgrade

namespace FsBridge.Libwsc

open FsBridge.Lib
open FsBridge.Lib.Decimal (print)

inductive ConnectionState where
  | disconnected
  | disconnecting
  | connecting
  | connected
  | failed
deriving DecidableEq, Repr

/-- `ErrorCode`, as far as it is used. -/
inductive ErrorCode where
  | io
  | notSupported
  | connectFailed
  | tlsInitFailed
  | sslHandshakeFailed
  | sslError
  | timeout
  | protocol
deriving DecidableEq, Repr

/-- An entry of `send_queue`. -/
inductive Pending where
  | text (s : Bytes)
  | binary (b : Bytes)
  | close (payload : Bytes)
deriving DecidableEq, Repr

/-- A call of one of the application's callbacks. -/
inductive Callback where
  | opened
  | error (code : ErrorCode) (message : Bytes)
  | closed (code : Nat) (reason : Bytes)
  | message (s : Bytes)
  | binary (b : Bytes)
deriving DecidableEq, Repr

/-- What the application can call inside a callback. -/
inductive AppCall where
  | sendMessage (s : Bytes)
  | sendBinary (b : Bytes)
  | disconnect
deriving DecidableEq, Repr

/-- What the application does in a callback, after those it has had, and what the clock
    gives as seeds. -/
structure App where
  onCallback : List Callback → List AppCall
  seed : Nat → UInt32

/-- An application that does nothing. -/
def App.idle : App := ⟨fun _ => [], fun _ => 0⟩

/-- `MAX_QUEUE_SIZE`. -/
def maxQueueSize : Nat := 1024

/-- The fields of the context, with what has been observed of it: the callbacks, the
    entries that have been put into the queue, those a flush has taken out, each with
    whether it was sent, and the frames that have been sent. -/
structure Context (Z : Zlib) where
  connection_state : ConnectionState
  upgraded : Bool
  stop_requested : Bool
  close_sent : Bool
  close_received : Bool
  protocol_failed : Bool
  close_cb_fired : Bool
  use_compression : Bool
  send_queue : List Pending
  send_flush_pending : Bool
  sender : Sender Z
  /-- The loop has been set up: `base`, `_bev` and the events are there. -/
  base : Bool
  wakeup_active : Bool
  send_active : Bool
  close_timer : Bool
  timeout_event : Bool
  loopexit : Bool
  callbacks : List Callback
  queued : List Pending
  flushed : List (Pending × Bool)
  frames : List (MessageType × Bytes)

section Context

variable {Z : Zlib} (app : App)

namespace Context

def init (deflater : Deflater Z) : Context Z where
  connection_state := .disconnected
  upgraded := false
  stop_requested := false
  close_sent := false
  close_received := false
  protocol_failed := false
  close_cb_fired := false
  use_compression := false
  send_queue := []
  send_flush_pending := false
  sender := ⟨deflater, 0, []⟩
  base := false
  wakeup_active := false
  send_active := false
  close_timer := false
  timeout_event := false
  loopexit := false
  callbacks := []
  queued := []
  flushed := []
  frames := []

-- ============================================================================
-- Sending
-- ============================================================================

def send (x : Context Z) (type : MessageType) (raw : Bytes) : Context Z :=
  { x with
    sender := x.sender.send (app.seed x.frames.length) x.use_compression type raw
    frames := if type.isControl ∧ 125 < raw.length then x.frames else x.frames ++ [(type, raw)] }

/-- `sendNow`: whether it sends. -/
def sendNow (x : Context Z) (type : MessageType) (raw : Bytes) : Bool × Context Z :=
  if ¬ x.base then (false, x)
  else if ¬ (x.connection_state = .connected ∨
      type = .close ∧ x.connection_state = .disconnecting) then (false, x)
  else if type ≠ .close ∧ ¬ x.upgraded then (false, x)
  else (true, x.send app type raw)

/-- An entry is put into the queue, if there is room. -/
def push (x : Context Z) (p : Pending) : Bool × Context Z :=
  if maxQueueSize ≤ x.send_queue.length then (false, x)
  else (true, { x with send_queue := x.send_queue ++ [p], queued := x.queued ++ [p] })

/-- `requestSendFlush`, all at once. -/
def requestSendFlush (x : Context Z) : Context Z :=
  if x.send_flush_pending then x
  else if x.base then { x with send_flush_pending := true, send_active := true }
  else x

/-- What `flushSendQueue` does with a message. -/
def flushApp (can_send_app : Bool) (x : Context Z) (p : Pending) (type : MessageType)
    (raw : Bytes) : Context Z :=
  if can_send_app then
    { (x.sendNow app type raw).2 with flushed := x.flushed ++ [(p, (x.sendNow app type raw).1)] }
  else { x with flushed := x.flushed ++ [(p, false)] }

/-- What `flushSendQueue` does with one entry; `can_send_app` is of the start. -/
def flushOne (can_send_app : Bool) (x : Context Z) (p : Pending) : Context Z :=
  match p with
  | .text s => flushApp app can_send_app x p .text s
  | .binary b => flushApp app can_send_app x p .binary b
  | .close payload =>
      if x.close_sent then { x with flushed := x.flushed ++ [(p, false)] }
      else if (x.sendNow app .close payload).1 then
        -- `armCloseTimer`
        { (x.sendNow app .close payload).2 with
          close_sent := true
          close_timer := true
          flushed := x.flushed ++ [(p, true)] }
      else { x with flushed := x.flushed ++ [(p, false)] }

/-- `flushSendQueue`. -/
def flushSendQueue (x : Context Z) : Context Z :=
  x.send_queue.foldl (flushOne app (x.connection_state = .connected)) { x with send_queue := [] }

-- ============================================================================
-- Callbacks
-- ============================================================================

def requestWakeup (x : Context Z) : Context Z :=
  if x.base then { x with wakeup_active := true } else x

/-- `stop`, as far as the connection sees it. -/
def stop (x : Context Z) : Context Z := { x with stop_requested := true }.requestWakeup

/-- `sendData` on the event thread. -/
def sendData (x : Context Z) (p : Pending) : Context Z :=
  match p with
  | .close _ => x
  | .text s =>
      if x.connection_state = .connecting then (x.push p).2 else (x.sendNow app .text s).2
  | .binary b =>
      if x.connection_state = .connecting then (x.push p).2 else (x.sendNow app .binary b).2

def call (x : Context Z) : AppCall → Context Z
  | .sendMessage s => x.sendData app (.text s)
  | .sendBinary b => x.sendData app (.binary b)
  | .disconnect => x.stop

/-- One of the application's callbacks is called. -/
def callback (x : Context Z) (cb : Callback) : Context Z :=
  (app.onCallback (x.callbacks ++ [cb])).foldl (call app)
    { x with callbacks := x.callbacks ++ [cb] }

def sendError (x : Context Z) (code : ErrorCode) (message : Bytes) : Context Z :=
  x.callback app (.error code message)

/-- `sendCloseCallback`, which calls at most once. -/
def sendCloseCallback (x : Context Z) (code : Nat) (reason : Bytes) : Context Z :=
  if x.close_cb_fired then x
  else { x with close_cb_fired := true }.callback app (.closed code reason)

-- ============================================================================
-- Closing
-- ============================================================================

/-- `requestLoopExit` on the event thread. -/
def requestLoopExit (x : Context Z) : Context Z :=
  if x.base then { x with stop_requested := true, loopexit := true }
  else { x with stop_requested := true }

def isClosing (x : Context Z) : Bool :=
  x.connection_state = .disconnecting ∨ x.connection_state = .disconnected

/-- The payload of a close frame. -/
def closePayload (code : Nat) (reason : Bytes) : Bytes := beBytes 2 code ++ reason.take 123

/-- `close`. -/
def close (x : Context Z) (code : Nat) (reason : Bytes) : Context Z :=
  if x.isClosing then x
  else if ¬ x.upgraded ∨ ¬ x.base then { x with connection_state := .disconnected }.requestLoopExit
  else
    let x := { x with connection_state := .disconnecting }
    if x.close_sent then x
    else
      match x.push (.close (closePayload code reason)) with
      | (false, x) => x.requestLoopExit
      | (true, x) => x.requestSendFlush

/-- `stopNow`. -/
def stopNow (x : Context Z) : Context Z :=
  if x.isClosing then x
  else if ¬ (x.upgraded ∧ x.base) ∨ x.connection_state ≠ .connected then
    { x with connection_state := .disconnected }.requestLoopExit
  else x.close 1000 (ascii "Normal closure")

-- ============================================================================
-- The sinks of the receiver
-- ============================================================================

/-- `rxIsTerminating`. -/
def rxIsTerminating (x : Context Z) : Bool := x.isClosing || x.stop_requested

def onRxPing (x : Context Z) (payload : Bytes) : Context Z :=
  if x.base then x.send app .pong payload else x

def onRxClose (x : Context Z) (code : Nat) (reason : Bytes) : Context Z :=
  let x := { x with close_received := true }
  (if x.close_sent then x else (x.close code reason).flushSendQueue app).sendCloseCallback app
    code reason

def protocolMessage (closeCode : Nat) (why : String) : Bytes :=
  if closeCode = 1007 then ascii "WebSocket invalid UTF-8 (1007): " ++ ascii why
  else ascii "WebSocket protocol error (" ++ print closeCode ++ ascii "): " ++ ascii why

def onRxProtocolError (x : Context Z) (closeCode : Nat) (why : String) : Context Z :=
  if x.protocol_failed then x
  else
    let x := { x with protocol_failed := true }.sendError app .protocol
      (protocolMessage closeCode why)
    if x.upgraded ∧ x.base then (x.close closeCode (ascii why)).requestSendFlush
    else x.requestLoopExit

/-- `IWebSocketSinks`, as the context implements it. -/
def sinks : Sinks (Context Z) where
  rxCompressionEnabled := use_compression
  rxIsTerminating := rxIsTerminating
  onRxPing := onRxPing app
  onRxClose := onRxClose app
  onRxProtocolError := onRxProtocolError app
  onRxText x s := x.callback app (.message s)
  onRxBinary x b := x.callback app (.binary b)

-- ============================================================================
-- The events of the loop
-- ============================================================================

/-- `timeoutCallback`. -/
def timeoutCallback (x : Context Z) : Context Z :=
  if x.isClosing then x else (x.sendError app .timeout (ascii "Timeout")).requestLoopExit

/-- `sendPing`. -/
def sendPing (x : Context Z) : Context Z :=
  if ¬ x.upgraded ∨ ¬ x.base then x else (x.sendNow app .ping (ascii "ping")).2

/-- `wakeupCallback`. -/
def wakeupCallback (x : Context Z) : Context Z :=
  if ¬ x.base then x else if x.stop_requested then x.stopNow else x.flushSendQueue app

/-- `closeTimerCb`. -/
def closeTimerCb (x : Context Z) : Context Z :=
  if x.close_received then x
  else
    { x.sendCloseCallback app 1000 (ascii "Normal closure") with
      connection_state := .disconnected }.requestLoopExit

end Context

/-- The flags of `handleEvent`, and what the libraries report with them. -/
structure BevEvents where
  error : Bool
  timeout : Bool
  eof : Bool
  /-- `bufferevent_get_openssl_error`, on a secure connection. -/
  sslError : Option Bytes
  /-- `EVUTIL_SOCKET_ERROR` is not zero: its text. -/
  socketError : Option Bytes
deriving DecidableEq, Repr

namespace Context

/-- `send_queue.clear()`. -/
def clearQueue (x : Context Z) : Context Z :=
  { x with send_queue := [], flushed := x.flushed ++ x.send_queue.map fun p => (p, false) }

/-- `handleEvent` for an error, a timeout or the end of the stream. -/
def handleEvent (x : Context Z) (events : BevEvents) : Context Z :=
  let ws_open := x.upgraded
  let graceful := x.close_received || x.close_sent
  let stopping_now := x.stop_requested || x.isClosing
  if stopping_now ∧ (events.error ∨ events.timeout) then x.requestLoopExit
  else if events.error then
    match events.sslError with
    | some err =>
        { x.sendError app .sslError (ascii "TLS error: " ++ err) with
          connection_state := .disconnecting }.requestLoopExit
    | none =>
        let msg := events.socketError.getD (ascii "Connection error")
        let x := x.sendError app (if ws_open then .io else .connectFailed) msg
        let x := if ws_open then x else x.clearQueue
        -- `ws_open && st == DISCONNECTING` is excluded by `stopping_now`
        { x with connection_state := .disconnecting }.requestLoopExit
  else if events.timeout then
    let x :=
      if ws_open then x.sendError app .timeout (ascii "Connection timeout")
      else (x.sendError app .timeout (ascii "Connection/handshake timeout")).clearQueue
    { x with connection_state := .disconnecting }.requestLoopExit
  else if events.eof then
    let x :=
      if ¬ ws_open then
        (x.sendError app .connectFailed
          (ascii "Connection closed during handshake (EOF)")).clearQueue
      else if ¬ graceful then
        { x.sendError app .io
            (ascii "Connection closed without WebSocket CLOSE (abnormal EOF)") with
          connection_state := .disconnecting }
      else x.sendCloseCallback app 1000 (ascii "Normal closure")
    x.requestLoopExit
  else x

/-- `handleEvent` for `BEV_EVENT_CONNECTED`; `tlsError` is what the checks of the
    certificate say. -/
def handleConnected (cfg : Config) (x : Context Z) (tlsError : Option (ErrorCode × Bytes)) :
    Context Z :=
  match tlsError with
  | some (code, message) => (x.sendError app code message).requestLoopExit
  | none => { x with sender := { x.sender with output := x.sender.output ++ handshakeRequest cfg } }

end Context

end Context

end FsBridge.Libwsc
