/-
  FsBridge.Libwsc.Client

  The event loop of the WebSocket client with the threads beside it
  (module/libs/libwsc/src/WebSocketContext.cpp).

  * `run` sets the loop up.  The paths of `run` that fail before the loop is entered
    end the thread at once and are left out.
  * A callback of the loop is one action, but for `onData`, which is one action a
    frame, and for `sendCallback`, which clears `send_flush_pending` as an action of
    its own: another thread may act between the two.  (`LateStop` takes the test at the
    head of the loop of `onData` apart from the frame.)
  * A sender loads the state, pushes, exchanges the flag and activates the event, each
    an action of its own.
  * `stop` is one action: the store of `stop_requested` and the wakeup behind it.
-/

import FsBridge.Libwsc.Context

namespace FsBridge.Libwsc

open FsBridge.Lib

/-- Where the event thread is. -/
inductive EventPc where
  | notStarted
  | idle
  /-- In the loop of `onData`. -/
  | reading
  /-- In `sendCallback`, behind the flush. -/
  | unflag
  | exited
  /-- An exception has left the thread. -/
  | thrown
deriving DecidableEq, Repr

/-- What the transport can still do. -/
inductive Link where
  | connecting
  | up
  | closed
deriving DecidableEq, Repr

/-- Where another thread is in `sendData`. -/
inductive SenderPc where
  | idle
  /-- The state has been loaded; was it `CONNECTING`? -/
  | loaded (connecting : Bool) (p : Pending)
  | pushed
  /-- The flag was not set and is now. -/
  | raised
deriving DecidableEq, Repr

structure Client (Z : Zlib) where
  ctx : Context Z
  receiver : Receiver Z
  /-- The input buffer. -/
  input : Bytes
  pc : EventPc
  link : Link
  senders : Nat → SenderPc

inductive Act where
  | run
  | connected (tlsError : Option (ErrorCode × Bytes))
  | read (seg : Bytes)
  | frame
  | event (events : BevEvents)
  | timeout
  | ping
  | wakeup
  | flush
  | unflag
  | closeTimer
  | exit
  | load (i : Nat) (p : Pending)
  | push (i : Nat)
  | exchange (i : Nat)
  | activate (i : Nat)
  | stop
deriving DecidableEq, Repr

section Client

variable {Z : Zlib} (cfg : Config) (app : App)

namespace Client

/-- A client as it is constructed. -/
def init : Client Z where
  ctx := .init ⟨.default, none⟩
  receiver := .init ⟨.default, none⟩
  input := []
  pc := .notStarted
  link := .connecting
  senders := fun _ => .idle

def set (senders : Nat → SenderPc) (i : Nat) (pc : SenderPc) : Nat → SenderPc :=
  fun j => if j = i then pc else senders j

-- ============================================================================
-- Reading
-- ============================================================================

/-- The response is not accepted. -/
def upgradeFailed (s : Client Z) : Client Z :=
  { s with
    ctx := ({ s.ctx with connection_state := .failed }.sendError app .connectFailed
      (ascii "WebSocket upgrade failed")).requestLoopExit
    input := [] }

/-- The halves of permessage-deflate as the response leaves them; the context is told
    where they cannot be set up. -/
def negotiated (s : Client Z) (resp : Bytes) : Client Z :=
  match negotiate cfg resp with
  | none => { s with ctx := { s.ctx with use_compression := false } }
  | some params =>
      match initializeCompression params with
      | none =>
          { s with
            ctx := { s.ctx with
                use_compression := false
                sender := { s.ctx.sender with deflater := ⟨.default, none⟩ } }.sendError app
              .notSupported (ascii "Compression negotiation failed")
            receiver := { s.receiver with inflater := ⟨.default, none⟩ } }
      | some (inflater, deflater) =>
          { s with
            ctx := { s.ctx with
              use_compression := true
              sender := { s.ctx.sender with deflater := deflater } }
            receiver := { s.receiver with inflater := inflater } }

/-- The response is accepted; its headers are `n` bytes. -/
def upgrade (s : Client Z) (n : Nat) : Client Z :=
  let s := s.negotiated cfg app (s.input.take n)
  { s with
    ctx :=
      { ({ s.ctx with upgraded := true, connection_state := .connected }.flushSendQueue
          app).callback app .opened with timeout_event := false }
    input := s.input.drop n
    pc := if s.input.drop n = [] then .idle else .reading }

/-- `handleRead`, up to the loop of `onData`. -/
def handleRead (s : Client Z) : Client Z :=
  if s.ctx.upgraded then { s with pc := .reading }
  else
    match headerBytes s.input with
    | none => s
    | some n =>
        if upgradeAccepted (s.input.take n) then s.upgrade cfg app n else s.upgradeFailed app

/-- One turn of the loop of `onData`. -/
def onDataTurn (s : Client Z) : Client Z :=
  match Rx.onDataTurn (Context.sinks app) ⟨s.receiver, s.ctx, false⟩ s.input with
  | .wait => { s with pc := .idle }
  | .stop x =>
      { s with
        ctx := x.sinks
        receiver := x.receiver
        pc := if x.thrown then .thrown else .idle }
  | .next x n => { s with ctx := x.sinks, receiver := x.receiver, input := s.input.drop n }

-- ============================================================================
-- The steps
-- ============================================================================

/-- `run`, up to the loop. -/
def start (x : Context Z) : Context Z :=
  { x with connection_state := .connecting, base := true, timeout_event := true }

/-- `cleanup`. -/
def cleanup (x : Context Z) : Context Z :=
  { x with
    base := false
    wakeup_active := false
    send_active := false
    close_timer := false
    timeout_event := false }

def step (s : Client Z) : Act → Option (Client Z)
  | .run => if s.pc = .notStarted then some { s with ctx := start s.ctx, pc := .idle } else none
  | .connected tlsError =>
      if s.pc = .idle ∧ s.link = .connecting then
        some { s with ctx := s.ctx.handleConnected app cfg tlsError, link := .up }
      else none
  | .read seg =>
      if s.pc = .idle ∧ s.link = .up then
        some (handleRead cfg app { s with input := s.input ++ seg })
      else none
  | .frame => if s.pc = .reading then some (s.onDataTurn app) else none
  | .event events =>
      if s.pc = .idle ∧ s.link ≠ .closed ∧ (events.error ∨ events.timeout ∨ events.eof) then
        some { s with
          ctx := s.ctx.handleEvent app events
          link := if events.error ∨ events.eof then .closed else s.link }
      else none
  | .timeout =>
      if s.pc = .idle ∧ s.ctx.timeout_event then
        some { s with ctx := { s.ctx with timeout_event := false }.timeoutCallback app }
      else none
  | .ping =>
      if s.pc = .idle ∧ 0 < cfg.ping_interval then some { s with ctx := s.ctx.sendPing app }
      else none
  | .wakeup =>
      if s.pc = .idle ∧ s.ctx.wakeup_active then
        some { s with ctx := { s.ctx with wakeup_active := false }.wakeupCallback app }
      else none
  | .flush =>
      if s.pc = .idle ∧ s.ctx.send_active then
        some { s with
          ctx := { s.ctx with send_active := false }.flushSendQueue app
          pc := .unflag }
      else none
  | .unflag =>
      if s.pc = .unflag then
        some { s with ctx := { s.ctx with send_flush_pending := false }, pc := .idle }
      else none
  | .closeTimer =>
      if s.pc = .idle ∧ s.ctx.close_timer then
        some { s with ctx := { s.ctx with close_timer := false }.closeTimerCb app }
      else none
  | .exit =>
      if s.pc = .idle ∧ s.ctx.loopexit then
        some { s with ctx := cleanup s.ctx, pc := .exited, link := .closed }
      else none
  | .load i p =>
      match s.senders i, p with
      | .idle, .close _ => none
      | .idle, p =>
          some { s with
            senders := set s.senders i (.loaded (s.ctx.connection_state = .connecting) p) }
      | _, _ => none
  | .push i =>
      match s.senders i with
      | .loaded connecting p =>
          some { s with
            ctx := (s.ctx.push p).2
            senders := set s.senders i
              (if (s.ctx.push p).1 ∧ ¬ connecting then .pushed else .idle) }
      | _ => none
  | .exchange i =>
      if s.senders i = .pushed then
        some { s with
          ctx := { s.ctx with send_flush_pending := true }
          senders := set s.senders i (if s.ctx.send_flush_pending then .idle else .raised) }
      else none
  | .activate i =>
      if s.senders i = .raised then
        some { s with
          ctx := if s.ctx.base then { s.ctx with send_active := true }
            else { s.ctx with send_flush_pending := false }
          senders := set s.senders i .idle }
      else none
  | .stop => some { s with ctx := s.ctx.stop }

/-- The client, any number of other threads, and any schedule of them. -/
def machine : Lib.Machine (Client Z) Act where
  init := init
  step := step cfg app

/-- The client connects, and the response is accepted. -/
def handshake : List Act := [.run, .connected none, .read plainResponse]

/-- A client with a plain configuration and an idle application, behind a schedule. -/
def ran (as : List Act) (h : ((machine (Z := .absent) .plain .idle).run init as).isSome) :
    Client .absent :=
  ((machine .plain .idle).run init as).get h

theorem reachable_ran (as : List Act)
    (h : ((machine (Z := .absent) .plain .idle).run init as).isSome) :
    (machine .plain .idle).Reachable (ran as h) := Lib.Machine.reachable_get h

theorem run_ran {as bs : List Act}
    (h : ((machine (Z := .absent) .plain .idle).run init as).isSome)
    (h' : ((machine (Z := .absent) .plain .idle).run init (as ++ bs)).isSome) :
    (machine .plain .idle).run (ran as h) bs = some (ran (as ++ bs) h') := Lib.Machine.run_get h h'

/-- Bytes that do not get shorter. -/
def noise : Bytes := (List.range 32).map fun i => (200 + i).toUInt8

/-- A client that asks for compression, behind a schedule. -/
def ranDeflate (as : List Act)
    (h : ((machine (Z := .stored) .deflate .idle).run init as).isSome) : Client .stored :=
  ((machine .deflate .idle).run init as).get h

end Client

end Client

end FsBridge.Libwsc
