/-
  FsBridge.Libwsc.LateStop

  A stop that comes while a frame is handled.

  The loop of `onData` looks at the stop at its head only.  Here the test at the head and
  the turn behind it are two actions, and the other threads may act between them.

  * `handleFrame_stop`: a turn does not look at what a stop sets, so a stop behind the test
    might as well have come behind the frame.
  * `client_reachable`: between the two actions nothing leads to a client that the actions
    of `Client` do not lead to.
  * `quiet_after_stop`: once a stop has been requested, at most the message of the frame
    in hand is delivered.
-/

import FsBridge.Libwsc.Inbound

namespace FsBridge.Libwsc

open FsBridge.Lib

-- ============================================================================
-- Sinks that do not look at a change
-- ============================================================================

section Blind

variable {Z : Zlib} {σ : Type*} {sinks : Sinks σ} {g : σ → σ}

/-- No callback of the sinks looks at what `g` changes. -/
structure Sinks.Blind (sinks : Sinks σ) (g : σ → σ) : Prop where
  compression : ∀ s, sinks.rxCompressionEnabled (g s) = sinks.rxCompressionEnabled s
  ping : ∀ s p, sinks.onRxPing (g s) p = g (sinks.onRxPing s p)
  text : ∀ s m, sinks.onRxText (g s) m = g (sinks.onRxText s m)
  binary : ∀ s m, sinks.onRxBinary (g s) m = g (sinks.onRxBinary s m)
  close : ∀ s code reason, sinks.onRxClose (g s) code reason = g (sinks.onRxClose s code reason)
  error : ∀ s code why,
    sinks.onRxProtocolError (g s) code why = g (sinks.onRxProtocolError s code why)

/-- The end of a message. -/
theorem finishMessage_blind (h : sinks.Blind g) (r : Receiver Z) (s : σ) :
    r.finishMessage sinks (g s) = Prod.map id g (r.finishMessage sinks s) := by
  unfold Receiver.finishMessage
  split
  · dsimp only
    rw [h.error, h.text, apply_ite (Prod.map id g)]
    rfl
  · rw [h.binary]
    rfl
  · rw [h.error]
    rfl

theorem collected_blind (h : sinks.Blind g) (r : Receiver Z) (s : σ) (fin : Bool) :
    r.collected sinks (g s) fin = Prod.map id g (r.collected sinks s fin) := by
  unfold Receiver.collected
  rw [apply_ite (Prod.map id g), apply_ite (Prod.map id g), finishMessage_blind h]
  split
  · rfl
  · split
    · split
      · rw [h.error]
        rfl
      · rw [finishMessage_blind h]
    · rfl

/-- A continuation frame. -/
theorem continuation_blind (h : sinks.Blind g) (r : Receiver Z) (s : σ) (payload : Bytes)
    (fin : Bool) :
    r.handleContinuationFrame sinks (g s) payload fin =
      Prod.map id g (r.handleContinuationFrame sinks s payload fin) := by
  unfold Receiver.handleContinuationFrame
  dsimp only
  rw [apply_ite (Prod.map id g), h.error, h.error, collected_blind h, apply_ite (Prod.map id g)]
  rfl

theorem wholeMessage_blind (h : sinks.Blind g) (r : Receiver Z) (s : σ) (opcode : Nat)
    (message : Bytes) :
    r.wholeMessage sinks (g s) opcode message =
      Prod.map id g (r.wholeMessage sinks s opcode message) := by
  unfold Receiver.wholeMessage
  dsimp only
  rw [h.error, h.text, h.binary, h.error]
  simp only [apply_ite (Prod.map id g)]
  rfl

/-- A data frame that is no continuation. -/
theorem dataFrame_blind (h : sinks.Blind g) (r : Receiver Z) (s : σ) (payload : Bytes)
    (fin : Bool) (opcode : Nat) (rsv1 : Bool) :
    r.handleDataFrame sinks (g s) payload fin opcode rsv1 =
      Prod.map id g (r.handleDataFrame sinks s payload fin opcode rsv1) := by
  unfold Receiver.handleDataFrame
  dsimp only
  rw [h.compression, h.error, h.error, wholeMessage_blind h]
  split
  · rfl
  · split
    · -- a first fragment
      split
      · split <;> rfl
      · rfl
    · split
      · split
        · rw [h.error]
          rfl
        · exact wholeMessage_blind h _ s opcode _
      · rfl

theorem ping_blind (h : sinks.Blind g) (s : σ) (payload : Bytes) :
    handlePingFrame sinks (g s) payload = g (handlePingFrame sinks s payload) := by
  unfold handlePingFrame
  rw [h.error, h.ping, apply_ite g]

namespace Rx

/-- The receiver, with its sinks changed. -/
def onSinks (g : σ → σ) (x : Rx Z σ) : Rx Z σ := { x with sinks := g x.sinks }

/-- What a turn comes to, with the sinks changed. -/
def turnOn (g : σ → σ) : Consumer.Turn (Rx Z σ) → Consumer.Turn (Rx Z σ)
  | .wait => .wait
  | .stop x => .stop (x.onSinks g)
  | .next x n => .next (x.onSinks g) n

/-- A protocol error of the loop itself. -/
theorem fail_blind (h : sinks.Blind g) (x : Rx Z σ) (why : String) :
    (x.onSinks g).fail sinks why = turnOn g (x.fail sinks why) :=
  congrArg (fun s => Consumer.Turn.stop (⟨x.receiver, s, x.thrown⟩ : Rx Z σ))
    (h.error x.sinks 1002 why)

/-- A frame of any opcode. -/
theorem dispatch_blind (h : sinks.Blind g) (x : Rx Z σ) (opcode : Nat) (fin rsv1 : Bool)
    (payload : Bytes) (need : Nat) :
    (x.onSinks g).dispatch sinks opcode fin rsv1 payload need =
      turnOn g (x.dispatch sinks opcode fin rsv1 payload need) := by
  unfold dispatch onSinks
  split
  · dsimp only
    rw [continuation_blind h]
    rfl
  · dsimp only
    rw [dataFrame_blind h]
    rfl
  · dsimp only
    rw [dataFrame_blind h]
    rfl
  · dsimp only
    rw [h.close]
    rfl
  · dsimp only
    rw [ping_blind h]
    rfl
  · rfl
  · exact fail_blind h x "Unsupported opcode"

theorem wholeFrame_blind (h : sinks.Blind g) (x : Rx Z σ) (buf : Bytes) (opcode : Nat)
    (fin rsv1 : Bool) (header_len payload_len : Nat) :
    (x.onSinks g).wholeFrame sinks buf opcode fin rsv1 header_len payload_len =
      turnOn g (x.wholeFrame sinks buf opcode fin rsv1 header_len payload_len) := by
  unfold wholeFrame
  dsimp only
  rw [fail_blind h, fail_blind h, dispatch_blind h]
  simp only [apply_ite (turnOn g)]
  rfl

/-- A turn behind the test makes the same of sinks that are changed. -/
theorem frameTurn_blind (h : sinks.Blind g) (x : Rx Z σ) (buf : Bytes) :
    (x.onSinks g).frameTurn sinks buf = turnOn g (x.frameTurn sinks buf) := by
  unfold frameTurn
  split
  · dsimp only
    rw [fail_blind h, fail_blind h, fail_blind h, wholeFrame_blind h, wholeFrame_blind h,
      wholeFrame_blind h, show (x.onSinks g).sinks = g x.sinks from rfl, h.compression]
    simp only [apply_ite (turnOn g)]
    rfl
  · rfl

end Rx

end Blind

-- ============================================================================
-- What a stop sets
-- ============================================================================

section LateStop

variable {Z : Zlib} {app : App} {cfg : Config}

namespace Context

/-- A stop sets its flag, and the wakeup where there is a loop. -/
theorem stop_eq (x : Context Z) : x.stop =
    { x with stop_requested := true, wakeup_active := x.wakeup_active || x.base } := by
  unfold stop requestWakeup
  dsimp only
  split <;> rename_i hbase
  · rw [hbase, Bool.or_true]
  · rw [Bool.eq_false_iff.mpr hbase, Bool.or_false]

/-- Whether a message is sent at once does not depend on a stop. -/
theorem sendNow_stop (x : Context Z) (type : MessageType) (raw : Bytes) :
    x.stop.sendNow app type raw = ((x.sendNow app type raw).1, (x.sendNow app type raw).2.stop) := by
  simp only [stop_eq]
  unfold sendNow
  dsimp only
  split
  · rfl
  · split
    · rfl
    · split <;> rfl

theorem push_stop (x : Context Z) (p : Pending) :
    x.stop.push p = ((x.push p).1, (x.push p).2.stop) := by
  simp only [stop_eq]
  unfold push
  dsimp only
  split <;> rfl

theorem requestSendFlush_stop (x : Context Z) : x.stop.requestSendFlush = x.requestSendFlush.stop := by
  simp only [stop_eq]
  unfold requestSendFlush
  dsimp only
  split
  · rfl
  · split <;> rfl

theorem flushApp_stop (can_send_app : Bool) (x : Context Z) (p : Pending) (type : MessageType)
    (raw : Bytes) :
    flushApp app can_send_app x.stop p type raw = (flushApp app can_send_app x p type raw).stop := by
  unfold flushApp
  rw [sendNow_stop]
  simp only [stop_eq]
  split <;> rfl

/-- Nor what a flush does with an entry. -/
theorem flushOne_stop (can_send_app : Bool) (x : Context Z) (p : Pending) :
    flushOne app can_send_app x.stop p = (flushOne app can_send_app x p).stop := by
  cases p with
  | text s => exact flushApp_stop can_send_app x (.text s) .text s
  | binary b => exact flushApp_stop can_send_app x (.binary b) .binary b
  | close payload =>
      unfold flushOne
      dsimp only
      rw [sendNow_stop]
      simp only [stop_eq]
      split
      · rfl
      · split <;> rfl

/-- Nor what a flush sends. -/
theorem flushSendQueue_stop (x : Context Z) :
    x.stop.flushSendQueue app = (x.flushSendQueue app).stop := by
  have hempty : ({ x.stop with send_queue := [] } : Context Z) =
      ({ x with send_queue := [] } : Context Z).stop := by
    rw [stop_eq, stop_eq]
  unfold flushSendQueue
  rw [hempty]
  have hstate : x.stop.connection_state = x.connection_state := by rw [stop_eq]
  have hqueue : x.stop.send_queue = x.send_queue := by rw [stop_eq]
  rw [hstate, hqueue]
  exact List.foldl_hom stop fun y p => flushOne_stop _ y p

/-- Nor what the application does in a callback. -/
theorem call_stop (x : Context Z) (c : AppCall) : x.stop.call app c = (x.call app c).stop := by
  have hsend : ∀ p, x.stop.sendData app p = (x.sendData app p).stop := by
    intro p
    have hstate : x.stop.connection_state = x.connection_state := by rw [stop_eq]
    unfold sendData
    rw [hstate]
    cases p with
    | close payload => rfl
    | text s =>
        dsimp only
        rw [push_stop, sendNow_stop]
        split <;> rfl
    | binary b =>
        dsimp only
        rw [push_stop, sendNow_stop]
        split <;> rfl
  cases c with
  | sendMessage s => exact hsend (.text s)
  | sendBinary b => exact hsend (.binary b)
  | disconnect => rfl

/-- A callback may be called before a stop as well as behind it. -/
theorem callback_stop (x : Context Z) (cb : Callback) :
    x.stop.callback app cb = (x.callback app cb).stop := by
  have hlog : ({ x.stop with callbacks := x.stop.callbacks ++ [cb] } : Context Z) =
      ({ x with callbacks := x.callbacks ++ [cb] } : Context Z).stop := by
    rw [stop_eq, stop_eq]
  have hcallbacks : x.stop.callbacks = x.callbacks := by rw [stop_eq]
  unfold callback
  rw [hlog, hcallbacks]
  exact List.foldl_hom stop fun y c => call_stop y c

theorem sendCloseCallback_stop (x : Context Z) (code : Nat) (reason : Bytes) :
    x.stop.sendCloseCallback app code reason = (x.sendCloseCallback app code reason).stop := by
  have hfired : x.stop.close_cb_fired = x.close_cb_fired := by rw [stop_eq]
  have hset : ({ x.stop with close_cb_fired := true } : Context Z) =
      ({ x with close_cb_fired := true } : Context Z).stop := by
    rw [stop_eq, stop_eq]
  unfold sendCloseCallback
  rw [hfired, hset, callback_stop, apply_ite stop]

theorem requestLoopExit_stop (x : Context Z) : x.stop.requestLoopExit = x.requestLoopExit.stop := by
  simp only [stop_eq]
  unfold requestLoopExit
  dsimp only
  split <;> rfl

/-- A close may be started before a stop as well as behind it. -/
theorem close_stop (x : Context Z) (code : Nat) (reason : Bytes) :
    x.stop.close code reason = (x.close code reason).stop := by
  simp only [stop_eq]
  unfold close isClosing
  dsimp only
  split
  · rfl
  · split
    · unfold requestLoopExit
      dsimp only
      split <;> rfl
    · split
      · rfl
      · unfold push
        dsimp only
        by_cases hfull : maxQueueSize ≤ x.send_queue.length
        · rw [if_pos hfull, if_pos hfull]
          unfold requestLoopExit
          dsimp only
          split <;> rfl
        · rw [if_neg hfull, if_neg hfull]
          unfold requestSendFlush
          dsimp only
          split
          · rfl
          · split <;> rfl

/-- So may the close of the peer be taken. -/
theorem onRxClose_stop (x : Context Z) (code : Nat) (reason : Bytes) :
    x.stop.onRxClose app code reason = (x.onRxClose app code reason).stop := by
  have hset : ({ x.stop with close_received := true } : Context Z) =
      ({ x with close_received := true } : Context Z).stop := by
    rw [stop_eq, stop_eq]
  have hbody : ∀ y : Context Z,
      (if y.stop.close_sent then y.stop else (y.stop.close code reason).flushSendQueue
        app).sendCloseCallback app code reason =
      ((if y.close_sent then y else (y.close code reason).flushSendQueue
        app).sendCloseCallback app code reason).stop := by
    intro y
    rw [close_stop, flushSendQueue_stop, show y.stop.close_sent = y.close_sent by rw [stop_eq],
      ← apply_ite stop, sendCloseCallback_stop]
  exact (congrArg (fun y : Context Z => (if y.close_sent then y else
    (y.close code reason).flushSendQueue app).sendCloseCallback app code reason) hset).trans
      (hbody _)

/-- And an error of the peer. -/
theorem onRxProtocolError_stop (x : Context Z) (closeCode : Nat) (why : String) :
    x.stop.onRxProtocolError app closeCode why = (x.onRxProtocolError app closeCode why).stop := by
  have hset : ({ x.stop with protocol_failed := true } : Context Z) =
      ({ x with protocol_failed := true } : Context Z).stop := by
    rw [stop_eq, stop_eq]
  have hbody : ∀ y : Context Z,
      (if y.stop.upgraded ∧ y.stop.base then
        (y.stop.close closeCode (ascii why)).requestSendFlush else y.stop.requestLoopExit) =
      (if y.upgraded ∧ y.base then (y.close closeCode (ascii why)).requestSendFlush
        else y.requestLoopExit).stop := by
    intro y
    rw [close_stop, requestSendFlush_stop, requestLoopExit_stop,
      show y.stop.upgraded = y.upgraded by rw [stop_eq], show y.stop.base = y.base by rw [stop_eq],
      apply_ite stop]
  have hfailed : x.stop.protocol_failed = x.protocol_failed := by rw [stop_eq]
  unfold onRxProtocolError
  rw [hfailed]
  split
  · rfl
  · have herror := (congrArg (fun y : Context Z => y.sendError app .protocol
      (protocolMessage closeCode why)) hset).trans (callback_stop _ _)
    exact (congrArg (fun y : Context Z => if y.upgraded ∧ y.base then
      (y.close closeCode (ascii why)).requestSendFlush else y.requestLoopExit) herror).trans
        (hbody _)

/-- No callback of the context looks at what a stop sets. -/
theorem sinks_blind : (sinks app).Blind (stop : Context Z → Context Z) where
  compression x := by
    show x.stop.use_compression = x.use_compression
    rw [stop_eq]
  ping x p := by
    show x.stop.onRxPing app p = (x.onRxPing app p).stop
    simp only [stop_eq]
    unfold onRxPing
    dsimp only
    split <;> rfl
  text x m := callback_stop x (.message m)
  binary x m := callback_stop x (.binary m)
  close x code reason := onRxClose_stop x code reason
  error x code why := onRxProtocolError_stop x code why

end Context

-- ============================================================================
-- The turn of onData in two actions
-- ============================================================================

namespace Client

/-- What a turn comes to. -/
def after (s : Client Z) : Consumer.Turn (Rx Z (Context Z)) → Client Z
  | .wait => { s with pc := .idle }
  | .stop x =>
      { s with
        ctx := x.sinks
        receiver := x.receiver
        pc := if x.thrown then .thrown else .idle }
  | .next x n => { s with ctx := x.sinks, receiver := x.receiver, input := s.input.drop n }

/-- One turn of the loop of `onData`, behind the test. -/
def handleFrame (app : App) (s : Client Z) : Client Z :=
  s.after (Rx.frameTurn (Context.sinks app) ⟨s.receiver, s.ctx, false⟩ s.input)

/-- A stop, and nothing else. -/
def stopped (s : Client Z) : Client Z := { s with ctx := s.ctx.stop }

/-- A turn is the test and what is behind it. -/
theorem onDataTurn_eq (s : Client Z) : s.onDataTurn app =
    if s.ctx.rxIsTerminating then { s with pc := .idle } else s.handleFrame app := by
  have hturn : s.onDataTurn app =
      s.after (Rx.onDataTurn (Context.sinks app) ⟨s.receiver, s.ctx, false⟩ s.input) := by
    unfold onDataTurn
    split <;> rename_i hturn <;> rw [hturn] <;> rfl
  rw [hturn, Rx.onDataTurn, if_neg Bool.false_ne_true]
  by_cases hterm : s.ctx.rxIsTerminating = true
  · rw [if_pos (show (Context.sinks app).rxIsTerminating s.ctx = true from hterm), if_pos hterm]
    rfl
  · rw [if_neg (show ¬ (Context.sinks app).rxIsTerminating s.ctx = true from hterm), if_neg hterm]
    rfl

/-- A stop behind the test might as well have come behind the frame. -/
theorem handleFrame_stop (s : Client Z) : s.stopped.handleFrame app = (s.handleFrame app).stopped := by
  have hblind := Rx.frameTurn_blind (@Context.sinks_blind Z app)
    (⟨s.receiver, s.ctx, false⟩ : Rx Z (Context Z)) s.input
  unfold handleFrame
  refine (congrArg s.stopped.after hblind).trans ?_
  generalize Rx.frameTurn (Context.sinks app) ⟨s.receiver, s.ctx, false⟩ s.input = turn
  cases turn with
  | wait | stop x | next x n => rfl

end Client

/-- The client, with the turn of `onData` in two actions; `inHand`: the test has been
    passed, and the frame is handled whatever comes. -/
structure Split (Z : Zlib) where
  client : Client Z
  inHand : Bool

inductive SplitAct where
  /-- The test at the head of the loop. -/
  | test
  | handle
  /-- An action of the client that is no turn. -/
  | other (a : Act)
deriving DecidableEq, Repr

namespace Split

open Context Client

def init : Split Z := ⟨.init, false⟩

def step (cfg : Config) (app : App) (s : Split Z) : SplitAct → Option (Split Z)
  | .test =>
      if s.inHand = false ∧ s.client.pc = .reading then
        some (if s.client.ctx.rxIsTerminating then ⟨{ s.client with pc := .idle }, false⟩
          else ⟨s.client, true⟩)
      else none
  | .handle => if s.inHand = true then some ⟨s.client.handleFrame app, false⟩ else none
  | .other a =>
      if a = .frame then none else (s.client.step cfg app a).map fun client => ⟨client, s.inHand⟩

def machine (cfg : Config) (app : App) : Lib.Machine (Split Z) SplitAct where
  init := init
  step := step cfg app

/-- The client of a state: it has been reached by turns in one action, or by such and a
    stop that has come behind the test. -/
inductive Behind (cfg : Config) (app : App) : Split Z → Prop where
  | head {c : Client Z} (h : (Client.machine cfg app).Reachable c) : Behind cfg app ⟨c, false⟩
  | inHand {c : Client Z} (h : (Client.machine cfg app).Reachable c) (hpc : c.pc = .reading)
      (hrun : c.ctx.rxIsTerminating = false) : Behind cfg app ⟨c, true⟩
  | late {c : Client Z} (h : (Client.machine cfg app).Reachable c) (hpc : c.pc = .reading)
      (hrun : c.ctx.rxIsTerminating = false) : Behind cfg app ⟨c.stopped, true⟩

/-- A stop may come in every state. -/
theorem stopped_reachable {c : Client Z} (h : (Client.machine cfg app).Reachable c) :
    (Client.machine cfg app).Reachable c.stopped :=
  @Lib.Machine.Reachable.step _ _ _ _ _ .stop h rfl

/-- The client of a state is one of `Client`, whatever has come between. -/
theorem Behind.reachable {s : Split Z} (h : Behind cfg app s) :
    (Client.machine cfg app).Reachable s.client := by
  cases h with
  | head h => exact h
  | inHand h hpc hrun => exact h
  | late h hpc hrun => exact stopped_reachable h

/-- A second stop changes nothing. -/
theorem stopped_stopped (c : Client Z) : c.stopped.stopped = c.stopped := by
  unfold stopped
  simp only [stop_eq, Bool.or_assoc, Bool.or_self]

/-- Between the test and the turn only other threads act, and they leave the test as it
    is, or stop the client. -/
theorem beside_step {c c' : Client Z} {a : Act} (hpc : c.pc = .reading) (ha : a ≠ .frame)
    (hstep : c.step cfg app a = some c') :
    c' = c.stopped ∨ c'.pc = .reading ∧ c'.ctx.rxIsTerminating = c.ctx.rxIsTerminating := by
  cases a with
  | frame => exact absurd rfl ha
  | run | connected | read | event | timeout | ping | wakeup | flush | unflag | closeTimer | exit =>
      simp [Client.step, hpc] at hstep
  | load i p =>
      simp only [Client.step] at hstep
      split at hstep <;> cases hstep
      exact .inr ⟨hpc, rfl⟩
  | push i =>
      simp only [Client.step] at hstep
      split at hstep <;> cases hstep
      refine .inr ⟨hpc, ?_⟩
      dsimp only
      unfold push
      split <;> rfl
  | exchange i =>
      obtain ⟨-, rfl⟩ := Lib.Machine.of_guard hstep
      exact .inr ⟨hpc, rfl⟩
  | activate i =>
      obtain ⟨-, rfl⟩ := Lib.Machine.of_guard hstep
      refine .inr ⟨hpc, ?_⟩
      dsimp only
      split <;> rfl
  | stop => exact .inl (Option.some.inj hstep).symm

/-- What the other threads do commutes with a stop. -/
theorem step_stopped {c : Client Z} {a : Act} (hpc : c.pc = .reading) (ha : a ≠ .frame) :
    c.stopped.step cfg app a = (c.step cfg app a).map stopped := by
  cases a with
  | frame => exact absurd rfl ha
  | run | connected | read | event | timeout | ping | wakeup | flush | unflag | closeTimer | exit =>
      simp [Client.step, stopped, hpc]
  | load i p =>
      cases hsender : c.senders i with
      | idle => cases p <;> simp [Client.step, stopped, hsender, stop_eq]
      | loaded connecting q | pushed | raised => simp [Client.step, stopped, hsender]
  | push i =>
      cases hsender : c.senders i with
      | loaded connecting p => simp [Client.step, stopped, hsender, push_stop]
      | idle | pushed | raised => simp [Client.step, stopped, hsender]
  | exchange i =>
      by_cases hsender : c.senders i = .pushed
      · simp [Client.step, stopped, hsender, stop_eq]
      · simp [Client.step, stopped, hsender]
  | activate i =>
      by_cases hsender : c.senders i = .raised
      · cases hbase : c.ctx.base <;> simp [Client.step, stopped, hsender, stop_eq, hbase]
      · simp [Client.step, stopped, hsender]
  | stop => rfl

/-- Each action of the two leads to a client of `Client`. -/
theorem behind_step {s s' : Split Z} {a : SplitAct} (h : Behind cfg app s)
    (hstep : (machine cfg app).step s a = some s') : Behind cfg app s' := by
  cases a with
  | test =>
      obtain ⟨⟨hout, hpc⟩, rfl⟩ := Lib.Machine.of_guard hstep
      cases h with
      | inHand | late => cases hout
      | @head c h =>
          by_cases hterm : c.ctx.rxIsTerminating = true
          · rw [if_pos hterm]
            have hturn : (Client.machine cfg app).step c .frame =
                some { c with pc := .idle } := by
              refine (if_pos hpc).trans (congrArg some ?_)
              rw [onDataTurn_eq, if_pos hterm]
            exact .head (h.step hturn)
          · rw [if_neg hterm]
            exact .inHand h hpc (Bool.eq_false_iff.mpr hterm)
  | handle =>
      obtain ⟨hin, rfl⟩ := Lib.Machine.of_guard hstep
      have hturn : ∀ c : Client Z, c.pc = .reading → c.ctx.rxIsTerminating = false →
          (Client.machine cfg app).step c .frame = some (c.handleFrame app) := by
        intro c hpc hrun
        refine (if_pos hpc).trans (congrArg some ?_)
        rw [onDataTurn_eq, if_neg (by simp [hrun])]
      cases h with
      | head h => cases hin
      | @inHand c h hpc hrun => exact .head (h.step (hturn c hpc hrun))
      | @late c h hpc hrun =>
          rw [show (⟨c.stopped, true⟩ : Split Z).client = c.stopped from rfl, handleFrame_stop]
          exact .head (stopped_reachable (h.step (hturn c hpc hrun)))
  | other a =>
      by_cases ha : a = .frame
      · rw [show (machine cfg app).step s (.other a) = none from if_pos ha] at hstep
        cases hstep
      · rw [show (machine cfg app).step s (.other a) = _ from if_neg ha] at hstep
        obtain ⟨c', hc', rfl⟩ := Option.map_eq_some_iff.mp hstep
        cases h with
        | head h => exact .head (h.step hc')
        | @inHand c h hpc hrun =>
            rcases beside_step hpc ha hc' with rfl | ⟨hpc', hsame⟩
            · exact .late h hpc hrun
            · exact .inHand (h.step hc') hpc' (hsame.trans hrun)
        | @late c h hpc hrun =>
            -- the action first, and then the stop
            obtain ⟨c₁, hc₁, rfl⟩ := Option.map_eq_some_iff.mp ((step_stopped hpc ha).symm.trans hc')
            rcases beside_step hpc ha hc₁ with rfl | ⟨hpc', hsame⟩
            · rw [stopped_stopped]
              exact .late h hpc hrun
            · exact .late (h.step hc₁) hpc' (hsame.trans hrun)

theorem behind_of_reachable {s : Split Z} (h : (machine cfg app).Reachable s) :
    Behind cfg app s :=
  h.invariant (.head ⟨[], rfl⟩) fun _ _ _ hs hstep => behind_step hs hstep

/-- The test and the turn make what a turn in one action makes. -/
theorem frame_of_split {c c' : Client Z} (hstep : (Client.machine cfg app).step c .frame = some c') :
    ∃ as, (machine cfg app).run ⟨c, false⟩ as = some ⟨c', false⟩ := by
  obtain ⟨hpc, rfl⟩ := Lib.Machine.of_guard hstep
  rw [onDataTurn_eq]
  by_cases hterm : c.ctx.rxIsTerminating = true
  · refine ⟨[.test], ?_⟩
    rw [if_pos hterm]
    refine Lib.Machine.run_cons_of_step ((if_pos ⟨rfl, hpc⟩).trans ?_) []
    rw [if_pos hterm]
  · refine ⟨[.test, .handle], ?_⟩
    rw [if_neg hterm]
    have htest : (machine cfg app).step (⟨c, false⟩ : Split Z) .test = some ⟨c, true⟩ := by
      refine (if_pos ⟨rfl, hpc⟩).trans ?_
      rw [if_neg hterm]
    have hhandle : (machine cfg app).step (⟨c, true⟩ : Split Z) .handle =
        some ⟨c.handleFrame app, false⟩ := rfl
    rw [Lib.Machine.run_cons_of_step htest]
    exact Lib.Machine.run_cons_of_step hhandle []

/-- The two actions lead to the clients that the one leads to, and to no others. -/
theorem client_reachable (c : Client Z) :
    (∃ inHand, (machine cfg app).Reachable ⟨c, inHand⟩) ↔
      (Client.machine cfg app).Reachable c := by
  constructor
  · rintro ⟨inHand, h⟩
    exact (behind_of_reachable h).reachable
  · intro h
    refine ⟨false, h.invariant (I := fun c => (machine cfg app).Reachable ⟨c, false⟩) ⟨[], rfl⟩
      fun c a c' hc hstep => ?_⟩
    by_cases ha : a = .frame
    · subst ha
      obtain ⟨as, has⟩ := frame_of_split hstep
      obtain ⟨bs, hbs⟩ := hc
      exact ⟨bs ++ as, (Lib.Machine.run_append hbs as).trans has⟩
    · have hother : (machine cfg app).step (⟨c, false⟩ : Split Z) (.other a) = some ⟨c', false⟩ := by
        refine (if_neg ha).trans ?_
        rw [show c.step cfg app a = some c' from hstep]
        rfl
      exact hc.step hother

end Split

-- ============================================================================
-- Messages and the stop
-- ============================================================================

namespace Context

/-- A stop has been requested, and the messages are those there were. -/
structure Deaf (messages : List Callback) (x : Context Z) : Prop where
  stopped : x.stop_requested = true
  messages : x.messages = messages

variable {messages : List Callback}

theorem Deaf.keep {x x' : Context Z} (h : Deaf messages x)
    (hstop : x.stop_requested = true → x'.stop_requested = true)
    (hcallbacks : x'.callbacks = x.callbacks) : Deaf messages x' :=
  ⟨hstop h.stopped, (congrArg (List.filter Callback.isMessage) hcallbacks).trans h.messages⟩

theorem Deaf.sameState {x x' : Context Z} (h : Deaf messages x) (hsame : SameState x x') :
    Deaf messages x' := h.keep hsame.stop_requested hsame.callbacks

theorem Deaf.silent {x x' : Context Z} (h : Deaf messages x) (hs : Silent x x') :
    Deaf messages x' := h.keep hs.stop_requested hs.callbacks

/-- The event thread delivers nothing behind a stop, but for a turn in hand. -/
theorem Deaf.acts {x x' : Context Z} (h : Deaf messages x) (hacts : Acts app x x') :
    Deaf messages x' := by
  refine hacts.keeps (P := Deaf messages) (fun y y' hy hact => ?_) h
  cases hact with
  | call y' hcall => exact hy.sameState hcall.quiet1.sameState
  | log cb hmessage =>
      have hnone : cb.isMessage = false := by
        by_contra hcb
        have hrun := hmessage (Bool.not_eq_false _ ▸ hcb)
        rw [rxIsTerminating, hy.stopped, Bool.or_true] at hrun
        exact absurd hrun (by decide)
      refine ⟨hy.stopped, ?_⟩
      show (y.callbacks ++ [cb]).filter Callback.isMessage = messages
      rw [List.filter_append, List.filter_singleton, hnone]
      exact (List.append_nil _).trans hy.messages
  | note y' hnotes =>
      obtain ⟨-, -, -, -, hrest⟩ := hnotes
      rw [hrest]
      exact hy.keep id rfl
  | exit => exact hy.silent (silent_requestLoopExit y)
  | abort state hstate =>
      exact hy.silent ((silent_closing y hstate).trans (silent_requestLoopExit _))
  | close payload hlen hup hbase hopen hsent hroom =>
      have hdisconnecting : Silent y { y with connection_state := .disconnecting } :=
        silent_closing y (.inl rfl)
      exact hy.silent ((hdisconnecting.trans (silent_queue _ _ _ _)).trans
        (@quiet_requestSendFlush Z app _).silent)
  | closeAgain hopen hsent => exact hy.silent (silent_closing y (.inl rfl))
  | requestFlush hclosing => exact hy.sameState (@quiet_requestSendFlush Z app y).sameState
  | flush hclosing => exact hy.sameState (quiet_flushSendQueue y).sameState
  | clearQueue hup => exact hy.keep id rfl

end Context

namespace Client

open Context

/-- Nor does any step of the client. -/
theorem deaf_step {messages : List Callback} {s s' : Client Z} {a : Act}
    (h : Deaf messages s.ctx) (hstep : Stepped cfg app s a s') : Deaf messages s'.ctx := by
  cases hstep with
  | run hpc heq | request hpc hlink heq | unflag hpc heq | exit hpc hexit heq =>
      rw [heq]
      exact h.keep id rfl
  | load i p ha hp hidle heq | exchange i ha hpushed heq =>
      rw [heq]
      exact h.keep id rfl
  | failed hpc hup hacts hpc' hsenders =>
      exact Deaf.acts (x := { s.ctx with connection_state := .failed }) (h.keep id rfl) hacts
  | opened hpc hup y hy hctx hpc' hsenders =>
      rw [hctx]
      obtain ⟨x₀, hx₀, hacts⟩ := hy.acts
      have hfresh : Deaf messages x₀ := by
        rw [hx₀]
        exact h.keep id rfl
      have hdeaf := hfresh.acts hacts
      have hconnected : Deaf messages { y with
          upgraded := true
          connection_state := .connected } := hdeaf.keep id rfl
      have hflushed := hconnected.sameState (@quiet_flushSendQueue Z app _).sameState
      exact (hflushed.acts (acts_callback _ .opened fun hc => (by cases hc))).keep id rfl
  | acts x hpc hx hacts hpc' hsenders htimer hwakeup =>
      refine Deaf.acts ?_ hacts
      cases hx <;> exact h.keep id rfl
  | flush hpc hactive heq =>
      rw [heq]
      have htaken : Deaf messages { s.ctx with send_active := false } := h.keep id rfl
      exact htaken.sameState (quiet_flushSendQueue _).sameState
  | push i connecting p ha hp hloaded heq =>
      rw [heq]
      exact h.sameState (@Quiet1.push Z app _ p hp).sameState
  | activate i ha hraised heq =>
      rw [heq]
      dsimp only
      split <;> exact h.keep id rfl
  | stop ha heq =>
      rw [heq]
      exact h.sameState (@quiet_stop Z app s.ctx).sameState

/-- A turn delivers one message at most. -/
theorem messages_onDataTurn {c : Client Z} (hrun : c.ctx.rxIsTerminating = false) :
    (c.onDataTurn app).ctx.messages = c.ctx.messages ∨
      ∃ m, (c.onDataTurn app).ctx.messages = c.ctx.messages ++ [m] := by
  have hended : ¬ Rx.Ended (Context.sinks app) (⟨c.receiver, c.ctx, false⟩ : Rx Z (Context Z)) := by
    rintro (hthrown | hterm)
    · cases hthrown
    · exact absurd (hterm.symm.trans hrun) (by decide)
  have hgoes : ∀ {e : Event}, ¬ e.IsLast →
      ((Context.sinks app).on c.ctx e).messages = c.ctx.messages ++ e.message.toList :=
    fun he => congrArg Prod.fst (@brought_on Z app c.ctx _ he)
  unfold Client.onDataTurn
  rcases Rx.onDataTurn_cases hended c.input with hwait | ⟨why, hfail⟩ | hthrow |
    ⟨x', n, -, htold, -, -, hnext⟩
  · rw [hwait]
    exact .inl rfl
  · have hturn := hfail []
    rw [List.append_nil] at hturn
    rw [hturn]
    exact .inl (@messages_on_last Z app c.ctx (.error 1002 why) trivial)
  · have hturn := hthrow []
    rw [List.append_nil] at hturn
    rw [hturn]
    exact .inl rfl
  · have hturn := hnext []
    rw [List.append_nil] at hturn
    rw [hturn]
    dsimp only
    generalize x'.sinks = y at htold ⊢
    cases htold with
    | nothing => exact .inl rfl
    | ping p => exact .inl ((hgoes (e := .ping p) id).trans (List.append_nil _))
    | text m => exact .inr ⟨_, hgoes (e := .text m) id⟩
    | binary m => exact .inr ⟨_, hgoes (e := .binary m) id⟩
    | close code reason => exact .inl (@messages_on_last Z app c.ctx (.close code reason) trivial)
    | error code why => exact .inl (@messages_on_last Z app c.ctx (.error code why) trivial)

end Client

namespace Split

open Context Client

/-- What has been delivered since a stop was requested: nothing, or the message of the
    frame that was in hand then. -/
structure Late (s t : Split Z) : Prop where
  stopped : t.client.ctx.stop_requested = true
  told : t.inHand = s.inHand ∧ t.client.ctx.messages = s.client.ctx.messages ∨
    s.inHand = true ∧ t.inHand = false ∧ (t.client.ctx.messages = s.client.ctx.messages ∨
      ∃ m, t.client.ctx.messages = s.client.ctx.messages ++ [m])

/-- The turn of a frame that was in hand when the stop came. -/
theorem handle_stopped {t : Split Z} (h : Behind cfg app t) (hin : t.inHand = true)
    (hstop : t.client.ctx.stop_requested = true) :
    (t.client.handleFrame app).ctx.stop_requested = true ∧
      ((t.client.handleFrame app).ctx.messages = t.client.ctx.messages ∨
        ∃ m, (t.client.handleFrame app).ctx.messages = t.client.ctx.messages ++ [m]) := by
  have hsame : ∀ c : Client Z, c.stopped.ctx.stop_requested = true ∧
      c.stopped.ctx.messages = c.ctx.messages := by
    intro c
    show c.ctx.stop.stop_requested = true ∧ c.ctx.stop.messages = c.ctx.messages
    rw [stop_eq]
    exact ⟨rfl, rfl⟩
  cases h with
  | head h => cases hin
  | @inHand c h hpc hrun =>
      rw [rxIsTerminating, show c.ctx.stop_requested = true from hstop, Bool.or_true] at hrun
      exact absurd hrun (by decide)
  | @late c h hpc hrun =>
      have hturn := @onDataTurn_eq Z app c
      rw [if_neg (by simp [hrun])] at hturn
      dsimp only
      rw [handleFrame_stop, ← hturn, (hsame _).2, (hsame _).2]
      exact ⟨(hsame _).1, messages_onDataTurn hrun⟩

/-- What is delivered behind a stop is at most the message of the frame in hand. -/
theorem late_step {s t t' : Split Z} {a : SplitAct} (hbehind : Behind cfg app t)
    (h : Late s t) (hstep : (machine cfg app).step t a = some t') : Late s t' := by
  cases a with
  | test =>
      obtain ⟨⟨hout, hpc⟩, rfl⟩ := Lib.Machine.of_guard hstep
      have hterm : t.client.ctx.rxIsTerminating = true := by
        rw [rxIsTerminating, h.stopped, Bool.or_true]
      rw [if_pos hterm]
      refine ⟨h.stopped, ?_⟩
      rcases h.told with ⟨hin, hsame⟩ | ⟨hin, -, htold⟩
      · exact .inl ⟨hout.symm.trans hin, hsame⟩
      · exact .inr ⟨hin, rfl, htold⟩
  | handle =>
      obtain ⟨hin, rfl⟩ := Lib.Machine.of_guard hstep
      obtain ⟨hstop, hmessages⟩ := handle_stopped hbehind hin h.stopped
      refine ⟨hstop, ?_⟩
      rcases h.told with ⟨hsame, heq⟩ | ⟨-, hout, -⟩
      · rw [heq] at hmessages
        exact .inr ⟨hsame.symm.trans hin, rfl, hmessages⟩
      · exact absurd (hin.symm.trans hout) (by decide)
  | other a =>
      by_cases ha : a = .frame
      · rw [show (machine cfg app).step t (.other a) = none from if_pos ha] at hstep
        cases hstep
      · rw [show (machine cfg app).step t (.other a) = _ from if_neg ha] at hstep
        obtain ⟨c', hc', rfl⟩ := Option.map_eq_some_iff.mp hstep
        have hcore := core_of_reachable hbehind.reachable
        have hdeaf := deaf_step ⟨h.stopped, rfl⟩ (hcore.stepped hc')
        exact ⟨hdeaf.stopped, by rw [hdeaf.messages]; exact h.told⟩

/-- Once a stop has been requested, by whichever thread and also before the loop is set
    up, no message is delivered any more but that of the frame in hand: one for which
    the test at the head of the loop had been made. -/
theorem quiet_after_stop {s t : Split Z} {as : List SplitAct}
    (hreach : (machine cfg app).Reachable s) (hstop : s.client.ctx.stop_requested = true)
    (hrun : (machine cfg app).run s as = some t) :
    t.client.ctx.messages = s.client.ctx.messages ∨
      s.inHand = true ∧ t.inHand = false ∧
        ∃ m, t.client.ctx.messages = s.client.ctx.messages ++ [m] := by
  have hinv := Lib.Machine.run_invariant (M := machine cfg app)
    (I := fun t : Split Z => Behind cfg app t ∧ Late s t)
    (fun _ _ _ ⟨hb, hl⟩ hstep => ⟨behind_step hb hstep, late_step hb hl hstep⟩)
    hrun ⟨behind_of_reachable hreach, hstop, .inl ⟨rfl, rfl⟩⟩
  rcases hinv.2.told with ⟨-, hsame⟩ | ⟨hin, hout, hsame | hone⟩
  · exact .inl hsame
  · exact .inl hsame
  · exact .inr ⟨hin, hout, hone⟩

/-- A client with a plain configuration and an idle application, behind a schedule. -/
def ran (as : List SplitAct)
    (h : ((machine (Z := .absent) .plain .idle).run init as).isSome) : Split .absent :=
  ((machine .plain .idle).run init as).get h

/-- Two messages have come with the response, and a stop behind the test. -/
def stopBehindTest : List SplitAct :=
  [.other .run, .other (.connected none),
    .other (.read (plainResponse ++ [0x82, 1, 7, 0x82, 1, 8])), .test, .other .stop]

/-- The first of them is still delivered, and the second is not. -/
theorem quiet_after_stop_late :
    let s := ran stopBehindTest (by decide +kernel)
    let t := ran (stopBehindTest ++ [.handle, .test]) (by decide +kernel)
    (s.inHand = true ∧ s.client.ctx.messages = [] ∧ t.client.ctx.messages = [.binary [7]]) ∧
      (t.client.ctx.messages = s.client.ctx.messages ∨ s.inHand = true ∧ t.inHand = false ∧
        ∃ m, t.client.ctx.messages = s.client.ctx.messages ++ [m]) := by
  intro s t
  have hreach : (machine .plain .idle).Reachable s := Lib.Machine.reachable_get _
  have hstop : s.client.ctx.stop_requested = true := by decide +kernel
  have hrun : (machine .plain .idle).run s [.handle, .test] = some t := Lib.Machine.run_get _ _
  exact ⟨by decide +kernel, quiet_after_stop hreach hstop hrun⟩

end Split

end LateStop

end FsBridge.Libwsc
