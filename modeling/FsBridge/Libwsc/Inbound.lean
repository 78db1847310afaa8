/-
  FsBridge.Libwsc.Inbound

  What arrives at a client, from the bytes of the transport to the callbacks.

  A server sends the response and frames behind it.  The client reads them in whatever
  segments, between whatever its threads do.

  * `Fed` says what a step does with what has been read.
  * `delivered_of_run`: the messages the application is told are those the frames come
    to, in order, up to where the client has read or has stopped to read.
  * `items_of_run`: they are the messages of the server.
-/

import FsBridge.Libwsc.ContextCallbacks
import FsBridge.Libwsc.ClientSteps
import FsBridge.Libwsc.Delivery

namespace FsBridge.Libwsc

open FsBridge.Lib

section Inbound

variable {Z : Zlib} {app : App} {cfg : Config}

-- ============================================================================
-- The messages among the callbacks
-- ============================================================================

/-- What the application is told of an event. -/
def Event.message : Event → Option Callback
  | .text m => some (.message m)
  | .binary m => some (.binary m)
  | _ => none

/-- The messages among events. -/
def told (es : List Event) : List Callback := es.filterMap Event.message

namespace Context

def messages (x : Context Z) : List Callback := x.callbacks.filter Callback.isMessage

/-- What the receiver has brought about: the messages, and whether it has reported an
    error. -/
def brought (x : Context Z) : List Callback × Bool := (x.messages, x.protocol_failed)

theorem SameState.brought {x x' : Context Z} (h : SameState x x') : x'.brought = x.brought := by
  unfold Context.brought Context.messages
  rw [h.callbacks, h.protocol_failed]

theorem messages_of_brought {x x' : Context Z} (h : x'.brought = x.brought) :
    x'.messages = x.messages := congrArg Prod.fst h

theorem brought_callback (x : Context Z) (cb : Callback) :
    (x.callback app cb).brought =
      (x.messages ++ [cb].filter Callback.isMessage, x.protocol_failed) := by
  rw [(callback_sameState x cb).brought]
  exact congrArg (·, x.protocol_failed) (List.filter_append _ _)

@[simp] theorem brought_sendError (x : Context Z) (code : ErrorCode) (message : Bytes) :
    (x.sendError app code message).brought = x.brought :=
  (brought_callback x (.error code message)).trans
    (congrArg (·, x.protocol_failed) (List.append_nil _))

@[simp] theorem brought_sendCloseCallback (x : Context Z) (code : Nat) (reason : Bytes) :
    (x.sendCloseCallback app code reason).brought = x.brought := by
  unfold sendCloseCallback
  split
  · rfl
  · exact (brought_callback _ (.closed code reason)).trans
      (congrArg (·, x.protocol_failed) (List.append_nil _))

@[simp] theorem brought_requestLoopExit (x : Context Z) :
    x.requestLoopExit.brought = x.brought := by
  unfold requestLoopExit
  split <;> rfl

@[simp] theorem brought_clearQueue (x : Context Z) : x.clearQueue.brought = x.brought := rfl

theorem brought_closing (x : Context Z) (state : ConnectionState) :
    ({ x with connection_state := state } : Context Z).brought = x.brought := rfl

theorem brought_requestSendFlush (x : Context Z) : x.requestSendFlush.brought = x.brought :=
  (@quiet_requestSendFlush Z .idle x).sameState.brought

theorem brought_close (x : Context Z) (code : Nat) (reason : Bytes) :
    (x.close code reason).brought = x.brought := by
  rcases close_cases x code reason with ⟨-, heq⟩ | ⟨-, heq⟩ | ⟨-, ⟨-, heq⟩ | ⟨-, heq⟩ | ⟨-, heq⟩⟩
  · rw [heq]
  · rw [heq, brought_requestLoopExit]
    rfl
  · rw [heq]
    rfl
  · rw [heq, brought_requestLoopExit]
    rfl
  · rw [heq, brought_requestSendFlush]
    rfl

theorem brought_timeoutCallback (x : Context Z) :
    (x.timeoutCallback app).brought = x.brought := by
  unfold timeoutCallback
  split
  · rfl
  · rw [brought_requestLoopExit, brought_sendError]

theorem brought_closeTimerCb (x : Context Z) : (x.closeTimerCb app).brought = x.brought := by
  unfold closeTimerCb
  split
  · rfl
  · rw [brought_requestLoopExit, brought_closing, brought_sendCloseCallback]

theorem brought_wakeupCallback (x : Context Z) : (x.wakeupCallback app).brought = x.brought := by
  unfold wakeupCallback stopNow
  split
  · rfl
  · split
    · split
      · rfl
      · split
        · rw [brought_requestLoopExit, brought_closing]
        · exact brought_close x _ _
    · exact (quiet_flushSendQueue x).sameState.brought

theorem brought_handleEvent (x : Context Z) (events : BevEvents) :
    (x.handleEvent app events).brought = x.brought := by
  unfold handleEvent
  dsimp only
  repeat' split
  all_goals simp only [brought_requestLoopExit, brought_closing, brought_clearQueue,
    brought_sendError, brought_sendCloseCallback]

/-- What an event adds, if it is not the last. -/
theorem brought_on (x : Context Z) {e : Event} (h : ¬ e.IsLast) :
    ((sinks app).on x e).brought = (x.messages ++ e.message.toList, x.protocol_failed) := by
  cases e with
  | text m => exact brought_callback x (.message m)
  | binary m => exact brought_callback x (.binary m)
  | ping p =>
      have hping : (x.onRxPing app p).brought = x.brought := by
        unfold onRxPing
        split <;> rfl
      exact hping.trans (congrArg (·, x.protocol_failed) (List.append_nil _).symm)
  | close code reason | error code why => exact absurd trivial h

/-- The last event is no message. -/
theorem messages_on_last (x : Context Z) {e : Event} (h : e.IsLast) :
    ((sinks app).on x e).messages = x.messages := by
  cases e with
  | text m | binary m | ping p => exact h.elim
  | close code reason =>
      have hclose : (x.onRxClose app code reason).brought = x.brought := by
        unfold onRxClose
        dsimp only
        rw [brought_sendCloseCallback]
        split
        · rfl
        · exact (quiet_flushSendQueue _).sameState.brought.trans (brought_close _ code reason)
      exact messages_of_brought hclose
  | error code why =>
      show (x.onRxProtocolError app code why).messages = x.messages
      unfold onRxProtocolError
      split
      · rfl
      · have herror : ({ x with protocol_failed := true }.sendError app .protocol
            (protocolMessage code why)).messages = x.messages :=
          congrArg Prod.fst (@brought_sendError Z app { x with protocol_failed := true } _ _)
        dsimp only
        split
        · exact (messages_of_brought ((brought_requestSendFlush _).trans
            (brought_close _ _ _))).trans herror
        · exact (messages_of_brought (brought_requestLoopExit _)).trans herror

-- ============================================================================
-- What does nothing with what is read
-- ============================================================================

/-- No message is delivered, and what the receiver asks the context stays the same. -/
structure Aside (x x' : Context Z) : Prop where
  brought : x'.brought = x.brought
  use_compression : x'.use_compression = x.use_compression
  upgraded : x'.upgraded = x.upgraded
  terminating : x.upgraded = true → x.rxIsTerminating = true → x'.rxIsTerminating = true

theorem Aside.messages {x x' : Context Z} (h : Aside x x') : x'.messages = x.messages :=
  messages_of_brought h.brought

theorem SameState.aside {x x' : Context Z} (h : SameState x x') : Aside x x' :=
  ⟨h.brought, h.use_compression, h.upgraded, fun _ => h.rxIsTerminating⟩

theorem Act1.setup {x x' : Context Z} (h : Act1 app x x') :
    x'.use_compression = x.use_compression ∧
      (x.rxIsTerminating = true → x'.rxIsTerminating = true) := by
  have hexit : ∀ y : Context Z, y.requestLoopExit.use_compression = y.use_compression :=
    fun y => (requestLoopExit_fields y).2.2.1
  cases h with
  | call x' hcall =>
      have hsame := hcall.quiet1.sameState
      exact ⟨hsame.use_compression, hsame.rxIsTerminating⟩
  | log cb hmessage => exact ⟨rfl, id⟩
  | note x' hnotes =>
      obtain ⟨-, -, -, -, hrest⟩ := hnotes
      rw [hrest]
      exact ⟨rfl, id⟩
  | exit => exact ⟨hexit x, fun _ => rxIsTerminating_requestLoopExit x⟩
  | abort state hstate => exact ⟨hexit _, fun _ => rxIsTerminating_requestLoopExit _⟩
  | close payload hlen hup hbase hopen hsent hroom =>
      have hsame := (@quiet_requestSendFlush Z app { x with
        connection_state := .disconnecting
        send_queue := x.send_queue ++ [Pending.close payload]
        queued := x.queued ++ [Pending.close payload] }).sameState
      exact ⟨hsame.use_compression, fun _ => rxIsTerminating_of_isClosing hsame.isClosing⟩
  | closeAgain hopen hsent => exact ⟨rfl, fun _ => rxIsTerminating_of_isClosing rfl⟩
  | requestFlush hclosing =>
      have hsame := (@quiet_requestSendFlush Z app x).sameState
      exact ⟨hsame.use_compression, hsame.rxIsTerminating⟩
  | flush hclosing =>
      have hsame := (@quiet_flushSendQueue Z app x).sameState
      exact ⟨hsame.use_compression, hsame.rxIsTerminating⟩
  | clearQueue hup => exact ⟨rfl, id⟩

theorem Acts.setup {x x' : Context Z} (h : Acts app x x') :
    x'.use_compression = x.use_compression ∧
      (x.rxIsTerminating = true → x'.rxIsTerminating = true) := by
  refine h.keeps (P := fun y => y.use_compression = x.use_compression ∧
    (x.rxIsTerminating = true → y.rxIsTerminating = true)) (fun y y' hy hact => ?_) ⟨rfl, id⟩
  exact ⟨hact.setup.1.trans hy.1, fun hx => hact.setup.2 (hy.2 hx)⟩

theorem Acts.aside {x x' : Context Z} (h : Acts app x x') (hbrought : x'.brought = x.brought) :
    Aside x x' :=
  ⟨hbrought, h.setup.1, upgraded_of_moves h.moves, fun _ => h.setup.2⟩

end Context

/-- What a step reads from the transport. -/
def Act.bytes : Act → Bytes
  | .read seg => seg
  | _ => []

/-- What has been read. -/
def received (as : List Act) : Bytes := as.flatMap Act.bytes

namespace Client

open Context

/-- A step, by what it does with what has been read. -/
inductive Fed (cfg : Config) (app : App) (s : Client Z) (a : Act) (s' : Client Z) : Prop where
  | frame (ha : a.bytes = []) (hpc : s.pc = .reading) (h : s' = s.onDataTurn app)
  /-- The response, or some of it. -/
  | response (hpc : s.pc = .idle) (hup : s.ctx.upgraded = false)
      (h : s' = handleRead cfg app { s with input := s.input ++ a.bytes })
  | more (hup : s.ctx.upgraded = true)
      (h : s' = { s with input := s.input ++ a.bytes, pc := .reading })
  | aside (ha : a.bytes = []) (hctx : Aside s.ctx s'.ctx) (hinput : s'.input = s.input)
      (hreceiver : s'.receiver = s.receiver) (hpc : s'.pc = .reading ↔ s.pc = .reading)
      (hthrown : s'.pc = .thrown → s.pc = .thrown)

theorem step_fed {s s' : Client Z} {a : Act} (hcore : Core s)
    (hstep : (machine cfg app).step s a = some s') : Fed cfg app s a s' := by
  cases a with
  | run =>
      obtain ⟨hpc, rfl⟩ := Lib.Machine.of_guard hstep
      have hup := hcore.phase.notStarted hpc
      exact .aside rfl ⟨rfl, rfl, rfl, fun hc => absurd (hc.symm.trans hup) (by decide)⟩ rfl rfl
        (by simp [hpc]) (by simp)
  | connected tlsError =>
      obtain ⟨⟨hpc, -⟩, rfl⟩ := Lib.Machine.of_guard hstep
      refine .aside rfl ?_ rfl rfl Iff.rfl id
      cases tlsError with
      | none => exact ⟨rfl, rfl, rfl, fun _ => id⟩
      | some e =>
          refine Acts.aside ((acts_sendError _ _ _).trans (Act1.acts .exit)) ?_
          exact (brought_requestLoopExit _).trans (brought_sendError _ _ _)
  | read seg =>
      obtain ⟨⟨hpc, -⟩, rfl⟩ := Lib.Machine.of_guard hstep
      by_cases hup : s.ctx.upgraded = true
      · exact .more hup (if_pos hup)
      · exact .response hpc (Bool.eq_false_iff.mpr hup) rfl
  | frame =>
      obtain ⟨hpc, rfl⟩ := Lib.Machine.of_guard hstep
      exact .frame rfl hpc rfl
  | event events =>
      obtain ⟨-, rfl⟩ := Lib.Machine.of_guard hstep
      exact .aside rfl ((acts_handleEvent s.ctx events).aside (brought_handleEvent _ _)) rfl rfl
        Iff.rfl id
  | timeout =>
      obtain ⟨-, rfl⟩ := Lib.Machine.of_guard hstep
      have haside := (@acts_timeoutCallback Z app { s.ctx with timeout_event := false }).aside
        (brought_timeoutCallback _)
      exact .aside rfl ⟨haside.brought, haside.use_compression, haside.upgraded,
        haside.terminating⟩ rfl rfl Iff.rfl id
  | ping =>
      obtain ⟨-, rfl⟩ := Lib.Machine.of_guard hstep
      exact .aside rfl (@quiet_sendPing Z app s.ctx).sameState.aside rfl rfl Iff.rfl id
  | wakeup =>
      obtain ⟨⟨-, hactive⟩, rfl⟩ := Lib.Machine.of_guard hstep
      have haside := (@acts_wakeupCallback Z app { s.ctx with wakeup_active := false }
        (hcore.wakes hactive)).aside (brought_wakeupCallback _)
      exact .aside rfl ⟨haside.brought, haside.use_compression, haside.upgraded,
        haside.terminating⟩ rfl rfl Iff.rfl id
  | flush =>
      obtain ⟨⟨hpc, -⟩, rfl⟩ := Lib.Machine.of_guard hstep
      have haside := (@quiet_flushSendQueue Z app { s.ctx with send_active := false }).sameState.aside
      exact .aside rfl ⟨haside.brought, haside.use_compression, haside.upgraded,
        haside.terminating⟩ rfl rfl (by simp [hpc]) (by simp)
  | unflag =>
      obtain ⟨hpc, rfl⟩ := Lib.Machine.of_guard hstep
      exact .aside rfl ⟨rfl, rfl, rfl, fun _ => id⟩ rfl rfl (by simp [hpc]) (by simp)
  | closeTimer =>
      obtain ⟨-, rfl⟩ := Lib.Machine.of_guard hstep
      have haside := (@acts_closeTimerCb Z app { s.ctx with close_timer := false }).aside
        (brought_closeTimerCb _)
      exact .aside rfl ⟨haside.brought, haside.use_compression, haside.upgraded,
        haside.terminating⟩ rfl rfl Iff.rfl id
  | exit =>
      obtain ⟨⟨hpc, -⟩, rfl⟩ := Lib.Machine.of_guard hstep
      exact .aside rfl ⟨rfl, rfl, rfl, fun _ => id⟩ rfl rfl (by simp [hpc]) (by simp)
  | load i p =>
      simp only [machine, step] at hstep
      split at hstep <;> cases hstep
      exact .aside rfl ⟨rfl, rfl, rfl, fun _ => id⟩ rfl rfl Iff.rfl id
  | push i =>
      simp only [machine, step] at hstep
      split at hstep
      · rename_i connecting p hloaded
        obtain rfl := Option.some.inj hstep
        have hmessage := hcore.phase.loaded i connecting p hloaded
        exact .aside rfl (@Quiet1.push Z app s.ctx p hmessage).sameState.aside rfl rfl Iff.rfl id
      · cases hstep
  | exchange i =>
      obtain ⟨-, rfl⟩ := Lib.Machine.of_guard hstep
      exact .aside rfl ⟨rfl, rfl, rfl, fun _ => id⟩ rfl rfl Iff.rfl id
  | activate i =>
      obtain ⟨-, rfl⟩ := Lib.Machine.of_guard hstep
      refine .aside rfl ?_ rfl rfl Iff.rfl id
      dsimp only
      split <;> exact ⟨rfl, rfl, rfl, fun _ => id⟩
  | stop =>
      obtain rfl := Option.some.inj hstep
      exact .aside rfl (@quiet_stop Z app s.ctx).sameState.aside rfl rfl Iff.rfl id

-- ============================================================================
-- A turn on the start of a stream
-- ============================================================================

/-- A turn of `onData` where frames are coming: it waits, or it does what the step of the
    first frame says. -/
theorem turn_of_wire {σ : Type*} {sinks : Sinks σ} {x : Rx Z σ} (hx : ¬ x.Ended sinks)
    {d : Inflater Z} {p : Option Partial} (hr : x.receiver.Holds d p) {f : WsFrame}
    {form : LengthForm} (hfits : form.Fits f.payload.length) (hmax : f.payload.length ≤ maxSize)
    {buf more rest : Bytes} (hbuf : buf ++ more = f.encode form ++ rest) :
    x.onDataTurn sinks buf = .wait ∧ buf.length < (f.encode form).length ∨
    ∃ x' : Rx Z σ, x'.thrown = false ∧
      Did sinks x.sinks (x'.receiver, x'.sinks)
        (frameStep Inflater.decode (sinks.rxCompressionEnabled x.sinks) d p f) ∧
      ((∃ n, x.onDataTurn sinks buf = .next x' n ∧ buf.drop n ++ more = rest) ∨
        x.onDataTurn sinks buf = .stop x' ∧
          ∃ e, frameStep Inflater.decode (sinks.rxCompressionEnabled x.sinks) d p f = .last e) := by
  obtain ⟨x', hthrown, hdid, hturn⟩ := turn_frameStep hx hr hfits hmax rest
  rw [← hbuf] at hturn
  rcases Rx.onDataTurn_cases hx buf with hwait | ⟨why, hfail⟩ | hthrow |
    ⟨x₁, n, hx₁, -, -, hle, hnext⟩
  · by_cases hlen : buf.length < (f.encode form).length
    · exact .inl ⟨hwait, hlen⟩
    · -- the frame has come whole, so a turn does not wait
      have hsplit : ∃ tail, buf = f.encode form ++ tail := by
        have hprefix : f.encode form <+: buf ++ more := hbuf ▸ List.prefix_append _ _
        obtain ⟨tail, htail⟩ := List.prefix_of_prefix_length_le hprefix
          (List.prefix_append buf more) (Nat.le_of_not_lt hlen)
        exact ⟨tail, htail.symm⟩
      obtain ⟨tail, rfl⟩ := hsplit
      obtain ⟨x₂, -, -, hturn₂⟩ := turn_frameStep hx hr hfits hmax tail
      rcases hturn₂ with hturn₂ | ⟨hturn₂, -⟩ <;>
        exact absurd (hwait.symm.trans hturn₂) (by simp)
  · have hnow := hfail []
    rw [List.append_nil] at hnow
    rcases hturn with hturn | ⟨hturn, hlast⟩
    · exact absurd ((hfail more).symm.trans hturn) (by simp [Rx.fail])
    · exact .inr ⟨x', hthrown, hdid, .inr ⟨hnow.trans ((hfail more).symm.trans hturn), hlast⟩⟩
  · rcases hturn with hturn | ⟨hturn, -⟩
    · exact absurd ((hthrow more).symm.trans hturn) (by simp)
    · obtain rfl := Consumer.Turn.stop.inj ((hthrow more).symm.trans hturn)
      exact absurd hthrown (by simp)
  · have hnow := hnext []
    rw [List.append_nil] at hnow
    rcases hturn with hturn | ⟨hturn, -⟩
    · obtain ⟨rfl, rfl⟩ := Consumer.Turn.next.inj ((hnext more).symm.trans hturn)
      refine .inr ⟨x₁, hx₁, hdid, .inl ⟨_, hnow, ?_⟩⟩
      have hdrop := congrArg (List.drop (f.encode form).length) hbuf
      rw [List.drop_append_of_le_length hle, List.drop_left] at hdrop
      exact hdrop
    · exact absurd ((hnext more).symm.trans hturn) (by simp)

-- ============================================================================
-- The stream of a server
-- ============================================================================

/-- Whether messages may be compressed, and the inflate half, as a response leaves them. -/
def compressionOf (Z : Zlib) (cfg : Config) (resp : Bytes) : Bool × Inflater Z :=
  match (negotiate cfg resp).bind (initializeCompression (Z := Z)) with
  | none => (false, ⟨.default, none⟩)
  | some (inflater, _) => (true, inflater)

/-- The messages that the frames behind a response come to. -/
noncomputable def arrives (Z : Zlib) (cfg : Config) (resp : Bytes)
    (fs : List (WsFrame × LengthForm)) : List Callback :=
  told (assemble Inflater.decode (compressionOf Z cfg resp).1 (compressionOf Z cfg resp).2 none
    (fs.map Prod.fst))

section Stream

variable {resp : Bytes} {fs : List (WsFrame × LengthForm)}

/-- A client that reads: the receiver holds what came before `rest`, and outside the loop
    of `onData` the first frame of it has not come whole. -/
structure Reads (total : List Callback) (s : Client Z) (more : Bytes)
    (rest : List (WsFrame × LengthForm)) (d : Inflater Z) (p : Option Partial) : Prop where
  holds : s.receiver.Holds d p
  clean : s.ctx.protocol_failed = false
  stream : s.input ++ more = wire rest
  writable : Writable rest
  total : s.ctx.messages ++ told (assemble Inflater.decode s.ctx.use_compression d p
    (rest.map Prod.fst)) = total
  waits : s.pc ≠ .reading → ∀ f rest', rest = f :: rest' →
    s.input.length < (f.1.encode f.2).length

/-- The client, when `more` has not come yet. -/
structure Follows (cfg : Config) (resp : Bytes) (fs : List (WsFrame × LengthForm))
    (s : Client Z) (more : Bytes) : Prop where
  core : Core s
  callbacks : CallbackInv s
  before : s.ctx.upgraded = false → s.receiver = .init ⟨.default, none⟩ ∧
    s.ctx.brought = ([], false) ∧ headerBytes s.input = none ∧ s.input ++ more = resp ++ wire fs
  sofar : s.ctx.upgraded = true → s.ctx.messages <+: arrives Z cfg resp fs
  reads : s.ctx.upgraded = true → s.ctx.rxIsTerminating = false →
    ∃ rest d p, Reads (arrives Z cfg resp fs) s more rest d p
  thrown : s.pc ≠ .thrown

theorem follows_init : Follows cfg resp fs (init : Client Z) (resp ++ wire fs) where
  core := core_init
  callbacks := callbackInv_init
  before _ := ⟨rfl, rfl, rfl, rfl⟩
  sofar h := by cases h
  reads h := by cases h
  thrown h := by cases h

theorem Reads.aside {total : List Callback} {s s' : Client Z} {more : Bytes}
    {rest : List (WsFrame × LengthForm)} {d : Inflater Z} {p : Option Partial}
    (h : Reads total s more rest d p) (hctx : Aside s.ctx s'.ctx) (hinput : s'.input = s.input)
    (hreceiver : s'.receiver = s.receiver) (hpc : s'.pc = .reading ↔ s.pc = .reading) :
    Reads total s' more rest d p where
  holds := hreceiver ▸ h.holds
  clean := (congrArg Prod.snd hctx.brought).trans h.clean
  stream := hinput ▸ h.stream
  writable := h.writable
  total := by rw [hctx.messages, hctx.use_compression, h.total]
  waits hp f rest' hrest := hinput ▸ h.waits (fun hr => hp (hpc.mpr hr)) f rest' hrest

theorem follows_aside {s s' : Client Z} {more : Bytes} (h : Follows cfg resp fs s more)
    (hcore : Core s') (hcallbacks : CallbackInv s') (hctx : Aside s.ctx s'.ctx)
    (hinput : s'.input = s.input) (hreceiver : s'.receiver = s.receiver)
    (hpc : s'.pc = .reading ↔ s.pc = .reading) (hthrown : s'.pc = .thrown → s.pc = .thrown) :
    Follows cfg resp fs s' more where
  core := hcore
  callbacks := hcallbacks
  before hup := by
    rw [hreceiver, hctx.brought, hinput]
    exact h.before (hctx.upgraded ▸ hup)
  sofar hup := hctx.messages ▸ h.sofar (hctx.upgraded ▸ hup)
  reads hup hrun := by
    have hup := hctx.upgraded ▸ hup
    have hrun : s.ctx.rxIsTerminating = false := Bool.eq_false_iff.mpr fun hterm =>
      absurd ((hctx.terminating hup hterm).symm.trans hrun) (by decide)
    obtain ⟨rest, d, p, hreads⟩ := h.reads hup hrun
    exact ⟨rest, d, p, hreads.aside hctx hinput hreceiver hpc⟩
  thrown hp := h.thrown (hthrown hp)

theorem follows_more {s : Client Z} {seg more : Bytes} (h : Follows cfg resp fs s (seg ++ more))
    (hup : s.ctx.upgraded = true)
    (hcore : Core { s with input := s.input ++ seg, pc := .reading })
    (hcallbacks : CallbackInv { s with input := s.input ++ seg, pc := .reading }) :
    Follows cfg resp fs { s with input := s.input ++ seg, pc := .reading } more where
  core := hcore
  callbacks := hcallbacks
  before hfresh := absurd (hup.symm.trans hfresh) (by decide)
  sofar _ := h.sofar hup
  reads _ hrun := by
    obtain ⟨rest, d, p, hreads⟩ := h.reads hup hrun
    refine ⟨rest, d, p, hreads.holds, hreads.clean, ?_, hreads.writable, hreads.total,
      fun hp => absurd rfl hp⟩
    rw [List.append_assoc]
    exact hreads.stream
  thrown := by simp

/-- The step of a frame adds the message it brings. -/
theorem told_go {d d' : Inflater Z} {p p' : Option Partial} {f : WsFrame} {c : Bool}
    {e : Option Event} (h : frameStep Inflater.decode c d p f = .go e d' p') (fs : List WsFrame) :
    told (assemble Inflater.decode c d p (f :: fs)) =
      (e.bind Event.message).toList ++ told (assemble Inflater.decode c d' p' fs) := by
  rw [assemble, h]
  dsimp only
  cases e with
  | none => rfl
  | some e =>
      unfold told
      rw [List.filterMap_append]
      cases e <;> rfl

/-- A turn that waits. -/
theorem onDataTurn_wait {s : Client Z}
    (h : Rx.onDataTurn (Context.sinks app) ⟨s.receiver, s.ctx, false⟩ s.input = .wait) :
    s.onDataTurn app = { s with pc := .idle } := by
  unfold Client.onDataTurn
  rw [h]

/-- What the receiver asks of a context that reads. -/
theorem Follows.rxInv {s : Client Z} {more : Bytes} (h : Follows cfg resp fs s more)
    (hclean : s.ctx.protocol_failed = false) : s.ctx.RxInv := by
  obtain ⟨stage, hhears, -⟩ := h.callbacks.hears
  exact ⟨h.core.inv, fun hr => (hhears.received hr).2,
    fun hf => absurd (hf.symm.trans hclean) (by decide)⟩

theorem follows_frame {s : Client Z} {more : Bytes} (h : Follows cfg resp fs s more)
    (hpc : s.pc = .reading) (hcore : Core (s.onDataTurn app))
    (hcallbacks : CallbackInv (s.onDataTurn app)) :
    Follows cfg resp fs (s.onDataTurn app) more := by
  have hup := h.core.phase.reading hpc
  have hsofar := h.sofar hup
  have hup' : (s.onDataTurn app).ctx.upgraded = true :=
    (upgraded_of_moves (acts_onDataTurn hup).moves).trans hup
  have hopen : (s.onDataTurn app).ctx.upgraded ≠ false := by simp [hup']
  by_cases hrun : s.ctx.rxIsTerminating = true
  · have hturn : s.onDataTurn app = { s with pc := .idle } := by
      unfold Client.onDataTurn
      rw [Rx.onDataTurn_ended (.inr hrun)]
      rfl
    refine ⟨hcore, hcallbacks, fun hfresh => absurd hfresh hopen, fun _ => ?_, fun _ hrun' => ?_, ?_⟩
    · rw [hturn]
      exact hsofar
    · rw [hturn] at hrun'
      exact absurd (hrun.symm.trans hrun') (by decide)
    · rw [hturn]
      simp
  have hrun := Bool.eq_false_iff.mpr hrun
  obtain ⟨rest, d, p, hreads⟩ := h.reads hup hrun
  -- the client waits for the rest of the first frame
  have hwaits : Rx.onDataTurn (Context.sinks app) ⟨s.receiver, s.ctx, false⟩ s.input = .wait →
      (∀ f rest', rest = f :: rest' → s.input.length < (f.1.encode f.2).length) →
      Follows cfg resp fs (s.onDataTurn app) more := by
    intro hwait hshort
    have hturn := onDataTurn_wait hwait
    refine ⟨hcore, hcallbacks, fun hfresh => absurd hfresh hopen, fun _ => ?_,
      fun _ _ => ⟨rest, d, p, ?_⟩, ?_⟩
    · rw [hturn]
      exact hsofar
    · rw [hturn]
      exact ⟨hreads.holds, hreads.clean, hreads.stream, hreads.writable, hreads.total,
        fun _ => hshort⟩
    · rw [hturn]
      simp
  have hended : ¬ Rx.Ended (Context.sinks app) (⟨s.receiver, s.ctx, false⟩ : Rx Z (Context Z)) := by
    rintro (hthrown | hterm)
    · cases hthrown
    · exact absurd (hterm.symm.trans hrun) (by decide)
  cases rest with
  | nil =>
      have hempty : s.input = [] := (List.append_eq_nil_iff.mp hreads.stream).1
      refine hwaits ?_ fun f rest' hrest => (by cases hrest)
      rw [hempty]
      simp [Rx.onDataTurn, Rx.frameTurn, Context.sinks, hrun]
  | cons f rest =>
      obtain ⟨hf, hrest⟩ := List.forall_mem_cons.mp hreads.writable
      have hstream : s.input ++ more = f.1.encode f.2 ++ wire rest :=
        hreads.stream.trans List.flatMap_cons
      rcases turn_of_wire hended hreads.holds hf.1 hf.2 hstream with
        ⟨hwait, hshort⟩ | ⟨x', hthrown, hdid, hturn⟩
      · refine hwaits hwait fun f' rest' heq => ?_
        obtain ⟨rfl, rfl⟩ := List.cons.inj heq
        exact hshort
      have htotal := hreads.total
      rw [List.map_cons] at htotal
      have hon := (@sinks_lawful Z app).on ⟨h.rxInv hreads.clean, hup⟩ hrun
      have hdid : Did (Context.sinks app) s.ctx (x'.receiver, x'.sinks)
        (frameStep Inflater.decode s.ctx.use_compression d p f.1) := hdid
      cases hstep : frameStep Inflater.decode s.ctx.use_compression d p f.1 with
      | last e =>
          rw [hstep] at hdid
          obtain ⟨hlast, hsinks⟩ := hdid
          have hsinks : x'.sinks = (Context.sinks app).on s.ctx e := hsinks
          have hterm : x'.sinks.rxIsTerminating = true := by
            rw [hsinks]
            exact (hon e).2.1 hlast
          have hmessages : x'.sinks.messages = s.ctx.messages := by
            rw [hsinks]
            exact messages_on_last s.ctx hlast
          have hctx : (s.onDataTurn app).ctx = x'.sinks ∧ (s.onDataTurn app).pc ≠ .thrown := by
            unfold Client.onDataTurn
            rcases hturn with ⟨n, hnext, -⟩ | ⟨hstop, -⟩
            · rw [hnext]
              exact ⟨rfl, by simp [hpc]⟩
            · rw [hstop]
              exact ⟨rfl, by simp [hthrown]⟩
          refine ⟨hcore, hcallbacks, fun hfresh => absurd hfresh hopen, fun _ => ?_,
            fun _ hrun' => ?_, hctx.2⟩
          · rw [hctx.1, hmessages]
            exact hsofar
          · rw [hctx.1] at hrun'
            exact absurd (hterm.symm.trans hrun') (by decide)
      | go e d' p' =>
          rw [hstep] at hdid
          obtain ⟨hgo, hsinks, hholds⟩ := hdid
          have hsinks : x'.sinks = e.elim s.ctx ((Context.sinks app).on s.ctx) := hsinks
          have hgoes : ¬ ∃ e', frameStep Inflater.decode s.ctx.use_compression d p f.1 =
              .last e' := by
            rintro ⟨e', he'⟩
            exact absurd (hstep.symm.trans he') (by simp)
          obtain ⟨n, hnext, htail⟩ := hturn.resolve_right fun hstop => hgoes hstop.2
          have hturn : s.onDataTurn app = { s with
              ctx := x'.sinks
              receiver := x'.receiver
              input := s.input.drop n } := by
            unfold Client.onDataTurn
            rw [hnext]
          have hbrought : x'.sinks.brought =
              (s.ctx.messages ++ (e.bind Event.message).toList, s.ctx.protocol_failed) := by
            rw [hsinks]
            cases e with
            | none => exact congrArg (·, s.ctx.protocol_failed) (List.append_nil _).symm
            | some e => exact brought_on s.ctx (hgo e rfl)
          have hcompression : x'.sinks.use_compression = s.ctx.use_compression := by
            rw [hsinks]
            cases e with
            | none => rfl
            | some e => exact (hon e).2.2 (hgo e rfl)
          have hmessages : x'.sinks.messages = s.ctx.messages ++ (e.bind Event.message).toList :=
            congrArg Prod.fst hbrought
          rw [told_go hstep, ← List.append_assoc, ← hmessages] at htotal
          refine ⟨hcore, hcallbacks, fun hfresh => absurd hfresh hopen, fun _ => ?_,
            fun _ _ => ⟨rest, d', p', ?_⟩, ?_⟩
          · rw [hturn]
            exact ⟨_, htotal⟩
          · rw [hturn]
            refine ⟨hholds, (congrArg Prod.snd hbrought).trans hreads.clean, htail, hrest, ?_,
              fun hp => absurd hpc hp⟩
            rw [← hcompression] at htotal
            exact htotal
          · rw [hturn]
            simp [hpc]

-- ============================================================================
-- The response
-- ============================================================================

/-- The halves of permessage-deflate as a response leaves them. -/
theorem negotiated_compression {s : Client Z} (resp : Bytes)
    (hreceiver : s.receiver = .init ⟨.default, none⟩) :
    (s.negotiated cfg app resp).receiver = .init (compressionOf Z cfg resp).2 ∧
      (s.negotiated cfg app resp).ctx.use_compression = (compressionOf Z cfg resp).1 ∧
      (s.negotiated cfg app resp).ctx.brought = s.ctx.brought := by
  unfold negotiated compressionOf
  cases negotiate cfg resp with
  | none => exact ⟨hreceiver, rfl, rfl⟩
  | some params =>
      dsimp only [Option.bind_some]
      cases initializeCompression (Z := Z) params with
      | none =>
          refine ⟨?_, ?_, brought_sendError _ _ _⟩
          · rw [hreceiver]
            rfl
          · exact (callback_sameState _ _).use_compression
      | some halves =>
          refine ⟨?_, rfl, rfl⟩
          rw [hreceiver]
          rfl

/-- The context behind an accepted response. -/
theorem opened_fields (y : Context Z) :
    (y.opened app).use_compression = y.use_compression ∧ (y.opened app).brought = y.brought := by
  have hflush := (@quiet_flushSendQueue Z app
    { y with upgraded := true, connection_state := .connected }).sameState
  have hcallback := (@callback_sameState Z app
    ({ y with upgraded := true, connection_state := .connected }.flushSendQueue app) .opened)
  have hbrought := (@brought_callback Z app
    ({ y with upgraded := true, connection_state := .connected }.flushSendQueue app) .opened).trans
      (congrArg (·, _) (List.append_nil _))
  exact ⟨hcallback.use_compression.trans hflush.use_compression, hbrought.trans hflush.brought⟩

theorem upgrade_fields (s : Client Z) (n : Nat) :
    (s.upgrade cfg app n).ctx = (s.negotiated cfg app (s.input.take n)).ctx.opened app ∧
      (s.upgrade cfg app n).receiver = (s.negotiated cfg app (s.input.take n)).receiver ∧
      (s.upgrade cfg app n).input = s.input.drop n ∧
      (s.upgrade cfg app n).pc = if s.input.drop n = [] then .idle else .reading := by
  have hinput := (@negotiated_rest Z app cfg s (s.input.take n)).1
  refine ⟨rfl, rfl, congrArg (List.drop n) hinput, ?_⟩
  show (if (s.negotiated cfg app (s.input.take n)).input.drop n = [] then EventPc.idle
    else .reading) = _
  rw [hinput]

/-- The response has come whole, or it has not. -/
theorem follows_response (hresp : headerBytes resp = some resp.length)
    (haccepted : upgradeAccepted resp = true) (hfs : Writable fs) {s : Client Z}
    {seg more : Bytes} (h : Follows cfg resp fs s (seg ++ more)) (hpc : s.pc = .idle)
    (hup : s.ctx.upgraded = false)
    (hcore : Core (handleRead cfg app { s with input := s.input ++ seg }))
    (hcallbacks : CallbackInv (handleRead cfg app { s with input := s.input ++ seg })) :
    Follows cfg resp fs (handleRead cfg app { s with input := s.input ++ seg }) more := by
  obtain ⟨hreceiver, hbrought, -, hstream⟩ := h.before hup
  rw [← List.append_assoc] at hstream
  unfold handleRead at hcore hcallbacks ⊢
  dsimp only at hcore hcallbacks ⊢
  have hnot : ¬ s.ctx.upgraded = true := by simp [hup]
  rw [if_neg hnot] at hcore hcallbacks ⊢
  generalize hinput : s.input ++ seg = input at hstream hcore hcallbacks ⊢
  cases hend : headerBytes input with
  | none =>
      rw [hend] at hcore hcallbacks
      dsimp only at hcore hcallbacks ⊢
      refine ⟨hcore, hcallbacks, fun _ => ⟨hreceiver, hbrought, hend, hstream⟩,
        fun hopen => absurd hopen hnot, fun hopen => absurd hopen hnot, by simp [hpc]⟩
  | some n =>
      have hlen : n = resp.length := by
        have hfirst := headerBytes_append hend more
        rw [hstream, headerBytes_append hresp] at hfirst
        exact (Option.some.inj hfirst).symm
      subst hlen
      have hle := (headerBytes_bounds hend).2
      have htake : input.take resp.length = resp := by
        have htake := congrArg (List.take resp.length) hstream
        rwa [List.take_append_of_le_length hle, List.take_left] at htake
      have hdrop : input.drop resp.length ++ more = wire fs := by
        have hdrop := congrArg (List.drop resp.length) hstream
        rwa [List.drop_append_of_le_length hle, List.drop_left] at hdrop
      rw [hend] at hcore hcallbacks
      dsimp only at hcore hcallbacks ⊢
      rw [htake, if_pos haccepted] at hcore hcallbacks ⊢
      obtain ⟨hreceiver', hcompression, hbrought'⟩ :=
        @negotiated_compression Z app cfg { s with input := input } resp hreceiver
      obtain ⟨hctx, hrx, hleft, hpc'⟩ :=
        @upgrade_fields Z app cfg { s with input := input } resp.length
      rw [show ({ s with input := input } : Client Z).input.take resp.length = resp from htake]
        at hctx hrx
      obtain ⟨hkept, hquiet⟩ :=
        @opened_fields Z app (negotiated cfg app { s with input := input } resp).ctx
      rw [← hctx] at hkept hquiet
      have hnone := (hquiet.trans hbrought').trans hbrought
      have hmessages := congrArg Prod.fst hnone
      have hopen : (upgrade cfg app { s with input := input } resp.length).ctx.upgraded ≠ false := by
        rw [hctx, upgraded_opened]
        decide
      refine ⟨hcore, hcallbacks, fun hfresh => absurd hfresh hopen, fun _ => ?_, fun _ _ =>
        ⟨fs, (compressionOf Z cfg resp).2, none, ?_⟩, ?_⟩
      · rw [show (upgrade cfg app { s with input := input } resp.length).ctx.messages = [] from
          hmessages]
        exact List.nil_prefix
      · refine ⟨?_, congrArg Prod.snd hnone, ?_, hfs, ?_, fun hp f rest' hrest => ?_⟩
        · rw [hrx, hreceiver']
          exact Receiver.holds_init _
        · rw [hleft]
          exact hdrop
        · rw [show (upgrade cfg app { s with input := input } resp.length).ctx.messages = [] from
            hmessages, hkept, hcompression]
          rfl
        · -- outside the loop nothing has come behind the response
          rw [hpc'] at hp
          have hempty : input.drop resp.length = [] := by
            by_contra hsome
            exact hp (if_neg hsome)
          rw [hleft, show ({ s with input := input } : Client Z).input.drop resp.length = [] from
            hempty]
          exact Nat.succ_pos _
      · rw [hpc']
        split <;> decide

-- ============================================================================
-- Every schedule
-- ============================================================================

theorem follows_step (hresp : headerBytes resp = some resp.length)
    (haccepted : upgradeAccepted resp = true) (hfs : Writable fs) {s s' : Client Z} {a : Act}
    {more : Bytes} (h : Follows cfg resp fs s (a.bytes ++ more))
    (hstep : (machine cfg app).step s a = some s') : Follows cfg resp fs s' more := by
  have hcore := h.core.step hstep
  have hcallbacks := callbackInv_step h.callbacks hstep
  cases step_fed h.core hstep with
  | frame ha hpc heq =>
      rw [ha, List.nil_append] at h
      subst heq
      exact follows_frame h hpc hcore hcallbacks
  | response hpc hup heq =>
      subst heq
      exact follows_response hresp haccepted hfs h hpc hup hcore hcallbacks
  | more hup heq =>
      subst heq
      exact follows_more h hup hcore hcallbacks
  | aside ha hctx hinput hreceiver hpc hthrown =>
      rw [ha, List.nil_append] at h
      exact follows_aside h hcore hcallbacks hctx hinput hreceiver hpc hthrown

theorem follows_of_run (hresp : headerBytes resp = some resp.length)
    (haccepted : upgradeAccepted resp = true) (hfs : Writable fs) {as : List Act} {s : Client Z}
    (hrun : (machine cfg app).run init as = some s) {more : Bytes}
    (hread : received as ++ more = resp ++ wire fs) : Follows cfg resp fs s more := by
  refine Lib.Machine.run_induction (M := machine cfg app)
    (J := fun as (s : Client Z) => ∀ more, received as ++ more = resp ++ wire fs →
      Follows cfg resp fs s more) (fun more hread => ?_)
    (fun as s a s' _ hs hstep more hread => ?_) hrun more hread
  · rw [show more = resp ++ wire fs from hread]
    exact follows_init
  · refine follows_step hresp haccepted hfs (hs _ ?_) hstep
    rw [← hread, ← List.append_assoc]
    refine congrArg (· ++ more) ?_
    unfold received
    rw [List.flatMap_append, List.flatMap_singleton]

/-- What has come whole is delivered whole. -/
theorem Follows.complete {s : Client Z} (h : Follows cfg resp fs s [])
    (hresp : headerBytes resp = some resp.length) (hpc : s.pc ≠ .reading)
    (hrun : s.ctx.rxIsTerminating = false) : s.ctx.messages = arrives Z cfg resp fs := by
  have hup : s.ctx.upgraded = true := by
    by_contra hup
    obtain ⟨-, -, hnone, hstream⟩ := h.before (Bool.eq_false_iff.mpr hup)
    rw [List.append_nil] at hstream
    rw [hstream, headerBytes_append hresp] at hnone
    cases hnone
  obtain ⟨rest, d, p, hreads⟩ := h.reads hup hrun
  have hstream := hreads.stream
  rw [List.append_nil] at hstream
  cases rest with
  | nil =>
      have htotal := hreads.total
      rw [List.map_nil, assemble, told, List.filterMap_nil, List.append_nil] at htotal
      exact htotal
  | cons f rest =>
      have hshort := hreads.waits hpc f rest rfl
      rw [hstream, wire, List.flatMap_cons, List.length_append] at hshort
      exact absurd hshort (by omega)

theorem Follows.messages {s : Client Z} {more : Bytes} (h : Follows cfg resp fs s more) :
    s.ctx.messages <+: arrives Z cfg resp fs := by
  by_cases hup : s.ctx.upgraded = true
  · exact h.sofar hup
  · have hnone := congrArg Prod.fst (h.before (Bool.eq_false_iff.mpr hup)).2.1
    rw [show s.ctx.messages = [] from hnone]
    exact List.nil_prefix

/-- Whatever the threads do, and however the bytes of the transport are cut: what the
    application is told is in order what the frames behind the response come to, as far
    as they have come or the client has stopped to read; nothing leaves the thread; and
    a client that has read everything and waits has delivered everything. -/
theorem delivered_of_run (hresp : headerBytes resp = some resp.length)
    (haccepted : upgradeAccepted resp = true) (hfs : Writable fs) {as : List Act} {s : Client Z}
    (hrun : (machine cfg app).run init as = some s) {more : Bytes}
    (hread : received as ++ more = resp ++ wire fs) :
    s.ctx.messages <+: arrives Z cfg resp fs ∧ s.pc ≠ .thrown ∧
      (more = [] → s.pc ≠ .reading → s.ctx.rxIsTerminating = false →
        s.ctx.messages = arrives Z cfg resp fs) := by
  have hfollows := follows_of_run hresp haccepted hfs hrun hread
  refine ⟨hfollows.messages, hfollows.thrown, fun hmore hpc hopen => ?_⟩
  subst hmore
  exact hfollows.complete hresp hpc hopen

/-- The first byte of a message comes with the response. -/
theorem delivered_of_run_split :
    let s := ran [.run, .connected none, .read (plainResponse ++ [0x82]), .frame, .read [1, 7],
      .frame, .frame] (by decide +kernel)
    let fs : List (WsFrame × LengthForm) := [(plainFrame true 2 [7], .short)]
    s.ctx.messages <+: arrives .absent .plain plainResponse fs ∧ s.pc ≠ .thrown ∧
      (([] : Bytes) = [] → s.pc ≠ .reading → s.ctx.rxIsTerminating = false →
        s.ctx.messages = arrives .absent .plain plainResponse fs) :=
  @delivered_of_run _ _ _ plainResponse [(plainFrame true 2 [7], .short)] (by decide +kernel)
    (by decide +kernel) (by decide) [.run, .connected none, .read (plainResponse ++ [0x82]),
      .frame, .read [1, 7], .frame, .frame] _ (Option.some_get _).symm [] (by decide +kernel)

/-- A turn that goes on has taken a frame. -/
theorem length_onDataTurn {s : Client Z} (h : (s.onDataTurn app).pc = .reading) :
    (s.onDataTurn app).input.length < s.input.length := by
  unfold Client.onDataTurn at h ⊢
  by_cases hended : Rx.Ended (Context.sinks app) (⟨s.receiver, s.ctx, false⟩ : Rx Z (Context Z))
  · rw [Rx.onDataTurn_ended hended] at h
    cases h
  rcases Rx.onDataTurn_cases hended s.input with hwait | ⟨why, hfail⟩ | hthrow |
    ⟨x', n, -, -, hpos, hle, hnext⟩
  · rw [hwait] at h
    cases h
  · have hturn := hfail []
    rw [List.append_nil] at hturn
    rw [hturn] at h
    exact absurd h (by simp [Rx.fail])
  · have hturn := hthrow []
    rw [List.append_nil] at hturn
    rw [hturn] at h
    exact absurd h (by simp)
  · have hturn := hnext []
    rw [List.append_nil] at hturn
    rw [hturn]
    dsimp only
    rw [List.length_drop]
    omega

/-- A loop of `onData` comes to its end by turns of its own. -/
theorem reading_ends (s : Client Z) : ∃ n t,
    (machine cfg app).run s (List.replicate n .frame) = some t ∧ t.pc ≠ .reading := by
  induction hlen : s.input.length using Nat.strongRecOn generalizing s with
  | ind len ih =>
      by_cases hpc : s.pc = .reading
      · have hstep : (machine cfg app).step s .frame = some (s.onDataTurn app) := if_pos hpc
        by_cases hnext : (s.onDataTurn app).pc = .reading
        · have hshorter : (s.onDataTurn app).input.length < len :=
            hlen ▸ length_onDataTurn hnext
          obtain ⟨n, t, hrun, hout⟩ := ih _ hshorter _ rfl
          refine ⟨n + 1, t, ?_, hout⟩
          rw [List.replicate_succ, Lib.Machine.run_cons_of_step hstep]
          exact hrun
        · exact ⟨1, _, Lib.Machine.run_cons_of_step hstep [], hnext⟩
      · exact ⟨0, s, rfl, hpc⟩

/-- What the frames of a conforming server come to: its messages. -/
theorem arrives_items {items : List Item} {es : List Event}
    (hitems : Conforms Inflater.decode (compressionOf Z cfg resp).1 (compressionOf Z cfg resp).2
      items es)
    (hframes : fs.map Prod.fst = items.flatMap Item.frames) : arrives Z cfg resp fs = told es := by
  unfold arrives
  rw [hframes, assemble_items _ _ _ hitems]

/-- A conforming server, compressed messages included: what the application is told are
    its messages, each whole and in order; and a client that has read everything comes to
    the last one by turns of its own, unless the connection has been stopped or closed. -/
theorem items_of_run (hresp : headerBytes resp = some resp.length)
    (haccepted : upgradeAccepted resp = true) (hfs : Writable fs) {items : List Item}
    {es : List Event}
    (hitems : Conforms Inflater.decode (compressionOf Z cfg resp).1 (compressionOf Z cfg resp).2
      items es)
    (hframes : fs.map Prod.fst = items.flatMap Item.frames) {as : List Act} {s : Client Z}
    (hrun : (machine cfg app).run init as = some s) {more : Bytes}
    (hread : received as ++ more = resp ++ wire fs) :
    s.ctx.messages <+: told es ∧
      (more = [] → ∃ n t, (machine cfg app).run s (List.replicate n .frame) = some t ∧
        (t.ctx.rxIsTerminating = true ∨ t.ctx.messages = told es)) := by
  have harrives := arrives_items hitems hframes
  have hfollows := follows_of_run hresp haccepted hfs hrun hread
  refine ⟨harrives ▸ hfollows.messages, fun hmore => ?_⟩
  subst hmore
  obtain ⟨n, t, ht, hpc⟩ := @reading_ends Z app cfg s
  refine ⟨n, t, ht, ?_⟩
  have hnone : received (List.replicate n Act.frame) = [] := by
    unfold received
    rw [List.flatMap_eq_nil_iff]
    exact fun a ha => List.eq_of_mem_replicate ha ▸ rfl
  have hlater : received (as ++ List.replicate n Act.frame) ++ [] = resp ++ wire fs := by
    rw [← hread]
    refine congrArg (· ++ []) ?_
    unfold received at hnone ⊢
    rw [List.flatMap_append, hnone, List.append_nil]
  have hlast := follows_of_run hresp haccepted hfs
    ((Lib.Machine.run_append hrun _).trans ht) hlater
  by_cases hterm : t.ctx.rxIsTerminating = true
  · exact .inl hterm
  · exact .inr ((hlast.complete hresp hpc (Bool.eq_false_iff.mpr hterm)).trans harrives)

theorem compressionOf_deflate : compressionOf .stored .deflate deflateResponse =
    (true, ⟨⟨true, true, true, 15, 15, 6⟩, some ()⟩) := by
  have hnegotiated : negotiate .deflate deflateResponse = some ⟨true, true, true, 15, 15, 6⟩ := by
    decide +kernel
  rw [compressionOf, hnegotiated]
  rfl

/-- A text in two fragments, with a ping between them, and a binary message that is
    compressed, cut inside the second fragment. -/
theorem items_of_run_text :
    let s := ranDeflate [.run, .connected none,
      .read (deflateResponse ++ [0x01, 1, 0xC3, 0x89, 1, 7, 0x80]), .frame, .frame, .frame,
      .read [126, 0, 1, 0xA9, 0xC2, 8, 0, 2, 0, 0xFD, 0xFF, 5, 6, 0]] (by decide +kernel)
    s.ctx.messages <+: [.message [0xC3, 0xA9], .binary [5, 6]] ∧
      (([] : Bytes) = [] → ∃ n t,
        (machine .deflate .idle).run s (List.replicate n .frame) = some t ∧
          (t.ctx.rxIsTerminating = true ∨
            t.ctx.messages = [.message [0xC3, 0xA9], .binary [5, 6]])) := by
  intro s
  have htext : WellFormedUtf8 [0xC3, 0xA9] := (isValidUtf8_iff _).mp (by decide +kernel)
  have hread : received [.run, .connected none,
      .read (deflateResponse ++ [0x01, 1, 0xC3, 0x89, 1, 7, 0x80]), .frame, .frame, .frame,
      .read [126, 0, 1, 0xA9, 0xC2, 8, 0, 2, 0, 0xFD, 0xFF, 5, 6, 0]] ++ [] =
      deflateResponse ++ wire [(plainFrame false 1 [0xC3], .short), (plainFrame true 9 [7], .short),
        (plainFrame true 0 [0xA9], .medium),
        ({ plainFrame true 2 packed with rsv1 := true }, .short)] := by
    decide +kernel
  have hitems : Conforms Inflater.decode (compressionOf .stored .deflate deflateResponse).1
      (compressionOf .stored .deflate deflateResponse).2
      [.message true false [0xC3] [⟨[.ping [7]], [0xA9]⟩], .message false true packed []]
      [.ping [7], .text [0xC3, 0xA9], .binary [5, 6]] := by
    rw [compressionOf_deflate]
    exact .message (by decide) ⟨rfl, rfl⟩ (fun _ => htext)
      (.message (by decide) ⟨rfl, decode_stored rfl () (by decide) rfl⟩
        (fun h => absurd h (by decide)) (.nil _))
  exact @items_of_run _ _ _ deflateResponse
    [(plainFrame false 1 [0xC3], .short), (plainFrame true 9 [7], .short),
      (plainFrame true 0 [0xA9], .medium),
      ({ plainFrame true 2 packed with rsv1 := true }, .short)]
    (by decide +kernel) (by decide +kernel) (by decide) _ _ hitems rfl _ _ (Option.some_get _).symm
    [] hread

end Stream

end Client

end Inbound

end FsBridge.Libwsc
