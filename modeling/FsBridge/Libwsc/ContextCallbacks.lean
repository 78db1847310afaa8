/-
  FsBridge.Libwsc.ContextCallbacks

  What an application is told, in which order: errors while the connection is set up,
  that it is open, its messages, at most two errors, and that it is closed, once and
  as the last.

  * `Stage` — where the connection is, from the callbacks alone.
  * `Hears` — the stage against the state of the context.  It is checked on changes
    that call nothing (`Silent`) and on a callback with what is done behind it.
-/

import FsBridge.Libwsc.ClientLaws

namespace FsBridge.Libwsc

open FsBridge.Lib

-- ============================================================================
-- The order of the callbacks
-- ============================================================================

inductive Stage where
  | handshake
  | running
  /-- An error has been reported on an open connection; again? -/
  | failed (again : Bool)
  | closed
deriving DecidableEq, Repr

def Stage.next : Stage → Callback → Option Stage
  | .handshake, .error _ _ => some .handshake
  | .handshake, .opened => some .running
  | .running, .message _ => some .running
  | .running, .binary _ => some .running
  | .running, .error _ _ => some (.failed false)
  | .failed false, .error _ _ => some (.failed true)
  | .running, .closed _ _ => some .closed
  | .failed _, .closed _ _ => some .closed
  | _, _ => none

/-- The stage after the callbacks; `none` where one was out of order. -/
def Stage.after (cbs : List Callback) : Option Stage := cbs.foldlM Stage.next .handshake

theorem Stage.after_snoc (cbs : List Callback) (cb : Callback) :
    Stage.after (cbs ++ [cb]) = (Stage.after cbs).bind fun stage => stage.next cb := by
  unfold Stage.after
  rw [List.foldlM_append]
  simp only [List.foldlM_cons, List.foldlM_nil, bind_pure]
  rfl

/-- Errors, that the connection is open, and messages. -/
def Conversation (cbs : List Callback) : Prop :=
  ∃ early messages, cbs = early ++ .opened :: messages ∧ (∀ cb ∈ early, cb.isError) ∧
    ∀ cb ∈ messages, cb.isMessage

/-- The callbacks that lead to a stage. -/
def Stage.Shape (cbs : List Callback) : Stage → Prop
  | .handshake => ∀ cb ∈ cbs, cb.isError
  | .running => Conversation cbs
  | .failed again => ∃ open_cbs late, cbs = open_cbs ++ late ∧ Conversation open_cbs ∧
      late.length = (if again then 2 else 1) ∧ ∀ cb ∈ late, cb.isError
  | .closed => ∃ open_cbs late code reason, cbs = open_cbs ++ late ++ [.closed code reason] ∧
      Conversation open_cbs ∧ late.length ≤ 2 ∧ ∀ cb ∈ late, cb.isError

theorem forall_mem_snoc {α : Type*} {p : α → Prop} {l : List α} {a : α} (h : ∀ b ∈ l, p b)
    (ha : p a) : ∀ b ∈ l ++ [a], p b := by
  intro b hb
  rcases List.mem_append.mp hb with hb | hb
  · exact h b hb
  · exact List.mem_singleton.mp hb ▸ ha

theorem Stage.Shape.next {stage stage' : Stage} {cbs : List Callback} {cb : Callback}
    (h : stage.Shape cbs) (hnext : stage.next cb = some stage') :
    stage'.Shape (cbs ++ [cb]) := by
  have hnone : ∀ cb' ∈ ([] : List Callback), cb'.isError = true :=
    fun _ hcb => absurd hcb List.not_mem_nil
  cases stage with
  | handshake =>
      cases cb with
      | error code message =>
          obtain rfl := Option.some.inj hnext
          exact forall_mem_snoc h rfl
      | opened =>
          obtain rfl := Option.some.inj hnext
          exact ⟨cbs, [], rfl, h, fun _ hcb => absurd hcb List.not_mem_nil⟩
      | message _ | binary _ | closed _ _ => cases hnext
  | running =>
      cases cb with
      | message _ | binary _ =>
          obtain rfl := Option.some.inj hnext
          obtain ⟨early, messages, rfl, hearly, hmessages⟩ := h
          exact ⟨early, _, List.append_assoc early _ _, hearly, forall_mem_snoc hmessages rfl⟩
      | error code message =>
          obtain rfl := Option.some.inj hnext
          exact ⟨cbs, _, rfl, h, rfl, forall_mem_snoc hnone rfl⟩
      | closed code reason =>
          obtain rfl := Option.some.inj hnext
          exact ⟨cbs, [], code, reason, by rw [List.append_nil], h, Nat.zero_le 2, hnone⟩
      | opened => cases hnext
  | failed again =>
      obtain ⟨cbs', late, rfl, hrunning, hlen, hlate⟩ := h
      cases cb with
      | error code message =>
          cases again with
          | false =>
              obtain rfl := Option.some.inj hnext
              refine ⟨cbs', _, List.append_assoc cbs' _ _, hrunning, ?_, forall_mem_snoc hlate rfl⟩
              rw [List.length_append, hlen]
              rfl
          | true => cases hnext
      | closed code reason =>
          have hnext : some Stage.closed = some stage' := by
            cases again <;> exact hnext
          obtain rfl := Option.some.inj hnext
          refine ⟨cbs', late, code, reason, rfl, hrunning, ?_, hlate⟩
          rw [hlen]
          split <;> omega
      | message _ | binary _ | opened => cases again <;> cases hnext
  | closed => cases cb <;> cases hnext

/-- What was told is told by the stage it has led to. -/
theorem Stage.shape_of_after {cbs : List Callback} {stage : Stage}
    (h : Stage.after cbs = some stage) : stage.Shape cbs := by
  induction cbs using List.reverseRecOn generalizing stage with
  | nil =>
      obtain rfl := Option.some.inj h
      exact fun _ hcb => absurd hcb List.not_mem_nil
  | append_singleton cbs cb ih =>
      rw [Stage.after_snoc] at h
      obtain ⟨before, hbefore, hnext⟩ := Option.bind_eq_some_iff.mp h
      exact (ih hbefore).next hnext

section ContextCallbacks

variable {Z : Zlib} {app : App} {cfg : Config}

namespace Context

-- ============================================================================
-- Changes that call nothing
-- ============================================================================

structure Silent (x x' : Context Z) : Prop where
  callbacks : x'.callbacks = x.callbacks
  upgraded : x'.upgraded = x.upgraded
  close_cb_fired : x'.close_cb_fired = x.close_cb_fired
  isClosing : x.upgraded = true → x.isClosing = true → x'.isClosing = true
  stop_requested : x.stop_requested = true → x'.stop_requested = true
  close_sent : x.close_sent = true → x'.close_sent = true
  timeout_event : x'.timeout_event = true → x.timeout_event = true
  keeps_received : x.close_received = true → x'.close_received = true
  close_received : x'.close_received = true →
    x.close_received = true ∨ x'.upgraded = true ∧ x'.isClosing = true

theorem Silent.refl (x : Context Z) : Silent x x :=
  ⟨rfl, rfl, rfl, fun _ => id, id, id, id, id, .inl⟩

theorem Silent.trans {x y z : Context Z} (h : Silent x y) (h' : Silent y z) : Silent x z where
  callbacks := h'.callbacks.trans h.callbacks
  upgraded := h'.upgraded.trans h.upgraded
  close_cb_fired := h'.close_cb_fired.trans h.close_cb_fired
  isClosing hup hx := h'.isClosing (h.upgraded.trans hup) (h.isClosing hup hx)
  stop_requested hx := h'.stop_requested (h.stop_requested hx)
  close_sent hx := h'.close_sent (h.close_sent hx)
  timeout_event hz := h.timeout_event (h'.timeout_event hz)
  keeps_received hx := h'.keeps_received (h.keeps_received hx)
  close_received hz := by
    rcases h'.close_received hz with hy | hz'
    · rcases h.close_received hy with hx | ⟨hup, hclosing⟩
      · exact .inl hx
      · exact .inr ⟨h'.upgraded.trans hup, h'.isClosing hup hclosing⟩
    · exact .inr hz'

theorem Quiet1.silent {x x' : Context Z} (h : Quiet1 app x x') : Silent x x' := by
  have hsame := h.sameState
  refine ⟨hsame.callbacks, hsame.upgraded, hsame.close_cb_fired, fun _ hx =>
    hsame.isClosing.trans hx, hsame.stop_requested, fun hx => ?_, fun hx' =>
    hsame.timeout_event ▸ hx', fun hx => hsame.close_received.trans hx, fun hx' =>
    .inl (hsame.close_received ▸ hx')⟩
  cases h with
  | send type raw hup hopen htype => exact hx
  | pop p rest hqueue =>
      rcases @flushOne_cases Z app { x with send_queue := rest }
        (x.connection_state = .connected) p with
        hone | ⟨_, _, _, _, _, _, hone⟩ | ⟨_, _, _, _, hone⟩
      · rw [hone]
        exact hx
      · rw [hone]
        exact hx
      · rw [hone]
  | push p hp =>
      unfold Context.push
      split <;> exact hx
  | mark x' hmark =>
      rw [hmark.rest]
      exact hx

theorem Quiet.silent {x x' : Context Z} (h : Quiet app x x') : Silent x x' :=
  h.keeps (P := Silent x) (fun _ _ hx hstep => hx.trans hstep.silent) (.refl x)

theorem silent_requestLoopExit (x : Context Z) : Silent x x.requestLoopExit := by
  unfold requestLoopExit
  split <;> exact ⟨rfl, rfl, rfl, fun _ => id, fun _ => rfl, id, id, id, .inl⟩

theorem silent_closing (x : Context Z) {state : ConnectionState}
    (h : state = .disconnecting ∨ state = .disconnected) :
    Silent x { x with connection_state := state } :=
  ⟨rfl, rfl, rfl, fun _ _ => decide_eq_true h, id, id, id, id, .inl⟩

theorem silent_queue (x : Context Z) (queue queued : List Pending)
    (flushed : List (Pending × Bool)) :
    Silent x { x with send_queue := queue, queued := queued, flushed := flushed } :=
  ⟨rfl, rfl, rfl, fun _ => id, id, id, id, id, .inl⟩

theorem silent_close (app : App) (x : Context Z) (code : Nat) (reason : Bytes) :
    Silent x (x.close code reason) := by
  have hdisconnecting := silent_closing x (.inl rfl)
  rcases close_cases x code reason with
    ⟨-, heq⟩ | ⟨-, heq⟩ | ⟨-, ⟨-, heq⟩ | ⟨-, heq⟩ | ⟨-, heq⟩⟩
  · rw [heq]
    exact .refl x
  · rw [heq]
    exact (silent_closing x (.inr rfl)).trans (silent_requestLoopExit _)
  · rw [heq]
    exact hdisconnecting
  · rw [heq]
    exact hdisconnecting.trans (silent_requestLoopExit _)
  · rw [heq]
    exact (hdisconnecting.trans (silent_queue _ _ _ _)).trans
      (@quiet_requestSendFlush Z app _).silent

theorem silent_stopNow (app : App) (x : Context Z) : Silent x x.stopNow := by
  unfold stopNow
  split
  · exact .refl x
  · split
    · exact (silent_closing x (.inr rfl)).trans (silent_requestLoopExit _)
    · exact silent_close app x _ _

theorem Silent.rxIsTerminating {x x' : Context Z} (h : Silent x x') (hup : x.upgraded = true)
    (hx : x.rxIsTerminating = true) : x'.rxIsTerminating = true := by
  unfold Context.rxIsTerminating at hx ⊢
  rw [Bool.or_eq_true] at hx ⊢
  exact hx.imp (h.isClosing hup) h.stop_requested

-- ============================================================================
-- The stage of a context
-- ============================================================================

/-- What the application has been told, against the state. -/
structure Hears (x : Context Z) (stage : Stage) : Prop where
  after : Stage.after x.callbacks = some stage
  handshake : stage = .handshake ↔ x.upgraded = false
  failed : ∀ again, stage = .failed again → x.rxIsTerminating = true
  fired : stage = .closed ↔ x.close_cb_fired = true
  closed : stage = .closed → x.isClosing = true ∧ (x.close_sent = true ∨ x.close_received = true)
  timeout : x.upgraded = true → x.timeout_event = false
  received : x.close_received = true → x.upgraded = true ∧ x.isClosing = true

theorem Hears.upgraded {x : Context Z} {stage : Stage} (h : Hears x stage)
    (hstage : stage ≠ .handshake) : x.upgraded = true := by
  by_contra hup
  exact hstage (h.handshake.mpr (Bool.eq_false_iff.mpr hup))

theorem Silent.timeout {x x' : Context Z} (h : Silent x x')
    (hx : x.upgraded = true → x.timeout_event = false) (hup : x'.upgraded = true) :
    x'.timeout_event = false := by
  by_contra hset
  have hold := h.timeout_event (Bool.not_eq_false _ ▸ hset)
  exact absurd (hold.symm.trans (hx (h.upgraded ▸ hup))) (by decide)

theorem Silent.received {x x' : Context Z} (h : Silent x x')
    (hx : x.close_received = true → x.upgraded = true ∧ x.isClosing = true)
    (hr : x'.close_received = true) : x'.upgraded = true ∧ x'.isClosing = true := by
  rcases h.close_received hr with hr | hclosing
  · obtain ⟨hup, hclosing⟩ := hx hr
    exact ⟨h.upgraded.trans hup, h.isClosing hup hclosing⟩
  · exact hclosing

theorem Hears.silent {x x' : Context Z} {stage : Stage} (h : Hears x stage) (hs : Silent x x') :
    Hears x' stage where
  after := by rw [hs.callbacks, h.after]
  handshake := by rw [hs.upgraded, h.handshake]
  failed again hstage :=
    hs.rxIsTerminating (h.upgraded (by simp [hstage])) (h.failed again hstage)
  fired := by rw [hs.close_cb_fired, h.fired]
  closed hstage := by
    obtain ⟨hclosing, hwhy⟩ := h.closed hstage
    exact ⟨hs.isClosing (h.upgraded (by simp [hstage])) hclosing,
      hwhy.imp hs.close_sent hs.keeps_received⟩
  timeout := hs.timeout h.timeout
  received := hs.received h.received

/-- A callback other than the last, and what is done behind it. -/
theorem Hears.told {x z : Context Z} {stage stage' : Stage} {cb : Callback} (h : Hears x stage)
    (hnext : stage.next cb = some stage') (hsame : stage' = .handshake ↔ stage = .handshake)
    (hopen : stage' ≠ .closed) (hs : Silent (x.callback app cb) z)
    (hfailed : ∀ again, stage' = .failed again → z.rxIsTerminating = true) : Hears z stage' := by
  have hlogged := @callback_sameState Z app x cb
  have hstage : stage ≠ .closed := by
    rintro rfl
    cases hnext
  have hz : Silent { x with callbacks := x.callbacks ++ [cb] } z :=
    (@quiet_callback Z app x cb).silent.trans hs
  refine ⟨?_, ?_, hfailed, ?_, fun hc => absurd hc hopen, hz.timeout h.timeout,
    hz.received h.received⟩
  · rw [hz.callbacks, Stage.after_snoc, h.after]
    exact hnext
  · rw [hsame, h.handshake, hz.upgraded]
  · have hfired : z.close_cb_fired = x.close_cb_fired := hz.close_cb_fired
    rw [hfired, ← h.fired]
    exact ⟨fun hc => absurd hc hopen, fun hc => absurd hc hstage⟩

theorem Hears.closeCallback {x : Context Z} {stage : Stage} (h : Hears x stage)
    (hup : x.upgraded = true) (hclosing : x.isClosing = true)
    (hwhy : x.close_sent = true ∨ x.close_received = true) (code : Nat) (reason : Bytes) :
    Hears (x.sendCloseCallback app code reason) .closed := by
  unfold sendCloseCallback
  by_cases hfired : x.close_cb_fired = true
  · rw [if_pos hfired]
    exact h.fired.mpr hfired ▸ h
  rw [if_neg hfired]
  have hs := (@quiet_callback Z app { x with close_cb_fired := true } (.closed code reason)).silent
  have hnext : stage.next (.closed code reason) = some .closed := by
    match stage with
    | .handshake => exact absurd ((h.handshake.mp rfl).symm.trans hup) (by decide)
    | .running => rfl
    | .failed false => rfl
    | .failed true => rfl
    | .closed => exact absurd (h.fired.mp rfl) hfired
  refine ⟨?_, ?_, fun again hc => (by cases hc), ?_, fun _ => ⟨hs.isClosing hup hclosing,
    hwhy.imp hs.close_sent hs.keeps_received⟩, hs.timeout h.timeout, hs.received h.received⟩
  · rw [hs.callbacks, Stage.after_snoc, h.after]
    exact hnext
  · rw [hs.upgraded]
    exact ⟨fun hc => (by cases hc), fun hc => absurd (hc.symm.trans hup) (by decide)⟩
  · exact ⟨fun _ => hs.close_cb_fired, fun _ => rfl⟩

/-- An open connection that reads is one whose application waits for messages. -/
theorem Hears.running {x : Context Z} {stage : Stage} (h : Hears x stage)
    (hup : x.upgraded = true) (hrun : x.rxIsTerminating = false) : stage = .running := by
  match stage with
  | .handshake => exact absurd ((h.handshake.mp rfl).symm.trans hup) (by decide)
  | .running => rfl
  | .failed again => exact absurd ((h.failed again rfl).symm.trans hrun) (by decide)
  | .closed =>
      have hterm := rxIsTerminating_of_isClosing (h.closed rfl).1
      exact absurd (hterm.symm.trans hrun) (by decide)

-- ============================================================================
-- The operations
-- ============================================================================

/-- Before the handshake is done only the callbacks matter. -/
theorem Hears.fresh {x x' : Context Z} {stage : Stage} (h : Hears x stage)
    (hup : x.upgraded = false) (hcallbacks : x'.callbacks = x.callbacks)
    (hup' : x'.upgraded = false) (hfired : x'.close_cb_fired = x.close_cb_fired)
    (hreceived : x'.close_received = x.close_received) : Hears x' .handshake := by
  obtain rfl := h.handshake.mpr hup
  refine ⟨hcallbacks ▸ h.after, ⟨fun _ => hup', fun _ => rfl⟩, fun _ hc => (by cases hc),
    hfired ▸ h.fired, fun hc => (by cases hc), fun hopen => ?_, fun hr => ?_⟩
  · exact absurd (hup'.symm.trans hopen) (by decide)
  · have hopen := (h.received (hreceived ▸ hr)).1
    exact absurd (hup.symm.trans hopen) (by decide)

/-- An error before the handshake is done, and what is done behind it. -/
theorem Hears.earlyError {x z : Context Z} {stage : Stage} (h : Hears x stage)
    (hup : x.upgraded = false) (code : ErrorCode) (message : Bytes)
    (hs : Silent (x.sendError app code message) z) : Hears z .handshake := by
  obtain rfl := h.handshake.mpr hup
  exact @Hears.told Z app _ _ _ .handshake _ h rfl Iff.rfl (by decide) hs fun _ hc => (by cases hc)

/-- An error on an open connection, behind which it terminates. -/
theorem Hears.lateError {x z : Context Z} (h : Hears x .running) (code : ErrorCode)
    (message : Bytes) (hs : Silent (x.sendError app code message) z)
    (hterm : z.rxIsTerminating = true) : Hears z (.failed false) :=
  @Hears.told Z app _ _ _ (.failed false) _ h rfl (by decide) (by decide) hs fun _ _ => hterm

theorem hears_onRxClose {x : Context Z} (h : Hears x .running) (hinv : Inv x) (code : Nat)
    (reason : Bytes) : Hears (x.onRxClose app code reason) .closed := by
  have hup := h.upgraded (by decide)
  -- the close frame is seen where the connection is closing
  have hreceive : ∀ y : Context Z, Silent { x with close_received := true } y →
      y.isClosing = true → Hears (y.sendCloseCallback app code reason) .closed := by
    intro y hs hclosing
    have hy : Silent x y :=
      ⟨hs.callbacks, hs.upgraded, hs.close_cb_fired, hs.isClosing, hs.stop_requested,
        hs.close_sent, hs.timeout_event, fun _ => hs.keeps_received rfl,
        fun _ => .inr ⟨hs.upgraded.trans hup, hclosing⟩⟩
    exact (h.silent hy).closeCallback (hs.upgraded.trans hup) hclosing
      (.inr (hs.keeps_received rfl)) code reason
  unfold onRxClose
  dsimp only
  by_cases hsent : x.close_sent = true
  · rw [if_pos hsent]
    exact hreceive _ (.refl _) (hinv.sent hsent)
  · rw [if_neg hsent]
    have hflush := @quiet_flushSendQueue Z app
      ({ x with close_received := true }.close code reason)
    refine hreceive _ ((silent_close app _ code reason).trans hflush.silent) ?_
    rw [hflush.sameState.isClosing]
    exact isClosing_close _ code reason

theorem hears_onRxProtocolError {x : Context Z} (h : Hears x .running) (closeCode : Nat)
    (why : String) : ∃ stage, Hears (x.onRxProtocolError app closeCode why) stage ∧
      stage ≠ .failed true := by
  unfold onRxProtocolError
  by_cases hfailed : x.protocol_failed = true
  · rw [if_pos hfailed]
    exact ⟨.running, h, by decide⟩
  rw [if_neg hfailed]
  have hbefore : Hears { x with protocol_failed := true } .running :=
    h.silent ⟨rfl, rfl, rfl, fun _ => id, id, id, id, id, .inl⟩
  refine ⟨.failed false, ?_, by decide⟩
  dsimp only
  split
  · have hflush := @quiet_requestSendFlush Z app
      (({ x with protocol_failed := true }.sendError app .protocol
        (protocolMessage closeCode why)).close closeCode (ascii why))
    refine hbefore.lateError .protocol (protocolMessage closeCode why)
      ((silent_close app _ _ _).trans hflush.silent) (rxIsTerminating_of_isClosing ?_)
    rw [hflush.sameState.isClosing]
    exact isClosing_close _ closeCode (ascii why)
  · exact hbefore.lateError .protocol (protocolMessage closeCode why) (silent_requestLoopExit _)
      (rxIsTerminating_requestLoopExit _)

/-- What the receiver tells an open connection. -/
theorem hears_told {x x' : Context Z} {stage : Stage} (h : Hears x stage) (hinv : Inv x)
    (hup : x.upgraded = true) (hrun : x.rxIsTerminating = false) (htold : Told (sinks app) x x') :
    ∃ stage', Hears x' stage' ∧ stage' ≠ .failed true := by
  obtain rfl := h.running hup hrun
  have hmessage : ∀ cb, Stage.next .running cb = some .running →
      Hears (x.callback app cb) .running := fun cb hnext =>
    h.told hnext Iff.rfl (by decide) (.refl _) fun _ hc => (by cases hc)
  cases htold with
  | nothing => exact ⟨.running, h, by decide⟩
  | ping p =>
      refine ⟨.running, h.silent ?_, by decide⟩
      show Silent x (x.onRxPing app p)
      unfold onRxPing
      split
      · exact ⟨rfl, rfl, rfl, fun _ => id, id, id, id, id, .inl⟩
      · exact .refl x
  | text m => exact ⟨.running, hmessage (.message m) rfl, by decide⟩
  | binary m => exact ⟨.running, hmessage (.binary m) rfl, by decide⟩
  | close code reason => exact ⟨.closed, hears_onRxClose h hinv code reason, by decide⟩
  | error code why => exact hears_onRxProtocolError h code why

/-- An error, a timeout or the end of the stream: a second error only at the end. -/
theorem hears_handleEvent {x : Context Z} {stage : Stage} (h : Hears x stage) (hinv : Inv x)
    (hagain : stage ≠ .failed true) (events : BevEvents) :
    ∃ stage', Hears (x.handleEvent app events) stage' ∧
      (stage' = .failed true → events.eof = true) := by
  have hdisconnecting : ∀ y : Context Z,
      Silent y { y with connection_state := .disconnecting }.requestLoopExit := fun y =>
    (silent_closing y (.inl rfl)).trans (silent_requestLoopExit _)
  have hclear : ∀ y : Context Z, Silent y y.clearQueue := fun y => silent_queue y _ _ _
  -- the first error, whether the handshake is done or not
  have hfirst : x.rxIsTerminating = false → ∀ code message (z : Context Z),
      Silent (x.sendError app code message) z →
      ∃ stage', Hears { z with connection_state := .disconnecting }.requestLoopExit stage' ∧
        (stage' = .failed true → events.eof = true) := by
    intro hrun code message z hz
    by_cases hup : x.upgraded = true
    · obtain rfl := h.running hup hrun
      exact ⟨.failed false, h.lateError code message (hz.trans (hdisconnecting z))
        (rxIsTerminating_requestLoopExit _), fun hc => (by cases hc)⟩
    · exact ⟨.handshake, h.earlyError (Bool.eq_false_iff.mpr hup) code message
        (hz.trans (hdisconnecting z)), fun hc => (by cases hc)⟩
  unfold handleEvent
  dsimp only
  by_cases hstopping : (x.stop_requested || x.isClosing) = true ∧
      (events.error = true ∨ events.timeout = true)
  · rw [if_pos hstopping]
    exact ⟨stage, h.silent (silent_requestLoopExit x), fun hc => absurd hc hagain⟩
  rw [if_neg hstopping]
  have hrun : events.error = true ∨ events.timeout = true → x.rxIsTerminating = false := by
    intro hevent
    have hnot := fun hterm => hstopping ⟨hterm, hevent⟩
    rw [rxIsTerminating, Bool.or_comm]
    exact Bool.eq_false_iff.mpr hnot
  by_cases herror : events.error = true
  · rw [if_pos herror]
    cases events.sslError with
    | some err => exact hfirst (hrun (.inl herror)) _ _ _ (.refl _)
    | none =>
        refine hfirst (hrun (.inl herror)) (if x.upgraded = true then .io else .connectFailed)
          (events.socketError.getD (ascii "Connection error")) _ ?_
        split
        · exact .refl _
        · exact hclear _
  rw [if_neg herror]
  by_cases htimeout : events.timeout = true
  · rw [if_pos htimeout]
    split
    · exact hfirst (hrun (.inr htimeout)) _ _ _ (.refl _)
    · exact hfirst (hrun (.inr htimeout)) _ _ _ (hclear _)
  rw [if_neg htimeout]
  by_cases heof : events.eof = true
  · rw [if_pos heof]
    by_cases hup : x.upgraded = true
    · rw [if_neg (not_not.mpr hup)]
      by_cases hgraceful : (x.close_received || x.close_sent) = true
      · -- the handshake of the close has been begun
        rw [if_neg (not_not.mpr hgraceful)]
        rw [Bool.or_eq_true] at hgraceful
        have hclosing := hgraceful.elim (fun hr => (h.received hr).2) hinv.sent
        exact ⟨.closed, (h.closeCallback hup hclosing hgraceful.symm _ _).silent
          (silent_requestLoopExit _), fun _ => heof⟩
      · rw [if_pos hgraceful]
        have hs := @hdisconnecting (x.sendError app .io
          (ascii "Connection closed without WebSocket CLOSE (abnormal EOF)"))
        have hterm := rxIsTerminating_requestLoopExit { x.sendError app .io
          (ascii "Connection closed without WebSocket CLOSE (abnormal EOF)") with
            connection_state := .disconnecting }
        cases stage with
        | handshake => exact absurd ((h.handshake.mp rfl).symm.trans hup) (by decide)
        | running => exact ⟨.failed false, h.lateError _ _ hs hterm, fun _ => heof⟩
        | failed again =>
            have hfirst : again = false := Bool.eq_false_iff.mpr fun hc => hagain (hc ▸ rfl)
            subst hfirst
            exact ⟨.failed true, @Hears.told Z app _ _ _ (.failed true) _ h rfl (by decide)
              (by decide) hs fun _ _ => hterm, fun _ => heof⟩
        | closed =>
            rw [Bool.or_eq_true] at hgraceful
            exact absurd (h.closed rfl).2.symm hgraceful
    · rw [if_pos hup]
      exact ⟨.handshake, h.earlyError (Bool.eq_false_iff.mpr hup) _ _
        ((hclear _).trans (silent_requestLoopExit _)), fun _ => heof⟩
  · rw [if_neg heof]
    exact ⟨stage, h, fun hc => absurd hc hagain⟩

theorem hears_timeoutCallback {x : Context Z} {stage : Stage} (h : Hears x stage)
    (hup : x.upgraded = false) : Hears (x.timeoutCallback app) .handshake := by
  unfold timeoutCallback
  split
  · exact h.handshake.mpr hup ▸ h
  · exact h.earlyError hup _ _ (silent_requestLoopExit _)

theorem silent_wakeupCallback (app : App) (x : Context Z) : Silent x (x.wakeupCallback app) := by
  unfold wakeupCallback
  split
  · exact .refl x
  · split
    · exact silent_stopNow app x
    · exact (@quiet_flushSendQueue Z app x).silent

theorem hears_closeTimerCb {x : Context Z} {stage : Stage} (h : Hears x stage) (hinv : Inv x)
    (hsent : x.close_sent = true) :
    ∃ stage', Hears (x.closeTimerCb app) stage' ∧ (stage' = .failed true → stage = .failed true) := by
  unfold closeTimerCb
  split
  · exact ⟨stage, h, id⟩
  · have hup : x.upgraded = true := by
      by_contra hup
      have hfresh := (hinv.fresh (Bool.eq_false_iff.mpr hup)).2.1
      exact absurd (hsent.symm.trans hfresh) (by decide)
    refine ⟨.closed, ?_, fun hc => (by cases hc)⟩
    exact (h.closeCallback hup (hinv.sent hsent) (.inl hsent) _ _).silent
      ((silent_closing _ (.inr rfl)).trans (silent_requestLoopExit _))

/-- The handshake is done. -/
theorem hears_opened {x : Context Z} (h : Hears x .handshake) :
    Hears { ({ x with upgraded := true, connection_state := .connected }.flushSendQueue
      app).callback app .opened with timeout_event := false } .running := by
  have hflush := (@quiet_flushSendQueue Z app
    { x with upgraded := true, connection_state := .connected }).sameState
  have hcallback := @callback_sameState Z app
    ({ x with upgraded := true, connection_state := .connected }.flushSendQueue app) .opened
  generalize { x with upgraded := true, connection_state := .connected }.flushSendQueue app = y
    at hflush hcallback ⊢
  have hup := h.handshake.mp rfl
  have hfired : x.close_cb_fired = false := by
    by_contra hfired
    cases h.fired.mpr (Bool.not_eq_false _ ▸ hfired)
  have hreceived : x.close_received = false := by
    by_contra hr
    have hopen := (h.received (Bool.not_eq_false _ ▸ hr)).1
    exact absurd (hup.symm.trans hopen) (by decide)
  refine ⟨?_, ?_, fun _ hc => (by cases hc), ?_, fun hc => (by cases hc), fun _ => rfl,
    fun hr => ?_⟩
  · show Stage.after (y.callback app .opened).callbacks = some .running
    rw [hcallback.callbacks]
    show Stage.after (y.callbacks ++ [.opened]) = some .running
    rw [hflush.callbacks, Stage.after_snoc, h.after]
    rfl
  · have hopen : (y.callback app .opened).upgraded = true :=
      hcallback.upgraded.trans hflush.upgraded
    exact ⟨fun hc => (by cases hc), fun hc => absurd (hc.symm.trans hopen) (by decide)⟩
  · have hnot := (hcallback.close_cb_fired.trans hflush.close_cb_fired).trans hfired
    exact ⟨fun hc => (by cases hc), fun hc => absurd (hc.symm.trans hnot) (by decide)⟩
  · have hnot := (hcallback.close_received.trans hflush.close_received).trans hreceived
    exact absurd (hr.symm.trans hnot) (by decide)

end Context

namespace Client

open Context

-- ============================================================================
-- Every schedule
-- ============================================================================

/-- The invariant: a second error on an open connection is the end of the transport. -/
structure CallbackInv (s : Client Z) : Prop where
  phase : Phase s
  inv : s.ctx.Inv
  hears : ∃ stage, s.ctx.Hears stage ∧ (stage = .failed true → s.link = .closed)

theorem callbackInv_init : CallbackInv (init : Client Z) where
  phase := phase_init
  inv := inv_init
  hears := ⟨.handshake, ⟨rfl, ⟨fun _ => rfl, fun _ => rfl⟩, fun _ h => (by cases h),
    ⟨fun h => (by cases h), fun h => (by cases h)⟩, fun h => (by cases h),
    fun h => (by cases h), fun h => (by cases h)⟩, fun h => (by cases h)⟩

/-- The response of the server. -/
theorem hears_handleRead {s : Client Z} {stage : Stage} (h : s.ctx.Hears stage) :
    ∃ stage', (s.handleRead cfg app).ctx.Hears stage' ∧
      (stage' = .failed true → stage = .failed true) := by
  unfold handleRead
  split
  · exact ⟨stage, h, id⟩
  rename_i hup
  have hup : s.ctx.upgraded = false := Bool.eq_false_iff.mpr hup
  split
  · exact ⟨stage, h, id⟩
  rename_i n hn
  split
  · refine ⟨.running, hears_opened ?_, fun hc => (by cases hc)⟩
    unfold negotiated
    split
    · exact h.fresh hup rfl hup rfl rfl
    · split
      · have hreset : Hears { s.ctx with
            use_compression := false
            sender := { s.ctx.sender with deflater := ⟨.default, none⟩ } } .handshake :=
          h.fresh hup rfl hup rfl rfl
        exact hreset.earlyError hup _ _ (.refl _)
      · exact h.fresh hup rfl hup rfl rfl
  · have hfailed : Hears { s.ctx with connection_state := .failed } .handshake :=
      h.fresh hup rfl hup rfl rfl
    exact ⟨.handshake, hfailed.earlyError hup _ _ (silent_requestLoopExit _),
      fun hc => (by cases hc)⟩

/-- One turn of the loop of `onData`. -/
theorem hears_onDataTurn {s : Client Z} {stage : Stage} (h : s.ctx.Hears stage)
    (hinv : s.ctx.Inv) (hup : s.ctx.upgraded = true) :
    ∃ stage', (s.onDataTurn app).ctx.Hears stage' ∧
      (stage' = .failed true → stage = .failed true) := by
  unfold Client.onDataTurn
  by_cases hended : Rx.Ended (Context.sinks app) (⟨s.receiver, s.ctx, false⟩ : Rx Z (Context Z))
  · rw [Rx.onDataTurn_ended hended]
    exact ⟨stage, h, id⟩
  obtain ⟨-, hrun⟩ := Rx.not_ended hended
  have htold : ∀ x', Told (sinks app) s.ctx x' →
      ∃ stage', Hears x' stage' ∧ (stage' = .failed true → stage = .failed true) := by
    intro x' htold
    obtain ⟨stage', hx', hnot⟩ := hears_told h hinv hup hrun htold
    exact ⟨stage', hx', fun hc => absurd hc hnot⟩
  rcases Rx.onDataTurn_cases hended s.input with hwait | ⟨why, hfail⟩ | hthrow |
    ⟨x', n, -, hx', -, -, hnext⟩
  · rw [hwait]
    exact ⟨stage, h, id⟩
  · have hturn := hfail []
    rw [List.append_nil] at hturn
    rw [hturn]
    exact htold _ (.error 1002 why)
  · have hturn := hthrow []
    rw [List.append_nil] at hturn
    rw [hturn]
    exact ⟨stage, h, id⟩
  · have hturn := hnext []
    rw [List.append_nil] at hturn
    rw [hturn]
    exact htold _ hx'

theorem silent_flags (x x' : Context Z) (h : x' = { x with
    wakeup_active := x'.wakeup_active
    send_active := x'.send_active
    send_flush_pending := x'.send_flush_pending
    close_timer := x'.close_timer
    base := x'.base }) : Silent x x' := by
  rw [h]
  exact ⟨rfl, rfl, rfl, fun _ => id, id, id, id, id, .inl⟩

theorem hears_step {s s' : Client Z} {a : Act} {stage : Stage} (hphase : Phase s)
    (hinv : s.ctx.Inv) (h : s.ctx.Hears stage) (hagain : stage = .failed true → s.link = .closed)
    (hstep : (machine cfg app).step s a = some s') :
    ∃ stage', s'.ctx.Hears stage' ∧ (stage' = .failed true → s'.link = .closed) := by
  have hsilent : Silent s.ctx s'.ctx → (s.link = .closed → s'.link = .closed) →
      ∃ stage', s'.ctx.Hears stage' ∧ (stage' = .failed true → s'.link = .closed) :=
    fun hs hlink => ⟨stage, h.silent hs, fun hc => hlink (hagain hc)⟩
  cases a with
  | run =>
      obtain ⟨hpc, rfl⟩ := Lib.Machine.of_guard hstep
      have hup := hphase.notStarted hpc
      exact ⟨.handshake, h.fresh hup rfl hup rfl rfl, fun hc => (by cases hc)⟩
  | connected tlsError =>
      obtain ⟨⟨-, hlink⟩, rfl⟩ := Lib.Machine.of_guard hstep
      have hup := hphase.connecting hlink
      refine ⟨.handshake, ?_, fun hc => (by cases hc)⟩
      cases tlsError with
      | none => exact h.fresh hup rfl hup rfl rfl
      | some e => exact h.earlyError hup _ _ (silent_requestLoopExit _)
  | read seg =>
      obtain ⟨-, rfl⟩ := Lib.Machine.of_guard hstep
      have hbefore : Hears ({ s with input := s.input ++ seg } : Client Z).ctx stage := h
      obtain ⟨stage', hx', hnot⟩ := @hears_handleRead Z app cfg _ _ hbefore
      refine ⟨stage', hx', fun hc => ?_⟩
      rw [link_handleRead]
      exact hagain (hnot hc)
  | frame =>
      obtain ⟨hpc, rfl⟩ := Lib.Machine.of_guard hstep
      obtain ⟨stage', hx', hnot⟩ := @hears_onDataTurn Z app _ _ h hinv (hphase.reading hpc)
      refine ⟨stage', hx', fun hc => ?_⟩
      have hlink := hagain (hnot hc)
      unfold Client.onDataTurn
      split <;> exact hlink
  | event events =>
      obtain ⟨⟨-, hlink, -⟩, rfl⟩ := Lib.Machine.of_guard hstep
      obtain ⟨stage', hx', heof⟩ :=
        @hears_handleEvent Z app _ _ h hinv (fun hc => hlink (hagain hc)) events
      exact ⟨stage', hx', fun hc => if_pos (.inr (heof hc))⟩
  | timeout =>
      obtain ⟨⟨-, htimer⟩, rfl⟩ := Lib.Machine.of_guard hstep
      have hup : s.ctx.upgraded = false := by
        by_contra hup
        have hnone := h.timeout (Bool.not_eq_false _ ▸ hup)
        exact absurd (htimer.symm.trans hnone) (by decide)
      have hfired : Hears { s.ctx with timeout_event := false } .handshake :=
        h.fresh hup rfl hup rfl rfl
      exact ⟨.handshake, hears_timeoutCallback hfired hup, fun hc => (by cases hc)⟩
  | ping =>
      obtain ⟨-, rfl⟩ := Lib.Machine.of_guard hstep
      exact hsilent (@quiet_sendPing Z app s.ctx).silent id
  | wakeup =>
      obtain ⟨-, rfl⟩ := Lib.Machine.of_guard hstep
      exact hsilent ((silent_flags _ _ rfl).trans (silent_wakeupCallback app _)) id
  | flush =>
      obtain ⟨-, rfl⟩ := Lib.Machine.of_guard hstep
      exact hsilent ((silent_flags _ _ rfl).trans (@quiet_flushSendQueue Z app _).silent) id
  | unflag =>
      obtain ⟨-, rfl⟩ := Lib.Machine.of_guard hstep
      exact hsilent (silent_flags _ _ rfl) id
  | closeTimer =>
      obtain ⟨⟨-, htimer⟩, rfl⟩ := Lib.Machine.of_guard hstep
      have hsent := hinv.timer htimer
      have hfired : Hears { s.ctx with close_timer := false } stage :=
        h.silent (silent_flags _ _ rfl)
      have hinv' : Inv { s.ctx with close_timer := false } :=
        (@Evolve1.settle Z app s.ctx _ rfl).inv hinv
      obtain ⟨stage', hx', hnot⟩ := @hears_closeTimerCb Z app _ _ hfired hinv' hsent
      exact ⟨stage', hx', fun hc => hagain (hnot hc)⟩
  | exit =>
      obtain ⟨-, rfl⟩ := Lib.Machine.of_guard hstep
      refine hsilent ⟨rfl, rfl, rfl, fun _ => id, id, id, fun hc => ?_, id, .inl⟩ fun _ => rfl
      exact absurd (show false = true from hc) (by decide)
  | load i p =>
      simp only [machine, step] at hstep
      split at hstep <;> cases hstep
      exact hsilent (.refl _) id
  | push i =>
      simp only [machine, step] at hstep
      split at hstep
      · rename_i connecting p hsender
        obtain rfl := Option.some.inj hstep
        exact hsilent (@Quiet1.push Z app _ p (hphase.loaded i connecting p hsender)).silent id
      · cases hstep
  | exchange i =>
      obtain ⟨-, rfl⟩ := Lib.Machine.of_guard hstep
      exact hsilent (silent_flags _ _ rfl) id
  | activate i =>
      obtain ⟨-, rfl⟩ := Lib.Machine.of_guard hstep
      refine hsilent ?_ id
      dsimp only
      split <;> exact silent_flags _ _ rfl
  | stop =>
      obtain rfl := Option.some.inj hstep
      exact hsilent (@quiet_stop Z app s.ctx).silent id

theorem callbackInv_step {s s' : Client Z} {a : Act} (h : CallbackInv s)
    (hstep : (machine cfg app).step s a = some s') : CallbackInv s' := by
  obtain ⟨stage, hhears, hagain⟩ := h.hears
  exact ⟨step_phase h.phase hstep, step_inv h.phase h.inv hstep,
    hears_step h.phase h.inv hhears hagain hstep⟩

/-- What the application of a client has been told, in every state it can reach:
    errors, and if the handshake was done that it was, messages, at most two errors,
    and at most once, as the last, that it is closed; behind the first of these errors
    the connection is given up. -/
theorem callbacks_of_reachable {s : Client Z} (h : (machine cfg app).Reachable s) :
    (s.ctx.upgraded = false ∧ ∀ cb ∈ s.ctx.callbacks, cb.isError) ∨
    (s.ctx.upgraded = true ∧ ∃ early messages late last,
      s.ctx.callbacks = early ++ .opened :: messages ++ late ++ last ∧
      (∀ cb ∈ early, cb.isError) ∧ (∀ cb ∈ messages, cb.isMessage) ∧
      (∀ cb ∈ late, cb.isError) ∧ late.length ≤ 2 ∧
      (last = [] ∨ ∃ code reason, last = [.closed code reason]) ∧
      (late ++ last ≠ [] → s.ctx.rxIsTerminating = true)) := by
  have hinv := h.invariant callbackInv_init fun s a s' hs hstep => callbackInv_step hs hstep
  obtain ⟨stage, hhears, -⟩ := hinv.hears
  have hshape := Stage.shape_of_after hhears.after
  match stage with
  | .handshake => exact .inl ⟨hhears.handshake.mp rfl, hshape⟩
  | .running =>
      obtain ⟨early, messages, hcallbacks, hearly, hmessages⟩ := hshape
      refine .inr ⟨hhears.upgraded (by decide), early, messages, [], [], ?_, hearly, hmessages,
        fun cb hcb => absurd hcb List.not_mem_nil, Nat.zero_le 2, .inl rfl, fun hc =>
        absurd rfl hc⟩
      rw [hcallbacks, List.append_nil, List.append_nil]
  | .failed again =>
      obtain ⟨_, late, hcallbacks, ⟨early, messages, rfl, hearly, hmessages⟩, hlen, hlate⟩ := hshape
      refine .inr ⟨hhears.upgraded (by simp), early, messages, late, [], ?_, hearly, hmessages,
        hlate, ?_, .inl rfl, fun _ => hhears.failed again rfl⟩
      · rw [hcallbacks, List.append_nil]
      · rw [hlen]
        split <;> omega
  | .closed =>
      obtain ⟨_, late, code, reason, hcallbacks, ⟨early, messages, rfl, hearly, hmessages⟩, hlen,
        hlate⟩ := hshape
      exact .inr ⟨hhears.upgraded (by decide), early, messages, late, _, hcallbacks, hearly,
        hmessages, hlate, hlen, .inr ⟨code, reason, rfl⟩, fun _ =>
        rxIsTerminating_of_isClosing (hhears.closed rfl).1⟩

/-- A message, and a close frame. -/
theorem callbacks_of_reachable_close :
    let s := ran (handshake ++ [.read [0x82, 1, 7, 0x88, 0], .frame, .frame]) (by decide +kernel)
    (s.ctx.upgraded = false ∧ ∀ cb ∈ s.ctx.callbacks, cb.isError) ∨
    (s.ctx.upgraded = true ∧ ∃ early messages late last,
      s.ctx.callbacks = early ++ .opened :: messages ++ late ++ last ∧
      (∀ cb ∈ early, cb.isError) ∧ (∀ cb ∈ messages, cb.isMessage) ∧
      (∀ cb ∈ late, cb.isError) ∧ late.length ≤ 2 ∧
      (last = [] ∨ ∃ code reason, last = [.closed code reason]) ∧
      (late ++ last ≠ [] → s.ctx.rxIsTerminating = true)) :=
  callbacks_of_reachable (reachable_ran _ _)

end Client

end ContextCallbacks

end FsBridge.Libwsc
