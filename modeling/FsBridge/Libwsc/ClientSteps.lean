/-
  FsBridge.Libwsc.ClientSteps

  What a step of the client is, said once: which thread it is of, and what that thread
  does with the context.  The invariants of the queue and of how a connection ends are
  case analyses on it.

  An event that was made active is one of what its callback does, so `Fired` takes it
  back first.
-/

import FsBridge.Libwsc.ClientLaws

namespace FsBridge.Libwsc

open FsBridge.Lib

section ClientSteps

variable {Z : Zlib} {app : App} {cfg : Config}

/-- The event a callback is called for, taken back. -/
inductive Context.Fired (x : Context Z) : Context Z → Prop where
  | none : Fired x x
  | timeout (h : x.timeout_event = true) : Fired x { x with timeout_event := false }
  | wakeup (h : x.wakeup_active = true) : Fired x { x with wakeup_active := false }
  | closeTimer (h : x.close_timer = true) : Fired x { x with close_timer := false }

/-- What is set up for compression while the response is read. -/
structure Context.Negotiated (app : App) (x y : Context Z) : Prop where
  fresh : y.upgraded = false
  acts : ∃ x₀, x₀ = { x with
    use_compression := x₀.use_compression
    sender := { x.sender with deflater := x₀.sender.deflater } } ∧ Acts app x₀ y

/-- The context behind the handshake. -/
def Context.opened (app : App) (y : Context Z) : Context Z :=
  { ({ y with upgraded := true, connection_state := .connected }.flushSendQueue
      app).callback app .opened with timeout_event := false }

namespace Client

open Context

/-- A step, by the thread that takes it. -/
inductive Stepped (cfg : Config) (app : App) (s : Client Z) (a : Act) (s' : Client Z) : Prop where
  | run (hpc : s.pc = .notStarted) (h : s' = { s with ctx := start s.ctx, pc := .idle })
  | request (hpc : s.pc = .idle) (hlink : s.link = .connecting)
      (h : s' = { s with
        ctx := { s.ctx with
          sender := { s.ctx.sender with output := s.ctx.sender.output ++ handshakeRequest cfg } }
        link := .up })
  /-- A callback of the loop, up to the handshake. -/
  | failed (hpc : s.pc = .idle) (hup : s.ctx.upgraded = false)
      (hacts : Acts app { s.ctx with connection_state := .failed } s'.ctx)
      (hpc' : s'.pc = .idle) (hsenders : s'.senders = s.senders)
  | opened (hpc : s.pc = .idle) (hup : s.ctx.upgraded = false) (y : Context Z)
      (hy : Negotiated app s.ctx y) (hctx : s'.ctx = y.opened app)
      (hpc' : s'.pc = .idle ∨ s'.pc = .reading) (hsenders : s'.senders = s.senders)
  /-- A callback of the loop, or a frame of `onData`; the close timer is taken back only
      by its callback, which ends the loop unless the peer has closed, and the wakeup by
      its own, which closes the connection. -/
  | acts (x : Context Z) (hpc : s.pc = .idle ∨ s.pc = .reading) (hx : Fired s.ctx x)
      (hacts : Acts app x s'.ctx) (hpc' : s'.pc = .idle ∨ s'.pc = .reading ∨ s'.pc = .thrown)
      (hsenders : s'.senders = s.senders)
      (htimer : x.close_timer = s.ctx.close_timer ∨ s.ctx.base = false ∨
        s'.ctx.loopexit = true ∨ s'.ctx.close_received = true)
      (hwakeup : x.wakeup_active = s.ctx.wakeup_active ∨ s.ctx.base = false ∨
        s'.ctx.loopexit = true ∨ s'.ctx.isClosing = true)
  | flush (hpc : s.pc = .idle) (hactive : s.ctx.send_active = true)
      (h : s' = { s with
        ctx := { s.ctx with send_active := false }.flushSendQueue app
        pc := .unflag })
  | unflag (hpc : s.pc = .unflag)
      (h : s' = { s with ctx := { s.ctx with send_flush_pending := false }, pc := .idle })
  | exit (hpc : s.pc = .idle) (hexit : s.ctx.loopexit = true)
      (h : s' = { s with ctx := cleanup s.ctx, pc := .exited, link := .closed })
  | load (i : Nat) (p : Pending) (ha : a = .load i p) (hp : ∀ payload, p ≠ .close payload)
      (hidle : s.senders i = .idle)
      (h : s' = { s with
        senders := set s.senders i (.loaded (s.ctx.connection_state = .connecting) p) })
  | push (i : Nat) (connecting : Bool) (p : Pending) (ha : a = .push i)
      (hp : ∀ payload, p ≠ .close payload) (hloaded : s.senders i = .loaded connecting p)
      (h : s' = { s with
        ctx := (s.ctx.push p).2
        senders := set s.senders i
          (if (s.ctx.push p).1 ∧ ¬ connecting then .pushed else .idle) })
  | exchange (i : Nat) (ha : a = .exchange i) (hpushed : s.senders i = .pushed)
      (h : s' = { s with
        ctx := { s.ctx with send_flush_pending := true }
        senders := set s.senders i (if s.ctx.send_flush_pending then .idle else .raised) })
  | activate (i : Nat) (ha : a = .activate i) (hraised : s.senders i = .raised)
      (h : s' = { s with
        ctx := if s.ctx.base then { s.ctx with send_active := true }
          else { s.ctx with send_flush_pending := false }
        senders := set s.senders i .idle })
  | stop (ha : a = .stop) (h : s' = { s with ctx := s.ctx.stop })

/-- Every wakeup was asked for by a stop. -/
def Wakes (x : Context Z) : Prop := x.wakeup_active = true → x.stop_requested = true

/-- What the response sets up for compression, and the error it may report. -/
theorem acts_negotiated {s : Client Z} (hup : s.ctx.upgraded = false) (resp : Bytes) :
    Negotiated app s.ctx (s.negotiated cfg app resp).ctx := by
  unfold negotiated
  split
  · exact ⟨hup, _, rfl, .refl _⟩
  · split
    · refine ⟨?_, _, rfl, acts_sendError _ _ _⟩
      exact (@callback_sameState Z app _ _).upgraded.trans hup
    · exact ⟨hup, _, rfl, .refl _⟩

/-- A read is the callback of the loop: it fails the handshake, finishes it, or only
    keeps the input. -/
theorem stepped_read {s : Client Z} {a : Act} (hpc : s.pc = .idle) (seg : Bytes) :
    Stepped cfg app s a (handleRead cfg app { s with input := s.input ++ seg }) := by
  unfold handleRead
  dsimp only
  by_cases hup : s.ctx.upgraded = true
  · rw [if_pos hup]
    exact .acts s.ctx (.inl hpc) .none (.refl _) (.inr (.inl rfl)) rfl (.inl rfl) (.inl rfl)
  rw [if_neg hup]
  have hup' := Bool.eq_false_iff.mpr hup
  split
  · exact .acts s.ctx (.inl hpc) .none (.refl _) (.inl hpc) rfl (.inl rfl) (.inl rfl)
  rename_i n hn
  split
  · refine .opened hpc hup' _
      (@acts_negotiated Z app cfg { s with input := s.input ++ seg } hup' _) rfl ?_ ?_
    · unfold upgrade
      dsimp only
      split
      · exact .inl rfl
      · exact .inr rfl
    · exact (@negotiated_rest Z app cfg { s with input := s.input ++ seg } _).2.2.2
  · exact .failed hpc hup' ((acts_sendError _ _ _).trans (Act1.acts .exit)) hpc rfl

/-- Every step of the client is one of the steps above. -/
theorem step_stepped {s s' : Client Z} {a : Act} (hphase : Phase s) (hwakes : Wakes s.ctx)
    (h : (machine cfg app).step s a = some s') : Stepped cfg app s a s' := by
  cases a with
  | run =>
      obtain ⟨hpc, rfl⟩ := Lib.Machine.of_guard h
      exact .run hpc rfl
  | connected tlsError =>
      obtain ⟨⟨hpc, hlink⟩, rfl⟩ := Lib.Machine.of_guard h
      cases tlsError with
      | none => exact .request hpc hlink rfl
      | some e =>
          exact .acts s.ctx (.inl hpc) .none ((acts_sendError _ _ _).trans (Act1.acts .exit))
            (.inl hpc) rfl (.inl rfl) (.inl rfl)
  | read seg =>
      obtain ⟨⟨hpc, -⟩, rfl⟩ := Lib.Machine.of_guard h
      exact stepped_read hpc seg
  | frame =>
      obtain ⟨hpc, rfl⟩ := Lib.Machine.of_guard h
      refine .acts s.ctx (.inr hpc) .none (acts_onDataTurn (hphase.reading hpc)) ?_ ?_ (.inl rfl)
        (.inl rfl)
      · unfold Client.onDataTurn
        split
        · exact .inl rfl
        · dsimp only
          split
          · exact .inr (.inr rfl)
          · exact .inl rfl
        · exact .inr (.inl hpc)
      · unfold Client.onDataTurn
        split <;> rfl
  | event events =>
      obtain ⟨⟨hpc, -⟩, rfl⟩ := Lib.Machine.of_guard h
      exact .acts s.ctx (.inl hpc) .none (acts_handleEvent _ _) (.inl hpc) rfl (.inl rfl) (.inl rfl)
  | timeout =>
      obtain ⟨⟨hpc, htimeout⟩, rfl⟩ := Lib.Machine.of_guard h
      exact .acts _ (.inl hpc) (.timeout htimeout) (acts_timeoutCallback _) (.inl hpc) rfl (.inl rfl)
        (.inl rfl)
  | ping =>
      obtain ⟨⟨hpc, -⟩, rfl⟩ := Lib.Machine.of_guard h
      exact .acts s.ctx (.inl hpc) .none (calls_sendPing _).acts (.inl hpc) rfl (.inl rfl) (.inl rfl)
  | wakeup =>
      obtain ⟨⟨hpc, hactive⟩, rfl⟩ := Lib.Machine.of_guard h
      exact .acts _ (.inl hpc) (.wakeup hactive) (acts_wakeupCallback (hwakes hactive)) (.inl hpc) rfl
        (.inl rfl) (.inr (@wakeupCallback_ends Z app { s.ctx with wakeup_active := false }
          (hwakes hactive)))
  | flush =>
      obtain ⟨⟨hpc, hactive⟩, rfl⟩ := Lib.Machine.of_guard h
      exact .flush hpc hactive rfl
  | unflag =>
      obtain ⟨hpc, rfl⟩ := Lib.Machine.of_guard h
      exact .unflag hpc rfl
  | closeTimer =>
      obtain ⟨⟨hpc, htimer⟩, rfl⟩ := Lib.Machine.of_guard h
      exact .acts _ (.inl hpc) (.closeTimer htimer) (acts_closeTimerCb _) (.inl hpc) rfl
        (.inr (@closeTimerCb_ends Z app { s.ctx with close_timer := false })) (.inl rfl)
  | exit =>
      obtain ⟨⟨hpc, hexit⟩, rfl⟩ := Lib.Machine.of_guard h
      exact .exit hpc hexit rfl
  | load i p =>
      simp only [machine, step] at h
      split at h
      · cases h
      · rename_i hidle hmessage
        obtain rfl := Option.some.inj h
        exact .load i _ rfl hmessage hidle rfl
      · cases h
  | push i =>
      simp only [machine, step] at h
      split at h
      · rename_i connecting p hloaded
        obtain rfl := Option.some.inj h
        exact .push i connecting p rfl (hphase.loaded i connecting p hloaded) hloaded rfl
      · cases h
  | exchange i =>
      obtain ⟨hpushed, rfl⟩ := Lib.Machine.of_guard h
      exact .exchange i rfl hpushed rfl
  | activate i =>
      obtain ⟨hraised, rfl⟩ := Lib.Machine.of_guard h
      exact .activate i rfl hraised rfl
  | stop =>
      obtain rfl := Option.some.inj h
      exact .stop rfl rfl

-- ============================================================================
-- The wakeup
-- ============================================================================

theorem wakes_of_eq {x x' : Context Z} (h : Wakes x) (hwakeup : x'.wakeup_active = x.wakeup_active)
    (hstop : x.stop_requested = true → x'.stop_requested = true) : Wakes x' := fun hx' =>
  hstop (h (hwakeup ▸ hx'))

/-- A stop asks for the wakeup after it has been stored. -/
theorem wakes_stop {x : Context Z} : Wakes x.stop := by
  intro _
  unfold Context.stop requestWakeup
  split <;> rfl

theorem wakes_requestLoopExit {x : Context Z} (h : Wakes x) : Wakes x.requestLoopExit := by
  unfold requestLoopExit
  split <;> exact wakes_of_eq h rfl fun _ => rfl

theorem wakes_requestSendFlush {x : Context Z} (h : Wakes x) : Wakes x.requestSendFlush := by
  unfold requestSendFlush
  split
  · exact h
  · split <;> exact h

theorem wakes_call1 {x x' : Context Z} (h : Wakes x) (hcall : Call1 app x x') : Wakes x' := by
  cases hcall with
  | send type raw hup hopen htype => exact h
  | push p hp hconnecting =>
      unfold Context.push
      split <;> exact h
  | stop => exact wakes_stop

/-- A flush asks for no wakeup. -/
theorem wakes_flush {x : Context Z} (h : Wakes x) : Wakes (x.flushSendQueue app) := by
  have hpopped := @popped_flushSendQueue Z app x
  exact wakes_of_eq h hpopped.wakeup_active fun hs => hpopped.stop_requested.trans hs

/-- The event thread wakes itself up for a stop only. -/
theorem wakes_acts {x x' : Context Z} (h : Wakes x) (hacts : Acts app x x') : Wakes x' := by
  refine hacts.keeps (P := Wakes) (fun y y' hy hact => ?_) h
  cases hact with
  | call y' hcall => exact wakes_call1 hy hcall
  | log cb hmessage => exact hy
  | note y' hnotes =>
      obtain ⟨-, -, -, -, hrest⟩ := hnotes
      rw [hrest]
      exact hy
  | exit => exact wakes_requestLoopExit hy
  | abort state hstate => exact @wakes_requestLoopExit Z { y with connection_state := state } hy
  | close payload hlen hup hbase hopen hsent hroom =>
      exact @wakes_requestSendFlush Z { y with
        connection_state := .disconnecting
        send_queue := y.send_queue ++ [Pending.close payload]
        queued := y.queued ++ [Pending.close payload] } hy
  | closeAgain hopen hsent => exact hy
  | requestFlush hclosing => exact wakes_requestSendFlush hy
  | flush hclosing => exact wakes_flush hy
  | clearQueue hup => exact hy

theorem wakes_opened {x y : Context Z} (h : Wakes x) (hy : Negotiated app x y) :
    Wakes (y.opened app) := by
  obtain ⟨x₀, hx₀, hacts⟩ := hy.acts
  have hwakes₀ : Wakes x₀ := by
    rw [hx₀]
    exact h
  have hy' := wakes_acts hwakes₀ hacts
  have hflush := @wakes_flush Z app { y with upgraded := true, connection_state := .connected } hy'
  have hcallback := @wakes_acts Z app _ _ hflush (acts_callback _ .opened fun hc => (by cases hc))
  exact hcallback

/-- Every wakeup was asked for by a stop, after any step. -/
theorem wakes_step {s s' : Client Z} {a : Act} (h : Wakes s.ctx)
    (hstep : Stepped cfg app s a s') : Wakes s'.ctx := by
  cases hstep with
  | run hpc heq | request hpc hlink heq | unflag hpc heq | exchange i ha hpushed heq =>
      rw [heq]
      exact h
  | failed hpc hup hacts hpc' hsenders =>
      exact @wakes_acts Z app { s.ctx with connection_state := .failed } _ h hacts
  | opened hpc hup y hy hctx hpc' hsenders => exact hctx ▸ wakes_opened h hy
  | acts x hpc hx hacts hpc' hsenders htimer hwakeup =>
      refine wakes_acts ?_ hacts
      cases hx with
      | none => exact h
      | timeout ht => exact h
      | wakeup hw => exact fun hc => absurd hc Bool.false_ne_true
      | closeTimer ht => exact h
  | flush hpc hactive heq =>
      rw [heq]
      exact @wakes_flush Z app { s.ctx with send_active := false } h
  | exit hpc hexit heq =>
      rw [heq]
      exact fun hc => absurd hc Bool.false_ne_true
  | load i p ha hp hidle heq =>
      rw [heq]
      exact h
  | push i connecting p ha hp hloaded heq =>
      rw [heq]
      show Wakes (s.ctx.push p).2
      unfold Context.push
      split <;> exact h
  | activate i ha hraised heq =>
      rw [heq]
      show Wakes (if s.ctx.base then { s.ctx with send_active := true }
        else { s.ctx with send_flush_pending := false })
      split <;> exact h
  | stop ha heq =>
      rw [heq]
      exact wakes_stop

/-- Only a connection whose handshake is done is connected. -/
def Opens (x : Context Z) : Prop := x.connection_state = .connected → x.upgraded = true

theorem Opens.sameState {x x' : Context Z} (h : Opens x) (hsame : SameState x x') : Opens x' :=
  fun hc => hsame.upgraded.trans (h (hsame.connection_state ▸ hc))

/-- What the event thread does opens no connection. -/
theorem opens_acts {x x' : Context Z} (h : Opens x) (hacts : Acts app x x') : Opens x' := by
  refine hacts.moves.keeps (P := Opens) (fun y y' hy hmove => ?_) h
  cases hmove with
  | quiet y' hstep => exact hy.sameState hstep.sameState
  | flags y' hflags =>
      have hrest := hflags.rest
      rw [hrest]
      exact hy
  | closing state hstate => rcases hstate with rfl | rfl <;> exact fun hc => (by cases hc)
  | queueClose payload hlen hup hclosing hroom => exact hy
  | clearQueue hup => exact hy

/-- The callback of the open leaves the connection upgraded, whatever it does. -/
theorem upgraded_opened (y : Context Z) : (y.opened app).upgraded = true :=
  @upgraded_of_moves Z app _ _ ((quiet_flushSendQueue _).moves.trans
    (acts_callback _ .opened fun h => (by cases h)).moves)

/-- The loop stays set up through the handshake. -/
theorem base_opened {x y : Context Z} (hy : Negotiated app x y) :
    (y.opened app).base = x.base := by
  obtain ⟨x₀, hx₀, hacts⟩ := hy.acts
  have hflush := (@quiet_flushSendQueue Z app
    { y with upgraded := true, connection_state := .connected }).sameState.base
  have hcallback := (@callback_sameState Z app
    ({ y with upgraded := true, connection_state := .connected }.flushSendQueue app) .opened).base
  have hopened : (y.opened app).base = y.base := hcallback.trans hflush
  rw [hopened, base_of_moves hacts.moves, hx₀]

/-- A step connects no connection without its handshake. -/
theorem opens_step {s s' : Client Z} {a : Act} (h : Opens s.ctx)
    (hstep : Stepped cfg app s a s') : Opens s'.ctx := by
  cases hstep with
  | run hpc heq =>
      rw [heq]
      exact fun hc => (by cases hc)
  | request hpc hlink heq | unflag hpc heq | exit hpc hexit heq =>
      rw [heq]
      exact h
  | load i p ha hp hidle heq | exchange i ha hpushed heq =>
      rw [heq]
      exact h
  | failed hpc hup hacts hpc' hsenders => exact opens_acts (fun hc => (by cases hc)) hacts
  | opened hpc hup y hy hctx hpc' hsenders => exact fun _ => hctx ▸ upgraded_opened y
  | acts x hpc hx hacts hpc' hsenders htimer hwakeup =>
      refine opens_acts ?_ hacts
      cases hx <;> exact h
  | flush hpc hactive heq =>
      rw [heq]
      exact Opens.sameState (x := { s.ctx with send_active := false }) h
        (quiet_flushSendQueue _).sameState
  | push i connecting p ha hp hloaded heq =>
      rw [heq]
      exact h.sameState (@Quiet1.push Z app _ p hp).sameState
  | activate i ha hraised heq =>
      rw [heq]
      show Opens (if s.ctx.base then { s.ctx with send_active := true }
        else { s.ctx with send_flush_pending := false })
      split <;> exact h
  | stop ha heq =>
      rw [heq]
      exact h.sameState (@quiet_stop Z app s.ctx).sameState

/-- The loop is set up while the event thread is in it. -/
structure Live (s : Client Z) : Prop where
  base : s.pc = .idle ∨ s.pc = .reading ∨ s.pc = .unflag → s.ctx.base = true
  exited : s.pc = .exited → s.ctx.base = false

/-- A step of another thread leaves the loop alone. -/
theorem Live.keep {s s' : Client Z} (h : Live s) (hpc : s'.pc = s.pc)
    (hbase : s'.ctx.base = s.ctx.base) : Live s' :=
  ⟨fun hp => hbase.trans (h.base (hpc ▸ hp)), fun hp => hbase.trans (h.exited (hpc ▸ hp))⟩

/-- The loop is left by its exit only. -/
theorem live_of_base {s : Client Z} (hbase : s.ctx.base = true) (hpc : s.pc ≠ .exited) : Live s :=
  ⟨fun _ => hbase, fun hp => absurd hp hpc⟩

/-- A step keeps the loop set up for the event thread, and takes it down at its exit. -/
theorem live_step {s s' : Client Z} {a : Act} (h : Live s) (hstep : Stepped cfg app s a s') :
    Live s' := by
  cases hstep with
  | run hpc heq =>
      rw [heq]
      exact live_of_base rfl (by simp)
  | request hpc hlink heq =>
      rw [heq]
      exact live_of_base (h.base (.inl hpc)) (by simp [hpc])
  | failed hpc hup hacts hpc' hsenders =>
      have hbase := @base_of_moves Z app { s.ctx with connection_state := .failed } _ hacts.moves
      exact live_of_base (hbase.trans (h.base (.inl hpc))) (by simp [hpc'])
  | opened hpc hup y hy hctx hpc' hsenders =>
      refine live_of_base ?_ (by rcases hpc' with hpc' | hpc' <;> simp [hpc'])
      rw [hctx, base_opened hy]
      exact h.base (.inl hpc)
  | acts x hpc hx hacts hpc' hsenders htimer hwakeup =>
      refine live_of_base ?_ (by rcases hpc' with hpc' | hpc' | hpc' <;> simp [hpc'])
      have hfired : x.base = s.ctx.base := by
        cases hx <;> rfl
      exact (base_of_moves hacts.moves).trans (hfired.trans (h.base (hpc.imp_right .inl)))
  | flush hpc hactive heq =>
      rw [heq]
      have hsame := (@quiet_flushSendQueue Z app { s.ctx with send_active := false }).sameState
      exact live_of_base (hsame.base.trans (h.base (.inl hpc))) (by simp)
  | unflag hpc heq =>
      rw [heq]
      exact live_of_base (h.base (.inr (.inr hpc))) (by simp)
  | exit hpc hexit heq =>
      rw [heq]
      exact ⟨fun hp => (by simp at hp), fun _ => rfl⟩
  | load i p ha hp hidle heq | exchange i ha hpushed heq =>
      rw [heq]
      exact h.keep rfl rfl
  | push i connecting p ha hp hloaded heq =>
      rw [heq]
      exact h.keep rfl (@Quiet1.push Z app _ p hp).sameState.base
  | activate i ha hraised heq =>
      rw [heq]
      refine h.keep rfl ?_
      dsimp only
      split <;> rfl
  | stop ha heq =>
      rw [heq]
      exact h.keep rfl (@quiet_stop Z app s.ctx).sameState.base

/-- What the invariants of the queue and of the exit rest on. -/
structure Core (s : Client Z) : Prop where
  phase : Phase s
  inv : s.ctx.Inv
  wakes : Wakes s.ctx
  opens : Opens s.ctx
  live : Live s

theorem core_init : Core (init : Client Z) :=
  ⟨phase_init, inv_init, fun h => (by cases h), fun h => (by cases h),
    ⟨fun h => (by simp [init] at h), fun _ => rfl⟩⟩

/-- A step from a state of a run, by the thread that takes it. -/
theorem Core.stepped {s s' : Client Z} {a : Act} (h : Core s)
    (hstep : (machine cfg app).step s a = some s') : Stepped cfg app s a s' :=
  step_stepped h.phase h.wakes hstep

/-- Each part of `Core` is kept by every step. -/
theorem Core.step {s s' : Client Z} {a : Act} (h : Core s)
    (hstep : (machine cfg app).step s a = some s') : Core s' :=
  ⟨step_phase h.phase hstep, step_inv h.phase h.inv hstep, wakes_step h.wakes (h.stepped hstep),
    opens_step h.opens (h.stepped hstep), live_step h.live (h.stepped hstep)⟩

/-- `Core` holds in every state of every run. -/
theorem core_of_reachable {s : Client Z} (h : (machine cfg app).Reachable s) : Core s :=
  h.invariant core_init fun _ _ _ hs hstep => hs.step hstep

end Client

end ClientSteps

end FsBridge.Libwsc
