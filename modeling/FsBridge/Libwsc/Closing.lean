/-
  FsBridge.Libwsc.Closing

  How a connection ends.

  * `ending_of_reachable` — a client that is closing has its end in sight: the exit is
    requested, the close timer runs, the close frame is on its way, or the peer has
    closed.
  * `waits_after_close` — the last of these is no end: until the transport reports one,
    the loop of a client whose peer has closed runs on.
  * `stop_heard` — a stop of a client whose loop is set up is heard.
-/

import FsBridge.Libwsc.ContextCallbacks
import FsBridge.Libwsc.SendQueue

namespace FsBridge.Libwsc

open FsBridge.Lib

section Closing

variable {Z : Zlib} {app : App} {cfg : Config}

-- ============================================================================
-- The end of a connection that is closing
-- ============================================================================

namespace Context

/-- What ends a connection that is closing; `coming`: another thread makes the event of
    the flush active. -/
def Ends (coming : Prop) (x : Context Z) : Prop :=
  x.loopexit = true ∨ x.close_received = true ∨ x.close_timer = true ∨
    x.connection_state = .disconnecting ∧ x.close_sent = false ∧
      (∃ payload, .close payload ∈ x.send_queue) ∧ (x.send_active = true ∨ coming)

/-- The invariant of the event thread, in a loop that is set up. -/
structure Ending (coming : Prop) (x : Context Z) : Prop where
  inv : Inv x
  upgraded : x.upgraded = true
  base : x.base = true
  flag : x.send_flush_pending = true → x.send_active = true ∨ coming
  ends : x.isClosing = true → Ends coming x

variable {coming : Prop}

/-- What a flush does with a close frame that has not been sent: it sends it. -/
theorem flushOne_close {x : Context Z} (hbase : x.base = true)
    (hstate : x.connection_state = .disconnecting) (hsent : x.close_sent = false) (can : Bool)
    (payload : Bytes) : (flushOne app can x (.close payload)).close_timer = true := by
  have hnow : (x.sendNow app .close payload).1 = true := by
    unfold sendNow
    rw [if_neg (not_not.mpr hbase), if_neg (not_not.mpr (.inr ⟨rfl, hstate⟩)),
      if_neg (fun h => absurd rfl h.1)]
  unfold flushOne
  dsimp only
  rw [if_neg (by simp [hsent]), if_pos hnow]

theorem close_timer_flushOne {x : Context Z} (h : x.close_timer = true) (can : Bool)
    (p : Pending) : (flushOne app can x p).close_timer = true := by
  rcases @flushOne_cases Z app x can p with
    hone | ⟨_, _, -, -, -, -, hone⟩ | ⟨_, -, -, -, hone⟩ <;> rw [hone]
  · exact h
  · exact h

theorem close_timer_flush {x : Context Z} (h : x.close_timer = true) :
    (x.flushSendQueue app).close_timer = true := by
  refine (pops_flushSendQueue x).keeps (P := fun y => y.close_timer = true) ?_ h
  rintro y y' hy ⟨p, rest, -⟩
  exact @close_timer_flushOne Z app { y with send_queue := rest } hy _ p

/-- A flush sends the close frame that is queued. -/
theorem flush_sends_close {x : Context Z} (hbase : x.base = true)
    (hstate : x.connection_state = .disconnecting) (hsent : x.close_sent = false)
    (hqueued : ∃ payload, .close payload ∈ x.send_queue) :
    (x.flushSendQueue app).close_timer = true := by
  have hpops := (@pops_flushSendQueue Z app x).keeps
    (P := fun y => y.base = true ∧ y.connection_state = .disconnecting ∧
      (y.close_timer = true ∨ y.close_sent = false ∧ ∃ payload, .close payload ∈ y.send_queue))
    (fun y y' hy hpop => ?_) ⟨hbase, hstate, .inr ⟨hsent, hqueued⟩⟩
  · rcases hpops.2.2 with htimer | ⟨-, payload, hmem⟩
    · exact htimer
    · rw [flushSendQueue_queue] at hmem
      exact absurd hmem List.not_mem_nil
  · obtain ⟨hbase, hstate, hy⟩ := hy
    have hsame := hpop.quiet1.sameState
    refine ⟨hsame.base.trans hbase, hsame.connection_state.trans hstate, ?_⟩
    obtain ⟨p, rest, hqueue⟩ := hpop
    rcases hy with htimer | ⟨hsent, payload, hmem⟩
    · exact .inl (@close_timer_flushOne Z app { y with send_queue := rest } htimer _ p)
    · rw [hqueue] at hmem
      rcases List.mem_cons.mp hmem with rfl | hmem
      · exact .inl (@flushOne_close Z app { y with send_queue := rest } hbase hstate hsent _ payload)
      · rcases @flushOne_cases Z app { y with send_queue := rest }
          (y.connection_state = .connected) p with
          hone | ⟨_, _, -, -, -, -, hone⟩ | ⟨_, -, -, -, hone⟩ <;> rw [hone]
        · exact .inr ⟨hsent, payload, hmem⟩
        · exact .inr ⟨hsent, payload, hmem⟩
        · exact .inl rfl

theorem Ends.mono {x x' : Context Z} (h : Ends coming x)
    (hloopexit : x.loopexit = true → x'.loopexit = true)
    (hreceived : x.close_received = true → x'.close_received = true)
    (htimer : x.close_timer = true → x'.close_timer = true)
    (hstate : x'.connection_state = x.connection_state) (hsent : x'.close_sent = x.close_sent)
    (hqueue : ∀ p, p ∈ x.send_queue → p ∈ x'.send_queue)
    (hactive : x.send_active = true → x'.send_active = true) : Ends coming x' := by
  rcases h with hx | hx | hx | ⟨hstate', hsent', ⟨payload, hmem⟩, hcoming⟩
  · exact .inl (hloopexit hx)
  · exact .inr (.inl (hreceived hx))
  · exact .inr (.inr (.inl (htimer hx)))
  · exact .inr (.inr (.inr ⟨hstate.trans hstate', hsent.trans hsent', ⟨payload, hqueue _ hmem⟩,
      hcoming.imp_left hactive⟩))

theorem Ends.push {x : Context Z} (h : Ends coming x) (p : Pending) : Ends coming (x.push p).2 := by
  unfold Context.push
  split
  · exact h
  · exact h.mono id id id rfl rfl (fun _ hp => List.mem_append_left _ hp) id

/-- A flush does not put the end out of sight. -/
theorem Ends.flush {x : Context Z} (h : Ends coming x) (hbase : x.base = true) :
    Ends coming (x.flushSendQueue app) := by
  have hsame := (@quiet_flushSendQueue Z app x).sameState
  rcases h with hx | hx | hx | ⟨hstate, hsent, hqueued, -⟩
  · exact .inl (hsame.loopexit.trans hx)
  · exact .inr (.inl (hsame.close_received.trans hx))
  · exact .inr (.inr (.inl (close_timer_flush hx)))
  · exact .inr (.inr (.inl (flush_sends_close hbase hstate hsent hqueued)))

/-- A loop whose exit is requested. -/
theorem Ending.exit {x : Context Z} (hinv : Inv x.requestLoopExit) (hup : x.upgraded = true)
    (hbase : x.base = true) (hflag : x.send_flush_pending = true → x.send_active = true ∨ coming) :
    Ending coming x.requestLoopExit := by
  have heq : x.requestLoopExit = { x with stop_requested := true, loopexit := true } := if_pos hbase
  rw [heq] at hinv ⊢
  exact ⟨hinv, hup, hbase, hflag, fun _ => .inl rfl⟩

/-- A flush is asked for. -/
theorem Ending.requestFlush {x : Context Z} (h : Ending coming x) :
    Ending coming x.requestSendFlush := by
  unfold requestSendFlush
  split
  · exact h
  · rw [if_pos h.base]
    exact ⟨⟨h.inv.sent, h.inv.queued, h.inv.timer, h.inv.fresh⟩, h.upgraded, h.base,
      fun _ => .inl rfl, fun hc => (h.ends hc).mono id id id rfl rfl (fun _ => id) fun _ => rfl⟩

theorem Ending.acts {x x' : Context Z} (h : Ending coming x) (hacts : Acts app x x') :
    Ending coming x' := by
  refine hacts.keeps (P := Ending coming) (fun y y' hy hact => ?_) h
  have hinv := hact.moves.inv hy.inv
  have hkeep : ∀ z : Context Z, Inv z → z.upgraded = y.upgraded → z.base = y.base →
      z.send_flush_pending = y.send_flush_pending → z.send_active = y.send_active →
      (z.isClosing = true → Ends coming z) → Ending coming z := fun z hz hup hbase hf ha hends =>
    ⟨hz, hup.trans hy.upgraded, hbase.trans hy.base, fun hzf => ha ▸ hy.flag (hf ▸ hzf), hends⟩
  cases hact with
  | call y' hcall =>
      cases hcall with
      | send type raw hup hopen htype =>
          exact hkeep _ hinv rfl rfl rfl rfl fun hc =>
            (hy.ends hc).mono id id id rfl rfl (fun _ => id) id
      | push p hp hconnecting =>
          have hsame := (@Quiet1.push Z app y p hp).sameState
          obtain ⟨-, -, hactive, hflag⟩ := push_fields y p
          exact hkeep _ hinv hsame.upgraded hsame.base hflag hactive fun hc =>
            (hy.ends (hsame.isClosing ▸ hc)).push p
      | stop =>
          unfold Context.stop requestWakeup at hinv ⊢
          rw [if_pos hy.base] at hinv ⊢
          exact hkeep _ hinv rfl rfl rfl rfl fun hc =>
            (hy.ends hc).mono id id id rfl rfl (fun _ => id) id
  | log cb hmessage =>
      exact hkeep _ hinv rfl rfl rfl rfl fun hc =>
        (hy.ends hc).mono id id id rfl rfl (fun _ => id) id
  | note y' hnotes =>
      obtain ⟨hreceived, -, -, -, hrest⟩ := hnotes
      rw [hrest] at hinv ⊢
      exact hkeep _ hinv rfl rfl rfl rfl fun hc =>
        (hy.ends hc).mono id hreceived id rfl rfl (fun _ => id) id
  | exit => exact .exit hinv hy.upgraded hy.base hy.flag
  | abort state hstate =>
      exact Ending.exit (x := { y with connection_state := state }) hinv hy.upgraded hy.base hy.flag
  | close payload hlen hup hbase hopen hsent hroom =>
      -- the flag is another flush's, or this one is asked for
      have hqueued : Pending.close payload ∈ y.send_queue ++ [Pending.close payload] :=
        List.mem_append_right _ (List.mem_singleton_self _)
      unfold requestSendFlush at hinv ⊢
      dsimp only at hinv ⊢
      by_cases hset : y.send_flush_pending = true
      · rw [if_pos hset] at hinv ⊢
        exact hkeep _ hinv rfl rfl rfl rfl fun _ =>
          .inr (.inr (.inr ⟨rfl, hsent, ⟨payload, hqueued⟩, hy.flag hset⟩))
      · rw [if_neg hset, if_pos hbase] at hinv ⊢
        exact ⟨hinv, hy.upgraded, hbase, fun _ => .inl rfl, fun _ =>
          .inr (.inr (.inr ⟨rfl, hsent, ⟨payload, hqueued⟩, .inl rfl⟩))⟩
  | closeAgain hopen hsent =>
      exact absurd ((hy.inv.sent hsent).symm.trans hopen) (by decide)
  | requestFlush hclosing => exact hy.requestFlush
  | flush hclosing =>
      have hsame := (@quiet_flushSendQueue Z app y).sameState
      have hpopped := @popped_flushSendQueue Z app y
      exact hkeep _ hinv hsame.upgraded hsame.base hpopped.send_flush_pending hpopped.send_active
        fun hc => (hy.ends (hsame.isClosing ▸ hc)).flush hy.base
  | clearQueue hup => exact absurd (hy.upgraded.symm.trans hup) (by decide)

end Context

namespace Client

open Context

/-- A thread is on its way to make the event of the flush active. -/
def Coming (s : Client Z) : Prop := ∃ i, s.senders i = .raised

structure EndInv (s : Client Z) : Prop where
  flag : FlagInv s
  ends : s.ctx.upgraded = true → s.ctx.base = true → s.ctx.isClosing = true →
    Ends (Coming s) s.ctx

theorem endInv_init : EndInv (init : Client Z) := ⟨flagInv_init, fun h => (by cases h)⟩

theorem ends_step {s s' : Client Z} {a : Act} (h : EndInv s) (hstep : Stepped cfg app s a s')
    (hup : s'.ctx.upgraded = true) (hbase : s'.ctx.base = true) (hclosing : s'.ctx.isClosing = true) :
    Ends (Coming s') s'.ctx := by
  have hcore := h.flag.core
  -- nothing happens to the end, and no thread gives up
  have hkeep : (Coming s → Coming s') → s'.ctx.upgraded = s.ctx.upgraded →
      s'.ctx.base = s.ctx.base → s'.ctx.connection_state = s.ctx.connection_state →
      (Ends (Coming s') s.ctx → Ends (Coming s') s'.ctx) → Ends (Coming s') s'.ctx := by
    intro hcoming hup' hbase' hstate hmono
    have hclosing' : s.ctx.isClosing = true := by
      rw [isClosing, ← hstate]
      exact hclosing
    have hends := h.ends (hup' ▸ hup) (hbase' ▸ hbase) hclosing'
    exact hmono (hends.imp_right (.imp_right (.imp_right fun hqueued =>
      hqueued.imp_right (.imp_right (.imp_right (.imp_right hcoming))))))
  cases hstep with
  | run hpc heq =>
      rw [heq] at hup
      exact absurd (hup.symm.trans (hcore.phase.notStarted hpc)) (by decide)
  | request hpc hlink heq =>
      rw [heq] at hup
      exact absurd (hup.symm.trans (hcore.phase.connecting hlink)) (by decide)
  | failed hpc hfresh hacts hpc' hsenders =>
      have hsame := @upgraded_of_moves Z app { s.ctx with connection_state := .failed } _ hacts.moves
      exact absurd (hup.symm.trans (hsame.trans hfresh)) (by decide)
  | opened hpc hfresh y hy hctx hpc' hsenders =>
      -- a connection that has just been opened is not closing
      have hflush := (@quiet_flushSendQueue Z app
        { y with upgraded := true, connection_state := .connected }).sameState
      have hcallback := @callback_sameState Z app
        ({ y with upgraded := true, connection_state := .connected }.flushSendQueue app) .opened
      have hopen : (y.opened app).connection_state = .connected :=
        hcallback.connection_state.trans hflush.connection_state
      exact absurd (hctx ▸ hopen) (connection_state_of_isClosing hclosing)
  | acts x hpc hx hacts hpc' hsenders htimer hwakeup =>
      rcases htimer with htimer | hnone | hexit | hreceived
      · have hx' : x.upgraded = s.ctx.upgraded ∧ x.base = s.ctx.base ∧
            x.connection_state = s.ctx.connection_state ∧
            x.send_flush_pending = s.ctx.send_flush_pending ∧
            x.send_active = s.ctx.send_active ∧ Inv x := by
          cases hx with
          | none => exact ⟨rfl, rfl, rfl, rfl, rfl, hcore.inv⟩
          | timeout ht =>
              exact ⟨rfl, rfl, rfl, rfl, rfl, hcore.inv.sent, hcore.inv.queued, hcore.inv.timer,
                hcore.inv.fresh⟩
          | wakeup hw =>
              exact ⟨rfl, rfl, rfl, rfl, rfl, hcore.inv.sent, hcore.inv.queued, hcore.inv.timer,
                hcore.inv.fresh⟩
          | closeTimer ht =>
              exact ⟨rfl, rfl, rfl, rfl, rfl, (@Evolve1.settle Z app s.ctx _ rfl).inv hcore.inv⟩
        obtain ⟨hup', hbase', hstate', hflag', hactive', hinv'⟩ := hx'
        have hups : s.ctx.upgraded = true := hup' ▸ (upgraded_of_moves hacts.moves) ▸ hup
        have hbases : s.ctx.base = true := hbase' ▸ (base_of_moves hacts.moves) ▸ hbase
        have hending : Ending (Coming s) x := by
          refine ⟨hinv', hup'.trans hups, hbase'.trans hbases, fun hf => ?_, fun hc => ?_⟩
          · rw [hactive']
            rcases h.flag.flag (hflag' ▸ hf) (by rcases hpc with hpc | hpc <;> simp [hpc]) with
              hactive | hraised | hunflag
            · exact .inl hactive
            · exact .inr hraised
            · rcases hpc with hpc | hpc <;> exact absurd (hpc.symm.trans hunflag) (by decide)
          · have hends := h.ends hups hbases (by rw [isClosing, ← hstate']; exact hc)
            cases hx with
            | none => exact hends
            | timeout ht => exact hends
            | wakeup hw => exact hends
            | closeTimer ht => exact absurd (htimer.symm.trans rfl) (by simp [ht])
        have hends := (hending.acts hacts).ends hclosing
        rw [Coming, hsenders]
        exact hends
      · have hlive := hcore.live.base (hpc.imp_right .inl)
        exact absurd (hlive.symm.trans hnone) (by decide)
      · exact .inl hexit
      · exact .inr (.inl hreceived)
  | flush hpc hactive heq =>
      have hsame := (@quiet_flushSendQueue Z app { s.ctx with send_active := false }).sameState
      rw [heq] at hup hbase hclosing ⊢
      have hends := h.ends (hsame.upgraded ▸ hup) (hsame.base ▸ hbase) (hsame.isClosing ▸ hclosing)
      -- the flush is the one that was coming
      have hbase' : s.ctx.base = true := hsame.base ▸ hbase
      rcases hends with hx | hx | hx | ⟨hstate, hsent, hqueued, -⟩
      · exact .inl (hsame.loopexit.trans hx)
      · exact .inr (.inl (hsame.close_received.trans hx))
      · exact .inr (.inr (.inl
          (@close_timer_flush Z app { s.ctx with send_active := false } hx)))
      · exact .inr (.inr (.inl
          (@flush_sends_close Z app { s.ctx with send_active := false } hbase' hstate hsent hqueued)))
  | unflag hpc heq =>
      subst heq
      exact hkeep id rfl rfl rfl id
  | exit hpc hexit heq =>
      rw [heq] at hbase
      exact absurd hbase Bool.false_ne_true
  | load i p ha hp hidle heq =>
      subst heq
      exact hkeep (raised_set · (by simp [hidle])) rfl rfl rfl id
  | push i connecting p ha hp hloaded heq =>
      have hsame := (@Quiet1.push Z app s.ctx p hp).sameState
      subst heq
      exact hkeep (raised_set · (by simp [hloaded])) hsame.upgraded hsame.base
        hsame.connection_state fun hends => hends.push p
  | exchange i ha hpushed heq =>
      subst heq
      exact hkeep (raised_set · (by simp [hpushed])) rfl rfl rfl fun hends =>
        hends.mono id id id rfl rfl (fun _ => id) id
  | activate i ha hraised heq =>
      subst heq
      by_cases hset : s.ctx.base = true
      · dsimp only at hup hbase hclosing ⊢
        rw [if_pos hset] at hup hbase hclosing ⊢
        rcases h.ends hup hbase hclosing with hx | hx | hx | ⟨hstate, hsent, hqueued, -⟩
        · exact .inl hx
        · exact .inr (.inl hx)
        · exact .inr (.inr (.inl hx))
        · exact .inr (.inr (.inr ⟨hstate, hsent, hqueued, .inl rfl⟩))
      · dsimp only at hbase
        rw [if_neg hset] at hbase
        exact absurd hbase hset
  | stop ha heq =>
      have hsame := (@quiet_stop Z app s.ctx).sameState
      subst heq
      refine hkeep id hsame.upgraded hsame.base hsame.connection_state fun hends => ?_
      show Ends _ s.ctx.stop
      unfold Context.stop requestWakeup
      split <;> exact hends.mono id id id rfl rfl (fun _ => id) id

/-- A client that is closing, in a loop that is set up, has its end in sight: the exit is
    requested, the peer has closed, the close timer runs, or a close frame is queued and
    its flush is coming. -/
theorem ending_of_reachable {s : Client Z} (h : (machine cfg app).Reachable s)
    (hup : s.ctx.upgraded = true) (hbase : s.ctx.base = true) (hclosing : s.ctx.isClosing = true) :
    s.ctx.loopexit = true ∨ s.ctx.close_received = true ∨ s.ctx.close_timer = true ∨
      s.ctx.connection_state = .disconnecting ∧ s.ctx.close_sent = false ∧
        (∃ payload, .close payload ∈ s.ctx.send_queue) ∧
        (s.ctx.send_active = true ∨ ∃ i, s.senders i = .raised) := by
  have hinv : EndInv s := h.invariant endInv_init fun s a s' hs hstep =>
    ⟨(flagInv_step hs.flag hstep).1, ends_step hs (hs.flag.core.stepped hstep)⟩
  exact hinv.ends hup hbase hclosing

/-- A stop behind the handshake. -/
theorem ending_of_reachable_stop :
    let s := ran (handshake ++ [.stop, .wakeup]) (by decide +kernel)
    s.ctx.loopexit = true ∨ s.ctx.close_received = true ∨ s.ctx.close_timer = true ∨
      s.ctx.connection_state = .disconnecting ∧ s.ctx.close_sent = false ∧
        (∃ payload, .close payload ∈ s.ctx.send_queue) ∧
        (s.ctx.send_active = true ∨ ∃ i, s.senders i = .raised) :=
  ending_of_reachable (reachable_ran _ _) (by decide +kernel) (by decide +kernel)
    (by decide +kernel)

-- ============================================================================
-- A peer that has closed
-- ============================================================================

/-- What a step leaves alone behind the close of the peer. -/
structure Held (x x' : Context Z) : Prop where
  upgraded : x'.upgraded = x.upgraded
  connection_state : x'.connection_state = x.connection_state
  close_received : x'.close_received = x.close_received
  loopexit : x'.loopexit = x.loopexit

theorem held_of_sameState {x x' : Context Z} (h : SameState x x') : Held x x' :=
  ⟨h.upgraded, h.connection_state, h.close_received, h.loopexit⟩

/-- The peer has closed, and the exit has not been requested. -/
structure Waits (s : Client Z) : Prop where
  core : Core s
  upgraded : s.ctx.upgraded = true
  closing : s.ctx.isClosing = true
  received : s.ctx.close_received = true
  loopexit : s.ctx.loopexit = false
  pc : s.pc ≠ .exited

theorem held_step {s s' : Client Z} {a : Act} (h : Waits s) (ha : ∀ events, a ≠ .event events)
    (hstep : (machine cfg app).step s a = some s') : Held s.ctx s'.ctx ∧ s'.pc ≠ .exited := by
  have hterm := rxIsTerminating_of_isClosing h.closing
  have hup : s.ctx.upgraded ≠ false := by simp [h.upgraded]
  cases a with
  | run =>
      obtain ⟨hpc, -⟩ := Lib.Machine.of_guard hstep
      exact absurd (h.core.phase.notStarted hpc) hup
  | connected tlsError =>
      obtain ⟨⟨-, hlink⟩, -⟩ := Lib.Machine.of_guard hstep
      exact absurd (h.core.phase.connecting hlink) hup
  | read seg =>
      obtain ⟨-, rfl⟩ := Lib.Machine.of_guard hstep
      unfold handleRead
      rw [if_pos h.upgraded]
      exact ⟨⟨rfl, rfl, rfl, rfl⟩, by simp⟩
  | frame =>
      obtain ⟨-, rfl⟩ := Lib.Machine.of_guard hstep
      have hended : Rx.Ended (Context.sinks app) (⟨s.receiver, s.ctx, false⟩ : Rx Z (Context Z)) :=
        .inr hterm
      unfold Client.onDataTurn
      rw [Rx.onDataTurn_ended hended]
      exact ⟨⟨rfl, rfl, rfl, rfl⟩, by simp⟩
  | event events => exact absurd rfl (ha events)
  | timeout =>
      obtain ⟨-, rfl⟩ := Lib.Machine.of_guard hstep
      have hignored : ({ s.ctx with timeout_event := false } : Context Z).timeoutCallback app =
          { s.ctx with timeout_event := false } := if_pos h.closing
      rw [hignored]
      exact ⟨⟨rfl, rfl, rfl, rfl⟩, h.pc⟩
  | ping =>
      obtain ⟨-, rfl⟩ := Lib.Machine.of_guard hstep
      exact ⟨held_of_sameState (quiet_sendPing s.ctx).sameState, h.pc⟩
  | wakeup =>
      obtain ⟨-, rfl⟩ := Lib.Machine.of_guard hstep
      refine ⟨?_, h.pc⟩
      dsimp only
      unfold wakeupCallback stopNow
      split
      · exact ⟨rfl, rfl, rfl, rfl⟩
      · rw [if_pos (show Context.isClosing { s.ctx with wakeup_active := false } = true from
          h.closing)]
        split
        · exact ⟨rfl, rfl, rfl, rfl⟩
        · have hsame := (@quiet_flushSendQueue Z app { s.ctx with wakeup_active := false }).sameState
          exact ⟨hsame.upgraded, hsame.connection_state, hsame.close_received, hsame.loopexit⟩
  | flush =>
      obtain ⟨-, rfl⟩ := Lib.Machine.of_guard hstep
      have hsame := (@quiet_flushSendQueue Z app { s.ctx with send_active := false }).sameState
      exact ⟨⟨hsame.upgraded, hsame.connection_state, hsame.close_received, hsame.loopexit⟩,
        by simp⟩
  | unflag =>
      obtain ⟨-, rfl⟩ := Lib.Machine.of_guard hstep
      exact ⟨⟨rfl, rfl, rfl, rfl⟩, by simp⟩
  | closeTimer =>
      obtain ⟨-, rfl⟩ := Lib.Machine.of_guard hstep
      have hignored : ({ s.ctx with close_timer := false } : Context Z).closeTimerCb app =
          { s.ctx with close_timer := false } := if_pos h.received
      rw [hignored]
      exact ⟨⟨rfl, rfl, rfl, rfl⟩, h.pc⟩
  | exit =>
      obtain ⟨⟨-, hexit⟩, -⟩ := Lib.Machine.of_guard hstep
      exact absurd (hexit.symm.trans h.loopexit) (by decide)
  | load i p =>
      simp only [machine, step] at hstep
      split at hstep <;> cases hstep
      exact ⟨⟨rfl, rfl, rfl, rfl⟩, h.pc⟩
  | push i =>
      simp only [machine, step] at hstep
      split at hstep
      · rename_i connecting p hloaded
        obtain rfl := Option.some.inj hstep
        exact ⟨held_of_sameState
          (@Quiet1.push Z app s.ctx p (h.core.phase.loaded i connecting p hloaded)).sameState, h.pc⟩
      · cases hstep
  | exchange i =>
      obtain ⟨-, rfl⟩ := Lib.Machine.of_guard hstep
      exact ⟨⟨rfl, rfl, rfl, rfl⟩, h.pc⟩
  | activate i =>
      obtain ⟨-, rfl⟩ := Lib.Machine.of_guard hstep
      refine ⟨?_, h.pc⟩
      dsimp only
      split <;> exact ⟨rfl, rfl, rfl, rfl⟩
  | stop =>
      obtain rfl := Option.some.inj hstep
      exact ⟨held_of_sameState (@quiet_stop Z app s.ctx).sameState, h.pc⟩

theorem waits_step {s s' : Client Z} {a : Act} (h : Waits s) (ha : ∀ events, a ≠ .event events)
    (hstep : (machine cfg app).step s a = some s') : Waits s' := by
  obtain ⟨hheld, hpc⟩ := held_step h ha hstep
  exact ⟨h.core.step hstep, hheld.upgraded.trans h.upgraded,
    by rw [isClosing, hheld.connection_state]; exact h.closing,
    hheld.close_received.trans h.received, hheld.loopexit.trans h.loopexit, hpc⟩

/-- A client whose peer has closed does not leave its loop by itself: whatever its threads
    do and however often it is stopped, it stays until the transport reports its end. -/
theorem waits_after_close {s t : Client Z} {as : List Act}
    (hreach : (machine cfg app).Reachable s) (hreceived : s.ctx.close_received = true)
    (hloopexit : s.ctx.loopexit = false) (hpc : s.pc ≠ .exited)
    (hevent : ∀ a ∈ as, ∀ events, a ≠ .event events)
    (hrun : (machine cfg app).run s as = some t) :
    t.ctx.loopexit = false ∧ t.pc ≠ .exited := by
  have hcallbacks : CallbackInv s :=
    hreach.invariant callbackInv_init fun _ _ _ hs hstep => callbackInv_step hs hstep
  obtain ⟨stage, hhears, -⟩ := hcallbacks.hears
  obtain ⟨hup, hclosing⟩ := hhears.received hreceived
  have hwaits := Lib.Machine.run_invariant_of_forall (M := machine cfg app) (I := Waits)
    (G := fun a => ∀ events, a ≠ .event events) (fun _ _ _ hs ha hstep => waits_step hs ha hstep)
    hevent hrun ⟨core_of_reachable hreach, hup, hclosing, hreceived, hloopexit, hpc⟩
  exact ⟨hwaits.loopexit, hwaits.pc⟩

/-- The peer closes; its close is answered, and the timer and a stop come to nothing. -/
theorem waits_after_close_answered :
    let closed := handshake ++ [.read [0x88, 0], .frame]
    let t := ran (closed ++ [.frame, .closeTimer, .stop, .wakeup]) (by decide +kernel)
    t.ctx.loopexit = false ∧ t.pc ≠ .exited :=
  waits_after_close (s := ran (handshake ++ [.read [0x88, 0], .frame]) (by decide +kernel))
    (reachable_ran _ _) (by decide +kernel) (by decide +kernel) (by decide +kernel) (by simp)
    (@run_ran (handshake ++ [.read [0x88, 0], .frame]) _ _ _)

end Client

-- ============================================================================
-- A stop is heard
-- ============================================================================

namespace Context

/-- A stop that was requested has its effect coming; `early`: before the handshake is
    done nothing closes but what ends the loop.  `called`: the callback of the wakeup is
    running. -/
structure Heard (called : Prop) (x : Context Z) : Prop where
  inv : Inv x
  base : x.base = true
  early : x.isClosing = true → x.upgraded = true ∨ x.loopexit = true
  heard : x.stop_requested = true →
    called ∨ x.wakeup_active = true ∨ x.loopexit = true ∨ x.upgraded = true ∧ x.isClosing = true

variable {called : Prop}

theorem Heard.keep {x x' : Context Z} (h : Heard called x) (hinv : Inv x')
    (hbase : x'.base = x.base) (hstate : x'.connection_state = x.connection_state)
    (hup : x'.upgraded = x.upgraded) (hloopexit : x.loopexit = true → x'.loopexit = true)
    (hwakeup : x.wakeup_active = true → x'.wakeup_active = true)
    (hstop : x'.stop_requested = true → x.stop_requested = true ∨ x'.wakeup_active = true) :
    Heard called x' := by
  have hclosing : x'.isClosing = x.isClosing := by
    rw [isClosing, hstate]
    rfl
  refine ⟨hinv, hbase.trans h.base, fun hc => ?_, fun hs => ?_⟩
  · exact (h.early (hclosing ▸ hc)).imp hup.trans hloopexit
  · rcases hstop hs with hs | hw
    · exact (h.heard hs).imp_right (.imp hwakeup (.imp hloopexit
        (.imp hup.trans hclosing.trans)))
    · exact .inr (.inl hw)

/-- The state is one that does not close. -/
theorem Heard.settle {x x' : Context Z} (h : Heard called x) (hinv : Inv x')
    (hfresh : x.upgraded = false) (hopen : x'.isClosing = false) (hbase : x'.base = x.base)
    (hloopexit : x'.loopexit = x.loopexit) (hwakeup : x'.wakeup_active = x.wakeup_active)
    (hstop : x'.stop_requested = x.stop_requested) : Heard called x' := by
  refine ⟨hinv, hbase.trans h.base, fun hc => absurd (hc.symm.trans hopen) (by decide),
    fun hs => ?_⟩
  rcases h.heard (hstop ▸ hs) with hx | hw | hx | ⟨hup, -⟩
  · exact .inl hx
  · exact .inr (.inl (hwakeup.trans hw))
  · exact .inr (.inr (.inl (hloopexit.trans hx)))
  · exact absurd (hup.symm.trans hfresh) (by decide)

theorem Heard.exit {x : Context Z} (hinv : Inv x.requestLoopExit) (hbase : x.base = true) :
    Heard called x.requestLoopExit := by
  have hexit := loopexit_requestLoopExit hbase
  refine ⟨hinv, ?_, fun _ => .inr hexit, fun _ => .inr (.inr (.inl hexit))⟩
  exact (base_of_moves (@moves_requestLoopExit Z .idle x)).trans hbase

theorem Heard.flush {x : Context Z} (h : Heard called x) : Heard called (x.flushSendQueue app) := by
  have hsame := (@quiet_flushSendQueue Z app x).sameState
  have hpopped := @popped_flushSendQueue Z app x
  exact h.keep ((@quiet_flushSendQueue Z app x).moves.inv h.inv) hsame.base hsame.connection_state
    hsame.upgraded hsame.loopexit.trans hpopped.wakeup_active.trans
    fun hs => .inl (hpopped.stop_requested ▸ hs)

theorem Heard.acts {x x' : Context Z} (h : Heard called x) (hacts : Acts app x x') :
    Heard called x' := by
  refine hacts.keeps (P := Heard called) (fun y y' hy hact => ?_) h
  have hinv := hact.moves.inv hy.inv
  cases hact with
  | call y' hcall =>
      cases hcall with
      | send type raw hup hopen htype => exact hy.keep hinv rfl rfl rfl id id .inl
      | push p hp hconnecting =>
          unfold Context.push at hinv ⊢
          split
          · exact hy
          · rename_i hroom
            rw [if_neg hroom] at hinv
            exact hy.keep hinv rfl rfl rfl id id .inl
      | stop =>
          unfold Context.stop requestWakeup at hinv ⊢
          dsimp only at hinv ⊢
          rw [if_pos hy.base] at hinv ⊢
          exact hy.keep hinv rfl rfl rfl id (fun _ => rfl) fun _ => .inr rfl
  | log cb hmessage => exact hy.keep hinv rfl rfl rfl id id .inl
  | note y' hnotes =>
      obtain ⟨-, -, -, -, hrest⟩ := hnotes
      rw [hrest] at hinv ⊢
      exact hy.keep hinv rfl rfl rfl id id .inl
  | exit => exact .exit hinv hy.base
  | abort state hstate => exact Heard.exit (x := { y with connection_state := state }) hinv hy.base
  | close payload hlen hup hbase hopen hsent hroom =>
      obtain ⟨hup', hstate', -, -⟩ := requestSendFlush_fields { y with
        connection_state := .disconnecting
        send_queue := y.send_queue ++ [Pending.close payload]
        queued := y.queued ++ [Pending.close payload] }
      have hclosed := hup'.trans hup
      refine ⟨hinv, (kept_requestSendFlush _).base.trans hbase, fun _ => .inl hclosed, fun _ =>
        .inr (.inr (.inr ⟨hclosed, ?_⟩))⟩
      rw [isClosing, hstate']
      rfl
  | closeAgain hopen hsent =>
      exact absurd ((hy.inv.sent hsent).symm.trans hopen) (by decide)
  | requestFlush hclosing =>
      have hrest : y.requestSendFlush = { y with
          send_flush_pending := y.requestSendFlush.send_flush_pending
          send_active := y.requestSendFlush.send_active } := by
        unfold Context.requestSendFlush
        split
        · rfl
        · split <;> rfl
      rw [hrest] at hinv ⊢
      exact hy.keep hinv rfl rfl rfl id id .inl
  | flush hclosing => exact hy.flush
  | clearQueue hup => exact hy.keep hinv rfl rfl rfl id id .inl

/-- What the callback of the wakeup leaves behind has heard the stop. -/
theorem Heard.done {x : Context Z} (h : Heard True x)
    (hend : x.loopexit = true ∨ x.isClosing = true) : Heard False x := by
  refine ⟨h.inv, h.base, h.early, fun _ => .inr (.inr ?_)⟩
  rcases hend with hexit | hclosing
  · exact .inl hexit
  · rcases h.early hclosing with hup | hexit
    · exact .inr ⟨hup, hclosing⟩
    · exact .inl hexit

theorem Heard.during {x : Context Z} (h : Heard called x) : Heard True x :=
  ⟨h.inv, h.base, h.early, fun _ => .inl trivial⟩

end Context

namespace Client

open Context

/-- No stop comes before the loop is set up. -/
def StopsLate (s : Client Z) (a : Act) : Prop := a = .stop → s.pc ≠ .notStarted

instance (s : Client Z) (a : Act) : Decidable (StopsLate s a) :=
  inferInstanceAs (Decidable (a = .stop → s.pc ≠ .notStarted))

structure StopInv (s : Client Z) : Prop where
  core : Core s
  fresh : s.pc = .notStarted → s.ctx.stop_requested = false
  heard : s.ctx.base = true → Heard False s.ctx

theorem stopInv_init : StopInv (init : Client Z) :=
  ⟨core_init, fun _ => rfl, fun h => (by cases h)⟩

theorem heard_fired {x x' : Context Z} (h : Heard False x) (hx : Fired x x')
    (hinv : Inv x') : Heard True x' ∧ (x'.wakeup_active = x.wakeup_active → Heard False x') := by
  cases hx with
  | none => exact ⟨h.during, fun _ => h⟩
  | timeout ht =>
      have hkept : Heard False { x with timeout_event := false } :=
        h.keep hinv rfl rfl rfl id id .inl
      exact ⟨hkept.during, fun _ => hkept⟩
  | wakeup hw =>
      refine ⟨⟨hinv, h.base, h.early, fun _ => .inl trivial⟩, fun hsame => ?_⟩
      exact absurd (hsame.trans hw) Bool.false_ne_true
  | closeTimer ht =>
      have hkept : Heard False { x with close_timer := false } :=
        h.keep hinv rfl rfl rfl id id .inl
      exact ⟨hkept.during, fun _ => hkept⟩

theorem inv_fired {x x' : Context Z} (h : Inv x) (hx : Fired x x') : Inv x' := by
  cases hx with
  | none => exact h
  | timeout ht => exact ⟨h.sent, h.queued, h.timer, h.fresh⟩
  | wakeup hw => exact ⟨h.sent, h.queued, h.timer, h.fresh⟩
  | closeTimer ht => exact (@Evolve1.settle Z .idle x _ rfl).inv h

theorem heard_opened {x y : Context Z} (h : Heard False x) (hup : x.upgraded = false)
    (hy : Negotiated app x y) (hinv : Inv (y.opened app)) : Heard False (y.opened app) := by
  obtain ⟨x₀, hx₀, hacts⟩ := hy.acts
  have hfresh : Heard False x₀ := by
    have hinv₀ : Inv x₀ := (@Evolve1.fresh Z app x x₀ hup (by rw [hx₀])).inv h.inv
    rw [hx₀] at hinv₀ ⊢
    exact h.keep hinv₀ rfl rfl rfl id id .inl
  have hy' := hfresh.acts hacts
  have hopen : Heard False { y with upgraded := true, connection_state := .connected } :=
    hy'.settle ((@Evolve1.fresh Z app y _ hy.fresh rfl).inv hy'.inv) hy.fresh rfl rfl rfl rfl rfl
  have hflushed := @Heard.flush Z app _ _ hopen
  have hcallback := @Heard.acts Z app _ _ _ hflushed
    (acts_callback _ .opened fun hc => (by cases hc))
  exact hcallback.keep hinv rfl rfl rfl id id .inl

theorem heard_step {s s' : Client Z} {a : Act} (h : StopInv s)
    (hstep : (machine cfg app).step s a = some s') (hbase : s'.ctx.base = true) :
    Heard False s'.ctx := by
  have hinv := h.core.inv
  have hinv' := step_inv h.core.phase hinv hstep
  -- what leaves the stop and the state alone
  have hkeep : s'.ctx.base = s.ctx.base → s'.ctx.connection_state = s.ctx.connection_state →
      s'.ctx.upgraded = s.ctx.upgraded → s'.ctx.loopexit = s.ctx.loopexit →
      s'.ctx.wakeup_active = s.ctx.wakeup_active →
      s'.ctx.stop_requested = s.ctx.stop_requested → Heard False s'.ctx :=
    fun hb hstate hup hexit hwakeup hstop => (h.heard (hb ▸ hbase)).keep hinv' hb hstate hup
      (fun hx => hexit.trans hx) (fun hx => hwakeup.trans hx) fun hs => .inl (hstop ▸ hs)
  cases h.core.stepped hstep with
  | run hpc heq =>
      have hstop := h.fresh hpc
      rw [heq] at hinv' ⊢
      exact ⟨hinv', rfl, fun hc => (by cases hc), fun hs => absurd (hs.symm.trans hstop) (by decide)⟩
  | request hpc hlink heq =>
      subst heq
      exact hkeep rfl rfl rfl rfl rfl rfl
  | failed hpc hup hacts hpc' hsenders =>
      have hheard := h.heard (h.core.live.base (.inl hpc))
      have hfailed : Heard False { s.ctx with connection_state := .failed } :=
        hheard.settle ((@Evolve1.fresh Z app s.ctx _ hup rfl).inv hinv) hup rfl rfl rfl rfl rfl
      exact hfailed.acts hacts
  | opened hpc hup y hy hctx hpc' hsenders =>
      rw [hctx] at hinv' ⊢
      exact heard_opened (h.heard (h.core.live.base (.inl hpc))) hup hy hinv'
  | acts x hpc hx hacts hpc' hsenders htimer hwakeup =>
      have hlive := h.core.live.base (hpc.imp_right .inl)
      obtain ⟨hduring, hsame⟩ := heard_fired (h.heard hlive) hx (inv_fired hinv hx)
      rcases hwakeup with hwakeup | hnone | hend
      · exact (hsame hwakeup).acts hacts
      · exact absurd (hlive.symm.trans hnone) (by decide)
      · exact (hduring.acts hacts).done hend
  | flush hpc hactive heq =>
      have hsame := (@quiet_flushSendQueue Z app { s.ctx with send_active := false }).sameState
      have hpopped := @popped_flushSendQueue Z app { s.ctx with send_active := false }
      subst heq
      exact hkeep hsame.base hsame.connection_state hsame.upgraded hsame.loopexit
        hpopped.wakeup_active hpopped.stop_requested
  | unflag hpc heq =>
      subst heq
      exact hkeep rfl rfl rfl rfl rfl rfl
  | exit hpc hexit heq =>
      rw [heq] at hbase
      exact absurd hbase Bool.false_ne_true
  | load i p ha hp hidle heq | exchange i ha hpushed heq =>
      subst heq
      exact hkeep rfl rfl rfl rfl rfl rfl
  | push i connecting p ha hp hloaded heq =>
      have hsame := (@Quiet1.push Z app s.ctx p hp).sameState
      have hrest : (s.ctx.push p).2.wakeup_active = s.ctx.wakeup_active ∧
          (s.ctx.push p).2.stop_requested = s.ctx.stop_requested := by
        unfold Context.push
        split <;> exact ⟨rfl, rfl⟩
      subst heq
      exact hkeep hsame.base hsame.connection_state hsame.upgraded hsame.loopexit hrest.1 hrest.2
  | activate i ha hraised heq =>
      have hrest : ∃ pending active, s'.ctx = { s.ctx with
          send_flush_pending := pending
          send_active := active } := by
        rw [heq]
        dsimp only
        split
        · exact ⟨_, true, rfl⟩
        · exact ⟨false, _, rfl⟩
      obtain ⟨pending, active, hctx⟩ := hrest
      rw [hctx] at hkeep ⊢
      exact hkeep rfl rfl rfl rfl rfl rfl
  | stop ha heq =>
      subst heq
      have hset : s.ctx.base = true := (@quiet_stop Z app s.ctx).sameState.base ▸ hbase
      exact @Heard.acts Z app _ _ _ (h.heard hset) (Act1.acts (.call _ .stop))

theorem stopInv_step {s s' : Client Z} {a : Act} (h : StopInv s) (hlate : StopsLate s a)
    (hstep : (machine cfg app).step s a = some s') : StopInv s' := by
  refine ⟨h.core.step hstep, fun hpc' => ?_, heard_step h hstep⟩
  cases h.core.stepped hstep with
  | run hpc heq | request hpc hlink heq | exit hpc hexit heq | flush hpc hactive heq =>
      subst heq
      simp_all
  | unflag hpc heq =>
      subst heq
      cases hpc'
  | failed hpc hup hacts hpc'' hsenders => exact absurd (hpc'.symm.trans hpc'') (by decide)
  | opened hpc hup y hy hctx hpc'' hsenders =>
      rcases hpc'' with hpc'' | hpc'' <;> exact absurd (hpc'.symm.trans hpc'') (by decide)
  | acts x hpc hx hacts hpc'' hsenders htimer hwakeup =>
      rcases hpc'' with hpc'' | hpc'' | hpc'' <;> exact absurd (hpc'.symm.trans hpc'') (by decide)
  | load i p ha hp hidle heq | exchange i ha hpushed heq =>
      subst heq
      exact h.fresh hpc'
  | push i connecting p ha hp hloaded heq =>
      subst heq
      have hfresh := h.fresh hpc'
      show (s.ctx.push p).2.stop_requested = false
      unfold Context.push
      split <;> exact hfresh
  | activate i ha hraised heq =>
      subst heq
      have hfresh := h.fresh hpc'
      dsimp only
      split <;> exact hfresh
  | stop ha heq =>
      subst heq
      exact absurd hpc' (hlate ha)

/-- Where every stop comes after the loop was set up, none is lost: it is still to be
    taken up, or the exit is requested, or the connection is being closed. -/
theorem stop_heard {as : List Act}
    (h : (machine cfg app).Guarded StopsLate (init : Client Z) as) :
    (machine cfg app).Always (fun s : Client Z => s.ctx.stop_requested = true →
      s.ctx.base = true → s.ctx.wakeup_active = true ∨ s.ctx.loopexit = true ∨
        s.ctx.upgraded = true ∧ s.ctx.isClosing = true) init as := by
  have hinv := Lib.Machine.always_of_guarded (M := machine cfg app) (I := StopInv)
    (fun _ _ _ hs ha hstep => stopInv_step hs ha hstep) h stopInv_init
  refine hinv.mono fun s hs hstop hbase => ?_
  exact ((hs.heard hbase).heard hstop).resolve_left id

/-- A stop while the client connects. -/
theorem stop_heard_early :
    (machine (Z := .absent) .plain .idle).Always (fun s : Client .absent =>
      s.ctx.stop_requested = true → s.ctx.base = true →
        s.ctx.wakeup_active = true ∨ s.ctx.loopexit = true ∨
          s.ctx.upgraded = true ∧ s.ctx.isClosing = true)
      init [.run, .stop, .connected none, .wakeup, .exit] :=
  stop_heard (by decide +kernel)

end Client

end Closing

end FsBridge.Libwsc
