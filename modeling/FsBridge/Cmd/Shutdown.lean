/-
  FsBridge.Cmd.Shutdown

  How the process ends (cmd/fsbridge/main.go): the main goroutine inside
  `ListenAndServe`, the goroutine that waits for the signal and drains, and the
  active sessions.

  The process is gone when main returns, whatever other goroutines still have
  to do.  net/http is outside the repository: `ListenAndServe` returns
  `ErrServerClosed` as soon as `Shutdown` is called, `Shutdown` itself some time
  later; sessions are hijacked connections, for which it does not wait.
-/

import FsBridge.Lib.Machine

namespace FsBridge.Cmd

open FsBridge.Lib

/-- Where the main goroutine is.  Its deferred calls run in reverse order. -/
inductive MainPc where
  | inListenAndServe
  | returned
  | recorderClosed
  | stopped
  | exited
deriving DecidableEq, Repr

/-- Where the shutdown goroutine is: `closing k` is inside `CloseAllSessions`,
    before the `k`-th session. -/
inductive ShutdownPc where
  | waitingForSignal
  | beforeShutdown
  | inShutdown
  | closing (k : Nat)
  | sleeping
  | beforeESLClose
  | beforeRecorderClose
  | returned
deriving DecidableEq, Repr

/-- Where the goroutine of a session is: in its read pump, past `s.Close` (on the
    way through `OnEnd` and `Recorder.Finish`), or through. -/
inductive SessionPc where
  | streaming
  | closed
  | ended
deriving DecidableEq, Repr

/-- `s.Close()`, which does nothing the second time. -/
def SessionPc.close : SessionPc → SessionPc
  | .streaming => .closed
  | pc => pc

/-- What main was started with, and how many sessions there are when the signal
    arrives. -/
structure Config where
  recorder : Bool
  eslClient : Bool
  sessions : Nat
deriving DecidableEq, Repr

structure State where
  /-- `ctx` is done. -/
  signalled : Bool
  main : MainPc
  shutdown : ShutdownPc
  sessions : List SessionPc
  eslClosed : Bool
  recorderClosed : Bool
deriving DecidableEq, Repr

inductive Act where
  | signal
  | ctxDone
  | callShutdown
  | shutdownReturns
  | closeNext
  | wake
  | closeESL
  | closeRecorder
  | listenReturns
  | deferRecorderClose
  | deferStop
  | exit
  | sessionCloses (i : Nat)
  | sessionEnds (i : Nat)
deriving DecidableEq, Repr

/-- `httpSrv.Shutdown` has been called. -/
def ShutdownPc.called : ShutdownPc → Bool
  | .waitingForSignal | .beforeShutdown => false
  | _ => true

/-- `CloseAllSessions` has been called and the wait behind it is over. -/
def ShutdownPc.drained : ShutdownPc → Bool
  | .beforeESLClose | .beforeRecorderClose | .returned => true
  | _ => false

/-- One atomic step of the goroutines of a living process. -/
def stepAlive (cfg : Config) (s : State) : Act → Option State
  | .signal => some { s with signalled := true }
  | .ctxDone =>
      if s.shutdown = .waitingForSignal ∧ s.signalled then
        some { s with shutdown := .beforeShutdown }
      else none
  | .callShutdown =>
      if s.shutdown = .beforeShutdown then some { s with shutdown := .inShutdown } else none
  | .shutdownReturns =>
      if s.shutdown = .inShutdown then some { s with shutdown := .closing 0 } else none
  | .closeNext =>
      match s.shutdown with
      | .closing k =>
          if k < s.sessions.length then
            some { s with
              sessions := s.sessions.modify k SessionPc.close, shutdown := .closing (k + 1) }
          else some { s with shutdown := .sleeping }
      | _ => none
  | .wake => if s.shutdown = .sleeping then some { s with shutdown := .beforeESLClose } else none
  | .closeESL =>
      if s.shutdown = .beforeESLClose then
        some { s with shutdown := .beforeRecorderClose, eslClosed := s.eslClosed || cfg.eslClient }
      else none
  | .closeRecorder =>
      if s.shutdown = .beforeRecorderClose then
        some { s with shutdown := .returned, recorderClosed := s.recorderClosed || cfg.recorder }
      else none
  | .listenReturns =>
      if s.main = .inListenAndServe ∧ s.shutdown.called then some { s with main := .returned }
      else none
  | .deferRecorderClose =>
      if s.main = .returned then
        some { s with main := .recorderClosed, recorderClosed := s.recorderClosed || cfg.recorder }
      else none
  | .deferStop =>
      if s.main = .recorderClosed then some { s with main := .stopped } else none
  | .exit => if s.main = .stopped then some { s with main := .exited } else none
  | .sessionCloses i =>
      if s.sessions[i]? = some .streaming then
        some { s with sessions := s.sessions.modify i SessionPc.close }
      else none
  | .sessionEnds i =>
      if s.sessions[i]? = some .closed then some { s with sessions := s.sessions.set i .ended }
      else none

/-- Nothing runs any more once the process has exited. -/
def step (cfg : Config) (s : State) (a : Act) : Option State :=
  if s.main = .exited then none else stepAlive cfg s a

def initial (cfg : Config) : State where
  signalled := false
  main := .inListenAndServe
  shutdown := .waitingForSignal
  sessions := List.replicate cfg.sessions .streaming
  eslClosed := false
  recorderClosed := false

def machine (cfg : Config) : Machine State Act where
  init := initial cfg
  step := step cfg

-- ============================================================================
-- Draining
-- ============================================================================

/-- The process has not exited before the end of the drain wait. -/
def DrainsFirst (s : State) : Prop := s.main = .exited → s.shutdown.drained = true

/-- The main goroutine comes out of `ListenAndServe` only after the drain wait. -/
def MainLate (s : State) (a : Act) : Prop := a = .listenReturns → s.shutdown.drained = true

theorem alive_of_step {cfg : Config} {s s' : State} {a : Act} (h : step cfg s a = some s') :
    stepAlive cfg s a = some s' := by
  unfold step at h
  split at h
  · exact absurd h (by simp)
  · exact h

/-- The shutdown goroutine does not go back. -/
theorem drained_of_step {cfg : Config} {s s' : State} {a : Act} (h : step cfg s a = some s')
    (hdrained : s.shutdown.drained = true) : s'.shutdown.drained = true := by
  have halive := alive_of_step h
  cases a <;> simp only [stepAlive] at halive <;> grind [ShutdownPc.drained]

/-- Only `listenReturns` takes the main goroutine out of `ListenAndServe`. -/
theorem inListenAndServe_of_step {cfg : Config} {s s' : State} {a : Act}
    (h : step cfg s a = some s') (ha : a ≠ .listenReturns) (hmain : s.main = .inListenAndServe) :
    s'.main = .inListenAndServe := by
  have halive := alive_of_step h
  cases a <;> simp only [stepAlive] at halive <;> grind

/-- A process past `ListenAndServe` has drained. -/
def PastListen (s : State) : Prop := s.main = .inListenAndServe ∨ s.shutdown.drained = true

theorem pastListen_of_step {cfg : Config} {s s' : State} {a : Act} (h : PastListen s)
    (hlate : MainLate s a) (hstep : step cfg s a = some s') : PastListen s' := by
  rcases h with hmain | hdrained
  · by_cases ha : a = .listenReturns
    · exact .inr (drained_of_step hstep (hlate ha))
    · exact .inl (inListenAndServe_of_step hstep ha hmain)
  · exact .inr (drained_of_step hstep hdrained)

theorem PastListen.drainsFirst {s : State} (h : PastListen s) : DrainsFirst s := by
  intro hexited
  refine h.resolve_left ?_
  rw [hexited]
  simp

/-- The steps of main behind `ListenAndServe`: nothing in them waits. -/
def mainEnds : List Act := [.deferRecorderClose, .deferStop, .exit]

theorem run_mainEnds {C : Config} {s : State} (hmain : s.main = .returned) :
    ∃ t, (machine C).run s mainEnds = some t ∧ t.main = .exited ∧ t.shutdown = s.shutdown ∧
      t.sessions = s.sessions := by
  refine ⟨{ s with main := .exited, recorderClosed := s.recorderClosed || C.recorder }, ?_, rfl,
    rfl, rfl⟩
  simp [mainEnds, Machine.run, machine, step, stepAlive, hmain]

/-- A main goroutine that comes out earlier can exit first. -/
theorem exits_of_not_mainLate {cfg : Config} {s s' : State} {a : Act}
    (hstep : step cfg s a = some s') (hlate : ¬ MainLate s a) :
    ∃ t, (machine cfg).run s' mainEnds = some t ∧ ¬ DrainsFirst t := by
  obtain ⟨ha, hdrained⟩ := Classical.not_imp.mp hlate
  subst ha
  have halive := alive_of_step hstep
  simp only [stepAlive] at halive
  split at halive
  · obtain rfl := Option.some.inj halive
    have hmain : ({ s with main := .returned } : State).main = .returned := rfl
    obtain ⟨t, hrun, hexited, hshutdown, -⟩ := run_mainEnds (C := cfg) hmain
    refine ⟨t, hrun, fun h => hdrained ?_⟩
    rw [← h hexited, hshutdown]
  · exact absurd halive (by simp)

/-- The signal arrives, `Shutdown` is called, and main goes on at once. -/
def mainFirst : List Act := [.signal, .ctxDone, .callShutdown, .listenReturns] ++ mainEnds

theorem run_mainFirst (cfg : Config) :
    ∃ t, (machine cfg).run (initial cfg) mainFirst = some t ∧ t.main = .exited ∧
      t.shutdown = .inShutdown ∧ t.sessions = List.replicate cfg.sessions .streaming := by
  refine ⟨_, rfl, rfl, rfl, rfl⟩

/-- **Shutdown.**  A run drains before it exits if main comes out of
    `ListenAndServe` only after the drain wait; from a step that comes out earlier
    some continuation exits first; and whatever the flags and the number of
    sessions, some run does. -/
theorem drainsFirst_of_mainLate (cfg : Config) :
    (∀ as, (machine cfg).Guarded MainLate (initial cfg) as →
      (machine cfg).Always DrainsFirst (initial cfg) as) ∧
    (∀ s a s', step cfg s a = some s' → ¬ MainLate s a →
      ∃ as t, (machine cfg).run s' as = some t ∧ ¬ DrainsFirst t) ∧
    ¬ ∀ s, (machine cfg).Reachable s → DrainsFirst s := by
  refine ⟨?_, ?_, ?_⟩
  · intro as hlate
    have hall : (machine cfg).Always PastListen (initial cfg) as :=
      Machine.always_of_guarded (fun s a s' h hG hstep => pastListen_of_step h hG hstep) hlate
        (.inl rfl)
    exact hall.mono fun s h => h.drainsFirst
  · intro s a s' hstep hlate
    obtain ⟨t, hrun, hnot⟩ := exits_of_not_mainLate hstep hlate
    exact ⟨mainEnds, t, hrun, hnot⟩
  · intro hall
    obtain ⟨t, hrun, hexited, hshutdown, -⟩ := run_mainFirst cfg
    have hdrained := hall t ⟨mainFirst, hrun⟩ hexited
    rw [hshutdown] at hdrained
    exact absurd hdrained (by decide)

/-- One session, and a main goroutine that is not scheduled during the drain. -/
def drainedRun : List Act :=
  [.signal, .ctxDone, .callShutdown, .shutdownReturns, .closeNext, .closeNext, .sessionEnds 0,
    .wake, .listenReturns] ++ mainEnds

theorem drainsFirst_of_mainLate_one :
    (machine ⟨true, false, 1⟩).Always DrainsFirst (initial ⟨true, false, 1⟩) drainedRun := by
  apply (drainsFirst_of_mainLate ⟨true, false, 1⟩).1
  simp [drainedRun, mainEnds, Machine.Guarded, MainLate, machine, step, stepAlive, initial,
    ShutdownPc.drained, ShutdownPc.called]

/-- With a recorder and one active session the process exits while the session
    still streams. -/
theorem exits_while_streaming :
    ∃ s, (machine ⟨true, false, 1⟩).Reachable s ∧ s.main = .exited ∧ s.sessions = [.streaming] ∧
      ¬ DrainsFirst s := by
  obtain ⟨t, hrun, hexited, hshutdown, hsessions⟩ := run_mainFirst ⟨true, false, 1⟩
  refine ⟨t, ⟨mainFirst, hrun⟩, hexited, hsessions, ?_⟩
  intro h
  have hdrained := h hexited
  rw [hshutdown] at hdrained
  exact absurd hdrained (by decide)

end FsBridge.Cmd
