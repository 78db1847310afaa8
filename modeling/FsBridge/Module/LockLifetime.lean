/-
  FsBridge.Module.LockLifetime

  The two mutexes of a stream, `tech_pvt->mutex` and `tech_pvt->play_mutex`, from their
  creation in `stream_data_init` to `destroy_tech_pvt` (module/ws_bridge_glue.cpp).

  The threads: the start command (`start_capture`, module/mod_ws_bridge.c), which
  connects before it creates the mutexes; the event thread of the WebSocket client,
  which runs the message, binary and error callbacks; and any number of callers of
  `stream_session_send_text` and `stream_session_cleanup`.  The error callback closes
  the media bug, and so runs a cleanup on the event thread itself.

  A section under a mutex is one step: what others read of it without the mutex, they
  could have read before it as well.
-/

import Mathlib.Logic.Function.Basic
import FsBridge.Lib.Machine

namespace FsBridge.Module.LockLifetime

open FsBridge.Lib

/-- A mutex of `tech_pvt`; `destroy_tech_pvt` destroys it and clears its pointer. -/
inductive Mutex where
  | null
  | live
  | destroyed
deriving DecidableEq, Repr

/-- What the start command has done last.  `initFailed`: an error return of
    `stream_data_init`, with the two steps of `destroy_tech_pvt` behind it. -/
inductive StartPc where
  | notConnected
  | connected
  | mutexCreated
  | playMutexCreated
  | sbufferCreated
  | playBufferCreated
  | stashCreated
  | initialised
  | initFailed
  | mutexDestroyed
  | playMutexDestroyed
  | bugFailed
  | bugAdded
  | privateSet
deriving DecidableEq, Repr

/-- The start command has created `mutex`, and no error return has destroyed it. -/
def StartPc.hasMutex : StartPc → Bool
  | .notConnected | .connected | .mutexDestroyed | .playMutexDestroyed => false
  | _ => true

/-- The same of `play_mutex`. -/
def StartPc.hasPlayMutex : StartPc → Bool
  | .notConnected | .connected | .mutexCreated | .playMutexDestroyed => false
  | _ => true

/-- The callbacks; `clear` is the message `{"type":"clear"}`.  Those for open and close
    take no mutex. -/
inductive Callback where
  | clear
  | message
  | binary
  | error
deriving DecidableEq, Repr

/-- Where the event thread is.  `clear` and `binary` are past `isCleanedUp()`,
    `binaryChecked` is past the checks of `onBinary`, `closing` is in
    `switch_core_media_bug_close`, which calls the cleanup. -/
inductive EventPc where
  | notStarted
  | idle
  | clear
  | binary
  | binaryChecked
  | error
  | closing
  | inCleanup
  | ended
deriving DecidableEq, Repr

/-- The event thread takes `play_mutex` next. -/
def EventPc.atPlayLock : EventPc → Bool
  | .clear | .binaryChecked => true
  | _ => false

/-- Where a caller is.  `gotBug`: it has found the bug in the channel private and takes
    `mutex` next, for `stream_session_send_text` or for the cleanup.  From `started` on
    it is the one that set `cleanup_started`. -/
inductive CallPc where
  | idle
  | gotBug (send : Bool)
  | started
  | markedCleanedUp
  | disconnected
  | mutexDestroyed
deriving DecidableEq, Repr

/-- This call has set `cleanup_started`. -/
def CallPc.owns : CallPc → Bool
  | .idle | .gotBug _ => false
  | _ => true

/-- This call has set `m_cleanedUp`. -/
def CallPc.pastMark : CallPc → Bool
  | .markedCleanedUp | .disconnected | .mutexDestroyed => true
  | _ => false

/-- `disconnect()` has returned to this call. -/
def CallPc.pastDisconnect : CallPc → Bool
  | .disconnected | .mutexDestroyed => true
  | _ => false

/-- `some i` is a caller on a thread of its own, `none` the error callback. -/
structure State (ι : Type*) where
  mutex : Mutex
  playMutex : Mutex
  /-- `play_buffer` is there; it is never cleared. -/
  playBuffer : Bool
  cleanupStarted : Bool
  /-- `m_cleanedUp`. -/
  cleanedUp : Bool
  /-- The channel private holds the bug. -/
  hasPrivate : Bool
  start : StartPc
  event : EventPc
  calls : Option ι → CallPc
  /-- A `switch_mutex_lock` was executed on a mutex that is not there. -/
  lockFault : Bool

inductive StartAct where
  | connect
  | mutexInit
  | playMutexInit
  | createSbuffer (ok : Bool)
  | createPlayBuffer (ok : Bool)
  | createStash (ok : Bool)
  | initResampler (ok : Bool)
  | destroyMutex
  | destroyPlayMutex
  | addBug (ok : Bool)
  | setPrivate
deriving DecidableEq, Repr

inductive EventAct where
  | dispatch (cb : Callback)
  | checkBinary
  | lockPlay
  | mediaBugClose
  | returnError
  | exitLoop
deriving DecidableEq, Repr

inductive CallAct where
  | begin (send : Bool)
  | lock
  | markCleanedUp
  | disconnect
  | destroyMutex
  | destroyPlayMutex
deriving DecidableEq, Repr

inductive Act (ι : Type*) where
  | start (a : StartAct)
  | event (a : EventAct)
  | call (t : Option ι) (a : CallAct)

variable {ι : Type*}

/-- The start command goes on from `pc` with `s'`. -/
def State.startAt (s : State ι) (pc : StartPc) (s' : State ι) : Option (State ι) :=
  if s.start = pc then some s' else none

/-- `stream_data_init`, its error return, and what `start_capture` does behind it. -/
def stepStart (s : State ι) : StartAct → Option (State ι)
  | .connect => s.startAt .notConnected { s with start := .connected, event := .idle }
  | .mutexInit => s.startAt .connected { s with start := .mutexCreated, mutex := .live }
  | .playMutexInit =>
      s.startAt .mutexCreated { s with start := .playMutexCreated, playMutex := .live }
  | .createSbuffer ok =>
      s.startAt .playMutexCreated { s with start := if ok then .sbufferCreated else .initFailed }
  | .createPlayBuffer ok =>
      s.startAt .sbufferCreated
        { s with start := if ok then .playBufferCreated else .initFailed, playBuffer := ok }
  | .createStash ok =>
      s.startAt .playBufferCreated { s with start := if ok then .stashCreated else .initFailed }
  | .initResampler ok =>
      s.startAt .stashCreated { s with start := if ok then .initialised else .initFailed }
  | .destroyMutex =>
      s.startAt .initFailed { s with start := .mutexDestroyed, mutex := .destroyed }
  | .destroyPlayMutex =>
      s.startAt .mutexDestroyed { s with start := .playMutexDestroyed, playMutex := .destroyed }
  | .addBug ok => s.startAt .initialised { s with start := if ok then .bugAdded else .bugFailed }
  | .setPrivate => s.startAt .bugAdded { s with start := .privateSet, hasPrivate := true }

/-- Where a callback leaves the event thread that finds the stream not cleaned up. -/
def Callback.entry : Callback → EventPc
  | .clear => .clear
  | .message => .idle
  | .binary => .binary
  | .error => .error

/-- The event thread. -/
def stepEvent (s : State ι) : EventAct → Option (State ι)
  | .dispatch cb =>
      if s.event = .idle then
        if s.cleanedUp then some s else some { s with event := cb.entry }
      else none
  | .checkBinary =>
      if s.event = .binary then
        if s.playBuffer ∧ ¬ s.cleanupStarted then some { s with event := .binaryChecked }
        else some { s with event := .idle }
      else none
  | .lockPlay =>
      if s.event.atPlayLock then
        some { s with event := .idle, lockFault := s.lockFault || s.playMutex ≠ .live }
      else none
  | .mediaBugClose =>
      if s.event = .error then
        if s.hasPrivate then some { s with event := .closing } else some { s with event := .idle }
      else none
  | .returnError =>
      -- from `error`: no session is found; from `closing`: the bug is closed already
      if s.event = .error ∨ s.event = .closing ∨ s.event = .inCleanup ∧ s.calls none = .idle then
        some { s with event := .idle }
      else none
  | .exitLoop => if s.event = .idle then some { s with event := .ended } else none

/-- The thread is free to call `stream_session_send_text` or the cleanup: the error
    callback only calls the cleanup, when it closes the bug. -/
def State.mayCall (s : State ι) (send : Bool) : Option ι → Prop
  | none => s.event = .closing ∧ send = false
  | some _ => True

instance (s : State ι) (send : Bool) (t : Option ι) : Decidable (s.mayCall send t) := by
  cases t <;> unfold State.mayCall <;> infer_instance

/-- The event thread, once the error callback has entered the cleanup. -/
def State.eventAfterBegin (s : State ι) : Option ι → EventPc
  | none => .inCleanup
  | some _ => s.event

/-- `stop()` of the client: it joins the event thread, and detaches it on itself. -/
def State.joins (s : State ι) : Option ι → Prop
  | none => True
  | some _ => s.event = .ended

instance (s : State ι) (t : Option ι) : Decidable (s.joins t) := by
  cases t <;> unfold State.joins <;> infer_instance

variable [DecidableEq ι]

/-- `t` goes on from `pc` to `pc'`, with `s'` for the rest. -/
def State.callAt (s : State ι) (t : Option ι) (pc pc' : CallPc) (s' : State ι) :
    Option (State ι) :=
  if s.calls t = pc then some { s' with calls := Function.update s.calls t pc' } else none

/-- `stream_session_send_text` and `stream_session_cleanup`. -/
def stepCall (s : State ι) (t : Option ι) : CallAct → Option (State ι)
  | .begin send =>
      if s.mayCall send t then
        s.callAt t .idle (if s.hasPrivate then .gotBug send else .idle)
          { s with event := s.eventAfterBegin t }
      else none
  | .lock =>
      let s' := { s with lockFault := s.lockFault || s.mutex ≠ .live }
      match s.calls t with
      | .gotBug true => s.callAt t (.gotBug true) .idle s'
      | .gotBug false =>
          if s.cleanupStarted then s.callAt t (.gotBug false) .idle s'
          else s.callAt t (.gotBug false) .started
            { s' with cleanupStarted := true, hasPrivate := false }
      | _ => none
  | .markCleanedUp => s.callAt t .started .markedCleanedUp { s with cleanedUp := true }
  | .disconnect =>
      if s.joins t then s.callAt t .markedCleanedUp .disconnected s else none
  | .destroyMutex => s.callAt t .disconnected .mutexDestroyed { s with mutex := .destroyed }
  | .destroyPlayMutex => s.callAt t .mutexDestroyed .idle { s with playMutex := .destroyed }

/-- One atomic step of a thread. -/
def step (s : State ι) : Act ι → Option (State ι)
  | .start a => stepStart s a
  | .event a => stepEvent s a
  | .call t a => stepCall s t a

/-- `tech_pvt` is zeroed, the connection is about to be made. -/
def initial : State ι where
  mutex := .null
  playMutex := .null
  playBuffer := false
  cleanupStarted := false
  cleanedUp := false
  hasPrivate := false
  start := .notConnected
  event := .notStarted
  calls := fun _ => .idle
  lockFault := false

def machine : Machine (State ι) (Act ι) where
  init := initial
  step := step

-- ============================================================================
-- Locks in time
-- ============================================================================

/-- The schedules that keep every lock on a live mutex.  A clear message comes only once
    the start command has created `play_mutex`, and not behind an error return that has
    destroyed it; behind such a return `onBinary` checks no data either, if `play_buffer`
    had been created.  An error return does not destroy `play_mutex` under a callback that
    is past its checks, and a cleanup does not destroy `mutex` while another call has the
    bug in hand. -/
def LocksInTime (s : State ι) : Act ι → Prop
  | .event (.dispatch .clear) => s.start.hasPlayMutex
  | .event .checkBinary => s.playBuffer → s.start.hasPlayMutex
  | .start .destroyPlayMutex => ¬ s.event.atPlayLock
  | .call t .destroyMutex => ∀ t', t' ≠ t → ∀ send, s.calls t' ≠ .gotBug send
  | _ => True

/-- No lock was executed on a mutex that is not there, and no step can execute one next. -/
def LocksSound (s : State ι) : Prop :=
  s.lockFault = false ∧ ∀ a s', step s a = some s' → s'.lockFault = false

/-- The joint invariant of the threads. -/
structure LockInv (s : State ι) : Prop where
  sound : s.lockFault = false
  /-- The private stands from `start_capture`'s last step to the cleanup. -/
  reachable : s.hasPrivate → s.start = .privateSet ∧ s.cleanupStarted = false
  begun : s.cleanupStarted → s.start = .privateSet
  owner : ∀ t, (s.calls t).owns → s.cleanupStarted
  unique : ∀ t t', (s.calls t).owns → (s.calls t').owns → t = t'
  /-- Who is about to take `mutex` finds it. -/
  gotBug : ∀ t send, s.calls t = .gotBug send → s.mutex = .live ∧ s.start = .privateSet
  /-- Likewise `play_mutex`. -/
  atPlayLock : s.event.atPlayLock → s.playMutex = .live
  mutexLive : s.start.hasMutex → s.cleanupStarted = false → s.mutex = .live
  playMutexLive : s.start.hasPlayMutex → s.cleanedUp = false → s.playMutex = .live
  playMutexMade : s.playMutex = .live → s.start.hasPlayMutex
  cleaned : s.cleanedUp → s.cleanupStarted
  marked : ∀ t, (s.calls t).pastMark → s.cleanedUp
  /-- The error callback has called, so the event thread is in it. -/
  errorCall : s.calls none ≠ .idle → s.event = .inCleanup
  joined : ∀ i, (s.calls (some i)).pastDisconnect → s.event = .ended

omit [DecidableEq ι] in
theorem lockInv_initial : LockInv (initial : State ι) where
  sound := rfl
  reachable := nofun
  begun := nofun
  owner := fun _ h => absurd h (by simp [initial, CallPc.owns])
  unique := fun _ _ h => absurd h (by simp [initial, CallPc.owns])
  gotBug := fun _ _ h => absurd h (by simp [initial])
  atPlayLock := nofun
  mutexLive := nofun
  playMutexLive := nofun
  playMutexMade := nofun
  cleaned := nofun
  marked := fun _ h => absurd h (by simp [initial, CallPc.pastMark])
  errorCall := fun h => absurd rfl h
  joined := fun _ h => absurd h (by simp [initial, CallPc.pastDisconnect])

omit [DecidableEq ι] in
/-- A step of the start command moves it from one place to the next. -/
theorem State.startAt_eq_some {s s' t : State ι} {pc : StartPc} (h : s.startAt pc t = some s') :
    s.start = pc ∧ t = s' := Machine.of_guard h

theorem State.callAt_eq_some {s s' u : State ι} {t : Option ι} {pc pc' : CallPc}
    (h : s.callAt t pc pc' u = some s') :
    s.calls t = pc ∧ { u with calls := Function.update s.calls t pc' } = s' := Machine.of_guard h

omit [DecidableEq ι] in
/-- Before the private is set there is no call, no cleanup, no private. -/
theorem LockInv.quiet {s : State ι} (h : LockInv s) (hpc : s.start ≠ .privateSet) :
    s.hasPrivate = false ∧ s.cleanupStarted = false ∧ ∀ t, s.calls t = .idle := by
  refine ⟨?_, ?_, fun t => ?_⟩
  · by_contra hp
    exact hpc (h.reachable (by simpa using hp)).1
  · by_contra hc
    exact hpc (h.begun (by simpa using hc))
  · have howner := h.owner t
    have hbegun := h.begun
    have hbug := h.gotBug t
    cases hcall : s.calls t with
    | idle => rfl
    | gotBug send => exact absurd (hbug send hcall).2 hpc
    | _ => exact absurd (hbegun (howner (by rw [hcall]; rfl))) hpc

omit [DecidableEq ι] in
theorem lockInv_of_quiet {s : State ι} (hsound : s.lockFault = false)
    (hcleanup : s.cleanupStarted = false) (hcalls : ∀ t, s.calls t = .idle)
    (hprivate : s.hasPrivate → s.start = .privateSet)
    (hplay : s.event.atPlayLock → s.playMutex = .live)
    (hmutex : s.start.hasMutex → s.mutex = .live)
    (hplayMutex : s.start.hasPlayMutex → s.playMutex = .live)
    (hmade : s.playMutex = .live → s.start.hasPlayMutex) (hcleaned : s.cleanedUp → s.cleanupStarted) :
    LockInv s where
  sound := hsound
  reachable := fun h => ⟨hprivate h, hcleanup⟩
  begun := fun h => absurd h (by simp [hcleanup])
  owner := fun t h => absurd h (by simp [hcalls t, CallPc.owns])
  unique := fun t _ h => absurd h (by simp [hcalls t, CallPc.owns])
  gotBug := fun t _ h => absurd h (by simp [hcalls t])
  atPlayLock := hplay
  mutexLive := fun h _ => hmutex h
  playMutexLive := fun h _ => hplayMutex h
  playMutexMade := hmade
  cleaned := hcleaned
  marked := fun t h => absurd h (by simp [hcalls t, CallPc.pastMark])
  errorCall := fun h => absurd (hcalls none) h
  joined := fun i h => absurd h (by simp [hcalls (some i), CallPc.pastDisconnect])

omit [DecidableEq ι] in
theorem LockInv.not_cleaned {s : State ι} (h : LockInv s) (hcleanup : s.cleanupStarted = false) :
    s.cleanedUp = false := by
  by_contra hcleaned
  exact absurd ((h.cleaned (by simpa using hcleaned)).symm.trans hcleanup) (by simp)

omit [DecidableEq ι] in
theorem lockInv_stepStart {s s' : State ι} {a : StartAct} (h : LockInv s)
    (hevent : a = .destroyPlayMutex → s.event.atPlayLock = false)
    (hstep : stepStart s a = some s') : LockInv s' := by
  have hmutex := h.mutexLive
  have hplayMutex := h.playMutexLive
  have hmade := h.playMutexMade
  have hplay := h.atPlayLock
  cases a with
  | connect =>
      obtain ⟨hpc, rfl⟩ := State.startAt_eq_some hstep
      obtain ⟨hprivate, hcleanup, hcalls⟩ := h.quiet (by simp [hpc])
      rw [hpc] at hmade
      exact lockInv_of_quiet h.sound hcleanup hcalls (by simp [hprivate]) nofun nofun nofun hmade
        h.cleaned
  | mutexInit =>
      obtain ⟨hpc, rfl⟩ := State.startAt_eq_some hstep
      obtain ⟨hprivate, hcleanup, hcalls⟩ := h.quiet (by simp [hpc])
      rw [hpc] at hmade
      exact lockInv_of_quiet h.sound hcleanup hcalls (by simp [hprivate]) hplay (fun _ => rfl) nofun
        hmade h.cleaned
  | playMutexInit =>
      obtain ⟨hpc, rfl⟩ := State.startAt_eq_some hstep
      obtain ⟨hprivate, hcleanup, hcalls⟩ := h.quiet (by simp [hpc])
      exact lockInv_of_quiet h.sound hcleanup hcalls (by simp [hprivate]) (fun _ => rfl)
        (fun _ => hmutex (by rw [hpc]; rfl) hcleanup) (fun _ => rfl) (fun _ => rfl) h.cleaned
  | destroyMutex =>
      obtain ⟨hpc, rfl⟩ := State.startAt_eq_some hstep
      obtain ⟨hprivate, hcleanup, hcalls⟩ := h.quiet (by simp [hpc])
      exact lockInv_of_quiet h.sound hcleanup hcalls (by simp [hprivate]) hplay nofun
        (fun _ => hplayMutex (by rw [hpc]; rfl) (h.not_cleaned hcleanup)) (fun _ => rfl) h.cleaned
  | destroyPlayMutex =>
      obtain ⟨hpc, rfl⟩ := State.startAt_eq_some hstep
      obtain ⟨hprivate, hcleanup, hcalls⟩ := h.quiet (by simp [hpc])
      exact lockInv_of_quiet h.sound hcleanup hcalls (by simp [hprivate])
        (by simp [hevent rfl]) nofun nofun nofun h.cleaned
  | setPrivate =>
      obtain ⟨hpc, rfl⟩ := State.startAt_eq_some hstep
      obtain ⟨hprivate, hcleanup, hcalls⟩ := h.quiet (by simp [hpc])
      exact lockInv_of_quiet h.sound hcleanup hcalls (fun _ => rfl) hplay
        (fun _ => hmutex (by rw [hpc]; rfl) hcleanup)
        (fun _ => hplayMutex (by rw [hpc]; rfl) (h.not_cleaned hcleanup)) (fun _ => rfl) h.cleaned
  | createSbuffer ok | createPlayBuffer ok | createStash ok | initResampler ok | addBug ok =>
      obtain ⟨hpc, rfl⟩ := State.startAt_eq_some hstep
      obtain ⟨hprivate, hcleanup, hcalls⟩ := h.quiet (by simp [hpc])
      refine lockInv_of_quiet h.sound hcleanup hcalls (by simp [hprivate]) hplay
        (fun _ => hmutex (by rw [hpc]; rfl) hcleanup)
        (fun _ => hplayMutex (by rw [hpc]; rfl) (h.not_cleaned hcleanup)) (fun _ => ?_) h.cleaned
      cases ok <;> rfl

omit [DecidableEq ι] in
/-- While the event thread runs, and is not in a cleanup of its own. -/
theorem LockInv.moveEvent {s : State ι} (h : LockInv s) {e : EventPc} (hrun : s.event ≠ .ended)
    (hcall : s.event ≠ .inCleanup ∨ s.calls none = .idle)
    (hplay : e.atPlayLock → s.playMutex = .live) : LockInv { s with event := e } :=
  { h with
    atPlayLock := hplay
    errorCall := fun hne => absurd (h.errorCall hne) (hcall.resolve_right hne)
    joined := fun i hpast => absurd (h.joined i hpast) hrun }

omit [DecidableEq ι] in
theorem lockInv_stepEvent {s s' : State ι} {a : EventAct} (h : LockInv s)
    (hintime : LocksInTime s (.event a)) (hstep : stepEvent s a = some s') : LockInv s' := by
  cases a with
  | dispatch cb =>
      simp only [stepEvent] at hstep
      split at hstep
      · rename_i hidle
        split at hstep
        · obtain rfl := Option.some.inj hstep
          exact h
        · rename_i hnot
          obtain rfl := Option.some.inj hstep
          refine h.moveEvent (by simp [hidle]) (.inl (by simp [hidle])) fun hlock => ?_
          cases cb with
          | clear => exact h.playMutexLive hintime (by simpa using hnot)
          | message | binary | error =>
              exact absurd hlock (by simp [Callback.entry, EventPc.atPlayLock])
      · exact absurd hstep (by simp)
  | checkBinary =>
      simp only [stepEvent] at hstep
      split at hstep
      · rename_i hbinary
        split at hstep
        · rename_i hready
          obtain rfl := Option.some.inj hstep
          refine h.moveEvent (by simp [hbinary]) (.inl (by simp [hbinary])) fun _ => ?_
          exact h.playMutexLive (hintime hready.1) (h.not_cleaned (by simpa using hready.2))
        · obtain rfl := Option.some.inj hstep
          exact h.moveEvent (by simp [hbinary]) (.inl (by simp [hbinary])) nofun
      · exact absurd hstep (by simp)
  | lockPlay =>
      obtain ⟨hlock, rfl⟩ := Machine.of_guard hstep
      have hlive := h.atPlayLock hlock
      have hmoved : LockInv { s with event := .idle } := by
        refine h.moveEvent ?_ (.inl ?_) nofun
        · intro hended
          exact absurd hlock (by simp [hended, EventPc.atPlayLock])
        · intro hclean
          exact absurd hlock (by simp [hclean, EventPc.atPlayLock])
      exact { hmoved with sound := by simp [h.sound, hlive] }
  | mediaBugClose =>
      simp only [stepEvent] at hstep
      split at hstep
      · rename_i herror
        split at hstep
        · obtain rfl := Option.some.inj hstep
          exact h.moveEvent (by simp [herror]) (.inl (by simp [herror])) nofun
        · obtain rfl := Option.some.inj hstep
          exact h.moveEvent (by simp [herror]) (.inl (by simp [herror])) nofun
      · exact absurd hstep (by simp)
  | returnError =>
      obtain ⟨hback, rfl⟩ := Machine.of_guard hstep
      rcases hback with herror | hclosing | ⟨hclean, hidle⟩
      · exact h.moveEvent (by simp [herror]) (.inl (by simp [herror])) nofun
      · exact h.moveEvent (by simp [hclosing]) (.inl (by simp [hclosing])) nofun
      · exact h.moveEvent (by simp [hclean]) (.inr hidle) nofun
  | exitLoop =>
      obtain ⟨hidle, rfl⟩ := Machine.of_guard hstep
      exact h.moveEvent (by simp [hidle]) (.inl (by simp [hidle])) nofun

/-- A call that moves from `pc` to `pc'` and neither takes nor destroys a mutex. -/
theorem LockInv.moveCall {s : State ι} (h : LockInv s) {t : Option ι} {pc' : CallPc}
    (howns : pc'.owns → (s.calls t).owns)
    (hbug : ∀ send, pc' = .gotBug send → s.mutex = .live ∧ s.start = .privateSet)
    (herror : t = none → pc' ≠ .idle → s.event = .inCleanup)
    (hjoined : ∀ i, t = some i → pc'.pastDisconnect → s.event = .ended)
    (hmarked : pc'.pastMark → s.cleanedUp) :
    LockInv { s with calls := Function.update s.calls t pc' } := by
  have howns' : ∀ t', (Function.update s.calls t pc' t').owns → (s.calls t').owns := by
    intro t' ht'
    by_cases heq : t' = t
    · subst heq
      rw [Function.update_self] at ht'
      exact howns ht'
    · rwa [Function.update_of_ne heq] at ht'
  refine { h with
    owner := fun t' ht' => h.owner t' (howns' t' ht')
    unique := fun t₁ t₂ h₁ h₂ => h.unique t₁ t₂ (howns' t₁ h₁) (howns' t₂ h₂)
    gotBug := ?_
    marked := ?_
    errorCall := ?_
    joined := ?_ }
  · intro t' send hcall
    show s.mutex = .live ∧ s.start = .privateSet
    have hcall' : Function.update s.calls t pc' t' = .gotBug send := hcall
    by_cases heq : t' = t
    · subst heq
      rw [Function.update_self] at hcall'
      exact hbug send hcall'
    · rw [Function.update_of_ne heq] at hcall'
      exact h.gotBug t' send hcall'
  · intro t' hcall
    show s.cleanedUp
    have hcall' : (Function.update s.calls t pc' t').pastMark := hcall
    by_cases heq : t' = t
    · subst heq
      rw [Function.update_self] at hcall'
      exact hmarked hcall'
    · rw [Function.update_of_ne heq] at hcall'
      exact h.marked t' hcall'
  · intro hcall
    show s.event = .inCleanup
    have hcall' : Function.update s.calls t pc' none ≠ .idle := hcall
    by_cases heq : none = t
    · subst heq
      rw [Function.update_self] at hcall'
      exact herror rfl hcall'
    · rw [Function.update_of_ne heq] at hcall'
      exact h.errorCall hcall'
  · intro i hcall
    show s.event = .ended
    have hcall' : (Function.update s.calls t pc' (some i)).pastDisconnect := hcall
    by_cases heq : some i = t
    · subst heq
      rw [Function.update_self] at hcall'
      exact hjoined i rfl hcall'
    · rw [Function.update_of_ne heq] at hcall'
      exact h.joined i hcall'

/-- The call that sets `cleanup_started`, the first one to do so. -/
theorem LockInv.startCleanup {s : State ι} (h : LockInv s) {t : Option ι}
    (hbug : s.calls t = .gotBug false) (hfirst : s.cleanupStarted = false) :
    LockInv { s with
      cleanupStarted := true
      hasPrivate := false
      calls := Function.update s.calls t .started } := by
  obtain ⟨hlive, hstart⟩ := h.gotBug t false hbug
  have hnone : ∀ t', (s.calls t').owns = false := by
    intro t'
    by_contra howns
    have hstarted := h.owner t' (by simpa using howns)
    exact absurd (hstarted.symm.trans hfirst) (by simp)
  have howner : ∀ t', (Function.update s.calls t .started t').owns → t' = t := by
    intro t' ht'
    by_contra hne
    rw [Function.update_of_ne hne, hnone t'] at ht'
    exact absurd ht' (by simp)
  refine { h with
    reachable := nofun
    begun := fun _ => hstart
    owner := fun _ _ => rfl
    unique := fun t₁ t₂ h₁ h₂ => (howner t₁ h₁).trans (howner t₂ h₂).symm
    gotBug := ?_
    mutexLive := fun _ h => absurd h (by simp)
    cleaned := fun _ => rfl
    marked := ?_
    errorCall := ?_
    joined := ?_ }
  · intro _ _ _
    exact ⟨hlive, hstart⟩
  · intro t' hcall
    show s.cleanedUp
    have hcall' : (Function.update s.calls t .started t').pastMark := hcall
    by_cases heq : t' = t
    · subst heq
      rw [Function.update_self] at hcall'
      exact absurd hcall' (by simp [CallPc.pastMark])
    · rw [Function.update_of_ne heq] at hcall'
      exact h.marked t' hcall'
  · intro hcall
    show s.event = .inCleanup
    have hcall' : Function.update s.calls t .started none ≠ .idle := hcall
    by_cases heq : none = t
    · apply h.errorCall
      rw [heq, hbug]
      simp
    · rw [Function.update_of_ne heq] at hcall'
      exact h.errorCall hcall'
  · intro i hcall
    show s.event = .ended
    have hcall' : (Function.update s.calls t .started (some i)).pastDisconnect := hcall
    by_cases heq : some i = t
    · subst heq
      rw [Function.update_self] at hcall'
      exact absurd hcall' (by simp [CallPc.pastDisconnect])
    · rw [Function.update_of_ne heq] at hcall'
      exact h.joined i hcall'

omit [DecidableEq ι] in
/-- The call past its disconnect is alone with the event thread: that has ended, or is
    in this very call. -/
theorem LockInv.not_atPlayLock {s : State ι} (h : LockInv s) {t : Option ι}
    (hpast : (s.calls t).pastDisconnect) : ¬ s.event.atPlayLock := by
  cases t with
  | none =>
      have hcall : s.calls none ≠ .idle := by
        intro hidle
        exact absurd hpast (by simp [hidle, CallPc.pastDisconnect])
      rw [h.errorCall hcall]
      simp [EventPc.atPlayLock]
  | some i =>
      rw [h.joined i hpast]
      simp [EventPc.atPlayLock]

theorem lockInv_stepCall {s s' : State ι} {t : Option ι} {a : CallAct} (h : LockInv s)
    (hintime : LocksInTime s (.call t a)) (hstep : stepCall s t a = some s') : LockInv s' := by
  cases a with
  | begin send =>
      simp only [stepCall] at hstep
      split at hstep
      · rename_i hmay
        obtain ⟨hidle, rfl⟩ := State.callAt_eq_some hstep
        have hentered : LockInv { s with event := s.eventAfterBegin t } := by
          cases t with
          | none => exact h.moveEvent (by simp [hmay.1]) (.inr hidle) nofun
          | some i => exact h
        refine hentered.moveCall ?_ ?_ ?_ ?_ ?_
        · split <;> simp [CallPc.owns]
        · intro send' hgot
          split at hgot
          · rename_i hprivate
            obtain ⟨hstart, hcleanup⟩ := h.reachable hprivate
            exact ⟨h.mutexLive (by rw [hstart]; rfl) hcleanup, hstart⟩
          · exact absurd hgot (by simp)
        · rintro rfl -
          rfl
        · intro i _ hpast
          split at hpast
          · exact absurd hpast (by simp [CallPc.pastDisconnect])
          · exact absurd hpast (by simp [CallPc.pastDisconnect])
        · split <;> simp [CallPc.pastMark]
      · exact absurd hstep (by simp)
  | lock =>
      have hback : ∀ send, s.calls t = .gotBug send →
          LockInv { s with
            lockFault := s.lockFault || s.mutex ≠ .live
            calls := Function.update s.calls t .idle } := by
        intro send hbug
        have hmoved : LockInv { s with calls := Function.update s.calls t .idle } :=
          h.moveCall nofun nofun (fun _ hne => absurd rfl hne) nofun nofun
        exact { hmoved with sound := by simp [h.sound, (h.gotBug t send hbug).1] }
      simp only [stepCall] at hstep
      split at hstep
      · rename_i hbug
        obtain ⟨-, rfl⟩ := State.callAt_eq_some hstep
        exact hback true hbug
      · rename_i hbug
        split at hstep
        · obtain ⟨-, rfl⟩ := State.callAt_eq_some hstep
          exact hback false hbug
        · rename_i hfirst
          obtain ⟨-, rfl⟩ := State.callAt_eq_some hstep
          have hstarted := h.startCleanup hbug (by simpa using hfirst)
          exact { hstarted with sound := by simp [h.sound, (h.gotBug t false hbug).1] }
      · exact absurd hstep (by simp)
  | markCleanedUp =>
      obtain ⟨hpc, rfl⟩ := State.callAt_eq_some hstep
      have hstarted := h.owner t (by rw [hpc]; rfl)
      have hmarked : LockInv { s with cleanedUp := true } := { h with
        playMutexLive := fun _ h => absurd h (by simp)
        cleaned := fun _ => hstarted
        marked := fun _ _ => rfl }
      refine hmarked.moveCall (fun _ => ?_) nofun (fun hnone _ => ?_) nofun (fun _ => rfl)
      · show (s.calls t).owns
        rw [hpc]
        rfl
      · subst hnone
        exact h.errorCall (by simp [hpc])
  | disconnect =>
      simp only [stepCall] at hstep
      split at hstep
      · rename_i hjoin
        obtain ⟨hpc, rfl⟩ := State.callAt_eq_some hstep
        refine h.moveCall (fun _ => ?_) nofun (fun hnone _ => ?_) (fun i hsome _ => ?_)
          (fun _ => h.marked t (by rw [hpc]; rfl))
        · rw [hpc]
          rfl
        · subst hnone
          exact h.errorCall (by simp [hpc])
        · subst hsome
          exact hjoin
      · exact absurd hstep (by simp)
  | destroyMutex =>
      obtain ⟨hpc, rfl⟩ := State.callAt_eq_some hstep
      have hstarted := h.owner t (by rw [hpc]; rfl)
      have hmoved : LockInv { s with calls := Function.update s.calls t .mutexDestroyed } := by
        refine h.moveCall (fun _ => ?_) nofun (fun hnone _ => ?_) (fun i hsome _ => ?_)
          (fun _ => h.marked t (by rw [hpc]; rfl))
        · rw [hpc]
          rfl
        · subst hnone
          exact h.errorCall (by simp [hpc])
        · subst hsome
          exact h.joined i (by rw [hpc]; rfl)
      refine { hmoved with gotBug := ?_, mutexLive := ?_ }
      · intro t' send hcall
        have hcall' : Function.update s.calls t .mutexDestroyed t' = .gotBug send := hcall
        by_cases heq : t' = t
        · subst heq
          rw [Function.update_self] at hcall'
          exact absurd hcall' (by simp)
        · rw [Function.update_of_ne heq] at hcall'
          exact absurd hcall' (hintime t' heq send)
      · intro _ hcleanup
        exact absurd (hstarted.symm.trans hcleanup) (by simp)
  | destroyPlayMutex =>
      obtain ⟨hpc, rfl⟩ := State.callAt_eq_some hstep
      have hmarked := h.marked t (by rw [hpc]; rfl)
      have hpast : (s.calls t).pastDisconnect := by rw [hpc]; rfl
      have hmoved : LockInv { s with calls := Function.update s.calls t .idle } :=
        h.moveCall nofun nofun (fun _ hne => absurd rfl hne) nofun nofun
      refine { hmoved with atPlayLock := ?_, playMutexLive := ?_, playMutexMade := nofun }
      · intro hlock
        exact absurd hlock (h.not_atPlayLock hpast)
      · intro _ hcleaned
        exact absurd (hmarked.symm.trans hcleaned) (by simp)

theorem lockInv_step {s s' : State ι} {a : Act ι} (h : LockInv s) (hintime : LocksInTime s a)
    (hstep : step s a = some s') : LockInv s' := by
  cases a with
  | start a =>
      refine lockInv_stepStart h (fun ha => ?_) hstep
      subst ha
      simpa [LocksInTime] using hintime
  | event a => exact lockInv_stepEvent h hintime hstep
  | call t a => exact lockInv_stepCall h hintime hstep

/-- Who takes a mutex next takes a live one. -/
theorem LockInv.locksSound {s : State ι} (h : LockInv s) : LocksSound s := by
  refine ⟨h.sound, fun a s' hstep => ?_⟩
  cases a with
  | start a =>
      cases a with
      | _ =>
          obtain ⟨-, rfl⟩ := State.startAt_eq_some hstep
          exact h.sound
  | event a =>
      cases a with
      | lockPlay =>
          simp only [step, stepEvent] at hstep
          split at hstep
          · rename_i hlock
            obtain rfl := Option.some.inj hstep
            simp [h.sound, h.atPlayLock hlock]
          · exact absurd hstep (by simp)
      | dispatch _ | checkBinary | mediaBugClose | returnError | exitLoop =>
          have hsound := h.sound
          simp only [step, stepEvent] at hstep
          grind
  | call t a =>
      cases a with
      | lock =>
          have hsound := h.sound
          have hbug := h.gotBug t
          simp only [step, stepCall] at hstep
          split at hstep
          · rename_i hgot
            obtain ⟨-, rfl⟩ := State.callAt_eq_some hstep
            simp [hsound, (hbug true hgot).1]
          · rename_i hgot
            split at hstep
            · obtain ⟨-, rfl⟩ := State.callAt_eq_some hstep
              simp [hsound, (hbug false hgot).1]
            · obtain ⟨-, rfl⟩ := State.callAt_eq_some hstep
              simp [hsound, (hbug false hgot).1]
          · exact absurd hstep (by simp)
      | begin send =>
          simp only [step, stepCall] at hstep
          split at hstep
          · obtain ⟨-, rfl⟩ := State.callAt_eq_some hstep
            exact h.sound
          · exact absurd hstep (by simp)
      | disconnect =>
          simp only [step, stepCall] at hstep
          split at hstep
          · obtain ⟨-, rfl⟩ := State.callAt_eq_some hstep
            exact h.sound
          · exact absurd hstep (by simp)
      | markCleanedUp | destroyMutex | destroyPlayMutex =>
          obtain ⟨-, rfl⟩ := State.callAt_eq_some hstep
          exact h.sound

/-- The event thread at `play_mutex` finds it live. -/
theorem LocksSound.playMutex_live {s : State ι} (h : LocksSound s) (hlock : s.event.atPlayLock) :
    s.playMutex = .live := by
  have hnext := h.2 (.event .lockPlay) _ (if_pos hlock)
  simpa [h.1] using hnext

/-- A call with the bug in hand finds `mutex` live. -/
theorem LocksSound.mutex_live {s : State ι} (h : LocksSound s) {t : Option ι} {send : Bool}
    (hbug : s.calls t = .gotBug send) : s.mutex = .live := by
  by_contra hgone
  cases send with
  | true =>
      have hnext := h.2 (.call t .lock) _ (by simp only [step, stepCall, hbug, State.callAt]; rfl)
      simp [hgone] at hnext
  | false =>
      cases hcleanup : s.cleanupStarted with
      | true =>
          have hnext := h.2 (.call t .lock) _
            (by simp only [step, stepCall, hbug, hcleanup, State.callAt]; rfl)
          simp [hgone] at hnext
      | false =>
          have hnext := h.2 (.call t .lock) _
            (by simp only [step, stepCall, hbug, hcleanup, State.callAt]; rfl)
          simp [hgone] at hnext

omit [DecidableEq ι] in
/-- A cleanup begins only behind `start_capture`. -/
theorem LockInv.hasPlayMutex_of_cleanup {s : State ι} (h : LockInv s) (hcleanup : s.cleanupStarted) :
    s.start.hasPlayMutex := by
  rw [h.begun hcleanup]
  rfl

/-- A step that leaves the locks sound was in time. -/
theorem inTime_of_locksSound {s s' : State ι} {a : Act ι} (h : LockInv s)
    (hstep : step s a = some s') (hsound : LocksSound s') : LocksInTime s a := by
  match a with
  | .event (.dispatch .clear) =>
      simp only [step, stepEvent] at hstep
      split at hstep
      · split at hstep
        · rename_i hcleanedUp
          exact h.hasPlayMutex_of_cleanup (h.cleaned hcleanedUp)
        · obtain rfl := Option.some.inj hstep
          exact h.playMutexMade (hsound.playMutex_live rfl)
      · exact absurd hstep (by simp)
  | .event .checkBinary =>
      intro hbuffer
      by_cases hcleanup : s.cleanupStarted
      · exact h.hasPlayMutex_of_cleanup hcleanup
      · simp only [step, stepEvent, if_pos (And.intro hbuffer hcleanup)] at hstep
        split at hstep
        · obtain rfl := Option.some.inj hstep
          exact h.playMutexMade (hsound.playMutex_live rfl)
        · exact absurd hstep (by simp)
  | .start .destroyPlayMutex =>
      obtain ⟨-, rfl⟩ := State.startAt_eq_some hstep
      intro hlock
      exact absurd (hsound.playMutex_live hlock) (by simp)
  | .call t .destroyMutex =>
      obtain ⟨-, rfl⟩ := State.callAt_eq_some hstep
      intro t' hne send hbug
      have hstill : Function.update s.calls t .mutexDestroyed t' = .gotBug send := by
        rw [Function.update_of_ne hne, hbug]
      exact absurd (hsound.mutex_live hstill) (by simp)
  | .event (.dispatch .message) | .event (.dispatch .binary) | .event (.dispatch .error)
  | .event .lockPlay | .event .mediaBugClose | .event .returnError | .event .exitLoop
  | .start .connect | .start .mutexInit | .start .playMutexInit | .start (.createSbuffer _)
  | .start (.createPlayBuffer _) | .start (.createStash _) | .start (.initResampler _)
  | .start .destroyMutex | .start (.addBug _) | .start .setPrivate | .call _ (.begin _)
  | .call _ .lock | .call _ .markCleanedUp | .call _ .disconnect | .call _ .destroyPlayMutex =>
      trivial

/-- **Lock lifetime.**  In a run no lock is ever executed on a mutex that is not there,
    nor about to be, exactly when every step of the run is in time. -/
theorem locksSound_iff_inTime (as : List (Act ι)) (s : State ι)
    (hrun : machine.run initial as = some s) :
    machine.Always LocksSound (initial : State ι) as ↔
      machine.Guarded LocksInTime (initial : State ι) as := by
  constructor
  · intro halways
    exact Machine.guarded_of_always
      (fun t a t' h hintime hstep => lockInv_step h hintime hstep)
      (fun t a t' h hstep hsound => inTime_of_locksSound h hstep hsound)
      hrun lockInv_initial halways
  · intro hintime
    have hall : machine.Always LockInv (initial : State ι) as :=
      Machine.always_of_guarded
        (fun t a t' h hintime' hstep => lockInv_step h hintime' hstep) hintime lockInv_initial
    exact hall.mono fun t h => h.locksSound

/-- A stream that starts, receives audio and a clear, and stops. -/
def startAndStop : List (Act Unit) :=
  [.start .connect, .start .mutexInit, .start .playMutexInit, .start (.createSbuffer true),
    .start (.createPlayBuffer true), .start (.createStash true), .start (.initResampler true),
    .start (.addBug true), .start .setPrivate, .event (.dispatch .binary), .event .checkBinary,
    .event .lockPlay, .event (.dispatch .clear), .event .lockPlay, .call (some ()) (.begin true),
    .call (some ()) .lock, .call (some ()) (.begin false), .call (some ()) .lock,
    .call (some ()) .markCleanedUp, .event .exitLoop, .call (some ()) .disconnect,
    .call (some ()) .destroyMutex, .call (some ()) .destroyPlayMutex]

theorem locksSound_iff_inTime_startAndStop :
    machine.Always LocksSound (initial : State Unit) startAndStop := by
  apply (locksSound_iff_inTime startAndStop _ rfl).mpr
  simp [startAndStop, Machine.Guarded, LocksInTime, machine, step, stepStart, stepEvent, stepCall,
    initial, State.startAt, State.callAt, State.mayCall, State.joins, State.eventAfterBegin,
    Callback.entry, EventPc.atPlayLock]
  refine ⟨rfl, ?_⟩
  intro t' hne
  rw [Function.update_of_ne hne]
  simp

/-- A clear message before `play_mutex` is created. -/
theorem clear_before_playMutex :
    ¬ ∀ (as : List (Act Unit)) (s : State Unit),
      machine.run initial as = some s → s.lockFault = false := by
  intro h
  have hfault := h [.start .connect, .event (.dispatch .clear), .event .lockPlay] _ rfl
  exact absurd hfault (by decide)

end FsBridge.Module.LockLifetime
