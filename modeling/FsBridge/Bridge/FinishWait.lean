/-
  FsBridge.Bridge.FinishWait

  Begin and Finish of the recorded sessions (bridge/recorder.go, bridge/server.go)
  with the event bus they use: whether `<-cr.eventsDone` ever ends.

  Begin subscribes, then creates events.jsonl, and starts `captureEvents` only if
  that succeeds.  Finish unsubscribes, which closes the channel of the subscription,
  and waits for `captureEvents` to end.  What a file operation returns is in its
  action.

  A subscription has the number of its session; the numbers that are no session's
  belong to the other subscribers of the bus.

  `Completes` says that no session is stuck: where it waits, what it waits for is
  there and goes on.  The order in which it passes its places is `Pc.ahead`.
-/

import FsBridge.Bridge.CallEvents
import FsBridge.Bridge.EventBus

namespace FsBridge.Bridge.FinishWait

open FsBridge.Lib

-- ============================================================================
-- The system
-- ============================================================================

/-- The sessions, and whether the recorder and the server have a bus. -/
structure Setting where
  session : Nat → Bool
  recorderBus : Bool
  serverBus : Bool

/-- The buffer of a recorder's subscription. -/
def eventsBuf : Nat := 128

/-- Where the goroutine of a session is. -/
inductive Pc where
  /-- Before `Begin`. -/
  | accepted
  | madeDir
  | madeCaller
  | madeAgent
  | subscribed
  /-- Before `r.mu.Store`. -/
  | begun
  /-- `Begin` has returned. -/
  | serving
  /-- `OnEnd` has returned. -/
  | ended
  /-- In `Finish`, at `cr.unsub()`. -/
  | leaving
  | unsubscribing
  /-- At `<-cr.eventsDone`. -/
  | waiting
  | finalizing
  /-- The bundle is written. -/
  | finished
  /-- Publishing recording.complete. -/
  | completing
  /-- `Finish` has returned. -/
  | finishReturned
  /-- Publishing audio.end. -/
  | ending
  | returned
deriving DecidableEq, Repr

/-- A session: its goroutine, its `callRecording` and its `captureEvents`. -/
structure Session where
  pc : Pc
  /-- `cr.unsub` is set. -/
  unsub : Bool
  /-- `r.mu` has the recording. -/
  stored : Bool
  /-- `captureEvents` was started. -/
  capturing : Bool
  /-- How many of the events it has received `captureEvents` has handled. -/
  handled : Nat
  /-- `cr.eventsDone` is closed. -/
  eventsDone : Bool
deriving DecidableEq, Repr

/-- The connection has been accepted. -/
def Session.new : Session := ⟨.accepted, false, false, false, 0, false⟩

structure State where
  bus : EventBus.State Event
  session : Nat → Session
  /-- The session whose `Publish` holds the bus. -/
  publisher : Option Nat

inductive Act where
  /-- A step of the bus that is none of a session. -/
  | bus (a : EventBus.Act Event)
  /-- The next of MkdirAll, caller.raw and agent.raw. -/
  | make (i : Nat) (ok : Bool)
  | subscribe (i : Nat)
  | createEvents (i : Nat) (ok : Bool)
  | store (i : Nat)
  /-- The read pump, `Close` and `OnEnd`. -/
  | serve (i : Nat)
  /-- `LoadAndDelete` of `Finish`. -/
  | finish (i : Nat)
  | unsubscribe (i : Nat)
  | close (i : Nat)
  | eventsDone (i : Nat)
  /-- audio.wav and meta.json, whatever becomes of them. -/
  | finalize (i : Nat)
  | publish (i : Nat) (e : Event)
  | published (i : Nat)
  /-- There is no bus to publish on. -/
  | goOn (i : Nat)
  | receive (i : Nat)
  | capture (i : Nat)
  | drained (i : Nat)

namespace State

def setBus (s : State) (bus : EventBus.State Event) : State := { s with bus := bus }

def set (s : State) (i : Nat) (x : Session) : State :=
  { s with session := Function.update s.session i x }

/-- The goroutine of the session goes to `pc`. -/
def goTo (s : State) (i : Nat) (pc : Pc) : State := s.set i { s.session i with pc := pc }

end State

section Step

variable (st : Setting)

/-- The step of the bus is one of other publishers and subscribers, each of which
    unsubscribes once. -/
def elsewhere (s : State) : EventBus.Act Event → Bool
  | .publish _ | .offer _ => true
  | .published => s.publisher = none
  | .close =>
      match s.bus.mu with
      | .unsubscribing j => !st.session j
      | _ => false
  | .subscribe j _ | .receive j | .giveUp j => !st.session j
  | .unsubscribe j => !st.session j && j ∈ s.bus.subs

/-- What follows one of the first three file operations of `Begin`. -/
def madeNext (ok : Bool) : Pc → Option Pc
  | .accepted => some (if ok then .madeDir else .serving)
  | .madeDir => some (if ok then .madeCaller else .serving)
  | .madeCaller => some (if ok then .madeAgent else .serving)
  | _ => none

/-- A session may publish here, if there is a bus; what it does then. -/
def publishNext : Pc → Option (Bool × Pc)
  | .finished => some (st.recorderBus, .completing)
  | .finishReturned => some (st.serverBus, .ending)
  | _ => none

/-- What follows the publication, or stands in its place. -/
def publishedNext : Pc → Option Pc
  | .finished | .completing => some .finishReturned
  | .finishReturned | .ending => some .returned
  | _ => none

/-- `Finish` once it has taken the recording. -/
def finishNext (x : Session) : Pc :=
  if x.stored then (if x.unsub then .leaving else .finalizing) else .finishReturned

/-- A step of a session on its own. -/
def stepOwn (s : State) (i : Nat) : Act → Option (State)
  | .make _ ok => (madeNext ok (s.session i).pc).map (s.goTo i)
  | .subscribe _ =>
      if (s.session i).pc = .madeAgent ∧ st.recorderBus then
        (EventBus.step s.bus (.subscribe i eventsBuf)).map fun b =>
          (s.setBus b).set i { s.session i with pc := .subscribed, unsub := true }
      else none
  | .createEvents _ ok =>
      if (s.session i).pc = .subscribed then
        some (s.set i { s.session i with pc := .begun, capturing := ok })
      else none
  | .store _ =>
      if (s.session i).pc = .begun ∨ ((s.session i).pc = .madeAgent ∧ ¬ st.recorderBus) then
        some (s.set i { s.session i with pc := .serving, stored := true })
      else none
  | .serve _ => if (s.session i).pc = .serving then some (s.goTo i .ended) else none
  | .finish _ =>
      if (s.session i).pc = .ended then
        some (s.set i { s.session i with pc := finishNext (s.session i), stored := false })
      else none
  | .unsubscribe _ =>
      if (s.session i).pc = .leaving then
        (EventBus.step s.bus (.unsubscribe i)).map fun b => (s.setBus b).goTo i .unsubscribing
      else none
  | .close _ =>
      if (s.session i).pc = .unsubscribing then
        (EventBus.step s.bus .close).map fun b => (s.setBus b).goTo i .waiting
      else none
  | .eventsDone _ =>
      if (s.session i).pc = .waiting ∧ (s.session i).eventsDone then some (s.goTo i .finalizing)
      else none
  | .finalize _ => if (s.session i).pc = .finalizing then some (s.goTo i .finished) else none
  | .publish _ e =>
      match publishNext st (s.session i).pc with
      | some (true, pc) =>
          (EventBus.step s.bus (.publish e)).map fun b =>
            { (s.setBus b).goTo i pc with publisher := some i }
      | _ => none
  | .goOn _ =>
      match publishNext st (s.session i).pc with
      | some (false, _) => (publishedNext (s.session i).pc).map (s.goTo i)
      | _ => none
  | .published _ =>
      if s.publisher = some i then
        (publishedNext (s.session i).pc).bind fun pc =>
          (EventBus.step s.bus .published).map fun b =>
            { (s.setBus b).goTo i pc with publisher := none }
      else none
  -- captureEvents: the range over the channel
  | .receive _ =>
      match s.bus.chans i with
      | some sub =>
          if (s.session i).capturing ∧ (s.session i).handled = sub.received.length ∧
              (sub.chan.buf ≠ [] ∨ sub.closed = false) then
            (EventBus.step s.bus (.receive i)).map s.setBus
          else none
      | none => none
  | .capture _ =>
      match s.bus.chans i with
      | some sub =>
          if (s.session i).capturing ∧ (s.session i).handled < sub.received.length then
            some (s.set i { s.session i with handled := (s.session i).handled + 1 })
          else none
      | none => none
  | .drained _ =>
      match s.bus.chans i with
      | some sub =>
          if ((s.session i).capturing ∧ (s.session i).eventsDone = false) ∧
              (s.session i).handled = sub.received.length ∧
              sub.chan.buf = [] ∧ sub.closed then
            some (s.set i { s.session i with eventsDone := true })
          else none
      | none => none
  | .bus _ => none

/-- The session a step belongs to. -/
def Act.session : Act → Option Nat
  | .make i _ | .subscribe i | .createEvents i _ | .store i | .serve i | .finish i
  | .unsubscribe i | .close i | .eventsDone i | .finalize i | .publish i _ | .published i
  | .goOn i | .receive i | .capture i | .drained i => some i
  | .bus _ => none

def step (s : State) (a : Act) : Option (State) :=
  match a with
  | .bus b => if elsewhere st s b then (EventBus.step s.bus b).map s.setBus else none
  | a =>
      match a.session with
      | some i => if st.session i then stepOwn st s i a else none
      | none => none

/-- No session has begun. -/
def initial : State := ⟨EventBus.initial, fun _ => .new, none⟩

def machine : Machine State Act where
  init := initial
  step := step st

end Step

-- ============================================================================
-- The property and its condition
-- ============================================================================

/-- How far a place is from the return of `serveWS`. -/
def Pc.ahead : Pc → Nat
  | .accepted => 16
  | .madeDir => 15
  | .madeCaller => 14
  | .madeAgent => 13
  | .subscribed => 12
  | .begun => 11
  | .serving => 10
  | .ended => 9
  | .leaving => 8
  | .unsubscribing => 7
  | .waiting => 6
  | .finalizing => 5
  | .finished => 4
  | .completing => 3
  | .finishReturned => 2
  | .ending => 1
  | .returned => 0

/-- The goroutine is at a place where it takes the bus's `mu`, or holds it. -/
def Pc.locks : Pc → Bool
  | .madeAgent | .leaving | .unsubscribing | .finished | .completing | .finishReturned
  | .ending => true
  | _ => false

/-- How many steps whoever holds `mu` is from giving it back. -/
def held : EventBus.Mutex Event → Nat
  | .free => 0
  | .publishing _ todo => todo.length + 1
  | .unsubscribing _ => 1

/-- What `captureEvents` has still to do once its channel is closed. -/
def State.undrained (s : State) (i : Nat) : Nat :=
  match s.bus.chans i with
  | some sub => 2 * sub.chan.buf.length + (sub.received.length - (s.session i).handled) +
      (if (s.session i).eventsDone then 0 else 1)
  | none => 0

/-- A step of the goroutine of a session. -/
def Act.goroutine : Act → Option Nat
  | .receive _ | .capture _ | .drained _ | .bus _ => none
  | a => a.session

/-- A step of its `captureEvents`. -/
def Act.captures : Act → Option Nat
  | .receive i | .capture i | .drained i => some i
  | _ => none

/-- A step of whoever holds `mu` towards giving it back. -/
def Act.releases : Act → Bool
  | .bus (.offer _) | .bus .published | .bus .close | .published _ | .close _ => true
  | _ => false

/-- A step that brings a session on: its own, that of its `captureEvents` it waits for,
    or that of the holder of the lock it needs. -/
def State.Helps (s : State) (i : Nat) (a : Act) : Prop :=
  a.goroutine = some i ∨
    ((s.session i).pc = .waiting ∧ a.captures = some i) ∨
    ((s.session i).pc.locks = true ∧ s.bus.mu ≠ .free ∧ a.releases = true)

/-- Finish completes. -/
structure Completes (st : Setting) (s : State) : Prop where
  /-- Where it waits, `captureEvents` has been started and its channel is closed. -/
  waits : ∀ i, st.session i = true → (s.session i).pc = .waiting →
    (s.session i).capturing = true ∧ ∃ sub, s.bus.chans i = some sub ∧ sub.closed = true
  /-- A session that has not returned is not stuck. -/
  notStuck : ∀ i, st.session i = true → (s.session i).pc ≠ .returned →
    ∃ a, s.Helps i a ∧ (step st s a).isSome = true
  /-- Each step of its own brings it nearer to its return, and no other step moves it. -/
  nearer : ∀ i a s', st.session i = true → step st s a = some s' →
    (a.goroutine = some i → (s'.session i).pc.ahead < (s.session i).pc.ahead) ∧
      (a.goroutine ≠ some i → (s'.session i).pc = (s.session i).pc)
  /-- While it waits, each step of `captureEvents` leaves less to do, and no step more. -/
  drains : ∀ i a s', st.session i = true → (s.session i).pc = .waiting →
    step st s a = some s' → s'.undrained i ≤ s.undrained i ∧
      (a.captures = some i → s'.undrained i < s.undrained i)
  /-- So does each step of the holder of `mu`, and no other step takes the lock. -/
  releases : ∀ a s', s.bus.mu ≠ .free → step st s a = some s' →
    held s'.bus.mu ≤ held s.bus.mu ∧ (a.releases = true → held s'.bus.mu < held s.bus.mu)

/-- events.jsonl is created wherever `Begin` creates it. -/
def EventsMade (_ : State) : Act → Prop
  | .createEvents _ ok => ok = true
  | _ => True

instance (s : State) (a : Act) : Decidable (EventsMade s a) :=
  match a with
  | .createEvents _ ok => inferInstanceAs (Decidable (ok = true))
  | .bus _ | .make _ _ | .subscribe _ | .store _ | .serve _ | .finish _ | .unsubscribe _
  | .close _ | .eventsDone _ | .finalize _ | .publish _ _ | .published _ | .goOn _ | .receive _
  | .capture _ | .drained _ => .isTrue trivial

-- ============================================================================
-- What a step can do
-- ============================================================================

/-- What a step of the session `i` does with its data and the bus. -/
inductive Move (st : Setting) (s : State) (i : Nat) : Act → State → Prop where
  | make (ok : Bool) (pc : Pc) (hpc : madeNext ok (s.session i).pc = some pc) :
      Move st s i (.make i ok) (s.goTo i pc)
  | subscribe (b : EventBus.State Event) (hpc : (s.session i).pc = .madeAgent)
      (hb : EventBus.step s.bus (.subscribe i eventsBuf) = some b) :
      Move st s i (.subscribe i)
        ((s.setBus b).set i { s.session i with pc := .subscribed, unsub := true })
  | createEvents (ok : Bool) (hpc : (s.session i).pc = .subscribed) :
      Move st s i (.createEvents i ok)
        (s.set i { s.session i with pc := .begun, capturing := ok })
  | store (hpc : (s.session i).pc = .begun ∨ (s.session i).pc = .madeAgent) :
      Move st s i (.store i) (s.set i { s.session i with pc := .serving, stored := true })
  | serve (hpc : (s.session i).pc = .serving) : Move st s i (.serve i) (s.goTo i .ended)
  | finish (hpc : (s.session i).pc = .ended) :
      Move st s i (.finish i)
        (s.set i { s.session i with pc := finishNext (s.session i), stored := false })
  | unsubscribe (b : EventBus.State Event) (hpc : (s.session i).pc = .leaving)
      (hb : EventBus.step s.bus (.unsubscribe i) = some b) :
      Move st s i (.unsubscribe i) ((s.setBus b).goTo i .unsubscribing)
  | close (b : EventBus.State Event) (hpc : (s.session i).pc = .unsubscribing)
      (hb : EventBus.step s.bus .close = some b) :
      Move st s i (.close i) ((s.setBus b).goTo i .waiting)
  | eventsDone (hpc : (s.session i).pc = .waiting) (hdone : (s.session i).eventsDone = true) :
      Move st s i (.eventsDone i) (s.goTo i .finalizing)
  | finalize (hpc : (s.session i).pc = .finalizing) :
      Move st s i (.finalize i) (s.goTo i .finished)
  | publish (e : Event) (pc : Pc) (b : EventBus.State Event)
      (hpc : publishNext st (s.session i).pc = some (true, pc))
      (hb : EventBus.step s.bus (.publish e) = some b) :
      Move st s i (.publish i e) { (s.setBus b).goTo i pc with publisher := some i }
  | goOn (pc pc' : Pc) (hpc : publishNext st (s.session i).pc = some (false, pc'))
      (hnext : publishedNext (s.session i).pc = some pc) : Move st s i (.goOn i) (s.goTo i pc)
  | published (pc : Pc) (b : EventBus.State Event) (hown : s.publisher = some i)
      (hpc : publishedNext (s.session i).pc = some pc)
      (hb : EventBus.step s.bus .published = some b) :
      Move st s i (.published i) { (s.setBus b).goTo i pc with publisher := none }
  | receive (sub : EventBus.Subscription Event) (b : EventBus.State Event)
      (hsub : s.bus.chans i = some sub) (hcapturing : (s.session i).capturing = true)
      (hrange : sub.chan.buf ≠ [] ∨ sub.closed = false)
      (hall : (s.session i).handled = sub.received.length)
      (hb : EventBus.step s.bus (.receive i) = some b) : Move st s i (.receive i) (s.setBus b)
  | capture (sub : EventBus.Subscription Event) (hsub : s.bus.chans i = some sub)
      (hcapturing : (s.session i).capturing = true)
      (hlt : (s.session i).handled < sub.received.length) :
      Move st s i (.capture i) (s.set i { s.session i with handled := (s.session i).handled + 1 })
  | drained (sub : EventBus.Subscription Event) (hsub : s.bus.chans i = some sub)
      (hcapturing : (s.session i).capturing = true)
      (hopen : (s.session i).eventsDone = false) :
      Move st s i (.drained i) (s.set i { s.session i with eventsDone := true })

theorem move_of_stepOwn {st : Setting} {s s' : State} {i : Nat} {a : Act}
    (ha : a.session = some i) (h : stepOwn st s i a = some s') : Move st s i a s' := by
  cases a with
  | bus b => exact nomatch ha
  | make j ok =>
      obtain rfl := Option.some.inj ha
      obtain ⟨pc, hpc, rfl⟩ := Option.map_eq_some_iff.mp h
      exact .make ok pc hpc
  | subscribe j =>
      obtain rfl := Option.some.inj ha
      obtain ⟨⟨hpc, -⟩, h⟩ := Option.ite_none_right_eq_some.mp h
      obtain ⟨b, hb, rfl⟩ := Option.map_eq_some_iff.mp h
      exact .subscribe b hpc hb
  | createEvents j ok =>
      obtain rfl := Option.some.inj ha
      obtain ⟨hpc, rfl⟩ := Machine.of_guard h
      exact .createEvents ok hpc
  | store j =>
      obtain rfl := Option.some.inj ha
      obtain ⟨hpc, rfl⟩ := Machine.of_guard h
      exact .store (hpc.imp_right And.left)
  | serve j =>
      obtain rfl := Option.some.inj ha
      obtain ⟨hpc, rfl⟩ := Machine.of_guard h
      exact .serve hpc
  | finish j =>
      obtain rfl := Option.some.inj ha
      obtain ⟨hpc, rfl⟩ := Machine.of_guard h
      exact .finish hpc
  | unsubscribe j =>
      obtain rfl := Option.some.inj ha
      obtain ⟨hpc, h⟩ := Option.ite_none_right_eq_some.mp h
      obtain ⟨b, hb, rfl⟩ := Option.map_eq_some_iff.mp h
      exact .unsubscribe b hpc hb
  | close j =>
      obtain rfl := Option.some.inj ha
      obtain ⟨hpc, h⟩ := Option.ite_none_right_eq_some.mp h
      obtain ⟨b, hb, rfl⟩ := Option.map_eq_some_iff.mp h
      exact .close b hpc hb
  | eventsDone j =>
      obtain rfl := Option.some.inj ha
      obtain ⟨⟨hpc, hdone⟩, rfl⟩ := Machine.of_guard h
      exact .eventsDone hpc hdone
  | finalize j =>
      obtain rfl := Option.some.inj ha
      obtain ⟨hpc, rfl⟩ := Machine.of_guard h
      exact .finalize hpc
  | publish j e =>
      obtain rfl := Option.some.inj ha
      simp only [stepOwn] at h
      split at h
      · rename_i pc hpc
        obtain ⟨b, hb, rfl⟩ := Option.map_eq_some_iff.mp h
        exact .publish e pc b hpc hb
      · exact absurd h (by simp)
  | goOn j =>
      obtain rfl := Option.some.inj ha
      simp only [stepOwn] at h
      split at h
      · rename_i pc' hpc
        obtain ⟨pc, hnext, rfl⟩ := Option.map_eq_some_iff.mp h
        exact .goOn pc pc' hpc hnext
      · exact absurd h (by simp)
  | published j =>
      obtain rfl := Option.some.inj ha
      obtain ⟨hown, h⟩ := Option.ite_none_right_eq_some.mp h
      obtain ⟨pc, hpc, h⟩ := Option.bind_eq_some_iff.mp h
      obtain ⟨b, hb, rfl⟩ := Option.map_eq_some_iff.mp h
      exact .published pc b hown hpc hb
  | receive j =>
      obtain rfl := Option.some.inj ha
      simp only [stepOwn] at h
      split at h
      · rename_i sub hsub
        obtain ⟨⟨hcapturing, hall, hrange⟩, h⟩ := Option.ite_none_right_eq_some.mp h
        obtain ⟨b, hb, rfl⟩ := Option.map_eq_some_iff.mp h
        exact .receive sub b hsub hcapturing hrange hall hb
      · exact absurd h (by simp)
  | capture j =>
      obtain rfl := Option.some.inj ha
      simp only [stepOwn] at h
      split at h
      · rename_i sub hsub
        obtain ⟨⟨hcapturing, hlt⟩, rfl⟩ := Machine.of_guard h
        exact .capture sub hsub hcapturing hlt
      · exact absurd h (by simp)
  | drained j =>
      obtain rfl := Option.some.inj ha
      simp only [stepOwn] at h
      split at h
      · rename_i sub hsub
        obtain ⟨⟨⟨hcapturing, hopen⟩, -⟩, rfl⟩ := Machine.of_guard h
        exact .drained sub hsub hcapturing hopen
      · exact absurd h (by simp)

/-- A step is one of a session, or one of the others on the bus. -/
theorem step_cases {st : Setting} {s s' : State} {a : Act} (h : step st s a = some s') :
    (∃ b b', a = .bus b ∧ elsewhere st s b = true ∧ EventBus.step s.bus b = some b' ∧
        s' = s.setBus b') ∨
      ∃ i, st.session i = true ∧ Move st s i a s' := by
  cases a with
  | bus b =>
      obtain ⟨helse, h⟩ := Option.ite_none_right_eq_some.mp h
      obtain ⟨b', hb, rfl⟩ := Option.map_eq_some_iff.mp h
      exact .inl ⟨b, b', rfl, helse, hb, rfl⟩
  | _ =>
      obtain ⟨hi, h⟩ := Option.ite_none_right_eq_some.mp h
      exact .inr ⟨_, hi, move_of_stepOwn rfl h⟩

end FsBridge.Bridge.FinishWait
