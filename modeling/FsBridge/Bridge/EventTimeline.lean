/-
  FsBridge.Bridge.EventTimeline

  events.jsonl (bridge/recorder.go): the event bus with any publishers, the recorded
  sessions that subscribe in Begin and unsubscribe in Finish, the `captureEvents` of
  each, and the file each of them writes.

  A subscription has the number of its session; the numbers that are no session's
  belong to the other subscribers of the bus.  Of the file system only the
  events.jsonl of the bundles are looked at.

  `byBridge` is history: it says who published an event, which nothing on the bus
  does.
-/

import FsBridge.Bridge.CallEvents
import FsBridge.Bridge.EventBus
import FsBridge.Bridge.RecordingContent

namespace FsBridge.Bridge.EventTimeline

open FsBridge.Lib FsBridge.Lib.Fs

-- ============================================================================
-- Events and the filter
-- ============================================================================

/-- An event on the bus. -/
structure Published where
  ev : Event
  /-- Published by the server, the recorder or the cascade, not passed on from
      FreeSWITCH or from an agent. -/
  byBridge : Bool

/-- `ev.Data["session"] == id`: of the members of one name the last counts. -/
def carries (ev : Event) (id : Bytes) : Bool :=
  match ev.data.reverse.lookup (ascii "session") with
  | some (.str s) => s = id
  | _ => false

/-- `cr.uuid` of a session. -/
def recordingName (info : SessionInfo) : Bytes := bundleName info.fsUUID info.id

/-- The filter of `captureEvents`. -/
def captures (info : SessionInfo) (ev : Event) : Bool :=
  ev.uuid = recordingName info || carries ev info.id.id

/-- The event is about the call of the session. -/
def isAbout (info : SessionInfo) (p : Published) : Bool :=
  p.ev.uuid = info.fsUUID || (p.byBridge && carries p.ev info.id.id)

-- ============================================================================
-- The system
-- ============================================================================

/-- The recorder and the sessions it records; `encode`: the line of a JSON encoder. -/
structure Setting where
  cwd : List Bytes
  recorder : Recorder
  session : Nat → Option SessionInfo
  encode : Event → Bytes
  disk : List Bytes → Slot UInt8

/-- The path of a session's events.jsonl. -/
def Setting.eventsPath (st : Setting) (info : SessionInfo) : Bytes :=
  Path.join [st.recorder.bundleDir info.fsUUID info.id, eventsJsonl]

def Setting.eventsPlace (st : Setting) (info : SessionInfo) : List Bytes :=
  Path.resolve st.cwd (st.eventsPath info)

/-- The buffer of a recorder's subscription. -/
def eventsBuf : Nat := 128

/-- Where the recording of a session is. -/
inductive Phase where
  | idle
  /-- In Begin, before events.jsonl is created. -/
  | subscribed
  | recording
  /-- In Finish, with the subscription given up. -/
  | finishing
  | finished
  /-- events.jsonl could not be created. -/
  | notCaptured
deriving DecidableEq, Repr

/-- The session has an events.jsonl. -/
def Phase.hasFile : Phase → Bool
  | .recording | .finishing | .finished => true
  | _ => false

structure State where
  bus : EventBus.State Published
  fs : List Bytes → Slot UInt8
  phase : Nat → Phase
  /-- `cr.eventsFile` of a running `captureEvents`. -/
  file : Nat → Option Handle
  /-- How many of the events it has received `captureEvents` has handled. -/
  handled : Nat → Nat

inductive Act where
  /-- A step of the bus that is not one of a recorder's subscription. -/
  | bus (a : EventBus.Act Published)
  /-- `Subscribe` in Begin. -/
  | begin (i : Nat)
  | create (i : Nat)
  | receive (i : Nat)
  | capture (i : Nat)
  /-- `cr.unsub` in Finish, up to the close of the channel. -/
  | finish (i : Nat)
  /-- `captureEvents` ends, and Finish goes on. -/
  | eventsDone (i : Nat)

/-- The step of the bus a step is. -/
def Act.onBus : Act → Option (EventBus.Act Published)
  | .bus a => some a
  | .begin i => some (.subscribe i eventsBuf)
  | .receive i => some (.receive i)
  | .finish i => some (.unsubscribe i)
  | .create _ | .capture _ | .eventsDone _ => none

/-- The schedule of the bus. -/
def onBus (as : List Act) : List (EventBus.Act Published) := as.filterMap Act.onBus

namespace State

def setBus (s : State) (bus : EventBus.State Published) : State := { s with bus := bus }

def setPhase (s : State) (i : Nat) (phase : Phase) : State :=
  { s with phase := Function.update s.phase i phase }

def setFile (s : State) (i : Nat) (file : Option Handle) : State :=
  { s with file := Function.update s.file i file }

def setHandled (s : State) (i : Nat) (n : Nat) : State :=
  { s with handled := Function.update s.handled i n }

end State

section Step

variable (st : Setting)

/-- The step of the bus is one of a publisher, or of a subscriber that is no recorder
    and unsubscribes once. -/
def elsewhere (s : State) : EventBus.Act Published → Bool
  | .publish _ | .offer _ | .published | .close => true
  | .subscribe j _ | .receive j | .giveUp j => (st.session j).isNone
  | .unsubscribe j => (st.session j).isNone && j ∈ s.bus.subs

/-- `captureEvents` on an event it has received. -/
def capture (s : State) (i : Nat) (info : SessionInfo) (h : Handle) (p : Published) : State :=
  if captures info p.ev then
    let r := (cells UInt8 st.cwd).run (write h (st.encode p.ev)) s.fs
    { (s.setFile i (some r.1)).setHandled i (s.handled i + 1) with fs := r.2 }
  else s.setHandled i (s.handled i + 1)

def step (s : State) : Act → Option State
  | .bus a => if elsewhere st s a then (EventBus.step s.bus a).map s.setBus else none
  | .begin i =>
      match st.session i, s.phase i with
      | some _, .idle =>
          (EventBus.step s.bus (.subscribe i eventsBuf)).map fun b =>
            (s.setBus b).setPhase i .subscribed
      | _, _ => none
  | .create i =>
      match st.session i, s.phase i with
      | some info, .subscribed =>
          let r := (cells UInt8 st.cwd).run (create (st.eventsPath info)) s.fs
          match r.1 with
          | some h => some { (s.setPhase i .recording).setFile i (some h) with fs := r.2 }
          | none => some { s.setPhase i .notCaptured with fs := r.2 }
      | _, _ => none
  | .receive i =>
      match s.file i, s.bus.chans i with
      | some _, some sub =>
          if s.handled i = sub.received.length then
            (EventBus.step s.bus (.receive i)).map s.setBus
          else none
      | _, _ => none
  | .capture i =>
      match st.session i, s.file i, s.bus.chans i with
      | some info, some h, some sub =>
          (sub.received[s.handled i]?).map fun p => capture st s i info h p
      | _, _, _ => none
  | .finish i =>
      match st.session i, s.phase i with
      | some _, .recording =>
          (EventBus.step s.bus (.unsubscribe i)).map fun b =>
            (s.setBus b).setPhase i .finishing
      | _, _ => none
  | .eventsDone i =>
      match s.phase i, s.bus.chans i with
      | .finishing, some sub =>
          if sub.closed ∧ sub.chan.buf = [] ∧ s.handled i = sub.received.length then
            some ((s.setPhase i .finished).setFile i none)
          else none
      | _, _ => none

/-- No session has begun. -/
def initial : State where
  bus := EventBus.initial
  fs := st.disk
  phase := fun _ => .idle
  file := fun _ => none
  handled := fun _ => 0

def machine : Machine State Act where
  init := initial st
  step := step st

end Step

-- ============================================================================
-- The property and its condition
-- ============================================================================

section Property

variable (st : Setting)

/-- The lines of the events that pass the filter. -/
def lines (info : SessionInfo) (ps : List Published) : Bytes :=
  (ps.filter fun p => captures info p.ev).flatMap fun p => st.encode p.ev

theorem lines_append (info : SessionInfo) (ps : List Published) (p : Published) :
    lines st info (ps ++ [p]) =
      lines st info ps ++ if captures info p.ev then st.encode p.ev else [] := by
  rw [lines, lines, List.filter_append, List.flatMap_append]
  cases hcap : captures info p.ev <;> simp [hcap]

/-- The events.jsonl of a session that has finished has the events about its call that
    were published while it was subscribed, in their order and once each. -/
def Kept (as : List Act) (s : State) : Prop :=
  ∀ i info, st.session i = some info → s.phase i = .finished →
    (s.fs (st.eventsPlace info)).content =
      some (((EventBus.publishedTo i (onBus as)).filter (isAbout info)).flatMap fun p =>
        st.encode p.ev)

/-- The buffer of a recorder's subscription never fills. -/
def Room (s : State) : Act → Prop
  | .bus (.offer i) => ∀ info sub, st.session i = some info → s.bus.chans i = some sub →
      sub.full = false
  | _ => True

/-- The event says in its UUID, and only there or by the bridge in its data, that it is
    about the call. -/
structure Told (info : SessionInfo) (p : Published) : Prop where
  /-- An event with the UUID of the call: the bundle has that name, or the event
      carries the session's id. -/
  own : p.ev.uuid = info.fsUUID →
    recordingName info = info.fsUUID ∨ carries p.ev info.id.id = true
  /-- An event with the name of the bundle: that is the UUID of the call, or the bridge
      published it with the session's id. -/
  named : p.ev.uuid = recordingName info → recordingName info = info.fsUUID ∨
    p.byBridge = true ∧ carries p.ev info.id.id = true
  /-- An event that carries the session's id: the bridge published it, or it has the
      UUID of the call. -/
  carried : carries p.ev info.id.id = true → p.byBridge = true ∨ p.ev.uuid = info.fsUUID

/-- An event that is published is told by every session that records, and a session
    that creates its events.jsonl takes no other session's. -/
def TimelineGuard (s : State) : Act → Prop
  | .bus (.publish p) => ∀ i ∈ s.bus.subs, s.phase i ≠ .notCaptured →
      ∀ info, st.session i = some info → Told info p
  | .create i => ∀ info j info', st.session i = some info → st.session j = some info' →
      j ≠ i → (s.phase j).hasFile = true → st.eventsPlace info' ≠ st.eventsPlace info
  | _ => True

theorem captures_eq_isAbout {info : SessionInfo} {p : Published} (h : Told info p) :
    captures info p.ev = isAbout info p := by
  rw [Bool.eq_iff_iff, captures, isAbout, Bool.or_eq_true, Bool.or_eq_true, Bool.and_eq_true,
    decide_eq_true_iff, decide_eq_true_iff]
  constructor
  · rintro (huuid | hcarries)
    · exact (h.named huuid).imp huuid.trans id
    · exact (h.carried hcarries).symm.imp id fun hbridge => ⟨hbridge, hcarries⟩
  · rintro (huuid | ⟨-, hcarries⟩)
    · exact (h.own huuid).imp (fun hname => huuid.trans hname.symm) id
    · exact .inr hcarries

end Property

-- ============================================================================
-- What a step can do
-- ============================================================================

/-- A step, with the guards of its branch. -/
inductive Move (st : Setting) (s : State) : Act → State → Prop where
  | bus (a : EventBus.Act Published) (b : EventBus.State Published)
      (helsewhere : elsewhere st s a = true) (hb : EventBus.step s.bus a = some b) :
      Move st s (.bus a) (s.setBus b)
  | begins (i : Nat) (b : EventBus.State Published) (hphase : s.phase i = .idle)
      (hb : EventBus.step s.bus (.subscribe i eventsBuf) = some b) :
      Move st s (.begin i) ((s.setBus b).setPhase i .subscribed)
  | creates (i : Nat) (info : SessionInfo) (h : Handle) (fs : List Bytes → Slot UInt8)
      (hi : st.session i = some info) (hphase : s.phase i = .subscribed)
      (hrun : (cells UInt8 st.cwd).run (create (st.eventsPath info)) s.fs = (some h, fs)) :
      Move st s (.create i) { (s.setPhase i .recording).setFile i (some h) with fs := fs }
  | createFails (i : Nat) (info : SessionInfo) (fs : List Bytes → Slot UInt8)
      (hi : st.session i = some info) (hphase : s.phase i = .subscribed)
      (hrun : (cells UInt8 st.cwd).run (create (st.eventsPath info)) s.fs = (none, fs)) :
      Move st s (.create i) { s.setPhase i .notCaptured with fs := fs }
  | receives (i : Nat) (b : EventBus.State Published)
      (hb : EventBus.step s.bus (.receive i) = some b) : Move st s (.receive i) (s.setBus b)
  | captures (i : Nat) (info : SessionInfo) (h : Handle) (sub : EventBus.Subscription Published)
      (p : Published) (hi : st.session i = some info) (hfile : s.file i = some h)
      (hsub : s.bus.chans i = some sub) (hp : sub.received[s.handled i]? = some p) :
      Move st s (.capture i) (capture st s i info h p)
  | finishes (i : Nat) (info : SessionInfo) (b : EventBus.State Published)
      (hi : st.session i = some info) (hphase : s.phase i = .recording)
      (hb : EventBus.step s.bus (.unsubscribe i) = some b) :
      Move st s (.finish i) ((s.setBus b).setPhase i .finishing)
  | done (i : Nat) (sub : EventBus.Subscription Published) (hphase : s.phase i = .finishing)
      (hsub : s.bus.chans i = some sub) (hbuf : sub.chan.buf = [])
      (hhandled : s.handled i = sub.received.length) :
      Move st s (.eventsDone i) ((s.setPhase i .finished).setFile i none)

theorem move_of_step {st : Setting} {s s' : State} {a : Act} (h : step st s a = some s') :
    Move st s a s' := by
  cases a with
  | bus a =>
      obtain ⟨helsewhere, h⟩ := Option.ite_none_right_eq_some.mp h
      obtain ⟨b, hb, rfl⟩ := Option.map_eq_some_iff.mp h
      exact .bus a b helsewhere hb
  | begin i =>
      simp only [step] at h
      split at h
      · rename_i info hi hphase
        obtain ⟨b, hb, rfl⟩ := Option.map_eq_some_iff.mp h
        exact .begins i b hphase hb
      · exact absurd h (by simp)
  | create i =>
      simp only [step] at h
      split at h
      · rename_i info hi hphase
        split at h
        · rename_i file hfile
          cases h
          exact .creates i info file _ hi hphase (Prod.ext hfile rfl)
        · rename_i hfile
          cases h
          exact .createFails i info _ hi hphase (Prod.ext hfile rfl)
      · exact absurd h (by simp)
  | receive i =>
      simp only [step] at h
      split at h
      · obtain ⟨-, h⟩ := Option.ite_none_right_eq_some.mp h
        obtain ⟨b, hb, rfl⟩ := Option.map_eq_some_iff.mp h
        exact .receives i b hb
      · exact absurd h (by simp)
  | capture i =>
      simp only [step] at h
      split at h
      · rename_i info file sub hi hfile hsub
        obtain ⟨p, hp, rfl⟩ := Option.map_eq_some_iff.mp h
        exact .captures i info file sub p hi hfile hsub hp
      · exact absurd h (by simp)
  | finish i =>
      simp only [step] at h
      split at h
      · rename_i info hi hphase
        obtain ⟨b, hb, rfl⟩ := Option.map_eq_some_iff.mp h
        exact .finishes i info b hi hphase hb
      · exact absurd h (by simp)
  | eventsDone i =>
      simp only [step] at h
      split at h
      · rename_i sub hphase hsub
        obtain ⟨⟨-, hbuf, hhandled⟩, h⟩ := Option.ite_none_right_eq_some.mp h
        cases h
        exact .done i sub hphase hsub hbuf hhandled
      · exact absurd h (by simp)

-- ============================================================================
-- The bus
-- ============================================================================

/-- The bus after its schedule, with room for every event a recorder is offered. -/
structure BusOk (st : Setting) (bs : List (EventBus.Act Published))
    (b : EventBus.State Published) : Prop where
  run : (EventBus.machine Published).run EventBus.initial bs = some b
  inv : EventBus.Inv b
  offers : ∀ i, EventBus.Offers i bs b
  room : ∀ i info, st.session i = some info → ∀ o ∈ EventBus.offeredTo i bs, o.2 = true

theorem BusOk.nil (st : Setting) : BusOk st [] EventBus.initial where
  run := rfl
  inv := EventBus.inv_initial
  offers := EventBus.offers_nil
  room _ _ _ _ ho := absurd ho List.not_mem_nil

theorem BusOk.step {st : Setting} {bs : List (EventBus.Act Published)}
    {b b' : EventBus.State Published} {a : EventBus.Act Published} (h : BusOk st bs b)
    (hfirst : EventBus.FirstUnsubscribe b a)
    (hroom : ∀ i info sub, a = .offer i → st.session i = some info → b.chans i = some sub →
      sub.full = false)
    (hb : EventBus.step b a = some b') : BusOk st (bs ++ [a]) b' := by
  have heff := (EventBus.effect_of_step hb).2
  refine ⟨?_, heff.inv hfirst h.inv, fun i => heff.offers h.run hb h.inv (h.offers i),
    fun i info hi o ho => ?_⟩
  · rw [Machine.run_snoc h.run]
    exact hb
  · have hsnoc : EventBus.offeredTo i (bs ++ [a])
        = EventBus.offeredTo i bs ++ EventBus.offeredNow i b a := Machine.observe_snoc h.run hb
    rw [hsnoc] at ho
    rcases List.mem_append.mp ho with ho | ho
    · exact h.room i info hi o ho
    · -- the event is offered by this step
      cases a with
      | offer j =>
          simp only [EventBus.offeredNow] at ho
          split at ho
          · rename_i e todo sub hmu hsub
            by_cases hji : j = i
            · subst hji
              rw [if_pos rfl] at ho
              rw [List.mem_singleton.mp ho, hroom j info sub rfl hi hsub]
              rfl
            · rw [if_neg hji] at ho
              exact absurd ho List.not_mem_nil
          · exact absurd ho List.not_mem_nil
      | _ => exact absurd ho List.not_mem_nil

/-- Nothing that is being published is still to be offered to a subscriber that has
    unsubscribed. -/
theorem BusOk.pending_nil {st : Setting} {bs : List (EventBus.Act Published)}
    {b : EventBus.State Published} (h : BusOk st bs b) {i : Nat} (hi : i ∉ b.subs) :
    b.pending i = [] := by
  rw [EventBus.State.pending]
  split
  · rename_i e todo hmu
    exact if_neg fun hmem => hi (h.inv.todo_subs e todo hmu i hmem)
  · rfl

/-- A recorder that has unsubscribed and drained its channel has received all that was
    published to it. -/
theorem BusOk.received_eq {st : Setting} {bs : List (EventBus.Act Published)}
    {b : EventBus.State Published} (h : BusOk st bs b) {i : Nat} {info : SessionInfo}
    {sub : EventBus.Subscription Published} (hi : st.session i = some info)
    (hsub : b.chans i = some sub) (hout : i ∉ b.subs) (hbuf : sub.chan.buf = []) :
    sub.received = EventBus.publishedTo i bs := by
  have hall : (EventBus.offeredTo i bs).filter Prod.snd = EventBus.offeredTo i bs :=
    List.filter_eq_self.mpr (h.room i info hi)
  calc sub.received = sub.given := by rw [EventBus.Subscription.given, hbuf, List.append_nil]
    _ = (EventBus.offeredTo i bs).map Prod.fst := by
        rw [(h.offers i).given sub hsub, EventBus.acceptedBy, hall]
    _ = EventBus.publishedTo i bs := by
        rw [← (h.offers i).published, h.pending_nil hout, List.append_nil]

-- ============================================================================
-- The file of a session
-- ============================================================================

/-- `os.Create` gives an empty file, or changes nothing. -/
theorem create_cases (cwd : List Bytes) (path : Bytes) (fs : List Bytes → Slot UInt8) :
    (∃ gen slot, (cells UInt8 cwd).run (create path) fs
        = (some ⟨path, gen, 0⟩, Function.update fs (Path.resolve cwd path) slot) ∧
      slot.Holds gen []) ∨
    (cells UInt8 cwd).run (create path) fs = (none, fs) := by
  by_cases hdir : (fs (Path.resolve cwd path)).node = some .dir
  · have hact : act (.create path) (fs (Path.resolve cwd path))
        = (.failed, fs (Path.resolve cwd path)) := by
      rw [act, hdir]
    refine .inr ?_
    rw [create, Cells.run_call, exec_eq hact]
    show (none, Function.update fs (Path.resolve cwd path) _) = _
    rw [Function.update_eq_self]
  · exact .inl (run_create hdir)

section Sessions

variable (st : Setting)

/-- `captureEvents` has written the lines of the events it has handled. -/
def Capturing (s : State) (i : Nat) (info : SessionInfo) : Prop :=
  ∃ sub gen content, s.bus.chans i = some sub ∧
    s.file i = some ⟨st.eventsPath info, gen, content.length⟩ ∧
    (s.fs (st.eventsPlace info)).Holds gen content ∧
    s.handled i ≤ sub.received.length ∧
    content = lines st info (sub.received.take (s.handled i))

/-- `captureEvents` has ended with the lines of all events it was given. -/
def Drained (s : State) (i : Nat) (info : SessionInfo) : Prop :=
  ∃ sub, s.bus.chans i = some sub ∧ sub.chan.buf = [] ∧
    (s.fs (st.eventsPlace info)).content = some (lines st info sub.received)

/-- A recorded session, by where its recording is. -/
def SessionOk (s : State) (i : Nat) (info : SessionInfo) : Prop :=
  match s.phase i with
  | .idle => s.file i = none ∧ s.handled i = 0
  | .subscribed => s.file i = none ∧ s.handled i = 0 ∧ i ∈ s.bus.subs ∧
      ∃ sub, s.bus.chans i = some sub
  | .recording => i ∈ s.bus.subs ∧ Capturing st s i info
  | .finishing => i ∉ s.bus.subs ∧ Capturing st s i info
  | .finished => i ∉ s.bus.subs ∧ s.file i = none ∧ Drained st s i info
  | .notCaptured => s.file i = none

end Sessions

section Steps

variable {st : Setting} {s s' : State} {i : Nat} {info : SessionInfo}

theorem SessionOk.of_recording (hphase : s.phase i = .recording) (hin : i ∈ s.bus.subs)
    (h : Capturing st s i info) : SessionOk st s i info := by
  rw [SessionOk, hphase]
  exact ⟨hin, h⟩

theorem SessionOk.of_notCaptured (hphase : s.phase i = .notCaptured) (hfile : s.file i = none) :
    SessionOk st s i info := by
  rw [SessionOk, hphase]
  exact hfile

/-- The bus goes on under a `captureEvents`. -/
theorem Capturing.busStep {a : EventBus.Act Published} (h : Capturing st s i info)
    (hinv : EventBus.Inv s.bus) (heff : EventBus.Effect s.bus a s'.bus)
    (hfile : s'.file i = s.file i) (hhandled : s'.handled i = s.handled i)
    (hfs : s'.fs (st.eventsPlace info) = s.fs (st.eventsPlace info)) :
    Capturing st s' i info := by
  obtain ⟨sub, gen, content, hsub, hopen, hholds, hle, hcontent⟩ := h
  obtain ⟨sub', hsub', ⟨more, hmore⟩, -⟩ := heff.received hinv hsub
  refine ⟨sub', gen, content, hsub', hfile.trans hopen, hfs ▸ hholds, ?_, ?_⟩
  · rw [hhandled, ← hmore, List.length_append]
    omega
  · rw [hhandled, ← hmore, List.take_append_of_le_length hle]
    exact hcontent

theorem Drained.busStep {a : EventBus.Act Published} (h : Drained st s i info)
    (hinv : EventBus.Inv s.bus) (heff : EventBus.Effect s.bus a s'.bus) (hout : i ∉ s.bus.subs)
    (hfs : s'.fs (st.eventsPlace info) = s.fs (st.eventsPlace info)) : Drained st s' i info := by
  obtain ⟨sub, hsub, hbuf, hcontent⟩ := h
  obtain ⟨sub', hsub', -, hdrained⟩ := heff.received hinv hsub
  obtain ⟨hsame, hbuf'⟩ := hdrained hout hbuf
  refine ⟨sub', hsub', hbuf', ?_⟩
  rw [hfs, hsame]
  exact hcontent

/-- A step of the bus that neither subscribes nor unsubscribes the session. -/
theorem SessionOk.busStep {a : EventBus.Act Published} (h : SessionOk st s i info)
    (hinv : EventBus.Inv s.bus) (heff : EventBus.Effect s.bus a s'.bus)
    (hsubscribe : ∀ buf, a ≠ .subscribe i buf) (hunsubscribe : a ≠ .unsubscribe i)
    (hphase : s'.phase i = s.phase i) (hfile : s'.file i = s.file i)
    (hhandled : s'.handled i = s.handled i) (hfs : s'.fs = s.fs) : SessionOk st s' i info := by
  have hsubs := heff.mem_subs hsubscribe hunsubscribe
  have hplace : s'.fs (st.eventsPlace info) = s.fs (st.eventsPlace info) := by rw [hfs]
  unfold SessionOk at h ⊢
  rw [hphase]
  split at h
  · exact ⟨hfile.trans h.1, hhandled.trans h.2⟩
  · obtain ⟨hnone, hzero, hin, sub, hsub⟩ := h
    obtain ⟨sub', hsub', -⟩ := heff.received hinv hsub
    exact ⟨hfile.trans hnone, hhandled.trans hzero, hsubs.mpr hin, sub', hsub'⟩
  · exact ⟨hsubs.mpr h.1, h.2.busStep hinv heff hfile hhandled hplace⟩
  · exact ⟨fun hin => h.1 (hsubs.mp hin), h.2.busStep hinv heff hfile hhandled hplace⟩
  · exact ⟨fun hin => h.1 (hsubs.mp hin), hfile.trans h.2.1,
      h.2.2.busStep hinv heff h.1 hplace⟩
  · exact hfile.trans h

/-- A step of another session off the bus, which leaves this session's file alone. -/
theorem SessionOk.frame (h : SessionOk st s i info) (hbus : s'.bus = s.bus)
    (hphase : s'.phase i = s.phase i) (hfile : s'.file i = s.file i)
    (hhandled : s'.handled i = s.handled i)
    (hfs : (s.phase i).hasFile = true →
      s'.fs (st.eventsPlace info) = s.fs (st.eventsPlace info)) : SessionOk st s' i info := by
  unfold SessionOk Capturing Drained at h ⊢
  rw [hphase, hfile, hhandled, hbus]
  cases hp : s.phase i with
  | idle | subscribed | notCaptured =>
      rw [hp] at h
      exact h
  | recording | finishing | finished =>
      rw [hp] at h
      rw [hfs (by rw [hp]; rfl)]
      exact h

/-- `captureEvents` handles one more event. -/
theorem Capturing.handles (h : Capturing st s i info) {file : Handle}
    {sub : EventBus.Subscription Published} {p : Published} (hfile : s.file i = some file)
    (hsub : s.bus.chans i = some sub) (hp : sub.received[s.handled i]? = some p) :
    Capturing st (capture st s i info file p) i info ∧
      ∀ q, q ≠ st.eventsPlace info → (capture st s i info file p).fs q = s.fs q := by
  obtain ⟨x, gen, content, hx, hopen, hholds, hle, hcontent⟩ := h
  obtain rfl : x = sub := Option.some.inj (hx.symm.trans hsub)
  obtain rfl : _ = file := Option.some.inj (hopen.symm.trans hfile)
  obtain ⟨hlt, hget⟩ := List.getElem?_eq_some_iff.mp hp
  have htake : x.received.take (s.handled i + 1) = x.received.take (s.handled i) ++ [p] := by
    rw [List.take_add_one, hp]
    rfl
  have hself : (s.setHandled i (s.handled i + 1)).handled i = s.handled i + 1 :=
    Function.update_self ..
  unfold capture
  by_cases hcap : captures info p.ev = true
  · obtain ⟨slot, hrun, hslot⟩ : ∃ slot, (cells UInt8 st.cwd).run
        (write ⟨st.eventsPath info, gen, content.length⟩ (st.encode p.ev)) s.fs
          = (⟨st.eventsPath info, gen, (content ++ st.encode p.ev).length⟩,
            Function.update s.fs (st.eventsPlace info) slot) ∧
        slot.Holds gen (content ++ st.encode p.ev) := run_write _ hholds
    rw [if_pos hcap, hrun]
    refine ⟨⟨x, gen, content ++ st.encode p.ev, hsub, Function.update_self .., ?_, ?_, ?_⟩,
      fun q hq => Function.update_of_ne hq ..⟩
    · show (Function.update s.fs (st.eventsPlace info) slot (st.eventsPlace info)).Holds _ _
      rw [Function.update_self]
      exact hslot
    · show Function.update s.handled i (s.handled i + 1) i ≤ x.received.length
      rw [Function.update_self]
      exact hlt
    · show content ++ st.encode p.ev = lines st info (x.received.take
        (Function.update s.handled i (s.handled i + 1) i))
      rw [Function.update_self, htake, hcontent, lines_append, if_pos hcap]
  · rw [if_neg hcap]
    refine ⟨⟨x, gen, content, hsub, hopen, hholds, ?_, ?_⟩, fun q _ => rfl⟩
    · rw [hself]
      exact hlt
    · rw [hself, htake, hcontent, lines_append, if_neg hcap, List.append_nil]

end Steps

-- ============================================================================
-- The invariant
-- ============================================================================

/-- The system after its schedule. -/
structure Inv (st : Setting) (as : List Act) (s : State) : Prop where
  bus : BusOk st (onBus as) s.bus
  told : ∀ i info, st.session i = some info → s.phase i ≠ .notCaptured →
    ∀ p ∈ EventBus.publishedTo i (onBus as), captures info p.ev = isAbout info p
  sessions : ∀ i info, st.session i = some info → SessionOk st s i info
  apart : ∀ i j info info', st.session i = some info → st.session j = some info' → j ≠ i →
    (s.phase i).hasFile = true → (s.phase j).hasFile = true →
    st.eventsPlace info' ≠ st.eventsPlace info

theorem Inv.initial (st : Setting) : Inv st [] (initial st) where
  bus := .nil st
  told _ _ _ _ _ hp := absurd hp List.not_mem_nil
  sessions _ _ _ := ⟨rfl, rfl⟩
  apart _ _ _ _ _ _ _ hi _ := nomatch hi

theorem onBus_append (as : List Act) (a : Act) :
    onBus (as ++ [a]) = onBus as ++ a.onBus.toList := by
  rw [onBus, List.filterMap_append]
  cases h : a.onBus with
  | none => simp [h, onBus]
  | some b => simp [h, onBus]

section Invariant

variable {st : Setting} {as : List Act} {s s' : State}

/-- What is told is told after a step of the bus, if what the step publishes is. -/
theorem Inv.told_step (h : Inv st as s) {a : Act} {c : EventBus.Act Published}
    {b : EventBus.State Published} (honBus : a.onBus = some c)
    (hb : EventBus.step s.bus c = some b)
    (hpublish : ∀ p, c = .publish p → ∀ i ∈ s.bus.subs, s.phase i ≠ .notCaptured →
      ∀ info, st.session i = some info → Told info p)
    {i : Nat} {info : SessionInfo} (hi : st.session i = some info)
    (hphase : s.phase i ≠ .notCaptured) :
    ∀ p ∈ EventBus.publishedTo i (onBus (as ++ [a])), captures info p.ev = isAbout info p := by
  intro p hp
  have hsnoc : EventBus.publishedTo i (onBus as ++ [c])
      = EventBus.publishedTo i (onBus as) ++ EventBus.publishedNow i s.bus c :=
    Machine.observe_snoc h.bus.run hb
  rw [onBus_append, honBus, Option.toList_some, hsnoc] at hp
  rcases List.mem_append.mp hp with hp | hp
  · exact h.told i info hi hphase p hp
  · cases c with
    | publish q =>
        rw [EventBus.publishedNow] at hp
        split at hp
        · rename_i hin
          obtain rfl := List.mem_singleton.mp hp
          exact captures_eq_isAbout (hpublish p rfl i hin hphase info hi)
        · exact absurd hp List.not_mem_nil
    | _ => exact absurd hp List.not_mem_nil

/-- A step off the bus that does not give up a recording. -/
theorem Inv.told_off (h : Inv st as s) {a : Act} (honBus : a.onBus = none) {i : Nat}
    {info : SessionInfo} (hi : st.session i = some info) (hphase : s.phase i ≠ .notCaptured) :
    ∀ p ∈ EventBus.publishedTo i (onBus (as ++ [a])), captures info p.ev = isAbout info p := by
  rw [onBus_append, honBus, Option.toList_none, List.append_nil]
  exact h.told i info hi hphase

theorem Inv.bus_off (h : Inv st as s) {a : Act} (honBus : a.onBus = none) :
    BusOk st (onBus (as ++ [a])) s.bus := by
  rw [onBus_append, honBus, Option.toList_none, List.append_nil]
  exact h.bus

theorem Inv.bus_step (h : Inv st as s) {a : Act} {c : EventBus.Act Published}
    {b : EventBus.State Published} (honBus : a.onBus = some c)
    (hfirst : EventBus.FirstUnsubscribe s.bus c)
    (hroom : ∀ i info sub, c = .offer i → st.session i = some info → s.bus.chans i = some sub →
      sub.full = false)
    (hb : EventBus.step s.bus c = some b) : BusOk st (onBus (as ++ [a])) b := by
  rw [onBus_append, honBus, Option.toList_some]
  exact h.bus.step hfirst hroom hb

theorem phase_setPhase_self (s : State) (i : Nat) (phase : Phase) :
    (s.setPhase i phase).phase i = phase := Function.update_self ..

theorem phase_setPhase_of_ne (s : State) {i j : Nat} (phase : Phase) (h : j ≠ i) :
    (s.setPhase i phase).phase j = s.phase j := Function.update_of_ne h ..

/-- A session that has not given up has not done so before. -/
theorem notCaptured_of_setPhase {i : Nat} {phase : Phase} (hold : s.phase i ≠ .notCaptured)
    {j : Nat} (h : (s.setPhase i phase).phase j ≠ .notCaptured) : s.phase j ≠ .notCaptured := by
  by_cases hji : j = i
  · rw [hji]
    exact hold
  · rwa [phase_setPhase_of_ne s phase hji] at h

/-- A session has had its file before, unless the step gives it one. -/
theorem hasFile_of_setPhase {i : Nat} {phase : Phase}
    (hold : phase.hasFile = true → (s.phase i).hasFile = true) {j : Nat}
    (h : ((s.setPhase i phase).phase j).hasFile = true) : (s.phase j).hasFile = true := by
  by_cases hji : j = i
  · rw [hji, phase_setPhase_self] at h
    rw [hji]
    exact hold h
  · rwa [phase_setPhase_of_ne s phase hji] at h

/-- A session that gets no new file stays apart from the others. -/
theorem Inv.apart_of (h : Inv st as s)
    (hphase : ∀ j, (s'.phase j).hasFile = true → (s.phase j).hasFile = true) :
    ∀ i j info info', st.session i = some info → st.session j = some info' → j ≠ i →
      (s'.phase i).hasFile = true → (s'.phase j).hasFile = true →
      st.eventsPlace info' ≠ st.eventsPlace info :=
  fun i j info info' hi hj hne hfi hfj =>
    h.apart i j info info' hi hj hne (hphase i hfi) (hphase j hfj)

/-- A step of the bus between the steps of the recorders. -/
theorem Inv.setBus (h : Inv st as s) {a : Act} {c : EventBus.Act Published}
    {b : EventBus.State Published} (honBus : a.onBus = some c)
    (hb : EventBus.step s.bus c = some b) (hfirst : EventBus.FirstUnsubscribe s.bus c)
    (hroom : ∀ i info sub, c = .offer i → st.session i = some info → s.bus.chans i = some sub →
      sub.full = false)
    (hpublish : ∀ p, c = .publish p → ∀ i ∈ s.bus.subs, s.phase i ≠ .notCaptured →
      ∀ info, st.session i = some info → Told info p)
    (hsubscribe : ∀ i info buf, st.session i = some info → c ≠ .subscribe i buf)
    (hunsubscribe : ∀ i info, st.session i = some info → c ≠ .unsubscribe i) :
    Inv st (as ++ [a]) (s.setBus b) where
  bus := h.bus_step honBus hfirst hroom hb
  told i info hi hphase := h.told_step honBus hb hpublish hi hphase
  sessions i info hi := by
    have heff : EventBus.Effect s.bus c (s.setBus b).bus := (EventBus.effect_of_step hb).2
    exact (h.sessions i info hi).busStep h.bus.inv heff
      (fun buf => hsubscribe i info buf hi) (hunsubscribe i info hi) rfl rfl rfl rfl
  apart := h.apart

/-- `Subscribe` in the Begin of a session. -/
theorem Inv.begins (h : Inv st as s) {i : Nat} {b : EventBus.State Published}
    (hphase : s.phase i = .idle)
    (hb : EventBus.step s.bus (.subscribe i eventsBuf) = some b) :
    Inv st (as ++ [.begin i]) ((s.setBus b).setPhase i .subscribed) := by
  have heff := (EventBus.effect_of_step hb).2
  refine ⟨h.bus_step rfl (fun j sub hj => nomatch hj) (fun j info sub hj => nomatch hj) hb,
    fun j info hj hnot => ?_, fun j info hj => ?_,
    h.apart_of fun j => hasFile_of_setPhase (by nofun)⟩
  · have hold : s.phase i ≠ .notCaptured := by rw [hphase]; exact fun heq => nomatch heq
    exact h.told_step rfl hb (fun p hp => nomatch hp) hj (notCaptured_of_setPhase hold hnot)
  · by_cases hji : j = i
    · subst hji
      have hok := h.sessions j info hj
      rw [SessionOk, hphase] at hok
      rw [SessionOk, phase_setPhase_self]
      cases heff with
      | subscribe _ _ hmu hnew =>
          exact ⟨hok.1, hok.2, List.mem_append_right _ (List.mem_singleton.mpr rfl), _,
            EventBus.chans_setChan_self s.bus j _⟩
    · refine (h.sessions j info hj).busStep h.bus.inv heff (fun buf hbuf => ?_)
        (fun hbuf => nomatch hbuf) (phase_setPhase_of_ne (s.setBus b) .subscribed hji) rfl rfl rfl
      cases hbuf
      exact hji rfl

/-- Begin has its events.jsonl. -/
theorem Inv.creates (h : Inv st as s) {i : Nat} {info : SessionInfo} {file : Handle}
    {fs : List Bytes → Slot UInt8} (hi : st.session i = some info)
    (hphase : s.phase i = .subscribed)
    (hrun : (cells UInt8 st.cwd).run (create (st.eventsPath info)) s.fs = (some file, fs))
    (hguard : TimelineGuard st s (.create i)) :
    Inv st (as ++ [.create i])
      { (s.setPhase i .recording).setFile i (some file) with fs := fs } := by
  obtain ⟨gen, slot, hcreated, hholds⟩ | hfailed := create_cases st.cwd (st.eventsPath info) s.fs
  · rw [hcreated] at hrun
    cases hrun
    have hne : ∀ j, j ≠ i → (s.setPhase i .recording).phase j = s.phase j := fun j hji =>
      phase_setPhase_of_ne s .recording hji
    refine ⟨h.bus_off rfl, fun j info' hj hnot => ?_, fun j info' hj => ?_,
      fun j k info₁ info₂ hj hk hkj hfj hfk => ?_⟩
    · have hold : s.phase i ≠ .notCaptured := by rw [hphase]; exact fun heq => nomatch heq
      exact h.told_off rfl hj (notCaptured_of_setPhase hold hnot)
    · by_cases hji : j = i
      · subst hji
        obtain rfl : info = info' := Option.some.inj (hi.symm.trans hj)
        have hok := h.sessions j info hi
        rw [SessionOk, hphase] at hok
        obtain ⟨-, hzero, hin, sub, hsub⟩ := hok
        have hself : (s.setPhase j .recording).phase j = .recording := phase_setPhase_self ..
        refine .of_recording hself hin ⟨sub, gen, [], hsub, Function.update_self .., ?_, ?_, ?_⟩
        · show (Function.update s.fs (st.eventsPlace info) slot (st.eventsPlace info)).Holds _ _
          rw [Function.update_self]
          exact hholds
        · show s.handled j ≤ sub.received.length
          omega
        · show [] = lines st info (sub.received.take (s.handled j))
          rw [hzero]
          rfl
      · refine (h.sessions j info' hj).frame rfl (hne j hji) (Function.update_of_ne hji ..) rfl
          fun hfile => ?_
        exact Function.update_of_ne (hguard info j info' hi hj hji hfile) ..
    · by_cases hki : k = i
      · subst hki
        obtain rfl : info = info₂ := Option.some.inj (hi.symm.trans hk)
        exact (hguard info j info₁ hi hj (Ne.symm hkj) ((hne j (Ne.symm hkj)) ▸ hfj)).symm
      · by_cases hji : j = i
        · subst hji
          obtain rfl : info = info₁ := Option.some.inj (hi.symm.trans hj)
          exact hguard info k info₂ hi hk hki ((hne k hki) ▸ hfk)
        · exact h.apart j k info₁ info₂ hj hk hkj ((hne j hji) ▸ hfj) ((hne k hki) ▸ hfk)
  · rw [hfailed] at hrun
    exact nomatch hrun

/-- Begin has no events.jsonl. -/
theorem Inv.createFails (h : Inv st as s) {i : Nat} {info : SessionInfo}
    {fs : List Bytes → Slot UInt8} (hi : st.session i = some info)
    (hphase : s.phase i = .subscribed)
    (hrun : (cells UInt8 st.cwd).run (create (st.eventsPath info)) s.fs = (none, fs)) :
    Inv st (as ++ [.create i]) { s.setPhase i .notCaptured with fs := fs } := by
  obtain ⟨gen, slot, hcreated, -⟩ | hfailed := create_cases st.cwd (st.eventsPath info) s.fs
  · rw [hcreated] at hrun
    exact nomatch hrun
  · rw [hfailed] at hrun
    cases hrun
    have hne : ∀ j, j ≠ i → (s.setPhase i .notCaptured).phase j = s.phase j := fun j hji =>
      phase_setPhase_of_ne s .notCaptured hji
    have hself : (s.setPhase i .notCaptured).phase i = .notCaptured := phase_setPhase_self ..
    refine ⟨h.bus_off rfl, fun j info' hj hnot => ?_, fun j info' hj => ?_,
      h.apart_of fun j => hasFile_of_setPhase (by nofun)⟩
    · have hji : j ≠ i := fun hji => hnot (hji ▸ hself)
      exact h.told_off rfl hj fun hcap => hnot ((hne j hji).trans hcap)
    · by_cases hji : j = i
      · subst hji
        have hok := h.sessions j info' hj
        rw [SessionOk, hphase] at hok
        exact .of_notCaptured hself hok.1
      · exact (h.sessions j info' hj).frame rfl (hne j hji) rfl rfl fun _ => rfl

/-- A running `captureEvents` belongs to a recording session. -/
theorem SessionOk.capturing {i : Nat} {info : SessionInfo} {file : Handle}
    (h : SessionOk st s i info) (hfile : s.file i = some file) :
    (s.phase i = .recording ∨ s.phase i = .finishing) ∧ Capturing st s i info := by
  unfold SessionOk at h
  split at h
  · exact absurd (hfile.symm.trans h.1) (by simp)
  · exact absurd (hfile.symm.trans h.1) (by simp)
  · rename_i hphase
    exact ⟨.inl hphase, h.2⟩
  · rename_i hphase
    exact ⟨.inr hphase, h.2⟩
  · exact absurd (hfile.symm.trans h.2.1) (by simp)
  · exact absurd (hfile.symm.trans h) (by simp)

theorem capture_bus (i : Nat) (info : SessionInfo) (file : Handle) (p : Published) :
    (capture st s i info file p).bus = s.bus := by
  unfold capture
  split
  · rfl
  · rfl

theorem capture_phase (i : Nat) (info : SessionInfo) (file : Handle) (p : Published) :
    (capture st s i info file p).phase = s.phase := by
  unfold capture
  split
  · rfl
  · rfl

theorem capture_of_ne {i j : Nat} (hji : j ≠ i) (info : SessionInfo) (file : Handle)
    (p : Published) : (capture st s i info file p).file j = s.file j ∧
      (capture st s i info file p).handled j = s.handled j := by
  unfold capture
  split
  · exact ⟨Function.update_of_ne hji .., Function.update_of_ne hji ..⟩
  · exact ⟨rfl, Function.update_of_ne hji ..⟩

/-- `captureEvents` handles an event. -/
theorem Inv.captures (h : Inv st as s) {i : Nat} {info : SessionInfo} {file : Handle}
    {sub : EventBus.Subscription Published} {p : Published} (hi : st.session i = some info)
    (hfile : s.file i = some file) (hsub : s.bus.chans i = some sub)
    (hp : sub.received[s.handled i]? = some p) :
    Inv st (as ++ [.capture i]) (capture st s i info file p) := by
  have hbus : (capture st s i info file p).bus = s.bus := capture_bus i info file p
  have hphases : (capture st s i info file p).phase = s.phase := capture_phase i info file p
  obtain ⟨hphase, hcapturing⟩ := (h.sessions i info hi).capturing hfile
  obtain ⟨hnext, hframe⟩ := hcapturing.handles hfile hsub hp
  refine ⟨hbus ▸ h.bus_off rfl, fun j info' hj hnot => ?_, fun j info' hj => ?_,
    h.apart_of fun j hj => hphases ▸ hj⟩
  · exact h.told_off rfl hj (hphases ▸ hnot)
  · by_cases hji : j = i
    · subst hji
      obtain rfl : info = info' := Option.some.inj (hi.symm.trans hj)
      have hok := h.sessions j info hi
      unfold SessionOk at hok ⊢
      rw [hphases, hbus]
      rcases hphase with hphase | hphase
      · rw [hphase] at hok ⊢
        exact ⟨hok.1, hnext⟩
      · rw [hphase] at hok ⊢
        exact ⟨hok.1, hnext⟩
    · obtain ⟨hfile', hhandled⟩ := capture_of_ne hji info file p
      refine (h.sessions j info' hj).frame hbus (congrFun hphases j) hfile' hhandled fun hhas => ?_
      refine hframe _ (h.apart i j info info' hi hj hji ?_ hhas)
      rcases hphase with hphase | hphase
      · rw [hphase]
        rfl
      · rw [hphase]
        rfl

/-- Finish gives the subscription up. -/
theorem Inv.finishes (h : Inv st as s) {i : Nat} {info : SessionInfo}
    {b : EventBus.State Published} (hi : st.session i = some info)
    (hphase : s.phase i = .recording)
    (hb : EventBus.step s.bus (.unsubscribe i) = some b) :
    Inv st (as ++ [.finish i]) ((s.setBus b).setPhase i .finishing) := by
  have heff := (EventBus.effect_of_step hb).2
  have hok := h.sessions i info hi
  rw [SessionOk, hphase] at hok
  have hhad : (s.phase i).hasFile = true := by rw [hphase]; rfl
  have hne : ∀ j, j ≠ i → ((s.setBus b).setPhase i .finishing).phase j = s.phase j :=
    fun j hji => phase_setPhase_of_ne (s.setBus b) .finishing hji
  refine ⟨h.bus_step rfl (fun j sub hj _ => ?_) (fun j info sub hj => nomatch hj) hb,
    fun j info' hj hnot => ?_, fun j info' hj => ?_,
    h.apart_of fun j => hasFile_of_setPhase fun _ => hhad⟩
  · cases hj
    exact hok.1
  · have hold : s.phase i ≠ .notCaptured := by rw [hphase]; exact fun heq => nomatch heq
    exact h.told_step rfl hb (fun p hp => nomatch hp) hj (notCaptured_of_setPhase hold hnot)
  · by_cases hji : j = i
    · subst hji
      obtain rfl : info = info' := Option.some.inj (hi.symm.trans hj)
      rw [SessionOk, phase_setPhase_self]
      refine ⟨fun hin => ?_, hok.2.busStep h.bus.inv heff rfl rfl rfl⟩
      cases heff with
      | unsubscribe _ sub hmu hsub => simpa using (List.mem_filter.mp hin).2
    · refine (h.sessions j info' hj).busStep h.bus.inv heff (fun buf hbuf => nomatch hbuf)
        (fun heq => ?_) (hne j hji) rfl rfl rfl
      cases heq
      exact hji rfl

/-- `captureEvents` has ended. -/
theorem Inv.done (h : Inv st as s) {i : Nat} {sub : EventBus.Subscription Published}
    (hphase : s.phase i = .finishing) (hsub : s.bus.chans i = some sub)
    (hbuf : sub.chan.buf = []) (hhandled : s.handled i = sub.received.length) :
    Inv st (as ++ [.eventsDone i]) ((s.setPhase i .finished).setFile i none) := by
  have hhad : (s.phase i).hasFile = true := by rw [hphase]; rfl
  have hne : ∀ j, j ≠ i → ((s.setPhase i .finished).setFile i none).phase j = s.phase j :=
    fun j hji => phase_setPhase_of_ne s .finished hji
  have hself : ((s.setPhase i .finished).setFile i none).phase i = .finished :=
    phase_setPhase_self s i .finished
  refine ⟨h.bus_off rfl, fun j info hj hnot => ?_, fun j info hj => ?_,
    h.apart_of fun j => hasFile_of_setPhase fun _ => hhad⟩
  · have hold : s.phase i ≠ .notCaptured := by rw [hphase]; exact fun heq => nomatch heq
    exact h.told_off rfl hj (notCaptured_of_setPhase hold hnot)
  · by_cases hji : j = i
    · subst hji
      have hok := h.sessions j info hj
      rw [SessionOk, hphase] at hok
      obtain ⟨hout, x, gen, content, hx, -, hholds, -, hcontent⟩ := hok
      obtain rfl : x = sub := Option.some.inj (hx.symm.trans hsub)
      rw [hhandled, List.take_length] at hcontent
      rw [SessionOk, hself]
      exact ⟨hout, Function.update_self .., x, hx, hbuf, hcontent ▸ hholds.content⟩
    · exact (h.sessions j info hj).frame rfl (hne j hji) (Function.update_of_ne hji ..) rfl
        fun _ => rfl

theorem Inv.step (h : Inv st as s) {a : Act} (hroom : Room st s a) (hguard : TimelineGuard st s a)
    (hmove : Move st s a s') : Inv st (as ++ [a]) s' := by
  cases hmove with
  | bus a b helsewhere hb =>
      refine h.setBus rfl hb (fun i sub ha _ => ?_) (fun i info sub ha => ?_) (fun p ha => ?_)
        (fun i info buf hi ha => ?_) (fun i info hi ha => ?_)
      · subst ha
        rw [elsewhere, Bool.and_eq_true, decide_eq_true_iff] at helsewhere
        exact helsewhere.2
      · subst ha
        exact hroom info sub
      · subst ha
        exact hguard
      · subst ha
        rw [elsewhere, hi] at helsewhere
        exact nomatch helsewhere
      · subst ha
        rw [elsewhere, hi, Bool.and_eq_true] at helsewhere
        exact nomatch helsewhere.1
  | begins i b hphase hb => exact h.begins hphase hb
  | creates i info file fs hi hphase hrun => exact h.creates hi hphase hrun hguard
  | createFails i info fs hi hphase hrun => exact h.createFails hi hphase hrun
  | receives i b hb =>
      exact h.setBus rfl hb (fun _ _ ha => nomatch ha) (fun _ _ _ ha => nomatch ha)
        (fun _ ha => nomatch ha) (fun _ _ _ _ ha => nomatch ha) (fun _ _ _ ha => nomatch ha)
  | captures i info file sub p hi hfile hsub hp => exact h.captures hi hfile hsub hp
  | finishes i info b hi hphase hb => exact h.finishes hi hphase hb
  | done i sub hphase hsub hbuf hhandled => exact h.done hphase hsub hbuf hhandled

theorem Inv.kept (h : Inv st as s) : Kept st as s := by
  intro i info hi hphase
  have hok := h.sessions i info hi
  rw [SessionOk, hphase] at hok
  obtain ⟨hout, -, sub, hsub, hbuf, hcontent⟩ := hok
  have hreceived : sub.received = EventBus.publishedTo i (onBus as) :=
    h.bus.received_eq hi hsub hout hbuf
  have htold := h.told i info hi (by rw [hphase]; exact fun h => nomatch h)
  rw [hcontent, lines, hreceived, List.filter_congr htold]

end Invariant

-- ============================================================================
-- The timeline
-- ============================================================================

/-- The events.jsonl of the sessions that have finished, in every run in which no
    recorder's buffer is full when an event is offered to it, every event says whether
    it is about a recorded call in the way the filter reads it, and no session creates
    the events.jsonl of another: the events about the call that were published while
    the session was subscribed, in their order and once each. -/
theorem events_kept {st : Setting} {as : List Act} {s : State}
    (hroom : (machine st).Guarded (Room st) (initial st) as)
    (hguard : (machine st).Guarded (TimelineGuard st) (initial st) as)
    (hrun : (machine st).run (initial st) as = some s) : Kept st as s := by
  have hinv : Inv st as s := by
    refine Machine.guarded_induction (M := machine st) (J := fun as s => Inv st as s)
      (Inv.initial st) (fun as a s s' _ h hg hs' => ?_) (hroom.and hguard) hrun
    exact h.step hg.1 hg.2 (move_of_step hs')
  exact hinv.kept

/-- One session is recorded, and nothing is on the disk. -/
def oneSession (fsUUID : Bytes) : Setting where
  cwd := []
  recorder := ⟨ascii "r", by decide, true⟩
  session := fun i =>
    if i = 0 then some ⟨⟨ascii "5e", List.all_eq_true.mp rfl⟩, fsUUID, 8000, ascii "mono"⟩ else none
  encode := fun ev => ev.name ++ [10]
  disk := fun _ => .empty

/-- The session records while an event of its call and one of another are published. -/
def oneCall (uuid other : Bytes) : List Act :=
  [.begin 0, .create 0, .bus (.publish ⟨⟨ascii "x", uuid, []⟩, false⟩), .bus (.offer 0),
    .bus .published, .bus (.publish ⟨⟨ascii "y", other, []⟩, false⟩), .bus (.offer 0),
    .bus .published, .receive 0, .capture 0, .receive 0, .capture 0, .finish 0, .bus .close,
    .eventsDone 0]

/-- The bundle has the name of the call. -/
theorem events_kept_one : ∃ s info,
    (oneSession (ascii "a-1")).session 0 = some info ∧
      (machine (oneSession (ascii "a-1"))).run (initial (oneSession (ascii "a-1")))
        (oneCall (ascii "a-1") (ascii "b")) = some s ∧
      (s.fs ((oneSession (ascii "a-1")).eventsPlace info)).content = some (ascii "x" ++ [10]) := by
  obtain ⟨s, info, hinfo, hrun, hphase⟩ : ∃ s info,
      (oneSession (ascii "a-1")).session 0 = some info ∧
        (machine (oneSession (ascii "a-1"))).run (initial (oneSession (ascii "a-1")))
          (oneCall (ascii "a-1") (ascii "b")) = some s ∧ s.phase 0 = .finished :=
    ⟨_, _, rfl, rfl, rfl⟩
  have hroom : (machine (oneSession (ascii "a-1"))).Guarded (Room (oneSession (ascii "a-1")))
      (initial (oneSession (ascii "a-1"))) (oneCall (ascii "a-1") (ascii "b")) := by
    refine .cons trivial rfl (.cons trivial rfl (.cons trivial rfl (.cons ?_ rfl (.cons trivial rfl
      (.cons trivial rfl (.cons ?_ rfl (.cons trivial rfl (.cons trivial rfl (.cons trivial rfl
      (.cons trivial rfl (.cons trivial rfl (.cons trivial rfl (.cons trivial rfl
      (.cons trivial rfl trivial))))))))))))))
    · intro info sub _ hsub
      cases hsub
      rfl
    · intro info sub _ hsub
      cases hsub
      rfl
  have hguard : (machine (oneSession (ascii "a-1"))).Guarded
      (TimelineGuard (oneSession (ascii "a-1"))) (initial (oneSession (ascii "a-1")))
      (oneCall (ascii "a-1") (ascii "b")) := by
    refine .cons trivial rfl (.cons ?_ rfl (.cons ?_ rfl
      (.cons trivial rfl (.cons trivial rfl (.cons ?_ rfl (.cons trivial rfl (.cons trivial rfl
      (.cons trivial rfl (.cons trivial rfl (.cons trivial rfl (.cons trivial rfl
      (.cons trivial rfl (.cons trivial rfl (.cons trivial rfl trivial))))))))))))))
    · intro info j info' _ hj hne
      exact nomatch (if_neg hne).symm.trans hj
    · intro i hi _ info hinfo
      obtain rfl := List.mem_singleton.mp hi
      cases hinfo
      exact ⟨by decide, by decide, by decide⟩
    · intro i hi _ info hinfo
      obtain rfl := List.mem_singleton.mp hi
      cases hinfo
      exact ⟨by decide, by decide, by decide⟩
  refine ⟨s, info, hinfo, hrun, ?_⟩
  have hkept := events_kept hroom hguard hrun 0 info hinfo hphase
  cases hinfo
  exact hkept

/-- The UUID of the call has a character that is dropped from the name of its bundle:
    the event of the call is not captured. -/
theorem event_of_call_missed : ∃ s info,
    (oneSession (ascii "a@1")).session 0 = some info ∧ info.fsUUID = ascii "a@1" ∧
      (machine (oneSession (ascii "a@1"))).run (initial (oneSession (ascii "a@1")))
        (oneCall (ascii "a@1") (ascii "b")) = some s ∧
      (s.fs ((oneSession (ascii "a@1")).eventsPlace info)).content = some [] ∧
      ¬ Kept (oneSession (ascii "a@1")) (oneCall (ascii "a@1") (ascii "b")) s := by
  refine ⟨_, _, rfl, rfl, rfl, rfl, fun h => ?_⟩
  have hline := h 0 _ rfl rfl
  exact absurd (Option.some.inj hline) (by decide)

end FsBridge.Bridge.EventTimeline
