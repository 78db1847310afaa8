/-
  FsBridge.Bridge.AgentTrace

  The agent connections of `AgentForwarder` (bridge/agent.go) under `serveWS`: any
  number of sessions, each with the goroutine that calls OnStart, OnAudio, OnText
  and OnEnd, the `readFromAgent` of its connection, and others that close it.

  A connection is named by a number, as the code names it by its pointer.  A Write
  succeeds or fails as its action says, and fails on a connection on which one has
  failed before.

  `frames`, `written`, `failed`, `closes` and `info` are history: no step reads them
  but for the failed Write.

  The proofs go by `Fits`: what a connection has been sent, for each place its
  session's goroutine can be at.
-/

import Mathlib.Logic.Function.Basic
import FsBridge.Bridge.Agent
import FsBridge.Lib.Machine

namespace FsBridge.Bridge.AgentTrace

open FsBridge.Lib
open ServeWS (Frame)

/-- The forwarder's fields and the sessions it is given. -/
structure Setting where
  ESL : ServeWS.Interface ServeWS.ESLClient
  bus : Bool
  session : Nat → SessionInfo
  unmarshal : Bytes → Option AgentMessage
  unmarshalMap : Bytes → Option (List (Bytes × Json))

/-- Where the goroutine of a session is. -/
inductive Pc where
  | starting
  | dialed (c : Nat)
  | stored (c : Nat)
  /-- In OnStart after a failed Write, before `a.mu.Delete`. -/
  | startFailed (c : Nat)
  /-- In OnStart after a failed Write, before `conn.Close`. -/
  | removed (c : Nat)
  /-- In OnStart, before the `s.Close` of its error exits. -/
  | notStarted
  | reading
  /-- In OnAudio or OnText, before `a.mu.Load`. -/
  | got (f : Frame)
  /-- In OnAudio or OnText, before the Write. -/
  | forwarding (f : Frame) (c : Nat)
  /-- In OnAudio, before the `s.Close` after a failed Write. -/
  | writeFailed
  | readFailed
  | ending
  /-- In OnEnd, before the Write. -/
  | stopping (c : Nat)
  /-- In OnEnd, before `conn.Close`. -/
  | closing (c : Nat)
  | returned
  | panicked
deriving DecidableEq, Repr

/-- The connection a variable of the goroutine holds. -/
def Pc.conn : Pc → Option Nat
  | .dialed c | .stored c | .startFailed c | .removed c => some c
  | .forwarding _ c | .stopping c | .closing c => some c
  | _ => none

/-- OnText has an empty text to forward. -/
def Pc.forwardsEmpty : Pc → Bool
  | .forwarding (.text []) _ => true
  | _ => false

/-- An `agentConn`. -/
structure Conn where
  /-- The session it was dialled for. -/
  session : Nat
  /-- The call info of that OnStart. -/
  info : CallInfo
  /-- The frames of the successful Writes, oldest first. -/
  written : List AgentFrame
  /-- A Write has failed. -/
  failed : Bool
  /-- How often the forwarder has closed it. -/
  closes : Nat
  /-- Its `readFromAgent` runs. -/
  beingRead : Bool
  reactions : List AgentReaction

namespace Conn

def dial (session : Nat) (info : CallInfo) : Conn := ⟨session, info, [], false, 0, false, []⟩

def sent (k : Conn) (f : AgentFrame) : Conn := { k with written := k.written ++ [f] }

def fail (k : Conn) : Conn := { k with failed := true }

def close (k : Conn) : Conn := { k with closes := k.closes + 1 }

/-- A Write of the frame. -/
def write (k : Conn) (f : AgentFrame) (ok : Bool) : Option Conn :=
  if ok then if k.failed then none else some (k.sent f) else some k.fail

end Conn

structure State where
  pc : Nat → Pc
  /-- The frames the module of a session has sent, as the read pump has read them. -/
  frames : Nat → List Frame
  /-- The sessions that have been closed. -/
  closed : Nat → Bool
  /-- `a.mu`. -/
  mu : Nat → Option Nat
  conns : Nat → Option Conn

inductive Act where
  /-- OnStart up to the dial, which gives a connection or fails. -/
  | dial (i : Nat) (dump : Except Unit Bytes) (urlParsed : Bool) (dialed : Option Nat)
  | store (i : Nat)
  /-- The Write the goroutine is at. -/
  | write (i : Nat) (ok : Bool)
  | delete (i : Nat)
  | closeConn (i : Nat)
  | closeSession (i : Nat)
  | read (i : Nat) (f : Frame)
  | readFails (i : Nat)
  | load (i : Nat)
  | loadAndDelete (i : Nat)
  | agentReads (c : Nat) (f : Frame)
  | agentReadFails (c : Nat)
  | closeElsewhere (i : Nat)

namespace State

def goTo (s : State) (i : Nat) (pc : Pc) : State := { s with pc := Function.update s.pc i pc }

def setConn (s : State) (c : Nat) (k : Conn) : State :=
  { s with conns := Function.update s.conns c (some k) }

def setMu (s : State) (i : Nat) (m : Option Nat) : State :=
  { s with mu := Function.update s.mu i m }

def closeSession (s : State) (i : Nat) : State :=
  { s with closed := Function.update s.closed i true }

def hear (s : State) (i : Nat) (f : Frame) : State :=
  { s with frames := Function.update s.frames i (s.frames i ++ [f]) }

theorem pc_goTo_self (s : State) (i : Nat) (pc : Pc) : (s.goTo i pc).pc i = pc :=
  Function.update_self ..

theorem conns_setConn_self (s : State) (c : Nat) (k : Conn) : (s.setConn c k).conns c = some k :=
  Function.update_self ..

theorem conns_setConn_of_ne (s : State) {c d : Nat} (k : Conn) (h : d ≠ c) :
    (s.setConn c k).conns d = s.conns d :=
  Function.update_of_ne h ..

end State

/-- The frame OnAudio or OnText writes, if the message can be marshalled. -/
def outgoing (s : SessionInfo) : Frame → Option AgentFrame
  | .binary pcm => some (.binary pcm)
  | .text data => (metadataMessage s data).marshal

/-- Where a failed Write leads: OnAudio ends the session, OnText ignores the error. -/
def afterFailure : Frame → Pc
  | .binary _ => .writeFailed
  | .text _ => .reading

section Step

variable (st : Setting)

/-- The Write of OnStart, of OnAudio and OnText, or of OnEnd. -/
def stepWrite (s : State) (i : Nat) (ok : Bool) : Option State :=
  match s.pc i with
  | .stored c =>
      match s.conns c with
      | none => none
      | some k =>
          match (startMessage (st.session i) k.info).marshal with
          | none => some (s.goTo i (.startFailed c))
          | some f =>
              (k.write f ok).map fun k' =>
                if ok then (s.goTo i .reading).setConn c { k' with beingRead := true }
                else (s.goTo i (.startFailed c)).setConn c k'
  | .forwarding f c =>
      match s.conns c, outgoing (st.session i) f with
      | some k, some af =>
          (k.write af ok).map fun k' =>
            (s.goTo i (if ok then .reading else afterFailure f)).setConn c k'
      | some _, none => some (s.goTo i .reading)
      | none, _ => none
  | .stopping c =>
      match s.conns c, (stopMessage (st.session i)).marshal with
      | some k, some f => (k.write f ok).map fun k' => (s.goTo i (.closing c)).setConn c k'
      | _, _ => none
  | _ => none

/-- `conn.Close` of OnStart or OnEnd. -/
def stepCloseConn (s : State) (i : Nat) : Option State :=
  match s.pc i with
  | .removed c => (s.conns c).map fun k => (s.goTo i .notStarted).setConn c k.close
  | .closing c => (s.conns c).map fun k => (s.goTo i .returned).setConn c k.close
  | _ => none

def step (s : State) : Act → Option State
  | .dial i dump urlParsed dialed =>
      if s.pc i = .starting then
        match resolveCallInfo st.ESL (st.session i) dump with
        | none => some (s.goTo i .panicked)
        | some ci =>
            match if urlParsed then dialed else none with
            | none => some (s.goTo i .notStarted)
            | some c =>
                match s.conns c with
                | none => some ((s.goTo i (.dialed c)).setConn c (.dial i ci))
                | some _ => none
      else none
  | .store i =>
      match s.pc i with
      | .dialed c => some ((s.goTo i (.stored c)).setMu i (some c))
      | _ => none
  | .write i ok => stepWrite st s i ok
  | .delete i =>
      match s.pc i with
      | .startFailed c => some ((s.goTo i (.removed c)).setMu i none)
      | _ => none
  | .closeConn i => stepCloseConn s i
  | .closeSession i =>
      match s.pc i with
      | .notStarted | .writeFailed => some ((s.goTo i .reading).closeSession i)
      | .readFailed => some ((s.goTo i .ending).closeSession i)
      | _ => none
  | .read i f => if s.pc i = .reading then some ((s.goTo i (.got f)).hear i f) else none
  | .readFails i => if s.pc i = .reading then some (s.goTo i .readFailed) else none
  | .load i =>
      match s.pc i, s.mu i with
      | .got _, none => some (s.goTo i .reading)
      | .got f, some c => some (s.goTo i (.forwarding f c))
      | _, _ => none
  | .loadAndDelete i =>
      if s.pc i = .ending then
        match s.mu i with
        | none => some (s.goTo i .returned)
        | some c => some ((s.goTo i (.stopping c)).setMu i none)
      else none
  | .agentReads c f =>
      match s.conns c with
      | some k =>
          if k.beingRead then
            some (s.setConn c { k with reactions := k.reactions ++ [readFromAgent st.ESL.isSome
              st.bus st.unmarshal st.unmarshalMap (st.session k.session) f] })
          else none
      | none => none
  | .agentReadFails c =>
      match s.conns c with
      | some k =>
          if k.beingRead then
            some ((s.setConn c { k with beingRead := false }).closeSession k.session)
          else none
      | none => none
  | .closeElsewhere i => some (s.closeSession i)

/-- No session has been given to the forwarder. -/
def initial : State where
  pc := fun _ => .starting
  frames := fun _ => []
  closed := fun _ => false
  mu := fun _ => none
  conns := fun _ => none

def machine : Machine State Act where
  init := initial
  step := step st

end Step

-- ============================================================================
-- What is to be written
-- ============================================================================

/-- The frame of a module's frame, if it has one. -/
def forwarded (s : SessionInfo) : Frame → Option AgentFrame
  | .binary pcm => some (.binary pcm)
  | .text data => if JsonScan.valid data then some (.text (metadataMessage s data)) else none

/-- The frames up to the end of the session. -/
def opened (s : SessionInfo) (ci : CallInfo) (fs : List Frame) : List AgentFrame :=
  .text (startMessage s ci) :: fs.filterMap (forwarded s)

/-- The frames of a whole session whose module has sent `fs`. -/
def trace (s : SessionInfo) (ci : CallInfo) (fs : List Frame) : List AgentFrame :=
  opened s ci fs ++ [.text (stopMessage s)]

section Property

variable (st : Setting)

/-- What every agent connection has been sent, and how often it has been closed. -/
structure TraceOk (s : State) : Prop where
  ordered : ∀ c k, s.conns c = some k →
    k.written <+: trace (st.session k.session) k.info (s.frames k.session)
  whole : ∀ c k, s.conns c = some k → s.pc k.session = .returned → k.failed = false →
    k.written = trace (st.session k.session) k.info (s.frames k.session)
  once : ∀ c k, s.conns c = some k →
    k.closes ≤ 1 ∧ (s.pc k.session = .returned → k.closes = 1)
  unreachable : ∀ c k, s.conns c = some k → 0 < k.closes → ∀ i, s.mu i ≠ some c

/-- Nothing is written after the `stop`. -/
def NothingAfterStop (s s' : State) : Prop :=
  ∀ c k, s.conns c = some k → .text (stopMessage (st.session k.session)) ∈ k.written →
    ∃ k', s'.conns c = some k' ∧ k'.written = k.written

/-- No Write succeeds for an empty text of a module. -/
def EmptyTextGuard (s : State) : Act → Prop
  | .write i ok => ok = true → (s.pc i).forwardsEmpty = false
  | _ => True

instance (s : State) : (a : Act) → Decidable (EmptyTextGuard s a)
  | .write i ok => inferInstanceAs (Decidable (ok = true → (s.pc i).forwardsEmpty = false))
  | .dial .. | .store _ | .delete _ | .closeConn _ | .closeSession _ | .read .. | .readFails _
  | .load _ | .loadAndDelete _ | .agentReads .. | .agentReadFails _ | .closeElsewhere _ =>
      .isTrue trivial

end Property

-- ============================================================================
-- What a step can do
-- ============================================================================

/-- A step, with the guards of its branch. -/
inductive Move (st : Setting) (s : State) : Act → State → Prop where
  | panics (i : Nat) (dump : Except Unit Bytes) (urlParsed : Bool) (dialed : Option Nat)
      (hpc : s.pc i = .starting) : Move st s (.dial i dump urlParsed dialed) (s.goTo i .panicked)
  | notDialed (i : Nat) (dump : Except Unit Bytes) (urlParsed : Bool) (dialed : Option Nat)
      (hpc : s.pc i = .starting) :
      Move st s (.dial i dump urlParsed dialed) (s.goTo i .notStarted)
  | dials (i : Nat) (dump : Except Unit Bytes) (urlParsed : Bool) (dialed : Option Nat) (c : Nat)
      (ci : CallInfo) (hpc : s.pc i = .starting) (hnew : s.conns c = none) :
      Move st s (.dial i dump urlParsed dialed) ((s.goTo i (.dialed c)).setConn c (.dial i ci))
  | stores (i c : Nat) (hpc : s.pc i = .dialed c) :
      Move st s (.store i) ((s.goTo i (.stored c)).setMu i (some c))
  | starts (i c : Nat) (k : Conn) (hpc : s.pc i = .stored c) (hk : s.conns c = some k)
      (hok : k.failed = false) :
      Move st s (.write i true) ((s.goTo i .reading).setConn c
        { k.sent (.text (startMessage (st.session i) k.info)) with beingRead := true })
  | startFails (i c : Nat) (k : Conn) (hpc : s.pc i = .stored c) (hk : s.conns c = some k) :
      Move st s (.write i false) ((s.goTo i (.startFailed c)).setConn c k.fail)
  | deletes (i c : Nat) (hpc : s.pc i = .startFailed c) :
      Move st s (.delete i) ((s.goTo i (.removed c)).setMu i none)
  | closesFailed (i c : Nat) (k : Conn) (hpc : s.pc i = .removed c) (hk : s.conns c = some k) :
      Move st s (.closeConn i) ((s.goTo i .notStarted).setConn c k.close)
  | closes (i c : Nat) (k : Conn) (hpc : s.pc i = .closing c) (hk : s.conns c = some k) :
      Move st s (.closeConn i) ((s.goTo i .returned).setConn c k.close)
  | goesOn (i : Nat) (hpc : s.pc i = .notStarted ∨ s.pc i = .writeFailed) :
      Move st s (.closeSession i) ((s.goTo i .reading).closeSession i)
  | ends (i : Nat) (hpc : s.pc i = .readFailed) :
      Move st s (.closeSession i) ((s.goTo i .ending).closeSession i)
  | reads (i : Nat) (f : Frame) (hpc : s.pc i = .reading) :
      Move st s (.read i f) ((s.goTo i (.got f)).hear i f)
  | readFails (i : Nat) (hpc : s.pc i = .reading) :
      Move st s (.readFails i) (s.goTo i .readFailed)
  | loadsNothing (i : Nat) (f : Frame) (hpc : s.pc i = .got f) (hmu : s.mu i = none) :
      Move st s (.load i) (s.goTo i .reading)
  | loads (i c : Nat) (f : Frame) (hpc : s.pc i = .got f) (hmu : s.mu i = some c) :
      Move st s (.load i) (s.goTo i (.forwarding f c))
  | forwards (i c : Nat) (f : Frame) (k : Conn) (af : AgentFrame)
      (hpc : s.pc i = .forwarding f c) (hk : s.conns c = some k)
      (hf : outgoing (st.session i) f = some af) (hok : k.failed = false) :
      Move st s (.write i true) ((s.goTo i .reading).setConn c (k.sent af))
  | forwardFails (i c : Nat) (f : Frame) (k : Conn) (af : AgentFrame)
      (hpc : s.pc i = .forwarding f c) (hk : s.conns c = some k)
      (hf : outgoing (st.session i) f = some af) :
      Move st s (.write i false) ((s.goTo i (afterFailure f)).setConn c k.fail)
  | notMarshalled (i c : Nat) (ok : Bool) (f : Frame) (hpc : s.pc i = .forwarding f c)
      (hf : outgoing (st.session i) f = none) : Move st s (.write i ok) (s.goTo i .reading)
  | endsUnstarted (i : Nat) (hpc : s.pc i = .ending) (hmu : s.mu i = none) :
      Move st s (.loadAndDelete i) (s.goTo i .returned)
  | takes (i c : Nat) (hpc : s.pc i = .ending) (hmu : s.mu i = some c) :
      Move st s (.loadAndDelete i) ((s.goTo i (.stopping c)).setMu i none)
  | stops (i c : Nat) (k : Conn) (hpc : s.pc i = .stopping c) (hk : s.conns c = some k)
      (hok : k.failed = false) :
      Move st s (.write i true) ((s.goTo i (.closing c)).setConn c
        (k.sent (.text (stopMessage (st.session i)))))
  | stopFails (i c : Nat) (k : Conn) (hpc : s.pc i = .stopping c) (hk : s.conns c = some k) :
      Move st s (.write i false) ((s.goTo i (.closing c)).setConn c k.fail)
  | reacts (c : Nat) (f : Frame) (k : Conn) (reactions : List AgentReaction)
      (hk : s.conns c = some k) :
      Move st s (.agentReads c f) (s.setConn c { k with reactions := reactions })
  | agentReadFails (c : Nat) (k : Conn) (hk : s.conns c = some k) :
      Move st s (.agentReadFails c)
        ((s.setConn c { k with beingRead := false }).closeSession k.session)
  | closesElsewhere (i : Nat) : Move st s (.closeElsewhere i) (s.closeSession i)

theorem Conn.write_eq_some {k k' : Conn} {f : AgentFrame} {ok : Bool}
    (h : k.write f ok = some k') :
    (ok = true ∧ k.failed = false ∧ k' = k.sent f) ∨ (ok = false ∧ k' = k.fail) := by
  cases ok with
  | true =>
      rw [write, if_pos rfl] at h
      cases hfailed : k.failed with
      | true => exact absurd h (by simp [hfailed])
      | false =>
          simp only [hfailed, Bool.false_eq_true, if_false, Option.some.injEq] at h
          exact .inl ⟨rfl, rfl, h.symm⟩
  | false => exact .inr ⟨rfl, (Option.some.inj h).symm⟩

theorem move_of_stepWrite {st : Setting} {s s' : State} {i : Nat} {ok : Bool}
    (h : stepWrite st s i ok = some s') : Move st s (.write i ok) s' := by
  unfold stepWrite at h
  split at h
  · rename_i c hpc
    split at h
    · exact absurd h (by simp)
    · rename_i k hk
      rw [marshal_start] at h
      obtain ⟨k', hwrite, rfl⟩ := Option.map_eq_some_iff.mp h
      rcases Conn.write_eq_some hwrite with ⟨rfl, hok, rfl⟩ | ⟨rfl, rfl⟩
      · exact .starts i c k hpc hk hok
      · exact .startFails i c k hpc hk
  · rename_i f c hpc
    split at h
    · rename_i k af hk hf
      obtain ⟨k', hwrite, rfl⟩ := Option.map_eq_some_iff.mp h
      rcases Conn.write_eq_some hwrite with ⟨rfl, hok, rfl⟩ | ⟨rfl, rfl⟩
      · exact .forwards i c f k af hpc hk hf hok
      · exact .forwardFails i c f k af hpc hk hf
    · rename_i hk hf
      cases h
      exact .notMarshalled i c ok f hpc hf
    · exact absurd h (by simp)
  · rename_i c hpc
    rw [marshal_stop] at h
    split at h
    · rename_i k f hk hf
      cases hf
      obtain ⟨k', hwrite, rfl⟩ := Option.map_eq_some_iff.mp h
      rcases Conn.write_eq_some hwrite with ⟨rfl, hok, rfl⟩ | ⟨rfl, rfl⟩
      · exact .stops i c k hpc hk hok
      · exact .stopFails i c k hpc hk
    · exact absurd h (by simp)
  · exact absurd h (by simp)

theorem move_of_stepCloseConn {st : Setting} {s s' : State} {i : Nat}
    (h : stepCloseConn s i = some s') : Move st s (.closeConn i) s' := by
  unfold stepCloseConn at h
  split at h
  · rename_i c hpc
    obtain ⟨k, hk, rfl⟩ := Option.map_eq_some_iff.mp h
    exact .closesFailed i c k hpc hk
  · rename_i c hpc
    obtain ⟨k, hk, rfl⟩ := Option.map_eq_some_iff.mp h
    exact .closes i c k hpc hk
  · exact absurd h (by simp)

theorem move_of_step {st : Setting} {s s' : State} {a : Act} (h : step st s a = some s') :
    Move st s a s' := by
  cases a with
  | dial i dump urlParsed dialed =>
      obtain ⟨hpc, h⟩ := Option.ite_none_right_eq_some.mp h
      split at h
      · cases h
        exact .panics i dump urlParsed dialed hpc
      · rename_i ci hci
        split at h
        · cases h
          exact .notDialed i dump urlParsed dialed hpc
        · rename_i c hdialed
          split at h
          · rename_i hnew
            cases h
            exact .dials i dump urlParsed dialed c ci hpc hnew
          · exact absurd h (by simp)
  | store i =>
      simp only [step] at h
      split at h
      · rename_i c hpc
        cases h
        exact .stores i c hpc
      · exact absurd h (by simp)
  | write i ok => exact move_of_stepWrite h
  | delete i =>
      simp only [step] at h
      split at h
      · rename_i c hpc
        cases h
        exact .deletes i c hpc
      · exact absurd h (by simp)
  | closeConn i => exact move_of_stepCloseConn h
  | closeSession i =>
      simp only [step] at h
      split at h
      · rename_i hpc
        cases h
        exact .goesOn i (.inl hpc)
      · rename_i hpc
        cases h
        exact .goesOn i (.inr hpc)
      · rename_i hpc
        cases h
        exact .ends i hpc
      · exact absurd h (by simp)
  | read i f =>
      obtain ⟨hpc, h⟩ := Option.ite_none_right_eq_some.mp h
      cases h
      exact .reads i f hpc
  | readFails i =>
      obtain ⟨hpc, h⟩ := Option.ite_none_right_eq_some.mp h
      cases h
      exact .readFails i hpc
  | load i =>
      simp only [step] at h
      split at h
      · rename_i f hpc hmu
        cases h
        exact .loadsNothing i f hpc hmu
      · rename_i f c hpc hmu
        cases h
        exact .loads i c f hpc hmu
      · exact absurd h (by simp)
  | loadAndDelete i =>
      obtain ⟨hpc, h⟩ := Option.ite_none_right_eq_some.mp h
      split at h
      · rename_i hmu
        cases h
        exact .endsUnstarted i hpc hmu
      · rename_i c hmu
        cases h
        exact .takes i c hpc hmu
  | agentReads c f =>
      simp only [step] at h
      split at h
      · rename_i k hk
        obtain ⟨-, h⟩ := Option.ite_none_right_eq_some.mp h
        cases h
        exact .reacts c f k _ hk
      · exact absurd h (by simp)
  | agentReadFails c =>
      simp only [step] at h
      split at h
      · rename_i k hk
        obtain ⟨-, h⟩ := Option.ite_none_right_eq_some.mp h
        cases h
        exact .agentReadFails c k hk
      · exact absurd h (by simp)
  | closeElsewhere i =>
      cases h
      exact .closesElsewhere i

-- ============================================================================
-- What is written, frame by frame
-- ============================================================================

theorem opened_append (s : SessionInfo) (ci : CallInfo) (done : List Frame) (f : Frame) :
    opened s ci (done ++ [f]) = opened s ci done ++ (forwarded s f).toList := by
  cases hf : forwarded s f <;> simp [opened, hf]

theorem opened_le_append (s : SessionInfo) (ci : CallInfo) (done : List Frame) (f : Frame) :
    opened s ci done <+: opened s ci (done ++ [f]) :=
  ⟨_, (opened_append s ci done f).symm⟩

/-- A frame other than the empty text is written as the module sent it. -/
theorem outgoing_eq_forwarded (s : SessionInfo) {f : Frame} (h : f ≠ .text []) :
    outgoing s f = forwarded s f := by
  cases f with
  | binary pcm => rfl
  | text data => exact marshal_metadata s fun hdata => h (congrArg Frame.text hdata)

theorem forwarded_ne_stop {s : SessionInfo} {f : Frame} {af : AgentFrame}
    (h : forwarded s f = some af) : af ≠ .text (stopMessage s) := by
  cases f with
  | binary pcm =>
      cases h
      exact fun h => nomatch h
  | text data =>
      obtain ⟨-, h⟩ := Option.ite_none_right_eq_some.mp h
      cases h
      exact fun h => metadata_ne_stop s data (AgentFrame.text.inj h)

theorem stop_not_mem_opened (s : SessionInfo) (ci : CallInfo) (fs : List Frame) :
    .text (stopMessage s) ∉ opened s ci fs := by
  intro h
  rcases List.mem_cons.mp h with h | h
  · exact start_ne_stop s ci (AgentFrame.text.inj h).symm
  · obtain ⟨f, -, hf⟩ := List.mem_filterMap.mp h
    exact forwarded_ne_stop hf rfl

-- ============================================================================
-- The place of the goroutine and its connection
-- ============================================================================

/-- `expected` has been written, or, once a Write has failed, a part of its front. -/
structure Upto (expected written : List AgentFrame) (failed : Bool) : Prop where
  front : written <+: expected
  all : failed = false → written = expected

theorem Upto.snoc {expected written : List AgentFrame} (h : Upto expected written false)
    (f : AgentFrame) : Upto (expected ++ [f]) (written ++ [f]) false := by
  rw [h.all rfl]
  exact ⟨List.prefix_refl _, fun _ => rfl⟩

theorem Upto.fail {expected expected' written : List AgentFrame} {failed : Bool}
    (h : Upto expected written failed) (hle : expected <+: expected') :
    Upto expected' written true :=
  ⟨h.front.trans hle, fun h => nomatch h⟩

/-- The connection of a session whose OnStart has returned and whose frames `done` have
    been forwarded; `m` is the session's entry in the map. -/
def Running (s : SessionInfo) (m : Option Nat) (done : List Frame) (c : Nat) (k : Conn) : Prop :=
  (m = none ∧ k.written = [] ∧ k.failed = true ∧ k.closes = 1) ∨
    (m = some c ∧ Upto (opened s k.info done) k.written k.failed ∧ k.closes = 0)

/-- A connection of a session whose goroutine is at the place and whose module has sent
    `fs`. -/
def Fits (s : SessionInfo) (m : Option Nat) (fs : List Frame) (c : Nat) (k : Conn) : Pc → Prop
  | .starting => False
  | .dialed c' => c' = c ∧ m = none ∧ k.written = [] ∧ k.closes = 0 ∧ fs = []
  | .stored c' => c' = c ∧ m = some c ∧ k.written = [] ∧ k.closes = 0 ∧ fs = []
  | .startFailed c' =>
      c' = c ∧ m = some c ∧ k.written = [] ∧ k.failed = true ∧ k.closes = 0
  | .removed c' => c' = c ∧ m = none ∧ k.written = [] ∧ k.failed = true ∧ k.closes = 0
  | .notStarted => m = none ∧ k.written = [] ∧ k.failed = true ∧ k.closes = 1
  | .reading | .writeFailed | .readFailed | .ending => Running s m fs c k
  | .got f => ∃ done, fs = done ++ [f] ∧ Running s m done c k
  | .forwarding f c' => c' = c ∧ m = some c ∧ k.closes = 0 ∧
      ∃ done, fs = done ++ [f] ∧ Upto (opened s k.info done) k.written k.failed
  | .stopping c' => c' = c ∧ m = none ∧ Upto (opened s k.info fs) k.written k.failed ∧ k.closes = 0
  | .closing c' => c' = c ∧ m = none ∧ Upto (trace s k.info fs) k.written k.failed ∧ k.closes = 0
  | .returned => m = none ∧ Upto (trace s k.info fs) k.written k.failed ∧ k.closes = 1
  | .panicked => False

theorem Upto.of_unstarted {expected written : List AgentFrame} {failed : Bool}
    (hwritten : written = []) (hfailed : failed = true) : Upto expected written failed := by
  rw [hwritten, hfailed]
  exact ⟨List.nil_prefix, fun h => nomatch h⟩

theorem Fits.conn_eq {s : SessionInfo} {m : Option Nat} {fs : List Frame} {c c' : Nat} {k : Conn}
    {pc : Pc} (h : Fits s m fs c k pc) (hpc : pc.conn = some c') : c' = c := by
  cases pc with
  | dialed | stored | startFailed | removed | forwarding | stopping | closing =>
      exact (Option.some.inj hpc).symm.trans h.1
  | _ => exact absurd hpc (by simp [Pc.conn])

/-- Only what has been written and whether it has been closed matters. -/
theorem Fits.congr {s : SessionInfo} {m : Option Nat} {fs : List Frame} {c : Nat} {k : Conn}
    {pc : Pc} (h : Fits s m fs c k pc) (beingRead : Bool) (reactions : List AgentReaction) :
    Fits s m fs c { k with beingRead := beingRead, reactions := reactions } pc := by
  cases pc <;> exact h

structure Inv (st : Setting) (s : State) : Prop where
  fits : ∀ c k, s.conns c = some k →
    Fits (st.session k.session) (s.mu k.session) (s.frames k.session) c k (s.pc k.session)
  held : ∀ i c, (s.pc i).conn = some c ∨ s.mu i = some c →
    ∃ k, s.conns c = some k ∧ k.session = i
  unread : ∀ i, s.pc i = .starting → s.frames i = []

section Preservation

variable {st : Setting} {s s' : State} {i : Nat}

/-- A step of one session, its connections apart, leaves the others as they are. -/
theorem Inv.update (h : Inv st s)
    (hother : ∀ j, j ≠ i → s'.pc j = s.pc j ∧ s'.frames j = s.frames j ∧ s'.mu j = s.mu j)
    (hconns : ∀ c k, s'.conns c = some k → k.session ≠ i → s.conns c = some k)
    (hkept : ∀ c k, s.conns c = some k → ∃ k', s'.conns c = some k' ∧ k'.session = k.session)
    (hfits : ∀ c k, s'.conns c = some k → k.session = i →
      Fits (st.session i) (s'.mu i) (s'.frames i) c k (s'.pc i))
    (hheld : ∀ c, (s'.pc i).conn = some c ∨ s'.mu i = some c →
      ∃ k, s'.conns c = some k ∧ k.session = i)
    (hunread : s'.pc i = .starting → s'.frames i = []) : Inv st s' := by
  refine ⟨fun c k hk => ?_, fun j c hj => ?_, fun j hj => ?_⟩
  · by_cases hsession : k.session = i
    · have := hfits c k hk hsession
      rwa [hsession]
    · obtain ⟨hpc, hframes, hmu⟩ := hother k.session hsession
      rw [hpc, hframes, hmu]
      exact h.fits c k (hconns c k hk hsession)
  · by_cases hji : j = i
    · subst hji
      exact hheld c hj
    · obtain ⟨hpc, -, hmu⟩ := hother j hji
      rw [hpc, hmu] at hj
      obtain ⟨k, hk, hsession⟩ := h.held j c hj
      obtain ⟨k', hk', hsame⟩ := hkept c k hk
      exact ⟨k', hk', hsame.trans hsession⟩
  · by_cases hji : j = i
    · subst hji
      exact hunread hj
    · obtain ⟨hpc, hframes, -⟩ := hother j hji
      rw [hframes]
      exact h.unread j (hpc ▸ hj)

/-- A step of one session that leaves all connections as they are. -/
theorem Inv.goes (h : Inv st s)
    (hother : ∀ j, j ≠ i → s'.pc j = s.pc j ∧ s'.frames j = s.frames j ∧ s'.mu j = s.mu j)
    (hconns : s'.conns = s.conns)
    (hfits : ∀ c k, Fits (st.session i) (s.mu i) (s.frames i) c k (s.pc i) →
      Fits (st.session i) (s'.mu i) (s'.frames i) c k (s'.pc i))
    (hheld : ∀ c, (s'.pc i).conn = some c ∨ s'.mu i = some c →
      (s.pc i).conn = some c ∨ s.mu i = some c)
    (hleft : s'.pc i ≠ .starting) : Inv st s' := by
  refine h.update hother (fun c k hk _ => hconns ▸ hk) (fun c k hk => ⟨k, hconns ▸ hk, rfl⟩)
    (fun c k hk hsession => ?_) (fun c hc => hconns ▸ h.held i c (hheld c hc))
    (fun hpc => absurd hpc hleft)
  have hold := h.fits c k (hconns ▸ hk)
  rw [hsession] at hold
  exact hfits c k hold

theorem Inv.own (h : Inv st s) {c : Nat} {k : Conn} (hpc : (s.pc i).conn = some c)
    (hk : s.conns c = some k) :
    k.session = i ∧ Fits (st.session i) (s.mu i) (s.frames i) c k (s.pc i) := by
  obtain ⟨k', hk', hsession⟩ := h.held i c (.inl hpc)
  obtain rfl : k' = k := Option.some.inj (hk'.symm.trans hk)
  have hfits := h.fits c k' hk'
  rw [hsession] at hfits
  exact ⟨hsession, hfits⟩

/-- A step of a session on the connection its goroutine holds. -/
theorem Inv.uses (h : Inv st s) {c : Nat} {k k' : Conn} {pc : Pc} (hleft : pc ≠ .starting)
    (hpc : (s.pc i).conn = some c) (hk : s.conns c = some k) (hsession : k'.session = k.session)
    (hfits : Fits (st.session i) (s.mu i) (s.frames i) c k (s.pc i) →
      Fits (st.session i) (s.mu i) (s.frames i) c k' pc)
    (hheld : ∀ c', pc.conn = some c' → c' = c) : Inv st ((s.goTo i pc).setConn c k') := by
  obtain ⟨hown, hold⟩ := h.own hpc hk
  have hself := (s.goTo i pc).conns_setConn_self c k'
  have hne : ∀ d, d ≠ c → ((s.goTo i pc).setConn c k').conns d = s.conns d := fun d hd =>
    (s.goTo i pc).conns_setConn_of_ne k' hd
  have hpc' : ((s.goTo i pc).setConn c k').pc i = pc := s.pc_goTo_self i pc
  refine h.update (fun j hj => ⟨Function.update_of_ne hj .., rfl, rfl⟩) (fun d l hl hne' => ?_)
    (fun d l hl => ?_) (fun d l hl hd => ?_) (fun c' hc' => ?_)
    (fun hstart => absurd (hpc'.symm.trans hstart) hleft)
  · by_cases hdc : d = c
    · subst hdc
      obtain rfl : k' = l := Option.some.inj (hself.symm.trans hl)
      exact absurd (hsession.trans hown) hne'
    · exact (hne d hdc).symm.trans hl
  · by_cases hdc : d = c
    · subst hdc
      obtain rfl : k = l := Option.some.inj (hk.symm.trans hl)
      exact ⟨k', hself, hsession⟩
    · exact ⟨l, (hne d hdc).trans hl, rfl⟩
  · rw [hpc']
    by_cases hdc : d = c
    · subst hdc
      obtain rfl : k' = l := Option.some.inj (hself.symm.trans hl)
      exact hfits hold
    · have hfits' := h.fits d l ((hne d hdc).symm.trans hl)
      rw [hd] at hfits'
      exact absurd (hfits'.conn_eq hpc).symm hdc
  · obtain rfl : c' = c := by
      rcases hc' with hc' | hc'
      · exact hheld c' (hpc' ▸ hc')
      · obtain ⟨l, hl, hl'⟩ := h.held i c' (.inr hc')
        have hfits' := h.fits c' l hl
        rw [hl'] at hfits'
        exact (hfits'.conn_eq hpc).symm
    exact ⟨k', hself, hsession.trans hown⟩

/-- The goroutine of one session goes on, and nothing else changes. -/
theorem Inv.goTo (h : Inv st s) {pc : Pc} (hleft : pc ≠ .starting)
    (hfits : ∀ c k, Fits (st.session i) (s.mu i) (s.frames i) c k (s.pc i) →
      Fits (st.session i) (s.mu i) (s.frames i) c k pc)
    (hheld : ∀ c, pc.conn = some c → s.mu i = some c) : Inv st (s.goTo i pc) := by
  have hpc : (s.goTo i pc).pc i = pc := s.pc_goTo_self i pc
  refine h.goes (i := i) (fun j hj => ⟨Function.update_of_ne hj .., rfl, rfl⟩) rfl
    (fun c k hk => ?_) (fun c hc => .inr ?_) (fun hstart => hleft (hpc.symm.trans hstart))
  · rw [hpc]
    exact hfits c k hk
  · rw [hpc] at hc
    exact hc.elim (hheld c) id

/-- The goroutine of one session goes on, and changes its entry in the map. -/
theorem Inv.remaps (h : Inv st s) {pc : Pc} {m : Option Nat} (hleft : pc ≠ .starting)
    (hfits : ∀ c k, Fits (st.session i) (s.mu i) (s.frames i) c k (s.pc i) →
      Fits (st.session i) m (s.frames i) c k pc)
    (hheld : ∀ c, pc.conn = some c ∨ m = some c →
      (s.pc i).conn = some c ∨ s.mu i = some c) : Inv st ((s.goTo i pc).setMu i m) := by
  have hpc : ((s.goTo i pc).setMu i m).pc i = pc := s.pc_goTo_self i pc
  have hmu : ((s.goTo i pc).setMu i m).mu i = m := Function.update_self ..
  refine h.goes (i := i)
    (fun j hj => ⟨Function.update_of_ne hj .., rfl, Function.update_of_ne hj ..⟩) rfl
    (fun c k hk => ?_) (fun c hc => ?_) (fun hstart => hleft (hpc.symm.trans hstart))
  · rw [hpc, hmu]
    exact hfits c k hk
  · rw [hpc, hmu] at hc
    exact hheld c hc

theorem Inv.closeSession (h : Inv st s) (j : Nat) : Inv st (s.closeSession j) :=
  ⟨h.fits, h.held, h.unread⟩

theorem Inv.initial : Inv st initial where
  fits _ _ hk := nomatch hk
  held _ _ h := by
    rcases h with h | h
    · exact nomatch h
    · exact nomatch h
  unread _ _ := rfl

/-- `readFromAgent` changes nothing the forwarder writes by. -/
theorem Inv.reads (h : Inv st s) {c : Nat} {k : Conn} (hk : s.conns c = some k)
    (beingRead : Bool) (reactions : List AgentReaction) :
    Inv st (s.setConn c { k with beingRead := beingRead, reactions := reactions }) := by
  have hself := s.conns_setConn_self c { k with beingRead := beingRead, reactions := reactions }
  have hne : ∀ d, d ≠ c → (s.setConn c { k with
      beingRead := beingRead, reactions := reactions }).conns d = s.conns d := fun d hd =>
    s.conns_setConn_of_ne _ hd
  refine h.update (i := k.session) (fun j _ => ⟨rfl, rfl, rfl⟩) (fun d l hl hother => ?_)
    (fun d l hl => ?_) (fun d l hl hd => ?_) (fun d hd => ?_) (h.unread k.session)
  · by_cases hdc : d = c
    · subst hdc
      obtain rfl := Option.some.inj (hself.symm.trans hl)
      exact absurd rfl hother
    · exact (hne d hdc).symm.trans hl
  · by_cases hdc : d = c
    · subst hdc
      obtain rfl : k = l := Option.some.inj (hk.symm.trans hl)
      exact ⟨_, hself, rfl⟩
    · exact ⟨l, (hne d hdc).trans hl, rfl⟩
  · by_cases hdc : d = c
    · subst hdc
      obtain rfl := Option.some.inj (hself.symm.trans hl)
      exact (h.fits d k hk).congr beingRead reactions
    · have hfits := h.fits d l ((hne d hdc).symm.trans hl)
      rwa [hd] at hfits
  · obtain ⟨l, hl, hsession⟩ := h.held k.session d hd
    by_cases hdc : d = c
    · subst hdc
      obtain rfl : k = l := Option.some.inj (hk.symm.trans hl)
      exact ⟨_, hself, rfl⟩
    · exact ⟨l, (hne d hdc).trans hl, hsession⟩

/-- OnStart has its connection. -/
theorem Inv.dials (h : Inv st s) {c : Nat} (ci : CallInfo) (hpc : s.pc i = .starting)
    (hnew : s.conns c = none) : Inv st ((s.goTo i (.dialed c)).setConn c (.dial i ci)) := by
  have hpc' : ((s.goTo i (.dialed c)).setConn c (.dial i ci)).pc i = .dialed c :=
    s.pc_goTo_self i (.dialed c)
  have hself := (s.goTo i (.dialed c)).conns_setConn_self c (.dial i ci)
  have hne : ∀ d, d ≠ c →
      ((s.goTo i (.dialed c)).setConn c (.dial i ci)).conns d = s.conns d := fun d hd =>
    (s.goTo i (.dialed c)).conns_setConn_of_ne (.dial i ci) hd
  -- the session has no connection before
  have hfirst : ∀ d l, s.conns d = some l → l.session ≠ i := by
    intro d l hl hsession
    have hfits := h.fits d l hl
    rw [hsession, hpc] at hfits
    exact hfits
  have hmu : s.mu i = none := by
    cases hmu : s.mu i with
    | none => rfl
    | some d =>
        obtain ⟨l, hl, hsession⟩ := h.held i d (.inr hmu)
        exact absurd hsession (hfirst d l hl)
  refine h.update (i := i) (fun j hj => ⟨Function.update_of_ne hj .., rfl, rfl⟩)
    (fun d l hl hl' => ?_) (fun d l hl => ?_) (fun d l hl hd => ?_) (fun d hd => ?_)
    (fun hstart => nomatch hpc'.symm.trans hstart)
  · by_cases hdc : d = c
    · subst hdc
      obtain rfl : Conn.dial i ci = l := Option.some.inj (hself.symm.trans hl)
      exact absurd rfl hl'
    · exact (hne d hdc).symm.trans hl
  · have hdc : d ≠ c := fun hdc => by
      rw [hdc, hnew] at hl
      exact nomatch hl
    exact ⟨l, (hne d hdc).trans hl, rfl⟩
  · rw [hpc']
    by_cases hdc : d = c
    · subst hdc
      obtain rfl : Conn.dial i ci = l := Option.some.inj (hself.symm.trans hl)
      exact ⟨rfl, hmu, rfl, rfl, h.unread i hpc⟩
    · exact absurd hd (hfirst d l ((hne d hdc).symm.trans hl))
  · obtain rfl : d = c := by
      rcases hd with hd | hd
      · rw [hpc'] at hd
        exact (Option.some.inj hd).symm
      · exact absurd (hmu.symm.trans hd) (by simp)
    exact ⟨_, hself, rfl⟩

end Preservation

-- ============================================================================
-- A step keeps the invariant
-- ============================================================================

/-- After a Write on a connection on which none has failed, everything has been
    written up to this frame. -/
theorem Upto.sent {s : SessionInfo} {ci : CallInfo} {done : List Frame} {f : Frame}
    {written : List AgentFrame} {af : AgentFrame} (h : Upto (opened s ci done) written false)
    (hf : forwarded s f = some af) :
    Upto (opened s ci (done ++ [f])) (written ++ [af]) false := by
  rw [opened_append, hf]
  exact h.snoc af

theorem Upto.skipped {s : SessionInfo} {ci : CallInfo} {done : List Frame} {f : Frame}
    {written : List AgentFrame} {failed : Bool} (h : Upto (opened s ci done) written failed)
    (hf : forwarded s f = none) : Upto (opened s ci (done ++ [f])) written failed := by
  rwa [opened_append, hf, Option.toList_none, List.append_nil]

theorem afterFailure_ne_starting (f : Frame) : afterFailure f ≠ .starting := by
  cases f <;> simp [afterFailure]

theorem conn_afterFailure (f : Frame) : (afterFailure f).conn = none := by
  cases f <;> rfl

theorem Fits.afterFailure {s : SessionInfo} {m : Option Nat} {fs : List Frame} {c : Nat} {k : Conn}
    (h : Running s m fs c k) (f : Frame) : Fits s m fs c k (afterFailure f) := by
  cases f with
  | binary pcm => exact h
  | text data => exact h

theorem Inv.reads_frame {st : Setting} {s : State} {i : Nat} (h : Inv st s)
    (hpc : s.pc i = .reading) (f : Frame) : Inv st ((s.goTo i (.got f)).hear i f) := by
  have hpc' : ((s.goTo i (.got f)).hear i f).pc i = .got f := s.pc_goTo_self i (.got f)
  have hframes : ((s.goTo i (.got f)).hear i f).frames i = s.frames i ++ [f] :=
    Function.update_self ..
  refine h.goes (i := i)
    (fun j hj => ⟨Function.update_of_ne hj .., Function.update_of_ne hj .., rfl⟩) rfl
    (fun c k hk => ?_) (fun c hc => .inr ?_) (fun hstart => nomatch hpc'.symm.trans hstart)
  · rw [hpc] at hk
    rw [hpc', hframes]
    exact ⟨s.frames i, rfl, hk⟩
  · rw [hpc'] at hc
    exact hc.elim (fun hc => nomatch hc) id

theorem Move.inv {st : Setting} {s s' : State} {a : Act} (h : Inv st s)
    (hguard : EmptyTextGuard s a) (hmove : Move st s a s') : Inv st s' := by
  cases hmove with
  | panics i dump urlParsed dialed hpc =>
      refine h.goTo (by simp) (fun c k hk => ?_) (fun c hc => nomatch hc)
      rw [hpc] at hk
      exact hk
  | notDialed i dump urlParsed dialed hpc =>
      refine h.goTo (by simp) (fun c k hk => ?_) (fun c hc => nomatch hc)
      rw [hpc] at hk
      exact hk.elim
  | dials i dump urlParsed dialed c ci hpc hnew => exact h.dials ci hpc hnew
  | stores i c hpc =>
      refine h.remaps (by simp) (fun d k hk => ?_) (fun d hd => .inl ?_)
      · rw [hpc] at hk
        obtain ⟨rfl, -, hrest⟩ := hk
        exact ⟨rfl, rfl, hrest⟩
      · rw [hpc]
        exact hd.elim id id
  | starts i c k hpc hk hok =>
      refine h.uses (by simp) (by rw [hpc]; rfl) hk rfl (fun hfits => ?_) (fun d hd => nomatch hd)
      rw [hpc] at hfits
      obtain ⟨-, hmu, hwritten, hcloses, hframes⟩ := hfits
      refine .inr ⟨hmu, ?_, hcloses⟩
      show Upto (opened _ k.info _) (k.written ++ [_]) k.failed
      rw [hwritten, hframes]
      exact ⟨List.prefix_refl _, fun _ => rfl⟩
  | startFails i c k hpc hk =>
      refine h.uses (by simp) (by rw [hpc]; rfl) hk rfl (fun hfits => ?_)
        (fun d hd => (Option.some.inj hd).symm)
      rw [hpc] at hfits
      obtain ⟨-, hmu, hwritten, hcloses, -⟩ := hfits
      exact ⟨rfl, hmu, hwritten, rfl, hcloses⟩
  | deletes i c hpc =>
      refine h.remaps (by simp) (fun d k hk => ?_) (fun d hd => .inl ?_)
      · rw [hpc] at hk
        obtain ⟨rfl, -, hrest⟩ := hk
        exact ⟨rfl, rfl, hrest⟩
      · rw [hpc]
        exact hd.elim id (fun hd => nomatch hd)
  | closesFailed i c k hpc hk =>
      refine h.uses (by simp) (by rw [hpc]; rfl) hk rfl (fun hfits => ?_) (fun d hd => nomatch hd)
      rw [hpc] at hfits
      obtain ⟨-, hmu, hwritten, hfailed, hcloses⟩ := hfits
      exact ⟨hmu, hwritten, hfailed, congrArg (· + 1) hcloses⟩
  | closes i c k hpc hk =>
      refine h.uses (by simp) (by rw [hpc]; rfl) hk rfl (fun hfits => ?_) (fun d hd => nomatch hd)
      rw [hpc] at hfits
      obtain ⟨-, hmu, hwritten, hcloses⟩ := hfits
      exact ⟨hmu, hwritten, congrArg (· + 1) hcloses⟩
  | goesOn i hpc =>
      have hgo : Inv st (s.goTo i .reading) := by
        refine h.goTo (by simp) (fun c k hk => ?_) (fun c hc => nomatch hc)
        rcases hpc with hpc | hpc
        · rw [hpc] at hk
          exact .inl hk
        · rw [hpc] at hk
          exact hk
      exact hgo.closeSession i
  | ends i hpc =>
      have hgo : Inv st (s.goTo i .ending) := by
        refine h.goTo (by simp) (fun c k hk => ?_) (fun c hc => nomatch hc)
        rw [hpc] at hk
        exact hk
      exact hgo.closeSession i
  | reads i f hpc => exact h.reads_frame hpc f
  | readFails i hpc =>
      refine h.goTo (by simp) (fun c k hk => ?_) (fun c hc => nomatch hc)
      rw [hpc] at hk
      exact hk
  | loadsNothing i f hpc hmu =>
      refine h.goTo (by simp) (fun c k hk => ?_) (fun c hc => nomatch hc)
      rw [hpc] at hk
      obtain ⟨done, hfs, hrunning⟩ := hk
      rcases hrunning with hunstarted | ⟨hsome, -, -⟩
      · exact .inl hunstarted
      · exact absurd (hmu.symm.trans hsome) (by simp)
  | loads i c f hpc hmu =>
      refine h.goTo (by simp) (fun d k hk => ?_) (fun d hd => hmu.trans hd)
      rw [hpc] at hk
      obtain ⟨done, hfs, hrunning⟩ := hk
      rcases hrunning with ⟨hnone, -⟩ | ⟨hsome, hwritten, hcloses⟩
      · exact absurd (hmu.symm.trans hnone) (by simp)
      · obtain rfl : c = d := Option.some.inj (hmu.symm.trans hsome)
        exact ⟨rfl, hmu, hcloses, done, hfs, hwritten⟩
  | forwards i c f k af hpc hk hf hok =>
      refine h.uses (by simp) (by rw [hpc]; rfl) hk rfl (fun hfits => ?_) (fun d hd => nomatch hd)
      rw [hpc] at hfits
      obtain ⟨-, hmu, hcloses, done, hfs, hwritten⟩ := hfits
      have hne : f ≠ .text [] := by
        rintro rfl
        have hfull := hguard rfl
        rw [hpc] at hfull
        exact nomatch hfull
      rw [outgoing_eq_forwarded _ hne] at hf
      refine .inr ⟨hmu, ?_, hcloses⟩
      show Upto (opened _ k.info _) (k.written ++ [af]) k.failed
      rw [hok] at hwritten ⊢
      rw [hfs]
      exact hwritten.sent hf
  | forwardFails i c f k af hpc hk hf =>
      refine h.uses (afterFailure_ne_starting f) (by rw [hpc]; rfl) hk rfl (fun hfits => ?_)
        (fun d hd => ?_)
      · rw [hpc] at hfits
        obtain ⟨-, hmu, hcloses, done, hfs, hwritten⟩ := hfits
        have hrunning : Running (st.session i) (s.mu i) (s.frames i) c k.fail := by
          refine .inr ⟨hmu, ?_, hcloses⟩
          rw [hfs]
          exact hwritten.fail (opened_le_append _ _ done f)
        exact Fits.afterFailure hrunning f
      · exact absurd ((conn_afterFailure f).symm.trans hd) (by simp)
  | notMarshalled i c ok f hpc hf =>
      refine h.goTo (by simp) (fun d k hk => ?_) (fun d hd => nomatch hd)
      rw [hpc] at hk
      obtain ⟨rfl, hmu, hcloses, done, hfs, hwritten⟩ := hk
      have hne : f ≠ .text [] := by
        rintro rfl
        exact absurd ((marshal_metadata_nil _).symm.trans hf) (by simp)
      rw [outgoing_eq_forwarded _ hne] at hf
      refine .inr ⟨hmu, ?_, hcloses⟩
      rw [hfs]
      exact hwritten.skipped hf
  | endsUnstarted i hpc hmu =>
      refine h.goTo (by simp) (fun d k hk => ?_) (fun d hd => nomatch hd)
      rw [hpc] at hk
      rcases hk with ⟨-, hwritten, hfailed, hcloses⟩ | ⟨hsome, -, -⟩
      · exact ⟨hmu, .of_unstarted hwritten hfailed, hcloses⟩
      · exact absurd (hmu.symm.trans hsome) (by simp)
  | takes i c hpc hmu =>
      refine h.remaps (by simp) (fun d k hk => ?_) (fun d hd => .inr ?_)
      · rw [hpc] at hk
        rcases hk with ⟨hnone, -⟩ | ⟨hsome, hwritten, hcloses⟩
        · exact absurd (hmu.symm.trans hnone) (by simp)
        · exact ⟨Option.some.inj (hmu.symm.trans hsome), rfl, hwritten, hcloses⟩
      · rw [hmu]
        exact hd.elim id (fun hd => nomatch hd)
  | stops i c k hpc hk hok =>
      refine h.uses (by simp) (by rw [hpc]; rfl) hk rfl (fun hfits => ?_)
        (fun d hd => (Option.some.inj hd).symm)
      rw [hpc] at hfits
      obtain ⟨-, hmu, hwritten, hcloses⟩ := hfits
      refine ⟨rfl, hmu, ?_, hcloses⟩
      show Upto (trace _ k.info _) (k.written ++ [_]) k.failed
      rw [hok] at hwritten ⊢
      exact hwritten.snoc _
  | stopFails i c k hpc hk =>
      refine h.uses (by simp) (by rw [hpc]; rfl) hk rfl (fun hfits => ?_)
        (fun d hd => (Option.some.inj hd).symm)
      rw [hpc] at hfits
      obtain ⟨-, hmu, hwritten, hcloses⟩ := hfits
      exact ⟨rfl, hmu, hwritten.fail (List.prefix_append ..), hcloses⟩
  | reacts c f k reactions hk => exact h.reads hk k.beingRead reactions
  | agentReadFails c k hk => exact (h.reads hk false k.reactions).closeSession k.session
  | closesElsewhere i => exact h.closeSession i

-- ============================================================================
-- The trace
-- ============================================================================

theorem opened_le_trace (s : SessionInfo) (ci : CallInfo) (fs : List Frame) :
    opened s ci fs <+: trace s ci fs := List.prefix_append ..

theorem Running.written_le {s : SessionInfo} {m : Option Nat} {done : List Frame} {c : Nat}
    {k : Conn} (h : Running s m done c k) : k.written <+: opened s k.info done := by
  rcases h with ⟨-, hwritten, -⟩ | ⟨-, hwritten, -⟩
  · rw [hwritten]
    exact List.nil_prefix
  · exact hwritten.front

theorem Fits.written_le {s : SessionInfo} {m : Option Nat} {fs : List Frame} {c : Nat}
    {k : Conn} {pc : Pc} (h : Fits s m fs c k pc) : k.written <+: trace s k.info fs := by
  have hnil : k.written = [] → k.written <+: trace s k.info fs := fun hwritten =>
    hwritten ▸ List.nil_prefix
  cases pc with
  | starting | panicked => exact h.elim
  | dialed | stored | startFailed | removed => exact hnil h.2.2.1
  | notStarted => exact hnil h.2.1
  | reading | writeFailed | readFailed | ending =>
      exact (Running.written_le h).trans (opened_le_trace s k.info fs)
  | got f =>
      obtain ⟨done, rfl, hrunning⟩ := h
      exact (hrunning.written_le.trans (opened_le_append s k.info done f)).trans
        (opened_le_trace s k.info _)
  | forwarding f c' =>
      obtain ⟨-, -, -, done, rfl, hwritten⟩ := h
      exact (hwritten.front.trans (opened_le_append s k.info done f)).trans
        (opened_le_trace s k.info _)
  | stopping c' => exact h.2.2.1.front.trans (opened_le_trace s k.info fs)
  | closing c' => exact h.2.2.1.front
  | returned => exact h.2.1.front

theorem Running.closes_le {s : SessionInfo} {m : Option Nat} {done : List Frame} {c : Nat}
    {k : Conn} (h : Running s m done c k) : k.closes ≤ 1 ∧ (0 < k.closes → m = none) := by
  rcases h with ⟨hmu, -, -, hcloses⟩ | ⟨-, -, hcloses⟩
  · exact ⟨Nat.le_of_eq hcloses, fun _ => hmu⟩
  · exact ⟨by omega, fun hpos => absurd hcloses (Nat.ne_of_gt hpos)⟩

/-- A connection is closed once at most, and then its session has none in the map. -/
theorem Fits.closes_le {s : SessionInfo} {m : Option Nat} {fs : List Frame} {c : Nat} {k : Conn}
    {pc : Pc} (h : Fits s m fs c k pc) : k.closes ≤ 1 ∧ (0 < k.closes → m = none) := by
  have hopen : k.closes = 0 → k.closes ≤ 1 ∧ (0 < k.closes → m = none) := fun hcloses =>
    ⟨by omega, fun hpos => absurd hcloses (Nat.ne_of_gt hpos)⟩
  cases pc with
  | starting | panicked => exact h.elim
  | dialed | stored => exact hopen h.2.2.2.1
  | startFailed | removed => exact hopen h.2.2.2.2
  | notStarted => exact ⟨Nat.le_of_eq h.2.2.2, fun _ => h.1⟩
  | reading | writeFailed | readFailed | ending => exact Running.closes_le h
  | got f =>
      obtain ⟨done, -, hrunning⟩ := h
      exact hrunning.closes_le
  | forwarding => exact hopen h.2.2.1
  | stopping | closing => exact hopen h.2.2.2
  | returned => exact ⟨Nat.le_of_eq h.2.2, fun _ => h.1⟩

theorem Inv.traceOk {st : Setting} {s : State} (h : Inv st s) : TraceOk st s where
  ordered c k hk := (h.fits c k hk).written_le
  whole c k hk hpc hok := by
    have hfits := h.fits c k hk
    rw [hpc] at hfits
    exact hfits.2.1.all hok
  once c k hk := by
    have hfits := h.fits c k hk
    refine ⟨hfits.closes_le.1, fun hpc => ?_⟩
    rw [hpc] at hfits
    exact hfits.2.2
  unreachable c k hk hpos i hmu := by
    obtain ⟨k', hk', rfl⟩ := h.held i c (.inr hmu)
    obtain rfl : k' = k := Option.some.inj (hk'.symm.trans hk)
    exact absurd (hmu.symm.trans ((h.fits c k' hk').closes_le.2 hpos)) (by simp)

/-- A step that changes one connection writes nothing behind a `stop`. -/
theorem nothingAfterStop_setConn {st : Setting} {s : State} {c : Nat} {k k' : Conn} (s' : State)
    (hconns : s'.conns = s.conns) (hk : s.conns c = some k)
    (hwritten : .text (stopMessage (st.session k.session)) ∈ k.written →
      k'.written = k.written) : NothingAfterStop st s (s'.setConn c k') := by
  intro d l hl hstop
  by_cases hdc : d = c
  · subst hdc
    obtain rfl : k = l := Option.some.inj (hk.symm.trans hl)
    exact ⟨k', s'.conns_setConn_self d k', hwritten hstop⟩
  · exact ⟨l, (s'.conns_setConn_of_ne k' hdc).trans (hconns ▸ hl), rfl⟩

theorem Move.nothingAfterStop {st : Setting} {s s' : State} {a : Act} (h : Inv st s)
    (hmove : Move st s a s') : NothingAfterStop st s s' := by
  cases hmove with
  | dials i dump urlParsed dialed c ci hpc hnew =>
      intro d l hl hstop
      have hdc : d ≠ c := fun hdc => by
        rw [hdc, hnew] at hl
        exact nomatch hl
      exact ⟨l, ((s.goTo i _).conns_setConn_of_ne _ hdc).trans hl, rfl⟩
  | starts i c k hpc hk hok =>
      refine nothingAfterStop_setConn (s.goTo i _) rfl hk fun hstop => ?_
      have hfits := (h.own (by rw [hpc]; rfl) hk).2
      rw [hpc] at hfits
      rw [hfits.2.2.1] at hstop
      exact nomatch hstop
  | forwards i c f k af hpc hk hf hok =>
      refine nothingAfterStop_setConn (s.goTo i _) rfl hk fun hstop => ?_
      obtain ⟨hsession, hfits⟩ := h.own (by rw [hpc]; rfl) hk
      rw [hpc] at hfits
      obtain ⟨-, -, -, done, -, hwritten⟩ := hfits
      rw [hsession] at hstop
      exact absurd (hwritten.front.subset hstop) (stop_not_mem_opened _ _ done)
  | stops i c k hpc hk hok =>
      refine nothingAfterStop_setConn (s.goTo i _) rfl hk fun hstop => ?_
      obtain ⟨hsession, hfits⟩ := h.own (by rw [hpc]; rfl) hk
      rw [hpc] at hfits
      rw [hsession] at hstop
      exact absurd (hfits.2.2.1.front.subset hstop) (stop_not_mem_opened _ _ _)
  | startFails i c k hpc hk => exact nothingAfterStop_setConn (s.goTo i _) rfl hk fun _ => rfl
  | forwardFails i c f k af hpc hk hf =>
      exact nothingAfterStop_setConn (s.goTo i _) rfl hk fun _ => rfl
  | stopFails i c k hpc hk => exact nothingAfterStop_setConn (s.goTo i _) rfl hk fun _ => rfl
  | closesFailed i c k hpc hk => exact nothingAfterStop_setConn (s.goTo i _) rfl hk fun _ => rfl
  | closes i c k hpc hk => exact nothingAfterStop_setConn (s.goTo i _) rfl hk fun _ => rfl
  | reacts c f k reactions hk => exact nothingAfterStop_setConn s rfl hk fun _ => rfl
  | agentReadFails c k hk =>
      have hset : NothingAfterStop st s (s.setConn c { k with beingRead := false }) :=
        nothingAfterStop_setConn s rfl hk fun _ => rfl
      exact hset
  | _ => exact fun c k hk _ => ⟨k, hk, rfl⟩

/-- The agent connections in every run in which no Write succeeds for an empty text of
    a module.  In every state a connection has been sent a front part of the `start`,
    the frames of its module in their order, and one `stop`, and all of it once its
    session has returned and no Write has failed; it has been closed once at most, once
    exactly when its session has returned, and only while the map had no entry of it.
    No step writes behind the `stop`. -/
theorem agent_trace {st : Setting} {as : List Act}
    (hguard : (machine st).Guarded EmptyTextGuard initial as) :
    (machine st).Always (TraceOk st) initial as ∧
      (machine st).EachStep (NothingAfterStop st) initial as := by
  constructor
  · refine Machine.Always.mono (fun s h => Inv.traceOk h) ?_
    exact Machine.always_of_guarded
      (fun s a s' h hg hs' => (move_of_step hs').inv h hg) hguard Inv.initial
  · refine Machine.eachStep_of_guarded (I := Inv st) (fun s a s' h hg hs' => ?_) hguard
      Inv.initial
    have hmove := move_of_step hs'
    exact ⟨hmove.inv h hg, hmove.nothingAfterStop h⟩

/-- A forwarder without ESL and without a bus, whose sessions are all alike. -/
def plainSetting : Setting where
  ESL := none
  bus := false
  session := fun _ => ⟨⟨ascii "9c", List.all_eq_true.mp rfl⟩, ascii "a", 8000, ascii "mono"⟩
  unmarshal := fun _ => none
  unmarshalMap := fun _ => none

/-- A session that sends one text and one frame of audio, and ends. -/
theorem agent_trace_session : ∃ s k,
    (machine plainSetting).run initial
      [.dial 0 (.error ()) true (some 4), .store 0, .write 0 true, .read 0 (.text (ascii "7")),
        .load 0, .write 0 true, .read 0 (.binary [1, 2]), .load 0, .closeElsewhere 0,
        .write 0 true, .readFails 0, .closeSession 0, .loadAndDelete 0, .write 0 true,
        .closeConn 0] = some s ∧
      s.conns 4 = some k ∧ k.closes = 1 ∧
      k.written = trace (plainSetting.session 0) k.info [.text (ascii "7"), .binary [1, 2]] := by
  have hguard : (machine plainSetting).Guarded EmptyTextGuard initial
      [.dial 0 (.error ()) true (some 4), .store 0, .write 0 true, .read 0 (.text (ascii "7")),
        .load 0, .write 0 true, .read 0 (.binary [1, 2]), .load 0, .closeElsewhere 0,
        .write 0 true, .readFails 0, .closeSession 0, .loadAndDelete 0, .write 0 true,
        .closeConn 0] := by
    decide
  refine ⟨_, _, rfl, rfl, rfl, ?_⟩
  exact ((agent_trace hguard).1.last rfl).whole 4 _ rfl rfl rfl

/-- An empty text of the module: the agent gets a `metadata` message without data. -/
theorem agent_trace_emptyText : ∃ s k,
    (machine plainSetting).run initial
      [.dial 0 (.error ()) true (some 4), .store 0, .write 0 true, .read 0 (.text []), .load 0,
        .write 0 true] = some s ∧
      s.conns 4 = some k ∧ s.frames 0 = [.text []] ∧
      k.written = [.text (startMessage (plainSetting.session 0) k.info),
        .text (metadataMessage (plainSetting.session 0) [])] ∧
      ¬ TraceOk plainSetting s := by
  refine ⟨_, _, rfl, rfl, rfl, rfl, fun h => ?_⟩
  have hordered := h.ordered 4 _ rfl
  exact absurd hordered (by decide)

end FsBridge.Bridge.AgentTrace
