/-
  FsBridge.Cmd.Lifecycle

  The life of a session under the handlers main wires (cmd/fsbridge/main.go): the
  calls it is to see (`wholeLog`), and for which flags it sees them.

  The proof keeps one equation: what has been called and what is still to come at
  the place where the goroutine is make up the whole.
-/

import FsBridge.Bridge.ServeWS

namespace FsBridge.Cmd

open FsBridge.Lib FsBridge.Bridge.ServeWS

-- ============================================================================
-- The wiring
-- ============================================================================

/-- `-mode`. -/
inductive Mode where
  | echo
  | mock
  | ai
  | agent
deriving DecidableEq, Repr

/-- The flags that wire a session: `-mode`, `-esl-addr`, `-record-dir`. -/
structure Flags where
  mode : Mode
  eslAddr : Bytes
  recordDir : Bytes
deriving DecidableEq, Repr

/-- `var eslClient *bridge.ESLClient`, set where there is an address. -/
def Flags.eslClient (f : Flags) : Option ESLClient :=
  if f.eslAddr ≠ [] then some ⟨f.eslAddr⟩ else none

/-- `handler`.  The agent's `ESL` is an interface: it holds the pointer, nil or not. -/
def Flags.handler (f : Flags) : Handler :=
  match f.mode with
  | .echo => .stats
  | .mock => .cascade .mock
  | .ai => .cascade .deepgram
  | .agent => .agentForwarder (some f.eslClient)

/-- The server main makes, and a session of it. -/
def Flags.setting (f : Flags) (fsUUID : Bytes) (begun : Begun) : Setting where
  handler := f.handler
  recorder := f.recordDir ≠ []
  bus := f.eslAddr ≠ [] ∨ f.recordDir ≠ []
  fsUUID := fsUUID
  begun := begun

-- ============================================================================
-- The calls of a session
-- ============================================================================

section Lifecycle

variable (st : Setting)

/-- Up to the return of `OnStart`. -/
def opening : List Event := .store :: (begins st ++ (starts st ++ [.onStart]))

/-- For one message. -/
def frameEvents : Frame → List Event
  | .binary data => uplinks st data ++ [.onAudio data]
  | .text data => [.setMetadata data, .onText data]

/-- Once the read pump has returned. -/
def ending : List Event := .close :: .delete :: .onEnd :: (finishes st ++ ends st)

/-- The calls of a session that gets the given messages. -/
def wholeLog (frames : List Frame) : List Event :=
  opening st ++ frames.flatMap (frameEvents st) ++ ending st

end Lifecycle

/-- The places past the read pump, and how many steps it is from there to the
    return. -/
def pastRead : Pc → Option Nat
  | .readFailed => some 6
  | .closed => some 5
  | .deleted => some 4
  | .ended => some 3
  | .waitingForEvents => some 2
  | .finished => some 1
  | .returned => some 0
  | _ => none

/-- What is to hold of a session at any time. -/
structure Lifecycle (st : Setting) (s : State) : Prop where
  /-- No callback has panicked. -/
  noPanic : s.pc ≠ .panicked
  /-- The calls so far are the first of those it is to see. -/
  ordered : s.log <+: wholeLog st s.frames
  /-- The session is in the map from its `Store` to its `Delete`. -/
  inMap_iff : s.inMap = true ↔ .store ∈ s.log ∧ .delete ∉ s.log
  /-- A goroutine that has returned has made them all. -/
  complete : s.pc = .returned → s.log = wholeLog st s.frames
  /-- A goroutine that has not returned can go on. -/
  notStuck : s.pc ≠ .returned → ∃ a, a ≠ .closeElsewhere ∧ (step st s a).isSome = true
  /-- Past the read pump each step of it brings it nearer to its return. -/
  nearer : ∀ n a s', pastRead s.pc = some n → a ≠ .closeElsewhere → step st s a = some s' →
    ∃ m, pastRead s'.pc = some m ∧ m < n

/-- `OnStart` calls `API` on a nil client. -/
def Panics (st : Setting) : Prop := st.handler = .agentForwarder (some none) ∧ st.fsUUID ≠ []

/-- `Finish` waits for a `captureEvents` that was never started. -/
def Hangs (st : Setting) : Prop :=
  st.recorder = true ∧ st.bus = true ∧ st.begun = .recording false

theorem callInfo_eq_none_iff {ESL : Interface ESLClient} {fsUUID : Bytes}
    {dump : Except Unit Bytes} :
    callInfo ESL fsUUID dump = none ↔ ESL = some none ∧ fsUUID ≠ [] := by
  cases ESL with
  | none => simp [callInfo]
  | some client =>
      by_cases huuid : fsUUID = []
      · simp [callInfo, huuid]
      · cases client with
        | none => simp [callInfo, huuid, ESLClient.api]
        | some c => cases dump <;> simp [callInfo, huuid, ESLClient.api]

theorem onStart_eq_none_iff {st : Setting} {o : StartOutcome} :
    st.handler.onStart st.fsUUID o = none ↔ Panics st := by
  unfold Panics Handler.onStart
  cases st.handler with
  | stats => simp
  | cascade newASR =>
      simp only [reduceCtorEq, false_and, iff_false]
      split <;> simp
  | agentForwarder ESL =>
      have hiff : callInfo ESL st.fsUUID o.dump = none ↔ ESL = some none ∧ st.fsUUID ≠ [] :=
        callInfo_eq_none_iff
      simp only [Handler.agentForwarder.injEq]
      rw [← hiff]
      split
      · rename_i hnone
        simp [hnone]
      · rename_i dump hsome
        rw [hsome]
        split
        · simp
        · split
          · simp
          · split <;> simp

-- ============================================================================
-- The invariant
-- ============================================================================

/-- The calls still to come at a place, if no more messages do. -/
def toCome (st : Setting) : Pc → List Event
  | .accepted => opening st ++ ending st
  | .stored => begins st ++ (starts st ++ [.onStart]) ++ ending st
  | .begun => starts st ++ [.onStart] ++ ending st
  | .announced => [.onStart] ++ ending st
  | .reading => ending st
  | .gotBinary data => uplinks st data ++ [.onAudio data] ++ ending st
  | .uplinked data => [.onAudio data] ++ ending st
  | .gotText data => [.setMetadata data, .onText data] ++ ending st
  | .metadataSet data => [.onText data] ++ ending st
  | .readFailed => ending st
  | .closed => .delete :: .onEnd :: (finishes st ++ ends st)
  | .deleted => .onEnd :: (finishes st ++ ends st)
  | .ended => finishes st ++ ends st
  | .waitingForEvents => ends st
  | .finished => ends st
  | .returned => []
  | .panicked => ending st

/-- Whether the session is in the map at a place. -/
def inMapAt : Pc → Bool
  | .accepted | .deleted | .ended | .waitingForEvents | .finished | .returned => false
  | _ => true

/-- The invariant of a session whose `OnStart` does not panic. -/
structure LifeInv (st : Setting) (s : State) : Prop where
  noPanic : s.pc ≠ .panicked
  log : s.log ++ toCome st s.pc = wholeLog st s.frames
  inMap : s.inMap = inMapAt s.pc
  recording : s.recording ≠ .nothing → st.recorder = true ∧ s.recording = st.begun
  waiting : s.pc = .waitingForEvents → s.recording ≠ .nothing ∧ st.bus = true

theorem lifeInv_initial (st : Setting) : LifeInv st initial where
  noPanic := by simp [initial]
  log := by simp [initial, toCome, wholeLog]
  inMap := rfl
  recording := fun h => absurd rfl h
  waiting := fun h => absurd h (by simp [initial])

/-- A message adds its calls to those still to come. -/
theorem log_read {st : Setting} {s : State} (h : LifeInv st s) (hpc : s.pc = .reading)
    (f : Frame) : s.log ++ (frameEvents st f ++ ending st) = wholeLog st (s.frames ++ [f]) := by
  have hlog := h.log
  rw [hpc] at hlog
  have hsofar : s.log = opening st ++ s.frames.flatMap (frameEvents st) :=
    List.append_cancel_right hlog
  rw [hsofar, wholeLog, List.flatMap_append, List.flatMap_singleton]
  simp only [List.append_assoc]

/-- A step of the goroutine that makes the calls `evs` and leaves the recording. -/
theorem LifeInv.goOn {st : Setting} {s s' : State} (h : LifeInv st s) {evs : List Event}
    (hlog : s'.log = s.log ++ evs) (hframes : s'.frames = s.frames)
    (hcome : toCome st s.pc = evs ++ toCome st s'.pc) (hmap : s'.inMap = inMapAt s'.pc)
    (hpanic : s'.pc ≠ .panicked) (hrec : s'.recording = s.recording)
    (hwait : s'.pc ≠ .waitingForEvents) : LifeInv st s' where
  noPanic := hpanic
  log := by
    rw [hlog, hframes, List.append_assoc, ← hcome]
    exact h.log
  inMap := hmap
  recording := by
    rw [hrec]
    exact h.recording
  waiting := fun hpc => absurd hpc hwait

/-- The goroutine goes from `pc` to `pc'`; the session stays in the map, or out of it. -/
theorem LifeInv.passes {st : Setting} {s s' : State} (h : LifeInv st s) {pc pc' : Pc}
    {evs : List Event} (hpc : s.pc = pc) (hcome : toCome st pc = evs ++ toCome st pc')
    (hto : s'.pc = pc') (hlog : s'.log = s.log ++ evs)
    (hsame : s'.frames = s.frames ∧ s'.inMap = s.inMap ∧ s'.recording = s.recording)
    (hmap : inMapAt pc' = inMapAt pc) (hpanic : pc' ≠ .panicked)
    (hwait : pc' ≠ .waitingForEvents) : LifeInv st s' := by
  subst hpc hto
  obtain ⟨hframes, hin, hrec⟩ := hsame
  have hmap' : s'.inMap = inMapAt s'.pc := by rw [hin, h.inMap, hmap]
  exact h.goOn hlog hframes hcome hmap' hpanic hrec hwait

theorem lifeInv_step {st : Setting} (hpanics : ¬ Panics st) {s s' : State} {a : Act}
    (h : LifeInv st s) (hstep : step st s a = some s') : LifeInv st s' := by
  have hmap := h.inMap
  cases a with
  | store =>
      obtain ⟨hpc, rfl⟩ := Machine.of_guard hstep
      have hcome : toCome st s.pc = [.store] ++ toCome st .stored := by
        rw [hpc]
        simp [toCome, opening]
      exact h.goOn rfl rfl hcome rfl (by simp [State.goOn]) rfl (by simp [State.goOn])
  | begin =>
      obtain ⟨hpc, rfl⟩ := Machine.of_guard hstep
      rw [hpc] at hmap
      refine ⟨by simp [State.goOn], ?_, hmap, ?_, by simp [State.goOn]⟩
      · have hlog := h.log
        rw [hpc] at hlog
        simpa [State.goOn, toCome] using hlog
      · intro hne
        cases hr : st.recorder with
        | true => simp
        | false =>
            have hold : s.recording ≠ .nothing := by simpa [hr] using hne
            exact absurd (h.recording hold).1 (by simp [hr])
  | announce =>
      obtain ⟨hpc, rfl⟩ := Machine.of_guard hstep
      have hcome : toCome st .begun = starts st ++ toCome st .announced := by simp [toCome]
      exact h.passes hpc hcome rfl rfl ⟨rfl, rfl, rfl⟩ rfl nofun nofun
  | onStart o =>
      simp only [step] at hstep
      split at hstep
      · rename_i hpc
        split at hstep
        · rename_i hnone
          exact absurd (onStart_eq_none_iff.mp hnone) hpanics
        · rename_i r hsome
          obtain rfl := Option.some.inj hstep
          have hcome : toCome st .announced = [.onStart] ++ toCome st .reading := by simp [toCome]
          exact h.passes hpc hcome rfl rfl ⟨rfl, rfl, rfl⟩ rfl nofun nofun
      · exact absurd hstep (by simp)
  | read f =>
      simp only [step] at hstep
      split at hstep
      · rename_i hpc
        have hlog := log_read h hpc f
        rw [hpc] at hmap
        cases f with
        | binary data =>
            obtain rfl := Option.some.inj hstep
            exact ⟨by simp, hlog, hmap, h.recording, by simp⟩
        | text data =>
            obtain rfl := Option.some.inj hstep
            exact ⟨by simp, hlog, hmap, h.recording, by simp⟩
      · exact absurd hstep (by simp)
  | readFails =>
      obtain ⟨hpc, rfl⟩ := Machine.of_guard hstep
      have hcome : toCome st .reading = [] ++ toCome st .readFailed := rfl
      exact h.passes hpc hcome rfl rfl ⟨rfl, rfl, rfl⟩ rfl nofun nofun
  | uplink =>
      simp only [step] at hstep
      split at hstep
      · rename_i data hpc
        obtain rfl := Option.some.inj hstep
        have hcome : toCome st (.gotBinary data)
            = uplinks st data ++ toCome st (.uplinked data) := by simp [toCome]
        exact h.passes hpc hcome rfl rfl ⟨rfl, rfl, rfl⟩ rfl nofun nofun
      · exact absurd hstep (by simp)
  | onAudio sent =>
      simp only [step] at hstep
      split at hstep
      · rename_i data hpc
        obtain rfl := Option.some.inj hstep
        have hcome : toCome st (.uplinked data) = [.onAudio data] ++ toCome st .reading := by
          simp [toCome]
        exact h.passes hpc hcome rfl rfl ⟨rfl, rfl, rfl⟩ rfl nofun nofun
      · exact absurd hstep (by simp)
  | setMetadata =>
      simp only [step] at hstep
      split at hstep
      · rename_i data hpc
        obtain rfl := Option.some.inj hstep
        have hcome : toCome st (.gotText data)
            = [.setMetadata data] ++ toCome st (.metadataSet data) := by simp [toCome]
        exact h.passes hpc hcome rfl rfl ⟨rfl, rfl, rfl⟩ rfl nofun nofun
      · exact absurd hstep (by simp)
  | onText =>
      simp only [step] at hstep
      split at hstep
      · rename_i data hpc
        obtain rfl := Option.some.inj hstep
        have hcome : toCome st (.metadataSet data) = [.onText data] ++ toCome st .reading := by
          simp [toCome]
        exact h.passes hpc hcome rfl rfl ⟨rfl, rfl, rfl⟩ rfl nofun nofun
      · exact absurd hstep (by simp)
  | close =>
      obtain ⟨hpc, rfl⟩ := Machine.of_guard hstep
      have hcome : toCome st .readFailed = [.close] ++ toCome st .closed := rfl
      exact h.passes hpc hcome rfl rfl ⟨rfl, rfl, rfl⟩ rfl nofun nofun
  | delete =>
      obtain ⟨hpc, rfl⟩ := Machine.of_guard hstep
      have hcome : toCome st s.pc = [.delete] ++ toCome st .deleted := by
        rw [hpc]
        rfl
      exact h.goOn rfl rfl hcome rfl (by simp [State.goOn]) rfl (by simp [State.goOn])
  | onEnd =>
      obtain ⟨hpc, rfl⟩ := Machine.of_guard hstep
      have hcome : toCome st .deleted = [.onEnd] ++ toCome st .ended := rfl
      exact h.passes hpc hcome rfl rfl ⟨rfl, rfl, rfl⟩ rfl nofun nofun
  | finish =>
      simp only [step] at hstep
      split at hstep
      · rename_i hpc
        have hlog := h.log
        rw [hpc] at hmap hlog
        split at hstep
        · rename_i hwait
          obtain rfl := Option.some.inj hstep
          refine ⟨by simp [State.goOn], ?_, hmap, h.recording, fun _ => hwait⟩
          simpa [State.goOn, toCome] using hlog
        · obtain rfl := Option.some.inj hstep
          refine ⟨by simp [State.goOn], ?_, hmap, fun hne => absurd rfl hne, by simp [State.goOn]⟩
          simpa [State.goOn, toCome] using hlog
      · exact absurd hstep (by simp)
  | eventsDone =>
      obtain ⟨hpc, rfl⟩ := Machine.of_guard hstep
      have hlog := h.log
      rw [hpc.1] at hmap hlog
      refine ⟨by simp [State.goOn], ?_, hmap, fun hne => absurd rfl hne, by simp [State.goOn]⟩
      simpa [State.goOn, toCome] using hlog
  | announceEnd =>
      obtain ⟨hpc, rfl⟩ := Machine.of_guard hstep
      have hcome : toCome st .finished = ends st ++ toCome st .returned := by simp [toCome]
      exact h.passes hpc hcome rfl rfl ⟨rfl, rfl, rfl⟩ rfl nofun nofun
  | closeElsewhere =>
      simp only [step] at hstep
      obtain rfl := Option.some.inj hstep
      exact ⟨h.noPanic, h.log, h.inMap, h.recording, h.waiting⟩

-- ============================================================================
-- From the invariant to the life of the session
-- ============================================================================

theorem not_mem_flatMap_frames (st : Setting) (frames : List Frame) :
    Event.store ∉ frames.flatMap (frameEvents st) ∧
      Event.delete ∉ frames.flatMap (frameEvents st) := by
  have hframe : ∀ f : Frame, Event.store ∉ frameEvents st f ∧ Event.delete ∉ frameEvents st f := by
    intro f
    cases f <;> simp [frameEvents, uplinks]
  simp only [List.mem_flatMap, not_exists, not_and]
  exact ⟨fun f _ => (hframe f).1, fun f _ => (hframe f).2⟩

/-- `Store` and `Delete` are called once each. -/
theorem count_wholeLog (st : Setting) (frames : List Frame) :
    (wholeLog st frames).count .store = 1 ∧ (wholeLog st frames).count .delete = 1 := by
  have hframes := not_mem_flatMap_frames st frames
  have hstore := List.count_eq_zero.mpr hframes.1
  have hdelete := List.count_eq_zero.mpr hframes.2
  simp only [wholeLog, opening, ending, begins, starts, finishes, ends, List.count_append,
    List.count_cons, hstore, hdelete]
  cases st.recorder <;> cases st.bus <;> simp

/-- What is called once has been called exactly when it is not to come. -/
theorem mem_log_iff {st : Setting} {s : State} (h : LifeInv st s) {e : Event}
    (hcount : (wholeLog st s.frames).count e = 1) : e ∈ s.log ↔ e ∉ toCome st s.pc := by
  rw [← h.log, List.count_append] at hcount
  rw [← List.count_pos_iff, ← List.count_eq_zero]
  omega

theorem inMapAt_iff (st : Setting) {pc : Pc} (hpc : pc ≠ .panicked) :
    inMapAt pc = true ↔ .store ∉ toCome st pc ∧ ¬ .delete ∉ toCome st pc := by
  cases pc <;>
    simp [inMapAt, toCome, opening, ending, begins, starts, uplinks, finishes, ends] at hpc ⊢

/-- Any outcome of `OnStart`. -/
def someOutcome : StartOutcome := ⟨true, .error (), true, true, true⟩

theorem LifeInv.notStuck {st : Setting} {s : State} (h : LifeInv st s) (hhangs : ¬ Hangs st)
    (hpc : s.pc ≠ .returned) : ∃ a, a ≠ .closeElsewhere ∧ (step st s a).isSome = true := by
  cases hs : s.pc with
  | accepted => exact ⟨.store, by simp, by simp [step, hs]⟩
  | stored => exact ⟨.begin, by simp, by simp [step, hs]⟩
  | begun => exact ⟨.announce, by simp, by simp [step, hs]⟩
  | announced =>
      refine ⟨.onStart someOutcome, by simp, ?_⟩
      simp only [step, hs, if_true]
      split <;> rfl
  | reading => exact ⟨.readFails, by simp, by simp [step, hs]⟩
  | gotBinary data => exact ⟨.uplink, by simp, by simp [step, hs]⟩
  | uplinked data => exact ⟨.onAudio true, by simp, by simp [step, hs]⟩
  | gotText data => exact ⟨.setMetadata, by simp, by simp [step, hs]⟩
  | metadataSet data => exact ⟨.onText, by simp, by simp [step, hs]⟩
  | readFailed => exact ⟨.close, by simp, by simp [step, hs]⟩
  | closed => exact ⟨.delete, by simp, by simp [step, hs]⟩
  | deleted => exact ⟨.onEnd, by simp, by simp [step, hs]⟩
  | ended =>
      refine ⟨.finish, by simp, ?_⟩
      simp only [step, hs, if_true]
      split <;> rfl
  | waitingForEvents =>
      -- the recording has its `captureEvents`
      obtain ⟨hne, hbus⟩ := h.waiting hs
      obtain ⟨hrec, hbegun⟩ := h.recording hne
      have hcapture : s.recording = .recording true := by
        cases hr : st.begun with
        | nothing => exact absurd (hbegun.trans hr) hne
        | recording c =>
            cases c with
            | true => exact hbegun.trans hr
            | false => exact absurd ⟨hrec, hbus, hr⟩ hhangs
      exact ⟨.eventsDone, by simp, by simp [step, hs, hcapture]⟩
  | finished => exact ⟨.announceEnd, by simp, by simp [step, hs]⟩
  | returned => exact absurd hs hpc
  | panicked => exact absurd hs h.noPanic

theorem nearer_of_step {st : Setting} {s s' : State} {a : Act} {n : Nat}
    (hn : pastRead s.pc = some n) (ha : a ≠ .closeElsewhere) (hstep : step st s a = some s') :
    ∃ m, pastRead s'.pc = some m ∧ m < n := by
  cases a <;> simp only [step] at hstep <;> grind [pastRead, State.goOn]

theorem LifeInv.lifecycle {st : Setting} {s : State} (h : LifeInv st s) (hhangs : ¬ Hangs st) :
    Lifecycle st s where
  noPanic := h.noPanic
  ordered := ⟨toCome st s.pc, h.log⟩
  inMap_iff := by
    obtain ⟨hstore, hdelete⟩ := count_wholeLog st s.frames
    rw [h.inMap, inMapAt_iff st h.noPanic, mem_log_iff h hstore, mem_log_iff h hdelete]
  complete := by
    intro hpc
    have hlog := h.log
    rw [hpc] at hlog
    rw [← hlog]
    exact (List.append_nil _).symm
  notStuck := h.notStuck hhangs
  nearer := fun n a s' hn ha hstep => nearer_of_step hn ha hstep

-- ============================================================================
-- Where it goes wrong
-- ============================================================================

/-- Up to the return of `OnStart`, or its panic. -/
def startUp : List Act := [.store, .begin, .announce, .onStart someOutcome]

theorem panics_reachable {st : Setting} (h : Panics st) :
    ∃ s, (machine st).Reachable s ∧ s.pc = .panicked ∧ s.inMap = true ∧ s.log = opening st := by
  have hnone : st.handler.onStart st.fsUUID someOutcome = none := onStart_eq_none_iff.mpr h
  refine ⟨⟨.panicked, true, false, false, if st.recorder then st.begun else .nothing, [],
    opening st⟩, ⟨startUp, ?_⟩, rfl, rfl, rfl⟩
  simp [startUp, Machine.run, machine, step, initial, State.goOn, hnone, opening]

/-- A session whose read fails at once, up to the wait in `Recorder.Finish`. -/
def hangUp : List Act := startUp ++ [.readFails, .close, .delete, .onEnd, .finish]

theorem hangs_reachable {st : Setting} (hpanics : ¬ Panics st) (h : Hangs st) :
    ∃ s, (machine st).Reachable s ∧ s.pc = .waitingForEvents ∧ s.recording = .recording false ∧
      .audioStart ∈ s.log ∧ .audioEnd ∉ s.log := by
  obtain ⟨hrec, hbus, hbegun⟩ := h
  cases hr : st.handler.onStart st.fsUUID someOutcome with
  | none => exact absurd (onStart_eq_none_iff.mp hr) hpanics
  | some r =>
      refine ⟨⟨.waitingForEvents, false, true, false, .recording false, [],
        opening st ++ [.close, .delete, .onEnd] ++ finishes st⟩, ⟨hangUp, ?_⟩, rfl, rfl, ?_, ?_⟩
      · simp [hangUp, startUp, Machine.run, machine, step, initial, State.goOn, hr, opening, hrec,
          hbus, hbegun]
      · simp [opening, starts, hbus]
      · simp [opening, begins, starts, finishes]

/-- A session has its life exactly when `OnStart` does not panic and `Finish` does
    not hang. -/
theorem lifecycle_iff (st : Setting) :
    (∀ s, (machine st).Reachable s → Lifecycle st s) ↔ ¬ Panics st ∧ ¬ Hangs st := by
  constructor
  · intro hall
    have hpanics : ¬ Panics st := by
      intro h
      obtain ⟨s, hreach, hpc, -⟩ := panics_reachable h
      exact (hall s hreach).noPanic hpc
    refine ⟨hpanics, fun h => ?_⟩
    obtain ⟨s, hreach, hpc, hrec, -⟩ := hangs_reachable hpanics h
    obtain ⟨a, ha, hsome⟩ := (hall s hreach).notStuck (by rw [hpc]; simp)
    cases a <;> simp [step, hpc, hrec] at hsome ha
  · rintro ⟨hpanics, hhangs⟩ s hreach
    have hinv : LifeInv st s := Machine.Reachable.invariant (I := LifeInv st) (lifeInv_initial st)
      (fun _ _ _ h hstep => lifeInv_step hpanics h hstep) hreach
    exact hinv.lifecycle hhangs

-- ============================================================================
-- The sessions of main
-- ============================================================================

theorem panics_setting_iff (f : Flags) (fsUUID : Bytes) (begun : Begun) :
    Panics (f.setting fsUUID begun) ↔ f.mode = .agent ∧ f.eslAddr = [] ∧ fsUUID ≠ [] := by
  unfold Panics
  simp only [Flags.setting, Flags.handler, Flags.eslClient]
  cases f.mode <;> simp

theorem hangs_setting_iff (f : Flags) (fsUUID : Bytes) (begun : Begun) :
    Hangs (f.setting fsUUID begun) ↔ f.recordDir ≠ [] ∧ begun = .recording false := by
  unfold Hangs
  simp only [Flags.setting, decide_eq_true_eq]
  constructor
  · rintro ⟨hrec, -, hbegun⟩
    exact ⟨hrec, hbegun⟩
  · rintro ⟨hrec, hbegun⟩
    exact ⟨hrec, .inr hrec, hbegun⟩

/-- **Session lifecycle.**  Every run of a session has its life, unless agent mode
    runs without ESL and the session has a call uuid, or the recorder runs and
    events.jsonl cannot be made. -/
theorem sessionLifecycle_iff (f : Flags) (fsUUID : Bytes) (begun : Begun) :
    (∀ s, (machine (f.setting fsUUID begun)).Reachable s → Lifecycle (f.setting fsUUID begun) s) ↔
      ¬ (f.mode = .agent ∧ f.eslAddr = [] ∧ fsUUID ≠ []) ∧
        ¬ (f.recordDir ≠ [] ∧ begun = .recording false) := by
  rw [lifecycle_iff, panics_setting_iff, hangs_setting_iff]

/-- Agent mode without `-esl-addr`, a recorder, and a session with a call uuid: it
    stays in the map, begun and announced, and its `OnEnd` never comes. -/
theorem agent_without_esl_panics :
    ∃ s, (machine ((Flags.mk .agent [] (ascii "rec")).setting (ascii "f3a1")
        (.recording true))).Reachable s ∧
      s.pc = .panicked ∧ s.inMap = true ∧
      s.log = [.store, .recorderBegin, .audioStart, .onStart] ∧
      ¬ Lifecycle
        ((Flags.mk .agent [] (ascii "rec")).setting (ascii "f3a1") (.recording true)) s := by
  have hpanics : Panics ((Flags.mk .agent [] (ascii "rec")).setting (ascii "f3a1")
      (.recording true)) := (panics_setting_iff _ _ _).mpr ⟨rfl, rfl, by simp [ascii]⟩
  obtain ⟨s, hreach, hpc, hmap, hlog⟩ := panics_reachable hpanics
  exact ⟨s, hreach, hpc, hmap, hlog, fun h => h.noPanic hpc⟩

end FsBridge.Cmd
