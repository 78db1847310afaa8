/-
  FsBridge.Bridge.Sweeper

  The retention sweeper (`sweepLoop` and `sweep` in bridge/recorder.go) beside the
  sessions of the recorder.

  The sweeper takes one step for each entry it looks at, each bundle it decides on
  and each entry `os.RemoveAll` takes away, and anything may happen in between: a
  Begin may make the directory that is being removed.  A directory and its files are
  given by their places, `sort.Slice` by any list it may leave.  A disk holds less
  than 2^63 bytes, so that `size` and `total` are sums.

  A session's directory is its own from the `os.MkdirAll` of its Begin (`made`) to
  the end of its Finish.  What happens to a session whose directory is gone is not
  followed: the property is lost there.
-/

import Mathlib.Data.List.Infix
import FsBridge.Bridge.RecorderIsolation

namespace FsBridge.Bridge.Sweeper

open FsBridge.Lib FsBridge.Lib.Fs

variable {S : Type} [DecidableEq S]

-- ============================================================================
-- The system
-- ============================================================================

/-- An instant, in nanoseconds from the zero `time.Time`. -/
abbrev Time := Int

/-- `bundle` of `sweep`. -/
structure Bundle where
  dir : List Bytes
  mod : Time
  size : Nat
deriving DecidableEq, Repr

/-- Where the sweeper is. -/
inductive Pc where
  /-- Waiting for the ticker. -/
  | waiting
  /-- In the first loop, with the entries to come. -/
  | listing (entries : List (List Bytes)) (bundles : List Bundle) (total : Int)
  /-- Inside `filepath.Walk`, with what it has still to visit. -/
  | walking (b : Bundle) (pending : List (List Bytes)) (entries : List (List Bytes))
      (bundles : List Bundle) (total : Int)
  /-- In the second loop. -/
  | deleting (cutoff : Time) (bundles : List Bundle) (total : Int)
  /-- Inside `os.RemoveAll`. -/
  | removing (b : Bundle) (cutoff : Time) (bundles : List Bundle) (total : Int)
deriving DecidableEq, Repr

/-- The recorder with its retention, and what is on the disk before the first
    session: the places in use and the times of their files. -/
structure Setup (S : Type) extends Recorder.Setup S where
  retention : Int
  maxBytes : Int
  used : List (List Bytes)
  used_complete : ∀ q, (disk q).node ≠ none → q ∈ used
  mtimes : List Bytes → Nat → Time
  clock : Time

structure State (S : Type) where
  sessions : Recorder.State S
  /-- The `os.MkdirAll` of the session's Begin has succeeded. -/
  made : S → Bool
  /-- The places that have ever been in use. -/
  used : List (List Bytes)
  /-- When each of the files that have been at a place was last written. -/
  mtime : List Bytes → Nat → Time
  now : Time
  sweeper : Pc

inductive Act (S : Type) where
  | session (a : Recorder.Act S)
  /-- The next file operation of the session's Begin fails. -/
  | fails (s : S)
  /-- The event sidecar, or another program, leaves `slot` at a place; it makes and
      removes no directory. -/
  | other (q : List Bytes) (slot : Slot (Owned S))
  | clock (t : Time)
  | readDir
  | walk
  | visit (q : List Bytes)
  | walked
  | sort (bundles : List Bundle)
  | decide
  | unlink (q : List Bytes)
  | removed
  | removeFails
  | done

/-- The directory of a session. -/
def Setup.place (cfg : Setup S) (s : S) : List Bytes := Path.resolve cfg.cwd (cfg.dir s)

/-- `r.Dir`. -/
def Setup.root (cfg : Setup S) : List Bytes := Path.resolve cfg.cwd cfg.recorder.dir

-- The sessions, with what the sweeper sees of them.

/-- The file that is there. -/
def fileGen {B : Type} (slot : Slot B) : Option Nat :=
  match slot.node with
  | some (.file gen) => some gen
  | _ => none

/-- The file whose time an operation sets. -/
def touched {B : Type} : Op B → Slot B → Option Nat
  | .create _, slot =>
      match slot.node with
      | some .dir => none
      | some (.file gen) => some gen
      | none => some slot.fresh
  | .write h (_ :: _), _ => some h.gen
  | _, _ => none

/-- The file operation of a step of a session. -/
def opOf (st : Recorder.State S) : Recorder.Act S → Option (Op (Owned S))
  | .op s =>
      match st.phase s with
      | .beginning (.call o _) => some o
      | .finishing (.call o _) => some o
      | _ => none
  | .uplink s _ pcm =>
      match st.phase s with
      | .recording cr => some (.write cr.callerFile (Recorder.audio s pcm))
      | _ => none
  | .downlink s pcm =>
      match st.phase s with
      | .recording cr => some (.write cr.agentFile (Recorder.audio s pcm))
      | _ => none
  | .begin _ | .finish _ => none

/-- `os.MkdirAll` of the session's directory, with success. -/
def makes (cfg : Setup S) (st : State S) (s : S) : Op (Owned S) → Bool
  | .mkdirAll path =>
      Path.resolve cfg.cwd path = cfg.place s ∧
        ∀ gen, (st.sessions.fs (cfg.place s)).node ≠ some (.file gen)
  | _ => false

namespace State

/-- A file is written now. -/
def touch (st : State S) (q : List Bytes) : Option Nat → State S
  | none => st
  | some gen =>
      { st with mtime := Function.update st.mtime q (Function.update (st.mtime q) gen st.now) }

omit [DecidableEq S] in
@[simp] theorem touch_sweeper (st : State S) (q : List Bytes) (gen : Option Nat) :
    (st.touch q gen).sweeper = st.sweeper := by
  cases gen <;> rfl

omit [DecidableEq S] in
@[simp] theorem touch_sessions (st : State S) (q : List Bytes) (gen : Option Nat) :
    (st.touch q gen).sessions = st.sessions := by
  cases gen <;> rfl

omit [DecidableEq S] in
@[simp] theorem touch_made (st : State S) (q : List Bytes) (gen : Option Nat) :
    (st.touch q gen).made = st.made := by
  cases gen <;> rfl

/-- The file operation `o` of the session `s`. -/
def note (cfg : Setup S) (st : State S) (s : S) (o : Op (Owned S)) : State S :=
  let q := Path.resolve cfg.cwd o.path
  { st.touch q (touched o (st.sessions.fs q)) with
    used := st.used.insert q
    made := if makes cfg st s o then Function.update st.made s true else st.made }

/-- What is at a place changes. -/
def put (st : State S) (q : List Bytes) (slot : Slot (Owned S)) : State S :=
  { st with sessions := { st.sessions with fs := Function.update st.sessions.fs q slot } }

/-- The sweeper goes on to `pc`. -/
def goto (st : State S) (pc : Pc) : State S := { st with sweeper := pc }

/-- The entries of a directory. -/
def entries (st : State S) (q : List Bytes) : List (List Bytes) :=
  st.used.filter fun p => p ≠ [] ∧ p.dropLast = q ∧ (st.sessions.fs p).node ≠ none

end State

def stepSession (cfg : Setup S) (st : State S) (a : Recorder.Act S) : Option (State S) :=
  (Recorder.step cfg.toSetup st.sessions a).map fun sessions =>
    match opOf st.sessions a with
    | none => { st with sessions }
    | some o => { st.note cfg a.session o with sessions }

-- The sweeper.

/-- `age || over`. -/
def condemned (cfg : Setup S) (cutoff : Time) (b : Bundle) (total : Int) : Bool :=
  b.mod < cutoff ∨ 0 < cfg.maxBytes ∧ cfg.maxBytes < total

/-- `Walk` visits a place: a file counts with its size and its time, a directory with
    its entries, and what is gone with nothing. -/
def visit (st : State S) (b : Bundle) (q : List Bytes) : Bundle × List (List Bytes) :=
  match (st.sessions.fs q).node with
  | none => (b, [])
  | some .dir => (b, st.entries q)
  | some (.file gen) =>
      let size := ((st.sessions.fs q).gens gen).length
      ({ b with mod := max b.mod (st.mtime q gen), size := b.size + size }, [])

def step (cfg : Setup S) (st : State S) : Act S → Option (State S)
  | .session a => stepSession cfg st a
  | .fails s =>
      match st.sessions.phase s with
      | .beginning (.call _ k) =>
          some { st with sessions := st.sessions.setPhase s (.beginning (k .failed)) }
      | _ => none
  | .other q slot =>
      if (st.sessions.fs q).node ≠ some .dir ∧ slot.node ≠ some .dir then
        some { (st.put q slot).touch q (fileGen slot) with used := st.used.insert q }
      else none
  | .clock t => some { st with now := t }
  | .readDir =>
      match st.sweeper with
      | .waiting =>
          let dirs := (st.entries cfg.root).filter fun q => (st.sessions.fs q).node = some .dir
          some (st.goto (.listing dirs [] 0))
      | _ => none
  | .walk =>
      match st.sweeper with
      | .listing (q :: entries) bundles total =>
          some (st.goto (.walking ⟨q, 0, 0⟩ [q] entries bundles total))
      | _ => none
  | .visit q =>
      match st.sweeper with
      | .walking b pending entries bundles total =>
          if q ∈ pending then
            let r := visit st b q
            some (st.goto (.walking r.1 (r.2 ++ pending.erase q) entries bundles total))
          else none
      | _ => none
  | .walked =>
      match st.sweeper with
      | .walking b [] entries bundles total =>
          some (st.goto (.listing entries (bundles ++ [b]) (total + b.size)))
      | _ => none
  | .sort sorted =>
      match st.sweeper with
      | .listing [] bundles total =>
          if sorted.Perm bundles ∧ sorted.Pairwise fun b b' => b.mod ≤ b'.mod then
            some (st.goto (.deleting (st.now - cfg.retention) sorted total))
          else none
      | _ => none
  | .decide =>
      match st.sweeper with
      | .deleting cutoff (b :: bundles) total =>
          if condemned cfg cutoff b total then
            some (st.goto (.removing b cutoff bundles total))
          else some (st.goto (.deleting cutoff bundles total))
      | _ => none
  | .unlink q =>
      match st.sweeper with
      | .removing b _ _ _ =>
          -- a directory goes once it is empty
          if b.dir <+: q ∧ q ≠ b.dir ∧ st.entries q = [] then
            some (st.put q (st.sessions.fs q).unlink)
          else none
      | _ => none
  | .removed =>
      match st.sweeper with
      | .removing b cutoff bundles total =>
          if st.entries b.dir = [] then
            some ((st.put b.dir (st.sessions.fs b.dir).unlink).goto
              (.deleting cutoff bundles (total - b.size)))
          else none
      | _ => none
  | .removeFails =>
      match st.sweeper with
      | .removing _ cutoff bundles total =>
          some (st.goto (.deleting cutoff bundles total))
      | _ => none
  | .done =>
      match st.sweeper with
      | .deleting _ [] _ => some (st.goto .waiting)
      | _ => none

def initial (cfg : Setup S) : State S where
  sessions := Recorder.initial cfg.toSetup
  made := fun _ => false
  used := cfg.used
  mtime := cfg.mtimes
  now := cfg.clock
  sweeper := .waiting

def machine (cfg : Setup S) : Machine (State S) (Act S) := ⟨initial cfg, step cfg⟩

-- ============================================================================
-- The property and its condition
-- ============================================================================

/-- A session whose directory is its own. -/
def Live (st : State S) (s : S) : Prop := st.made s = true ∧ st.sessions.phase s ≠ .finished

/-- The bundle `os.RemoveAll` is working on. -/
def Pc.target : Pc → Option Bundle
  | .removing b _ _ _ => some b
  | _ => none

/-- What the second loop comes to: the cutoff, the bundle, and the total that is left. -/
def Pc.facing : Pc → Option (Time × Bundle × Int)
  | .deleting cutoff (b :: _) total => some (cutoff, b, total)
  | _ => none

/-- The bundle's directory is, or holds, that of the session. -/
def Hits (cfg : Setup S) (b : Bundle) (s : S) : Prop := b.dir <+: cfg.place s

/-- Nothing is removed at or under the directory of a live session. -/
def Spares (cfg : Setup S) (st : State S) : Act S → Prop
  | .unlink _ | .removed =>
      ∀ b ∈ st.sweeper.target, ∀ s, Live st s → ¬ Hits cfg b s
  | _ => True

/-- The directory of every live session is there. -/
def DirsThere (cfg : Setup S) (st : State S) : Prop :=
  ∀ s, Live st s → (st.sessions.fs (cfg.place s)).node = some .dir

/-- Where the loop comes to the bundle of a live session, the newest of the files it
    has seen there is not older than the cutoff and the bundles that are left do not
    exceed `MaxBytes`; and no Begin makes a directory that is being removed. -/
def KeepsLive (cfg : Setup S) (st : State S) : Act S → Prop
  | .decide =>
      ∀ x ∈ st.sweeper.facing, ∀ s, Live st s → Hits cfg x.2.1 s →
        condemned cfg x.1 x.2.1 x.2.2 = false
  | .session a =>
      ∀ o ∈ opOf st.sessions a, makes cfg st a.session o = true →
        ∀ b ∈ st.sweeper.target, ¬ Hits cfg b a.session
  | _ => True

-- With finitely many sessions the condition can be evaluated.

instance (st : State S) (s : S) : Decidable (Live st s) :=
  inferInstanceAs (Decidable (_ ∧ ¬ st.sessions.phase s = .finished))

instance (cfg : Setup S) (b : Bundle) (s : S) : Decidable (Hits cfg b s) :=
  inferInstanceAs (Decidable (b.dir <+: cfg.place s))

instance [Fintype S] (cfg : Setup S) (st : State S) (a : Act S) :
    Decidable (KeepsLive cfg st a) :=
  match a with
  | .decide => inferInstanceAs (Decidable (∀ x ∈ st.sweeper.facing, ∀ s, Live st s →
      Hits cfg x.2.1 s → condemned cfg x.1 x.2.1 x.2.2 = false))
  | .session a => inferInstanceAs (Decidable (∀ o ∈ opOf st.sessions a,
      makes cfg st a.session o = true → ∀ b ∈ st.sweeper.target, ¬ Hits cfg b a.session))
  | .fails _ | .other _ _ | .clock _ | .readDir | .walk | .visit _ | .walked | .sort _
  | .unlink _ | .removed | .removeFails | .done => .isTrue trivial

/-- `os.RemoveAll` is not at work on the directory of a live session. -/
def Untargeted (cfg : Setup S) (st : State S) : Prop :=
  ∀ b ∈ st.sweeper.target, ∀ s, Live st s → ¬ Hits cfg b s

-- ============================================================================
-- The sessions
-- ============================================================================

section Sessions

variable {cfg : Setup S} {r r' : Recorder.State S} {a : Recorder.Act S}

omit [DecidableEq S] in
/-- No file operation removes a directory. -/
theorem act_dir {B : Type} [Octet B] (o : Op B) {slot : Slot B} (h : slot.node = some .dir) :
    (act o slot).2.node = some .dir := by
  cases o with
  | mkdirAll path =>
      rw [act, h]
      rfl
  | create path =>
      rw [act, h]
      exact h
  | openFile path =>
      rw [act, h]
      exact h
  | read hd n => exact h
  | write hd bytes => exact h
  | remove path =>
      rw [act, h]
      exact h

/-- What a step of a session does to the disk is its file operation. -/
theorem fs_of_step (h : Recorder.step cfg.toSetup r a = some r') :
    (opOf r a = none ∧ r'.fs = r.fs) ∨
      ∃ o, opOf r a = some o ∧ r'.fs = ((cells (Owned S) cfg.cwd).exec o r.fs).2 := by
  cases a with
  | begin s =>
      rw [Recorder.step] at h
      split at h
      · cases h
        exact .inl ⟨rfl, rfl⟩
      · cases h
  | op s =>
      rw [Recorder.step, Recorder.stepOp] at h
      rw [opOf]
      split at h
      · rename_i hphase
        cases h
        rw [hphase]
        exact .inl ⟨rfl, rfl⟩
      · rename_i hphase
        cases h
        rw [hphase]
        exact .inl ⟨rfl, rfl⟩
      · rename_i p hsome hnone hphase
        cases h
        rw [hphase]
        cases p with
        | ret cr =>
            cases cr with
            | none => exact (hnone rfl).elim
            | some cr => exact (hsome cr rfl).elim
        | call o k => exact .inr ⟨o, rfl, rfl⟩
      · rename_i hphase
        cases h
        rw [hphase]
        exact .inl ⟨rfl, rfl⟩
      · rename_i p hret hphase
        cases h
        rw [hphase]
        cases p with
        | ret ok => exact (hret ok rfl).elim
        | call o k => exact .inr ⟨o, rfl, rfl⟩
      · cases h
  | uplink s sMetadata pcm =>
      rw [Recorder.step] at h
      rw [opOf]
      split at h
      · rename_i cr hphase
        cases h
        rw [hphase]
        exact .inr ⟨_, rfl, rfl⟩
      · rename_i hphase
        cases h
        rw [hphase]
        exact .inl ⟨rfl, rfl⟩
      · cases h
  | downlink s pcm =>
      rw [Recorder.step] at h
      rw [opOf]
      split at h
      · rename_i cr hphase
        cases h
        rw [hphase]
        exact .inr ⟨_, rfl, rfl⟩
      · rename_i hphase
        cases h
        rw [hphase]
        exact .inl ⟨rfl, rfl⟩
      · rename_i hphase
        cases h
        rw [hphase]
        exact .inl ⟨rfl, rfl⟩
      · rename_i hphase
        cases h
        rw [hphase]
        exact .inl ⟨rfl, rfl⟩
      · cases h
  | finish s =>
      rw [Recorder.step] at h
      split at h
      · cases h
        exact .inl ⟨rfl, rfl⟩
      · cases h
        exact .inl ⟨rfl, rfl⟩
      · cases h

/-- A step of a session leaves the phases of the others alone. -/
theorem phase_others (h : Recorder.step cfg.toSetup r a = some r') {s : S} (hs : s ≠ a.session) :
    r'.phase s = r.phase s := by
  have hupdate : ∀ phase, Function.update r.phase a.session phase s = r.phase s :=
    fun phase => Function.update_of_ne hs phase r.phase
  cases a with
  | begin j =>
      rw [Recorder.step] at h
      split at h
      · cases h
        exact hupdate _
      · cases h
  | op j =>
      rw [Recorder.step, Recorder.stepOp] at h
      split at h
      all_goals first
        | cases h
          exact hupdate _
        | cases h
  | uplink j sMetadata pcm =>
      rw [Recorder.step] at h
      split at h
      · cases h
        exact hupdate _
      · cases h
        rfl
      · cases h
  | downlink j pcm =>
      rw [Recorder.step] at h
      split at h
      · cases h
        exact hupdate _
      all_goals
        cases h
        try rfl
  | finish j =>
      rw [Recorder.step] at h
      split at h
      · cases h
        exact hupdate _
      · cases h
        exact hupdate _
      · cases h

/-- A session that has finished stays so. -/
theorem finished_of_step (h : Recorder.step cfg.toSetup r a = some r') {s : S}
    (hs : r.phase s = .finished) : r'.phase s = .finished := by
  by_cases hown : s = a.session
  · subst hown
    cases a with
    | downlink j pcm =>
        rw [Recorder.Act.session] at hs
        rw [Recorder.step, hs] at h
        cases h
        exact hs
    | begin j | uplink j sMetadata pcm | finish j =>
        rw [Recorder.Act.session] at hs
        rw [Recorder.step, hs] at h
        cases h
    | op j =>
        rw [Recorder.Act.session] at hs
        rw [Recorder.step, Recorder.stepOp, hs] at h
        cases h
  · rw [phase_others h hown]
    exact hs

/-- A session that works on a file has not finished. -/
theorem unfinished_of_op (h : Recorder.step cfg.toSetup r a = some r') {o : Op (Owned S)}
    (ho : opOf r a = some o) : r'.phase a.session ≠ .finished := by
  have hupdate : ∀ phase : Recorder.Phase (Owned S), phase ≠ .finished →
      Function.update r.phase a.session phase a.session ≠ .finished := by
    intro phase hphase
    rw [Function.update_self]
    exact hphase
  cases a with
  | begin s | finish s => cases ho
  | op s =>
      rw [opOf] at ho
      split at ho
      · rename_i hphase
        rw [Recorder.step, Recorder.stepOp, hphase] at h
        cases h
        exact hupdate _ (fun hno => by cases hno)
      · rename_i hphase
        rw [Recorder.step, Recorder.stepOp, hphase] at h
        cases h
        exact hupdate _ (fun hno => by cases hno)
      · cases ho
  | uplink s sMetadata pcm | downlink s pcm =>
      rw [opOf] at ho
      split at ho
      · rename_i hphase
        rw [Recorder.step, hphase] at h
        cases h
        exact hupdate _ (fun hno => by cases hno)
      · cases ho

/-- A directory stays one. -/
theorem dir_of_step (h : Recorder.step cfg.toSetup r a = some r') {q : List Bytes}
    (hq : (r.fs q).node = some .dir) : (r'.fs q).node = some .dir := by
  rcases fs_of_step h with ⟨-, hfs⟩ | ⟨o, -, hfs⟩
  · rw [hfs]
    exact hq
  · rw [hfs]
    by_cases hkey : q = (cells (Owned S) cfg.cwd).key o
    · subst hkey
      rw [Cells.exec_self]
      exact act_dir o hq
    · rw [Cells.exec_frame o r.fs hkey]
      exact hq

end Sessions

-- ============================================================================
-- Steps
-- ============================================================================

section Steps

variable {cfg : Setup S} {st st' : State S} {a : Act S}

/-- `os.MkdirAll` has left the session's directory. -/
theorem dir_of_makes {a : Recorder.Act S} {sessions : Recorder.State S}
    (h : Recorder.step cfg.toSetup st.sessions a = some sessions) {o : Op (Owned S)}
    (ho : opOf st.sessions a = some o) (hmakes : makes cfg st a.session o = true) :
    (sessions.fs (cfg.place a.session)).node = some .dir := by
  rcases fs_of_step h with ⟨hnone, -⟩ | ⟨o', ho', hfs⟩
  · cases hnone.symm.trans ho
  · obtain rfl := Option.some.inj (ho'.symm.trans ho)
    cases o' with
    | mkdirAll path =>
        obtain ⟨hkey, hfree⟩ := of_decide_eq_true hmakes
        have hkey' : cfg.place a.session = (cells (Owned S) cfg.cwd).key (.mkdirAll path) :=
          hkey.symm
        rw [hfs, hkey', Cells.exec_self]
        show (act (.mkdirAll path) (st.sessions.fs (Path.resolve cfg.cwd path))).2.node = _
        rw [hkey, act]
        split
        · rename_i gen hnode
          exact absurd hnode (hfree gen)
        · rfl
    | create path | openFile path | read hd n | write hd bytes | remove path => cases hmakes

/-- What holds in every run that keeps the condition. -/
structure Inv (cfg : Setup S) (st : State S) : Prop where
  there : DirsThere cfg st
  untargeted : Untargeted cfg st

omit [DecidableEq S] in
theorem inv_initial (cfg : Setup S) : Inv cfg (initial cfg) where
  there := fun s hs => (Bool.false_ne_true hs.1).elim
  untargeted := fun b hb => by cases hb

/-- A step of a session: the sessions that are live after it, and the sweeper. -/
theorem live_of_session {a : Recorder.Act S} (h : stepSession cfg st a = some st') :
    st'.sweeper = st.sweeper ∧ Recorder.step cfg.toSetup st.sessions a = some st'.sessions ∧
    ∀ s, Live st' s → Live st s ∨
      s = a.session ∧ ∃ o, opOf st.sessions a = some o ∧ makes cfg st s o = true := by
  rw [stepSession] at h
  obtain ⟨sessions, hstep, h⟩ := Option.map_eq_some_iff.mp h
  have hphase : ∀ s, sessions.phase s ≠ .finished → st.sessions.phase s ≠ .finished :=
    fun s hs hfin => hs (finished_of_step hstep hfin)
  cases hop : opOf st.sessions a with
  | none =>
      rw [hop] at h
      cases h
      exact ⟨rfl, hstep, fun s hs => .inl ⟨hs.1, hphase s hs.2⟩⟩
  | some o =>
      rw [hop] at h
      cases h
      refine ⟨?_, hstep, fun s hs => ?_⟩
      · exact State.touch_sweeper st _ _
      · obtain ⟨hmade, hfin⟩ := hs
        dsimp only [State.note] at hmade
        split at hmade
        · rename_i hmakes
          by_cases hown : s = a.session
          · exact .inr ⟨hown, o, rfl, by rw [hown]; exact hmakes⟩
          · rw [Function.update_of_ne hown] at hmade
            exact .inl ⟨hmade, hphase s hfin⟩
        · exact .inl ⟨hmade, hphase s hfin⟩

omit [DecidableEq S] in
/-- A step that leaves the sessions' phases, the live directories and the target as
    they are, or has none. -/
theorem Inv.of_kept (h : Inv cfg st) (hlive : ∀ s, Live st' s → Live st s)
    (hdirs : ∀ s, Live st s → (st.sessions.fs (cfg.place s)).node = some .dir →
      (st'.sessions.fs (cfg.place s)).node = some .dir)
    (htarget : st'.sweeper.target = st.sweeper.target ∨ st'.sweeper.target = none) :
    Inv cfg st' where
  there := fun s hs => hdirs s (hlive s hs) (h.there s (hlive s hs))
  untargeted := by
    intro b hb s hs
    rcases htarget with htarget | htarget
    · rw [htarget] at hb
      exact h.untargeted b hb s (hlive s hs)
    · rw [htarget] at hb
      cases hb

theorem Inv.session {a : Recorder.Act S} (h : Inv cfg st) (hkeeps : KeepsLive cfg st (.session a))
    (hstep : stepSession cfg st a = some st') : Inv cfg st' := by
  obtain ⟨hsweeper, hsessions, hlive⟩ := live_of_session hstep
  constructor
  · intro s hs
    rcases hlive s hs with hs | ⟨rfl, o, ho, hmakes⟩
    · exact dir_of_step hsessions (h.there s hs)
    · exact dir_of_makes hsessions ho hmakes
  · intro b hb s hs
    rw [hsweeper] at hb
    rcases hlive s hs with hs | ⟨rfl, o, ho, hmakes⟩
    · exact h.untargeted b hb s hs
    · exact hkeeps o ho hmakes b hb

omit [DecidableEq S] in
/-- What is removed is not the directory of a live session. -/
theorem Inv.put_unlink (h : Inv cfg st) {b : Bundle} (hb : b ∈ st.sweeper.target) {q : List Bytes}
    (hq : b.dir <+: q) {s : S} (hs : Live st s) :
    ((st.put q (st.sessions.fs q).unlink).sessions.fs (cfg.place s)) =
      st.sessions.fs (cfg.place s) := by
  have hne : cfg.place s ≠ q := by
    rintro rfl
    exact h.untargeted b hb s hs hq
  exact Function.update_of_ne hne _ _

/-- The steps of the sweeper that only look at the disk, or give up. -/
def Act.looks : Act S → Bool
  | .readDir | .walk | .visit _ | .walked | .sort _ | .removeFails | .done => true
  | _ => false

theorem goto_of_step (h : step cfg st a = some st') (ha : a.looks = true) :
    ∃ pc, st' = st.goto pc ∧ pc.target = none := by
  cases a with
  | readDir | walk | walked | removeFails | done =>
      rw [step] at h
      split at h
      · cases h
        exact ⟨_, rfl, rfl⟩
      · cases h
  | visit q | sort bundles =>
      rw [step] at h
      split at h
      · split at h
        · cases h
          exact ⟨_, rfl, rfl⟩
        · cases h
      · cases h
  | session _ | fails _ | other _ _ | clock _ | decide | unlink _ | removed => cases ha

theorem Inv.step (h : Inv cfg st) (hkeeps : KeepsLive cfg st a)
    (hstep : step cfg st a = some st') : Inv cfg st' := by
  cases a with
  | session a => exact h.session hkeeps hstep
  | fails s =>
      rw [Sweeper.step] at hstep
      split at hstep
      · rename_i o k hphase
        cases hstep
        refine h.of_kept (fun j hj => ⟨hj.1, fun hfin => ?_⟩) (fun _ _ hdir => hdir) (.inl rfl)
        by_cases hjs : j = s
        · subst hjs
          cases hphase.symm.trans hfin
        · exact hj.2 ((Function.update_of_ne hjs _ _).trans hfin)
      · cases hstep
  | other q slot =>
      rw [Sweeper.step] at hstep
      split at hstep
      · rename_i hfile
        cases hstep
        refine h.of_kept (fun s hs => ?_) (fun s hs hdir => ?_) (.inl ?_)
        · rw [Live, State.touch_made, State.touch_sessions] at hs
          exact hs
        · dsimp only
          rw [State.touch_sessions]
          have hne : cfg.place s ≠ q := by
            rintro rfl
            exact hfile.1 hdir
          exact (congrArg Slot.node (Function.update_of_ne hne _ _)).trans hdir
        · dsimp only
          rw [State.touch_sweeper]
          rfl
      · cases hstep
  | clock t =>
      cases hstep
      exact h.of_kept (fun _ hs => hs) (fun _ _ hdir => hdir) (.inl rfl)
  | readDir | walk | visit q | walked | sort bundles | removeFails | done =>
      obtain ⟨pc, rfl, hpc⟩ := goto_of_step hstep rfl
      exact h.of_kept (fun _ hs => hs) (fun _ _ hdir => hdir) (.inr hpc)
  | decide =>
      rw [Sweeper.step] at hstep
      split at hstep
      · rename_i cutoff b bundles total hpc
        have hpass : ∀ s, Live st s → Hits cfg b s → condemned cfg cutoff b total = false :=
          hkeeps (cutoff, b, total) (by rw [hpc]; rfl)
        split at hstep
        · rename_i hcond
          cases hstep
          refine ⟨h.there, fun b' hb s hs hhits => ?_⟩
          obtain rfl := Option.some.inj hb
          exact Bool.false_ne_true ((hpass s hs hhits).symm.trans hcond)
        · cases hstep
          exact h.of_kept (fun _ hs => hs) (fun _ _ hdir => hdir) (.inr rfl)
      · cases hstep
  | unlink q =>
      rw [Sweeper.step] at hstep
      split at hstep
      · rename_i b cutoff bundles total hpc
        split at hstep
        · rename_i hin
          cases hstep
          have hb : b ∈ st.sweeper.target := by rw [hpc]; rfl
          refine h.of_kept (fun _ hs => hs) (fun s hs hdir => ?_) (.inl rfl)
          rw [h.put_unlink hb hin.1 hs]
          exact hdir
        · cases hstep
      · cases hstep
  | removed =>
      rw [Sweeper.step] at hstep
      split at hstep
      · rename_i b cutoff bundles total hpc
        split at hstep
        · cases hstep
          have hb : b ∈ st.sweeper.target := by rw [hpc]; rfl
          refine h.of_kept (fun _ hs => hs) (fun s hs hdir => ?_) (.inr rfl)
          exact (congrArg Slot.node (h.put_unlink hb (List.prefix_refl b.dir) hs)).trans hdir
        · cases hstep
      · cases hstep

/-- The `os.MkdirAll` of its Begin makes a session live. -/
theorem live_of_makes {a : Recorder.Act S} (h : stepSession cfg st a = some st')
    {o : Op (Owned S)} (ho : opOf st.sessions a = some o)
    (hmakes : makes cfg st a.session o = true) : Live st' a.session := by
  rw [stepSession] at h
  obtain ⟨sessions, hstep, h⟩ := Option.map_eq_some_iff.mp h
  rw [ho] at h
  cases h
  refine ⟨?_, unfinished_of_op hstep ho⟩
  dsimp only [State.note]
  rw [if_pos hmakes]
  exact Function.update_self _ _ _

/-- A step that leaves no removal of a live session's directory has met the
    condition. -/
theorem keepsLive_of_untargeted (hstep : step cfg st a = some st') (h : Untargeted cfg st') :
    KeepsLive cfg st a := by
  cases a with
  | decide =>
      intro x hx s hs hhits
      refine Bool.of_not_eq_true fun hcond => ?_
      rw [step] at hstep
      split at hstep
      · rename_i cutoff b bundles total hpc
        rw [hpc] at hx
        obtain rfl := Option.some.inj hx
        rw [if_pos hcond] at hstep
        cases hstep
        exact h b rfl s hs hhits
      · cases hstep
  | session a =>
      intro o ho hmakes b hb hhits
      rw [← (live_of_session hstep).1] at hb
      exact h b hb a.session (live_of_makes hstep ho hmakes) hhits
  | _ => trivial

end Steps

-- ============================================================================
-- Runs
-- ============================================================================

section Runs

variable (cfg : Setup S) (as : List (Act S))

/-- Where the sweeper's loop passes over the bundles of live sessions and no Begin
    makes a directory that is being removed, no pass removes the directory of a live
    session, nor anything in it. -/
theorem sweep_sparesLive (h : (machine cfg).Guarded (KeepsLive cfg) (initial cfg) as) :
    (machine cfg).Guarded (Spares cfg) (initial cfg) as ∧
      (machine cfg).Always (DirsThere cfg) (initial cfg) as := by
  have halways : (machine cfg).Always (Inv cfg) (initial cfg) as :=
    Machine.always_of_guarded (fun _ _ _ hinv hkeeps hstep => hinv.step hkeeps hstep) h
      (inv_initial cfg)
  refine ⟨halways.guarded fun st a hinv => ?_, halways.mono fun _ hinv => hinv.there⟩
  cases a with
  | unlink q => exact hinv.untargeted
  | removed => exact hinv.untargeted
  | _ => trivial

/-- The condition is the one under which `os.RemoveAll` is never called on the
    directory of a live session, nor at work on it. -/
theorem untargeted_iff {st : State S} (hrun : (machine cfg).run (initial cfg) as = some st) :
    (machine cfg).Always (Untargeted cfg) (initial cfg) as ↔
      (machine cfg).Guarded (KeepsLive cfg) (initial cfg) as := by
  constructor
  · intro h
    exact Machine.guarded_of_always (fun _ _ _ hinv hkeeps hstep => hinv.step hkeeps hstep)
      (fun _ _ _ _ hstep hP => keepsLive_of_untargeted hstep hP) hrun (inv_initial cfg) h
  · intro h
    exact (Machine.always_of_guarded (fun _ _ _ hinv hkeeps hstep => hinv.step hkeeps hstep) h
      (inv_initial cfg)).mono fun _ hinv => hinv.untargeted

end Runs

-- ============================================================================
-- A pass over the bundle of a session, with its files and without
-- ============================================================================

def aCall : List Bytes := [ascii "r", ascii "a"]
def oldCall : List Bytes := [ascii "r", ascii "old"]

/-- A second. -/
def second : Time := 1000000000

theorem baseDir_ne : ascii "/r" ≠ [] := by decide

/-- One session, beside an empty file that was written ten days ago. -/
def withOldCall : Setup Unit where
  cwd := []
  recorder := ⟨ascii "/r", baseDir_ne, false⟩
  session _ := { plainSession with fsUUID := ascii "a" }
  marshal := fun _ => none
  disk q :=
    if q = [ascii "r"] ∨ q = oldCall then Slot.empty.mkdir
    else if q = oldCall ++ [metaJson] then Slot.empty.newFile
    else .empty
  disk_unowned := by
    intro q file h
    split at h
    · cases h
    · split at h
      · cases h
        intro b hb
        cases hb
      · cases h
  retention := 24 * 3600 * second
  maxBytes := 1073741824
  used := [[ascii "r"], oldCall, oldCall ++ [metaJson]]
  used_complete := by
    intro q h
    split at h
    · rename_i hq
      rcases hq with rfl | rfl
      · exact List.mem_cons_self
      · exact List.mem_cons_of_mem _ List.mem_cons_self
    · split at h
      · rename_i hq
        rw [hq]
        exact List.mem_of_getElem? (i := 2) rfl
      · exact absurd rfl h
  mtimes := fun _ _ => 63900000000 * second - 10 * 24 * 3600 * second
  clock := 63900000000 * second

/-- Begin up to its first operation, or all of it. -/
def begins (ops : Nat) : List (Act Unit) :=
  .session (.begin ()) :: List.replicate ops (.session (.op ()))

/-- A pass up to its second loop; `files` are those of the session's bundle. -/
def pass (files : List Bytes) (sorted : List Bundle) : List (Act Unit) :=
  .readDir :: .walk :: .visit aCall :: files.map (fun f => Act.visit (aCall ++ [f])) ++
    [.walked, .walk, .visit oldCall, .visit (oldCall ++ [metaJson]), .walked, .sort sorted]

def oldBundle : Bundle := ⟨oldCall, 63900000000 * second - 10 * 24 * 3600 * second, 0⟩

/-- The old bundle goes, that of the session stays. -/
def sparing : List (Act Unit) :=
  begins 4 ++ pass [callerRaw, agentRaw] [oldBundle, ⟨aCall, 63900000000 * second, 0⟩] ++
    [.decide, .unlink (oldCall ++ [metaJson]), .removed, .decide, .done]

theorem sweep_sparesLive_withOldCall :
    (∃ st, (machine withOldCall).run (initial withOldCall) sparing = some st ∧
      (st.sessions.fs oldCall).node = none) ∧
    (machine withOldCall).Guarded (Spares withOldCall) (initial withOldCall) sparing ∧
      (machine withOldCall).Always (DirsThere withOldCall) (initial withOldCall) sparing := by
  constructor
  · have hrun : ((machine withOldCall).run (initial withOldCall) sparing).any (fun st =>
        (st.sessions.fs oldCall).node = none) = true := by decide +kernel
    obtain ⟨st, hst, hgone⟩ := (Option.any_eq_true _ _).mp hrun
    exact ⟨st, hst, of_decide_eq_true hgone⟩
  · exact sweep_sparesLive withOldCall sparing (by decide +kernel)

/-- The directory has just been made: without files its time is the zero time, which is
    before every cutoff. -/
theorem emptyDirectory_swept :
    ∃ st, (machine withOldCall).run (initial withOldCall)
        (begins 1 ++ pass [] [⟨aCall, 0, 0⟩, oldBundle] ++ [.decide, .removed]) = some st ∧
      Live st () ∧ ¬ DirsThere withOldCall st := by
  have hrun : ((machine withOldCall).run (initial withOldCall)
      (begins 1 ++ pass [] [⟨aCall, 0, 0⟩, oldBundle] ++ [.decide, .removed])).any (fun st =>
        Live st () ∧ (st.sessions.fs (withOldCall.place ())).node = none) = true := by
    decide +kernel
  obtain ⟨st, hst, hgone⟩ := (Option.any_eq_true _ _).mp hrun
  obtain ⟨hlive, hnone⟩ := of_decide_eq_true hgone
  refine ⟨st, hst, hlive, fun hthere => ?_⟩
  cases (hthere () hlive).symm.trans hnone

end FsBridge.Bridge.Sweeper
