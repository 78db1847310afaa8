/-
  FsBridge.Bridge.RecorderIsolation

  Sessions whose bundles share no place keep their recordings, however their steps
  interleave.  Two sessions of one call share all of them: the second Begin empties
  the files that the first one still writes to.
-/

import FsBridge.Bridge.RecorderSteps

namespace FsBridge.Bridge.Recorder

open FsBridge.Lib FsBridge.Lib.Fs

variable {S : Type} [DecidableEq S]

-- ============================================================================
-- The invariant
-- ============================================================================

/-- What holds in every run whose sessions keep apart. -/
structure Inv (cfg : Setup S) (st : State S) : Prop where
  session : ∀ s, SessionInv cfg s (st.up s) st.fs (st.phase s)
  apart : ∀ s s', s ≠ s' → st.phase s ≠ .idle → st.phase s' ≠ .idle →
    ∀ q, cfg.Bundle s q → ¬ cfg.Bundle s' q
  untouched : ∀ q, (∀ s, st.phase s ≠ .idle → ¬ cfg.Bundle s q) → st.fs q = cfg.disk q

section

variable {cfg : Setup S} {st st' : State S}

omit [DecidableEq S] in
theorem inv_initial (cfg : Setup S) : Inv cfg (initial cfg) where
  session := fun _ => rfl
  apart := fun _ _ _ hs => absurd rfl hs
  untouched := fun _ _ => rfl

/-- A session that is idle can only begin. -/
theorem step_eq_none_of_idle {a : Act S} (hidle : st.phase a.session = .idle)
    (hne : a ≠ .begin a.session) : step cfg st a = none := by
  cases a with
  | begin s => exact absurd rfl hne
  | op s =>
      rw [Act.session] at hidle
      rw [step, stepOp, hidle]
  | uplink s sMetadata pcm | downlink s pcm | finish s =>
      rw [Act.session] at hidle
      rw [step, hidle]

/-- A session that takes a step is begun, or begins. -/
theorem begin_or_begun {a : Act S} (hstep : step cfg st a = some st') :
    a = .begin a.session ∨ st.phase a.session ≠ .idle := by
  by_cases hbegin : a = .begin a.session
  · exact .inl hbegin
  · refine .inr fun hidle => ?_
    have hnone : step cfg st a = none := step_eq_none_of_idle hidle hbegin
    exact absurd (hstep.symm.trans hnone) (by simp)

/-- The session of the step shares no place with another one that has begun. -/
theorem Inv.apart_of_step (h : Inv cfg st) {a : Act S} (hguard : Apart cfg st a)
    (hstep : step cfg st a = some st') {s' : S} (hne : s' ≠ a.session)
    (hbegun : st.phase s' ≠ .idle) : ∀ q, cfg.Bundle a.session q → ¬ cfg.Bundle s' q := by
  rcases begin_or_begun hstep with hbegin | hsession
  · rw [hbegin] at hguard
    exact hguard.2 s' hbegun
  · exact h.apart a.session s' (Ne.symm hne) hsession hbegun

theorem Inv.step {a : Act S} (h : Inv cfg st) (hguard : Apart cfg st a)
    (hstep : step cfg st a = some st') : Inv cfg st' := by
  have hmoved := moved_step (h.session a.session) hguard hstep
  have hapart : ∀ s', s' ≠ a.session → st'.phase s' ≠ .idle →
      ∀ q, cfg.Bundle a.session q → ¬ cfg.Bundle s' q := by
    intro s' hne hbegun
    rw [(hmoved.others s' hne).1] at hbegun
    exact h.apart_of_step hguard hstep hne hbegun
  refine ⟨?_, ?_, ?_⟩
  · intro s'
    by_cases hs : s' = a.session
    · rw [hs]
      exact hmoved.inv
    · obtain ⟨hphase, hup⟩ := hmoved.others s' hs
      rw [hup]
      by_cases hidle : st'.phase s' = .idle
      · have hinv := h.session s'
        rw [← hphase, hidle] at hinv
        rw [hidle]
        exact hinv
      · have hagree : Cells.AgreeOn (cfg.Bundle s') st.fs st'.fs := fun q hq =>
          (hmoved.frame q fun hown => hapart s' hs hidle q hown hq).symm
        rw [hphase]
        exact (h.session s').agree hagree
  · intro s s' hne hs hs'
    by_cases hown : s = a.session
    · rw [hown] at hne ⊢
      exact hapart s' (Ne.symm hne) hs'
    · by_cases hown' : s' = a.session
      · rw [hown']
        intro q hq hq'
        exact hapart s hown hs q hq' hq
      · rw [(hmoved.others s hown).1] at hs
        rw [(hmoved.others s' hown').1] at hs'
        exact h.apart s s' hne hs hs'
  · intro q hq
    rw [hmoved.frame q (hq a.session hmoved.begun)]
    refine h.untouched q fun s hs => ?_
    by_cases hown : s = a.session
    · rw [hown]
      exact hq a.session hmoved.begun
    · rw [← (hmoved.others s hown).1] at hs
      exact hq s hs

-- ============================================================================
-- Recordings
-- ============================================================================

omit [DecidableEq S] in
theorem place_eq (s : S) {f : Bytes} (hf : f ∈ bundleEntries) :
    filePlace cfg.cwd (cfg.dir s) f = Path.resolve cfg.cwd (cfg.dir s) ++ [f] :=
  filePlace_eq (bundleDir_ne cfg.recorder (cfg.session s).fsUUID (cfg.session s).id) hf

omit [DecidableEq S] in
/-- An audio.wav in a bundle is the bundle's own. -/
theorem Final.oneOwner {s : S} {up : List (Owned S)} {fs : List Bytes → Slot (Owned S)}
    (h : Final cfg s up fs) {dir : List Bytes} {file : List (Owned S)}
    (hplace : cfg.Bundle s (dir ++ [audioWav]))
    (hfile : (fs (dir ++ [audioWav])).content = some file) : OneOwner file := by
  rcases List.mem_cons.mp hplace with hdir | hmem
  · rw [hdir, Slot.content, h.made] at hfile
    exact absurd hfile (by simp)
  · obtain ⟨f, hf, heq⟩ := List.mem_map.mp hmem
    rw [place_eq s hf] at heq
    obtain ⟨rfl, -⟩ := List.append_inj' heq rfl
    obtain ⟨file', data, hwav, -, -, howned⟩ := h.wav
    rw [place_eq s (by decide), hfile] at hwav
    obtain rfl := Option.some.inj hwav
    exact howned.oneOwner

omit [DecidableEq S] in
theorem Inv.recordingsKept (h : Inv cfg st) : RecordingsKept st := by
  intro hall
  have hfinal : ∀ s, st.phase s = .finished → Final cfg s (st.up s) st.fs := by
    intro s hs
    have hinv := h.session s
    rw [hs] at hinv
    exact hinv
  refine ⟨?_, ?_⟩
  · intro s hs
    obtain ⟨file, data, hfile, hdata, hleft, -⟩ := (hfinal s hs).wav
    rw [place_eq s (by decide)] at hfile
    exact ⟨Path.resolve cfg.cwd (cfg.dir s), file, data, hfile, hdata, hleft⟩
  · intro dir file hfile
    by_cases hbundle : ∃ s, st.phase s ≠ .idle ∧ cfg.Bundle s (dir ++ [audioWav])
    · obtain ⟨s, hbegun, hplace⟩ := hbundle
      have hfinished := (hall s).resolve_left hbegun
      exact (hfinal s hfinished).oneOwner hplace hfile
    · rw [h.untouched _ fun s hs hq => hbundle ⟨s, hs, hq⟩] at hfile
      have hnone := cfg.disk_unowned _ _ hfile
      intro b hb b' hb' s s' hs
      rw [hnone b hb] at hs
      exact absurd hs (by simp)

end

/-- In every run whose sessions keep apart, once all of them have finished each is
    found and none is mixed with another. -/
theorem recordingsKept_of_apart (cfg : Setup S) (schedule : List (Act S))
    (hapart : (machine cfg).Guarded (Apart cfg) (machine cfg).init schedule) :
    (machine cfg).Always RecordingsKept (machine cfg).init schedule := by
  have hinv : (machine cfg).Always (Inv cfg) (machine cfg).init schedule :=
    Machine.always_of_guarded (fun _ _ _ h hguard hstep => h.step hguard hstep) hapart
      (inv_initial cfg)
  exact hinv.mono fun _ h => h.recordingsKept

-- ============================================================================
-- Two sessions of two calls, and of one
-- ============================================================================

/-- Two sessions, of the calls with these UUIDs, on an empty disk. -/
def twoSessions (fsUUID : Bool → Bytes) : Setup Bool where
  cwd := []
  recorder := ⟨ascii "/r", by decide, false⟩
  session s := { plainSession with
    id := if s then ⟨ascii "0b", List.all_eq_true.mp rfl⟩ else plainSession.id
    fsUUID := fsUUID s }
  marshal := fun _ => none
  disk := emptyFs
  disk_unowned := by
    intro q file h
    exact absurd h (by simp [emptyFs, Slot.empty, Slot.content])

/-- The second session begins and sends a sample while the first one is recorded;
    its Finish takes this many steps. -/
def overlapping (steps : Nat) : List (Act Bool) :=
  [.begin false, .op false, .op false, .op false, .op false, .uplink false none [1, 1, 1, 1],
    .begin true, .op true, .op true, .op true, .op true, .uplink true none [2, 2],
    .uplink false none [1, 1], .finish false]
  ++ List.replicate 10 (.op false) ++ [.finish true] ++ List.replicate steps (.op true)

/-- Two calls. -/
def twoCalls : Setup Bool := twoSessions fun s => if s then ascii "b" else ascii "a"

theorem recordingsKept_of_apart_twoCalls :
    (machine twoCalls).Always RecordingsKept (machine twoCalls).init (overlapping 10) :=
  recordingsKept_of_apart twoCalls (overlapping 10) (by decide +kernel)

/-- One call. -/
def oneCall : Setup Bool := twoSessions fun _ => ascii "a"

/-- Two sessions of one call: the audio.wav has the audio of both. -/
theorem oneCall_mixed :
    ¬ (machine oneCall).Always RecordingsKept (machine oneCall).init (overlapping 4) := by
  intro hkept
  have hrun : ((machine oneCall).run (machine oneCall).init (overlapping 4)).any (fun st =>
      AllFinished st ∧
        (st.fs ([ascii "r", ascii "a"] ++ [audioWav])).content.any (¬ OneOwner ·))
      = true := by decide +kernel
  obtain ⟨st, hst, hmixed⟩ := (Option.any_eq_true _ _).mp hrun
  obtain ⟨hall, hfile⟩ := of_decide_eq_true hmixed
  obtain ⟨file, hcontent, hnot⟩ := (Option.any_eq_true _ _).mp hfile
  have hone := ((hkept.last hst) hall).2 _ file hcontent
  exact of_decide_eq_true hnot hone

end FsBridge.Bridge.Recorder
