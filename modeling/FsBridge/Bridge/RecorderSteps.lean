/-
  FsBridge.Bridge.RecorderSteps

  What a step of one session does among the others.

  `SessionInv` is what holds of a session and depends on the places of its bundle
  only (`SessionInv.agree`): while Begin or Finish run, where they would end if they
  ran on alone.  A step of the session keeps it and leaves all other places alone
  (`moved_step`).
-/

import FsBridge.Bridge.RecorderRuns

namespace FsBridge.Bridge.Recorder

open FsBridge.Lib FsBridge.Lib.Fs

variable {S : Type}

-- ============================================================================
-- Whose bytes
-- ============================================================================

/-- All bytes are the session's, or no session's. -/
def OwnedBy (s : S) (bytes : List (Owned S)) : Prop :=
  ∀ b ∈ bytes, b.owner = none ∨ b.owner = some s

theorem ownedBy_audio (s : S) (pcm : List UInt8) : OwnedBy s (audio s pcm) := by
  intro b hb
  obtain ⟨v, -, rfl⟩ := List.mem_map.mp hb
  exact .inr rfl

theorem OwnedBy.append {s : S} {a b : List (Owned S)} (ha : OwnedBy s a) (hb : OwnedBy s b) :
    OwnedBy s (a ++ b) := by
  intro c hc
  rcases List.mem_append.mp hc with hc | hc
  · exact ha c hc
  · exact hb c hc

theorem OwnedBy.heldByte {s : S} {down : List (Owned S)} (h : OwnedBy s down) (size g : Nat) :
    (heldByte size down g).owner = none ∨ (heldByte size down g).owner = some s := by
  induction g using Nat.strongRecOn with
  | _ g ih =>
      rw [Bridge.heldByte]
      split
      · rename_i hlt
        rw [List.getD_eq_getElem _ _ hlt]
        exact h _ (List.getElem_mem hlt)
      · split
        · rename_i hback
          exact ih (g - size) (by omega)
        · exact .inl rfl

/-- The bytes of a session's audio.wav. -/
theorem ownedBy_wavFile {s : S} {up down : List (Owned S)} (rate : Int) (hup : OwnedBy s up)
    (hdown : OwnedBy s down) : OwnedBy s (wavFile rate up down) := by
  refine OwnedBy.append ?_ ?_
  · intro b hb
    obtain ⟨v, -, rfl⟩ := List.mem_map.mp hb
    exact .inl rfl
  · intro b hb
    rcases mem_interleave hb with hb | hb
    · exact hup b hb
    · obtain ⟨g, -, rfl⟩ := List.mem_map.mp hb
      exact hdown.heldByte blockSize g

theorem OwnedBy.oneOwner {s : S} {file : List (Owned S)} (h : OwnedBy s file) : OneOwner file := by
  have hone : ∀ b ∈ file, ∀ s', b.owner = some s' → s' = s := by
    intro b hb s' hs'
    rcases h b hb with hnone | hsome
    · rw [hnone] at hs'
      exact absurd hs' (by simp)
    · rw [hsome] at hs'
      exact (Option.some.inj hs').symm
  intro b hb b' hb' s1 s2 h1 h2
  rw [hone b hb s1 h1, hone b' hb' s2 h2]

-- ============================================================================
-- The places of a session
-- ============================================================================

section Places

variable {cfg : Setup S} {s : S}

theorem bundle_dir : cfg.Bundle s (Path.resolve cfg.cwd (cfg.dir s)) :=
  List.mem_cons_self

theorem bundle_file {f : Bytes} (hf : f ∈ bundleEntries) :
    cfg.Bundle s (filePlace cfg.cwd (cfg.dir s) f) :=
  List.mem_cons_of_mem _ (List.mem_map_of_mem hf)

/-- Begin works on the places of its session. -/
theorem uses_begin : (cells (Owned S) cfg.cwd).Uses (cfg.Bundle s)
    (cfg.recorder.begin (cfg.session s)) := by
  refine uses_mkdirAll bundle_dir fun made => ?_
  cases made with
  | false => trivial
  | true =>
      refine uses_create (bundle_file (by decide)) trivial fun callerGen => ?_
      refine uses_create (bundle_file (by decide)) trivial fun agentGen => ?_
      dsimp only
      split
      · exact uses_create (bundle_file (by decide)) trivial fun _ => trivial
      · trivial

theorem uses_wavLoop {B : Type} [Octet B] {cwd : List Bytes} {K : List Bytes → Prop}
    (size fuel : Nat) {caller agent out : Handle} (abuf : List B) (remaining : Nat)
    (hcaller : K (Path.resolve cwd caller.path)) (hagent : K (Path.resolve cwd agent.path))
    (hout : K (Path.resolve cwd out.path)) :
    (cells B cwd).Uses K (wavLoop size fuel caller agent out abuf remaining) := by
  induction fuel generalizing caller agent out abuf remaining with
  | zero => trivial
  | succ fuel ih =>
      rw [wavLoop]
      split
      · trivial
      · refine uses_readFull hcaller _ fun cbuf offset => ?_
        dsimp only
        split
        · trivial
        · refine uses_readFull hagent _ fun read offset' => ?_
          refine uses_write hout _ fun offset'' => ?_
          exact ih _ _ hcaller hagent hout

/-- Finish works on the places of its session. -/
theorem uses_finish {cr : CallRecording} (hdir : cr.dir = cfg.dir s) :
    (cells (Owned S) cfg.cwd).Uses (cfg.Bundle s) (cr.finish cfg.marshal) := by
  have hfile : ∀ f ∈ bundleEntries, cfg.Bundle s (filePlace cfg.cwd cr.dir f) := by
    intro f hf
    rw [hdir]
    exact bundle_file hf
  refine Cells.uses_bind ?_ fun ok => Cells.uses_bind ?_ fun _ => trivial
  · refine uses_openFile (hfile callerRaw (by decide)) trivial fun callerGen => ?_
    refine uses_openFile (hfile agentRaw (by decide)) trivial fun agentGen => ?_
    refine uses_create (hfile audioWav (by decide)) trivial fun outGen => ?_
    refine uses_write (hfile audioWav (by decide)) _ fun offset => ?_
    exact uses_wavLoop _ _ _ _ (hfile callerRaw (by decide)) (hfile agentRaw (by decide))
      (hfile audioWav (by decide))
  · refine (uses_cleanup cr cfg.marshal).mono ?_
    rintro q ⟨f, hf, rfl⟩
    have hsub : ∀ f ∈ [callerRaw, agentRaw, metaJson], f ∈ bundleEntries := by decide
    exact hfile f (hsub f hf)

end Places

-- ============================================================================
-- One session
-- ============================================================================

/-- The disk of a session that has finished. -/
structure Final (cfg : Setup S) (s : S) (up : List (Owned S)) (fs : List Bytes → Slot (Owned S)) :
    Prop where
  made : (fs (Path.resolve cfg.cwd (cfg.dir s))).node = some .dir
  wav : ∃ file data, (fs (filePlace cfg.cwd (cfg.dir s) audioWav)).content = some file ∧
    sampleData file = some data ∧ leftChannel data = up ∧ OwnedBy s file

/-- What holds of a session in each phase. -/
def SessionInv (cfg : Setup S) (s : S) (up : List (Owned S)) (fs : List Bytes → Slot (Owned S)) :
    Phase (Owned S) → Prop
  | .idle => up = []
  | .beginning p => up = [] ∧ (cells (Owned S) cfg.cwd).Uses (cfg.Bundle s) p ∧
      ∃ cr fs', (cells (Owned S) cfg.cwd).run p fs = (some cr, fs') ∧ cr.dir = cfg.dir s ∧
        Recording cfg.cwd fs' cr [] []
  | .recording cr => cr.dir = cfg.dir s ∧ OwnedBy s up ∧
      ∃ down, OwnedBy s down ∧ Recording cfg.cwd fs cr up down
  | .unrecorded => False
  | .finishing p => (cells (Owned S) cfg.cwd).Uses (cfg.Bundle s) p ∧
      Final cfg s up ((cells (Owned S) cfg.cwd).run p fs).2
  | .finished => Final cfg s up fs

section

variable {cfg : Setup S} {s : S} {up : List (Owned S)} {fs fs' : List Bytes → Slot (Owned S)}

theorem Final.agree (h : Final cfg s up fs) (hag : Cells.AgreeOn (cfg.Bundle s) fs fs') :
    Final cfg s up fs' := by
  constructor
  · rw [← hag _ bundle_dir]
    exact h.made
  · rw [← hag _ (bundle_file (by decide))]
    exact h.wav

theorem recording_agree {cr : CallRecording} {down : List (Owned S)} (hdir : cr.dir = cfg.dir s)
    (h : Recording cfg.cwd fs cr up down) (hag : Cells.AgreeOn (cfg.Bundle s) fs fs') :
    Recording cfg.cwd fs' cr up down := by
  refine h.of_eq ?_ ?_
  · intro f hf
    have hsub : ∀ f ∈ [callerRaw, agentRaw, audioWav], f ∈ bundleEntries := by decide
    rw [hdir]
    exact (hag _ (bundle_file (hsub f hf))).symm
  · rw [hdir]
    exact (hag _ bundle_dir).symm

/-- It depends on the places of the session's bundle only. -/
theorem SessionInv.agree {phase : Phase (Owned S)} (h : SessionInv cfg s up fs phase)
    (hag : Cells.AgreeOn (cfg.Bundle s) fs fs') : SessionInv cfg s up fs' phase := by
  cases phase with
  | idle => exact h
  | beginning p =>
      obtain ⟨hup, huses, cr, fs1, hrun, hdir, hrec⟩ := h
      obtain ⟨hresult, hstore⟩ := huses.agree hag
      rw [hrun] at hresult hstore
      exact ⟨hup, huses, cr, ((cells (Owned S) cfg.cwd).run p fs').2, Prod.ext hresult.symm rfl,
        hdir, recording_agree hdir hrec hstore⟩
  | recording cr =>
      obtain ⟨hdir, hup, down, hdown, hrec⟩ := h
      exact ⟨hdir, hup, down, hdown, recording_agree hdir hrec hag⟩
  | unrecorded => exact h
  | finishing p =>
      obtain ⟨huses, hfinal⟩ := h
      exact ⟨huses, hfinal.agree (huses.agree hag).2⟩
  | finished => exact Final.agree h hag

/-- A session begins. -/
theorem sessionInv_begin (hclear : Clear cfg.cwd (cfg.dir s) fs) :
    SessionInv cfg s [] fs (.beginning (cfg.recorder.begin (cfg.session s))) := by
  obtain ⟨cr, fs1, hrun, hrec, hdir, -⟩ := run_begin cfg.recorder (cfg.session s) hclear
  exact ⟨rfl, uses_begin, cr, fs1, hrun, hdir, hrec⟩

/-- A session finishes. -/
theorem sessionInv_finish {cr : CallRecording} (h : SessionInv cfg s up fs (.recording cr))
    (heven : up.length % 2 = 0) (hlen : up.length < 2 ^ 31) :
    SessionInv cfg s up fs (.finishing (cr.finish cfg.marshal)) := by
  obtain ⟨hdir, hup, down, hdown, hrec⟩ := h
  obtain ⟨fs1, hrun, ⟨gen, hholds⟩, hmade⟩ := hrec.run_finish cfg.marshal
  obtain ⟨data, hdata, hleft, -⟩ := wavFile_channels cr.rate down heven hlen
  refine ⟨uses_finish hdir, ?_⟩
  rw [hrun]
  constructor
  · rw [← hdir]
    exact hmade
  · rw [← hdir]
    exact ⟨_, data, hholds.content, hdata, hleft, ownedBy_wavFile cr.rate hup hdown⟩

end

-- ============================================================================
-- Steps
-- ============================================================================

variable [DecidableEq S]

def Act.session : Act S → S
  | .begin s | .op s | .uplink s _ _ | .downlink s _ | .finish s => s

/-- What a step of a session does: it keeps what holds of the session, and leaves
    everything else alone. -/
structure Moved (cfg : Setup S) (s : S) (st st' : State S) : Prop where
  inv : SessionInv cfg s (st'.up s) st'.fs (st'.phase s)
  begun : st'.phase s ≠ .idle
  frame : ∀ q, ¬ cfg.Bundle s q → st'.fs q = st.fs q
  others : ∀ s', s' ≠ s → st'.phase s' = st.phase s' ∧ st'.up s' = st.up s'

section

variable {cfg : Setup S} {s : S} {st st' : State S}

/-- The session works on its bundle and goes to another phase. -/
theorem moved_update {phase : Phase (Owned S)} {fs : List Bytes → Slot (Owned S)}
    {up : List (Owned S)} (hphase : phase ≠ .idle)
    (hframe : ∀ q, ¬ cfg.Bundle s q → fs q = st.fs q) (h : SessionInv cfg s up fs phase) :
    Moved cfg s st
      { fs := fs, phase := Function.update st.phase s phase,
        up := Function.update st.up s up } where
  inv := by
    dsimp only
    rw [Function.update_self, Function.update_self]
    exact h
  begun := by
    dsimp only
    rw [Function.update_self]
    exact hphase
  frame := hframe
  others := fun s' hs' => ⟨Function.update_of_ne hs' _ _, Function.update_of_ne hs' _ _⟩

theorem moved_fs {phase : Phase (Owned S)} {fs : List Bytes → Slot (Owned S)}
    (hphase : phase ≠ .idle) (hframe : ∀ q, ¬ cfg.Bundle s q → fs q = st.fs q)
    (h : SessionInv cfg s (st.up s) fs phase) :
    Moved cfg s st { st.setPhase s phase with fs := fs } := by
  have hmoved := moved_update hphase hframe h
  rw [Function.update_eq_self] at hmoved
  exact hmoved

/-- The session goes to another phase. -/
theorem moved_setPhase {phase : Phase (Owned S)} (hphase : phase ≠ .idle)
    (h : SessionInv cfg s (st.up s) st.fs phase) : Moved cfg s st (st.setPhase s phase) :=
  moved_fs hphase (fun _ _ => rfl) h

omit [DecidableEq S] in
/-- Nothing happens. -/
theorem moved_refl (hphase : st.phase s ≠ .idle)
    (h : SessionInv cfg s (st.up s) st.fs (st.phase s)) : Moved cfg s st st :=
  ⟨h, hphase, fun _ _ => rfl, fun _ _ => ⟨rfl, rfl⟩⟩

theorem moved_op (hinv : SessionInv cfg s (st.up s) st.fs (st.phase s))
    (hstep : stepOp cfg st s = some st') : Moved cfg s st st' := by
  rw [stepOp] at hstep
  split at hstep
  · rename_i cr hphase
    rw [hphase] at hinv
    obtain ⟨hup, -, cr', fs1, hrun, hdir, hrec⟩ := hinv
    obtain ⟨hcr, rfl⟩ := Prod.mk.inj hrun
    obtain rfl := Option.some.inj hcr
    obtain rfl := Option.some.inj hstep
    refine moved_setPhase (by simp) ⟨hdir, ?_, [], by simp [OwnedBy], ?_⟩
    · rw [hup]
      simp [OwnedBy]
    · rw [hup]
      exact hrec
  · rename_i hphase
    rw [hphase] at hinv
    obtain ⟨-, -, cr', fs1, hrun, -⟩ := hinv
    exact absurd (Prod.mk.inj hrun).1 (by simp)
  · rename_i p _ _ hphase
    rw [hphase] at hinv
    obtain ⟨hup, huses, cr, fs1, hrun, hdir, hrec⟩ := hinv
    obtain rfl := Option.some.inj hstep
    refine moved_fs (by simp) (fun q hq => huses.next_frame st.fs hq)
      ⟨hup, huses.next st.fs, cr, fs1, ?_, hdir, hrec⟩
    rw [Cells.run_next]
    exact hrun
  · rename_i ok hphase
    rw [hphase] at hinv
    obtain rfl := Option.some.inj hstep
    exact moved_setPhase (by simp) hinv.2
  · rename_i p _ hphase
    rw [hphase] at hinv
    obtain ⟨huses, hfinal⟩ := hinv
    obtain rfl := Option.some.inj hstep
    refine moved_fs (by simp) (fun q hq => huses.next_frame st.fs hq) ⟨huses.next st.fs, ?_⟩
    rw [Cells.run_next]
    exact hfinal
  · exact absurd hstep (by simp)

theorem moved_uplink {cr : CallRecording} (sMetadata : Option Bytes) (pcm : List UInt8)
    (hinv : SessionInv cfg s (st.up s) st.fs (.recording cr)) :
    let r := (cells (Owned S) cfg.cwd).run (cr.uplink sMetadata (audio s pcm)) st.fs
    Moved cfg s st { (st.hear s pcm).setPhase s (.recording r.1) with fs := r.2 } := by
  obtain ⟨hdir, hup, down, hdown, hrec⟩ := hinv
  obtain ⟨cr', slot, hrun, hrec', hdir', -⟩ := hrec.run_uplink sMetadata (audio s pcm)
  rw [hrun]
  refine moved_update (by simp) ?_ ⟨hdir'.trans hdir, hup.append (ownedBy_audio s pcm), down, hdown,
    hrec'⟩
  intro q hq
  refine Function.update_of_ne ?_ _ _
  rintro rfl
  rw [hdir] at hq
  exact hq (bundle_file (by decide))

theorem moved_downlink {cr : CallRecording} (pcm : List UInt8)
    (hinv : SessionInv cfg s (st.up s) st.fs (.recording cr)) :
    let r := (cells (Owned S) cfg.cwd).run (cr.downlink (audio s pcm)) st.fs
    Moved cfg s st { st.setPhase s (.recording r.1) with fs := r.2 } := by
  obtain ⟨hdir, hup, down, hdown, hrec⟩ := hinv
  obtain ⟨cr', slot, hrun, hrec', hdir', -⟩ := hrec.run_downlink (audio s pcm)
  rw [hrun]
  refine moved_fs (by simp) ?_ ⟨hdir'.trans hdir, hup, _, hdown.append (ownedBy_audio s pcm),
    hrec'⟩
  intro q hq
  refine Function.update_of_ne ?_ _ _
  rintro rfl
  rw [hdir] at hq
  exact hq (bundle_file (by decide))

end

/-- Every step, by its action. -/
theorem moved_step {cfg : Setup S} {st st' : State S} {a : Act S}
    (hinv : SessionInv cfg a.session (st.up a.session) st.fs (st.phase a.session))
    (hguard : Apart cfg st a) (hstep : step cfg st a = some st') :
    Moved cfg a.session st st' := by
  cases a with
  | begin s =>
      rw [step] at hstep
      split at hstep
      · rename_i hphase
        obtain rfl := Option.some.inj hstep
        have hup : st.up s = [] := by
          rw [Act.session, hphase] at hinv
          exact hinv
        refine moved_setPhase (by simp) ?_
        rw [Act.session, hup]
        exact sessionInv_begin hguard.1
      · exact absurd hstep (by simp)
  | op s => exact moved_op hinv hstep
  | uplink s sMetadata pcm =>
      rw [step] at hstep
      rw [Act.session] at hinv
      split at hstep
      · rename_i cr hphase
        obtain rfl := Option.some.inj hstep
        rw [hphase] at hinv
        exact moved_uplink sMetadata pcm hinv
      · rename_i hphase
        rw [hphase] at hinv
        exact hinv.elim
      · exact absurd hstep (by simp)
  | downlink s pcm =>
      rw [step] at hstep
      rw [Act.session] at hinv
      split at hstep
      · rename_i cr hphase
        obtain rfl := Option.some.inj hstep
        rw [hphase] at hinv
        exact moved_downlink pcm hinv
      · rename_i hphase
        rw [hphase] at hinv
        exact hinv.elim
      · rename_i hphase
        obtain rfl := Option.some.inj hstep
        exact moved_refl (by rw [Act.session, hphase]; simp) hinv
      · rename_i hphase
        obtain rfl := Option.some.inj hstep
        exact moved_refl (by rw [Act.session, hphase]; simp) hinv
      · exact absurd hstep (by simp)
  | finish s =>
      rw [step] at hstep
      rw [Act.session] at hinv
      split at hstep
      · rename_i cr hphase
        obtain rfl := Option.some.inj hstep
        rw [hphase] at hinv
        exact moved_setPhase (by simp) (sessionInv_finish hinv hguard.1 hguard.2)
      · rename_i hphase
        rw [hphase] at hinv
        exact hinv.elim
      · exact absurd hstep (by simp)

end FsBridge.Bridge.Recorder
