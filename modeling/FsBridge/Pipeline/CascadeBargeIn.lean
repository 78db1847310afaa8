/-
  FsBridge.Pipeline.CascadeBargeIn

  Barge-in: what the clear frame queued by `bargeIn` promises about the reply
  audio of the turns before it.

  A barge-in cancels the stored context under `callState.mu` and queues the
  clear frame afterwards.  A goroutine that has not stored its cancel function
  yet, or has tested its context and not called `SendAudio` yet, is not stopped
  by either; `Undisturbed` says that there is no such goroutine at the two
  moments, and then no stale audio follows a clear frame.
-/

import FsBridge.Pipeline.CascadeTurns

namespace FsBridge.Pipeline.Cascade

open FsBridge.Lib

-- ============================================================================
-- The property
-- ============================================================================

/-- `f` may enter the queue after `c`: the audio after a clear frame belongs to
    a turn whose transcript came after the speech start. -/
def Frame.MayPrecede : Frame → Frame → Prop
  | .clear turns, .audio turn _ => turns ≤ turn
  | _, _ => True

instance : DecidableRel Frame.MayPrecede := fun c f =>
  match c, f with
  | .clear turns, .audio turn _ => inferInstanceAs (Decidable (turns ≤ turn))
  | .clear _, .clear _ => .isTrue trivial
  | .audio _ _, .audio _ _ => .isTrue trivial
  | .audio _ _, .clear _ => .isTrue trivial

/-- Barge-in safety of everything that has entered the Session's queue. -/
def BargeInSafe (queued : List Frame) : Prop := queued.Pairwise Frame.MayPrecede

instance (queued : List Frame) : Decidable (BargeInSafe queued) :=
  inferInstanceAs (Decidable (queued.Pairwise Frame.MayPrecede))

/-- No goroutine escapes the barge-in: at its critical section none is about to
    register, and when the clear frame is queued none is about to send. -/
def Undisturbed (s : State) : Act → Prop
  | .bargeInLock => ∀ k, (s.turns k).pc ≠ .spawned
  | .clearQueued => ∀ k, (s.turns k).pc.sending = false
  | _ => True

-- ============================================================================
-- Silent and quiet turns
-- ============================================================================

/-- A turn that passes no further test of its context. -/
def Turn.silent (t : Turn) : Prop := t.pc.past = true ∨ t.cancelled = true

/-- A turn that queues no further audio. -/
def Turn.quiet (t : Turn) : Prop := t.silent ∧ t.pc.sending = false

theorem silent_goto {s : State} {j k : Nat} {pc : RespondPc} (h : (s.turns k).silent)
    (hpast : (s.turns j).pc.past = true → pc.past = true) :
    ((s.goto j pc).turns k).silent := by
  unfold Turn.silent
  rw [goto_pc, goto_cancelled]
  rcases h with h | h
  · left
    split
    · rename_i hkj
      subst hkj
      exact hpast h
    · exact h
  · exact .inr h

theorem silent_callCancel {s : State} {k : Nat} (h : (s.turns k).silent) :
    (s.callCancel.turns k).silent := by
  unfold Turn.silent
  rw [callCancel_pc, callCancel_cancelled]
  rcases h with h | h
  · exact .inl h
  · exact .inr (.inl h)

/-- A turn before its first critical section is not silent. -/
theorem TurnInv.not_silent {s : State} (h : TurnInv s) {k : Nat}
    (hpc : (s.turns k).pc = .spawned) : ¬ (s.turns k).silent := by
  rintro (hpast | hctx)
  · rw [hpc] at hpast
    exact absurd hpast (by decide)
  · have hreg := h.cancelled_registered k hctx
    rw [hpc] at hreg
    exact absurd hreg (by decide)

/-- A silent turn stays silent. -/
theorem Effect.silent {s s' : State} {a : Act} (heff : Effect s a s') (hinv : TurnInv s)
    {k : Nat} (hk : k < s.spawned) (h : (s.turns k).silent) : (s'.turns k).silent := by
  cases heff with
  | beside _ hturns hspawned hcancel hturn hqueued hconsumer =>
      rw [hturns]
      exact h
  | spawn _ text hconsumer hturns hspawned hst hqueued hconsumer' =>
      rw [hturns, Function.update_of_ne (by omega)]
      exact h
  | bargeIn hconsumer => exact silent_callCancel h
  | clear hconsumer => exact h
  | register j hpc =>
      have hne : k ≠ j := by
        rintro rfl
        exact hinv.not_silent hpc h
      rw [register_turns_of_ne s hne]
      exact silent_callCancel h
  | move j pc hmove =>
      refine silent_goto h (fun hpast => ?_)
      rw [hmove.not_past] at hpast
      exact absurd hpast (by decide)
  | appendReply j reply hpc => exact silent_goto h (by rw [hpc]; simp [RespondPc.past])
  | pass j chunk hpc hlive => exact silent_goto h (by rw [hpc]; simp [RespondPc.past])
  | audio j chunk hpc hchunk => exact silent_goto h (by rw [hpc]; simp [RespondPc.past])
  | cleanup j hpc =>
      have hgoto : ((s.goto j .finished).turns k).silent := silent_goto h (fun _ => rfl)
      unfold Cascade.cleanup
      split <;> exact hgoto
  | onEnd => exact silent_callCancel h

/-- A turn starts to send only when a live context has just been tested. -/
theorem Effect.sending {s s' : State} {a : Act} (heff : Effect s a s') {k : Nat}
    (hk : k < s.spawned) (h : (s.turns k).silent) (hsend : (s.turns k).pc.sending = false) :
    (s'.turns k).pc.sending = false := by
  have hgoto : ∀ {j : Nat} {pc : RespondPc}, (k = j → pc.sending = false) →
      ((s.goto j pc).turns k).pc.sending = false := by
    intro j pc hpc
    rw [goto_pc]
    split
    · rename_i hkj
      exact hpc hkj
    · exact hsend
  cases heff with
  | beside _ hturns hspawned hcancel hturn hqueued hconsumer =>
      rw [hturns]
      exact hsend
  | spawn _ text hconsumer hturns hspawned hst hqueued hconsumer' =>
      rw [hturns, Function.update_of_ne (by omega)]
      exact hsend
  | bargeIn hconsumer =>
      show (s.callCancel.turns k).pc.sending = false
      rw [callCancel_pc]
      exact hsend
  | clear hconsumer => exact hsend
  | register j hpc =>
      by_cases hkj : k = j
      · subst hkj
        obtain ⟨history, hself⟩ := register_turns_self s k
        rw [hself]
        rfl
      · rw [register_turns_of_ne s hkj, callCancel_pc]
        exact hsend
  | move j pc hmove => exact hgoto fun _ => hmove.not_sending
  | appendReply j reply hpc => exact hgoto fun _ => rfl
  | pass j chunk hpc hlive =>
      refine hgoto fun hkj => ?_
      -- the context of a silent turn in the loop is dead
      subst hkj
      rcases h with hpast | hctx
      · rw [hpc] at hpast
        simp [RespondPc.past] at hpast
      · exact absurd (hctx.symm.trans hlive) (by decide)
  | audio j chunk hpc hchunk => exact hgoto fun _ => rfl
  | cleanup j hpc =>
      have hfin : ((s.goto j .finished).turns k).pc.sending = false := hgoto fun _ => rfl
      unfold Cascade.cleanup
      split <;> exact hfin
  | onEnd =>
      show (s.callCancel.turns k).pc.sending = false
      rw [callCancel_pc]
      exact hsend

theorem Effect.quiet {s s' : State} {a : Act} (heff : Effect s a s') (hinv : TurnInv s)
    {k : Nat} (hk : k < s.spawned) (h : (s.turns k).quiet) : (s'.turns k).quiet :=
  ⟨heff.silent hinv hk h.1, heff.sending hk h.1 h.2⟩

-- ============================================================================
-- The invariant
-- ============================================================================

/-- What barge-in establishes.  Between its critical section and the clear frame
    every turn is silent; from the clear frame on, every turn before it is quiet. -/
structure BargeInInv (s : State) : Prop where
  turns : TurnInv s
  clearing : s.consumer = .clearing → ∀ k, k < s.spawned → (s.turns k).silent
  cleared : ∀ n, .clear n ∈ s.queued → n ≤ s.spawned ∧ ∀ k, k < n → (s.turns k).quiet
  safe : BargeInSafe s.queued

theorem bargeInInv_initial (systemPrompt : Bytes) : BargeInInv (initial systemPrompt) where
  turns := turnInv_initial systemPrompt
  clearing := fun h => absurd h (by simp [initial])
  cleared := fun n h => absurd h (by simp [initial])
  safe := List.Pairwise.nil

/-- The critical section of `bargeIn` silences every registered turn. -/
theorem TurnInv.silent_of_callCancel {s : State} (h : TurnInv s)
    (hreg : ∀ k, (s.turns k).pc ≠ .spawned) {k : Nat} (hk : k < s.spawned) :
    (s.callCancel.turns k).silent := by
  have hns : (s.turns k).pc ≠ .notSpawned := by
    rw [ne_eq, h.notSpawned_iff k]
    omega
  have hregistered : (s.turns k).pc.registered = true := by
    cases hpc : (s.turns k).pc with
    | notSpawned => exact absurd hpc hns
    | spawned => exact absurd hpc (hreg k)
    | _ => rfl
  have hdead := h.callCancel_not_live k
  unfold Turn.live at hdead
  rw [callCancel_pc] at hdead
  unfold Turn.silent
  rw [callCancel_pc]
  cases hpast : (s.turns k).pc.past with
  | true => exact .inl rfl
  | false =>
      right
      cases hctx : (s.callCancel.turns k).cancelled with
      | true => rfl
      | false => exact absurd ⟨hregistered, hpast, hctx⟩ hdead

/-- A step that neither queues a frame nor leads into `ClearPlayback`. -/
theorem BargeInInv.of_unqueued {s s' : State} {a : Act} (h : BargeInInv s) (heff : Effect s a s')
    (hqueued : s'.queued = s.queued) (hspawned : s.spawned ≤ s'.spawned)
    (hclearing : s'.consumer = .clearing → s.consumer = .clearing ∧ s'.spawned = s.spawned) :
    BargeInInv s' where
  turns := heff.turnInv h.turns
  clearing := by
    intro hcons k hk
    obtain ⟨hcons', hspawned'⟩ := hclearing hcons
    rw [hspawned'] at hk
    exact heff.silent h.turns hk (h.clearing hcons' k hk)
  cleared := by
    intro n hn
    rw [hqueued] at hn
    obtain ⟨hle, hquiet⟩ := h.cleared n hn
    refine ⟨by omega, fun k hk => ?_⟩
    exact heff.quiet h.turns (by omega) (hquiet k hk)
  safe := by
    rw [hqueued]
    exact h.safe

/-- Every undisturbed step keeps the invariant. -/
theorem Effect.bargeInInv {s s' : State} {a : Act} (heff : Effect s a s')
    (hguard : Undisturbed s a) (h : BargeInInv s) : BargeInInv s' := by
  have hturns : TurnInv s' := heff.turnInv h.turns
  have hquiet : ∀ k, k < s.spawned → (s.turns k).quiet → (s'.turns k).quiet :=
    fun k hk hq => heff.quiet h.turns hk hq
  cases heff with
  | beside _ hturns' hspawned hcancel hturn hqueued hconsumer =>
      exact h.of_unqueued (a := a) (.beside _ hturns' hspawned hcancel hturn hqueued hconsumer)
        hqueued (by omega) (fun hc => ⟨hconsumer hc, hspawned⟩)
  | spawn _ text hconsumer hturns' hspawned hst hqueued hconsumer' =>
      refine h.of_unqueued (a := a)
        (.spawn _ text hconsumer hturns' hspawned hst hqueued hconsumer') hqueued (by omega) ?_
      intro hc
      rw [hconsumer'] at hc
      exact absurd hc (by decide)
  | bargeIn hconsumer =>
      refine ⟨hturns, fun _ k hk => ?_, fun n hn => ?_, ?_⟩
      · exact h.turns.silent_of_callCancel hguard (by simpa using hk)
      · obtain ⟨hle, hq⟩ := h.cleared n (by simpa using hn)
        refine ⟨by simpa using hle, fun k hk => ?_⟩
        exact hquiet k (by omega) (hq k hk)
      · simpa using h.safe
  | clear hconsumer =>
      refine ⟨hturns, fun hc => absurd hc (by simp), fun n hn => ?_, ?_⟩
      · rcases List.mem_append.mp hn with hn | hn
        · exact h.cleared n hn
        · -- the new clear frame: every turn so far is silent and none is sending
          obtain rfl : n = s.spawned := by simpa using hn
          exact ⟨Nat.le_refl _, fun k hk => ⟨h.clearing hconsumer k hk, hguard k⟩⟩
      · refine List.pairwise_append.mpr ⟨h.safe, List.pairwise_singleton _ _, ?_⟩
        intro c hc f hf
        obtain rfl : f = .clear s.spawned := by simpa using hf
        cases c <;> trivial
  | register k hpc =>
      exact h.of_unqueued (.register k hpc) (by simp) (by simp) (by simp)
  | move k pc hmove =>
      exact h.of_unqueued (a := a) (.move k pc hmove) rfl (Nat.le_refl _) (fun hc => ⟨hc, rfl⟩)
  | appendReply k reply hpc =>
      exact h.of_unqueued (a := a) (.appendReply k reply hpc) rfl (Nat.le_refl _)
        (fun hc => ⟨hc, rfl⟩)
  | pass k chunk hpc hlive =>
      exact h.of_unqueued (a := a) (.pass k chunk hpc hlive) rfl (Nat.le_refl _)
        (fun hc => ⟨hc, rfl⟩)
  | audio k chunk hpc hchunk =>
      have hgoto : ∀ j, j < s.spawned → (s.turns j).silent →
          ((s.goto k .nextChunk).turns j).silent :=
        fun j _ hj => silent_goto hj (by rw [hpc]; simp [RespondPc.past])
      refine ⟨hturns, fun hc j hj => hgoto j hj (h.clearing hc j hj), fun n hn => ?_, ?_⟩
      · obtain ⟨hle, hq⟩ := h.cleared n (by simpa using hn)
        exact ⟨hle, fun j hj => hquiet j (by omega) (hq j hj)⟩
      · refine List.pairwise_append.mpr ⟨h.safe, List.pairwise_singleton _ _, ?_⟩
        intro c hc f hf
        obtain rfl : f = .audio k chunk := by simpa using hf
        cases c with
        | audio turn chunk' => trivial
        | clear n =>
            -- a sending turn is not quiet, so it comes after the clear frame
            show n ≤ k
            by_contra hlt
            have hsend := ((h.cleared n hc).2 k (by omega)).2
            rw [hpc] at hsend
            cases chunk with
            | nil => exact hchunk rfl
            | cons b bs => exact absurd hsend (by simp [RespondPc.sending])
  | cleanup k hpc =>
      have hsame : (Cascade.cleanup s k).queued = s.queued ∧
          (Cascade.cleanup s k).spawned = s.spawned ∧
          (Cascade.cleanup s k).consumer = s.consumer := by
        unfold Cascade.cleanup
        split <;> exact ⟨rfl, rfl, rfl⟩
      obtain ⟨hqueued, hspawned, hcons⟩ := hsame
      exact h.of_unqueued (.cleanup k hpc) hqueued (by omega)
        (fun hc => ⟨hcons ▸ hc, hspawned⟩)
  | onEnd => exact h.of_unqueued (a := a) .onEnd (by simp) (by simp) (by simp)

-- ============================================================================
-- Runs
-- ============================================================================

/-- Barge-in safety: in every state of a run in which every barge-in is
    undisturbed, no audio of an earlier turn follows a clear frame. -/
theorem bargeInSafe_of_undisturbed (bus : Bool) (systemPrompt : Bytes) (schedule : List Act)
    (hguard : (machine bus systemPrompt).Guarded Undisturbed (initial systemPrompt) schedule) :
    (machine bus systemPrompt).Always (fun s => BargeInSafe s.queued) (initial systemPrompt)
      schedule := by
  have hstep : ∀ s a s', BargeInInv s → Undisturbed s a →
      (machine bus systemPrompt).step s a = some s' → BargeInInv s' :=
    fun s a s' hinv hg hs => (effect_of_step hs).bargeInInv hg hinv
  exact (Machine.always_of_guarded hstep hguard (bargeInInv_initial systemPrompt)).mono
    fun s h => h.safe

-- ============================================================================
-- The guard is exact
-- ============================================================================

/-- What a goroutine that has not registered yet can still do. -/
def speak (k : Nat) (chunk : Bytes) : List Act :=
  [.register k, .llmReply k [0], .appendReply k, .ttsInit k true, .ttsSynthesize k true,
    .chunk k chunk, .checkCtx k, .sendAudio k]

theorem run_speak (bus : Bool) (systemPrompt : Bytes) (s : State) (k : Nat) (b : UInt8)
    (bs : Bytes) (hpc : (s.turns k).pc = .spawned) (hctx : (s.turns k).cancelled = false)
    (hcancel : s.st.cancel ≠ some k) :
    ∃ t, (machine bus systemPrompt).run s (speak k (b :: bs)) = some t ∧
      t.queued = s.queued ++ [.audio k (b :: bs)] := by
  have hctx' : (s.callCancel.turns k).cancelled = false := by
    cases h : (s.callCancel.turns k).cancelled with
    | false => rfl
    | true =>
        rcases (callCancel_cancelled s k).mp h with h | h
        · exact h.symm.trans hctx
        · exact absurd h hcancel
  simp [speak, Machine.run_cons, machine, step, hpc, register, State.goto, State.setTurn, hctx']

theorem not_bargeInSafe {queued : List Frame} {n k : Nat} {chunk : Bytes} (h : k < n) :
    ¬ BargeInSafe (queued ++ [.clear n] ++ [.audio k chunk]) := by
  intro hsafe
  have hlast := (List.pairwise_append.mp hsafe).2.2 (.clear n) (by simp) (.audio k chunk) (by simp)
  have hle : n ≤ k := hlast
  omega

/-- A turn at a position of its own has been spawned. -/
theorem TurnInv.lt_spawned {s : State} (h : TurnInv s) {k : Nat}
    (hpc : (s.turns k).pc ≠ .notSpawned) : k < s.spawned := by
  rw [ne_eq, h.notSpawned_iff k] at hpc
  omega

/-- A goroutine that escapes a barge-in can break the promise of the clear frame. -/
theorem unsafe_of_disturbed {bus : Bool} {systemPrompt : Bytes} {s s' : State} {a : Act}
    (hreach : (machine bus systemPrompt).Reachable s) (hstep : step bus s a = some s')
    (hguard : ¬ Undisturbed s a) :
    ∃ schedule t, (machine bus systemPrompt).run s' schedule = some t ∧
      ¬ BargeInSafe t.queued := by
  have hinv : TurnInv s := turnInv_of_reachable hreach
  cases a with
  | bargeInLock =>
      obtain ⟨k, hpc⟩ : ∃ k, (s.turns k).pc = .spawned := by
        by_contra hno
        exact hguard fun k hk => hno ⟨k, hk⟩
      have hlt : k < s.spawned := hinv.lt_spawned (by rw [hpc]; decide)
      have hctx : (s.callCancel.turns k).cancelled = false := by
        cases h : (s.callCancel.turns k).cancelled with
        | false => rfl
        | true =>
            have hreg := hinv.callCancel.cancelled_registered k h
            rw [callCancel_pc, hpc] at hreg
            exact absurd hreg (by decide)
      simp only [step] at hstep
      split at hstep
      · cases hstep
        -- the clear frame enters the queue, and then the goroutine speaks
        obtain ⟨t, hrun, hqueued⟩ := run_speak bus systemPrompt
          { s.callCancel with
            st := { s.callCancel.st with cancel := none }
            consumer := .receiving
            queued := s.queued ++ [.clear s.spawned] }
          k 0 [] (by simpa using hpc) hctx (by simp)
        refine ⟨.clearQueued :: speak k [0], t, ?_, ?_⟩
        · rw [Machine.run_cons]
          simpa [machine, step] using hrun
        · rw [hqueued]
          exact not_bargeInSafe hlt
      · exact absurd hstep (by simp)
  | clearQueued =>
      obtain ⟨k, hsend⟩ : ∃ k, (s.turns k).pc.sending = true := by
        by_contra hno
        refine hguard fun k => ?_
        cases hk : (s.turns k).pc.sending with
        | false => rfl
        | true => exact absurd ⟨k, hk⟩ hno
      obtain ⟨b, bs, hpc⟩ : ∃ b bs, (s.turns k).pc = .sendAudio (b :: bs) := by
        unfold RespondPc.sending at hsend
        split at hsend
        · rename_i b bs hpc
          exact ⟨b, bs, hpc⟩
        · exact absurd hsend (by decide)
      have hlt : k < s.spawned := hinv.lt_spawned (by rw [hpc]; simp)
      simp only [step] at hstep
      split at hstep
      · rename_i hconsumer
        cases hstep
        obtain ⟨t, hrun, hqueued⟩ : ∃ t, (machine bus systemPrompt).run
            { s with queued := s.queued ++ [.clear s.spawned], consumer := .receiving }
            [.sendAudio k] = some t ∧
              t.queued = s.queued ++ [.clear s.spawned] ++ [.audio k (b :: bs)] := by
          simp [Machine.run_cons, machine, step, hpc]
        refine ⟨_, t, hrun, ?_⟩
        rw [hqueued]
        exact not_bargeInSafe hlt
      · exact absurd hstep (by simp)
  | _ => exact absurd trivial hguard

/-- The caller says "hi"; the reply is spoken in one chunk while the caller
    starts to speak again. -/
def oneTurn (chunk : Bytes) : List Act :=
  [.asrEmit (.transcript (ascii "hi") true), .asrRecv, .register 0, .llmReply 0 (ascii "hello"),
    .appendReply 0, .ttsInit 0 true, .ttsSynthesize 0 true, .chunk 0 chunk, .checkCtx 0,
    .asrEmit .speechStarted, .asrRecv]

/-- The chunk is queued before the barge-in. -/
theorem bargeInSafe_of_undisturbed_oneTurn :
    (machine true []).Always (fun s => BargeInSafe s.queued) (initial [])
      (oneTurn [1, 2] ++ [.sendAudio 0, .bargeInLock, .clearQueued]) := by
  apply bargeInSafe_of_undisturbed
  simp [oneTurn, ascii, Machine.Guarded, Undisturbed, machine, step, initial, consume, register,
    State.goto, State.setTurn, State.callCancel]
  constructor
  · intro k
    by_cases hk : k = 0
    · simp [hk]
    · simp [hk]
  · intro k
    by_cases hk : k = 0
    · simp [hk, RespondPc.sending]
    · simp [hk, RespondPc.sending]

/-- The goroutine has tested its context when the barge-in cancels it: its
    chunk enters the queue behind the clear frame. -/
theorem bargeIn_stale_audio :
    ∃ s, (machine true []).run (initial [])
        (oneTurn [1, 2] ++ [.bargeInLock, .clearQueued, .sendAudio 0]) = some s ∧
      s.queued = [.clear 1, .audio 0 [1, 2]] ∧ ¬ BargeInSafe s.queued := by
  refine ⟨_, rfl, rfl, by decide⟩

end FsBridge.Pipeline.Cascade
