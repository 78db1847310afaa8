/-
  FsBridge.Pipeline.CascadeContexts

  Which contexts of a call are still live: at most one of the turns that have
  registered and not finished, and its cancel function is the stored one.

  `OnEnd` cancels that turn only.  A goroutine that has not registered yet, or is
  spawned later for a transcript still buffered in the ASR channel, has a live
  context after the call, and so has a turn that finished by itself: `respond` drops
  its cancel function without calling it.  `EndsQuiet` says that there is none.
-/

import FsBridge.Pipeline.CascadeTurns

namespace FsBridge.Pipeline.Cascade

open FsBridge.Lib

-- ============================================================================
-- Live contexts
-- ============================================================================

/-- The turn has registered and not yet finished, and its context is live. -/
structure Turn.Open (t : Turn) : Prop where
  registered : t.pc.registered = true
  unfinished : t.pc ≠ .finished
  uncancelled : t.cancelled = false

/-- At most one turn is open; it is the current one and `st.cancel` is its own. -/
structure OneLiveTurn (s : State) : Prop where
  unique : ∀ j k, (s.turns j).Open → (s.turns k).Open → j = k
  current : ∀ k, (s.turns k).Open → (s.turns k).number = s.st.turn
  stored : ∀ k, (s.turns k).Open → s.st.cancel = some k

/-- The steps that cancel the turn before: `bargeIn`, the next turn, `OnEnd`. -/
def Act.cancels : Act → Prop
  | .bargeInLock | .register _ | .onEndCancel => True
  | _ => False

theorem Move.unfinished {pc pc' : RespondPc} (h : Move pc pc') : pc ≠ .finished := by
  rintro rfl
  exact absurd h.not_past (by decide)

theorem Move.not_finished {pc pc' : RespondPc} (h : Move pc pc') : pc' ≠ .finished := by
  cases h <;> simp

/-- Calling the stored cancel function leaves no turn open. -/
theorem not_open_callCancel {s : State} (h : ∀ k, (s.turns k).Open → s.st.cancel = some k)
    (k : Nat) : ¬ (s.callCancel.turns k).Open := by
  rintro ⟨hreg, hfin, hctx⟩
  rw [callCancel_pc] at hreg hfin
  have hno : ¬ ((s.turns k).cancelled = true ∨ s.st.cancel = some k) := by
    rw [← callCancel_cancelled, hctx]
    decide
  cases hk : (s.turns k).cancelled with
  | true => exact hno (.inl hk)
  | false => exact hno (.inr (h k ⟨hreg, hfin, hk⟩))

/-- A registered goroutine moves on: no other turn becomes open. -/
theorem open_of_goto {s : State} {j k : Nat} {pc : RespondPc}
    (hreg : (s.turns k).pc.registered = true) (hfin : (s.turns k).pc ≠ .finished)
    (h : ((s.goto k pc).turns j).Open) : (s.turns j).Open := by
  have hctx := h.uncancelled
  rw [goto_cancelled] at hctx
  by_cases hj : j = k
  · rw [hj] at hctx ⊢
    exact ⟨hreg, hfin, hctx⟩
  · have hreg' := h.registered
    have hfin' := h.unfinished
    rw [goto_pc, if_neg hj] at hreg' hfin'
    exact ⟨hreg', hfin', hctx⟩

/-- Every step keeps the stored cancel function that of the open turn. -/
theorem Effect.stored {s s' : State} {a : Act} (heff : Effect s a s') (hinv : TurnInv s)
    (h : ∀ k, (s.turns k).Open → s.st.cancel = some k) :
    ∀ k, (s'.turns k).Open → s'.st.cancel = some k := by
  cases heff with
  | beside _ hturns hspawned hcancel hturn hqueued hconsumer =>
      rw [hturns, hcancel]
      exact h
  | spawn _ text hconsumer hturns hspawned hst hqueued hconsumer' =>
      intro k hk
      have hne : k ≠ s.spawned := by
        rintro rfl
        have hreg := hk.registered
        rw [hturns, Function.update_self] at hreg
        exact absurd hreg (by simp [RespondPc.registered])
      rw [hturns, Function.update_of_ne hne] at hk
      rw [hst]
      exact h k hk
  | bargeIn hconsumer => exact fun k hk => absurd hk (not_open_callCancel h k)
  | clear hconsumer => exact h
  | register k hpc =>
      intro j hj
      by_cases hjk : j = k
      · rw [hjk]
        rfl
      · rw [register_turns_of_ne s hjk] at hj
        exact absurd hj (not_open_callCancel h j)
  | move k pc hmove =>
      exact fun j hj => h j (open_of_goto hmove.registered.1 hmove.unfinished hj)
  | appendReply k reply hpc =>
      intro j hj
      exact h j (open_of_goto (by rw [hpc]; rfl) (by rw [hpc]; simp) hj)
  | pass k chunk hpc hlive =>
      intro j hj
      exact h j (open_of_goto (by rw [hpc]; rfl) (by rw [hpc]; simp) hj)
  | audio k chunk hpc hchunk =>
      intro j hj
      exact h j (open_of_goto (by rw [hpc]; rfl) (by rw [hpc]; simp) hj)
  | cleanup k hpc =>
      have hgoto : ∀ j, ((s.goto k .finished).turns j).Open → j ≠ k ∧ s.st.cancel = some j := by
        intro j hj
        refine ⟨?_, h j (open_of_goto (by rw [hpc]; rfl) (by rw [hpc]; simp) hj)⟩
        rintro rfl
        have hfin := hj.unfinished
        rw [goto_pc, if_pos rfl] at hfin
        exact hfin rfl
      intro j hj
      unfold Cascade.cleanup at hj ⊢
      split at hj
      · -- the finishing turn is the current one, and so would be the open one
        rename_i hown
        obtain ⟨hne, hcancel⟩ := hgoto j hj
        obtain ⟨hreg, hnumber⟩ := hinv.cancel_own j hcancel
        exact absurd (hinv.number_inj j k hreg (by rw [hpc]; rfl) (by rw [hnumber, hown])) hne
      · rename_i hown
        rw [if_neg hown]
        exact (hgoto j hj).2
  | onEnd => exact fun k hk => absurd hk (not_open_callCancel h k)

theorem stored_of_reachable {bus : Bool} {systemPrompt : Bytes} {s : State}
    (h : (machine bus systemPrompt).Reachable s) :
    ∀ k, (s.turns k).Open → s.st.cancel = some k := by
  have hboth : TurnInv s ∧ ∀ k, (s.turns k).Open → s.st.cancel = some k := by
    refine h.invariant
      (I := fun s => TurnInv s ∧ ∀ k, (s.turns k).Open → s.st.cancel = some k) ?_ ?_
    · refine ⟨turnInv_initial systemPrompt, fun k hk => ?_⟩
      exact absurd hk.registered (by simp [machine, initial, RespondPc.registered])
    · intro s a s' hinv hs
      have heff := effect_of_step (show step bus s a = some s' from hs)
      exact ⟨heff.turnInv hinv.1, heff.stored hinv.1 hinv.2⟩
  exact hboth.2

theorem oneLiveTurn_of_stored {s : State} (hinv : TurnInv s)
    (h : ∀ k, (s.turns k).Open → s.st.cancel = some k) : OneLiveTurn s where
  unique := fun j k hj hk => Option.some.inj ((h j hj).symm.trans (h k hk))
  current := fun k hk => (hinv.cancel_own k (h k hk)).2
  stored := h

/-- A step that cancels leaves the context of the open turn cancelled. -/
theorem cancelled_of_cancels {bus : Bool} {s s' : State} {a : Act} {k : Nat} (hinv : TurnInv s)
    (hcancel : s.st.cancel = some k) (ha : a.cancels) (hstep : step bus s a = some s') :
    (s'.turns k).cancelled = true := by
  have hcalled : (s.callCancel.turns k).cancelled = true :=
    (callCancel_cancelled s k).mpr (.inr hcancel)
  cases a with
  | bargeInLock =>
      rw [step] at hstep
      split at hstep
      · obtain rfl := Option.some.inj hstep
        exact hcalled
      · exact absurd hstep (by simp)
  | register j =>
      rw [step] at hstep
      split at hstep
      · rename_i hpc
        obtain rfl := Option.some.inj hstep
        have hne : k ≠ j := by
          rintro rfl
          have hreg := (hinv.cancel_own k hcancel).1
          rw [hpc] at hreg
          exact absurd hreg (by decide)
        rw [register_turns_of_ne s hne]
        exact hcalled
      · exact absurd hstep (by simp)
  | onEndCancel =>
      simp only [step, Option.ite_none_right_eq_some, Option.some.injEq] at hstep
      obtain ⟨-, rfl⟩ := hstep
      exact hcalled
  | _ => exact absurd ha id

/-- The deferred function of a turn leaves the cancel function of another alone. -/
theorem cancel_of_cleanup {bus : Bool} {s s' : State} {j k : Nat} (hinv : TurnInv s)
    (hcancel : s.st.cancel = some k) (hne : j ≠ k) (hstep : step bus s (.cleanup j) = some s') :
    s'.st.cancel = some k := by
  rw [step] at hstep
  split at hstep
  · rename_i hpc
    obtain rfl := Option.some.inj hstep
    have hother : s.st.turn ≠ (s.turns j).number := by
      intro hown
      obtain ⟨hreg, hnumber⟩ := hinv.cancel_own k hcancel
      exact hne (hinv.number_inj j k (by rw [hpc]; rfl) hreg (by rw [hnumber, hown]))
    rw [Cascade.cleanup, if_neg hother]
    exact hcancel
  · exact absurd hstep (by simp)

/-- **One live turn.**  In every reachable state at most one turn is open, it is
    the current one, and the stored cancel function is its own: the next `bargeIn`,
    the next turn or `OnEnd` cancels it, and no turn that finishes forgets it. -/
theorem oneLiveTurn_of_reachable (bus : Bool) (systemPrompt : Bytes) (s : State)
    (hreach : (machine bus systemPrompt).Reachable s) :
    OneLiveTurn s ∧
      (∀ k, (s.turns k).Open → ∀ a s', a.cancels → step bus s a = some s' →
        (s'.turns k).cancelled = true) ∧
      ∀ j k s', s.st.cancel = some k → j ≠ k → step bus s (.cleanup j) = some s' →
        s'.st.cancel = some k := by
  have hinv := turnInv_of_reachable hreach
  have hstored := stored_of_reachable hreach
  refine ⟨oneLiveTurn_of_stored hinv hstored, ?_, ?_⟩
  · intro k hk a s' ha hstep
    exact cancelled_of_cancels hinv (hstored k hk) ha hstep
  · intro j k s' hcancel hne hstep
    exact cancel_of_cleanup hinv hcancel hne hstep

/-- Two turns that overlap: the first finishes while the second is under way, and leaves
    the stored cancel function to it. -/
theorem oneLiveTurn_of_reachable_overlap :
    ∃ s s', (machine true []).Reachable s ∧ OneLiveTurn s ∧ (s.turns 1).Open ∧
      step true s (.cleanup 0) = some s' ∧ s'.st.cancel = some 1 := by
  have hruns : ((machine true []).run (initial [])
      [.asrEmit (.transcript (ascii "hi") true), .asrRecv, .register 0,
        .asrEmit (.transcript (ascii "stop") true), .asrRecv, .register 1,
        .llmError 0]).isSome = true := rfl
  obtain ⟨s, hrun⟩ := Option.isSome_iff_exists.mp hruns
  have hall := oneLiveTurn_of_reachable true [] s ⟨_, hrun⟩
  have hcancel : s.st.cancel = some 1 := by
    obtain rfl := Option.some.inj hrun
    rfl
  have hstep : (step true s (.cleanup 0)).isSome = true := by
    obtain rfl := Option.some.inj hrun
    rfl
  obtain ⟨s', hs'⟩ := Option.isSome_iff_exists.mp hstep
  refine ⟨s, s', ⟨_, hrun⟩, hall.1, ?_, hs', hall.2.2 0 1 s' hcancel (by decide) hs'⟩
  obtain rfl := Option.some.inj hrun
  exact ⟨rfl, by decide, rfl⟩

-- ============================================================================
-- The end of the call
-- ============================================================================

/-- A goroutine with a live context, finished or not.  `LLM.Respond` and `Synthesize` are
    called with a live context by such a goroutine, or not at all. -/
structure Turn.Live (t : Turn) : Prop where
  isSpawned : t.pc ≠ .notSpawned
  uncancelled : t.cancelled = false

/-- Once `OnEnd` has returned the context of every turn of the call is cancelled. -/
def NoTurnOutlives (s : State) : Prop := s.onEnd = .returned → ∀ k, ¬ (s.turns k).Live

/-- `OnEnd` has cancelled the stored context. -/
def OnEndPc.cancelled : OnEndPc → Bool
  | .closingASR | .returned => true
  | _ => false

/-- No turn ends by itself: what finishes has been cancelled.  `OnEnd` finds every
    goroutine registered, and from then on `consumeASR` receives no final transcript. -/
def EndsQuiet (s : State) : Act → Prop
  | .cleanup k => (s.turns k).cancelled = true
  | .onEndCancel => ∀ k, (s.turns k).pc ≠ .spawned
  | .asrRecv => s.onEnd.cancelled = true → ∀ ev, s.events.head? = some ev → spawns ev = false
  | _ => True

theorem Turn.Live.registered {t : Turn} (h : t.Live) (hpc : t.pc ≠ .spawned) :
    t.pc.registered = true := by
  cases hreg : t.pc with
  | notSpawned => exact absurd hreg h.isSpawned
  | spawned => exact absurd hreg hpc
  | _ => rfl

/-- A goroutine that moves on had a live context before. -/
theorem live_of_goto {s : State} {j k : Nat} {pc : RespondPc}
    (hreg : (s.turns k).pc.registered = true) (h : ((s.goto k pc).turns j).Live) :
    (s.turns j).Live := by
  have hctx := h.uncancelled
  rw [goto_cancelled] at hctx
  by_cases hj : j = k
  · rw [hj] at hctx ⊢
    refine ⟨?_, hctx⟩
    intro hpc
    rw [hpc] at hreg
    exact absurd hreg (by decide)
  · have hpc := h.isSpawned
    rw [goto_pc, if_neg hj] at hpc
    exact ⟨hpc, hctx⟩

theorem live_of_callCancel {s : State} {k : Nat} (h : (s.callCancel.turns k).Live) :
    (s.turns k).Live := by
  have hpc := h.isSpawned
  rw [callCancel_pc] at hpc
  refine ⟨hpc, ?_⟩
  cases hk : (s.turns k).cancelled with
  | false => rfl
  | true =>
      have hctx := h.uncancelled
      rw [(callCancel_cancelled s k).mpr (.inl hk)] at hctx
      exact absurd hctx (by decide)

/-- What a step leaves with a live context had one before, or is a new goroutine. -/
theorem Effect.live {s s' : State} {a : Act} (heff : Effect s a s')
    {k : Nat} (h : (s'.turns k).Live) :
    (s.turns k).Live ∨ k = s.spawned ∧ (s'.turns k).pc = .spawned ∧ s'.spawned ≠ s.spawned := by
  cases heff with
  | beside _ hturns hspawned hcancel hturn hqueued hconsumer =>
      rw [hturns] at h
      exact .inl h
  | spawn _ text hconsumer hturns hspawned' hst hqueued hconsumer' =>
      by_cases hk : k = s.spawned
      · refine .inr ⟨hk, ?_, by omega⟩
        rw [hturns, hk, Function.update_self]
      · rw [hturns, Function.update_of_ne hk] at h
        exact .inl h
  | bargeIn hconsumer => exact .inl (live_of_callCancel h)
  | clear hconsumer => exact .inl h
  | register j hpc =>
      left
      by_cases hkj : k = j
      · -- a context that has just been registered was live before
        obtain ⟨history, hself⟩ := register_turns_self s j
        have hctx := h.uncancelled
        rw [hkj, hself] at hctx
        rw [hkj]
        refine live_of_callCancel ⟨?_, hctx⟩
        rw [callCancel_pc, hpc]
        decide
      · rw [register_turns_of_ne s hkj] at h
        exact live_of_callCancel h
  | move j pc hmove => exact .inl (live_of_goto hmove.registered.1 h)
  | appendReply j reply hpc => exact .inl (live_of_goto (by rw [hpc]; rfl) h)
  | pass j chunk hpc hlive => exact .inl (live_of_goto (by rw [hpc]; rfl) h)
  | audio j chunk hpc hchunk => exact .inl (live_of_goto (by rw [hpc]; rfl) h)
  | cleanup j hpc =>
      have hgoto : ((s.goto j .finished).turns k).Live := by
        unfold Cascade.cleanup at h
        split at h <;> exact h
      exact .inl (live_of_goto (by rw [hpc]; rfl) hgoto)
  | onEnd => exact .inl (live_of_callCancel h)

/-- A turn that a step leaves finished was so before, or has just run its deferred
    function. -/
theorem Effect.finished {s s' : State} {a : Act} (heff : Effect s a s') {k : Nat}
    (h : (s'.turns k).pc = .finished) : (s.turns k).pc = .finished ∨ a = .cleanup k := by
  have hgoto : ∀ {j pc}, pc ≠ .finished → ((s.goto j pc).turns k).pc = .finished →
      (s.turns k).pc = .finished := by
    intro j pc hpc hk
    rw [goto_pc] at hk
    split at hk
    · exact absurd hk hpc
    · exact hk
  cases heff with
  | beside _ hturns hspawned hcancel hturn hqueued hconsumer =>
      rw [hturns] at h
      exact .inl h
  | spawn _ text hconsumer hturns hspawned hst hqueued hconsumer' =>
      by_cases hk : k = s.spawned
      · rw [hturns, hk, Function.update_self] at h
        exact absurd h (by simp)
      · rw [hturns, Function.update_of_ne hk] at h
        exact .inl h
  | bargeIn hconsumer => exact .inl ((callCancel_pc s k).symm.trans h)
  | clear hconsumer => exact .inl h
  | register j hpc =>
      by_cases hkj : k = j
      · obtain ⟨history, hself⟩ := register_turns_self s j
        rw [hkj, hself] at h
        exact absurd h (by simp)
      · rw [register_turns_of_ne s hkj, callCancel_pc] at h
        exact .inl h
  | move j pc hmove => exact .inl (hgoto hmove.not_finished h)
  | appendReply j reply hpc => exact .inl (hgoto (by simp) h)
  | pass j chunk hpc hlive => exact .inl (hgoto (by simp) h)
  | audio j chunk hpc hchunk => exact .inl (hgoto (by simp) h)
  | cleanup j hpc =>
      by_cases hkj : k = j
      · exact .inr (by rw [hkj])
      · left
        have hturn : ((s.goto j .finished).turns k).pc = .finished := by
          unfold Cascade.cleanup at h
          split at h <;> exact h
        rw [goto_pc, if_neg hkj] at hturn
        exact hturn
  | onEnd => exact .inl ((callCancel_pc s k).symm.trans h)

/-- The invariant of a run that ends quietly. -/
structure EndInv (s : State) : Prop where
  turns : TurnInv s
  stored : ∀ k, (s.turns k).Open → s.st.cancel = some k
  finished : ∀ k, (s.turns k).pc = .finished → (s.turns k).cancelled = true
  ended : s.onEnd.cancelled = true → ∀ k, ¬ (s.turns k).Live

/-- Only its own critical section takes `OnEnd` past the cancelling. -/
theorem onEnd_of_step {bus : Bool} {s s' : State} {a : Act} (ha : a ≠ .onEndCancel)
    (hstep : step bus s a = some s') : s'.onEnd.cancelled = true → s.onEnd.cancelled = true := by
  cases a with
  | onEndCancel => exact absurd rfl ha
  | onEndDelete =>
      simp only [step, Option.ite_none_right_eq_some, Option.some.injEq] at hstep
      obtain ⟨-, rfl⟩ := hstep
      exact fun h => absurd h Bool.false_ne_true
  | onEndClose =>
      simp only [step, Option.ite_none_right_eq_some, Option.some.injEq] at hstep
      obtain ⟨hpc, rfl⟩ := hstep
      rw [hpc]
      exact fun _ => rfl
  | asrRecv =>
      obtain ⟨ev, rest, -, -, rfl⟩ := consume_of_asrRecv hstep
      rw [consume_onEnd]
      exact id
  | _ =>
      simp only [step] at hstep
      grind [State.goto, State.setTurn, State.callCancel, register, cleanup]

theorem EndInv.step {bus : Bool} {s s' : State} {a : Act} (h : EndInv s) (hguard : EndsQuiet s a)
    (hstep : step bus s a = some s') : EndInv s' := by
  have heff := effect_of_step hstep
  refine ⟨heff.turnInv h.turns, heff.stored h.turns h.stored, ?_, ?_⟩
  · intro k hk
    by_contra hctx
    have hlive : (s'.turns k).Live :=
      ⟨by rw [hk]; decide, Bool.eq_false_iff.mpr hctx⟩
    have hbefore : (s.turns k).Live := by
      rcases heff.live hlive with hlive' | ⟨-, hpc, -⟩
      · exact hlive'
      · rw [hk] at hpc
        exact absurd hpc (by decide)
    have hcancelled : (s.turns k).cancelled = true := by
      rcases heff.finished hk with hfin | rfl
      · exact h.finished k hfin
      · exact hguard
    exact absurd (hcancelled.symm.trans hbefore.uncancelled) (by decide)
  · by_cases ha : a = .onEndCancel
    · -- every goroutine has registered, so the open turn was the only live one
      subst ha
      simp only [Cascade.step, Option.ite_none_right_eq_some, Option.some.injEq] at hstep
      obtain ⟨-, rfl⟩ := hstep
      intro _ k hk
      have hlive := live_of_callCancel hk
      have hreg := hlive.registered (hguard k)
      have hfin : (s.turns k).pc ≠ .finished := fun hfin =>
        absurd ((h.finished k hfin).symm.trans hlive.uncancelled) (by decide)
      apply not_open_callCancel h.stored k
      refine ⟨?_, ?_, hk.uncancelled⟩
      · rw [callCancel_pc]
        exact hreg
      · rw [callCancel_pc]
        exact hfin
    · intro hended k hk
      have hended' := onEnd_of_step ha hstep hended
      rcases heff.live hk with hlive | ⟨-, -, hspawned⟩
      · exact h.ended hended' k hlive
      · apply hspawned
        by_cases hrecv : a = .asrRecv
        · subst hrecv
          obtain ⟨ev, rest, -, hevents, rfl⟩ := consume_of_asrRecv hstep
          have hno := hguard hended' ev (by rw [hevents]; rfl)
          rw [consume_spawned, hno]
          rfl
        · exact spawned_of_step hrecv hstep

/-- **No turn outlives the call.**  In every run in which no turn ends by itself, `OnEnd`
    finds all goroutines registered and no final transcript is received after it, every
    context of the call is cancelled once `OnEnd` has returned. -/
theorem noTurnOutlives_of_endsQuiet (bus : Bool) (systemPrompt : Bytes) (schedule : List Act)
    (hguard : (machine bus systemPrompt).Guarded EndsQuiet (initial systemPrompt) schedule) :
    (machine bus systemPrompt).Always NoTurnOutlives (initial systemPrompt) schedule := by
  have hinit : EndInv (initial systemPrompt) := by
    refine ⟨turnInv_initial systemPrompt, ?_, ?_, ?_⟩
    · exact fun k hk => absurd hk.registered (by simp [initial, RespondPc.registered])
    · exact fun k hk => absurd hk (by simp [initial])
    · exact fun h => absurd h Bool.false_ne_true
  have hstep : ∀ s a s', EndInv s → EndsQuiet s a →
      (machine bus systemPrompt).step s a = some s' → EndInv s' :=
    fun s a s' hinv hg hs => hinv.step hg hs
  refine (Machine.always_of_guarded hstep hguard hinit).mono fun s h hret => h.ended ?_
  rw [hret]
  rfl

/-- A live context that `OnEnd` will not cancel is live when `OnEnd` has returned. -/
theorem exists_end {bus : Bool} {systemPrompt : Bytes} {s : State} {k : Nat}
    (hlive : (s.turns k).Live) (hkept : s.onEnd.cancelled = true ∨ s.st.cancel ≠ some k) :
    ∃ schedule t, (machine bus systemPrompt).run s schedule = some t ∧ ¬ NoTurnOutlives t := by
  have hcalled : s.st.cancel ≠ some k → (s.callCancel.turns k).Live := by
    intro hother
    refine ⟨?_, ?_⟩
    · rw [callCancel_pc]
      exact hlive.isSpawned
    · refine Bool.eq_false_iff.mpr fun hctx => ?_
      rcases (callCancel_cancelled s k).mp hctx with hctx | hcancel
      · exact absurd (hctx.symm.trans hlive.uncancelled) (by decide)
      · exact hother hcancel
  cases honEnd : s.onEnd with
  | returned => exact ⟨[], s, rfl, fun h => h honEnd k hlive⟩
  | closingASR =>
      refine ⟨[.onEndClose], { s with onEnd := .returned, asrClosed := true }, ?_,
        fun h => h rfl k hlive⟩
      simp [Machine.run_cons, machine, step, honEnd]
  | cancelling =>
      rw [honEnd] at hkept
      refine ⟨[.onEndCancel, .onEndClose],
        { s.callCancel with onEnd := .returned, asrClosed := true }, ?_,
        fun h => h rfl k (hcalled (hkept.resolve_left (by decide)))⟩
      simp [Machine.run_cons, machine, step, honEnd]
  | notCalled =>
      rw [honEnd] at hkept
      refine ⟨[.onEndDelete, .onEndCancel, .onEndClose],
        { s.callCancel with onEnd := .returned, asrClosed := true }, ?_,
        fun h => h rfl k (hcalled (hkept.resolve_left (by decide)))⟩
      cases hcancel : s.st.cancel with
      | none => simp [Machine.run_cons, machine, step, honEnd, State.callCancel, hcancel]
      | some j =>
          simp [Machine.run_cons, machine, step, honEnd, State.callCancel, State.setTurn, hcancel]

/-- The condition is exact: from a step that breaks it the run can go on to a state in
    which `OnEnd` has returned and a context is live. -/
theorem outlives_of_not_endsQuiet {bus : Bool} {systemPrompt : Bytes} {s s' : State} {a : Act}
    (hreach : (machine bus systemPrompt).Reachable s) (hstep : step bus s a = some s')
    (hguard : ¬ EndsQuiet s a) :
    ∃ schedule t, (machine bus systemPrompt).run s' schedule = some t ∧ ¬ NoTurnOutlives t := by
  have hinv := turnInv_of_reachable hreach
  cases a with
  | cleanup k =>
      -- the turn is open, so its cancel function was stored, and has just been dropped
      have hctx : (s.turns k).cancelled = false := Bool.eq_false_iff.mpr hguard
      rw [step] at hstep
      split at hstep
      · rename_i hpc
        obtain rfl := Option.some.inj hstep
        have hreg : (s.turns k).pc.registered = true := by
          rw [hpc]
          rfl
        have hcancel := stored_of_reachable hreach k ⟨hreg, by rw [hpc]; decide, hctx⟩
        have hnumber := (hinv.cancel_own k hcancel).2
        have hcleanup : Cascade.cleanup s k
            = { s.goto k .finished with st := { s.st with cancel := none, speaking := false } } :=
          if_pos hnumber.symm
        rw [hcleanup]
        refine exists_end (k := k) ⟨?_, ?_⟩ (.inr (by simp))
        · show ((s.goto k .finished).turns k).pc ≠ _
          rw [goto_pc, if_pos rfl]
          decide
        · exact (goto_cancelled s k k .finished).trans hctx
      · exact absurd hstep (by simp)
  | onEndCancel =>
      obtain ⟨k, hpc⟩ : ∃ k, (s.turns k).pc = .spawned := by
        by_contra hno
        exact hguard fun k hk => hno ⟨k, hk⟩
      simp only [step, Option.ite_none_right_eq_some, Option.some.injEq] at hstep
      obtain ⟨-, rfl⟩ := hstep
      have hpc' : (s.callCancel.turns k).pc = .spawned := by
        rw [callCancel_pc]
        exact hpc
      refine exists_end (k := k) ⟨?_, ?_⟩ (.inl rfl)
      · exact fun h => absurd (hpc'.symm.trans h) (by decide)
      · refine Bool.eq_false_iff.mpr fun hctx => ?_
        have hreg := hinv.callCancel.cancelled_registered k hctx
        rw [hpc'] at hreg
        exact absurd hreg (by decide)
  | asrRecv =>
      obtain ⟨hended, ev, hhead, hspawns⟩ : s.onEnd.cancelled = true ∧
          ∃ ev, s.events.head? = some ev ∧ spawns ev = true := by
        by_contra hno
        refine hguard fun hended ev hev => ?_
        cases hspawns : spawns ev with
        | false => rfl
        | true => exact absurd ⟨hended, ev, hev, hspawns⟩ hno
      obtain ⟨ev', rest, -, hevents, rfl⟩ := consume_of_asrRecv hstep
      rw [hevents] at hhead
      obtain rfl := Option.some.inj hhead
      obtain ⟨text, hnew⟩ := consume_turns_self bus (s := { s with events := rest }) hspawns
      refine exists_end (k := s.spawned) ⟨?_, ?_⟩ (.inl ?_)
      · rw [show _ = RespondPc.spawned from congrArg Turn.pc hnew]
        decide
      · exact congrArg Turn.cancelled hnew
      · rw [consume_onEnd]
        exact hended
  | _ => exact absurd trivial hguard

/-- A call of two turns: the second cancels the first, which then finishes, and `OnEnd`
    cancels the second. -/
theorem noTurnOutlives_of_endsQuiet_twoTurns :
    (machine true []).Always NoTurnOutlives (initial [])
      [.asrEmit (.transcript (ascii "hi") true), .asrRecv, .register 0,
        .asrEmit (.transcript (ascii "stop") true), .asrRecv, .register 1, .llmError 0,
        .cleanup 0, .onEndDelete, .onEndCancel, .onEndClose, .llmError 1, .cleanup 1] := by
  apply noTurnOutlives_of_endsQuiet
  simp [ascii, Machine.Guarded, EndsQuiet, machine, step, initial, consume, register, cleanup,
    State.setTurn, State.goto, State.callCancel, OnEndPc.cancelled]
  intro k
  by_cases hk : k = 0
  · simp [hk]
  · by_cases hk' : k = 1
    · simp [hk']
    · simp [hk, hk']

/-- The final transcript is still in the ASR channel when the call ends: its
    `LLM.Respond` is called after `OnEnd`, with a live context. -/
theorem buffered_final_outlives :
    ¬ (machine true []).Always NoTurnOutlives (initial [])
      [.asrEmit (.transcript (ascii "hi") true), .onEndDelete, .onEndCancel, .onEndClose, .asrRecv,
        .register 0] := by
  intro h
  have hlast := h.last rfl
  exact hlast rfl 0 ⟨by decide, rfl⟩

end FsBridge.Pipeline.Cascade
