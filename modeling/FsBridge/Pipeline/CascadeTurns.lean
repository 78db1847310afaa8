/-
  FsBridge.Pipeline.CascadeTurns

  The turn invariant of a call: which contexts can still be live, and whose
  cancel function `callState.cancel` is.

  `Effect` says once what a step can do to the turns, to `callState` and to the
  queue of the Session; steps that touch none of these are one case of it.
-/

import FsBridge.Pipeline.Cascade

namespace FsBridge.Pipeline.Cascade

open FsBridge.Lib

-- ============================================================================
-- Positions of a turn
-- ============================================================================

/-- The goroutine has passed its first critical section. -/
def RespondPc.registered : RespondPc → Bool
  | .notSpawned | .spawned => false
  | _ => true

/-- The goroutine has left the body of `respond`. -/
def RespondPc.past : RespondPc → Bool
  | .cleanup | .finished => true
  | _ => false

/-- The goroutine has tested its context and is about to queue audio. -/
def RespondPc.sending : RespondPc → Bool
  | .sendAudio (_ :: _) => true
  | _ => false

/-- A registered turn still in the body of `respond`, with a live context. -/
def Turn.live (t : Turn) : Prop :=
  t.pc.registered = true ∧ t.pc.past = false ∧ t.cancelled = false

/-- The moves of a registered goroutine that change nothing but its position. -/
inductive Move : RespondPc → RespondPc → Prop where
  | giveUp {pc} (hreg : pc.registered = true) (hpast : pc.past = false) : Move pc .cleanup
  | reply {h reply} : Move (.llmRespond h) (.appendReply reply)
  | initTTS {reply} : Move (.newTTS reply) (.synthesize reply)
  | synthesized {reply} : Move (.synthesize reply) .nextChunk
  | chunk {chunk} : Move .nextChunk (.checkCtx chunk)
  | sent {chunk} : Move (.sendAudio chunk) .nextChunk

theorem Move.registered {pc pc' : RespondPc} (h : Move pc pc') :
    pc.registered = true ∧ pc'.registered = true := by
  cases h with
  | giveUp hreg hpast => exact ⟨hreg, rfl⟩
  | _ => exact ⟨rfl, rfl⟩

theorem Move.not_past {pc pc' : RespondPc} (h : Move pc pc') : pc.past = false := by
  cases h with
  | giveUp hreg hpast => exact hpast
  | _ => rfl

theorem Move.not_sending {pc pc' : RespondPc} (h : Move pc pc') : pc'.sending = false := by
  cases h <;> rfl

-- ============================================================================
-- What a step can do
-- ============================================================================

/-- Everything an atomic step can do to the turns, the stored cancel function
    and the Session's queue. -/
inductive Effect (s : State) : Act → State → Prop where
  /-- A step beside the turns, which does not lead into `ClearPlayback`. -/
  | beside {a} (s' : State) (hturns : s'.turns = s.turns) (hspawned : s'.spawned = s.spawned)
      (hcancel : s'.st.cancel = s.st.cancel) (hturn : s'.st.turn = s.st.turn)
      (hqueued : s'.queued = s.queued)
      (hconsumer : s'.consumer = .clearing → s.consumer = .clearing) : Effect s a s'
  /-- `go c.respond(s, st, ev.Text)`. -/
  | spawn {a} (s' : State) (text : Bytes) (hconsumer : s.consumer = .receiving)
      (hturns : s'.turns = Function.update s.turns s.spawned ⟨text, 0, false, .spawned⟩)
      (hspawned : s'.spawned = s.spawned + 1) (hst : s'.st = s.st)
      (hqueued : s'.queued = s.queued) (hconsumer' : s'.consumer = .receiving) : Effect s a s'
  /-- The critical section of `bargeIn`. -/
  | bargeIn (hconsumer : s.consumer = .bargeIn) :
      Effect s .bargeInLock { s.callCancel with
        st := { s.callCancel.st with cancel := none }, consumer := .clearing }
  /-- The clear frame enters the queue. -/
  | clear (hconsumer : s.consumer = .clearing) :
      Effect s .clearQueued { s with
        queued := s.queued ++ [.clear s.spawned], consumer := .receiving }
  | register (k : Nat) (hpc : (s.turns k).pc = .spawned) :
      Effect s (.register k) (register s k)
  | move {a} (k : Nat) (pc : RespondPc) (hmove : Move (s.turns k).pc pc) :
      Effect s a (s.goto k pc)
  | appendReply {a} (k : Nat) (reply : Bytes) (hpc : (s.turns k).pc = .appendReply reply) :
      Effect s a { s.goto k (.newTTS reply) with
        st := { s.st with history := s.st.history ++ [⟨.assistant, reply⟩] } }
  /-- The context is still live: on to `SendAudio`. -/
  | pass {a} (k : Nat) (chunk : Bytes) (hpc : (s.turns k).pc = .checkCtx chunk)
      (hlive : (s.turns k).cancelled = false) : Effect s a (s.goto k (.sendAudio chunk))
  /-- A frame of reply audio enters the queue. -/
  | audio {a} (k : Nat) (chunk : Bytes) (hpc : (s.turns k).pc = .sendAudio chunk)
      (hchunk : chunk ≠ []) :
      Effect s a { s.goto k .nextChunk with queued := s.queued ++ [.audio k chunk] }
  | cleanup (k : Nat) (hpc : (s.turns k).pc = .cleanup) : Effect s (.cleanup k) (cleanup s k)
  /-- The critical section of `OnEnd`. -/
  | onEnd {a} : Effect s a { s.callCancel with onEnd := .closingASR }

theorem effect_of_consume {bus : Bool} {s : State} {a : Act} {ev : ASREvent}
    {rest : List ASREvent} (hconsumer : s.consumer = .receiving) :
    Effect s a (consume bus { s with events := rest } ev) := by
  cases ev with
  | speechStarted => exact .beside _ rfl rfl rfl rfl rfl (by simp [consume])
  | transcript text isFinal =>
      by_cases hskip : ¬ isFinal ∨ text = []
      · simp only [consume, if_pos hskip]
        exact .beside _ rfl rfl rfl rfl rfl (by simp [hconsumer])
      · simp only [consume, if_neg hskip]
        exact .spawn _ text hconsumer rfl rfl rfl rfl hconsumer

theorem effect_of_step {bus : Bool} {s s' : State} {a : Act} (h : step bus s a = some s') :
    Effect s a s' := by
  cases a with
  | asrEmit ev =>
      simp only [step, Option.ite_none_left_eq_some, Option.some.injEq] at h
      obtain ⟨-, rfl⟩ := h
      exact .beside _ rfl rfl rfl rfl rfl id
  | asrRecv =>
      simp only [step] at h
      split at h
      · rename_i hconsumer hevents
        cases h
        exact effect_of_consume hconsumer
      · exact absurd h (by simp)
  | asrDrained =>
      simp only [step] at h
      split at h
      · simp only [Option.ite_none_right_eq_some, Option.some.injEq] at h
        obtain ⟨-, rfl⟩ := h
        exact .beside _ rfl rfl rfl rfl rfl (by simp)
      · exact absurd h (by simp)
  | bargeInLock =>
      simp only [step] at h
      split at h
      · rename_i hconsumer
        cases h
        exact .bargeIn hconsumer
      · exact absurd h (by simp)
  | clearQueued =>
      simp only [step] at h
      split at h
      · rename_i hconsumer
        cases h
        exact .clear hconsumer
      · exact absurd h (by simp)
  | clearFailed =>
      simp only [step] at h
      split at h
      · simp only [Option.ite_none_right_eq_some, Option.some.injEq] at h
        obtain ⟨-, rfl⟩ := h
        exact .beside _ rfl rfl rfl rfl rfl (by simp)
      · exact absurd h (by simp)
  | register k =>
      simp only [step] at h
      split at h
      · rename_i hpc
        cases h
        exact .register k hpc
      · exact absurd h (by simp)
  | llmReply k reply =>
      simp only [step] at h
      split at h
      · rename_i history hpc
        cases h
        apply Effect.move k
        rw [hpc]
        split
        · exact .giveUp rfl rfl
        · exact .reply
      · exact absurd h (by simp)
  | llmError k =>
      simp only [step] at h
      split at h
      · rename_i history hpc
        cases h
        exact .move k _ (by rw [hpc]; exact .giveUp rfl rfl)
      · exact absurd h (by simp)
  | appendReply k =>
      simp only [step] at h
      split at h
      · rename_i reply hpc
        cases h
        exact .appendReply k reply hpc
      · exact absurd h (by simp)
  | ttsInit k ok =>
      simp only [step] at h
      split at h
      · rename_i reply hpc
        cases h
        apply Effect.move k
        rw [hpc]
        split
        · exact .initTTS
        · exact .giveUp rfl rfl
      · exact absurd h (by simp)
  | ttsSynthesize k ok =>
      simp only [step] at h
      split at h
      · rename_i reply hpc
        cases h
        apply Effect.move k
        rw [hpc]
        split
        · exact .synthesized
        · exact .giveUp rfl rfl
      · exact absurd h (by simp)
  | chunk k chunk =>
      simp only [step] at h
      split at h
      · rename_i hpc
        cases h
        exact .move k _ (by rw [hpc]; exact .chunk)
      · exact absurd h (by simp)
  | chunksDone k =>
      simp only [step] at h
      split at h
      · rename_i hpc
        cases h
        exact .move k _ (by rw [hpc]; exact .giveUp rfl rfl)
      · exact absurd h (by simp)
  | checkCtx k =>
      simp only [step] at h
      split at h
      · rename_i chunk hpc
        cases h
        cases hctx : (s.turns k).cancelled with
        | true => exact .move k _ (by rw [hpc]; exact .giveUp rfl rfl)
        | false => exact .pass k chunk hpc hctx
      · exact absurd h (by simp)
  | sendAudio k =>
      simp only [step] at h
      split at h
      · rename_i hpc
        cases h
        exact .move k _ (by rw [hpc]; exact .sent)
      · rename_i chunk hchunk hpc
        cases h
        exact .audio k chunk hpc hchunk
      · exact absurd h (by simp)
  | sendFailed k =>
      simp only [step] at h
      split at h
      · rename_i hpc
        simp only [Option.ite_none_right_eq_some, Option.some.injEq] at h
        obtain ⟨-, rfl⟩ := h
        exact .move k _ (by rw [hpc]; exact .giveUp rfl rfl)
      · exact absurd h (by simp)
  | cleanup k =>
      simp only [step] at h
      split at h
      · rename_i hpc
        cases h
        exact .cleanup k hpc
      · exact absurd h (by simp)
  | onEndDelete =>
      simp only [step, Option.ite_none_right_eq_some, Option.some.injEq] at h
      obtain ⟨-, rfl⟩ := h
      exact .beside _ rfl rfl rfl rfl rfl id
  | onEndCancel =>
      simp only [step, Option.ite_none_right_eq_some, Option.some.injEq] at h
      obtain ⟨-, rfl⟩ := h
      exact .onEnd
  | onEndClose =>
      simp only [step, Option.ite_none_right_eq_some, Option.some.injEq] at h
      obtain ⟨-, rfl⟩ := h
      exact .beside _ rfl rfl rfl rfl rfl id
  | sessionClose =>
      cases h
      exact .beside _ rfl rfl rfl rfl rfl id

-- ============================================================================
-- The fields of a state after the elementary updates
-- ============================================================================

section Fields

variable (s : State) (j k : Nat) (pc : RespondPc)

@[simp] theorem goto_pc : ((s.goto k pc).turns j).pc = if j = k then pc else (s.turns j).pc := by
  by_cases h : j = k
  · subst h
    simp [State.goto, State.setTurn]
  · simp [State.goto, State.setTurn, h]

/-- A turn that moves on keeps what `f` reads of it. -/
theorem goto_turn {α : Type} (f : Turn → α) (hf : ∀ t : Turn, f { t with pc := pc } = f t) :
    f ((s.goto k pc).turns j) = f (s.turns j) := by
  by_cases h : j = k
  · subst h
    simp [State.goto, State.setTurn, hf]
  · simp [State.goto, State.setTurn, h]

@[simp] theorem goto_number : ((s.goto k pc).turns j).number = (s.turns j).number :=
  goto_turn s j k pc Turn.number fun _ => rfl

@[simp] theorem goto_cancelled : ((s.goto k pc).turns j).cancelled = (s.turns j).cancelled :=
  goto_turn s j k pc Turn.cancelled fun _ => rfl

@[simp] theorem goto_userText : ((s.goto k pc).turns j).userText = (s.turns j).userText :=
  goto_turn s j k pc Turn.userText fun _ => rfl

@[simp] theorem goto_st : (s.goto k pc).st = s.st := rfl
@[simp] theorem goto_spawned : (s.goto k pc).spawned = s.spawned := rfl
@[simp] theorem goto_queued : (s.goto k pc).queued = s.queued := rfl
@[simp] theorem goto_consumer : (s.goto k pc).consumer = s.consumer := rfl

/-- A turn that is cancelled keeps what `f` reads of it. -/
theorem callCancel_turn {α : Type} (f : Turn → α)
    (hf : ∀ t : Turn, f { t with cancelled := true } = f t) :
    f (s.callCancel.turns j) = f (s.turns j) := by
  unfold State.callCancel
  split
  · rename_i i _
    by_cases h : j = i
    · subst h
      simp [State.setTurn, hf]
    · simp [State.setTurn, h]
  · rfl

@[simp] theorem callCancel_pc : (s.callCancel.turns j).pc = (s.turns j).pc :=
  callCancel_turn s j Turn.pc fun _ => rfl

@[simp] theorem callCancel_number : (s.callCancel.turns j).number = (s.turns j).number :=
  callCancel_turn s j Turn.number fun _ => rfl

@[simp] theorem callCancel_userText : (s.callCancel.turns j).userText = (s.turns j).userText :=
  callCancel_turn s j Turn.userText fun _ => rfl

theorem callCancel_cancelled :
    (s.callCancel.turns j).cancelled = true ↔
      (s.turns j).cancelled = true ∨ s.st.cancel = some j := by
  unfold State.callCancel
  split
  · rename_i i hi
    by_cases h : j = i
    · subst h
      simp [State.setTurn, hi]
    · simp [State.setTurn, hi, h, Ne.symm h]
  · rename_i hnone
    simp [hnone]

@[simp] theorem callCancel_st : s.callCancel.st = s.st := by
  unfold State.callCancel
  split <;> rfl

@[simp] theorem callCancel_spawned : s.callCancel.spawned = s.spawned := by
  unfold State.callCancel
  split <;> rfl

@[simp] theorem callCancel_queued : s.callCancel.queued = s.queued := by
  unfold State.callCancel
  split <;> rfl

@[simp] theorem callCancel_consumer : s.callCancel.consumer = s.consumer := by
  unfold State.callCancel
  split <;> rfl

end Fields

-- ============================================================================
-- The invariant
-- ============================================================================

/-- The turns of a call, their contexts and the stored cancel function. -/
structure TurnInv (s : State) : Prop where
  notSpawned_iff : ∀ k, (s.turns k).pc = .notSpawned ↔ s.spawned ≤ k
  number_le : ∀ k, (s.turns k).pc.registered = true → (s.turns k).number ≤ s.st.turn
  number_inj : ∀ j k, (s.turns j).pc.registered = true → (s.turns k).pc.registered = true →
    (s.turns j).number = (s.turns k).number → j = k
  cancel_own : ∀ k, s.st.cancel = some k →
    (s.turns k).pc.registered = true ∧ (s.turns k).number = s.st.turn
  cancelled_registered : ∀ k, (s.turns k).cancelled = true → (s.turns k).pc.registered = true
  live_cancel : ∀ k, (s.turns k).live → s.st.cancel = some k

theorem turnInv_initial (systemPrompt : Bytes) : TurnInv (initial systemPrompt) where
  notSpawned_iff := fun k => by simp [initial]
  number_le := fun k h => absurd h (by simp [initial, RespondPc.registered])
  number_inj := fun j k h => absurd h (by simp [initial, RespondPc.registered])
  cancel_own := fun k h => absurd h (by simp [initial])
  cancelled_registered := fun k h => absurd h (by simp [initial])
  live_cancel := fun k h => absurd h.1 (by simp [initial, RespondPc.registered])

/-- A step that leaves the turns and the stored cancel function alone. -/
theorem TurnInv.of_same {s s' : State} (h : TurnInv s) (hturns : s'.turns = s.turns)
    (hspawned : s'.spawned = s.spawned) (hcancel : s'.st.cancel = s.st.cancel)
    (hturn : s'.st.turn = s.st.turn) : TurnInv s' := by
  obtain ⟨h1, h2, h3, h4, h5, h6⟩ := h
  constructor
  · rw [hturns, hspawned]
    exact h1
  · rw [hturns, hturn]
    exact h2
  · rw [hturns]
    exact h3
  · rw [hturns, hcancel, hturn]
    exact h4
  · rw [hturns]
    exact h5
  · rw [hturns, hcancel]
    exact h6

/-- A registered goroutine moves on. -/
theorem TurnInv.goto {s : State} {k : Nat} {pc : RespondPc} (h : TurnInv s)
    (hreg : (s.turns k).pc.registered = true) (hreg' : pc.registered = true)
    (hpast : (s.turns k).pc.past = true → pc.past = true) : TurnInv (s.goto k pc) := by
  have hsame : ∀ j, ((s.goto k pc).turns j).pc.registered = (s.turns j).pc.registered := by
    intro j
    rw [goto_pc]
    split
    · rename_i hj
      rw [hj, hreg, hreg']
    · rfl
  constructor
  · intro j
    rw [goto_spawned, ← h.notSpawned_iff j, goto_pc]
    split
    · rename_i hj
      subst hj
      constructor
      · rintro rfl
        exact absurd hreg' (by decide)
      · intro hns
        rw [hns] at hreg
        exact absurd hreg (by decide)
    · rfl
  · intro j hj
    rw [hsame] at hj
    rw [goto_number]
    exact h.number_le j hj
  · intro i j hi hj heq
    rw [hsame] at hi hj
    rw [goto_number, goto_number] at heq
    exact h.number_inj i j hi hj heq
  · intro j hj
    rw [hsame, goto_number]
    exact h.cancel_own j hj
  · intro j hj
    rw [goto_cancelled] at hj
    rw [hsame]
    exact h.cancelled_registered j hj
  · intro j hj
    obtain ⟨hjreg, hjpast, hjctx⟩ := hj
    rw [hsame] at hjreg
    rw [goto_cancelled] at hjctx
    apply h.live_cancel j
    refine ⟨hjreg, ?_, hjctx⟩
    rw [goto_pc] at hjpast
    split at hjpast
    · rename_i hjk
      subst hjk
      cases hp : (s.turns j).pc.past with
      | false => rfl
      | true => exact absurd ((hpast hp).symm.trans hjpast) (by decide)
    · exact hjpast

/-- Calling the stored cancel function leaves no live turn. -/
theorem TurnInv.callCancel_not_live {s : State} (h : TurnInv s) (k : Nat) :
    ¬ (s.callCancel.turns k).live := by
  rintro ⟨hreg, hpast, hctx⟩
  rw [callCancel_pc] at hreg hpast
  have hno : ¬ ((s.turns k).cancelled = true ∨ s.st.cancel = some k) := by
    rw [← callCancel_cancelled, hctx]
    decide
  apply hno
  cases hk : (s.turns k).cancelled with
  | true => exact .inl rfl
  | false => exact .inr (h.live_cancel k ⟨hreg, hpast, hk⟩)

theorem TurnInv.callCancel {s : State} (h : TurnInv s) : TurnInv s.callCancel := by
  constructor
  · intro k
    rw [callCancel_pc, callCancel_spawned]
    exact h.notSpawned_iff k
  · intro k hk
    rw [callCancel_pc] at hk
    rw [callCancel_number, callCancel_st]
    exact h.number_le k hk
  · intro j k hj hk heq
    rw [callCancel_pc] at hj hk
    rw [callCancel_number, callCancel_number] at heq
    exact h.number_inj j k hj hk heq
  · intro k hk
    rw [callCancel_st] at hk
    rw [callCancel_pc, callCancel_number, callCancel_st]
    exact h.cancel_own k hk
  · intro k hk
    rw [callCancel_pc]
    rcases (callCancel_cancelled s k).mp hk with hk | hk
    · exact h.cancelled_registered k hk
    · exact (h.cancel_own k hk).1
  · intro k hk
    exact absurd hk (h.callCancel_not_live k)

/-- The stored cancel function may be forgotten once no turn is live. -/
theorem TurnInv.forget {s s' : State} (h : TurnInv s) (hlive : ∀ k, ¬ (s.turns k).live)
    (hturns : s'.turns = s.turns) (hspawned : s'.spawned = s.spawned)
    (hcancel : s'.st.cancel = none) (hturn : s'.st.turn = s.st.turn) : TurnInv s' := by
  obtain ⟨h1, h2, h3, h4, h5, h6⟩ := h
  constructor
  · rw [hturns, hspawned]
    exact h1
  · rw [hturns, hturn]
    exact h2
  · rw [hturns]
    exact h3
  · intro k hk
    exact absurd (hk.symm.trans hcancel) (by simp)
  · rw [hturns]
    exact h5
  · intro k hk
    rw [hturns] at hk
    exact absurd hk (hlive k)

/-- `consumeASR` spawns the goroutine of the next turn. -/
theorem TurnInv.spawn {s s' : State} {text : Bytes} (h : TurnInv s)
    (hturns : s'.turns = Function.update s.turns s.spawned ⟨text, 0, false, .spawned⟩)
    (hspawned : s'.spawned = s.spawned + 1) (hst : s'.st = s.st) : TurnInv s' := by
  -- the new turn is not registered, every other turn is as before
  have hold : ∀ j, (s'.turns j).pc.registered = true ∨ (s'.turns j).cancelled = true →
      j ≠ s.spawned ∧ s'.turns j = s.turns j := by
    intro j hj
    have hne : j ≠ s.spawned := by
      rintro rfl
      rw [hturns, Function.update_self] at hj
      simp [RespondPc.registered] at hj
    exact ⟨hne, by rw [hturns, Function.update_of_ne hne]⟩
  constructor
  · intro j
    rw [hturns, hspawned]
    by_cases hj : j = s.spawned
    · subst hj
      simp
    · rw [Function.update_of_ne hj, h.notSpawned_iff j]
      omega
  · intro j hj
    obtain ⟨-, hsame⟩ := hold j (.inl hj)
    rw [hsame] at hj ⊢
    rw [hst]
    exact h.number_le j hj
  · intro i j hi hj heq
    obtain ⟨-, hsamei⟩ := hold i (.inl hi)
    obtain ⟨-, hsamej⟩ := hold j (.inl hj)
    rw [hsamei] at hi heq
    rw [hsamej] at hj heq
    exact h.number_inj i j hi hj heq
  · intro j hj
    rw [hst] at hj
    obtain ⟨hreg, hnumber⟩ := h.cancel_own j hj
    have hne : j ≠ s.spawned := by
      rintro rfl
      rw [(h.notSpawned_iff s.spawned).mpr (Nat.le_refl _)] at hreg
      exact absurd hreg (by decide)
    rw [hturns, Function.update_of_ne hne, hst]
    exact ⟨hreg, hnumber⟩
  · intro j hj
    obtain ⟨-, hsame⟩ := hold j (.inr hj)
    rw [hsame] at hj ⊢
    exact h.cancelled_registered j hj
  · intro j hj
    obtain ⟨-, hsame⟩ := hold j (.inl hj.1)
    rw [hsame] at hj
    rw [hst]
    exact h.live_cancel j hj

theorem register_turns_self (s : State) (k : Nat) :
    ∃ history, (register s k).turns k =
      { s.callCancel.turns k with number := s.st.turn + 1, pc := .llmRespond history } := by
  refine ⟨s.st.history ++ [⟨.user, (s.callCancel.turns k).userText⟩], ?_⟩
  simp [register, State.setTurn]

theorem register_turns_of_ne (s : State) {j k : Nat} (h : j ≠ k) :
    (register s k).turns j = s.callCancel.turns j := by
  simp [register, State.setTurn, h]

@[simp] theorem register_spawned (s : State) (k : Nat) : (register s k).spawned = s.spawned := by
  simp [register, State.setTurn]

@[simp] theorem register_queued (s : State) (k : Nat) : (register s k).queued = s.queued := by
  simp [register, State.setTurn]

@[simp] theorem register_consumer (s : State) (k : Nat) :
    (register s k).consumer = s.consumer := by
  simp [register, State.setTurn]

/-- The first critical section of `respond`: the previous turn is cancelled and
    the new one is the only live turn. -/
theorem TurnInv.register {s : State} {k : Nat} (h : TurnInv s) (hpc : (s.turns k).pc = .spawned) :
    TurnInv (register s k) := by
  obtain ⟨history, hself⟩ := register_turns_self s k
  have hother : ∀ j, j ≠ k → (Cascade.register s k).turns j = s.callCancel.turns j :=
    fun j hj => register_turns_of_ne s hj
  have hturn : (Cascade.register s k).st.turn = s.st.turn + 1 := by simp [Cascade.register]
  have hcancel : (Cascade.register s k).st.cancel = some k := rfl
  have hspawned := register_spawned s k
  have h' := h.callCancel
  constructor
  · intro j
    rw [hspawned]
    by_cases hj : j = k
    · subst hj
      rw [hself, ← h.notSpawned_iff j, hpc]
      simp
    · rw [hother j hj, ← callCancel_spawned s]
      exact h'.notSpawned_iff j
  · intro j hj
    rw [hturn]
    by_cases hjk : j = k
    · subst hjk
      exact Nat.le_of_eq (congrArg Turn.number hself)
    · rw [hother j hjk] at hj ⊢
      have hle := h'.number_le j hj
      rw [callCancel_st] at hle
      omega
  · -- the number of the new turn is larger than that of any turn before it
    have hlt : ∀ j, j ≠ k → ((Cascade.register s k).turns j).pc.registered = true →
        ((Cascade.register s k).turns j).number < ((Cascade.register s k).turns k).number := by
      intro j hjk hj
      rw [hother j hjk] at hj ⊢
      have hle := h'.number_le j hj
      rw [callCancel_st] at hle
      rw [hself]
      exact Nat.lt_succ_of_le hle
    intro i j hi hj heq
    by_cases hik : i = k
    · by_cases hjk : j = k
      · rw [hik, hjk]
      · subst hik
        have := hlt j hjk hj
        omega
    · by_cases hjk : j = k
      · subst hjk
        have := hlt i hik hi
        omega
      · rw [hother i hik] at hi heq
        rw [hother j hjk] at hj heq
        exact h'.number_inj i j hi hj heq
  · intro j hj
    obtain rfl : k = j := Option.some.inj (hcancel.symm.trans hj)
    rw [hself, hturn]
    exact ⟨rfl, rfl⟩
  · intro j hj
    by_cases hjk : j = k
    · subst hjk
      rw [hself]
      rfl
    · rw [hother j hjk] at hj ⊢
      exact h'.cancelled_registered j hj
  · intro j hj
    by_cases hjk : j = k
    · rw [hcancel, hjk]
    · rw [hother j hjk] at hj
      exact absurd hj (h.callCancel_not_live j)

/-- The deferred critical section of `respond`: it forgets the stored cancel
    function only when that is the turn's own. -/
theorem TurnInv.cleanup {s : State} {k : Nat} (h : TurnInv s) (hpc : (s.turns k).pc = .cleanup) :
    TurnInv (cleanup s k) := by
  have hgoto : TurnInv (s.goto k .finished) :=
    h.goto (by rw [hpc]; rfl) rfl (fun _ => rfl)
  unfold Cascade.cleanup
  split
  · rename_i hown
    refine hgoto.forget (fun j hj => ?_) rfl rfl rfl rfl
    have hcancel := hgoto.live_cancel j hj
    rw [goto_st] at hcancel
    obtain ⟨hreg, hnumber⟩ := h.cancel_own j hcancel
    -- the live turn would be the one that has just finished
    have hjk : j = k := by
      apply h.number_inj j k hreg (by rw [hpc]; rfl)
      rw [hnumber, hown]
    have hpast := hj.2.1
    rw [goto_pc, if_pos hjk] at hpast
    exact absurd hpast (by decide)
  · exact hgoto

/-- Every step keeps the turn invariant. -/
theorem Effect.turnInv {s s' : State} {a : Act} (heff : Effect s a s') (h : TurnInv s) :
    TurnInv s' := by
  cases heff with
  | beside _ hturns hspawned hcancel hturn hqueued hconsumer =>
      exact h.of_same hturns hspawned hcancel hturn
  | spawn _ text hconsumer hturns hspawned hst hqueued hconsumer' =>
      exact h.spawn hturns hspawned hst
  | bargeIn hconsumer =>
      exact h.callCancel.forget h.callCancel_not_live rfl rfl rfl rfl
  | clear hconsumer => exact h.of_same rfl rfl rfl rfl
  | register k hpc => exact h.register hpc
  | move k pc hmove =>
      obtain ⟨hreg, hreg'⟩ := hmove.registered
      refine h.goto hreg hreg' (fun hpast => ?_)
      rw [hmove.not_past] at hpast
      exact absurd hpast (by decide)
  | appendReply k reply hpc =>
      have hgoto : TurnInv (s.goto k (.newTTS reply)) :=
        h.goto (by rw [hpc]; rfl) rfl (by rw [hpc]; simp [RespondPc.past])
      exact hgoto.of_same rfl rfl rfl rfl
  | pass k chunk hpc hlive =>
      exact h.goto (by rw [hpc]; rfl) rfl (by rw [hpc]; simp [RespondPc.past])
  | audio k chunk hpc hchunk =>
      have hgoto : TurnInv (s.goto k .nextChunk) :=
        h.goto (by rw [hpc]; rfl) rfl (by rw [hpc]; simp [RespondPc.past])
      exact hgoto.of_same rfl rfl rfl rfl
  | cleanup k hpc => exact h.cleanup hpc
  | onEnd => exact h.callCancel.of_same rfl rfl rfl rfl

/-- The turn invariant holds in every reachable state. -/
theorem turnInv_of_reachable {bus : Bool} {systemPrompt : Bytes} {s : State}
    (h : (machine bus systemPrompt).Reachable s) : TurnInv s := by
  refine h.invariant (turnInv_initial systemPrompt) ?_
  intro s a s' hinv hs
  have hstep : step bus s a = some s' := hs
  exact (effect_of_step hstep).turnInv hinv

-- ============================================================================
-- What steps leave alone
-- ============================================================================

/-- The ASR event that `consumeASR` answers with a new goroutine. -/
def spawns : ASREvent → Bool
  | .transcript text isFinal => isFinal && text ≠ []
  | .speechStarted => false

/-- `consumeASR` takes the oldest event. -/
theorem consume_of_asrRecv {bus : Bool} {s s' : State} (hstep : step bus s .asrRecv = some s') :
    ∃ ev rest, s.consumer = .receiving ∧ s.events = ev :: rest ∧
      s' = consume bus { s with events := rest } ev := by
  rw [step] at hstep
  split at hstep
  · rename_i ev rest hconsumer hevents
    exact ⟨ev, rest, hconsumer, hevents, (Option.some.inj hstep).symm⟩
  · exact absurd hstep (by simp)

@[simp] theorem consume_st (bus : Bool) (s : State) (ev : ASREvent) :
    (consume bus s ev).st = s.st := by
  cases ev with
  | speechStarted => rfl
  | transcript text isFinal =>
      rw [consume]
      split <;> rfl

@[simp] theorem consume_onEnd (bus : Bool) (s : State) (ev : ASREvent) :
    (consume bus s ev).onEnd = s.onEnd := by
  cases ev with
  | speechStarted => rfl
  | transcript text isFinal =>
      rw [consume]
      split <;> rfl

theorem consume_spawned (bus : Bool) (s : State) (ev : ASREvent) :
    (consume bus s ev).spawned = s.spawned + if spawns ev then 1 else 0 := by
  cases ev with
  | speechStarted => rfl
  | transcript text isFinal =>
      by_cases hskip : ¬ isFinal ∨ text = []
      · have hno : spawns (.transcript text isFinal) = false := by
          simpa [spawns, imp_iff_not_or] using hskip
        simp only [consume, if_pos hskip, hno]
        rfl
      · have hyes : spawns (.transcript text isFinal) = true := by
          simpa [spawns] using hskip
        simp only [consume, if_neg hskip, hyes]
        rfl

/-- The new goroutine. -/
theorem consume_turns_self (bus : Bool) {s : State} {ev : ASREvent} (h : spawns ev = true) :
    ∃ text, (consume bus s ev).turns s.spawned = ⟨text, 0, false, .spawned⟩ := by
  cases ev with
  | speechStarted => exact absurd h (by decide)
  | transcript text isFinal =>
      have hskip : ¬ (¬ isFinal ∨ text = []) := by simpa [spawns] using h
      refine ⟨text, ?_⟩
      simp only [consume, if_neg hskip]
      exact Function.update_self _ _ _

/-- Only an event of the ASR spawns a goroutine. -/
theorem spawned_of_step {bus : Bool} {s s' : State} {a : Act} (ha : a ≠ .asrRecv)
    (hstep : step bus s a = some s') : s'.spawned = s.spawned := by
  cases a with
  | asrRecv => exact absurd rfl ha
  | _ =>
      simp only [step] at hstep
      grind [State.goto, State.setTurn, callCancel_spawned, register_spawned, cleanup]

/-- Only the two appends change the history. -/
theorem history_of_step {bus : Bool} {s s' : State} {a : Act} (hreg : ∀ k, a ≠ .register k)
    (hreply : ∀ k, a ≠ .appendReply k) (hstep : step bus s a = some s') :
    s'.st.history = s.st.history := by
  cases a with
  | register k => exact absurd rfl (hreg k)
  | appendReply k => exact absurd rfl (hreply k)
  | asrRecv =>
      obtain ⟨ev, rest, -, -, rfl⟩ := consume_of_asrRecv hstep
      rw [consume_st]
  | _ =>
      simp only [step] at hstep
      grind [State.goto, State.setTurn, callCancel_st, cleanup]

/-- The transcript of a turn stays. -/
theorem Effect.userText {s s' : State} {a : Act} (heff : Effect s a s') {k : Nat}
    (hk : k < s.spawned) : (s'.turns k).userText = (s.turns k).userText := by
  cases heff with
  | beside _ hturns hspawned hcancel hturn hqueued hconsumer => rw [hturns]
  | spawn _ text hconsumer hturns hspawned hst hqueued hconsumer' =>
      rw [hturns, Function.update_of_ne (Nat.ne_of_lt hk)]
  | bargeIn hconsumer => exact callCancel_userText s k
  | clear hconsumer => rfl
  | register j hpc =>
      by_cases hkj : k = j
      · obtain ⟨history, hself⟩ := register_turns_self s j
        rw [hkj, hself]
        exact callCancel_userText s j
      · rw [register_turns_of_ne s hkj, callCancel_userText]
  | move j pc hmove => exact goto_userText s k j pc
  | appendReply j reply hpc => exact goto_userText s k j _
  | pass j chunk hpc hlive => exact goto_userText s k j _
  | audio j chunk hpc hchunk => exact goto_userText s k j _
  | cleanup j hpc =>
      unfold Cascade.cleanup
      split <;> exact goto_userText s k j .finished
  | onEnd => exact callCancel_userText s k

end FsBridge.Pipeline.Cascade
