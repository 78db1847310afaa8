/-
  FsBridge.Pipeline.CascadeHistory

  The conversation the language model sees: the user messages of the history are
  the final transcripts in their order, as long as the goroutines register in the
  order in which they were spawned.
-/

import FsBridge.Pipeline.CascadeTurns

namespace FsBridge.Pipeline.Cascade

open FsBridge.Lib

-- ============================================================================
-- The property
-- ============================================================================

/-- The user messages of a conversation. -/
def users (history : List Message) : List Bytes :=
  (history.filter fun m => m.role = .user).map Message.content

/-- The final transcripts 1..n of the call: those of its first `n` goroutines. -/
def State.transcripts (s : State) (n : Nat) : List Bytes :=
  (List.range n).map fun k => (s.turns k).userText

/-- The transcripts whose goroutines have appended them, in transcript order. -/
def State.appended (s : State) : List Bytes :=
  ((List.range s.spawned).filter fun k => (s.turns k).pc.registered).map fun k =>
    (s.turns k).userText

/-- The history has the appended transcripts in transcript order; the one passed
    to `LLM.Respond` for a transcript has all up to it, and it last. -/
structure ConversationInOrder (s : State) : Prop where
  history : users s.st.history = s.appended
  passed : ∀ k history, (s.turns k).pc = .llmRespond history →
    users history = s.transcripts (k + 1)

/-- A goroutine registers after those of all earlier transcripts. -/
def RegistersInTurn (s : State) : Act → Prop
  | .register k => ∀ j, j < k → (s.turns j).pc ≠ .spawned
  | _ => True

theorem users_append (a b : List Message) : users (a ++ b) = users a ++ users b := by
  rw [users, List.filter_append, List.map_append]
  rfl

theorem transcripts_succ (s : State) (n : Nat) :
    s.transcripts (n + 1) = s.transcripts n ++ [(s.turns n).userText] := by
  rw [State.transcripts, List.range_succ, List.map_append]
  rfl

theorem transcripts_congr {s s' : State} {n : Nat}
    (h : ∀ k, k < n → (s'.turns k).userText = (s.turns k).userText) :
    s'.transcripts n = s.transcripts n :=
  List.map_congr_left fun k hk => h k (List.mem_range.mp hk)

-- ============================================================================
-- The invariant
-- ============================================================================

/-- The first `n` goroutines have registered, in their order. -/
structure HistoryInv (n : Nat) (s : State) : Prop where
  turns : TurnInv s
  le_spawned : n ≤ s.spawned
  registered_iff : ∀ k, (s.turns k).pc.registered = true ↔ k < n
  history : users s.st.history = s.transcripts n
  passed : ∀ k history, (s.turns k).pc = .llmRespond history →
    users history = s.transcripts (k + 1)

theorem HistoryInv.appended {n : Nat} {s : State} (h : HistoryInv n s) :
    s.appended = s.transcripts n := by
  have hfilter : (List.range s.spawned).filter (fun k => (s.turns k).pc.registered)
      = List.range n := by
    obtain ⟨d, hd⟩ := Nat.exists_eq_add_of_le h.le_spawned
    rw [hd, List.range_add, List.filter_append]
    have hfirst : (List.range n).filter (fun k => (s.turns k).pc.registered) = List.range n :=
      List.filter_eq_self.mpr fun k hk => (h.registered_iff k).mpr (List.mem_range.mp hk)
    have hrest : ((List.range d).map (n + ·)).filter (fun k => (s.turns k).pc.registered) = [] := by
      refine List.filter_eq_nil_iff.mpr fun k hk hreg => ?_
      obtain ⟨j, -, rfl⟩ := List.mem_map.mp hk
      have hlt := (h.registered_iff (n + j)).mp hreg
      omega
    rw [hfirst, hrest, List.append_nil]
  rw [State.appended, hfilter, State.transcripts]

theorem HistoryInv.inOrder {n : Nat} {s : State} (h : HistoryInv n s) : ConversationInOrder s where
  history := by rw [h.history, h.appended]
  passed := h.passed

theorem historyInv_initial (systemPrompt : Bytes) : HistoryInv 0 (initial systemPrompt) where
  turns := turnInv_initial systemPrompt
  le_spawned := Nat.zero_le _
  registered_iff := fun k => by simp [initial, RespondPc.registered]
  history := by
    show users (if systemPrompt = [] then [] else [⟨.system, systemPrompt⟩]) = []
    split <;> rfl
  passed := fun k history h => absurd h (by simp [initial])

/-- What a step other than `register` does to the position of a goroutine: nothing,
    or it moves on from a registered position, to none before `LLM.Respond` returns. -/
inductive Onward : RespondPc → RespondPc → Prop where
  | same (pc : RespondPc) : Onward pc pc
  | spawn : Onward .notSpawned .spawned
  | next {pc pc' : RespondPc} (hreg : pc.registered = true) (hreg' : pc'.registered = true)
      (hllm : ∀ history, pc' ≠ .llmRespond history) : Onward pc pc'

theorem Onward.registered {pc pc' : RespondPc} (h : Onward pc pc') :
    pc'.registered = pc.registered := by
  cases h with
  | same pc => rfl
  | spawn => rfl
  | next hreg hreg' hllm => rw [hreg, hreg']

theorem Onward.llmRespond {pc pc' : RespondPc} (h : Onward pc pc') {history : List Message}
    (hpc : pc' = .llmRespond history) : pc = .llmRespond history := by
  cases h with
  | same pc => exact hpc
  | spawn => exact absurd hpc (by simp)
  | next hreg hreg' hllm => exact absurd hpc (hllm history)

theorem Move.onward {pc pc' : RespondPc} (h : Move pc pc') : Onward pc pc' := by
  refine .next h.registered.1 h.registered.2 fun history => ?_
  cases h <;> simp

theorem onward_goto {s : State} (k : Nat) {pc : RespondPc} (h : Onward (s.turns k).pc pc)
    (j : Nat) : Onward (s.turns j).pc ((s.goto k pc).turns j).pc := by
  rw [goto_pc]
  split
  · rename_i hj
    rw [hj]
    exact h
  · exact .same _

theorem Effect.onward {s s' : State} {a : Act} (heff : Effect s a s') (hinv : TurnInv s)
    (ha : ∀ k, a ≠ .register k) (j : Nat) : Onward (s.turns j).pc (s'.turns j).pc := by
  cases heff with
  | beside _ hturns hspawned hcancel hturn hqueued hconsumer =>
      rw [hturns]
      exact .same _
  | spawn _ text hconsumer hturns hspawned hst hqueued hconsumer' =>
      rw [hturns]
      by_cases hj : j = s.spawned
      · rw [hj, Function.update_self, (hinv.notSpawned_iff s.spawned).mpr (Nat.le_refl _)]
        exact .spawn
      · rw [Function.update_of_ne hj]
        exact .same _
  | bargeIn hconsumer =>
      dsimp only
      rw [callCancel_pc]
      exact .same _
  | clear hconsumer => exact .same _
  | register k hpc => exact absurd rfl (ha k)
  | move k pc hmove => exact onward_goto k hmove.onward j
  | appendReply k reply hpc =>
      exact onward_goto k (.next (by rw [hpc]; rfl) rfl (by simp)) j
  | pass k chunk hpc hlive =>
      exact onward_goto k (.next (by rw [hpc]; rfl) rfl (by simp)) j
  | audio k chunk hpc hchunk =>
      exact onward_goto k (.next (by rw [hpc]; rfl) rfl (by simp)) j
  | cleanup k hpc =>
      have hgoto : Onward (s.turns j).pc ((s.goto k .finished).turns j).pc :=
        onward_goto k (.next (by rw [hpc]; rfl) rfl (by simp)) j
      unfold Cascade.cleanup
      split
      · exact hgoto
      · exact hgoto
  | onEnd =>
      dsimp only
      rw [callCancel_pc]
      exact .same _

/-- Only `register` appends a user message. -/
theorem users_of_step {bus : Bool} {s s' : State} {a : Act} (ha : ∀ k, a ≠ .register k)
    (hstep : step bus s a = some s') : users s'.st.history = users s.st.history := by
  by_cases hreply : ∃ k, a = .appendReply k
  · obtain ⟨k, rfl⟩ := hreply
    rw [step] at hstep
    split at hstep
    · rename_i reply hpc
      obtain rfl := Option.some.inj hstep
      show users (s.st.history ++ [⟨.assistant, reply⟩]) = _
      rw [users_append]
      exact List.append_nil _
    · exact absurd hstep (by simp)
  · rw [history_of_step ha (fun k hk => hreply ⟨k, hk⟩) hstep]

theorem HistoryInv.other {n : Nat} {bus : Bool} {s s' : State} {a : Act} (h : HistoryInv n s)
    (ha : ∀ k, a ≠ .register k) (hstep : step bus s a = some s') : HistoryInv n s' := by
  have heff := effect_of_step hstep
  have hspawned : s.spawned ≤ s'.spawned := by
    by_cases hrecv : a = .asrRecv
    · subst hrecv
      obtain ⟨ev, rest, -, -, rfl⟩ := consume_of_asrRecv hstep
      rw [consume_spawned]
      exact Nat.le_add_right _ _
    · exact Nat.le_of_eq (spawned_of_step hrecv hstep).symm
  have htexts : ∀ m, m ≤ s.spawned → s'.transcripts m = s.transcripts m := fun m hm =>
    transcripts_congr fun k hk => heff.userText (Nat.lt_of_lt_of_le hk hm)
  have hle := h.le_spawned
  refine ⟨heff.turnInv h.turns, by omega, ?_, ?_, ?_⟩
  · intro k
    rw [(heff.onward h.turns ha k).registered]
    exact h.registered_iff k
  · rw [users_of_step ha hstep, htexts n hle]
    exact h.history
  · intro k history hpc
    have hpc' := (heff.onward h.turns ha k).llmRespond hpc
    have hlt := (h.registered_iff k).mp (by rw [hpc']; rfl)
    rw [htexts (k + 1) (by omega)]
    exact h.passed k history hpc'

/-- The next goroutine in order registers. -/
theorem HistoryInv.register {n : Nat} {s : State} (h : HistoryInv n s)
    (hpc : (s.turns n).pc = .spawned) : HistoryInv (n + 1) (register s n) := by
  have heff : Effect s (.register n) (Cascade.register s n) := .register n hpc
  have hlt : n < s.spawned := by
    have hns := (h.turns.notSpawned_iff n).not.mp (by rw [hpc]; simp)
    omega
  have hhistory : (Cascade.register s n).st.history
      = s.st.history ++ [⟨.user, (s.turns n).userText⟩] := by
    simp [Cascade.register]
  have htexts : ∀ m, m ≤ s.spawned →
      (Cascade.register s n).transcripts m = s.transcripts m := fun m hm =>
    transcripts_congr fun k hk => heff.userText (Nat.lt_of_lt_of_le hk hm)
  have husers : users (Cascade.register s n).st.history = s.transcripts (n + 1) := by
    rw [hhistory, users_append, h.history, transcripts_succ]
    rfl
  refine ⟨heff.turnInv h.turns, ?_, ?_, ?_, ?_⟩
  · rw [register_spawned]
    exact hlt
  · intro k
    by_cases hk : k = n
    · obtain ⟨history, hself⟩ := register_turns_self s n
      rw [hk, hself]
      simp [RespondPc.registered]
    · rw [register_turns_of_ne s hk, callCancel_pc, h.registered_iff k]
      omega
  · rw [husers, htexts (n + 1) hlt]
  · intro k history hk
    by_cases hkn : k = n
    · have hpassed : ((Cascade.register s n).turns n).pc
          = .llmRespond (Cascade.register s n).st.history := by
        simp [Cascade.register, State.setTurn]
      rw [hkn] at hk ⊢
      obtain rfl := RespondPc.llmRespond.inj (hpassed.symm.trans hk)
      rw [husers, htexts (n + 1) hlt]
    · rw [register_turns_of_ne s hkn, callCancel_pc] at hk
      have hlt' := (h.registered_iff k).mp (by rw [hk]; rfl)
      rw [htexts (k + 1) (by omega)]
      exact h.passed k history hk

/-- A goroutine that registers in turn is the next one. -/
theorem HistoryInv.eq_of_inTurn {n k : Nat} {s : State} (h : HistoryInv n s)
    (hpc : (s.turns k).pc = .spawned) (hturn : ∀ j, j < k → (s.turns j).pc ≠ .spawned) :
    k = n := by
  have hk : ¬ k < n := by
    rw [← h.registered_iff k, hpc]
    decide
  by_contra hne
  -- otherwise the next one is still waiting
  have hlt : k < s.spawned := by
    have hns := (h.turns.notSpawned_iff k).not.mp (by rw [hpc]; simp)
    omega
  have hreg : ¬ (s.turns n).pc.registered = true := by
    rw [h.registered_iff n]
    omega
  have hspawned : (s.turns n).pc ≠ .notSpawned := by
    rw [ne_eq, h.turns.notSpawned_iff n]
    omega
  cases hn : (s.turns n).pc with
  | notSpawned => exact hspawned hn
  | spawned => exact hturn n (by omega) hn
  | _ => exact hreg (by rw [hn]; rfl)

theorem HistoryInv.kept {n : Nat} {bus : Bool} {s s' : State} {a : Act} (h : HistoryInv n s)
    (hguard : RegistersInTurn s a) (hstep : step bus s a = some s') : ∃ m, HistoryInv m s' := by
  by_cases ha : ∃ k, a = .register k
  · obtain ⟨k, rfl⟩ := ha
    rw [Cascade.step] at hstep
    split at hstep
    · rename_i hpc
      obtain rfl := Option.some.inj hstep
      obtain rfl := h.eq_of_inTurn hpc hguard
      exact ⟨k + 1, h.register hpc⟩
    · exact absurd hstep (by simp)
  · exact ⟨n, h.other (fun k hk => ha ⟨k, hk⟩) hstep⟩

/-- The history passed by a goroutine that jumps the queue is too short. -/
theorem HistoryInv.inTurn_of_passed {n : Nat} {bus : Bool} {s s' : State} {a : Act}
    (h : HistoryInv n s) (hstep : step bus s a = some s') (hinOrder : ConversationInOrder s') :
    RegistersInTurn s a := by
  cases a with
  | register k =>
      rw [Cascade.step] at hstep
      split at hstep
      · rename_i hpc
        obtain rfl := Option.some.inj hstep
        have hpassed : ((Cascade.register s k).turns k).pc
            = .llmRespond (s.st.history ++ [⟨.user, (s.turns k).userText⟩]) := by
          simp [Cascade.register, State.setTurn]
        have husers := hinOrder.passed k _ hpassed
        rw [users_append, h.history] at husers
        have hlen : n + 1 = k + 1 := by
          simpa [State.transcripts, users] using congrArg List.length husers
        intro j hj hspawned
        have hreg := (h.registered_iff j).mpr (by omega)
        rw [hspawned] at hreg
        exact absurd hreg (by decide)
      · exact absurd hstep (by simp)
  | _ => trivial

-- ============================================================================
-- Runs
-- ============================================================================

/-- **Conversation order.**  A run keeps the conversation in the order of the
    transcripts exactly when every goroutine registers in turn. -/
theorem conversationInOrder_iff_registersInTurn (bus : Bool) (systemPrompt : Bytes)
    (schedule : List Act) (t : State)
    (hrun : (machine bus systemPrompt).run (initial systemPrompt) schedule = some t) :
    (machine bus systemPrompt).Always ConversationInOrder (initial systemPrompt) schedule ↔
      (machine bus systemPrompt).Guarded RegistersInTurn (initial systemPrompt) schedule := by
  have hinit : ∃ n, HistoryInv n (initial systemPrompt) := ⟨0, historyInv_initial systemPrompt⟩
  have hkeep : ∀ s a s', (∃ n, HistoryInv n s) → RegistersInTurn s a →
      (machine bus systemPrompt).step s a = some s' → ∃ n, HistoryInv n s' := by
    rintro s a s' ⟨n, h⟩ hguard hstep
    exact h.kept hguard hstep
  constructor
  · intro halways
    refine Machine.guarded_of_always hkeep ?_ hrun hinit halways
    rintro s a s' ⟨n, h⟩ hstep hinOrder
    exact h.inTurn_of_passed hstep hinOrder
  · intro hguard
    refine (Machine.always_of_guarded hkeep hguard hinit).mono ?_
    rintro s ⟨n, h⟩
    exact h.inOrder

/-- Two final transcripts, one after the other. -/
def twoFinals : List Act :=
  [.asrEmit (.transcript (ascii "one") true), .asrRecv, .asrEmit (.transcript (ascii "two") true),
    .asrRecv]

theorem conversationInOrder_iff_registersInTurn_two :
    (machine true []).Always ConversationInOrder (initial [])
      (twoFinals ++ [.register 0, .register 1]) := by
  apply (conversationInOrder_iff_registersInTurn true [] _ _ rfl).mpr
  simp [twoFinals, ascii, Machine.Guarded, RegistersInTurn, machine, step, initial, consume,
    register, State.setTurn, State.callCancel]

/-- The goroutine of the second transcript runs first: its `LLM.Respond` does not
    see the first transcript. -/
theorem second_registers_first :
    ¬ (machine true []).Always ConversationInOrder (initial [])
      (twoFinals ++ [.register 1, .register 0]) := by
  intro h
  have hlast := h.last rfl
  have hhistory := hlast.history
  exact absurd hhistory (by decide)

end FsBridge.Pipeline.Cascade
