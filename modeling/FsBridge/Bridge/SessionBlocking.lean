/-
  FsBridge.Bridge.SessionBlocking

  Whether a sender can get stuck inside `enqueue`.  The last `select` waits for
  a free slot or for `done`; the slot an eviction has freed may be taken by
  another sender first.
-/

import FsBridge.Bridge.SessionLaws

namespace FsBridge.Bridge.Session

open FsBridge.Lib

variable {ι : Type*} {cap : Nat}

-- ============================================================================
-- Stuck senders
-- ============================================================================

/-- Sender `i` is at the last `select` of `enqueue`. -/
def State.waiting (s : State ι cap) (i : ι) : Prop :=
  ∃ req, (s.senders i).inside = some (.lastAttempt, req)

variable [DecidableEq ι]

/-- Sender `i` has an enabled step. -/
def State.canStep (s : State ι cap) (i : ι) : Prop :=
  ∃ a : Act ι, a.isOf i ∧ (step s a).isSome = true

/-- No sender inside `enqueue` is stuck. -/
def NeverBlocks (s : State ι cap) : Prop := ∀ i, ¬ s.idle i → s.canStep i

/-- The action does not take the last free slot of an open queue while another
    sender waits at its last `select`. -/
def LeavesRoom (s : State ι cap) (a : Act ι) : Prop :=
  s.done = false → ∀ i j, a = .tryQueue i ∨ a = .lastSend i → j ≠ i → s.waiting j →
    s.writeQueue.buf.length + 1 ≠ cap

/-- The first three `select` statements have a default case. -/
theorem canStep_of_not_waiting {s : State ι cap} {i : ι} (hin : ¬ s.idle i)
    (hwait : ¬ s.waiting i) : s.canStep i := by
  cases hinside : (s.senders i).inside with
  | none => exact absurd hinside hin
  | some p =>
      obtain ⟨pc, req⟩ := p
      have hcur := State.current_of_inside hinside
      cases pc with
      | checkDone =>
          refine ⟨.checkDone i, rfl, ?_⟩
          simp only [step, hcur]
          split
          · rfl
          · rfl
      | tryQueue =>
          refine ⟨.tryQueue i, rfl, ?_⟩
          simp only [step, hcur]
          split
          · rfl
          · rfl
      | dropOldest =>
          refine ⟨.dropOldest i, rfl, ?_⟩
          simp only [step, hcur]
          split
          · rfl
          · rfl
      | lastAttempt => exact absurd ⟨req, hinside⟩ hwait

theorem canStep_of_room {s : State ι cap} {i : ι} (hwait : s.waiting i)
    (hroom : s.writeQueue.buf.length < cap) : s.canStep i := by
  obtain ⟨req, hinside⟩ := hwait
  refine ⟨.lastSend i, rfl, ?_⟩
  simp only [step, State.current_of_inside hinside, Option.isSome_map]
  rw [Chan.trySend, dif_pos hroom]
  rfl

theorem canStep_of_done {s : State ι cap} {i : ι} (hwait : s.waiting i)
    (hdone : s.done = true) : s.canStep i := by
  obtain ⟨req, hinside⟩ := hwait
  refine ⟨.lastDone i, rfl, ?_⟩
  simp only [step, State.current_of_inside hinside, hdone, if_true]
  rfl

/-- At the last `select` nothing is enabled while the queue is full and the
    session open. -/
theorem not_canStep_of_full {s : State ι cap} {i : ι} (hwait : s.waiting i)
    (hfull : s.writeQueue.buf.length = cap) (hopen : s.done = false) : ¬ s.canStep i := by
  rintro ⟨a, ha, hsome⟩
  obtain ⟨req, hinside⟩ := hwait
  have hcur := State.current_of_inside hinside
  have hnot : ∀ c : Call ι, s.writeQueue.trySend c = none := fun c =>
    Chan.trySend_eq_none.mpr hfull
  cases a with
  | call j req' =>
      obtain rfl : j = i := ha
      simp [step, hinside] at hsome
  | checkDone j | tryQueue j | dropOldest j =>
      obtain rfl : j = i := ha
      simp [step, hcur] at hsome
  | lastSend j =>
      obtain rfl : j = i := ha
      simp [step, hcur, hnot] at hsome
  | lastDone j =>
      obtain rfl : j = i := ha
      simp [step, hcur, hopen] at hsome
  | pumpDone | pumpRecv | pumpWrite ok | close => exact ha

/-- A sender is stuck only at the last `select`, in front of a full queue. -/
theorem neverBlocks_iff {s : State ι cap} :
    NeverBlocks s ↔
      ∀ i, s.waiting i → s.done = false → s.writeQueue.buf.length < cap := by
  constructor
  · intro h i hwait hopen
    by_contra hroom
    have hle := s.writeQueue.length_le
    have hin : ¬ s.idle i := by
      obtain ⟨req, hinside⟩ := hwait
      rw [State.idle, hinside]
      simp
    exact not_canStep_of_full hwait (by omega) hopen (h i hin)
  · intro h i hin
    by_cases hwait : s.waiting i
    · cases hdone : s.done with
      | true => exact canStep_of_done hwait hdone
      | false => exact canStep_of_room hwait (h i hwait hdone)
    · exact canStep_of_not_waiting hin hwait

-- ============================================================================
-- Steps and runs
-- ============================================================================

/-- A sender that moves to a place other than the last `select` does not wait. -/
theorem waiting_of_update {s : State ι cap} {i j : ι} {x : Sender}
    (hx : ∀ req, x.inside ≠ some (.lastAttempt, req))
    (h : ∃ req, (Function.update s.senders i x j).inside = some (.lastAttempt, req)) :
    j ≠ i ∧ s.waiting j := by
  obtain ⟨req, hreq⟩ := h
  by_cases hj : j = i
  · rw [hj, Function.update_self] at hreq
    exact absurd hreq (hx req)
  · rw [Function.update_of_ne hj] at hreq
    exact ⟨hj, req, hreq⟩

theorem neverBlocks_step (hcap : 1 ≤ cap) {s s' : State ι cap} {a : Act ι}
    (h : NeverBlocks s) (hroom : LeavesRoom s a) (hstep : step s a = some s') :
    NeverBlocks s' := by
  rw [neverBlocks_iff] at h ⊢
  intro j hwait hopen
  cases effect_of_step hstep with
  | call i req hidle =>
      obtain ⟨-, hwait'⟩ := waiting_of_update (by simp) hwait
      exact h j hwait' hopen
  | isOpen i c hcur =>
      obtain ⟨-, hwait'⟩ := waiting_of_update (by simp) hwait
      exact h j hwait' hopen
  | full i c hcur hfull =>
      obtain ⟨-, hwait'⟩ := waiting_of_update (by simp) hwait
      exact h j hwait' hopen
  | drained i c hcur hempty =>
      show s.writeQueue.buf.length < cap
      rw [hempty, List.length_nil]
      omega
  | evict i c old q hcur hq =>
      -- the eviction has freed a slot for every sender that waits
      have hle := s.writeQueue.length_le
      rw [hq, List.length_cons] at hle
      show q.buf.length < cap
      omega
  | push i pc c q ha hcur hlt hq =>
      obtain ⟨hj, hwait'⟩ := waiting_of_update (by simp) hwait
      have hne := hroom hopen i j (ha.imp And.left And.left) hj hwait'
      show q.buf.length < cap
      rw [hq, List.length_append, List.length_singleton]
      omega
  | closed i pc c ha hcur hdone =>
      have hopen' : s.done = false := hopen
      exact absurd (hdone.symm.trans hopen') (by simp)
  | hand c q hq =>
      have hle := s.writeQueue.length_le
      rw [hq, List.length_cons] at hle
      show q.buf.length < cap
      omega
  | other pump done hdone ha =>
      refine h j hwait ?_
      by_contra hs
      have hclosed := hdone (by simpa using hs)
      exact absurd (hclosed.symm.trans hopen) (by simp)

/-- Where the last slot goes to another sender, the one that waits is stuck. -/
theorem leavesRoom_of_neverBlocks {s s' : State ι cap} {a : Act ι}
    (hstep : step s a = some s') (h : NeverBlocks s') : LeavesRoom s a := by
  rw [neverBlocks_iff] at h
  intro hopen i j ha hj hwait hlast
  cases effect_of_step hstep with
  | push k pc c q hk hcur hlt hq =>
      obtain rfl : k = i := by
        rcases ha with rfl | rfl
        · rcases hk with ⟨hk, -⟩ | ⟨hk, -⟩
          · cases hk
            rfl
          · cases hk
        · rcases hk with ⟨hk, -⟩ | ⟨hk, -⟩
          · cases hk
          · cases hk
            rfl
      have hwait' : (pushAndReturn s k c q).waiting j := by
        obtain ⟨req, hreq⟩ := hwait
        refine ⟨req, ?_⟩
        show (Function.update s.senders k _ j).inside = _
        rw [Function.update_of_ne hj, hreq]
      have hroom : q.buf.length < cap := h j hwait' hopen
      rw [hq, List.length_append, List.length_singleton] at hroom
      omega
  | full k c hcur hfull => omega
  | other pump done hdone hother =>
      rcases ha with rfl | rfl
      · exact hother i rfl
      · exact hother i rfl
  | closed k pc c hk hcur hdone => exact absurd (hdone.symm.trans hopen) (by simp)
  | _ => rcases ha with ha | ha <;> cases ha

/-- **Senders never block.**  A run leaves no sender stuck inside `enqueue`
    exactly when no send takes the last free slot from a sender that waits. -/
theorem neverBlocks_iff_leavesRoom (hcap : 1 ≤ cap) (as : List (Act ι)) (s : State ι cap)
    (hrun : (machine ι cap).run (initial ι cap) as = some s) :
    (machine ι cap).Always NeverBlocks (initial ι cap) as ↔
      (machine ι cap).Guarded LeavesRoom (initial ι cap) as := by
  have h0 : NeverBlocks (initial ι cap) := fun i hin => absurd rfl hin
  constructor
  · intro halways
    exact Machine.guarded_of_always
      (fun t a t' h hroom hstep => neverBlocks_step hcap h hroom hstep)
      (fun t a t' _ hstep h => leavesRoom_of_neverBlocks hstep h) hrun h0 halways
  · intro hguard
    exact Machine.always_of_guarded
      (fun t a t' h hroom hstep => neverBlocks_step hcap h hroom hstep) hguard h0

/-- The steps of a call of `enqueue` up to its last `select`. -/
def evictAndWait (i : ι) (req : WriteRequest) : List (Act ι) :=
  [.call i req, .checkDone i, .tryQueue i, .dropOldest i]

/-- Two senders on a full queue, one after the other. -/
theorem neverBlocks_iff_leavesRoom_inTurn :
    (machine Bool 1).Always NeverBlocks (initial Bool 1)
      (sendWithRoom true ⟨.messageBinary, [1]⟩ ++ sendWhenFull false ⟨.messageBinary, [2]⟩) := by
  apply (neverBlocks_iff_leavesRoom (by decide) _ _ rfl).mpr
  simp [sendWithRoom, sendWhenFull, Machine.Guarded, LeavesRoom, machine, initial, step,
    State.waiting, State.current, State.goto, pushAndReturn, State.ret, Chan.trySend, Chan.tryRecv,
    Chan.empty]

/-- With `writePump` inside `conn.Write`, a second sender takes the slot the
    first has freed. -/
theorem sender_stuck :
    ¬ (machine Bool 1).Always NeverBlocks (initial Bool 1)
      (sendWithRoom true ⟨.messageBinary, [1]⟩ ++ [.pumpRecv]
        ++ sendWithRoom true ⟨.messageBinary, [2]⟩
        ++ evictAndWait false ⟨.messageBinary, [3]⟩
        ++ sendWithRoom true ⟨.messageBinary, [4]⟩) := by
  intro h
  have hlast := h.last rfl
  exact absurd (neverBlocks_iff.mp hlast false ⟨_, rfl⟩ rfl) (by decide)

end FsBridge.Bridge.Session
