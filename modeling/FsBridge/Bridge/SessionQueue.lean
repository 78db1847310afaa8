/-
  FsBridge.Bridge.SessionQueue

  What happens to a downlink frame: the laws of `writeQueue` over every
  interleaving of senders, `writePump` and `Close`.

  `Effect` says once what an atomic step can do to a session; every invariant
  below is a case analysis over it.  A call of `enqueue` is known by its sender
  and its number, so "at most once" and "in send order" are one statement:
  along a log, the numbers of each sender strictly increase (`SeqOrdered`).
-/

import FsBridge.Bridge.Session

namespace FsBridge.Bridge.Session

open FsBridge.Lib

variable {ι : Type*} {cap : Nat}

-- ============================================================================
-- Logs of calls
-- ============================================================================

/-- Along the log, the call numbers of each sender strictly increase. -/
def SeqOrdered (log : List (Call ι)) : Prop :=
  log.Pairwise fun a b => a.sender = b.sender → a.seq < b.seq

theorem SeqOrdered.nil : SeqOrdered ([] : List (Call ι)) := List.Pairwise.nil

theorem SeqOrdered.snoc {log : List (Call ι)} {c : Call ι} (h : SeqOrdered log)
    (hc : ∀ a ∈ log, a.sender = c.sender → a.seq < c.seq) : SeqOrdered (log ++ [c]) := by
  apply List.pairwise_append.mpr
  refine ⟨h, List.pairwise_singleton _ _, ?_⟩
  intro a ha b hb
  obtain rfl := List.mem_singleton.mp hb
  exact hc a ha

theorem SeqOrdered.nodup {log : List (Call ι)} (h : SeqOrdered log) : log.Nodup := by
  apply List.Pairwise.imp _ h
  intro a b hab heq
  have hlt := hab (congrArg Call.sender heq)
  rw [heq] at hlt
  exact absurd hlt (Nat.lt_irrefl _)

theorem SeqOrdered.sublist {l log : List (Call ι)} (h : SeqOrdered log) (hl : l.Sublist log) :
    SeqOrdered l :=
  List.Pairwise.sublist hl h

-- ============================================================================
-- The invariant
-- ============================================================================

/-- Calls of `enqueue` this sender has returned from. -/
def Sender.over (x : Sender) : Nat :=
  match x.inside with
  | none => x.calls
  | some _ => x.calls - 1

/-- Calls of `enqueue` this sender will evict nothing for any more. -/
def Sender.passed (x : Sender) : Nat :=
  match x.inside with
  | none => x.calls
  | some (.lastAttempt, _) => x.calls
  | some _ => x.calls - 1

/-- The invariant of a session: where frames are, and how far each sender is. -/
structure Inv (s : State ι cap) : Prop where
  fifo : s.entered = s.left.map Prod.fst ++ s.writeQueue.buf
  calls_pos : ∀ i p, (s.senders i).inside = some p → 1 ≤ (s.senders i).calls
  entered_ordered : SeqOrdered s.entered
  entered_over : ∀ c ∈ s.entered, c.seq < (s.senders c.sender).over
  evictors_ordered : SeqOrdered s.evictors
  evictors_passed : ∀ e ∈ s.evictors, e.seq < (s.senders e.sender).passed
  evictors_full : ∀ e ∈ s.evictors, e ∈ s.foundFull
  dropping_full : ∀ i c, s.current i = some (.dropOldest, c) → c ∈ s.foundFull
  returned_ok : ∀ c, (c, .ok ()) ∈ s.returned ↔ c ∈ s.entered

theorem inv_initial : Inv (initial ι cap) where
  fifo := rfl
  calls_pos := fun i p h => absurd h (by simp [initial])
  entered_ordered := SeqOrdered.nil
  entered_over := fun c hc => absurd hc List.not_mem_nil
  evictors_ordered := SeqOrdered.nil
  evictors_passed := fun e he => absurd he List.not_mem_nil
  evictors_full := fun e he => absurd he List.not_mem_nil
  dropping_full := fun i c h => absurd h (by simp [State.current, initial])
  returned_ok := fun c => by simp [initial]

theorem evictors_snoc (l : List (Call ι × Exit ι)) (c : Call ι) (x : Exit ι) :
    (l ++ [(c, x)]).filterMap (fun d => d.2.evictor)
      = l.filterMap (fun d => d.2.evictor) ++ x.evictor.toList := by
  rw [List.filterMap_append]
  cases x <;> rfl

-- ============================================================================
-- What a step can do
-- ============================================================================

namespace State

/-- The call a sender is in has the number before `calls`. -/
theorem current_sender {s : State ι cap} {i : ι} {pc : EnqueuePc} {c : Call ι}
    (h : s.current i = some (pc, c)) : c.sender = i := by
  obtain ⟨p, -, hp⟩ := Option.map_eq_some_iff.mp h
  cases hp
  rfl

theorem current_inside {s : State ι cap} {i : ι} {pc : EnqueuePc} {c : Call ι}
    (h : s.current i = some (pc, c)) :
    (s.senders i).inside = some (pc, c.req) ∧ c.seq = (s.senders i).calls - 1 := by
  obtain ⟨p, hp, hc⟩ := Option.map_eq_some_iff.mp h
  cases hc
  exact ⟨hp, rfl⟩

theorem current_of_inside {s : State ι cap} {i : ι} {pc : EnqueuePc} {req : WriteRequest}
    (h : (s.senders i).inside = some (pc, req)) :
    s.current i = some (pc, ⟨i, (s.senders i).calls - 1, req⟩) := by
  rw [current, h]
  rfl

end State

variable [DecidableEq ι]

/-- Everything an atomic step can do to a session. -/
inductive Effect (s : State ι cap) : Act ι → State ι cap → Prop where
  /-- A sender calls `enqueue`. -/
  | call (i : ι) (req : WriteRequest) (hidle : (s.senders i).inside = none) :
      Effect s (.call i req) { s with
        senders := Function.update s.senders i ⟨(s.senders i).calls + 1, some (.checkDone, req)⟩ }
  /-- The session is open: on to the second `select`. -/
  | isOpen (i : ι) (c : Call ι) (hcur : s.current i = some (.checkDone, c))
      (hopen : s.done = false) :
      Effect s (.checkDone i) (s.goto i (some (.tryQueue, c.req)))
  /-- The second `select` finds the queue full. -/
  | full (i : ι) (c : Call ι) (hcur : s.current i = some (.tryQueue, c))
      (hfull : s.writeQueue.buf.length = cap) :
      Effect s (.tryQueue i)
        { s.goto i (some (.dropOldest, c.req)) with foundFull := s.foundFull ++ [c] }
  /-- The third `select` finds the queue empty again. -/
  | drained (i : ι) (c : Call ι) (hcur : s.current i = some (.dropOldest, c))
      (hempty : s.writeQueue.buf = []) :
      Effect s (.dropOldest i) (s.goto i (some (.lastAttempt, c.req)))
  /-- The third `select` takes the oldest frame out. -/
  | evict (i : ι) (c old : Call ι) (q : Chan (Call ι) cap)
      (hcur : s.current i = some (.dropOldest, c)) (hq : s.writeQueue.buf = old :: q.buf) :
      Effect s (.dropOldest i) { s.goto i (some (.lastAttempt, c.req)) with
        writeQueue := q, left := s.left ++ [(old, .evictedBy c)] }
  /-- A send on `writeQueue` succeeds and `enqueue` returns nil. -/
  | push {a} (i : ι) (pc : EnqueuePc) (c : Call ι) (q : Chan (Call ι) cap)
      (ha : a = .tryQueue i ∧ pc = .tryQueue ∨ a = .lastSend i ∧ pc = .lastAttempt)
      (hcur : s.current i = some (pc, c)) (hlt : s.writeQueue.buf.length < cap)
      (hq : q.buf = s.writeQueue.buf ++ [c]) :
      Effect s a (pushAndReturn s i c q)
  /-- `enqueue` returns `ErrSessionClosed`. -/
  | closed {a} (i : ι) (pc : EnqueuePc) (c : Call ι)
      (ha : a = .checkDone i ∧ pc = .checkDone ∨ a = .lastDone i ∧ pc = .lastAttempt)
      (hcur : s.current i = some (pc, c)) (hdone : s.done = true) :
      Effect s a (s.ret i c (.error .errSessionClosed))
  /-- `writePump` takes a frame and hands it to `conn.Write`. -/
  | hand (c : Call ι) (q : Chan (Call ι) cap) (hq : s.writeQueue.buf = c :: q.buf) :
      Effect s .pumpRecv { s with
        writeQueue := q, pump := .writing c, left := s.left ++ [(c, .toConnWrite)] }
  /-- `writePump` moves on or the session is closed. -/
  | other {a} (pump : PumpPc ι) (done : Bool) (hdone : s.done = true → done = true)
      (ha : ∀ i, ¬ a.isOf i) :
      Effect s a { s with pump := pump, done := done }

theorem effect_of_step {s s' : State ι cap} {a : Act ι} (h : step s a = some s') :
    Effect s a s' := by
  cases a with
  | call i req =>
      simp only [step] at h
      split at h
      · exact absurd h (by simp)
      · rename_i hidle
        cases h
        exact .call i req hidle
  | checkDone i =>
      simp only [step] at h
      split at h
      · rename_i c hcur
        split at h
        · rename_i hdone
          cases h
          exact .closed i _ c (.inl ⟨rfl, rfl⟩) hcur hdone
        · rename_i hopen
          cases h
          exact .isOpen i c hcur (by simpa using hopen)
      · exact absurd h (by simp)
  | tryQueue i =>
      simp only [step] at h
      split at h
      · rename_i c hcur
        split at h
        · rename_i q hq
          cases h
          obtain ⟨hlt, hbuf⟩ := Chan.trySend_eq_some.mp hq
          exact .push i _ c q (.inl ⟨rfl, rfl⟩) hcur hlt hbuf
        · rename_i hq
          cases h
          exact .full i c hcur (Chan.trySend_eq_none.mp hq)
      · exact absurd h (by simp)
  | dropOldest i =>
      simp only [step] at h
      split at h
      · rename_i c hcur
        split at h
        · rename_i old q hq
          cases h
          exact .evict i c old q hcur (Chan.tryRecv_eq_some.mp hq)
        · rename_i hq
          cases h
          exact .drained i c hcur (Chan.tryRecv_eq_none.mp hq)
      · exact absurd h (by simp)
  | lastSend i =>
      simp only [step] at h
      split at h
      · rename_i c hcur
        obtain ⟨q, hq, rfl⟩ := Option.map_eq_some_iff.mp h
        obtain ⟨hlt, hbuf⟩ := Chan.trySend_eq_some.mp hq
        exact .push i _ c q (.inr ⟨rfl, rfl⟩) hcur hlt hbuf
      · exact absurd h (by simp)
  | lastDone i =>
      simp only [step] at h
      split at h
      · rename_i c hcur
        split at h
        · rename_i hdone
          cases h
          exact .closed i _ c (.inr ⟨rfl, rfl⟩) hcur hdone
        · exact absurd h (by simp)
      · exact absurd h (by simp)
  | pumpDone =>
      simp only [step] at h
      split at h
      · cases h
        exact .other .returned s.done id (by simp)
      · exact absurd h (by simp)
  | pumpRecv =>
      simp only [step] at h
      split at h
      · split at h
        · rename_i c q hq
          cases h
          exact .hand c q (Chan.tryRecv_eq_some.mp hq)
        · exact absurd h (by simp)
      · exact absurd h (by simp)
  | pumpWrite ok =>
      simp only [step] at h
      split at h
      · split at h
        · cases h
          exact .other .selecting s.done id (by simp)
        · cases h
          exact .other .returned true (fun _ => rfl) (by simp)
      · exact absurd h (by simp)
  | close =>
      simp only [step] at h
      cases h
      exact .other s.pump true (fun _ => rfl) (by simp)

-- ============================================================================
-- Every step keeps the invariant
-- ============================================================================

/-- A bound on the call numbers of a log survives a step that does not lower
    the bound of the sender it moves. -/
theorem below_update {f : Sender → Nat} {log : List (Call ι)} {senders : ι → Sender} {i : ι}
    {x : Sender} (h : ∀ c ∈ log, c.seq < f (senders c.sender)) (hx : f (senders i) ≤ f x) :
    ∀ c ∈ log, c.seq < f (Function.update senders i x c.sender) := by
  intro c hc
  have hlt := h c hc
  by_cases hi : c.sender = i
  · rw [hi, Function.update_self]
    rw [hi] at hlt
    omega
  · rw [Function.update_of_ne hi]
    exact hlt

theorem calls_pos_update {senders : ι → Sender} {i : ι} {x : Sender}
    (h : ∀ j p, (senders j).inside = some p → 1 ≤ (senders j).calls)
    (hx : ∀ p, x.inside = some p → 1 ≤ x.calls) :
    ∀ j p, (Function.update senders i x j).inside = some p →
      1 ≤ (Function.update senders i x j).calls := by
  intro j p hp
  by_cases hj : j = i
  · rw [hj, Function.update_self] at hp ⊢
    exact hx p hp
  · rw [Function.update_of_ne hj] at hp ⊢
    exact h j p hp

/-- Moving sender `i` to a `select` other than the third leaves at the third
    `select` only senders that were there before. -/
theorem dropping_of_update {s : State ι cap} {i j : ι} {x : Sender} {c : Call ι}
    {senders' : ι → Sender} (hs : senders' = Function.update s.senders i x)
    (hx : ∀ req, x.inside ≠ some (.dropOldest, req))
    (h : ((senders' j).inside.map fun p => (p.1, (⟨j, (senders' j).calls - 1, p.2⟩ : Call ι)))
      = some (.dropOldest, c)) :
    s.current j = some (.dropOldest, c) := by
  subst hs
  by_cases hj : j = i
  · rw [hj, Function.update_self] at h
    obtain ⟨⟨pc, req⟩, hp, hc⟩ := Option.map_eq_some_iff.mp h
    cases hc
    exact absurd hp (hx req)
  · rw [Function.update_of_ne hj] at h
    exact h

/-- Every atomic step keeps the invariant. -/
theorem Effect.inv {s s' : State ι cap} {a : Act ι} (h : Effect s a s') (hinv : Inv s) :
    Inv s' := by
  cases h with
  | call i req hidle =>
      have hover : (s.senders i).over = (s.senders i).calls := by rw [Sender.over, hidle]
      have hpassed : (s.senders i).passed = (s.senders i).calls := by rw [Sender.passed, hidle]
      exact { hinv with
        calls_pos := calls_pos_update hinv.calls_pos fun p _ => Nat.le_add_left 1 _
        entered_over := below_update hinv.entered_over (by rw [hover]; exact Nat.le_refl _)
        evictors_passed := below_update hinv.evictors_passed (by rw [hpassed]; exact Nat.le_refl _)
        dropping_full := fun j c hj =>
          hinv.dropping_full j c (dropping_of_update rfl (by simp) hj) }
  | isOpen i c hcur =>
      obtain ⟨hin, -⟩ := State.current_inside hcur
      exact { hinv with
        calls_pos := calls_pos_update hinv.calls_pos fun p _ => hinv.calls_pos i _ hin
        entered_over := below_update hinv.entered_over (by simp [Sender.over, hin])
        evictors_passed := below_update hinv.evictors_passed (by simp [Sender.passed, hin])
        dropping_full := fun j c' hj =>
          hinv.dropping_full j c' (dropping_of_update rfl (by simp) hj) }
  | full i c hcur hfull =>
      obtain ⟨hin, hseq⟩ := State.current_inside hcur
      refine { hinv with
        calls_pos := calls_pos_update hinv.calls_pos fun p _ => hinv.calls_pos i _ hin
        entered_over := below_update hinv.entered_over (by simp [Sender.over, hin])
        evictors_passed := below_update hinv.evictors_passed (by simp [Sender.passed, hin])
        evictors_full := fun e he => List.mem_append_left _ (hinv.evictors_full e he)
        dropping_full := ?_ }
      intro j c' hj
      by_cases hji : j = i
      · -- the sender that has just found the queue full
        subst hji
        obtain ⟨hin', hseq'⟩ := State.current_inside hj
        have hreq : c.req = c'.req := by simpa [State.goto] using hin'
        have hnum : c'.seq = c.seq := by simpa [State.goto, hseq] using hseq'
        have hsnd : c'.sender = c.sender :=
          (State.current_sender hj).trans (State.current_sender hcur).symm
        have hcc : c' = c := by
          cases c
          cases c'
          simp_all
        exact List.mem_append_right _ (List.mem_singleton.mpr hcc)
      · apply List.mem_append_left
        apply hinv.dropping_full j c'
        have hsame : (s.goto i (some (.dropOldest, c.req))).senders j = s.senders j :=
          Function.update_of_ne hji _ _
        rw [State.current, ← hsame]
        exact hj
  | drained i c hcur hempty =>
      obtain ⟨hin, -⟩ := State.current_inside hcur
      exact { hinv with
        calls_pos := calls_pos_update hinv.calls_pos fun p _ => hinv.calls_pos i _ hin
        entered_over := below_update hinv.entered_over (by simp [Sender.over, hin])
        evictors_passed := below_update hinv.evictors_passed (by simp [Sender.passed, hin])
        dropping_full := fun j c' hj =>
          hinv.dropping_full j c' (dropping_of_update rfl (by simp) hj) }
  | evict i c old q hcur hq =>
      obtain ⟨hin, hseq⟩ := State.current_inside hcur
      have hpos := hinv.calls_pos i _ hin
      have hsnd := State.current_sender hcur
      have hbelow : ∀ a ∈ s.evictors, a.sender = c.sender → a.seq < c.seq := by
        intro a ha hac
        have hlt := hinv.evictors_passed a ha
        have hpassed : (s.senders i).passed = (s.senders i).calls - 1 := by rw [Sender.passed, hin]
        rw [hac, hsnd, hpassed] at hlt
        omega
      have hpassed : (s.senders i).passed ≤ (s.senders i).calls := by
        simp [Sender.passed, hin]
      refine { hinv with
        fifo := ?_
        calls_pos := calls_pos_update hinv.calls_pos fun p _ => hpos
        entered_over := below_update hinv.entered_over (by simp [Sender.over, hin])
        evictors_ordered := ?_
        evictors_passed := ?_
        evictors_full := ?_
        dropping_full := fun j c' hj =>
          hinv.dropping_full j c' (dropping_of_update rfl (by simp) hj) }
      · show s.entered = (s.left ++ [(old, Exit.evictedBy c)]).map Prod.fst ++ q.buf
        rw [hinv.fifo, hq]
        simp
      · rw [State.evictors, evictors_snoc]
        exact hinv.evictors_ordered.snoc hbelow
      · rw [State.evictors, evictors_snoc]
        intro e he
        rcases List.mem_append.mp he with he | he
        · exact below_update hinv.evictors_passed hpassed e he
        · obtain rfl := List.mem_singleton.mp he
          show e.seq < (Function.update s.senders i _ e.sender).passed
          rw [hsnd, Function.update_self]
          show e.seq < (s.senders i).calls
          omega
      · rw [State.evictors, evictors_snoc]
        intro e he
        rcases List.mem_append.mp he with he | he
        · exact hinv.evictors_full e he
        · obtain rfl := List.mem_singleton.mp he
          exact hinv.dropping_full i e hcur
  | push i pc c q ha hcur hlt hq =>
      obtain ⟨hin, hseq⟩ := State.current_inside hcur
      have hpos := hinv.calls_pos i _ hin
      have hsnd := State.current_sender hcur
      have hover : (s.senders i).over = (s.senders i).calls - 1 := by rw [Sender.over, hin]
      have hbelow : ∀ a ∈ s.entered, a.sender = c.sender → a.seq < c.seq := by
        intro a ha hac
        have hlt := hinv.entered_over a ha
        rw [hac, hsnd, hover] at hlt
        omega
      have hpassed : (s.senders i).passed ≤ (s.senders i).calls := by
        rw [Sender.passed, hin]
        cases pc <;> simp
      refine { hinv with
        fifo := ?_
        calls_pos := calls_pos_update hinv.calls_pos fun p hp => absurd hp (by simp)
        entered_ordered := hinv.entered_ordered.snoc hbelow
        entered_over := ?_
        evictors_passed := below_update hinv.evictors_passed hpassed
        dropping_full := fun j c' hj =>
          hinv.dropping_full j c' (dropping_of_update rfl (by simp) hj)
        returned_ok := ?_ }
      · show s.entered ++ [c] = s.left.map Prod.fst ++ q.buf
        rw [hinv.fifo, hq, List.append_assoc]
      · intro e he
        rcases List.mem_append.mp he with he | he
        · refine below_update hinv.entered_over ?_ e he
          rw [hover]
          exact Nat.sub_le _ _
        · obtain rfl := List.mem_singleton.mp he
          show e.seq < (Function.update s.senders i _ e.sender).over
          rw [hsnd, Function.update_self]
          show e.seq < (s.senders i).calls
          omega
      · intro d
        show (d, Except.ok ()) ∈ s.returned ++ [(c, .ok ())] ↔ d ∈ s.entered ++ [c]
        simp [hinv.returned_ok d]
  | closed i pc c ha hcur hdone =>
      obtain ⟨hin, -⟩ := State.current_inside hcur
      have hpassed : (s.senders i).passed ≤ (s.senders i).calls := by
        rw [Sender.passed, hin]
        cases pc <;> simp
      refine { hinv with
        calls_pos := calls_pos_update hinv.calls_pos fun p hp => absurd hp (by simp)
        entered_over := below_update hinv.entered_over (by simp [Sender.over, hin])
        evictors_passed := below_update hinv.evictors_passed hpassed
        dropping_full := fun j c' hj =>
          hinv.dropping_full j c' (dropping_of_update rfl (by simp) hj)
        returned_ok := ?_ }
      intro d
      show (d, Except.ok ()) ∈ s.returned ++ [(c, .error .errSessionClosed)] ↔ d ∈ s.entered
      simp [hinv.returned_ok d]
  | hand c q hq =>
      have hsame : State.evictors { s with
          writeQueue := q, pump := .writing c, left := s.left ++ [(c, .toConnWrite)] }
          = s.evictors := by
        rw [State.evictors, evictors_snoc]
        exact List.append_nil _
      refine { hinv with
        fifo := ?_
        evictors_ordered := ?_
        evictors_passed := ?_
        evictors_full := ?_ }
      · show s.entered = (s.left ++ [(c, Exit.toConnWrite)]).map Prod.fst ++ q.buf
        rw [hinv.fifo, hq]
        simp
      · rw [hsame]
        exact hinv.evictors_ordered
      · rw [hsame]
        exact hinv.evictors_passed
      · rw [hsame]
        exact hinv.evictors_full
  | other pump done hdone ha => exact { hinv with }

/-- The invariant holds after every schedule. -/
theorem inv_run {s : State ι cap} {as : List (Act ι)}
    (h : (machine ι cap).run (initial ι cap) as = some s) : Inv s := by
  refine Machine.run_invariant (I := Inv) ?_ h inv_initial
  intro t a t' hinv hstep
  exact (effect_of_step hstep).inv hinv

end FsBridge.Bridge.Session
