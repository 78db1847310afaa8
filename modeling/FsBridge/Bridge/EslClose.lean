/-
  FsBridge.Bridge.EslClose

  `Close` against `Run` (bridge/esl.go).  `Run` never looks at `done`, so what
  keeps it from a new connection after a `Close` is its context alone; and two
  calls of `Close` may both find `done` open.

  `CloseGuard` says when neither happens; under it `CloseInv` holds in every state,
  and no step after the return of a `Close` installs a connection or sets `ready`.
-/

import FsBridge.Bridge.EslHandshake

namespace FsBridge.Bridge.EslClient

open FsBridge.Lib

-- ============================================================================
-- What a closed client does
-- ============================================================================

/-- A call of `Close` has returned. -/
def State.closeReturned (s : State) : Prop := ∃ j, s.closers j = .returned

def NoPanic (s : State) : Prop := ∀ j, s.closers j ≠ .panicked

/-- After the return of a `Close`, `ready` does not become true and no other
    connection is installed. -/
def StaysClosed (s s' : State) : Prop :=
  s.closeReturned →
    (s'.ready = true → s.ready = true) ∧ ∀ c, s'.conn = some c → s.conn = some c

/-- From here `Run` gets to a connection, or to `ready`, without writing anything. -/
def RunPc.connecting (cfg : Config) : RunPc → Bool
  | .dialing | .installing | .readSubscribeReply | .settingReady => true
  | .readAuthReply => cfg.events = []
  | _ => false

/-- A call of `Close` finds `done` open only when no other one that has found it open
    has still to close it; when one is about to return, `Run` is not about to get to a
    connection; and once one has returned, the context of `Run` is cancelled by the time
    `Run` is back at the head of its loop. -/
def CloseGuard (cfg : Config) (s : State) : Act → Prop
  | .closeCheck _ => s.done = false → ∀ k, s.closers k ≠ .closeDone
  | .closeWire _ => s.run.connecting cfg = false
  | .checkCtx => s.run = .looping → s.closeReturned → s.ctxDone = true
  | _ => True

-- ============================================================================
-- The calls of `Close`
-- ============================================================================

theorem update_closers {s : State} {pc x : ClosePc} {i j : Nat}
    (h : Function.update s.closers i pc j = x) : s.closers j = x ∨ pc = x := by
  by_cases hj : j = i
  · subst hj
    rw [Function.update_self] at h
    exact .inr h
  · rw [Function.update_of_ne hj] at h
    exact .inl h

/-- Only the calls of `Close` look at `done` and close it. -/
theorem closers_of_step {cfg : Config} {s s' : State} {a : Act} (h : step cfg s a = some s') :
    (∃ i, a = .closeCall i ∨ a = .closeCheck i ∨ a = .closeDone i ∨ a = .closeWire i) ∨
      s'.closers = s.closers ∧ s'.done = s.done := by
  cases a with
  | closeCall i => exact .inl ⟨i, .inl rfl⟩
  | closeCheck i => exact .inl ⟨i, .inr (.inl rfl)⟩
  | closeDone i => exact .inl ⟨i, .inr (.inr (.inl rfl))⟩
  | closeWire i => exact .inl ⟨i, .inr (.inr (.inr rfl))⟩
  | _ =>
      right
      simp only [step] at h
      (repeat' split at h) <;>
        first
          | (cases h; exact ⟨rfl, rfl⟩)
          | (cases h; exact ⟨deliverCommand_closers .., deliverCommand_done ..⟩)
          | exact absurd h (by simp)

/-- A call of `Close` returns in its critical section, and panics when it closes
    `done` for the second time. -/
theorem closer_of_step {cfg : Config} {s s' : State} {a : Act} (h : step cfg s a = some s')
    (j : Nat) :
    (s'.closers j = .returned → s.closers j = .returned ∨ ∃ i, a = .closeWire i) ∧
      (s'.closers j = .panicked → s.closers j = .panicked ∨
        ∃ i, a = .closeDone i ∧ s.closers i = .closeDone ∧ s.done = true) := by
  rcases closers_of_step h with ⟨i, rfl | rfl | rfl | rfl⟩ | ⟨hclosers, -⟩
  · simp only [step, Option.ite_none_right_eq_some, Option.some.injEq] at h
    obtain ⟨-, rfl⟩ := h
    exact ⟨fun hj => .inl ((update_closers hj).resolve_right (by simp)),
      fun hj => .inl ((update_closers hj).resolve_right (by simp))⟩
  · simp only [step, Option.ite_none_right_eq_some, Option.some.injEq] at h
    obtain ⟨-, rfl⟩ := h
    refine ⟨fun hj => .inl ((update_closers hj).resolve_right ?_),
      fun hj => .inl ((update_closers hj).resolve_right ?_)⟩
    · split <;> simp
    · split <;> simp
  · simp only [step, Option.ite_none_right_eq_some] at h
    obtain ⟨hpc, h⟩ := h
    split at h
    · rename_i hdone
      cases h
      exact ⟨fun hj => .inl ((update_closers hj).resolve_right (by simp)),
        fun _ => .inr ⟨i, rfl, hpc, hdone⟩⟩
    · cases h
      exact ⟨fun hj => .inl ((update_closers hj).resolve_right (by simp)),
        fun hj => .inl ((update_closers hj).resolve_right (by simp))⟩
  · refine ⟨fun _ => .inr ⟨i, rfl⟩, fun hj => .inl ?_⟩
    simp only [step, Option.ite_none_right_eq_some] at h
    obtain ⟨-, h⟩ := h
    split at h <;> cases h <;> exact (update_closers hj).resolve_right (by simp)
  · rw [hclosers]
    exact ⟨.inl, .inl⟩

-- ============================================================================
-- The invariant
-- ============================================================================

/-- Where `connectAndServe` is between `c.conn = conn` and `ready`. -/
def RunPc.installed : RunPc → Bool
  | .installing => false
  | pc => pc.handshaking

/-- A call that has found `done` open and has still to close it is the only one, and
    `done` is open. -/
def OneCloser (s : State) : Prop :=
  ∀ j, s.closers j = .closeDone → s.done = false ∧ ∀ k, s.closers k = .closeDone → k = j

structure CloseInv (cfg : Config) (s : State) : Prop where
  installed : s.run.installed = true → s.conn = some s.dialled
  closer : OneCloser s
  not_panicked : NoPanic s
  /-- After a `Close` the handshake cannot come to its end, for want of a write. -/
  stopped : s.closeReturned → s.run.connecting cfg = false ∧
    (s.run.handshaking = true → (s.wires s.dialled).closed = true)

theorem closeInv_initial (cfg : Config) : CloseInv cfg initial where
  installed := fun h => absurd h Bool.false_ne_true
  closer := fun _ h => nomatch h
  not_panicked := fun _ h => nomatch h
  stopped := fun ⟨_, h⟩ => nomatch h

theorem RunPc.installed_of_reading {pc : RunPc} (h : pc.reading = true) (hne : pc ≠ .serving) :
    pc.installed = true := by
  cases pc <;> first | rfl | exact absurd h Bool.false_ne_true | exact absurd rfl hne

/-- A handshake that has been installed goes on with the same connection. -/
theorem installed_of_step {cfg : Config} {s s' : State} {a : Act}
    (h : step cfg s a = some s') (hinst : s.run.installed = true → s.conn = some s.dialled)
    (hpc : s'.run.installed = true) : s'.conn = some s'.dialled := by
  cases runMove_of_step h with
  | other hrun hconn hready hdialled =>
      rw [hconn, hdialled]
      exact hinst (hrun ▸ hpc)
  | go harc hconn hready hdialled =>
      rw [hconn, hdialled]
      apply hinst
      generalize s'.run = pc at harc hpc
      cases harc with
      | read m hrun hnow =>
          by_cases hserving : s.run = .serving
          · rw [hserving] at hpc
            simp only [afterRead] at hpc
            split at hpc
            · exact absurd hpc Bool.false_ne_true
            · split at hpc <;> exact absurd hpc Bool.false_ne_true
          · exact RunPc.installed_of_reading hrun hserving
      | auth hrun => rw [hrun]; rfl
      | subscribe hrun => rw [hrun]; rfl
      | _ => exact absurd hpc Bool.false_ne_true
  | install hfrom hrun hconn hready hdialled => rw [hconn, hdialled]
  | dial hfrom hrun =>
      rw [hrun] at hpc
      exact absurd hpc Bool.false_ne_true
  | setReady hfrom hrun =>
      rw [hrun] at hpc
      exact absurd hpc Bool.false_ne_true
  | clearReady hfrom hrun =>
      rw [hrun] at hpc
      exact absurd hpc Bool.false_ne_true
  | uninstall hfrom hrun =>
      rw [hrun] at hpc
      exact absurd hpc Bool.false_ne_true
  | close hfrom hrun =>
      rw [hrun] at hpc
      exact absurd hpc Bool.false_ne_true

/-- Where a read leads to when `Run` is not about to get to a connection. -/
theorem RunPc.afterRead_stopped {cfg : Config} {pc : RunPc} (m : Sent)
    (hpc : pc.reading = true) (hstop : pc.connecting cfg = false) :
    (afterRead cfg m pc).connecting cfg = false ∧
      ((afterRead cfg m pc).handshaking = true → pc.handshaking = true) := by
  cases pc with
  | readGreeting =>
      simp only [afterRead]
      split <;> exact ⟨rfl, fun _ => rfl⟩
  | readAuthReply =>
      have hevents : cfg.events ≠ [] := of_decide_eq_false hstop
      simp only [afterRead]
      rw [if_neg hevents]
      split <;> exact ⟨rfl, fun _ => rfl⟩
  | readSubscribeReply => exact absurd hstop.symm Bool.false_ne_true
  | serving =>
      simp only [afterRead]
      split
      · exact ⟨rfl, fun h => absurd h Bool.false_ne_true⟩
      · split <;> exact ⟨rfl, fun h => absurd h Bool.false_ne_true⟩
  | _ => exact absurd hpc Bool.false_ne_true

/-- After a `Close`, `Run` goes on without getting to a connection. -/
theorem stopped_of_step {cfg : Config} {s s' : State} {a : Act} (h : step cfg s a = some s')
    (hguard : CloseGuard cfg s a) (hret : s.closeReturned)
    (hstop : s.run.connecting cfg = false)
    (hclosed : s.run.handshaking = true → (s.wires s.dialled).closed = true) :
    s'.run.connecting cfg = false ∧ s'.dialled = s.dialled ∧
      (s'.run.handshaking = true → s.run.handshaking = true) ∧
      (s'.ready = true → s.ready = true) ∧ (∀ c, s'.conn = some c → s.conn = some c) := by
  cases runMove_of_step h with
  | other hrun hconn hready hdialled =>
      rw [hrun, hconn, hready]
      exact ⟨hstop, hdialled, id, id, fun _ => id⟩
  | go harc hconn hready hdialled =>
      have hrest : s'.run.connecting cfg = false ∧
          (s'.run.handshaking = true → s.run.handshaking = true) := by
        generalize s'.run = pc at harc
        cases harc with
        | dial hact hrun hctx =>
            subst hact
            exact absurd (hctx.symm.trans (hguard hrun hret)) (by decide)
        | read m hrun hnow => exact RunPc.afterRead_stopped m hrun hstop
        | auth hrun hopen =>
            exact absurd (hopen.symm.trans (hclosed (by rw [hrun]; rfl))) (by decide)
        | subscribe hrun hopen =>
            exact absurd (hopen.symm.trans (hclosed (by rw [hrun]; rfl))) (by decide)
        | _ => exact ⟨rfl, fun h => absurd h Bool.false_ne_true⟩
      rw [hconn, hready]
      exact ⟨hrest.1, hdialled, hrest.2, id, fun _ => id⟩
  | dial hfrom =>
      rw [hfrom] at hstop
      exact absurd hstop.symm Bool.false_ne_true
  | install hfrom =>
      rw [hfrom] at hstop
      exact absurd hstop.symm Bool.false_ne_true
  | setReady hfrom =>
      rw [hfrom] at hstop
      exact absurd hstop.symm Bool.false_ne_true
  | clearReady hfrom hrun hconn hready hdialled =>
      rw [hrun, hconn, hready]
      exact ⟨rfl, hdialled, fun h => absurd h Bool.false_ne_true,
        fun h => absurd h Bool.false_ne_true, fun _ => id⟩
  | uninstall hfrom hrun hconn hready hdialled =>
      rw [hrun, hready]
      refine ⟨rfl, hdialled, fun h => absurd h Bool.false_ne_true, id, fun c hc => ?_⟩
      rcases hconn with hconn | hconn <;> rw [hconn] at hc
      · exact hc
      · exact absurd hc (by simp)
  | close hfrom hrun hconn hready hdialled hwire =>
      rw [hrun, hconn, hready]
      exact ⟨rfl, hdialled, fun h => absurd h Bool.false_ne_true, id, fun _ => id⟩

/-- The critical section of `Close` closes the connection of an installed handshake. -/
theorem closeWire_step {cfg : Config} {s s' : State} {i : Nat}
    (h : step cfg s (.closeWire i) = some s') :
    s'.run = s.run ∧ s'.dialled = s.dialled ∧
      ∀ c, s.conn = some c → (s'.wires c).closed = true := by
  simp only [step, Option.ite_none_right_eq_some] at h
  obtain ⟨-, h⟩ := h
  split at h
  · rename_i c hconn
    cases h
    refine ⟨rfl, rfl, fun d hd => ?_⟩
    obtain rfl : c = d := Option.some.inj (hconn.symm.trans hd)
    show (Function.update s.wires c _ c).closed = true
    rw [Function.update_self]
  · rename_i hconn
    cases h
    exact ⟨rfl, rfl, fun d hd => absurd (hconn.symm.trans hd) (by simp)⟩

theorem OneCloser.step {cfg : Config} {s s' : State} {a : Act} (h : OneCloser s)
    (hguard : CloseGuard cfg s a) (hs : EslClient.step cfg s a = some s') : OneCloser s' := by
  rcases closers_of_step hs with ⟨i, rfl | rfl | rfl | rfl⟩ | ⟨hclosers, hdone⟩
  · simp only [EslClient.step, Option.ite_none_right_eq_some, Option.some.injEq] at hs
    obtain ⟨-, rfl⟩ := hs
    intro j hj
    obtain ⟨hopen, honly⟩ := h j ((update_closers hj).resolve_right (by simp))
    exact ⟨hopen, fun k hk => honly k ((update_closers hk).resolve_right (by simp))⟩
  · simp only [EslClient.step, Option.ite_none_right_eq_some, Option.some.injEq] at hs
    obtain ⟨-, rfl⟩ := hs
    by_cases hopen : s.done = true
    · -- `done` is closed, and the call has nothing to close
      rw [if_pos hopen]
      intro j hj
      have hj' := h j ((update_closers hj).resolve_right (by simp))
      exact absurd (hj'.1.symm.trans hopen) (by decide)
    · have hopen := Bool.eq_false_iff.mpr hopen
      have hnone := hguard hopen
      rw [if_neg (by simp [hopen])]
      have honly : ∀ j, (s.setCloser i .closeDone).closers j = .closeDone → j = i := by
        intro j hj
        by_contra hne
        have hj : Function.update s.closers i .closeDone j = .closeDone := hj
        rw [Function.update_of_ne hne] at hj
        exact hnone j hj
      intro j hj
      exact ⟨hopen, fun k hk => (honly k hk).trans (honly j hj).symm⟩
  · simp only [EslClient.step, Option.ite_none_right_eq_some] at hs
    obtain ⟨hpc, hs⟩ := hs
    obtain ⟨hopen, honly⟩ := h i hpc
    rw [if_neg (by simp [hopen])] at hs
    cases hs
    -- it was the only one
    intro j hj
    have hj : Function.update s.closers i .closeConn j = .closeDone := hj
    by_cases hne : j = i
    · rw [hne, Function.update_self] at hj
      cases hj
    · rw [Function.update_of_ne hne] at hj
      exact absurd (honly j hj) hne
  · simp only [EslClient.step, Option.ite_none_right_eq_some] at hs
    obtain ⟨-, hs⟩ := hs
    intro j hj
    split at hs <;> cases hs <;>
      exact ⟨(h j ((update_closers hj).resolve_right (by simp))).1, fun k hk =>
        (h j ((update_closers hj).resolve_right (by simp))).2 k
          ((update_closers hk).resolve_right (by simp))⟩
  · intro j hj
    rw [hclosers] at hj
    rw [hdone, hclosers]
    exact h j hj

theorem CloseInv.step {cfg : Config} {s s' : State} {a : Act} (h : CloseInv cfg s)
    (hguard : CloseGuard cfg s a) (hs : EslClient.step cfg s a = some s') :
    CloseInv cfg s' ∧ StaysClosed s s' := by
  have hstay : s.closeReturned → _ := fun hret =>
    stopped_of_step hs hguard hret (h.stopped hret).1 (h.stopped hret).2
  refine ⟨⟨installed_of_step hs h.installed, h.closer.step hguard hs, fun j hj => ?_,
    fun hret => ?_⟩,
    fun hret => (hstay hret).2.2.2⟩
  · rcases (closer_of_step hs j).2 hj with hold | ⟨i, -, hpc, hdone⟩
    · exact h.not_panicked j hold
    · exact absurd ((h.closer i hpc).1.symm.trans hdone) (by decide)
  · obtain ⟨j, hj⟩ := hret
    rcases (closer_of_step hs j).1 hj with hold | ⟨i, rfl⟩
    · obtain ⟨hconnecting, hdialled, hshake, -, -⟩ := hstay ⟨j, hold⟩
      refine ⟨hconnecting, fun hpc => ?_⟩
      rw [hdialled]
      exact closed_of_step hs (Nat.le_refl _) ((h.stopped ⟨j, hold⟩).2 (hshake hpc))
    · obtain ⟨hrun, hdialled, hclosed⟩ := closeWire_step hs
      have hstop : s.run.connecting cfg = false := hguard
      rw [hrun, hdialled]
      refine ⟨hstop, fun hpc => hclosed _ (h.installed ?_)⟩
      cases hfrom : s.run with
      | installing =>
          rw [hfrom] at hstop
          exact absurd hstop.symm Bool.false_ne_true
      | _ =>
          rw [hfrom] at hpc
          exact hpc

-- ============================================================================
-- Runs
-- ============================================================================

/-- `Close` stops the client in every run whose steps meet the guard: no call
    panics, and after one has returned no step sets `ready` or installs another
    connection. -/
theorem close_stops (cfg : Config) {schedule : List Act}
    (hguard : (machine cfg).Guarded (CloseGuard cfg) initial schedule) :
    (machine cfg).Always NoPanic initial schedule ∧
      (machine cfg).EachStep StaysClosed initial schedule := by
  have hstep : ∀ s a s', CloseInv cfg s → CloseGuard cfg s a →
      (machine cfg).step s a = some s' → CloseInv cfg s' ∧ StaysClosed s s' :=
    fun s a s' hinv hg hs => hinv.step hg hs
  refine ⟨?_, Machine.eachStep_of_guarded hstep hguard (closeInv_initial cfg)⟩
  have halways := Machine.always_of_guarded
    (fun s a s' hinv hg hs => (hstep s a s' hinv hg hs).1) hguard (closeInv_initial cfg)
  exact halways.mono fun s hinv => hinv.not_panicked

/-- A client that serves loses its context, and two calls of `Close` come: the second
    finds `done` closed, and `Run` ends. -/
def closedServing : List Act :=
  connect ++ [.cancelRun, .closeCall 0, .closeCall 1, .closeCheck 0, .closeDone 0,
    .closeCheck 1, .closeWire 1, .closeWire 0, .readFailed, .clearReady, .uninstall,
    .closeConn, .checkCtx]

theorem close_stops_cancelled :
    (machine plain).Always NoPanic initial closedServing ∧
      (machine plain).EachStep StaysClosed initial closedServing := by
  have hopen : ∀ s : State, s.closers = initial.closers → ¬ s.closeReturned := by
    rintro s h ⟨j, hj⟩
    rw [h] at hj
    cases hj
  refine close_stops plain ?_
  -- up to `ready` no call has returned
  refine .cons (fun _ h => absurd h (hopen _ rfl)) rfl <| .cons trivial rfl <|
    .cons trivial rfl <| .cons trivial rfl <| .cons trivial rfl <| .cons trivial rfl <|
    .cons trivial rfl <| .cons trivial rfl ?_
  -- the two calls
  refine .cons trivial rfl <| .cons trivial rfl <| .cons trivial rfl <|
    .cons (fun _ k => ?_) rfl <| .cons trivial rfl <| .cons (fun h => nomatch h) rfl <|
    .cons rfl rfl <| .cons rfl rfl ?_
  · intro h
    rcases update_closers h with h | h
    · rcases update_closers h with h | h <;> cases h
    · cases h
  -- the end of `Run`
  exact .cons trivial rfl <| .cons trivial rfl <| .cons trivial rfl <| .cons trivial rfl <|
    .cons (fun _ _ => rfl) rfl trivial

/-- A call of `Close` and all the steps it takes when it is alone. -/
def closeAll (j : Nat) : List Act := [.closeCall j, .closeCheck j, .closeDone j, .closeWire j]

/-- The client drops its connection and waits before the next one. -/
def drop : List Act :=
  [.readFailed, .clearReady, .uninstall, .closeConn, .checkCtx, .backoffDone, .checkCtx]

/-- A client that has been closed connects again, and becomes ready again; and of
    two calls of `Close` that have both found `done` open the second panics. -/
theorem close_reconnects :
    (∃ s s' t t', (machine plain).run initial
        (connect ++ closeAll 0 ++ drop ++ [.dialOk authRequest]) = some s ∧
      (machine plain).step s .install = some s' ∧ ¬ StaysClosed s s' ∧ s'.conn = some 2 ∧
      (machine plain).run s'
        [.read, .writeCmd true, .answer 2 okReply, .read] = some t ∧
      (machine plain).step t .setReady = some t' ∧ ¬ StaysClosed t t' ∧ t'.ready = true) ∧
    ∃ s, (machine plain).run initial
        [.closeCall 0, .closeCall 1, .closeCheck 0, .closeCheck 1, .closeDone 0, .closeDone 1]
        = some s ∧ ¬ NoPanic s := by
  constructor
  · refine ⟨_, _, _, _, rfl, rfl, fun h => ?_, rfl, rfl, rfl, fun h => ?_, rfl⟩
    · exact absurd ((h ⟨0, rfl⟩).2 2 rfl) (by decide)
    · exact absurd ((h ⟨0, rfl⟩).1 rfl) (by decide)
  · exact ⟨_, rfl, fun h => h 1 rfl⟩

end FsBridge.Bridge.EslClient
