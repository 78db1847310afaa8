/-
  FsBridge.Lib.Machine

  Labelled transition systems with an executable step function, and the
  induction rules the protocol proofs use.

  A concurrent program is a `Machine`: one action per atomic step of one of
  its threads, `step s a = none` when the action is not enabled.  A schedule
  is a list of actions, so an interleaving is data that `run` can execute.

  * `run_invariant` — what every step preserves holds at the end of a run.
  * `Guarded G s as` — every action of the schedule meets `G` in the state it
    is taken in; `always_of_guarded` is the rule for such runs.
  * `Always P s as` — `P` holds in every state the schedule passes through;
    `EachStep Q s as` — `Q` holds of every step.
  * `observe f s as` — what an observer of the single steps notes down along the
    schedule; `run_induction` is the rule for what a state has to do with the
    schedule that led to it.
  * `run_project` — the part of a machine that is a machine itself.
  * `run_length_le` — runs end where a measure goes down; `exists_run_of_cycle` — they
    need not where steps lead back.
-/

import Mathlib.Data.List.Basic
import Mathlib.Data.List.Induction

namespace FsBridge.Lib

/-- A labelled transition system whose step function can be executed. -/
structure Machine (S A : Type*) where
  init : S
  step : S → A → Option S

namespace Machine

variable {S A : Type*} (M : Machine S A)

/-- The state after a schedule; `none` as soon as an action is not enabled. -/
def run : S → List A → Option S
  | s, [] => some s
  | s, a :: as => (M.step s a).bind fun s' => run s' as

/-- Every action of the schedule meets `G` in the state it is taken in. -/
def Guarded (G : S → A → Prop) : S → List A → Prop
  | _, [] => True
  | s, a :: as => G s a ∧ ∀ s', M.step s a = some s' → Guarded G s' as

/-- A guard that can be evaluated can be evaluated along a schedule. -/
instance decidableGuarded (G : S → A → Prop) [hG : ∀ s a, Decidable (G s a)] :
    ∀ s as, Decidable (M.Guarded G s as)
  | _, [] => .isTrue trivial
  | s, a :: as =>
      match hG s a, hstep : M.step s a with
      | .isFalse hno, _ => .isFalse fun h => hno h.1
      | .isTrue hyes, none => .isTrue ⟨hyes, fun _ h => nomatch hstep.symm.trans h⟩
      | .isTrue hyes, some s' =>
          match decidableGuarded G s' as with
          | .isFalse hno => .isFalse fun h => hno (h.2 s' hstep)
          | .isTrue hrest => .isTrue ⟨hyes, fun _ h =>
              Option.some.inj (hstep.symm.trans h) ▸ hrest⟩

/-- `P` holds in every state the schedule passes through, both ends included. -/
def Always (P : S → Prop) : S → List A → Prop
  | s, [] => P s
  | s, a :: as => P s ∧ ∀ s', M.step s a = some s' → Always P s' as

/-- `Q` relates the states before and after every step of the schedule. -/
def EachStep (Q : S → S → Prop) : S → List A → Prop
  | _, [] => True
  | s, a :: as => ∀ s', M.step s a = some s' → Q s s' ∧ EachStep Q s' as

/-- What an observer who notes `f s a` at each step has noted along a schedule. -/
def observe {B : Type*} (f : S → A → List B) : S → List A → List B
  | _, [] => []
  | s, a :: as =>
      match M.step s a with
      | none => []
      | some s' => f s a ++ observe f s' as

/-- Some schedule leads from the initial state to `s`. -/
def Reachable (s : S) : Prop := ∃ as, M.run M.init as = some s

/-- A step behind a guard: the guard holds, and this is the state it leads to. -/
theorem of_guard {c : Prop} [Decidable c] {s t : S} (h : (if c then some s else none) = some t) :
    c ∧ s = t := by
  split at h
  · exact ⟨‹c›, Option.some.inj h⟩
  · exact absurd h (by simp)

variable {M}

@[simp] theorem run_nil (s : S) : M.run s [] = some s := rfl

theorem run_cons (s : S) (a : A) (as : List A) :
    M.run s (a :: as) = (M.step s a).bind fun s' => M.run s' as := rfl

theorem run_cons_of_step {s s' : S} {a : A} (h : M.step s a = some s') (as : List A) :
    M.run s (a :: as) = M.run s' as := by
  rw [run_cons, h, Option.bind_some]

theorem run_cons_some {s t : S} {a : A} {as : List A} (h : M.run s (a :: as) = some t) :
    ∃ s', M.step s a = some s' ∧ M.run s' as = some t := by
  rw [run_cons] at h
  exact Option.bind_eq_some_iff.mp h

/-- The invariant rule: what holds at the start and is preserved by every
    step holds at the end of every run. -/
theorem run_invariant {I : S → Prop} (hstep : ∀ s a s', I s → M.step s a = some s' → I s')
    {s t : S} {as : List A} (h : M.run s as = some t) (h0 : I s) : I t := by
  induction as generalizing s with
  | nil => exact Option.some.inj h ▸ h0
  | cons a as ih =>
      obtain ⟨s', hs', hrest⟩ := run_cons_some h
      exact ih hrest (hstep s a s' h0 hs')

/-- The invariant rule for a schedule of actions of one kind. -/
theorem run_invariant_of_forall {I : S → Prop} {G : A → Prop}
    (hstep : ∀ s a s', I s → G a → M.step s a = some s' → I s') {s t : S} {as : List A}
    (hG : ∀ a ∈ as, G a) (h : M.run s as = some t) (h0 : I s) : I t := by
  induction as generalizing s with
  | nil => exact Option.some.inj h ▸ h0
  | cons a as ih =>
      obtain ⟨s', hs', hrest⟩ := run_cons_some h
      exact ih (fun b hb => hG b (List.mem_cons_of_mem a hb)) hrest
        (hstep s a s' h0 (hG a List.mem_cons_self) hs')

/-- An invariant of guarded runs holds in every state of a guarded run. -/
theorem always_of_guarded {G : S → A → Prop} {I : S → Prop}
    (hstep : ∀ s a s', I s → G s a → M.step s a = some s' → I s')
    {s : S} {as : List A} (hg : M.Guarded G s as) (h0 : I s) : M.Always I s as := by
  induction as generalizing s with
  | nil => exact h0
  | cons a as ih =>
      exact ⟨h0, fun s' hs' => ih (hg.2 s' hs') (hstep s a s' h0 hg.1 hs')⟩

theorem Guarded.mono {G G' : S → A → Prop} (hG : ∀ s a, G s a → G' s a) {s : S} {as : List A}
    (h : M.Guarded G s as) : M.Guarded G' s as := by
  induction as generalizing s with
  | nil => trivial
  | cons a as ih => exact ⟨hG s a h.1, fun s' hs' => ih (h.2 s' hs')⟩

theorem Guarded.and {G G' : S → A → Prop} {s : S} {as : List A} (h : M.Guarded G s as)
    (h' : M.Guarded G' s as) : M.Guarded (fun s a => G s a ∧ G' s a) s as := by
  induction as generalizing s with
  | nil => trivial
  | cons a as ih => exact ⟨⟨h.1, h'.1⟩, fun s' hs' => ih (h.2 s' hs') (h'.2 s' hs')⟩

/-- A guarded run, by its first step. -/
theorem Guarded.cons {G : S → A → Prop} {s s' : S} {a : A} {as : List A} (ha : G s a)
    (hstep : M.step s a = some s') (h : M.Guarded G s' as) : M.Guarded G s (a :: as) :=
  ⟨ha, fun _ hs' => Option.some.inj (hstep.symm.trans hs') ▸ h⟩

/-- What every step from an invariant of guarded runs does, every step of a guarded
    run does. -/
theorem eachStep_of_guarded {G : S → A → Prop} {I : S → Prop} {Q : S → S → Prop}
    (hstep : ∀ s a s', I s → G s a → M.step s a = some s' → I s' ∧ Q s s')
    {s : S} {as : List A} (hg : M.Guarded G s as) (h0 : I s) : M.EachStep Q s as := by
  induction as generalizing s with
  | nil => trivial
  | cons a as ih =>
      intro s' hs'
      obtain ⟨hI, hQ⟩ := hstep s a s' h0 hg.1 hs'
      exact ⟨hQ, ih (hg.2 s' hs') hI⟩

/-- Where a step that keeps `P` must have met `G`, a run that keeps `P` is guarded. -/
theorem guarded_of_always {G : S → A → Prop} {P I : S → Prop}
    (hinv : ∀ s a s', I s → G s a → M.step s a = some s' → I s')
    (hstep : ∀ s a s', I s → M.step s a = some s' → P s' → G s a)
    {s t : S} {as : List A} (h : M.run s as = some t) (h0 : I s) (ha : M.Always P s as) :
    M.Guarded G s as := by
  induction as generalizing s with
  | nil => trivial
  | cons a as ih =>
      obtain ⟨s', hs', hrest⟩ := run_cons_some h
      have hP : P s' := by
        have htail := ha.2 s' hs'
        cases as with
        | nil => exact htail
        | cons b bs => exact htail.1
      have hG : G s a := hstep s a s' h0 hs' hP
      refine ⟨hG, fun s'' hs'' => ?_⟩
      obtain rfl : s' = s'' := Option.some.inj (hs'.symm.trans hs'')
      exact ih hrest (hinv s a s' h0 hG hs') (ha.2 s' hs')

theorem Always.last {P : S → Prop} {s t : S} {as : List A} (h : M.Always P s as)
    (hrun : M.run s as = some t) : P t := by
  induction as generalizing s with
  | nil => exact Option.some.inj hrun ▸ h
  | cons a as ih =>
      obtain ⟨s', hs', hrest⟩ := run_cons_some hrun
      exact ih (h.2 s' hs') hrest

theorem Always.mono {P Q : S → Prop} (hPQ : ∀ s, P s → Q s) {s : S} {as : List A}
    (h : M.Always P s as) : M.Always Q s as := by
  induction as generalizing s with
  | nil => exact hPQ s h
  | cons a as ih => exact ⟨hPQ s h.1, fun s' hs' => ih (h.2 s' hs')⟩

theorem Always.guarded {P : S → Prop} {G : S → A → Prop} (hG : ∀ s a, P s → G s a) {s : S}
    {as : List A} (h : M.Always P s as) : M.Guarded G s as := by
  induction as generalizing s with
  | nil => trivial
  | cons a as ih => exact ⟨hG s a h.1, fun s' hs' => ih (h.2 s' hs')⟩

theorem run_append {s t : S} {as : List A} (h : M.run s as = some t) (bs : List A) :
    M.run s (as ++ bs) = M.run t bs := by
  induction as generalizing s with
  | nil =>
      cases h
      rfl
  | cons a as ih =>
      obtain ⟨s', hs', hrest⟩ := run_cons_some h
      rw [List.cons_append, run_cons, hs', Option.bind_some]
      exact ih hrest

theorem run_get {as bs : List A} (h : (M.run M.init as).isSome)
    (h' : (M.run M.init (as ++ bs)).isSome) :
    M.run ((M.run M.init as).get h) bs = some ((M.run M.init (as ++ bs)).get h') :=
  (run_append (Option.some_get h).symm bs).symm.trans (Option.some_get h').symm

theorem run_snoc {s t : S} {as : List A} (h : M.run s as = some t) (a : A) :
    M.run s (as ++ [a]) = M.step t a := by
  rw [run_append h, run_cons]
  exact Option.bind_fun_some _

theorem run_snoc_some {s t' : S} {as : List A} {a : A} (h : M.run s (as ++ [a]) = some t') :
    ∃ t, M.run s as = some t ∧ M.step t a = some t' := by
  induction as generalizing s with
  | nil =>
      obtain ⟨s', hs', hrest⟩ := run_cons_some h
      cases hrest
      exact ⟨s, rfl, hs'⟩
  | cons b as ih =>
      obtain ⟨s', hs', hrest⟩ := run_cons_some h
      obtain ⟨t, ht, hlast⟩ := ih hrest
      exact ⟨t, by rw [run_cons, hs', Option.bind_some, ht], hlast⟩

/-- The rule for a relation between a state and the schedule that led to it: it
    holds at the start, and each further step keeps it. -/
theorem run_induction {J : List A → S → Prop} {s₀ : S} (h0 : J [] s₀)
    (hstep : ∀ as a s s', M.run s₀ as = some s → J as s → M.step s a = some s' →
      J (as ++ [a]) s') {as : List A} {s : S} (h : M.run s₀ as = some s) : J as s := by
  induction as using List.reverseRecOn generalizing s with
  | nil =>
      cases h
      exact h0
  | append_singleton as a ih =>
      obtain ⟨t, ht, hlast⟩ := run_snoc_some h
      exact hstep as a t s ht (ih ht) hlast

theorem guarded_snoc {G : S → A → Prop} {s t : S} {as : List A} {a : A}
    (hg : M.Guarded G s (as ++ [a])) (h : M.run s as = some t) : M.Guarded G s as ∧ G t a := by
  induction as generalizing s with
  | nil =>
      cases h
      exact ⟨trivial, hg.1⟩
  | cons b as ih =>
      obtain ⟨s', hs', hrest⟩ := run_cons_some h
      refine ⟨⟨hg.1, fun s'' hs'' => ?_⟩, (ih (hg.2 s' hs') hrest).2⟩
      obtain rfl : s' = s'' := Option.some.inj (hs'.symm.trans hs'')
      exact (ih (hg.2 s' hs') hrest).1

/-- The same rule for a guarded run. -/
theorem guarded_induction {G : S → A → Prop} {J : List A → S → Prop} {s₀ : S} (h0 : J [] s₀)
    (hstep : ∀ as a s s', M.run s₀ as = some s → J as s → G s a → M.step s a = some s' →
      J (as ++ [a]) s') {as : List A} {s : S} (hg : M.Guarded G s₀ as)
    (h : M.run s₀ as = some s) : J as s := by
  induction as using List.reverseRecOn generalizing s with
  | nil =>
      cases h
      exact h0
  | append_singleton as a ih =>
      obtain ⟨t, ht, hlast⟩ := run_snoc_some h
      obtain ⟨hfront, ha⟩ := guarded_snoc hg ht
      exact hstep as a t s ht (ih hfront ht) ha hlast

theorem observe_snoc {B : Type*} {f : S → A → List B} {s t t' : S} {as : List A} {a : A}
    (h : M.run s as = some t) (hstep : M.step t a = some t') :
    M.observe f s (as ++ [a]) = M.observe f s as ++ f t a := by
  induction as generalizing s with
  | nil =>
      cases h
      simp [observe, hstep]
  | cons b as ih =>
      obtain ⟨s', hs', hrest⟩ := run_cons_some h
      simp only [List.cons_append, observe, hs', List.append_assoc]
      rw [ih hrest]

/-- The rule for termination: where every step from an invariant makes a measure
    smaller, no run from it has more steps than the measure. -/
theorem run_length_le {I : S → Prop} {m : S → Nat}
    (hstep : ∀ s a s', I s → M.step s a = some s' → I s' ∧ m s' < m s) {s t : S} {as : List A}
    (h : M.run s as = some t) (h0 : I s) : as.length + m t ≤ m s := by
  induction as generalizing s with
  | nil =>
      cases h
      exact Nat.le_of_eq (Nat.zero_add _)
  | cons a as ih =>
      obtain ⟨s', hs', hrest⟩ := run_cons_some h
      obtain ⟨hI, hlt⟩ := hstep s a s' h0 hs'
      have hle := ih hrest hI
      rw [List.length_cons]
      omega

/-- The rule for runs without an end: where some steps lead from `P` to `P` again, there
    are runs from it with as many steps as one likes. -/
theorem exists_run_of_cycle {P : S → Prop}
    (hcycle : ∀ s, P s → ∃ as s', as ≠ [] ∧ M.run s as = some s' ∧ P s') {s : S} (h0 : P s)
    (n : Nat) : ∃ as s', M.run s as = some s' ∧ n ≤ as.length := by
  induction n generalizing s with
  | zero => exact ⟨[], s, rfl, Nat.zero_le _⟩
  | succ n ih =>
      obtain ⟨as, s', hne, hrun, hP⟩ := hcycle s h0
      obtain ⟨bs, t, hrest, hle⟩ := ih hP
      have hpos := List.length_pos_of_ne_nil hne
      refine ⟨as ++ bs, t, (run_append hrun bs).trans hrest, ?_⟩
      rw [List.length_append]
      omega

/-- A part of a machine that is a machine itself: what its actions are taken to runs on
    its own. -/
theorem run_project {T B : Type*} {N : Machine T B} {f : S → T} {g : A → Option B}
    (hstep : ∀ s a s', M.step s a = some s' → N.run (f s) (g a).toList = some (f s'))
    {s t : S} {as : List A} (h : M.run s as = some t) :
    N.run (f s) (as.filterMap g) = some (f t) := by
  induction as generalizing s with
  | nil =>
      cases h
      rfl
  | cons a as ih =>
      obtain ⟨s', hs', hrest⟩ := run_cons_some h
      have hhead := hstep s a s' hs'
      cases hg : g a with
      | none =>
          rw [hg] at hhead
          rw [List.filterMap_cons_none hg, Option.some.inj hhead]
          exact ih hrest
      | some b =>
          rw [hg] at hhead
          rw [List.filterMap_cons_some hg]
          exact (run_append hhead _).trans (ih hrest)

theorem reachable_get {as : List A} (h : (M.run M.init as).isSome) :
    M.Reachable ((M.run M.init as).get h) := ⟨as, (Option.some_get h).symm⟩

theorem Reachable.step {s s' : S} {a : A} (h : M.Reachable s) (hstep : M.step s a = some s') :
    M.Reachable s' := by
  obtain ⟨as, has⟩ := h
  exact ⟨as ++ [a], (run_snoc has a).trans hstep⟩

theorem Reachable.invariant {I : S → Prop} (h0 : I M.init)
    (hstep : ∀ s a s', I s → M.step s a = some s' → I s') {s : S} (h : M.Reachable s) : I s := by
  obtain ⟨as, has⟩ := h
  exact run_invariant hstep has h0

end Machine

end FsBridge.Lib
