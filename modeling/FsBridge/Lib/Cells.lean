/-
  FsBridge.Lib.Cells

  Programs over a store of cells, where one operation works on one cell.

  * `Prog` — a program as the tree of its operations, so that it can be run in
    one go (`Prog.run`) or one operation at a time (`Prog.next`).
  * `Uses` — the cells a program works on.  A program leaves all others alone
    (`Uses.frame`), and what it does depends on these only (`Uses.agree`): what
    programs with no cell in common do to each other.
-/

import Mathlib.Logic.Function.Basic

namespace FsBridge.Lib

/-- Operations `O` with results `R` on cells `S` under the keys `P`. -/
structure Cells (P S O R : Type) where
  key : O → P
  act : O → S → R × S

/-- A program of such operations. -/
inductive Prog (O R A : Type) where
  | ret (a : A)
  | call (o : O) (k : R → Prog O R A)

namespace Prog

variable {P S O R A B : Type}

def bind : Prog O R A → (A → Prog O R B) → Prog O R B
  | ret a, f => f a
  | call o k, f => call o fun r => (k r).bind f

instance : Monad (Prog O R) where
  pure := ret
  bind := bind

@[simp] theorem pure_eq (a : A) : (pure a : Prog O R A) = ret a := rfl

@[simp] theorem ret_bind (a : A) (f : A → Prog O R B) : ret a >>= f = f a := rfl

@[simp] theorem call_bind (o : O) (k : R → Prog O R A) (f : A → Prog O R B) :
    call o k >>= f = call o fun r => k r >>= f := rfl

/-- Whatever its operations answer, the program returns a value of this kind. -/
def Returns (Q : A → Prop) : Prog O R A → Prop
  | .ret a => Q a
  | .call _ k => ∀ r, Returns Q (k r)

theorem Returns.bind {Q : A → Prop} {Q' : B → Prop} {p : Prog O R A} {f : A → Prog O R B}
    (hp : p.Returns Q) (hf : ∀ a, Q a → (f a).Returns Q') : (p >>= f).Returns Q' := by
  induction p with
  | ret a => exact hf a hp
  | call o k ih => exact fun r => ih r (hp r)

theorem returns_bind {Q : B → Prop} (p : Prog O R A) {f : A → Prog O R B}
    (hf : ∀ a, (f a).Returns Q) : (p >>= f).Returns Q := by
  induction p with
  | ret a => exact hf a
  | call o k ih => exact fun r => ih r

theorem Returns.mono {Q Q' : A → Prop} {p : Prog O R A} (hp : p.Returns Q)
    (h : ∀ a, Q a → Q' a) : p.Returns Q' := by
  induction p with
  | ret a => exact h a hp
  | call o k ih => exact fun r => ih r (hp r)

end Prog

namespace Cells

variable {P S O R A B : Type} [DecidableEq P] (C : Cells P S O R)

/-- One operation on the store. -/
def exec (o : O) (st : P → S) : R × (P → S) :=
  let r := C.act o (st (C.key o))
  (r.1, Function.update st (C.key o) r.2)

/-- The program in one go. -/
def run : Prog O R A → (P → S) → A × (P → S)
  | .ret a, st => (a, st)
  | .call o k, st => run (k (C.exec o st).1) (C.exec o st).2

/-- The program after its next operation. -/
def next : Prog O R A → (P → S) → Prog O R A × (P → S)
  | .ret a, st => (.ret a, st)
  | .call o k, st => (k (C.exec o st).1, (C.exec o st).2)

@[simp] theorem run_ret (a : A) (st : P → S) : C.run (.ret a : Prog O R A) st = (a, st) := rfl

theorem run_call (o : O) (k : R → Prog O R A) (st : P → S) :
    C.run (.call o k) st = C.run (k (C.exec o st).1) (C.exec o st).2 := rfl

/-- A program after another. -/
theorem run_bind (p : Prog O R A) (f : A → Prog O R B) (st : P → S) :
    C.run (p >>= f) st = C.run (f (C.run p st).1) (C.run p st).2 := by
  induction p generalizing st with
  | ret a => rfl
  | call o k ih =>
      rw [Prog.call_bind, run_call, ih]
      rfl

/-- What a program returns, whatever the state. -/
theorem run_returns {Q : A → Prop} {p : Prog O R A} (hp : p.Returns Q) (st : P → S) :
    Q (C.run p st).1 := by
  induction p generalizing st with
  | ret a => exact hp
  | call o k ih => exact ih _ (hp _) _

/-- A step does not change where the program ends. -/
theorem run_next (p : Prog O R A) (st : P → S) :
    C.run (C.next p st).1 (C.next p st).2 = C.run p st := by
  cases p <;> rfl

-- ============================================================================
-- The cells a program works on
-- ============================================================================

/-- The program works on cells of `K` only, whatever they hold. -/
def Uses (K : P → Prop) : Prog O R A → Prop
  | .ret _ => True
  | .call o k => K (C.key o) ∧ ∀ s, Uses K (k (C.act o s).1)

/-- The stores have the same cells in `K`. -/
def AgreeOn (K : P → Prop) (st st' : P → S) : Prop := ∀ q, K q → st q = st' q

variable {C} {K : P → Prop}

omit [DecidableEq P] in
theorem uses_bind {p : Prog O R A} {f : A → Prog O R B} (hp : C.Uses K p)
    (hf : ∀ a, C.Uses K (f a)) : C.Uses K (p >>= f) := by
  induction p with
  | ret a => exact hf a
  | call o k ih => exact ⟨hp.1, fun s => ih _ (hp.2 s)⟩

omit [DecidableEq P] in
theorem Uses.mono {K' : P → Prop} {p : Prog O R A} (hp : C.Uses K p) (h : ∀ q, K q → K' q) :
    C.Uses K' p := by
  induction p with
  | ret a => trivial
  | call o k ih => exact ⟨h _ hp.1, fun s => ih _ (hp.2 s)⟩

/-- An operation leaves the other cells alone. -/
theorem exec_frame (o : O) (st : P → S) {q : P} (hq : q ≠ C.key o) : (C.exec o st).2 q = st q :=
  Function.update_of_ne hq _ _

theorem exec_self (o : O) (st : P → S) : (C.exec o st).2 (C.key o) = (C.act o (st (C.key o))).2 :=
  Function.update_self _ _ _

/-- An operation does the same to stores that agree on its cell. -/
theorem exec_agree {o : O} (ho : K (C.key o)) {st st' : P → S} (h : AgreeOn K st st') :
    (C.exec o st).1 = (C.exec o st').1 ∧ AgreeOn K (C.exec o st).2 (C.exec o st').2 := by
  have hcell := h _ ho
  refine ⟨by rw [exec, exec, hcell], fun q hq => ?_⟩
  rw [exec, exec, hcell]
  dsimp only
  by_cases hqo : q = C.key o
  · rw [hqo, Function.update_self, Function.update_self]
  · rw [Function.update_of_ne hqo, Function.update_of_ne hqo]
    exact h q hq

theorem Uses.next {p : Prog O R A} (hp : C.Uses K p) (st : P → S) :
    C.Uses K (C.next p st).1 := by
  cases p with
  | ret a => exact hp
  | call o k => exact hp.2 _

/-- A step leaves all other cells alone. -/
theorem Uses.next_frame {p : Prog O R A} (hp : C.Uses K p) (st : P → S) {q : P} (hq : ¬ K q) :
    (C.next p st).2 q = st q := by
  cases p with
  | ret a => rfl
  | call o k => exact exec_frame o st fun h => hq (h ▸ hp.1)

/-- The program leaves all other cells alone. -/
theorem Uses.frame {p : Prog O R A} (hp : C.Uses K p) (st : P → S) {q : P} (hq : ¬ K q) :
    (C.run p st).2 q = st q := by
  induction p generalizing st with
  | ret a => rfl
  | call o k ih =>
      have hrest := ih (C.exec o st).1 (hp.2 (st (C.key o))) (C.exec o st).2
      rw [run_call, hrest]
      exact exec_frame o st fun h => hq (h ▸ hp.1)

/-- What the program does depends on the cells it works on. -/
theorem Uses.agree {p : Prog O R A} (hp : C.Uses K p) {st st' : P → S} (h : AgreeOn K st st') :
    (C.run p st).1 = (C.run p st').1 ∧ AgreeOn K (C.run p st).2 (C.run p st').2 := by
  induction p generalizing st st' with
  | ret a => exact ⟨rfl, h⟩
  | call o k ih =>
      obtain ⟨hresult, hstore⟩ := exec_agree hp.1 h
      rw [run_call, run_call, ← hresult]
      exact ih (C.exec o st).1 (hp.2 (st (C.key o))) hstore

end Cells

end FsBridge.Lib
