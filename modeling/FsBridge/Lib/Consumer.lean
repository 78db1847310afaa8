/-
  FsBridge.Lib.Consumer

  Programs that take a stream apart as it arrives.  A consumer looks at the input
  that has not been taken yet and makes one turn: it waits for more, takes some of
  the input, or stops for good.

  * `drain` makes turns until the consumer waits or stops.
  * `feed` does so after each segment that arrives.
  * `Incremental I turn` says that a turn is decided by the input it takes: what
    comes behind does not change it.  Then the segments do not matter
    (`feed_eq_drain`), and a stream is consumed piece by piece (`drain_append`).
-/

import Mathlib.Data.List.Basic

namespace FsBridge.Lib

namespace Consumer

/-- What a consumer does with the input at hand. -/
inductive Turn (S : Type*) where
  | wait
  | stop (s : S)
  /-- `n` elements are taken. -/
  | next (s : S) (n : Nat)
deriving DecidableEq, Repr

variable {S α : Type*} (turn : S → List α → Turn S)

def drainFuel : Nat → S → List α → S × List α
  | 0, s, input => (s, input)
  | fuel + 1, s, input =>
      match turn s input with
      | .wait => (s, input)
      | .stop s' => (s', input)
      | .next s' n => drainFuel fuel s' (input.drop n)

/-- Turns until the consumer waits or stops, and the input that is left. -/
def drain (s : S) (input : List α) : S × List α := drainFuel turn (input.length + 1) s input

/-- The input arrives in segments. -/
def feed (s : S) (input : List α) : List (List α) → S × List α
  | [] => (s, input)
  | seg :: segs =>
      let r := drain turn s (input ++ seg)
      feed r.1 r.2 segs

/-- From a state of `I` a turn takes something, and input behind what it takes does
    not change it; a consumer that has stopped stays so. -/
structure Incremental (I : S → Prop) : Prop where
  next : ∀ {s s' : S} {input : List α} {n : Nat}, I s → turn s input = .next s' n →
    I s' ∧ 0 < n ∧ n ≤ input.length ∧ ∀ more, turn s (input ++ more) = .next s' n
  stop : ∀ {s s' : S} {input : List α}, I s → turn s input = .stop s' →
    I s' ∧ (∀ other, turn s' other = .stop s') ∧ ∀ more, turn s (input ++ more) = .stop s'

variable {turn} {I : S → Prop}

-- ============================================================================
-- One turn of a drain
-- ============================================================================

theorem drain_wait {s : S} {input : List α} (h : turn s input = .wait) :
    drain turn s input = (s, input) := by
  rw [drain, drainFuel, h]

theorem drain_stop {s s' : S} {input : List α} (h : turn s input = .stop s') :
    drain turn s input = (s', input) := by
  rw [drain, drainFuel, h]

namespace Incremental

/-- As many turns as there are elements are enough. -/
theorem drainFuel_eq (hturn : Incremental turn I) {s : S} (hs : I s) {input : List α} {fuel : Nat}
    (hfuel : input.length < fuel) : drainFuel turn fuel s input = drain turn s input := by
  have hany : ∀ fuel fuel' s (input : List α), I s → input.length < fuel → input.length < fuel' →
      drainFuel turn fuel s input = drainFuel turn fuel' s input := by
    intro fuel
    induction fuel with
    | zero => exact fun _ _ _ _ h => absurd h (Nat.not_lt_zero _)
    | succ fuel ih =>
        intro fuel' s input hs hlt hlt'
        obtain ⟨fuel', rfl⟩ : ∃ m, fuel' = m + 1 := ⟨fuel' - 1, by omega⟩
        rw [drainFuel, drainFuel]
        cases hstep : turn s input with
        | wait => rfl
        | stop s' => rfl
        | next s' n =>
            obtain ⟨hs', hpos, hle, -⟩ := hturn.next hs hstep
            exact ih fuel' s' _ hs' (by rw [List.length_drop]; omega)
              (by rw [List.length_drop]; omega)
  exact hany fuel _ s input hs hfuel (Nat.lt_succ_self _)

theorem drain_next (hturn : Incremental turn I) {s s' : S} (hs : I s) {input : List α} {n : Nat}
    (h : turn s input = .next s' n) : drain turn s input = drain turn s' (input.drop n) := by
  obtain ⟨hs', hpos, hle, -⟩ := hturn.next hs h
  rw [drain, drainFuel, h]
  exact hturn.drainFuel_eq hs' (by rw [List.length_drop]; omega)

/-- The induction over the turns of a drain. -/
theorem drain_induction (hturn : Incremental turn I) {P : S → List α → Prop}
    (hwait : ∀ s input, I s → turn s input = .wait → P s input)
    (hstop : ∀ s s' input, I s → turn s input = .stop s' → P s input)
    (hnext : ∀ s s' input n, I s → turn s input = .next s' n → P s' (input.drop n) → P s input)
    {s : S} (hs : I s) (input : List α) : P s input := by
  induction hlen : input.length using Nat.strongRecOn generalizing s input with
  | ind len ih =>
      cases hstep : turn s input with
      | wait => exact hwait s input hs hstep
      | stop s' => exact hstop s s' input hs hstep
      | next s' n =>
          obtain ⟨hs', hpos, hle, -⟩ := hturn.next hs hstep
          refine hnext s s' input n hs hstep (ih _ ?_ hs' (input.drop n) rfl)
          rw [List.length_drop]
          omega

-- ============================================================================
-- Streams
-- ============================================================================

theorem drain_inv (hturn : Incremental turn I) {s : S} (hs : I s) (input : List α) :
    I (drain turn s input).1 := by
  refine hturn.drain_induction (P := fun s input => I (drain turn s input).1) ?_ ?_ ?_ hs input
  · intro s input hs hstep
    rw [drain_wait hstep]
    exact hs
  · intro s s' input hs hstep
    rw [drain_stop hstep]
    exact (hturn.stop hs hstep).1
  · intro s s' input n hs hstep ih
    rw [hturn.drain_next hs hstep]
    exact ih

/-- A stream is consumed piece by piece. -/
theorem drain_append (hturn : Incremental turn I) {s : S} (hs : I s) (input more : List α) :
    drain turn s (input ++ more) =
      drain turn (drain turn s input).1 ((drain turn s input).2 ++ more) := by
  refine hturn.drain_induction (P := fun s input => drain turn s (input ++ more) =
    drain turn (drain turn s input).1 ((drain turn s input).2 ++ more)) ?_ ?_ ?_ hs input
  · intro s input hs hstep
    rw [drain_wait hstep]
  · intro s s' input hs hstep
    obtain ⟨-, hstay, hmore⟩ := hturn.stop hs hstep
    rw [drain_stop hstep, drain_stop (hmore more), drain_stop (hstay (input ++ more))]
  · intro s s' input n hs hstep ih
    obtain ⟨-, -, hle, hmore⟩ := hturn.next hs hstep
    rw [hturn.drain_next hs hstep, hturn.drain_next hs (hmore more),
      List.drop_append_of_le_length hle]
    exact ih

/-- However the stream is cut into segments, the same is made of it. -/
theorem feed_eq_drain (hturn : Incremental turn I) {s : S} (hs : I s) (input : List α)
    (segs : List (List α)) (hdone : drain turn s input = (s, input)) :
    feed turn s input segs = drain turn s (input ++ segs.flatten) := by
  induction segs generalizing s input with
  | nil => simpa [feed] using hdone.symm
  | cons seg segs ih =>
      have hfirst := hturn.drain_append hs (input ++ seg) []
      rw [List.append_nil, List.append_nil] at hfirst
      rw [feed, ih (hturn.drain_inv hs _) _ hfirst.symm, List.flatten_cons, ← List.append_assoc]
      exact (hturn.drain_append hs (input ++ seg) segs.flatten).symm

end Incremental

end Consumer

end FsBridge.Lib
