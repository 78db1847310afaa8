/-
  FsBridge.Lib.Resample

  Resampling by linear interpolation, in exact arithmetic.  Output `i` of samples
  taken at `f` and wanted at `t` in a second lies at the place `i * f / t` among
  them, between a sample and the next one; behind the last sample there is nothing
  to interpolate to, and it is repeated.  What that leaves of the samples is
  `Interpolates`: no output is outside of the two samples it lies between, and outputs
  go up or down only where the samples do.

  A stream can be resampled in pieces: `flatMap_resample_eq_iff` compares the pieces
  with the whole output by output, and `piece_eq_iff` says when a piece that starts at
  its exact place has the outputs of the whole: it can only differ behind its last
  sample, if more follow.
-/

import Mathlib.Data.List.GetD
import Mathlib.Algebra.Group.Nat.Defs
import Mathlib.Algebra.Group.Int.Defs
import Mathlib.Algebra.BigOperators.Group.List.Basic
import Mathlib.Algebra.GroupWithZero.Nat

namespace FsBridge.Lib.Resample

-- ============================================================================
-- Interpolation
-- ============================================================================

/-- `a + num / den * (b - a)`, rounded to zero. -/
def between (a b : Int) (num den : Nat) : Int := (a * den + num * (b - a)).tdiv den

theorem between_zero (a b : Int) {den : Nat} (hden : 0 < den) : between a b 0 den = a := by
  have hne : (den : Int) ≠ 0 := Int.natCast_ne_zero.mpr (Nat.ne_of_gt hden)
  rw [between, Int.natCast_zero, Int.zero_mul, Int.add_zero, Int.mul_tdiv_cancel _ hne]

theorem between_self (a : Int) (num : Nat) {den : Nat} (hden : 0 < den) :
    between a a num den = a := by
  have hne : (den : Int) ≠ 0 := Int.natCast_ne_zero.mpr (Nat.ne_of_gt hden)
  rw [between, Int.sub_self, Int.mul_zero, Int.add_zero, Int.mul_tdiv_cancel _ hne]

/-- A quotient rounded to zero stays between whole numbers the exact one is between. -/
theorem tdiv_mem {lo hi x d : Int} (hd : 0 < d) (h : lo * d ≤ x) (h' : x ≤ hi * d) :
    lo ≤ x.tdiv d ∧ x.tdiv d ≤ hi := by
  have hneg : -hi * d ≤ -x := by
    rw [Int.neg_mul]
    omega
  have hupper := Int.le_tdiv_of_mul_le hd hneg
  rw [Int.neg_tdiv] at hupper
  exact ⟨Int.le_tdiv_of_mul_le hd h, by omega⟩

theorem tdiv_mono {x y d : Int} (hd : 0 < d) (h : x ≤ y) : x.tdiv d ≤ y.tdiv d := by
  have hnonneg : ∀ {u v : Int}, 0 ≤ u → u ≤ v → u.tdiv d ≤ v.tdiv d := by
    intro u v hu huv
    rw [Int.tdiv_eq_ediv_of_nonneg hu, Int.tdiv_eq_ediv_of_nonneg (Int.le_trans hu huv)]
    exact Int.ediv_le_ediv hd huv
  by_cases hx : 0 ≤ x
  · exact hnonneg hx h
  · by_cases hy : 0 ≤ y
    · -- zero lies between the two
      have hlow := hnonneg (u := 0) (v := -x) (Int.le_refl 0) (by omega)
      have hhigh := hnonneg (Int.le_refl 0) hy
      rw [Int.zero_tdiv] at hlow hhigh
      rw [Int.neg_tdiv] at hlow
      omega
    · have hflip := hnonneg (u := -y) (v := -x) (by omega) (by omega)
      rw [Int.neg_tdiv, Int.neg_tdiv] at hflip
      omega

/-- What is between two numbers of an interval is in it. -/
theorem between_mem {lo hi a b : Int} {num den : Nat} (hnum : num < den)
    (ha : lo ≤ a ∧ a ≤ hi) (hb : lo ≤ b ∧ b ≤ hi) :
    lo ≤ between a b num den ∧ between a b num den ≤ hi := by
  have hsum : a * den + num * (b - a) = a * (den - num) + b * num := by
    rw [Int.mul_sub, Int.mul_sub, Int.mul_comm (num : Int) b, Int.mul_comm (num : Int) a]
    omega
  have hrest : (0 : Int) ≤ den - num := by omega
  have hnum' : (0 : Int) ≤ num := Int.natCast_nonneg num
  have hsplit : ∀ c : Int, c * den = c * (den - num) + c * num := by
    intro c
    rw [← Int.mul_add]
    congr 1
    omega
  refine tdiv_mem (by omega) ?_ ?_
  · rw [hsum, hsplit lo]
    exact Int.add_le_add (Int.mul_le_mul_of_nonneg_right ha.1 hrest)
      (Int.mul_le_mul_of_nonneg_right hb.1 hnum')
  · rw [hsum, hsplit hi]
    exact Int.add_le_add (Int.mul_le_mul_of_nonneg_right ha.2 hrest)
      (Int.mul_le_mul_of_nonneg_right hb.2 hnum')

/-- Farther to the greater number is not less. -/
theorem between_mono {a b : Int} {num num' den : Nat} (hden : 0 < den) (hab : a ≤ b)
    (h : num ≤ num') : between a b num den ≤ between a b num' den := by
  refine tdiv_mono (Int.natCast_pos.mpr hden) (Int.add_le_add_left ?_ _)
  exact Int.mul_le_mul_of_nonneg_right (Int.ofNat_le.mpr h) (by omega)

theorem between_neg (a b : Int) (num den : Nat) :
    between (-a) (-b) num den = -between a b num den := by
  have hflip : -a * den + num * (-b - -a) = -(a * den + num * (b - a)) := by
    rw [Int.neg_mul, Int.neg_add, ← Int.mul_neg (num : Int), show -b - -a = -(b - a) by omega]
  rw [between, hflip, Int.neg_tdiv]
  rfl

-- ============================================================================
-- Resampling
-- ============================================================================

/-- How many outputs `n` samples give. -/
def outLen (f t n : Nat) : Nat := n * t / f

/-- Output `i`. -/
def outAt (f t : Nat) (s : List Int) (i : Nat) : Int :=
  let j := i * f / t
  let a := s.getD j 0
  let b := if j + 1 < s.length then s.getD (j + 1) 0 else a
  between a b (i * f % t) t

def resample (f t : Nat) (s : List Int) : List Int :=
  (List.range (outLen f t s.length)).map (outAt f t s)

theorem length_resample (f t : Nat) (s : List Int) :
    (resample f t s).length = outLen f t s.length := by
  rw [resample, List.length_map, List.length_range]

/-- An output lies at a sample. -/
theorem place_lt {f t n i : Nat} (hf : 0 < f) (hi : i < outLen f t n) : i * f / t < n := by
  have hmul : (i + 1) * f ≤ n * t := by
    calc (i + 1) * f ≤ n * t / f * f := Nat.mul_le_mul_right f hi
      _ ≤ n * t := Nat.div_mul_le_self _ _
  rw [Nat.add_mul, Nat.one_mul] at hmul
  apply Nat.div_lt_of_lt_mul
  rw [Nat.mul_comm t n]
  omega

theorem outAt_mem {f t : Nat} (ht : 0 < t) {lo hi : Int} (hlo : lo ≤ 0) (hhi : 0 ≤ hi)
    {s : List Int} (hs : ∀ a ∈ s, lo ≤ a ∧ a ≤ hi) (i : Nat) :
    lo ≤ outAt f t s i ∧ outAt f t s i ≤ hi := by
  have hget : ∀ j, lo ≤ s.getD j 0 ∧ s.getD j 0 ≤ hi := by
    intro j
    by_cases hj : j < s.length
    · rw [List.getD_eq_getElem _ _ hj]
      exact hs _ (List.getElem_mem hj)
    · rw [List.getD_eq_default _ _ (by omega)]
      exact ⟨hlo, hhi⟩
  refine between_mem (Nat.mod_lt _ ht) (hget _) ?_
  split
  · exact hget _
  · exact hget _

-- ============================================================================
-- Outputs and samples
-- ============================================================================

/-- `out` is interpolated from `s`: as many outputs as their places allow, each of them
    between the samples on its two sides, so that nothing is outside of what `s` does. -/
structure Interpolates (f t : Nat) (s out : List Int) : Prop where
  length : out.length = outLen f t s.length
  /-- Behind the last sample there is no other, and it is repeated. -/
  adjacent : ∀ i v, out[i]? = some v → ∃ a b, s[i * f / t]? = some a ∧
    (s[i * f / t + 1]? = some b ∨ i * f / t + 1 = s.length ∧ b = a) ∧
    v = between a b (i * f % t) t ∧ (a ≤ v ∧ v ≤ b ∨ b ≤ v ∧ v ≤ a)
  constant : ∀ c, (∀ a ∈ s, a = c) → ∀ v ∈ out, v = c
  increasing : s.Pairwise (fun a b => a ≤ b) → out.Pairwise fun v w => v ≤ w
  decreasing : s.Pairwise (fun a b => b ≤ a) → out.Pairwise fun v w => w ≤ v

section Outputs

variable {f t : Nat} {s : List Int}

/-- The two samples of an output. -/
theorem outAt_adjacent {i : Nat} (hi : i * f / t < s.length) :
    ∃ a b, s[i * f / t]? = some a ∧
      (s[i * f / t + 1]? = some b ∨ i * f / t + 1 = s.length ∧ b = a) ∧
      outAt f t s i = between a b (i * f % t) t := by
  rw [outAt]
  generalize i * f / t = j at hi
  rw [List.getD_eq_getElem _ _ hi]
  by_cases hnext : j + 1 < s.length
  · rw [if_pos hnext, List.getD_eq_getElem _ _ hnext]
    exact ⟨s[j], s[j + 1], List.getElem?_eq_getElem hi,
      .inl (List.getElem?_eq_getElem hnext), rfl⟩
  · rw [if_neg hnext]
    exact ⟨s[j], s[j], List.getElem?_eq_getElem hi, .inr ⟨by omega, rfl⟩, rfl⟩

/-- What is between two numbers, told without their order. -/
theorem between_or {a b : Int} {num den : Nat} (hnum : num < den) :
    a ≤ between a b num den ∧ between a b num den ≤ b ∨
      b ≤ between a b num den ∧ between a b num den ≤ a := by
  rcases Int.le_total a b with hab | hba
  · exact .inl (between_mem hnum ⟨Int.le_refl a, hab⟩ ⟨hab, Int.le_refl b⟩)
  · exact .inr (between_mem hnum ⟨hba, Int.le_refl a⟩ ⟨Int.le_refl b, hba⟩)

theorem outAt_const (ht : 0 < t) {c : Int} (hs : ∀ a ∈ s, a = c) {i : Nat}
    (hi : i * f / t < s.length) : outAt f t s i = c := by
  obtain ⟨a, b, ha, hb, heq⟩ := outAt_adjacent hi
  have hac : a = c := hs a (List.mem_of_getElem? ha)
  have hbc : b = c := by
    rcases hb with hb | ⟨-, hb⟩
    · exact hs b (List.mem_of_getElem? hb)
    · rw [hb, hac]
  rw [heq, hac, hbc, between_self c _ ht]

theorem outAt_neg (i : Nat) : outAt f t (s.map fun a => -a) i = -outAt f t s i := by
  have hget : ∀ j, (s.map fun a => -a).getD j 0 = -s.getD j 0 := by
    intro j
    have hmap := List.getD_map (l := s) (d := 0) (n := j) fun a : Int => -a
    rwa [Int.neg_zero] at hmap
  rw [outAt, outAt, List.length_map, hget, hget]
  split
  · exact between_neg _ _ _ _
  · exact between_neg _ _ _ _

/-- Samples that do not go down give outputs that do not. -/
theorem outAt_mono (ht : 0 < t) (hs : s.Pairwise fun a b => a ≤ b) {i i' : Nat} (hle : i ≤ i')
    (hi' : i' * f / t < s.length) : outAt f t s i ≤ outAt f t s i' := by
  have hsorted : ∀ {j j' : Nat} {a b : Int}, s[j]? = some a → s[j']? = some b → j ≤ j' →
      a ≤ b := by
    intro j j' a b ha hb hjj
    obtain ⟨hj, rfl⟩ := List.getElem?_eq_some_iff.mp ha
    obtain ⟨hj', rfl⟩ := List.getElem?_eq_some_iff.mp hb
    rcases Nat.lt_or_eq_of_le hjj with hlt | rfl
    · exact List.pairwise_iff_getElem.mp hs j j' hj hj' hlt
    · exact Int.le_refl _
  have hmul : i * f ≤ i' * f := Nat.mul_le_mul_right f hle
  have hplace : i * f / t ≤ i' * f / t := Nat.div_le_div_right hmul
  have hi : i * f / t < s.length := Nat.lt_of_le_of_lt hplace hi'
  obtain ⟨a, b, ha, hb, heq⟩ := outAt_adjacent hi
  obtain ⟨a', b', ha', hb', heq'⟩ := outAt_adjacent hi'
  have hab : a ≤ b := by
    rcases hb with hb | ⟨-, rfl⟩
    · exact hsorted ha hb (Nat.le_succ _)
    · exact Int.le_refl _
  have hab' : a' ≤ b' := by
    rcases hb' with hb' | ⟨-, rfl⟩
    · exact hsorted ha' hb' (Nat.le_succ _)
    · exact Int.le_refl _
  rw [heq, heq']
  rcases Nat.lt_or_eq_of_le hplace with hbehind | hsame
  · -- the next sample of the first output is not behind the sample of the second
    have hnext : b ≤ a' := by
      rcases hb with hb | ⟨hlast, -⟩
      · exact hsorted hb ha' hbehind
      · omega
    have hfirst := (between_mem (Nat.mod_lt (i * f) ht) ⟨Int.le_refl a, hab⟩
      ⟨hab, Int.le_refl b⟩).2
    have hsecond := (between_mem (Nat.mod_lt (i' * f) ht) ⟨Int.le_refl a', hab'⟩
      ⟨hab', Int.le_refl b'⟩).1
    exact Int.le_trans hfirst (Int.le_trans hnext hsecond)
  · have haa : a' = a := by
      rw [← hsame, ha] at ha'
      exact (Option.some.inj ha').symm
    have hbb : b' = b := by
      rw [← hsame] at hb'
      rcases hb with hb | ⟨hlast, rfl⟩
      · rcases hb' with hb' | ⟨hlast, -⟩
        · rw [hb] at hb'
          exact (Option.some.inj hb').symm
        · rw [List.getElem?_eq_none (by omega)] at hb
          exact nomatch hb
      · rcases hb' with hb' | ⟨-, rfl⟩
        · rw [List.getElem?_eq_none (by omega)] at hb'
          exact nomatch hb'
        · exact haa
    have hfrac : i * f % t ≤ i' * f % t := by
      have hdiv := Nat.div_add_mod (i * f) t
      have hdiv' := Nat.div_add_mod (i' * f) t
      rw [← hsame] at hdiv'
      omega
    rw [haa, hbb]
    exact between_mono ht hab hfrac

/-- What `resample` gives is interpolated. -/
theorem interpolates_resample (hf : 0 < f) (ht : 0 < t) (s : List Int) :
    Interpolates f t s (resample f t s) := by
  have hplace : ∀ i ∈ List.range (outLen f t s.length), i * f / t < s.length := fun i hi =>
    place_lt hf (List.mem_range.mp hi)
  have hmono : ∀ {w : List Int}, w.length = s.length → w.Pairwise (fun a b => a ≤ b) →
      (resample f t w).Pairwise fun v w => v ≤ w := by
    intro w hlen hw
    rw [resample, hlen, List.pairwise_map]
    refine List.pairwise_lt_range.imp_of_mem fun {i i'} _ hi' hlt => ?_
    exact outAt_mono ht hw (Nat.le_of_lt hlt) (by rw [hlen]; exact hplace i' hi')
  refine ⟨length_resample f t s, ?_, ?_, hmono rfl, ?_⟩
  · intro i v hv
    rw [resample, List.getElem?_map] at hv
    obtain ⟨i', hi', rfl⟩ := Option.map_eq_some_iff.mp hv
    obtain ⟨hlt, rfl⟩ := List.getElem?_eq_some_iff.mp hi'
    rw [List.getElem_range]
    obtain ⟨a, b, ha, hb, heq⟩ := outAt_adjacent (place_lt (t := t) (n := s.length) hf (by
      rw [List.length_range] at hlt
      exact hlt))
    refine ⟨a, b, ha, hb, heq, ?_⟩
    rw [heq]
    exact between_or (Nat.mod_lt _ ht)
  · intro c hs v hv
    obtain ⟨i, hi, rfl⟩ := List.mem_map.mp hv
    exact outAt_const ht hs (hplace i hi)
  · -- the opposite of samples that go down goes up
    intro hs
    have hflip := hmono (w := s.map fun a => -a) (List.length_map _) (by
      rw [List.pairwise_map]
      exact hs.imp fun hba => by omega)
    rw [resample, List.length_map, List.pairwise_map] at hflip
    rw [resample, List.pairwise_map]
    refine hflip.imp fun {i i'} hle => ?_
    rw [outAt_neg, outAt_neg] at hle
    omega

/-- At equal rates every output is a sample. -/
theorem resample_self (hf : 0 < f) (s : List Int) : resample f f s = s := by
  have hlen : outLen f f s.length = s.length := Nat.mul_div_cancel _ hf
  apply List.ext_getElem
  · rw [length_resample, hlen]
  · intro i hi hi'
    simp only [resample, List.getElem_map, List.getElem_range]
    rw [outAt, Nat.mul_mod_left, Nat.mul_div_cancel i hf, between_zero _ _ hf,
      List.getD_eq_getElem _ _ hi']

end Outputs

-- ============================================================================
-- Pieces
-- ============================================================================

/-- Output `o + i` of a whole, where a piece with output `i` starts at `k`. -/
theorem outAt_add {f t : Nat} (ht : 0 < t) (w : List Int) {k o : Nat} (hplace : k * t = o * f)
    (i : Nat) :
    outAt f t w (o + i) = between (w.getD (k + i * f / t) 0)
      (if k + i * f / t + 1 < w.length then w.getD (k + i * f / t + 1) 0
        else w.getD (k + i * f / t) 0) (i * f % t) t := by
  have hsum : (o + i) * f = i * f + k * t := by
    rw [Nat.add_mul, hplace, Nat.add_comm]
  have hdiv : (o + i) * f / t = k + i * f / t := by
    rw [hsum, Nat.add_mul_div_right _ _ ht, Nat.add_comm]
  have hmod : (o + i) * f % t = i * f % t := by
    rw [hsum, Nat.add_mul_mod_self_right]
  rw [outAt, hdiv, hmod]

/-- A piece of a whole that starts at its exact place has the outputs of the whole,
    but behind its last sample, where more follow. -/
theorem outAt_slice {f t : Nat} (ht : 0 < t) {w s : List Int} {k o i : Nat}
    (hplace : k * t = o * f) (hslice : s <+: w.drop k) (hi : i * f / t < s.length)
    (hinner : i * f / t + 1 < s.length ∨ i * f % t = 0 ∨ k + s.length = w.length) :
    outAt f t s i = outAt f t w (o + i) := by
  obtain ⟨rest, hrest⟩ := hslice
  have hlen := congrArg List.length hrest
  rw [List.length_append, List.length_drop] at hlen
  have hget : ∀ j, j < s.length → s.getD j 0 = w.getD (k + j) 0 := by
    intro j hj
    have hdrop : (w.drop k).getD j 0 = w.getD (k + j) 0 := by
      rw [List.getD_eq_getElem?_getD, List.getD_eq_getElem?_getD, List.getElem?_drop]
    rw [← hdrop, ← hrest, List.getD_append _ _ _ _ hj]
  rw [outAt_add ht w hplace, outAt]
  generalize i * f / t = j at hi hinner
  rw [hget j hi]
  rcases hinner with hinner | hexact | hlast
  · rw [if_pos hinner, if_pos (by omega), hget _ hinner, Nat.add_assoc]
  · rw [hexact, between_zero _ _ ht, between_zero _ _ ht]
  · by_cases hinner : j + 1 < s.length
    · rw [if_pos hinner, if_pos (by omega), hget _ hinner, Nat.add_assoc]
    · rw [if_neg hinner, if_neg (by omega)]

/-- Behind its last sample a piece repeats it. -/
theorem outAt_last {f t : Nat} (ht : 0 < t) {s : List Int} {i : Nat}
    (hi : i * f / t + 1 = s.length) : outAt f t s i = s.getD (i * f / t) 0 := by
  rw [outAt, if_neg (by omega), between_self _ _ ht]

/-- Behind the last of the `n` samples from `k` on, what the next sample adds to their
    outputs is rounded away. -/
def PieceJoins (f t : Nat) (w : List Int) (k n : Nat) : Prop :=
  k + n < w.length → ∀ i, i < outLen f t n → i * f / t + 1 = n →
    between (w.getD (k + n - 1) 0) (w.getD (k + n) 0) (i * f % t) t = w.getD (k + n - 1) 0

/-- A piece that starts at its exact place has the outputs of the whole exactly when it
    joins what follows. -/
theorem piece_eq_iff {f t : Nat} (hf : 0 < f) (ht : 0 < t) {w s : List Int} {k o : Nat}
    (hplace : k * t = o * f) (hslice : s <+: w.drop k) :
    (∀ i, i < outLen f t s.length → outAt f t s i = outAt f t w (o + i)) ↔
      PieceJoins f t w k s.length := by
  obtain ⟨rest, hrest⟩ := hslice
  have hlen := congrArg List.length hrest
  rw [List.length_append, List.length_drop] at hlen
  -- at the last sample, where more follow, the piece has the sample itself
  have hlast : ∀ i, k + s.length < w.length → i * f / t + 1 = s.length →
      outAt f t s i = w.getD (k + s.length - 1) 0 ∧
        outAt f t w (o + i) = between (w.getD (k + s.length - 1) 0) (w.getD (k + s.length) 0)
          (i * f % t) t := by
    intro i hmore hi
    have hpos : 0 < s.length := hi ▸ Nat.succ_pos _
    have hprev : k + i * f / t = k + s.length - 1 := by omega
    have hnext : k + i * f / t + 1 = k + s.length := by omega
    have hdrop : (w.drop k).getD (i * f / t) 0 = w.getD (k + s.length - 1) 0 := by
      rw [List.getD_eq_getElem?_getD, List.getD_eq_getElem?_getD, List.getElem?_drop, hprev]
    constructor
    · rw [outAt_last ht hi, ← hdrop, ← hrest, List.getD_append _ _ _ _ (by omega)]
    · rw [outAt_add ht w hplace, hnext, if_pos hmore, hprev]
  constructor
  · intro h hmore i hi hend
    obtain ⟨hpiece, hwhole⟩ := hlast i hmore hend
    rw [← hwhole, ← h i hi, hpiece]
  · intro h i hi
    have hin := place_lt hf hi
    by_cases hinner : i * f / t + 1 < s.length ∨ k + s.length = w.length
    · exact outAt_slice ht hplace ⟨rest, hrest⟩ hin (hinner.imp id .inr)
    · have hpos : 0 < s.length := Nat.zero_lt_of_lt hin
      have hend : i * f / t + 1 = s.length := by omega
      have hmore : k + s.length < w.length := by omega
      obtain ⟨hpiece, hwhole⟩ := hlast i hmore hend
      rw [hpiece, hwhole, h hmore i hi hend]

-- ============================================================================
-- Blocks
-- ============================================================================

/-- The samples of a block: the fewest that give a whole number of outputs. -/
def blockLen (f t : Nat) : Nat := f / f.gcd t

/-- Whole blocks give exactly their share of outputs. -/
theorem outLen_mul {f t n : Nat} (h : blockLen f t ∣ n) :
    outLen f t n * f = n * t := by
  obtain ⟨k, rfl⟩ := h
  have hf' : f / f.gcd t * f.gcd t = f := Nat.div_mul_cancel (Nat.gcd_dvd_left f t)
  have ht' : f.gcd t * (t / f.gcd t) = t := Nat.mul_div_cancel' (Nat.gcd_dvd_right f t)
  have hdvd : f ∣ blockLen f t * k * t := by
    refine ⟨k * (t / f.gcd t), ?_⟩
    calc blockLen f t * k * t
        = f / f.gcd t * k * (f.gcd t * (t / f.gcd t)) := by rw [ht']; rfl
      _ = f / f.gcd t * f.gcd t * (k * (t / f.gcd t)) := by
          rw [Nat.mul_assoc, Nat.mul_assoc, Nat.mul_left_comm k]
      _ = f * (k * (t / f.gcd t)) := by rw [hf']
  exact Nat.div_mul_cancel hdvd

/-- More samples behind whole blocks give their outputs behind those of the blocks. -/
theorem outLen_add {f t n : Nat} (hf : 0 < f) (h : blockLen f t ∣ n) (m : Nat) :
    outLen f t (n + m) = outLen f t n + outLen f t m := by
  have hmul := outLen_mul h
  rw [outLen, Nat.add_mul, ← hmul, Nat.add_comm, Nat.add_mul_div_right _ _ hf, Nat.add_comm]
  rfl

/-- Where samples are left out, the last output of whole blocks lies before their
    last sample. -/
theorem place_inner {f t n i : Nat} (hdown : t < f) (h : blockLen f t ∣ n)
    (hi : i < outLen f t n) : i * f / t + 1 < n := by
  have hmul := outLen_mul h
  have hle : (i + 1) * f ≤ n * t := by
    rw [← hmul]
    exact Nat.mul_le_mul_right f hi
  rw [Nat.add_mul, Nat.one_mul] at hle
  have hpos : 0 < n := by
    apply Nat.pos_of_ne_zero
    rintro rfl
    omega
  have hlt : i * f < t * (n - 1) := by
    rw [Nat.mul_sub, Nat.mul_one, Nat.mul_comm t n]
    omega
  have hplace := Nat.div_lt_of_lt_mul hlt
  generalize i * f / t = j at hplace
  omega

/-- An output that lies in whole blocks is one of theirs. -/
theorem lt_outLen {f t n i : Nat} (ht : 0 < t) (h : blockLen f t ∣ n) (hi : i * f / t < n) :
    i < outLen f t n := by
  have hlt := (Nat.div_lt_iff_lt_mul ht).mp hi
  rw [← outLen_mul h] at hlt
  exact Nat.lt_of_mul_lt_mul_right hlt

/-- The whole, cut behind whole blocks: the outputs that lie in them, and those of
    the rest. -/
theorem resample_split {f t : Nat} (hf : 0 < f) (ht : 0 < t) {w : List Int} {k : Nat}
    (hk : k ≤ w.length) (h : blockLen f t ∣ k) :
    resample f t w
      = (List.range (outLen f t k)).map (outAt f t w) ++ resample f t (w.drop k) := by
  have hlen : w.length = k + (w.drop k).length := by
    rw [List.length_drop]
    omega
  rw [resample, resample, hlen, outLen_add hf h, List.range_add, List.map_append, List.map_map]
  congr 1
  refine List.map_congr_left fun i hi => ?_
  rw [List.mem_range] at hi
  exact (outAt_slice ht (outLen_mul h).symm (List.prefix_refl _) (place_lt hf hi)
    (.inr (.inr hlen.symm))).symm

/-- Cutting a whole at `k` changes no output: behind the last sample before the cut,
    what the next sample adds is rounded away. -/
def Joins (f t : Nat) (w : List Int) (k : Nat) : Prop :=
  k < w.length → ∀ i, i * f / t + 1 = k →
    between (w.getD (k - 1) 0) (w.getD k 0) (i * f % t) t = w.getD (k - 1) 0

/-- Whole blocks have the outputs of the whole exactly when the cut joins. -/
theorem resample_take_eq_iff {f t : Nat} (hf : 0 < f) (ht : 0 < t) {w : List Int} {k : Nat}
    (hk : k ≤ w.length) (h : blockLen f t ∣ k) :
    resample f t (w.take k) = (List.range (outLen f t k)).map (outAt f t w) ↔ Joins f t w k := by
  have hlen : (w.take k).length = k := by
    rw [List.length_take, Nat.min_eq_left hk]
  have hslice : w.take k <+: w.drop 0 := List.take_prefix k w
  have hzero : 0 * t = 0 * f := by rw [Nat.zero_mul, Nat.zero_mul]
  have hpiece := piece_eq_iff hf ht hzero hslice
  rw [hlen] at hpiece
  simp only [PieceJoins, Nat.zero_add] at hpiece
  rw [resample, hlen, List.map_inj_left]
  simp only [List.mem_range]
  rw [hpiece, Joins]
  -- in whole blocks the outputs at the last sample are all theirs
  exact ⟨fun hjoins hmore i hi => hjoins hmore i (lt_outLen ht h (by omega)) hi,
    fun hjoins hmore i _ hi => hjoins hmore i hi⟩

/-- A cut of the rest behind whole blocks is a cut of the whole. -/
theorem joins_drop_iff {f t : Nat} (hf : 0 < f) (ht : 0 < t) {w : List Int} {k k' : Nat}
    (h : blockLen f t ∣ k) (hk' : 0 < k') : Joins f t (w.drop k) k' ↔ Joins f t w (k + k') := by
  have hmul := outLen_mul h
  have hget : ∀ j, (w.drop k).getD j 0 = w.getD (k + j) 0 := by
    intro j
    rw [List.getD_eq_getElem?_getD, List.getD_eq_getElem?_getD, List.getElem?_drop]
  have hmove : ∀ i, (outLen f t k + i) * f / t = k + i * f / t ∧
      (outLen f t k + i) * f % t = i * f % t := by
    intro i
    rw [Nat.add_mul, hmul, Nat.add_comm (k * t)]
    exact ⟨by rw [Nat.add_mul_div_right _ _ ht, Nat.add_comm], Nat.add_mul_mod_self_right _ _ _⟩
  have hprev : k + k' - 1 = k + (k' - 1) := by omega
  unfold Joins
  rw [List.length_drop, hget, hget, hprev]
  constructor
  · intro hjoins hmore i hi
    -- the output lies behind those of the blocks
    have hle : outLen f t k ≤ i := by
      have hlt : k * t < (i + 1) * f := by
        have hdiv : k ≤ i * f / t := by omega
        have hmul' := (Nat.le_div_iff_mul_le ht).mp hdiv
        rw [Nat.add_mul, Nat.one_mul]
        omega
      rw [← hmul] at hlt
      exact Nat.le_of_lt_succ (Nat.lt_of_mul_lt_mul_right hlt)
    obtain ⟨i, rfl⟩ := Nat.exists_eq_add_of_le hle
    obtain ⟨hdiv, hmod⟩ := hmove i
    rw [hdiv] at hi
    rw [hmod]
    exact hjoins (by omega) i (by omega)
  · intro hjoins hmore i hi
    obtain ⟨hdiv, hmod⟩ := hmove i
    have heq := hjoins (by omega) (outLen f t k + i) (by rw [hdiv]; omega)
    rw [hmod] at heq
    exact heq

/-- Where samples are left out, every cut behind whole blocks joins. -/
theorem joins_of_down {f t : Nat} (ht : 0 < t) (hdown : t < f) (w : List Int) {k : Nat}
    (h : blockLen f t ∣ k) : Joins f t w k := by
  intro _ i hi
  have hinner := place_inner hdown h (lt_outLen (i := i) ht h (by omega))
  omega

end FsBridge.Lib.Resample
