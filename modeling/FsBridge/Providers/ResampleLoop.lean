/-
  FsBridge.Providers.ResampleLoop

  `ResamplePCM16` (providers/resample.go) as it runs: sizes are `int`s and wrap, a
  sample is looked up and an output is stored at an index that may be out of range, and
  what has been interpolated is converted to an int16 that may not hold it.  `none` is a
  run-time panic.

  The loop writes the outputs into a zeroed buffer one by one; after `i` turns the
  buffer holds the first `i` outputs, and zeros behind them (`fill_eq`).  Where the sizes
  fit an `int`, this is `resamplePCM16` (`resampleLoop_eq`).
-/

import FsBridge.Lib.Word
import FsBridge.Providers.ResamplePCM16

namespace FsBridge.Providers

open FsBridge.Lib FsBridge.Lib.Resample

/-- `int16(v)` of an interpolated value; the platform says what becomes of one that is not
    an int16. -/
def toInt16 (beyond : Int → Int) (v : Int) : Int :=
  if -32768 ≤ v ∧ v ≤ 32767 then v else beyond v

/-- The sample of output `i`, with `pos` as the quotient `i * fromRate / toRate`. -/
def interpolate (beyond : Int → Int) (samples : List Int) (fromRate toRate i : Nat) :
    Option Int := do
  let j := i * fromRate / toRate
  let a ← samples[j]?
  let b ← if j + 1 < samples.length then samples[j + 1]? else some a
  return toInt16 beyond (between a b (i * fromRate % toRate) toRate)

/-- `out[2*i] = byte(v)` and `out[2*i+1] = byte(v >> 8)`. -/
def putAt (out : Bytes) (i : Nat) (v : Int) : Option Bytes :=
  if 2 * i + 1 < out.length then
    some ((out.set (2 * i) (UInt8.ofInt v)).set (2 * i + 1) (UInt8.ofInt (v / 256)))
  else none

/-- The loop from output `i` on, with `k` turns to go. -/
def fill (beyond : Int → Int) (samples : List Int) (fromRate toRate : Nat) :
    Nat → Nat → Bytes → Option Bytes
  | 0, _, out => some out
  | k + 1, i, out => do
      let v ← interpolate beyond samples fromRate toRate i
      let out ← putAt out i v
      fill beyond samples fromRate toRate k (i + 1) out

/-- `make([]byte, n)`. -/
def makeBytes (n : Int64) : Option Bytes := (Word.makeLen n).map fun k => List.replicate k 0

/-- `ResamplePCM16`. -/
def resampleLoop (beyond : Int → Int) (pcm : Bytes) (fromRate toRate : Int64) : Option Bytes :=
  if pcm.length < 2 then some []
  else if fromRate ≤ 0 ∨ toRate ≤ 0 ∨ fromRate = toRate then
    some (pcm.take (pcm.length - pcm.length % 2))
  else
    let n := Int64.ofNat (pcm.length / 2)
    let outN := n * toRate / fromRate
    if outN = 0 then some []
    else do
      let out ← makeBytes (outN * 2)
      fill beyond (pcmSamples pcm) fromRate.toInt.toNat toRate.toInt.toNat outN.toInt.toNat 0 out

-- ============================================================================
-- One turn
-- ============================================================================

theorem toInt16_eq (beyond : Int → Int) {v : Int} (h : -32768 ≤ v ∧ v ≤ 32767) :
    toInt16 beyond v = v := if_pos h

section

variable {samples : List Int} {f t : Nat}

/-- The indices of an output that lies at a sample are in range, and what lies between
    samples is an int16. -/
theorem interpolate_eq (beyond : Int → Int) (ht : 0 < t)
    (hsamples : ∀ a ∈ samples, -32768 ≤ a ∧ a ≤ 32767) {i : Nat}
    (hi : i * f / t < samples.length) :
    interpolate beyond samples f t i = some (outAt f t samples i) := by
  obtain ⟨a, b, ha, hb, heq⟩ := outAt_adjacent hi
  have hmem := outAt_mem ht (by decide) (by decide) hsamples (f := f) i
  rw [interpolate]
  dsimp only
  rw [ha, Option.bind_eq_bind, Option.bind_some]
  rcases hb with hb | ⟨hlast, rfl⟩
  · have hnext : i * f / t + 1 < samples.length := (List.getElem?_eq_some_iff.mp hb).1
    rw [if_pos hnext, hb, Option.bind_some, ← heq, toInt16_eq beyond hmem]
    rfl
  · rw [if_neg (by omega), Option.bind_some, ← heq, toInt16_eq beyond hmem]
    rfl

/-- The next output goes behind those that are there. -/
theorem putAt_eq (done : List Int) (v : Int) (k : Nat) :
    putAt (putSamples done ++ List.replicate (2 * (k + 1)) 0) done.length v
      = some (putSamples (done ++ [v]) ++ List.replicate (2 * k) 0) := by
  have hlen := length_putSamples done
  have hzeros : List.replicate (2 * (k + 1)) (0 : UInt8) = 0 :: 0 :: List.replicate (2 * k) 0 := rfl
  rw [putAt, if_pos (by
    rw [List.length_append, hlen, List.length_replicate]
    omega), hzeros, ← hlen, List.set_append_right _ _ (Nat.le_refl _), Nat.sub_self,
    List.set_append_right _ _ (Nat.le_add_right _ 1), Nat.add_sub_cancel_left, putSamples_append,
    List.append_assoc]
  rfl

/-- The turns from output `done.length` on: each puts its output behind the others. -/
theorem fill_eq (beyond : Int → Int) (ht : 0 < t)
    (hsamples : ∀ a ∈ samples, -32768 ≤ a ∧ a ≤ 32767) (k : Nat) (done : List Int)
    (hplace : ∀ i, i < done.length + k → i * f / t < samples.length) :
    fill beyond samples f t k done.length (putSamples done ++ List.replicate (2 * k) 0)
      = some (putSamples (done ++ (List.range' done.length k).map (outAt f t samples))) := by
  induction k generalizing done with
  | zero =>
      rw [fill, Nat.mul_zero, List.replicate_zero, List.append_nil, List.range'_zero,
        List.map_nil, List.append_nil]
  | succ k ih =>
      have hsnoc : (done ++ [outAt f t samples done.length]).length = done.length + 1 := by
        rw [List.length_append, List.length_singleton]
      have hrest := ih (done ++ [outAt f t samples done.length]) (by
        rw [hsnoc]
        exact fun i hi => hplace i (by omega))
      rw [hsnoc] at hrest
      rw [fill, interpolate_eq beyond ht hsamples (hplace _ (by omega)), Option.bind_eq_bind,
        Option.bind_some, putAt_eq, Option.bind_eq_bind, Option.bind_some, hrest,
        List.range'_succ, List.map_cons, List.append_assoc]
      rfl

/-- All turns, on the zeroed buffer. -/
theorem fill_zero (beyond : Int → Int) (hf : 0 < f) (ht : 0 < t)
    (hsamples : ∀ a ∈ samples, -32768 ≤ a ∧ a ≤ 32767) :
    fill beyond samples f t (outLen f t samples.length) 0
        (List.replicate (2 * outLen f t samples.length) 0)
      = some (putSamples (resample f t samples)) := by
  have hall := fill_eq beyond ht hsamples (outLen f t samples.length) []
    fun i hi => place_lt hf (by simpa using hi)
  rw [List.length_nil, ← List.range_eq_range', List.nil_append] at hall
  exact hall

end

-- ============================================================================
-- The whole
-- ============================================================================

section

variable {pcm : Bytes} {fromRate toRate : Int64}

/-- The sizes for `n` samples fit: their product is an `int`, and their outputs can be
    allocated. -/
structure SizesFit (fromRate toRate : Int) (n : Nat) : Prop where
  product : n * toRate < 9223372036854775808
  outputs : 2 * (n * toRate / fromRate) ≤ Word.maxAlloc

/-- Fewer samples fit too. -/
theorem SizesFit.mono {f t : Int} {n m : Nat} (h : SizesFit f t n) (hf : 0 < f) (ht : 0 < t)
    (hle : m ≤ n) : SizesFit f t m := by
  have hproduct : (m : Int) * t ≤ n * t :=
    Int.mul_le_mul_of_nonneg_right (Int.ofNat_le.mpr hle) (Int.le_of_lt ht)
  have houtputs := Int.ediv_le_ediv hf hproduct
  have hlimit := h.outputs
  exact ⟨Int.lt_of_le_of_lt hproduct h.product, by omega⟩

/-- Where the sizes fit, they are the exact ones. -/
theorem outN_eq (hf : 0 < fromRate.toInt) (ht : 0 < toRate.toInt)
    (hfits : SizesFit fromRate.toInt toRate.toInt (pcm.length / 2)) :
    (Int64.ofNat (pcm.length / 2) * toRate / fromRate).toInt
        = outLen fromRate.toInt.toNat toRate.toInt.toNat (pcm.length / 2) ∧
      makeBytes (Int64.ofNat (pcm.length / 2) * toRate / fromRate * 2)
        = some (List.replicate
          (2 * outLen fromRate.toInt.toNat toRate.toInt.toNat (pcm.length / 2)) 0) := by
  have hproduct := hfits.product
  have hlimit := hfits.outputs
  have hnonneg : 0 ≤ (pcm.length / 2 : Nat) * toRate.toInt :=
    Int.mul_nonneg (by omega) (by omega)
  have hmul : Word.Fits ((pcm.length / 2 : Nat) * toRate.toInt) := ⟨by omega, hproduct⟩
  have hn : Word.Fits (pcm.length / 2 : Nat) := by
    refine ⟨by omega, Int.lt_of_le_of_lt ?_ hmul.2⟩
    have hle := Int.mul_le_mul_of_nonneg_left (show 1 ≤ toRate.toInt from ht)
      (Int.natCast_nonneg (pcm.length / 2))
    rwa [Int.mul_one] at hle
  have hword : (Int64.ofNat (pcm.length / 2) * toRate).toInt
      = (pcm.length / 2 : Nat) * toRate.toInt := by
    rw [Word.toInt_mul (by rw [Word.toInt_ofNat hn]; exact hmul), Word.toInt_ofNat hn]
  have hquotient : (Int64.ofNat (pcm.length / 2) * toRate / fromRate).toInt
      = (pcm.length / 2 : Nat) * toRate.toInt / fromRate.toInt := by
    rw [Word.toInt_div hf, hword]
    exact Int.tdiv_eq_ediv_of_nonneg hnonneg
  rw [← outLen_toNat hf ht] at hquotient hlimit
  have htwo : (2 : Int64).toInt = 2 := rfl
  have hmax : (Word.maxAlloc : Int) = 281474976710656 := rfl
  have htwice : (Int64.ofNat (pcm.length / 2) * toRate / fromRate * 2).toInt
      = (2 * outLen fromRate.toInt.toNat toRate.toInt.toNat (pcm.length / 2) : Nat) := by
    rw [Word.toInt_mul (by rw [hquotient, htwo]; exact ⟨by omega, by omega⟩), hquotient, htwo,
      Int.mul_comm]
    rfl
  refine ⟨hquotient, ?_⟩
  rw [makeBytes, Word.makeLen_eq htwice (by omega), Option.map_some]

/-- Where the sizes fit, no index is out of range and no int16 is left, whatever the
    platform does with such values: the loop gives what is in `resamplePCM16`. -/
theorem resampleLoop_eq (beyond : Int → Int) (hf : 0 < fromRate.toInt) (ht : 0 < toRate.toInt)
    (hfits : SizesFit fromRate.toInt toRate.toInt (pcm.length / 2)) :
    resampleLoop beyond pcm fromRate toRate
      = some (resamplePCM16 pcm fromRate.toInt toRate.toInt) := by
  obtain ⟨houtN, hmake⟩ := outN_eq hf ht hfits
  have hzero : (0 : Int64).toInt = 0 := rfl
  have hsame : fromRate = toRate ↔ fromRate.toInt = toRate.toInt := Int64.toInt_inj.symm
  rw [resampleLoop]
  split
  · rename_i hshort
    rw [resamplePCM16, if_pos hshort]
  · rename_i hlong
    simp only [Int64.le_iff_toInt_le, hzero, hsame]
    split
    · rename_i hcopy
      rw [resamplePCM16, if_neg hlong, if_pos hcopy]
    · have hlen : pcm.length / 2 = (pcmSamples pcm).length := (length_pcmSamples pcm).symm
      rw [resamplePCM16_eq hf ht]
      split
      · -- no output: neither is there one in the model
        rename_i hnone
        rw [hnone, hlen] at houtN
        have hempty : resample fromRate.toInt.toNat toRate.toInt.toNat (pcmSamples pcm) = [] := by
          apply List.eq_nil_of_length_eq_zero
          rw [length_resample]
          exact Int.ofNat_inj.mp houtN.symm
        rw [hempty]
        rfl
      · have hfill := fill_zero (f := fromRate.toInt.toNat) (t := toRate.toInt.toNat) beyond
          (by omega) (by omega) fun _ (ha : _ ∈ pcmSamples pcm) => pcmSamples_mem ha
        rw [← hlen] at hfill
        rw [hmake, houtN, Option.bind_eq_bind, Option.bind_some, Int.toNat_natCast]
        exact hfill

end

/-- **Resampling is safe and stays between its samples**: with sizes that fit it does
    not panic whatever the platform does beyond an int16, and its outputs are as many as
    the rates say and interpolated from the samples. -/
theorem resampleLoop_interpolates (pcm : Bytes) (fromRate toRate : Int64)
    (hf : 0 < fromRate.toInt) (ht : 0 < toRate.toInt)
    (hfits : SizesFit fromRate.toInt toRate.toInt (pcm.length / 2)) :
    ∃ out, (∀ beyond, resampleLoop beyond pcm fromRate toRate = some out) ∧
      (out.length : Int) = 2 * ((pcm.length / 2 : Nat) * toRate.toInt / fromRate.toInt) ∧
      (fromRate = toRate → out.length = 2 * (pcm.length / 2)) ∧
      Interpolates fromRate.toInt.toNat toRate.toInt.toNat (pcmSamples pcm) (pcmSamples out) := by
  refine ⟨resamplePCM16 pcm fromRate.toInt toRate.toInt, ?_, ?_, ?_, ?_⟩
  · exact fun beyond => resampleLoop_eq beyond hf ht hfits
  · rw [length_resamplePCM16 hf ht, Int.natCast_mul, outLen_toNat hf ht]
    rfl
  · rintro rfl
    rw [length_resamplePCM16 hf ht, outLen, Nat.mul_div_cancel _ (by omega)]
  · rw [resamplePCM16_eq hf ht, pcmSamples_putSamples (resample_mem ht pcm)]
    exact interpolates_resample (by omega) (by omega) _

/-- Three samples at half the rate again. -/
theorem resampleLoop_interpolates_double :
    ∃ out, (∀ beyond, resampleLoop beyond [0, 0, 10, 0, 20, 0] 8000 16000 = some out) ∧
      (out.length : Int) = 12 := by
  obtain ⟨out, hloop, hlen, -, -⟩ := resampleLoop_interpolates [0, 0, 10, 0, 20, 0] 8000 16000
    (by decide) (by decide) ⟨by decide, by decide⟩
  exact ⟨out, hloop, hlen⟩

/-- One sample at a rate of one, wanted at a rate one above 2^47: the product fits an
    `int`, but the output is too large to allocate. -/
theorem resampleLoop_too_large :
    0 < (1 : Int64).toInt ∧ 0 < (140737488355329 : Int64).toInt ∧
      ((List.length (α := UInt8) [1, 0] / 2 : Nat) : Int) * (140737488355329 : Int64).toInt
        < 9223372036854775808 ∧
      resampleLoop id [1, 0] 1 140737488355329 = none := by
  decide +kernel

end FsBridge.Providers
