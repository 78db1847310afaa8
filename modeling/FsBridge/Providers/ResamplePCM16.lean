/-
  FsBridge.Providers.ResamplePCM16

  Resampling of mono 16-bit PCM (`ResamplePCM16` and `ResampleBlockBytes`,
  providers/resample.go), with the float64 interpolation in exact arithmetic.

  A sample is the integer its two bytes stand for.  What is between two samples is
  a sample again, so nothing is lost when the outputs are stored, and statements
  about bytes are statements about samples.
-/

import FsBridge.Lib.Ascii
import FsBridge.Lib.Resample

namespace FsBridge.Providers

open FsBridge.Lib FsBridge.Lib.Resample

-- ============================================================================
-- Samples
-- ============================================================================

/-- `int16(lo) | int16(hi)<<8`. -/
def int16 (lo hi : UInt8) : Int :=
  let v : Int := lo.toNat + 256 * hi.toNat
  if v < 32768 then v else v - 65536

/-- The samples of little-endian PCM; an odd byte at the end is none. -/
def pcmSamples : Bytes → List Int
  | lo :: hi :: pcm => int16 lo hi :: pcmSamples pcm
  | _ => []

/-- The bytes of a sample: `byte(v)` and `byte(v >> 8)`. -/
def putSample (v : Int) : Bytes := [UInt8.ofInt v, UInt8.ofInt (v / 256)]

def putSamples (vs : List Int) : Bytes := vs.flatMap putSample

theorem int16_mem (lo hi : UInt8) : -32768 ≤ int16 lo hi ∧ int16 lo hi ≤ 32767 := by
  have hlo := lo.toNat_lt
  have hhi := hi.toNat_lt
  unfold int16
  dsimp only
  split <;> omega

theorem toNat_ofInt (v : Int) : ((UInt8.ofInt v).toNat : Int) = v % 256 := by
  have hmod := Int.emod_nonneg v (show (256 : Int) ≠ 0 by decide)
  have hlt := Int.emod_lt_of_pos v (show (0 : Int) < 256 by decide)
  rw [UInt8.ofInt, UInt8.toNat_ofNat']
  omega

theorem int16_putSample {v : Int} (h : -32768 ≤ v ∧ v ≤ 32767) :
    int16 (UInt8.ofInt v) (UInt8.ofInt (v / 256)) = v := by
  unfold int16
  rw [toNat_ofInt, toNat_ofInt]
  dsimp only
  split <;> omega

theorem pcmSamples_mem {pcm : Bytes} {v : Int} (h : v ∈ pcmSamples pcm) :
    -32768 ≤ v ∧ v ≤ 32767 := by
  induction pcm using pcmSamples.induct with
  | case1 lo hi pcm ih =>
      rw [pcmSamples] at h
      rcases List.mem_cons.mp h with h | h
      · rw [h]
        exact int16_mem lo hi
      · exact ih h
  | case2 pcm hshort =>
      rw [pcmSamples] at h
      · exact absurd h List.not_mem_nil
      · exact hshort

theorem length_pcmSamples (pcm : Bytes) : (pcmSamples pcm).length = pcm.length / 2 := by
  induction pcm using pcmSamples.induct with
  | case1 lo hi pcm ih =>
      rw [pcmSamples, List.length_cons, ih, List.length_cons, List.length_cons]
      omega
  | case2 pcm hshort =>
      rcases pcm with _ | ⟨lo, _ | ⟨hi, pcm⟩⟩
      · rfl
      · rw [pcmSamples]
        · show 0 = 1 / 2
          rfl
        · exact hshort
      · exact absurd rfl (hshort lo hi pcm)

/-- Whole samples can be taken off the front. -/
theorem pcmSamples_drop (pcm : Bytes) (k : Nat) :
    pcmSamples (pcm.drop (2 * k)) = (pcmSamples pcm).drop k := by
  induction k generalizing pcm with
  | zero => rfl
  | succ k ih =>
      rcases pcm with _ | ⟨lo, _ | ⟨hi, pcm⟩⟩
      · rfl
      · rfl
      · exact ih pcm

theorem pcmSamples_take (pcm : Bytes) (k : Nat) :
    pcmSamples (pcm.take (2 * k)) = (pcmSamples pcm).take k := by
  induction k generalizing pcm with
  | zero => rfl
  | succ k ih =>
      rcases pcm with _ | ⟨lo, _ | ⟨hi, pcm⟩⟩
      · rfl
      · rfl
      · exact congrArg (int16 lo hi :: ·) (ih pcm)

theorem length_putSamples (vs : List Int) : (putSamples vs).length = 2 * vs.length := by
  induction vs with
  | nil => rfl
  | cons v vs ih =>
      show (putSample v ++ putSamples vs).length = 2 * (vs.length + 1)
      rw [List.length_append, ih]
      show 2 + 2 * vs.length = _
      omega

theorem putSamples_append (vs vs' : List Int) :
    putSamples (vs ++ vs') = putSamples vs ++ putSamples vs' := List.flatMap_append

/-- Stored samples can be read back. -/
theorem pcmSamples_putSamples {vs : List Int} (h : ∀ v ∈ vs, -32768 ≤ v ∧ v ≤ 32767) :
    pcmSamples (putSamples vs) = vs := by
  induction vs with
  | nil => rfl
  | cons v vs ih =>
      rw [List.forall_mem_cons] at h
      show int16 _ _ :: pcmSamples (putSamples vs) = v :: vs
      rw [int16_putSample h.1, ih h.2]

/-- A sample is stored as the bytes it was read from. -/
theorem putSample_int16 (lo hi : UInt8) : putSample (int16 lo hi) = [lo, hi] := by
  have hlo := lo.toNat_lt
  have hhi := hi.toNat_lt
  have hbytes : int16 lo hi % 256 = lo.toNat ∧ int16 lo hi / 256 % 256 = hi.toNat := by
    unfold int16
    dsimp only
    split <;> omega
  have hfirst : UInt8.ofInt (int16 lo hi) = lo := by
    apply UInt8.toNat_inj.mp
    apply Int.ofNat_inj.mp
    rw [toNat_ofInt, hbytes.1]
  have hsecond : UInt8.ofInt (int16 lo hi / 256) = hi := by
    apply UInt8.toNat_inj.mp
    apply Int.ofNat_inj.mp
    rw [toNat_ofInt, hbytes.2]
  rw [putSample, hfirst, hsecond]

/-- The whole samples of PCM, stored again. -/
theorem putSamples_pcmSamples (pcm : Bytes) :
    putSamples (pcmSamples pcm) = pcm.take (pcm.length - pcm.length % 2) := by
  induction pcm using pcmSamples.induct with
  | case1 lo hi pcm ih =>
      have hlen : (lo :: hi :: pcm).length - (lo :: hi :: pcm).length % 2
          = pcm.length - pcm.length % 2 + 1 + 1 := by
        rw [List.length_cons, List.length_cons]
        omega
      rw [pcmSamples, hlen, List.take_succ_cons, List.take_succ_cons, ← ih]
      show putSample (int16 lo hi) ++ putSamples (pcmSamples pcm) = _
      rw [putSample_int16]
      rfl
  | case2 pcm hshort =>
      rcases pcm with _ | ⟨lo, _ | ⟨hi, pcm⟩⟩
      · rfl
      · rfl
      · exact absurd rfl (hshort lo hi pcm)

-- ============================================================================
-- ResamplePCM16
-- ============================================================================

/-- `ResamplePCM16`. -/
def resamplePCM16 (pcm : Bytes) (fromRate toRate : Int) : Bytes :=
  if pcm.length < 2 then []
  else if fromRate ≤ 0 ∨ toRate ≤ 0 ∨ fromRate = toRate then
    pcm.take (pcm.length - pcm.length % 2)
  else putSamples (resample fromRate.toNat toRate.toNat (pcmSamples pcm))

def gcd (a b : Nat) : Nat :=
  if b ≠ 0 then gcd b (a % b) else a
termination_by b
decreasing_by exact Nat.mod_lt a (Nat.pos_of_ne_zero ‹_›)

/-- `ResampleBlockBytes`. -/
def resampleBlockBytes (fromRate toRate : Int) : Nat :=
  if fromRate ≤ 0 ∨ toRate ≤ 0 then 2
  else 2 * fromRate.toNat / gcd fromRate.toNat toRate.toNat

theorem gcd_eq (a b : Nat) : gcd a b = a.gcd b := by
  rw [gcd]
  split
  · rename_i hb
    rw [gcd_eq b (a % b), Nat.gcd_comm a b, Nat.gcd_rec b a, Nat.gcd_comm]
  · rename_i hb
    rw [Classical.not_not.mp hb, Nat.gcd_zero_right]
termination_by b
decreasing_by exact Nat.mod_lt a (Nat.pos_of_ne_zero ‹_›)

section Rates

variable {f t : Int}

/-- A block is the bytes of `blockLen` samples. -/
theorem resampleBlockBytes_eq (hf : 0 < f) (ht : 0 < t) :
    resampleBlockBytes f t = 2 * blockLen f.toNat t.toNat := by
  rw [resampleBlockBytes, if_neg (by omega), gcd_eq, blockLen]
  exact Nat.mul_div_assoc 2 (Nat.gcd_dvd_left _ _)

/-- At equal rates too the outputs are what is stored. -/
theorem resamplePCM16_eq (hf : 0 < f) (ht : 0 < t) (pcm : Bytes) :
    resamplePCM16 pcm f t = putSamples (resample f.toNat t.toNat (pcmSamples pcm)) := by
  rw [resamplePCM16]
  split
  · rename_i hshort
    have hnil : pcmSamples pcm = [] := by
      apply List.eq_nil_of_length_eq_zero
      rw [length_pcmSamples]
      omega
    rw [hnil, resample, outLen, List.length_nil, Nat.zero_mul, Nat.zero_div]
    rfl
  · by_cases hsame : f = t
    · subst hsame
      rw [if_pos (.inr (.inr rfl)), resample_self (by omega), putSamples_pcmSamples]
    · rw [if_neg (by omega)]

theorem resample_mem (ht : 0 < t) (pcm : Bytes) :
    ∀ v ∈ resample f.toNat t.toNat (pcmSamples pcm), -32768 ≤ v ∧ v ≤ 32767 := by
  intro v hv
  obtain ⟨i, -, rfl⟩ := List.mem_map.mp hv
  exact outAt_mem (by omega) (by decide) (by decide) (fun _ h => pcmSamples_mem h) i

/-- Outputs that are stored as the same bytes are the same. -/
theorem putSamples_inj {vs vs' : List Int} (h : ∀ v ∈ vs, -32768 ≤ v ∧ v ≤ 32767)
    (h' : ∀ v ∈ vs', -32768 ≤ v ∧ v ≤ 32767) : putSamples vs = putSamples vs' ↔ vs = vs' := by
  constructor
  · intro heq
    rw [← pcmSamples_putSamples h, heq, pcmSamples_putSamples h']
  · exact congrArg putSamples

/-- A stream cut behind whole blocks: the first part is resampled as in the stream
    exactly when the cut joins, and the rest always is. -/
theorem resamplePCM16_cut_iff (hf : 0 < f) (ht : 0 < t) {pcm : Bytes} {k : Nat}
    (hk : 2 * k ≤ pcm.length) (hblock : blockLen f.toNat t.toNat ∣ k) (rest : Bytes) :
    resamplePCM16 (pcm.take (2 * k)) f t ++ rest = resamplePCM16 pcm f t ↔
      Joins f.toNat t.toNat (pcmSamples pcm) k ∧
        rest = resamplePCM16 (pcm.drop (2 * k)) f t := by
  have hf' : 0 < f.toNat := by omega
  have ht' : 0 < t.toNat := by omega
  have hlen : k ≤ (pcmSamples pcm).length := by
    rw [length_pcmSamples]
    omega
  rw [resamplePCM16_eq hf ht, resamplePCM16_eq hf ht, resamplePCM16_eq hf ht,
    pcmSamples_take, pcmSamples_drop, resample_split hf' ht' hlen hblock, putSamples_append,
    ← resample_take_eq_iff hf' ht' hlen hblock]
  have hsame : (putSamples (resample f.toNat t.toNat ((pcmSamples pcm).take k))).length
      = (putSamples ((List.range (outLen f.toNat t.toNat k)).map
          (outAt f.toNat t.toNat (pcmSamples pcm)))).length := by
    rw [length_putSamples, length_putSamples, length_resample, List.length_take,
      Nat.min_eq_left hlen, List.length_map, List.length_range]
  have hinj : putSamples (resample f.toNat t.toNat ((pcmSamples pcm).take k))
      = putSamples ((List.range (outLen f.toNat t.toNat k)).map
          (outAt f.toNat t.toNat (pcmSamples pcm)))
      ↔ resample f.toNat t.toNat ((pcmSamples pcm).take k)
        = (List.range (outLen f.toNat t.toNat k)).map (outAt f.toNat t.toNat (pcmSamples pcm)) := by
    refine putSamples_inj ?_ ?_
    · rw [← pcmSamples_take]
      exact resample_mem ht _
    · intro v hv
      obtain ⟨i, -, rfl⟩ := List.mem_map.mp hv
      exact outAt_mem ht' (by decide) (by decide) (fun _ h => pcmSamples_mem h) i
  rw [← hinj]
  constructor
  · intro h
    exact List.append_inj h hsame
  · rintro ⟨hfirst, hrest⟩
    rw [hfirst, hrest]

-- ============================================================================
-- Blocks
-- ============================================================================

theorem length_resamplePCM16 (hf : 0 < f) (ht : 0 < t) (pcm : Bytes) :
    (resamplePCM16 pcm f t).length = 2 * outLen f.toNat t.toNat (pcm.length / 2) := by
  rw [resamplePCM16_eq hf ht, length_putSamples, length_resample, length_pcmSamples]

/-- As many outputs as the rates say. -/
theorem outLen_toNat (hf : 0 < f) (ht : 0 < t) (n : Nat) :
    (outLen f.toNat t.toNat n : Int) = n * t / f := by
  rw [outLen, Int.natCast_ediv, Int.natCast_mul, Int.toNat_of_nonneg (Int.le_of_lt hf),
    Int.toNat_of_nonneg (Int.le_of_lt ht)]

/-- The bytes of whole blocks are those of as many samples. -/
theorem blockLen_dvd_of_bytes (hf : 0 < f) (ht : 0 < t) {block : Bytes}
    (h : resampleBlockBytes f t ∣ block.length) :
    block.length = 2 * (block.length / 2) ∧ blockLen f.toNat t.toNat ∣ block.length / 2 := by
  rw [resampleBlockBytes_eq hf ht] at h
  obtain ⟨k, hk⟩ := h
  rw [Nat.mul_assoc] at hk
  have hhalf : block.length / 2 = blockLen f.toNat t.toNat * k := by omega
  exact ⟨by omega, ⟨k, hhalf⟩⟩

/-- Where samples are left out, no output of whole blocks looks behind them. -/
theorem resamplePCM16_append (ht : 0 < t) (hdown : t < f) {block : Bytes}
    (h : resampleBlockBytes f t ∣ block.length) (rest : Bytes) :
    resamplePCM16 (block ++ rest) f t = resamplePCM16 block f t ++ resamplePCM16 rest f t := by
  have hf : 0 < f := Int.lt_trans ht hdown
  obtain ⟨heven, hdvd⟩ := blockLen_dvd_of_bytes hf ht h
  have hle : 2 * (block.length / 2) ≤ (block ++ rest).length := by
    rw [List.length_append]
    omega
  have hcut := resamplePCM16_cut_iff hf ht hle hdvd (resamplePCM16 rest f t)
  rw [← heven, List.take_left, List.drop_left] at hcut
  exact (hcut.mpr ⟨joins_of_down (by omega) (by omega) _ hdvd, rfl⟩).symm

/-- Blocks one after the other, where samples are left out. -/
theorem resamplePCM16_flatten (ht : 0 < t) (hdown : t < f) {blocks : List Bytes}
    (hblocks : ∀ block ∈ blocks, resampleBlockBytes f t ∣ block.length) :
    resamplePCM16 blocks.flatten f t = blocks.flatMap fun block => resamplePCM16 block f t := by
  induction blocks with
  | nil => rfl
  | cons block blocks ih =>
      rw [List.forall_mem_cons] at hblocks
      rw [List.flatten_cons, List.flatMap_cons, resamplePCM16_append ht hdown hblocks.1,
        ih hblocks.2]

end Rates

end FsBridge.Providers
