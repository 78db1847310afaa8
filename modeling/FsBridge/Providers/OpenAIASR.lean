/-
  FsBridge.Providers.OpenAIASR

  The audio `OpenAIASR.Write` appends to the API (providers/openai_asr.go): every
  chunk of the call is resampled on its own.

  Two things set a chunk off from the call.  One that starts where its first output lies
  has the outputs of the call up to its last sample; there it repeats it, where the call
  goes on to the next sample (`PieceJoins`).  One that does not (the chunks before it have
  an odd number of bytes, or have given fewer outputs than their share) has its outputs at
  other places than the call, and its samples must give the same values there (`Level`).
  Both are said of the samples that go in.
-/

import FsBridge.Providers.ResampleLoop

namespace FsBridge.Providers

open FsBridge.Lib FsBridge.Lib.Resample

def openAIRealtimeRate : Int := 24000

/-- `OpenAIASR.Write` with a session rate: the audio it appends, if any; `none` is a
    panic. -/
def OpenAIASR.write (beyond : Int → Int) (rate : Int64) (pcm : Bytes) : Option (List Bytes) :=
  let pcm :=
    if rate ≠ .ofInt openAIRealtimeRate then
      resampleLoop beyond pcm rate (.ofInt openAIRealtimeRate)
    else some pcm
  pcm.map fun pcm => if pcm.length = 0 then [] else [pcm]

/-- All audio appended for these chunks. -/
def OpenAIASR.appended (beyond : Int → Int) (rate : Int64) : List Bytes → Option Bytes
  | [] => some []
  | pcm :: chunks => do
      let audio ← write beyond rate pcm
      return audio.flatten ++ (← appended beyond rate chunks)

/-- What is appended is the resampled call. -/
def OpenAIASR.AppendsWhole (beyond : Int → Int) (rate : Int64) (chunks : List Bytes) : Prop :=
  ∃ audio, appended beyond rate chunks = some audio ∧
    resampleLoop beyond chunks.flatten rate (.ofInt openAIRealtimeRate) = some audio

/-- The outputs a chunk gives. -/
def outputs (rate : Int) (pcm : Bytes) : Nat :=
  outLen rate.toNat openAIRealtimeRate.toNat (pcm.length / 2)

/-- The chunk behind these starts at a sample of the call, and at the place of its
    first output. -/
def InPlace (rate : Int) (before : List Bytes) : Prop :=
  before.flatten.length % 2 = 0 ∧
    before.flatten.length / 2 * openAIRealtimeRate.toNat = (before.map (outputs rate)).sum * rate.toNat

/-- The samples `s` from sample `p / t` on to the next, and the samples `w` from sample
    `q / t` on, are at the same height at these places. -/
def SameHeight (t : Nat) (s : List Int) (p : Nat) (w : List Int) (q : Nat) : Prop :=
  let next (l : List Int) (j : Nat) : Int := if j + 1 < l.length then l.getD (j + 1) 0 else l.getD j 0
  between (s.getD (p / t) 0) (next s (p / t)) (p % t) t
    = between (w.getD (q / t) 0) (next w (q / t)) (q % t) t

/-- The samples of a chunk are, at the places of its outputs, as high as those of the call
    `w` at the places of as many outputs from number `first` on. -/
def Level (rate : Int) (w : List Int) (first : Nat) (pcm : Bytes) : Prop :=
  ∀ i, i < outputs rate pcm → SameHeight openAIRealtimeRate.toNat (pcmSamples pcm)
    (i * rate.toNat) w ((first + i) * rate.toNat)

/-- What the samples of the chunk `pcm` behind `before` must be in the call `w`. -/
structure Kept (rate : Int) (w : List Int) (before : List Bytes) (pcm : Bytes) : Prop where
  joins : InPlace rate before → PieceJoins rate.toNat openAIRealtimeRate.toNat w
    (before.flatten.length / 2) (pcm.length / 2)
  level : ¬ InPlace rate before → Level rate w (before.map (outputs rate)).sum pcm

-- ============================================================================
-- Exact resampling
-- ============================================================================

theorem resampleLoop_realtime (beyond : Int → Int) {rate : Int64} (hrate : 0 < rate.toInt)
    {pcm : Bytes} (hfits : SizesFit rate.toInt openAIRealtimeRate (pcm.length / 2)) :
    resampleLoop beyond pcm rate (.ofInt openAIRealtimeRate)
      = some (resamplePCM16 pcm rate.toInt openAIRealtimeRate) :=
  resampleLoop_eq beyond hrate (by decide) hfits

/-- Where the sizes fit, what is appended for the chunks is what exact resampling makes of
    them. -/
theorem appended_eq (beyond : Int → Int) {rate : Int64} (hrate : 0 < rate.toInt)
    (hne : rate.toInt ≠ openAIRealtimeRate) (chunks : List Bytes)
    (hfits : SizesFit rate.toInt openAIRealtimeRate (chunks.flatten.length / 2)) :
    OpenAIASR.appended beyond rate chunks
      = some (chunks.flatMap fun pcm => resamplePCM16 pcm rate.toInt openAIRealtimeRate) := by
  have hother : rate ≠ .ofInt openAIRealtimeRate := mt (congrArg Int64.toInt) hne
  induction chunks with
  | nil => rfl
  | cons pcm chunks ih =>
      rw [List.flatten_cons, List.length_append] at hfits
      have hfirst := resampleLoop_realtime beyond hrate
        (hfits.mono hrate (by decide) (show pcm.length / 2 ≤ _ by omega))
      have hrest := ih (hfits.mono hrate (by decide) (by omega))
      have hwrite : OpenAIASR.write beyond rate pcm
          = some (if (resamplePCM16 pcm rate.toInt openAIRealtimeRate).length = 0 then []
            else [resamplePCM16 pcm rate.toInt openAIRealtimeRate]) := by
        rw [OpenAIASR.write, if_pos hother, hfirst]
        rfl
      rw [OpenAIASR.appended, hwrite, hrest, List.flatMap_cons]
      show some _ = some _
      congr 2
      split
      · rename_i hnone
        exact (List.eq_nil_of_length_eq_zero hnone).symm
      · exact List.append_nil _

/-- What carrying the remainder of a block would give: a session of more than 24 kHz
    could then be cut anywhere. -/
theorem appendsWhole_of_blocks (beyond : Int → Int) {rate : Int64}
    (hdown : openAIRealtimeRate < rate.toInt) {chunks : List Bytes}
    (hblocks : ∀ pcm ∈ chunks, resampleBlockBytes rate.toInt openAIRealtimeRate ∣ pcm.length)
    (hfits : SizesFit rate.toInt openAIRealtimeRate (chunks.flatten.length / 2)) :
    OpenAIASR.AppendsWhole beyond rate chunks := by
  have hrate : 0 < rate.toInt := Int.lt_trans (by decide) hdown
  have hwhole := resampleLoop_realtime beyond hrate hfits
  refine ⟨_, appended_eq beyond hrate (Int.ne_of_lt hdown).symm chunks hfits, ?_⟩
  rw [hwhole]
  exact congrArg some (resamplePCM16_flatten (by decide) hdown hblocks)

end FsBridge.Providers
