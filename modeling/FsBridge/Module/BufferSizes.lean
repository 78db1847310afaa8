/-
  FsBridge.Module.BufferSizes

  The sizes of the three buffers of a stream, as `stream_data_init` computes them
  (module/ws_bridge_glue.cpp) from the rate argument of the start command, the number
  of channels and `STREAM_BUFFER_SIZE`.

  The size of `sbuffer` is a product of `int`s, which C++ leaves undefined where it
  overflows (`none`); the other two are products of `size_t`s, which wrap.
-/

import FsBridge.Module.ClientConfig

namespace FsBridge.Module.BufferSizes

open FsBridge.Lib
open FsBridge.Module.StreamUri (Start Mix startCommand samplingArg atoi parseMix)
open FsBridge.Module.ClientConfig (rtpPackets)

/-- The result of an `int` operation. -/
def int (x : Int) : Option Int :=
  if -2147483648 ≤ x ∧ x ≤ 2147483647 then some x else none

/-- A value converted to `size_t`. -/
def sizeT (x : Int) : Nat := (x % 18446744073709551616).toNat

/-- `FRAME_SIZE_8000`. -/
def frameSize8000 : Int := 320

/-- `MAX_PLAY_BUFFER_MS`. -/
def maxPlayBufferMs : Int := 10000

/-- `FRAME_SIZE_8000 * desiredSampling / 8000 * channels * rtp_packets`. -/
def buflen (desiredSampling channels rtp_packets : Int) : Option Nat := do
  let atRate ← int (frameSize8000 * desiredSampling)
  let mono ← int (atRate.tdiv 8000)
  let frame ← int (mono * channels)
  let frames ← int (frame * rtp_packets)
  return sizeT frames

/-- `(size_t)rate * 2 * channels * (MAX_PLAY_BUFFER_MS / 1000)`. -/
def playLen (rate channels : Int) : Nat :=
  sizeT (sizeT (sizeT (sizeT rate * 2) * sizeT channels) * sizeT (maxPlayBufferMs.tdiv 1000))

/-- The buffers of a stream. -/
structure Sizes where
  sbuffer : Nat
  play_buffer : Nat
  dl_stash : Nat
deriving DecidableEq, Repr

/-- The sizes `stream_data_init` makes the buffers with. -/
def streamSizes (desiredSampling : Int32) (channels : Nat) (rtp_packets : Int32) :
    Option Sizes := do
  let sbuffer ← buflen desiredSampling.toInt channels rtp_packets.toInt
  return ⟨sbuffer, playLen desiredSampling.toInt channels, playLen 48000 channels⟩

/-- A stream with a rate, and with buffers of the sizes that are meant. -/
structure Exact (rate channels packets : Int) (sizes : Option Sizes) : Prop where
  positive : 0 < rate
  sizes : ∃ s, sizes = some s ∧ (s.sbuffer : Int) = 320 * (rate / 8000) * channels * packets ∧
    (s.play_buffer : Int) = rate * 2 * channels * 10 ∧
    (s.dl_stash : Int) = 48000 * 2 * channels * 10

-- ============================================================================
-- What is let through
-- ============================================================================

theorem int_of_le {x : Int} (h : -2147483648 ≤ x) (h' : x ≤ 2147483647) : int x = some x :=
  if_pos ⟨h, h'⟩

theorem int_eq_some_iff {x y : Int} :
    int x = some y ↔ (-2147483648 ≤ x ∧ x ≤ 2147483647) ∧ x = y := by
  unfold int
  split
  · rename_i hfits
    exact ⟨fun h => ⟨hfits, Option.some.inj h⟩, fun h => congrArg some h.2⟩
  · rename_i hfits
    exact ⟨fun h => absurd h (by simp), fun h => absurd h.1 hfits⟩

theorem le_of_int {x y : Int} (h : int x = some y) : y = x ∧ x ≤ 2147483647 :=
  ⟨(int_eq_some_iff.mp h).2.symm, (int_eq_some_iff.mp h).1.2⟩

/-- As a `size_t` an `int` is a small number exactly when it is not negative. -/
theorem sizeT_le_iff {x : Int} (h : -2147483648 ≤ x) (h' : x ≤ 2147483647) :
    sizeT x ≤ 2147483647 ↔ 0 ≤ x := by
  unfold sizeT
  omega

theorem sizeT_eq_toNat {x : Int} (h : 0 ≤ x) (h' : x ≤ 2147483647) : sizeT x = x.toNat := by
  rw [sizeT, Int.emod_eq_of_lt h (by omega)]

theorem sizeT_of_nonneg {x : Int} (h : 0 ≤ x) (h' : x < 18446744073709551616) :
    (sizeT x : Int) = x := by
  rw [sizeT, Int.emod_eq_of_lt h h', Int.toNat_of_nonneg h]

/-- The one check of a rate. -/
theorem sampling_of_startCommand {url mix beyond : Bytes} {rate : Option Bytes} {start : Start}
    (h : startCommand url mix rate beyond = some start) :
    (8000 : Int) ∣ start.sampling.toInt := by
  unfold startCommand at h
  cases hmix : parseMix mix with
  | none =>
      rw [hmix] at h
      exact nomatch h
  | some m =>
      rw [hmix] at h
      dsimp only at h
      split at h
      · exact nomatch h
      · split at h
        · exact nomatch h
        · rename_i hrate
          cases h
          have hmod : (samplingArg rate).toInt.tmod 8000 = 0 := by
            have hzero := congrArg Int32.toInt (Classical.not_not.mp hrate)
            rw [Int32.toInt_mod] at hzero
            exact hzero
          exact Int.dvd_of_tmod_eq_zero hmod

/-- There is always a frame in the buffer. -/
theorem rtpPackets_pos (buffer_size : Option Bytes) : 0 < (rtpPackets buffer_size).toInt := by
  cases buffer_size with
  | none => decide
  | some value =>
      unfold rtpPackets
      dsimp only
      split
      · decide
      · split
        · rename_i hle
          have hle' : 20 ≤ (atoi value).toInt := Int32.le_iff_toInt_le.mp hle
          rw [Int32.toInt_div_of_ne_right _ _ (by decide)]
          show 0 < (atoi value).toInt.tdiv 20
          rw [Int.tdiv_eq_ediv_of_nonneg (by omega)]
          omega
        · decide

theorem channels_mem (mix : Mix) : mix.channels = 1 ∨ mix.channels = 2 := by
  cases mix with
  | mono => exact .inl rfl
  | mixed => exact .inl rfl
  | stereo => exact .inr rfl

-- ============================================================================
-- The sizes
-- ============================================================================

section

variable {k channels packets : Int}

/-- The frame at a rate of `k * 8000`. -/
theorem frame_tdiv (k : Int) : (frameSize8000 * (8000 * k)).tdiv 8000 = 320 * k := by
  rw [show frameSize8000 * (8000 * k) = 320 * k * 8000 by unfold frameSize8000; omega]
  exact Int.mul_tdiv_cancel _ (by decide)

/-- `sbuffer` for a rate of `k * 8000`: neither the frame at that rate nor the product
    of all may overflow. -/
theorem buflen_of_le (hk : 0 ≤ k) (hk' : k ≤ 838) (hchannels : channels = 1 ∨ channels = 2)
    (hpackets : 0 < packets) (hproduct : k * channels * packets ≤ 6710886) :
    ∃ n : Nat, buflen (8000 * k) channels packets = some n ∧
      (n : Int) = 320 * k * channels * packets := by
  have hframe : 0 ≤ 320 * k * channels ∧ 320 * k * channels ≤ 536320 := by
    rcases hchannels with rfl | rfl <;> omega
  have hall : 320 * k * channels * packets = 320 * (k * channels * packets) := by
    rw [Int.mul_assoc 320, Int.mul_assoc 320]
  have hnonneg : 0 ≤ 320 * k * channels * packets :=
    Int.mul_nonneg hframe.1 (Int.le_of_lt hpackets)
  refine ⟨sizeT (320 * k * channels * packets), ?_, sizeT_of_nonneg hnonneg (by omega)⟩
  rw [buflen, int_of_le (by unfold frameSize8000; omega) (by unfold frameSize8000; omega)]
  simp only [Option.bind_eq_bind, Option.bind_some]
  rw [frame_tdiv, int_of_le (by omega) (by omega), Option.bind_some,
    int_of_le (by omega) (by omega), Option.bind_some, int_of_le (by omega) (by omega)]
  rfl

theorem le_of_buflen {n : Nat} (h : buflen (8000 * k) channels packets = some n) :
    k ≤ 838 ∧ k * channels * packets ≤ 6710886 := by
  rw [buflen] at h
  simp only [Option.bind_eq_bind] at h
  obtain ⟨atRate, hatRate, h⟩ := Option.bind_eq_some_iff.mp h
  obtain ⟨mono, hmono, h⟩ := Option.bind_eq_some_iff.mp h
  obtain ⟨frame, hframe, h⟩ := Option.bind_eq_some_iff.mp h
  obtain ⟨frames, hframes, -⟩ := Option.bind_eq_some_iff.mp h
  obtain ⟨rfl, hrate⟩ := le_of_int hatRate
  obtain ⟨rfl, -⟩ := le_of_int hmono
  obtain ⟨rfl, -⟩ := le_of_int hframe
  obtain ⟨-, hle⟩ := le_of_int hframes
  rw [frame_tdiv, Int.mul_assoc 320, Int.mul_assoc 320] at hle
  unfold frameSize8000 at hrate
  omega

/-- The products of `size_t`s stay far below what would wrap. -/
theorem playLen_eq {rate : Int} (h : 0 ≤ rate) (h' : rate ≤ 2147483647)
    (hchannels : channels = 1 ∨ channels = 2) :
    (playLen rate channels : Int) = rate * 2 * channels * 10 := by
  have hten : (sizeT (maxPlayBufferMs.tdiv 1000) : Int) = 10 := rfl
  have hrate : (sizeT rate : Int) = rate := sizeT_of_nonneg h (by omega)
  have hchannels' : (sizeT channels : Int) = channels := by
    rcases hchannels with rfl | rfl <;> rfl
  have hdouble : (sizeT (sizeT rate * 2) : Int) = rate * 2 := by
    rw [hrate]
    exact sizeT_of_nonneg (by omega) (by omega)
  have hall : (sizeT (sizeT (sizeT rate * 2) * sizeT channels) : Int) = rate * 2 * channels := by
    rw [hdouble, hchannels']
    rcases hchannels with rfl | rfl <;> exact sizeT_of_nonneg (by omega) (by omega)
  rw [playLen, hall, hten]
  rcases hchannels with rfl | rfl <;> exact sizeT_of_nonneg (by omega) (by omega)

end

/-- **The sizes are exact exactly for rates that are positive and small enough**: the
    check of the start command leaves the multiples of 8000, and of these the positive
    ones are exact of which the frames fit an `int`. -/
theorem streamSizes_exact_iff {url mix beyond : Bytes} {rate : Option Bytes} {start : Start}
    (h : startCommand url mix rate beyond = some start) (buffer_size : Option Bytes) :
    Exact start.sampling.toInt start.mix.channels (rtpPackets buffer_size).toInt
        (streamSizes start.sampling start.mix.channels (rtpPackets buffer_size)) ↔
      0 < start.sampling.toInt ∧ start.sampling.toInt ≤ 6704000 ∧
        start.sampling.toInt / 8000 * start.mix.channels * (rtpPackets buffer_size).toInt
          ≤ 6710886 := by
  obtain ⟨k, hk⟩ := sampling_of_startCommand h
  have hpackets := rtpPackets_pos buffer_size
  have hchannels : (start.mix.channels : Int) = 1 ∨ (start.mix.channels : Int) = 2 := by
    have hmem := channels_mem start.mix
    omega
  have hdiv : start.sampling.toInt / 8000 = k := by
    rw [hk]
    exact Int.mul_ediv_cancel_left k (by decide)
  rw [hdiv]
  constructor
  · rintro ⟨hpos, s, hsome, -⟩
    rw [streamSizes] at hsome
    obtain ⟨n, hn, -⟩ := Option.bind_eq_some_iff.mp hsome
    rw [hk] at hn
    obtain ⟨hrate, hproduct⟩ := le_of_buflen hn
    exact ⟨hpos, by omega, hproduct⟩
  · rintro ⟨hpos, hrate, hproduct⟩
    obtain ⟨n, hn, hexact⟩ := buflen_of_le (k := k) (by omega) (by omega) hchannels hpackets
      hproduct
    rw [← hk] at hn
    refine ⟨hpos, ⟨n, playLen start.sampling.toInt start.mix.channels,
      playLen 48000 start.mix.channels⟩, ?_, ?_, ?_, ?_⟩
    · rw [streamSizes, hn]
      rfl
    · rw [hdiv]
      exact hexact
    · exact playLen_eq (by omega) (by omega) hchannels
    · exact playLen_eq (by decide) (by decide) hchannels

/-- A rate of 16 kHz, stereo, in buffers of 100 ms. -/
theorem streamSizes_exact_stereo :
    Exact 16000 2 5 (streamSizes 16000 2 5) := by
  have hstart : startCommand (ascii "ws://h") (ascii "stereo") (some (ascii "16k")) []
      = some ⟨ascii "ws://h", .stereo, 16000⟩ := by decide +kernel
  have hpackets : rtpPackets (some (ascii "100")) = 5 := by decide +kernel
  have hexact := (streamSizes_exact_iff hstart (some (ascii "100"))).mpr (by
    rw [hpackets]
    decide)
  rw [hpackets] at hexact
  exact hexact

/-- A rate that is no number is let through as zero. -/
theorem streamSizes_zero_rate :
    startCommand (ascii "ws://h") (ascii "mono") (some (ascii "abc")) []
        = some ⟨ascii "ws://h", .mono, 0⟩ ∧
      streamSizes 0 Mix.mono.channels (rtpPackets none) = some ⟨0, 0, 960000⟩ ∧
      ¬ Exact (0 : Int32).toInt Mix.mono.channels (rtpPackets none).toInt
        (streamSizes 0 Mix.mono.channels (rtpPackets none)) := by
  have hstart : startCommand (ascii "ws://h") (ascii "mono") (some (ascii "abc")) []
      = some ⟨ascii "ws://h", .mono, 0⟩ := by decide +kernel
  exact ⟨hstart, by decide, fun h => absurd h.positive (by decide)⟩

end FsBridge.Module.BufferSizes
