/-
  FsBridge.Bridge.RecordingAudio

  What is in an audio.wav: its sample data and channels, and the right channel
  that `finalizeWAV` makes of an agent track.

  The agent buffer is not cleared between blocks, so a byte past the end of the
  agent track is the one a block earlier (`heldByte`), not silence.
-/

import FsBridge.Bridge.Recorder
import Mathlib.Algebra.Group.Nat.Defs
import Mathlib.Data.List.GetD

namespace FsBridge.Bridge

open FsBridge.Lib FsBridge.Lib.Fs

variable {B : Type} [Octet B]

-- ============================================================================
-- Sample data and channels
-- ============================================================================

/-- A little-endian number of four bytes. -/
def getU32 : Bytes → Nat
  | b0 :: b1 :: b2 :: b3 :: _ => b0.toNat + 256 * b1.toNat + 65536 * b2.toNat + 16777216 * b3.toNat
  | _ => 0

/-- The sample data of a file with a header of 44 bytes: as many bytes as its data
    chunk says. -/
def sampleData (wav : List B) : Option (List B) :=
  let head := (wav.take 44).map Octet.toByte
  if head.take 4 = ascii "RIFF" ∧ (head.drop 36).take 4 = ascii "data" then
    some ((wav.drop 44).take (getU32 (head.drop 40)))
  else none

def leftChannel : List B → List B
  | l0 :: l1 :: _ :: _ :: s => l0 :: l1 :: leftChannel s
  | _ => []

def rightChannel : List B → List B
  | _ :: _ :: r0 :: r1 :: s => r0 :: r1 :: rightChannel s
  | _ => []

/-- A track cut or filled with silence to `n` bytes. -/
def padded (n : Nat) (track : List B) : List B :=
  track.take n ++ List.replicate (n - track.length) (Octet.ofByte 0)

theorem getU32_putU32 (v : UInt32) : getU32 (putU32 v) = v.toNat := by
  have hv := v.toNat_lt
  simp only [putU32, getU32, UInt32.toNat_toUInt8, UInt32.toNat_shiftRight, UInt32.reduceToNat,
    Nat.shiftRight_eq_div_pow, Nat.reduceMod, Nat.reducePow]
  omega

theorem length_writeWAVHeader (dataLen sampleRate : UInt32) :
    (writeWAVHeader dataLen sampleRate).length = 44 := rfl

/-- The data chunk of a file `finalizeWAV` writes is all that follows its header. -/
theorem sampleData_header (n : Nat) (sampleRate : UInt32) {data : List B}
    (hdata : data.length = n) (hn : n < 2 ^ 32) :
    sampleData (own (writeWAVHeader (UInt32.ofNat n) sampleRate) ++ data) = some data := by
  have hlen : (own (writeWAVHeader (UInt32.ofNat n) sampleRate) : List B).length = 44 := by
    rw [own, List.length_map, length_writeWAVHeader]
  have hvalues : (own (writeWAVHeader (UInt32.ofNat n) sampleRate) : List B).map Octet.toByte
      = writeWAVHeader (UInt32.ofNat n) sampleRate := by
    rw [own, List.map_map]
    have hid : (Octet.toByte ∘ (Octet.ofByte : UInt8 → B)) = id := funext Octet.toByte_ofByte
    rw [hid, List.map_id]
  have hriff : (writeWAVHeader (UInt32.ofNat n) sampleRate).take 4 = ascii "RIFF" := rfl
  have hchunk : ((writeWAVHeader (UInt32.ofNat n) sampleRate).drop 36).take 4 = ascii "data" :=
    rfl
  have hsize : (writeWAVHeader (UInt32.ofNat n) sampleRate).drop 40 = putU32 (UInt32.ofNat n) :=
    rfl
  have hn' : (UInt32.ofNat n).toNat = n := UInt32.toNat_ofNat_of_lt' hn
  rw [sampleData, List.take_left' hlen, List.drop_left' hlen, hvalues]
  rw [if_pos ⟨hriff, hchunk⟩, hsize, getU32_putU32, hn', ← hdata, List.take_length]

section Channels

variable {C : Type}

/-- Two tracks of the same even length are made of pairs of two bytes. -/
theorem tracks_induction {motive : List C → List C → Prop} (nil : motive [] [])
    (cons : ∀ c0 c1 cs a0 a1 as, motive cs as → motive (c0 :: c1 :: cs) (a0 :: a1 :: as))
    (cs as : List C) (hlen : cs.length = as.length) (heven : cs.length % 2 = 0) :
    motive cs as := by
  induction cs, as using interleave.induct with
  | case1 c0 c1 cs a0 a1 as ih =>
      rw [List.length_cons, List.length_cons] at hlen heven
      rw [List.length_cons, List.length_cons] at hlen
      exact cons c0 c1 cs a0 a1 as (ih (by omega) (by omega))
  | case2 cs as hno =>
      rcases cs with _ | ⟨c0, _ | ⟨c1, cs⟩⟩
      · rw [List.eq_nil_of_length_eq_zero hlen.symm]
        exact nil
      · exact absurd heven (by simp)
      · rcases as with _ | ⟨a0, _ | ⟨a1, as⟩⟩
        · exact absurd hlen (by simp)
        · rw [List.length_cons, List.length_cons] at hlen
          exact absurd hlen (by simp)
        · exact absurd rfl (hno c0 c1 cs a0 a1 as rfl)

theorem length_interleave (cs as : List C) (hlen : cs.length = as.length)
    (heven : cs.length % 2 = 0) : (interleave cs as).length = cs.length * 2 := by
  refine tracks_induction (motive := fun cs as => (interleave cs as).length = cs.length * 2)
    rfl ?_ cs as hlen heven
  intro c0 c1 cs a0 a1 as ih
  rw [interleave]
  simp only [List.length_cons, ih]
  omega

theorem leftChannel_interleave (cs as : List C) (hlen : cs.length = as.length)
    (heven : cs.length % 2 = 0) : leftChannel (interleave cs as) = cs := by
  refine tracks_induction (motive := fun cs as => leftChannel (interleave cs as) = cs)
    rfl ?_ cs as hlen heven
  intro c0 c1 cs a0 a1 as ih
  rw [interleave, leftChannel, ih]

theorem rightChannel_interleave (cs as : List C) (hlen : cs.length = as.length)
    (heven : cs.length % 2 = 0) : rightChannel (interleave cs as) = as := by
  refine tracks_induction (motive := fun cs as => rightChannel (interleave cs as) = as)
    rfl ?_ cs as hlen heven
  intro c0 c1 cs a0 a1 as ih
  rw [interleave, rightChannel, ih]

/-- Blocks of two tracks can be interleaved one after the other. -/
theorem interleave_append (cs as : List C) (hlen : cs.length = as.length)
    (heven : cs.length % 2 = 0) (cs' as' : List C) :
    interleave (cs ++ cs') (as ++ as') = interleave cs as ++ interleave cs' as' := by
  refine tracks_induction (motive := fun cs as =>
    interleave (cs ++ cs') (as ++ as') = interleave cs as ++ interleave cs' as')
    rfl ?_ cs as hlen heven
  intro c0 c1 cs a0 a1 as ih
  rw [interleave, List.cons_append, List.cons_append, List.cons_append, List.cons_append,
    interleave, ih]
  rfl

/-- An interleaved byte is a byte of one of the tracks. -/
theorem mem_interleave {cs as : List C} {c : C} (h : c ∈ interleave cs as) : c ∈ cs ∨ c ∈ as := by
  induction cs, as using interleave.induct with
  | case1 c0 c1 cs a0 a1 as ih =>
      rw [interleave] at h
      simp only [List.mem_cons] at h ⊢
      rcases h with h | h | h | h | h
      · exact .inl (.inl h)
      · exact .inl (.inr (.inl h))
      · exact .inr (.inl h)
      · exact .inr (.inr (.inl h))
      · rcases ih h with h | h
        · exact .inl (.inr (.inr h))
        · exact .inr (.inr (.inr h))
  | case2 cs as hno =>
      rw [interleave] at h
      · exact absurd h (by simp)
      · exact hno

end Channels

-- ============================================================================
-- The right channel
-- ============================================================================

/-- The byte of the right channel at `g`: past the end of the agent track what the
    buffer of `size` bytes still holds. -/
def heldByte (size : Nat) (agent : List B) (g : Nat) : B :=
  if g < agent.length then agent.getD g (Octet.ofByte 0)
  else if 0 < size ∧ size ≤ g then heldByte size agent (g - size)
  else Octet.ofByte 0
termination_by g
decreasing_by omega

/-- The right channel up to `n`. -/
def held (size : Nat) (agent : List B) (n : Nat) : List B :=
  (List.range n).map (heldByte size agent)

/-- What the buffer holds before the block with `g` is read. -/
def prevByte (size : Nat) (agent : List B) (g : Nat) : B :=
  if size ≤ g then heldByte size agent (g - size) else Octet.ofByte 0

theorem heldByte_eq {size : Nat} (hsize : 0 < size) (agent : List B) (g : Nat) :
    heldByte size agent g
      = if g < agent.length then agent.getD g (Octet.ofByte 0) else prevByte size agent g := by
  rw [heldByte, prevByte]
  simp only [hsize, true_and]

theorem held_add (size : Nat) (agent : List B) (q n : Nat) :
    held size agent (q + n)
      = held size agent q ++ (List.range n).map fun i => heldByte size agent (q + i) := by
  rw [held, held, List.range_add, List.map_append, List.map_map]
  rfl

/-- The buffer after a read at `q`: the bytes read, and what it held before. -/
theorem refill_eq {size : Nat} (hsize : 0 < size) (agent : List B) (q n : Nat) (hn : n ≤ size) :
    (((agent.drop q).take n) ++ ((List.range size).map fun i => prevByte size agent (q + i)).drop
        ((agent.drop q).take n).length).take n
      = (List.range n).map fun i => heldByte size agent (q + i) := by
  apply List.ext_getElem
  · simp only [List.length_take, List.length_append, List.length_drop, List.length_map,
      List.length_range]
    omega
  · intro i hi hi'
    rw [List.length_map, List.length_range] at hi'
    rw [List.getElem_map, List.getElem_range, List.getElem_take, heldByte_eq hsize]
    by_cases h : q + i < agent.length
    · have hread : i < ((agent.drop q).take n).length := by
        rw [List.length_take, List.length_drop]
        omega
      rw [if_pos h, List.getElem_append_left hread, List.getElem_take, List.getElem_drop,
        List.getD_eq_getElem _ _ h]
    · have hread : ((agent.drop q).take n).length ≤ i := by
        rw [List.length_take, List.length_drop]
        omega
      rw [if_neg h, List.getElem_append_right hread, List.getElem_drop, List.getElem_map,
        List.getElem_range]
      congr 1
      omega

/-- What a block later would repeat of the agent track is silence. -/
def RepeatsSilence (size : Nat) (agent : List B) (n : Nat) : Prop :=
  ∀ j, agent.length ≤ j + size → j + size < n →
    agent.getD j (Octet.ofByte 0) = Octet.ofByte 0

theorem padded_eq_map (n : Nat) (track : List B) :
    padded n track = (List.range n).map fun g => track.getD g (Octet.ofByte 0) := by
  apply List.ext_getElem
  · rw [padded, List.length_append, List.length_take, List.length_replicate, List.length_map,
      List.length_range]
    omega
  · intro g hg hg'
    rw [List.length_map, List.length_range] at hg'
    rw [List.getElem_map, List.getElem_range]
    by_cases h : g < track.length
    · have htake : g < (track.take n).length := by
        rw [List.length_take]
        omega
      rw [List.getD_eq_getElem _ _ h]
      simp only [padded]
      rw [List.getElem_append_left htake, List.getElem_take]
    · have htake : (track.take n).length ≤ g := by
        rw [List.length_take]
        omega
      rw [List.getD_eq_default _ _ (by omega)]
      simp only [padded]
      rw [List.getElem_append_right htake, List.getElem_replicate]

/-- The right channel is the padded agent track exactly when what would be
    repeated is silence. -/
theorem held_eq_padded_iff {size : Nat} (hsize : 0 < size) (agent : List B) (n : Nat) :
    held size agent n = padded n agent ↔ RepeatsSilence size agent n := by
  rw [held, padded_eq_map, List.map_inj_left]
  constructor
  · intro h j hj hjn
    have hg := h (j + size) (List.mem_range.mpr hjn)
    rw [heldByte, if_neg (by omega), if_pos ⟨hsize, by omega⟩, Nat.add_sub_cancel,
      List.getD_eq_default _ _ (by omega)] at hg
    by_cases hlt : j < agent.length
    · rw [heldByte, if_pos hlt] at hg
      exact hg
    · exact List.getD_eq_default _ _ (by omega)
  · intro h g hg
    rw [List.mem_range] at hg
    induction g using Nat.strongRecOn with
    | _ g ih =>
        rw [heldByte]
        by_cases hlt : g < agent.length
        · rw [if_pos hlt]
        · rw [if_neg hlt, List.getD_eq_default _ _ (by omega)]
          by_cases hback : 0 < size ∧ size ≤ g
          · rw [if_pos hback, ih (g - size) (by omega) (by omega)]
            exact h (g - size) (by omega) (by omega)
          · rw [if_neg hback]

end FsBridge.Bridge
