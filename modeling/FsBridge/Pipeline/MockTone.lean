/-
  FsBridge.Pipeline.MockTone

  The tone of `MockTTS` (pipeline/mock.go).  `Synthesize` starts a goroutine that cuts
  `total` samples into chunks of `frameSamples` and sends them on a channel of 64, which
  the consumer of the stream drains at its own pace.  `int`s are words of 64 bits.

  The context is not cancelled: the goroutine returns only where its loop ends.  That
  it does is a measure (`Machine.run_length_le`), four for each sample that is left;
  a frame without samples does not make it smaller.
-/

import Mathlib.Algebra.BigOperators.Group.List.Basic
import FsBridge.Lib.Machine
import FsBridge.Lib.Chan
import FsBridge.Lib.Word
import FsBridge.Bridge.QueryParams
import FsBridge.Providers.ResamplePCM16

namespace FsBridge.Pipeline.MockTone

open FsBridge.Lib
open FsBridge.Bridge.QueryParams (queryInt)
open FsBridge.Providers (putSample)

/-- `MockTTS`; `sample` is the sine at a position, as an int16. -/
structure MockTTS where
  sampleRate : Int64
  durationMs : Int64
  realtime : Bool
  sample : Int64 → Int

namespace MockTTS

def rate (t : MockTTS) : Int64 := if t.sampleRate = 0 then 16000 else t.sampleRate

def dur (t : MockTTS) : Int64 := if t.durationMs = 0 then 1000 else t.durationMs

/-- The samples of 20 ms. -/
def frameSamples (t : MockTTS) : Int64 := t.rate / 50

def total (t : MockTTS) : Int64 := t.rate * t.dur / 1000

/-- `n`: the samples of the chunk at `pos`. -/
def count (t : MockTTS) (pos : Int64) : Int64 :=
  if t.total < pos + t.frameSamples then t.total - pos else t.frameSamples

/-- `buf`; `none` if `make` panics. -/
def chunk (t : MockTTS) (pos : Int64) : Option Bytes :=
  (Word.makeLen (t.count pos * 2)).map fun _ =>
    (List.range (t.count pos).toInt.toNat).flatMap fun i =>
      putSample (t.sample (pos + Int64.ofNat i))

end MockTTS

/-- What `MockTTSFactory(durationMs)` makes for the sample rate of a session. -/
def mockTTSFactory (durationMs : Int64) (sample : Int64 → Int) (sampleRate : Int) : MockTTS :=
  ⟨Int64.ofInt sampleRate, durationMs, false, sample⟩

-- ============================================================================
-- The goroutine and its consumer
-- ============================================================================

/-- Where the goroutine is: at the test of its loop, behind it with a chunk to be paced
    or sent, or returned with the channel closed. -/
inductive Pc where
  | loop
  | pacing (buf : Bytes)
  | sending (buf : Bytes)
  | closed
  | panicked
deriving DecidableEq, Repr

structure State where
  pc : Pc
  pos : Int64
  out : Chan Bytes 64
  received : List Bytes
deriving DecidableEq, Repr

/-- The steps: a test of the loop, with the chunk behind it; the timer; the send; and a
    receive of the consumer. -/
inductive Act where
  | turn
  | tick
  | send
  | recv
deriving DecidableEq, Repr

def State.initial : State := ⟨.loop, 0, Chan.empty, []⟩

/-- The chunks that have been sent. -/
def State.emitted (s : State) : List Bytes := s.received ++ s.out.buf

/-- A chunk is paced first if it is sent in real time. -/
def MockTTS.next (t : MockTTS) (buf : Bytes) : Pc :=
  if t.realtime then .pacing buf else .sending buf

def step (t : MockTTS) (s : State) : Act → Option State
  | .turn =>
      match s.pc with
      | .loop =>
          if s.pos < t.total then
            match t.chunk s.pos with
            | none => some { s with pc := .panicked }
            | some buf => some { s with pc := t.next buf }
          else some { s with pc := .closed }
      | _ => none
  | .tick =>
      match s.pc with
      | .pacing buf => some { s with pc := .sending buf }
      | _ => none
  | .send =>
      match s.pc with
      | .sending buf =>
          match s.out.trySend buf with
          | none => none
          | some out => some { s with pc := .loop, pos := s.pos + t.frameSamples, out := out }
      | _ => none
  | .recv =>
      match s.out.tryRecv with
      | none => none
      | some (buf, out) => some { s with out := out, received := s.received ++ [buf] }

def machine (t : MockTTS) : Machine State Act := ⟨State.initial, step t⟩

/-- The whole tone is delivered, whatever the order of steps: the goroutine returns,
    since runs end and only a goroutine that has returned is not waited for; what it has
    sent then is the tone; and its chunks have samples, of 20 ms at most. -/
structure Delivers (t : MockTTS) : Prop where
  ends : ∃ n, ∀ as s, (machine t).run State.initial as = some s → as.length ≤ n
  goesOn : ∀ s, (machine t).Reachable s → s.pc = .closed ∨ ∃ a s', step t s a = some s'
  whole : ∀ s, (machine t).Reachable s → s.pc = .closed →
    (s.emitted.map List.length).sum = 2 * (t.rate.toInt * t.durationMs.toInt / 1000).toNat
  chunks : ∀ s, (machine t).Reachable s → ∀ c ∈ s.emitted,
    c ≠ [] ∧ 25 * (c.length : Int) ≤ t.rate.toInt

-- ============================================================================
-- One step
-- ============================================================================

/-- All that a step can do. -/
inductive Move (t : MockTTS) (s : State) : Act → State → Prop where
  | chunk (buf : Bytes) : s.pc = .loop → s.pos < t.total → t.chunk s.pos = some buf →
      Move t s .turn { s with pc := t.next buf }
  | panic : s.pc = .loop → s.pos < t.total → t.chunk s.pos = none →
      Move t s .turn { s with pc := .panicked }
  | close : s.pc = .loop → ¬ s.pos < t.total → Move t s .turn { s with pc := .closed }
  | tick (buf : Bytes) : s.pc = .pacing buf → Move t s .tick { s with pc := .sending buf }
  | send (buf : Bytes) (out : Chan Bytes 64) : s.pc = .sending buf →
      out.buf = s.out.buf ++ [buf] →
      Move t s .send { s with pc := .loop, pos := s.pos + t.frameSamples, out := out }
  | recv (buf : Bytes) (out : Chan Bytes 64) : s.out.buf = buf :: out.buf →
      Move t s .recv { s with out := out, received := s.received ++ [buf] }

theorem move_of_step {t : MockTTS} {s s' : State} {a : Act} (h : step t s a = some s') :
    Move t s a s' := by
  cases a with
  | turn =>
      rw [step.eq_def] at h
      dsimp only at h
      split at h
      · rename_i hpc
        split at h
        · rename_i hlt
          split at h
          · cases h
            exact .panic hpc hlt ‹_›
          · cases h
            exact .chunk _ hpc hlt ‹_›
        · cases h
          exact .close hpc ‹_›
      · exact nomatch h
  | tick =>
      rw [step.eq_def] at h
      dsimp only at h
      split at h
      · cases h
        exact .tick _ ‹_›
      · exact nomatch h
  | send =>
      rw [step.eq_def] at h
      dsimp only at h
      split at h
      · split at h
        · exact nomatch h
        · rename_i out hsend
          cases h
          exact .send _ out ‹_› (Chan.trySend_eq_some.mp hsend).2
      · exact nomatch h
  | recv =>
      rw [step.eq_def] at h
      dsimp only at h
      split at h
      · exact nomatch h
      · rename_i buf out hrecv
        cases h
        exact .recv buf out (Chan.tryRecv_eq_some.mp hrecv)

-- ============================================================================
-- Sizes
-- ============================================================================

section

variable {t : MockTTS}

/-- Where the product fits, neither of the sizes wraps. -/
theorem sizes_eq (hdur : 0 < t.durationMs.toInt)
    (hfits : Word.Fits (t.rate.toInt * t.durationMs.toInt)) :
    t.frameSamples.toInt = t.rate.toInt.tdiv 50 ∧
      t.total.toInt = (t.rate.toInt * t.durationMs.toInt).tdiv 1000 := by
  have hset : t.dur = t.durationMs := if_neg fun hzero => by
    rw [hzero] at hdur
    exact absurd hdur (by decide)
  constructor
  · exact Word.toInt_div (b := 50) (by decide)
  · rw [MockTTS.total, hset, Word.toInt_div (b := 1000) (by decide), Word.toInt_mul hfits]
    rfl

theorem tdiv_nonpos {x : Int} (h : x ≤ 0) : x.tdiv 1000 ≤ 0 := by
  have hflip := Int.tdiv_nonneg (show 0 ≤ -x by omega) (show (0 : Int) ≤ 1000 by decide)
  rw [Int.neg_tdiv] at hflip
  omega

/-- There are samples, and frames to send them in, which can be allocated. -/
structure Framed (t : MockTTS) : Prop where
  frame_pos : 0 < t.frameSamples.toInt
  frame_le : 50 * t.frameSamples.toInt ≤ t.rate.toInt
  total_pos : 0 < t.total.toInt
  total_le : 1000 * t.total.toInt ≤ 9223372036854775808
  alloc : 2 * t.frameSamples.toInt ≤ Word.maxAlloc ∨ 2 * t.total.toInt ≤ Word.maxAlloc

/-- The tone has a sample, and frames of 20 ms have none. -/
def MockTTS.TooSlow (t : MockTTS) : Prop :=
  0 < t.rate.toInt ∧ t.rate.toInt < 50 ∧ 1000 ≤ t.rate.toInt * t.durationMs.toInt

/-- Frames of 20 ms are too large to allocate, and the tone is no shorter. -/
def MockTTS.TooLarge (t : MockTTS) : Prop :=
  (Word.maxAlloc : Int) < 2 * (t.rate.toInt / 50) ∧
    (Word.maxAlloc : Int) < 2 * (t.rate.toInt * t.durationMs.toInt / 1000)

instance (t : MockTTS) : Decidable t.TooSlow := inferInstanceAs (Decidable (_ ∧ _))

instance (t : MockTTS) : Decidable t.TooLarge := inferInstanceAs (Decidable (_ ∧ _))

/-- Unless the rate is too small for its tone or too large for a chunk, there are no
    samples at all, or there are frames for them. -/
theorem framed_of_rate (hdur : 0 < t.durationMs.toInt)
    (hfits : Word.Fits (t.rate.toInt * t.durationMs.toInt)) (hslow : ¬ t.TooSlow)
    (hlarge : ¬ t.TooLarge) : t.total.toInt ≤ 0 ∨ Framed t := by
  obtain ⟨hframe, htotal⟩ := sizes_eq hdur hfits
  unfold MockTTS.TooSlow at hslow
  unfold MockTTS.TooLarge at hlarge
  by_cases hlong : 1000 ≤ t.rate.toInt * t.durationMs.toInt
  · have hrate : 0 < t.rate.toInt := Int.pos_of_mul_pos_left (by omega) hdur
    rw [Int.tdiv_eq_ediv_of_nonneg (by omega)] at hframe htotal
    have hle := hfits.2
    exact .inr ⟨by omega, by omega, by omega, by omega, by omega⟩
  · left
    rw [htotal]
    by_cases hnonneg : 0 ≤ t.rate.toInt * t.durationMs.toInt
    · rw [Int.tdiv_eq_ediv_of_nonneg hnonneg]
      omega
    · exact tdiv_nonpos (by omega)

/-- The samples of the tone, as the exact quotient. -/
theorem total_toNat (hdur : 0 < t.durationMs.toInt)
    (hfits : Word.Fits (t.rate.toInt * t.durationMs.toInt)) :
    t.total.toInt.toNat = (t.rate.toInt * t.durationMs.toInt / 1000).toNat := by
  rw [(sizes_eq hdur hfits).2]
  by_cases hnonneg : 0 ≤ t.rate.toInt * t.durationMs.toInt
  · rw [Int.tdiv_eq_ediv_of_nonneg hnonneg]
  · have hquotient := tdiv_nonpos (show t.rate.toInt * t.durationMs.toInt ≤ 0 by omega)
    omega

end

-- ============================================================================
-- The invariant
-- ============================================================================

/-- The bytes of the samples before `pos`. -/
def MockTTS.sentBytes (t : MockTTS) (pos : Int) : Nat :=
  2 * (if pos ≤ t.total.toInt then pos else t.total.toInt).toNat

/-- `buf` is the chunk at `pos`. -/
structure IsChunk (t : MockTTS) (pos : Int) (buf : Bytes) : Prop where
  before : pos < t.total.toInt
  nonempty : buf ≠ []
  short : 25 * (buf.length : Int) ≤ t.rate.toInt
  sent : t.sentBytes pos + buf.length = t.sentBytes (pos + t.frameSamples.toInt)

/-- What the goroutine knows where it is. -/
def AtPc (t : MockTTS) (pos : Int) : Pc → Prop
  | .loop => True
  | .pacing buf | .sending buf => IsChunk t pos buf
  | .closed => t.total.toInt ≤ pos
  | .panicked => False

structure Inv (t : MockTTS) (s : State) : Prop where
  nonneg : 0 ≤ s.pos.toInt
  reach : s.pos.toInt = 0 ∨ s.pos.toInt < t.total.toInt + t.frameSamples.toInt
  sent : (s.emitted.map List.length).sum = t.sentBytes s.pos.toInt
  chunks : ∀ c ∈ s.emitted, c ≠ [] ∧ 25 * (c.length : Int) ≤ t.rate.toInt
  at_pc : AtPc t s.pos.toInt s.pc

/-- What is left to do: four for each sample, and the way to the next test of the loop
    and the chunks that have not been received. -/
def Pc.phase : Pc → Nat
  | .loop => 3
  | .pacing _ => 2
  | .sending _ => 1
  | .closed | .panicked => 0

def MockTTS.left (t : MockTTS) (s : State) : Nat :=
  4 * (t.total.toInt - s.pos.toInt).toNat + s.pc.phase + s.out.buf.length

section

variable {t : MockTTS}

theorem inv_initial : Inv t State.initial := by
  refine ⟨Int.le_refl 0, .inl rfl, ?_, fun c hc => absurd hc List.not_mem_nil, trivial⟩
  show 0 = 2 * (if (0 : Int) ≤ t.total.toInt then 0 else t.total.toInt).toNat
  split <;> omega

theorem length_flatMap_putSample (f : Nat → Int) (n : Nat) :
    ((List.range n).flatMap fun i => putSample (f i)).length = 2 * n := by
  induction n with
  | zero => rfl
  | succ n ih =>
      rw [List.range_succ, List.flatMap_append, List.length_append, ih]
      rfl

/-- There is room for the position behind a chunk. -/
theorem next_toInt (hframed : Framed t) {pos : Int64} (hnonneg : 0 ≤ pos.toInt)
    (hlt : pos.toInt < t.total.toInt) :
    (pos + t.frameSamples).toInt = pos.toInt + t.frameSamples.toInt := by
  have hframe := hframed.frame_pos
  have hrate := hframed.frame_le
  have htotal := hframed.total_le
  have hword := (Word.fits_toInt t.rate).2
  exact Word.toInt_add ⟨by omega, by omega⟩

/-- A frame, or what is left of the tone. -/
theorem count_toInt (hframed : Framed t) {pos : Int64} (hnonneg : 0 ≤ pos.toInt)
    (hlt : pos.toInt < t.total.toInt) :
    (t.count pos).toInt =
      if t.total.toInt < pos.toInt + t.frameSamples.toInt then t.total.toInt - pos.toInt
      else t.frameSamples.toInt := by
  have htotal := hframed.total_le
  rw [MockTTS.count]
  simp only [Int64.lt_iff_toInt_lt, next_toInt hframed hnonneg hlt]
  split
  · exact Word.toInt_sub ⟨by omega, by omega⟩
  · rfl

/-- The chunk at a position of the tone: there is room to compute its size, and it takes
    the tone on to the next position, or to its end. -/
theorem chunk_eq (hframed : Framed t) {pos : Int64} (hnonneg : 0 ≤ pos.toInt)
    (hlt : pos.toInt < t.total.toInt) :
    ∃ buf, t.chunk pos = some buf ∧ IsChunk t pos.toInt buf := by
  have hframe := hframed.frame_pos
  have hrate := hframed.frame_le
  have hword := (Word.fits_toInt t.rate).2
  have hcount := count_toInt hframed hnonneg hlt
  have hbounds : 0 < (t.count pos).toInt ∧ (t.count pos).toInt ≤ t.frameSamples.toInt := by
    rw [hcount]
    split <;> omega
  have htwo : (2 : Int64).toInt = 2 := rfl
  have hsize : (t.count pos * 2).toInt = (t.count pos).toInt * 2 := by
    rw [Word.toInt_mul (by rw [htwo]; exact ⟨by omega, by omega⟩), htwo]
  have halloc : (t.count pos).toInt * 2 ≤ Word.maxAlloc := by
    rw [hcount]
    rcases hframed.alloc with hshort | hshort
    · split <;> omega
    · split <;> omega
  have hmake := Word.makeLen_eq (n := t.count pos * 2) (k := 2 * (t.count pos).toInt.toNat)
    (by rw [hsize]; omega) (by omega)
  have hlen := length_flatMap_putSample (fun i => t.sample (pos + Int64.ofNat i))
    (t.count pos).toInt.toNat
  refine ⟨_, by rw [MockTTS.chunk, hmake, Option.map_some], hlt, ?_, ?_, ?_⟩
  · intro hnil
    rw [hnil, List.length_nil] at hlen
    omega
  · rw [hlen]
    omega
  · rw [hlen, MockTTS.sentBytes, MockTTS.sentBytes, if_pos (by omega), hcount]
    split
    · rw [if_neg (by omega)]
      omega
    · rw [if_pos (by omega)]
      omega

/-- Steps that only move the goroutine on. -/
theorem Inv.goto {s : State} (h : Inv t s) (pc : Pc) (hat : AtPc t s.pos.toInt pc) :
    Inv t { s with pc := pc } := ⟨h.nonneg, h.reach, h.sent, h.chunks, hat⟩

theorem left_goto_lt {s : State} {pc : Pc} (h : pc.phase < s.pc.phase) :
    t.left { s with pc := pc } < t.left s :=
  Nat.add_lt_add_right (Nat.add_lt_add_left h _) _

theorem phase_next_lt (buf : Bytes) : (t.next buf).phase < 3 := by
  rw [MockTTS.next]
  split
  · exact Nat.le_refl 3
  · exact Nat.le_succ 2

/-- Every step keeps the invariant and leaves less to do. -/
theorem inv_step (hgood : t.total.toInt ≤ 0 ∨ Framed t) {s s' : State} {a : Act}
    (h : Inv t s) (hmove : Move t s a s') : Inv t s' ∧ t.left s' < t.left s := by
  have hnonneg := h.nonneg
  have hat := h.at_pc
  -- the loop is entered only where there are samples
  have hinside : s.pos.toInt < t.total.toInt → Framed t := fun hlt =>
    hgood.resolve_left (by omega)
  cases hmove with
  | chunk buf hpc hlt hchunk =>
      rw [Int64.lt_iff_toInt_lt] at hlt
      obtain ⟨buf', hsome, hbuf⟩ := chunk_eq (hinside hlt) hnonneg hlt
      obtain rfl : buf' = buf := Option.some.inj (hsome.symm.trans hchunk)
      have hnext : AtPc t s.pos.toInt (t.next buf') := by
        rw [MockTTS.next]
        split
        · exact hbuf
        · exact hbuf
      exact ⟨h.goto _ hnext, left_goto_lt (by rw [hpc]; exact phase_next_lt buf')⟩
  | panic hpc hlt hchunk =>
      rw [Int64.lt_iff_toInt_lt] at hlt
      obtain ⟨buf', hsome, -⟩ := chunk_eq (hinside hlt) hnonneg hlt
      rw [hchunk] at hsome
      exact nomatch hsome
  | close hpc hge =>
      rw [Int64.lt_iff_toInt_lt] at hge
      exact ⟨h.goto .closed (Int.not_lt.mp hge), left_goto_lt (by rw [hpc]; decide)⟩
  | tick buf hpc =>
      rw [hpc] at hat
      exact ⟨h.goto (.sending buf) hat, left_goto_lt (by rw [hpc]; exact Nat.lt_succ_self 1)⟩
  | send buf out hpc hout =>
      rw [hpc] at hat
      have hbuf : IsChunk t s.pos.toInt buf := hat
      have hframed := hinside hbuf.before
      have hlt := hbuf.before
      have hframe := hframed.frame_pos
      have hnext := next_toInt hframed hnonneg hlt
      have hemitted : s.received ++ out.buf = s.emitted ++ [buf] := by
        rw [hout, State.emitted, List.append_assoc]
      refine ⟨⟨?_, ?_, ?_, ?_, trivial⟩, ?_⟩
      · show 0 ≤ (s.pos + t.frameSamples).toInt
        omega
      · show (s.pos + t.frameSamples).toInt = 0 ∨ (s.pos + t.frameSamples).toInt < _
        omega
      · show ((s.received ++ out.buf).map List.length).sum = t.sentBytes _
        rw [hemitted, hnext, ← hbuf.sent, ← h.sent, List.map_append, List.sum_append,
          List.map_singleton, List.sum_singleton]
      · show ∀ c ∈ s.received ++ out.buf, _
        rw [hemitted]
        intro c hc
        rcases List.mem_append.mp hc with hc | hc
        · exact h.chunks c hc
        · rw [List.mem_singleton.mp hc]
          exact ⟨hbuf.nonempty, hbuf.short⟩
      · show 4 * (t.total.toInt - (s.pos + t.frameSamples).toInt).toNat + 3 + out.buf.length
          < 4 * _ + s.pc.phase + _
        rw [hpc, hnext, hout, List.length_append, List.length_singleton]
        show 4 * _ + 3 + _ < 4 * _ + 1 + _
        omega
  | recv buf out hout =>
      have hemitted : s.received ++ [buf] ++ out.buf = s.emitted := by
        rw [State.emitted, hout, List.append_assoc]
        rfl
      refine ⟨⟨hnonneg, h.reach, ?_, ?_, h.at_pc⟩, ?_⟩
      · show ((s.received ++ [buf] ++ out.buf).map List.length).sum = _
        rw [hemitted]
        exact h.sent
      · show ∀ c ∈ s.received ++ [buf] ++ out.buf, _
        rw [hemitted]
        exact h.chunks
      · refine Nat.add_lt_add_left ?_ _
        rw [hout, List.length_cons]
        exact Nat.lt_succ_self _

/-- A goroutine that has not returned is never stuck: where it cannot send, there is a
    chunk to receive. -/
theorem goesOn_of_inv {s : State} (h : Inv t s) :
    s.pc = .closed ∨ ∃ a s', step t s a = some s' := by
  have hat := h.at_pc
  cases hpc : s.pc with
  | loop =>
      refine .inr ⟨.turn, ?_⟩
      rw [step.eq_def]
      dsimp only
      rw [hpc]
      dsimp only
      split
      · cases t.chunk s.pos with
        | none => exact ⟨_, rfl⟩
        | some buf => exact ⟨_, rfl⟩
      · exact ⟨_, rfl⟩
  | pacing buf =>
      refine .inr ⟨.tick, { s with pc := .sending buf }, ?_⟩
      rw [step.eq_def]
      dsimp only
      rw [hpc]
  | sending buf =>
      right
      cases hsend : s.out.trySend buf with
      | some out =>
          refine ⟨.send, { s with pc := .loop, pos := s.pos + t.frameSamples, out := out }, ?_⟩
          rw [step.eq_def]
          dsimp only
          rw [hpc]
          dsimp only
          rw [hsend]
      | none =>
          -- the channel is full
          have hfull := Chan.trySend_eq_none.mp hsend
          cases hrecv : s.out.tryRecv with
          | none =>
              rw [Chan.tryRecv_eq_none.mp hrecv] at hfull
              exact absurd hfull (by decide)
          | some got =>
              refine ⟨.recv, { s with out := got.2, received := s.received ++ [got.1] }, ?_⟩
              rw [step.eq_def]
              dsimp only
              rw [hrecv]
  | closed => exact .inl rfl
  | panicked =>
      rw [hpc] at hat
      exact hat.elim

/-- A tone with frames, or without samples, is delivered. -/
theorem delivers_of_framed (hdur : 0 < t.durationMs.toInt)
    (hfits : Word.Fits (t.rate.toInt * t.durationMs.toInt))
    (hgood : t.total.toInt ≤ 0 ∨ Framed t) : Delivers t := by
  have hinv : ∀ s, (machine t).Reachable s → Inv t s := fun s h =>
    Machine.Reachable.invariant (I := Inv t) inv_initial
      (fun s a s' hI hstep => (inv_step hgood hI (move_of_step hstep)).1) h
  refine ⟨⟨t.left State.initial, fun as s hrun => ?_⟩, fun s hs => goesOn_of_inv (hinv s hs),
    fun s hs hpc => ?_, fun s hs => (hinv s hs).chunks⟩
  · have hle := Machine.run_length_le (I := Inv t) (m := t.left)
      (fun s a s' hI hstep => inv_step hgood hI (move_of_step hstep)) hrun inv_initial
    exact Nat.le_trans (Nat.le_add_right _ _) hle
  · have hI := hinv s hs
    have hend := hI.at_pc
    rw [hpc] at hend
    have hend' : t.total.toInt ≤ s.pos.toInt := hend
    rw [hI.sent, MockTTS.sentBytes, ← total_toNat hdur hfits]
    split
    · rw [Int.le_antisymm ‹_› hend']
    · rfl

-- ============================================================================
-- Frames without samples
-- ============================================================================

/-- The goroutine is at the start of its tone, and the channel is empty. -/
structure AtStart (s : State) : Prop where
  pc : s.pc = .loop
  pos : s.pos = 0
  out : s.out = Chan.empty

/-- One turn with an empty frame leads back to the start. -/
theorem cycle_of_empty_frame (hframe : t.frameSamples = 0) (htotal : 0 < t.total.toInt)
    {s : State} (h : AtStart s) :
    ∃ as s', as ≠ [] ∧ (machine t).run s as = some s' ∧ AtStart s' := by
  have hlt : (0 : Int64) < t.total := Int64.lt_iff_toInt_lt.mpr htotal
  have hcount : t.count 0 = 0 := by
    have hge : ¬ t.total < 0 := fun hno => by
      have := Int64.lt_iff_toInt_lt.mp hno
      have hzero : (0 : Int64).toInt = 0 := rfl
      omega
    rw [MockTTS.count, hframe, if_neg (by rw [show (0 : Int64) + 0 = 0 from rfl]; exact hge)]
  have hchunk : t.chunk 0 = some [] := by
    rw [MockTTS.chunk, hcount]
    rfl
  obtain ⟨pc, pos, out, received⟩ := s
  obtain ⟨rfl, rfl, rfl⟩ := h
  have hturn : (machine t).step ⟨.loop, 0, Chan.empty, received⟩ .turn
      = some ⟨t.next [], 0, Chan.empty, received⟩ := by
    show step t ⟨.loop, 0, Chan.empty, received⟩ .turn = _
    rw [step.eq_def]
    dsimp only
    rw [if_pos hlt, hchunk]
  have htick : (machine t).step ⟨.pacing [], 0, Chan.empty, received⟩ .tick
      = some ⟨.sending [], 0, Chan.empty, received⟩ := rfl
  have hsend : (machine t).step ⟨.sending [], 0, Chan.empty, received⟩ .send
      = some ⟨.loop, 0, ⟨[[]], by decide⟩, received⟩ := by
    show step t ⟨.sending [], 0, Chan.empty, received⟩ .send = _
    rw [step.eq_def]
    dsimp only
    rw [hframe]
    rfl
  have hrecv : (machine t).step ⟨.loop, 0, ⟨[[]], by decide⟩, received⟩ .recv
      = some ⟨.loop, 0, Chan.empty, received ++ [[]]⟩ := rfl
  cases hrealtime : t.realtime with
  | false =>
      have hnext : t.next [] = .sending [] := by
        rw [MockTTS.next, hrealtime]
        rfl
      rw [hnext] at hturn
      refine ⟨[.turn, .send, .recv], ⟨.loop, 0, Chan.empty, received ++ [[]]⟩, by decide, ?_,
        ⟨rfl, rfl, rfl⟩⟩
      rw [Machine.run_cons_of_step hturn, Machine.run_cons_of_step hsend,
        Machine.run_cons_of_step hrecv]
      rfl
  | true =>
      have hnext : t.next [] = .pacing [] := by
        rw [MockTTS.next, hrealtime]
        rfl
      rw [hnext] at hturn
      refine ⟨[.turn, .tick, .send, .recv], ⟨.loop, 0, Chan.empty, received ++ [[]]⟩, by decide, ?_,
        ⟨rfl, rfl, rfl⟩⟩
      rw [Machine.run_cons_of_step hturn, Machine.run_cons_of_step htick,
        Machine.run_cons_of_step hsend, Machine.run_cons_of_step hrecv]
      rfl

/-- Without samples in a frame the loop has no end. -/
theorem endless_of_empty_frame (hframe : t.frameSamples = 0) (htotal : 0 < t.total.toInt)
    (n : Nat) : ∃ as s, (machine t).run State.initial as = some s ∧ n ≤ as.length :=
  Machine.exists_run_of_cycle (P := AtStart)
    (fun _ h => cycle_of_empty_frame hframe htotal h) ⟨rfl, rfl, rfl⟩ n

theorem not_delivers_of_empty_frame (hframe : t.frameSamples = 0)
    (htotal : 0 < t.total.toInt) : ¬ Delivers t := by
  rintro ⟨⟨n, hn⟩, -, -, -⟩
  obtain ⟨as, s, hrun, hle⟩ := endless_of_empty_frame hframe htotal (n + 1)
  have := hn as s hrun
  omega

-- ============================================================================
-- Chunks too large to allocate
-- ============================================================================

/-- The first chunk panics, and the goroutine with it. -/
theorem not_delivers_of_too_large (hdur : 0 < t.durationMs.toInt)
    (hfits : Word.Fits (t.rate.toInt * t.durationMs.toInt)) (hlarge : t.TooLarge) :
    ¬ Delivers t := by
  obtain ⟨hframe, htotal⟩ := sizes_eq hdur hfits
  have hmax : (Word.maxAlloc : Int) = 281474976710656 := rfl
  obtain ⟨hlargeFrame, hlargeTotal⟩ := hlarge
  rw [Int.tdiv_eq_ediv_of_nonneg (by omega)] at hframe htotal
  have hle := hfits.2
  have hword := (Word.fits_toInt t.rate).2
  have hzero : (0 : Int64).toInt = 0 := rfl
  have hcount : (t.count 0).toInt = t.frameSamples.toInt ∨ (t.count 0).toInt = t.total.toInt := by
    rw [MockTTS.count]
    split
    · right
      rw [Word.toInt_sub (by rw [hzero]; exact ⟨by omega, by omega⟩), hzero, Int.sub_zero]
    · exact .inl rfl
  have htwo : (2 : Int64).toInt = 2 := rfl
  have hsize : (t.count 0 * 2).toInt = (t.count 0).toInt * 2 := by
    rw [Word.toInt_mul (by rw [htwo]; exact ⟨by omega, by omega⟩), htwo]
  have hchunk : t.chunk 0 = none := by
    rw [MockTTS.chunk, Word.makeLen_eq_none (by omega), Option.map_none]
  have hlt : (0 : Int64) < t.total := Int64.lt_iff_toInt_lt.mpr (by omega)
  have hturn : (machine t).run State.initial [.turn]
      = some ⟨.panicked, 0, Chan.empty, []⟩ := by
    refine (Machine.run_cons_of_step (M := machine t) ?_ []).trans rfl
    show step t ⟨.loop, 0, Chan.empty, []⟩ .turn = _
    rw [step.eq_def]
    dsimp only
    rw [if_pos hlt, hchunk]
  intro hdelivers
  rcases hdelivers.goesOn _ ⟨_, hturn⟩ with hclosed | ⟨a, s', hstep⟩
  · exact nomatch hclosed
  · -- there is nothing to receive either
    cases a with
    | turn | tick | send | recv => exact nomatch hstep

end

/-- **The tone is delivered exactly unless its rate is below 50 Hz and it has samples
    at that rate, or its chunks are too large to allocate.**  For every rate, also a
    negative one, and every duration. -/
theorem delivers_iff (t : MockTTS) (hdur : 0 < t.durationMs.toInt)
    (hfits : Word.Fits (t.rate.toInt * t.durationMs.toInt)) :
    Delivers t ↔ ¬ t.TooSlow ∧ ¬ t.TooLarge := by
  constructor
  · intro hdelivers
    refine ⟨?_, fun hlarge => not_delivers_of_too_large hdur hfits hlarge hdelivers⟩
    rintro ⟨hpos, hlow, hlong⟩
    obtain ⟨hframe, htotal⟩ := sizes_eq hdur hfits
    rw [Int.tdiv_eq_ediv_of_nonneg (by omega)] at hframe htotal
    have hempty : t.frameSamples = 0 := by
      apply Int64.toInt_inj.mp
      rw [hframe]
      show t.rate.toInt / 50 = 0
      omega
    exact not_delivers_of_empty_frame hempty (by omega) hdelivers
  · rintro ⟨hslow, hlarge⟩
    exact delivers_of_framed hdur hfits (framed_of_rate hdur hfits hslow hlarge)

/-- A session of 8 kHz, and one with a negative rate. -/
theorem delivers_iff_telephone :
    Delivers (mockTTSFactory 2000 (fun _ => 0) (queryInt (ascii "8000") 16000)) ∧
      Delivers (mockTTSFactory 2000 (fun _ => 0) (queryInt (ascii "-8000") 16000)) := by
  have hrate : queryInt (ascii "8000") 16000 = 8000 := by decide +kernel
  have hnegative : queryInt (ascii "-8000") 16000 = -8000 := by decide +kernel
  rw [hrate, hnegative]
  exact ⟨(delivers_iff (mockTTSFactory 2000 (fun _ => 0) 8000) (by decide) (by decide)).mpr
      (by decide),
    (delivers_iff (mockTTSFactory 2000 (fun _ => 0) (-8000)) (by decide) (by decide)).mpr
      (by decide)⟩

/-- A session that asks for a rate of 49: frames of 20 ms have no samples, and the
    goroutine sends empty chunks for ever. -/
theorem tone_49_endless :
    queryInt (ascii "49") 16000 = 49 ∧
      (∀ n, ∃ as s, (machine (mockTTSFactory 2000 (fun _ => 0) 49)).run State.initial as = some s ∧
        n ≤ as.length) ∧
      ¬ Delivers (mockTTSFactory 2000 (fun _ => 0) 49) := by
  have hrate : queryInt (ascii "49") 16000 = 49 := by decide +kernel
  have hframe : (mockTTSFactory 2000 (fun _ => 0) 49).frameSamples = 0 := by decide
  have htotal : 0 < (mockTTSFactory 2000 (fun _ => 0) 49).total.toInt := by decide
  exact ⟨hrate, endless_of_empty_frame hframe htotal,
    not_delivers_of_empty_frame hframe htotal⟩

end FsBridge.Pipeline.MockTone
