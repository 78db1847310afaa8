/-
  FsBridge.Bridge.RecordingFaults

  What `Finish` leaves of a recording where operations of `finalizeWAV` fail
  (bridge/recorder.go).

  Any set of its operations may fail.  A read or a write that fails stops after some
  bytes, and those have been read or written.  `os.Remove` takes a raw track away, and
  the other files of the bundle are not followed.  Without failures it is the
  `finalizeWAV` of `Recorder` (`run_finalizeWAV_content`).
-/

import FsBridge.Bridge.RecordingContent

namespace FsBridge.Bridge.RecordingFaults

open FsBridge.Lib FsBridge.Lib.Fs

variable {B : Type} [Octet B]

-- ============================================================================
-- Finish, where operations fail
-- ============================================================================

/-- Which operations fail: of the reads and writes after how many bytes, and those of
    the loop by their block. -/
structure Faults where
  openCaller : Bool
  openAgent : Bool
  create : Bool
  header : Option Nat
  callerRead : Nat → Option Nat
  agentRead : Nat → Option Nat
  write : Nat → Option Nat

/-- Nothing fails. -/
def Faults.none : Faults :=
  ⟨false, false, false, .none, fun _ => .none, fun _ => .none, fun _ => .none⟩

/-- The files of the bundle that `finalizeWAV` and `Finish` touch. -/
structure Files (B : Type) where
  callerRaw : Option (List B)
  agentRaw : Option (List B)
  audioWav : Option (List B)

/-- What is read or written of `bytes`. -/
def limited (limit : Option Nat) (bytes : List B) : List B :=
  match limit with
  | .none => bytes
  | some k => bytes.take k

/-- `os.Open`. -/
def opened (fails : Bool) (file : Option (List B)) : Option (List B) :=
  if fails then none else file

/-- The loop of `finalizeWAV` at block `i`, over blocks of `size` bytes: the tracks from
    where they are read next, and what audio.wav holds so far.  `false`: it returns an
    error. -/
def wavLoop (size : Nat) (f : Faults) :
    Nat → Nat → List B → List B → List B → Nat → List B → Bool × List B
  | 0, _, _, _, _, _, out => (true, out)
  | fuel + 1, i, caller, agent, abuf, remaining, out =>
      let n := min size remaining / 2 * 2
      if n = 0 then (true, out)
      else
        let cbuf := limited (f.callerRead i) (caller.take n)
        if cbuf.length < n then (false, out)
        else
          -- the error of the agent's read is ignored, as the end of its file is
          let read := limited (f.agentRead i) (agent.take n)
          let abuf := read ++ abuf.drop read.length
          let ibuf := interleave cbuf (abuf.take n)
          let written := limited (f.write i) ibuf
          if written.length < ibuf.length then (false, out ++ written)
          else
            wavLoop size f fuel (i + 1) (caller.drop n) (agent.drop read.length) abuf
              (remaining - n) (out ++ written)

/-- The header of the recording of a session. -/
def wavHeader (rate : Int) (callerBytes : Nat) : List B :=
  own (writeWAVHeader (UInt32.ofNat (callerBytes * 2)) (UInt32.ofInt rate))

/-- `finalizeWAV`. -/
def finalizeWAV (f : Faults) (rate : Int) (callerBytes : Nat) (d : Files B) : Bool × Files B :=
  match opened f.openCaller d.callerRaw with
  | none => (false, d)
  | some caller =>
      match opened f.openAgent d.agentRaw with
      | none => (false, d)
      | some agent =>
          if f.create then (false, d)
          else
            let header := wavHeader rate callerBytes
            let written := limited f.header header
            if written.length < header.length then (false, { d with audioWav := some written })
            else
              let r := wavLoop blockSize f callerBytes 0 caller agent
                (List.replicate blockSize (Octet.ofByte 0)) callerBytes written
              (r.1, { d with audioWav := some r.2 })

/-- `Finish`, on these files: the raw tracks go whatever `finalizeWAV` returns. -/
def finish (f : Faults) (rate : Int) (callerBytes : Nat) (d : Files B) : Files B :=
  { (finalizeWAV f rate callerBytes d).2 with callerRaw := none, agentRaw := none }

-- ============================================================================
-- The property and its condition
-- ============================================================================

/-- The bytes of a track that are samples. -/
def samples (up : List B) : Nat := up.length / 2 * 2

/-- audio.wav holds the recording: its header, and the caller's track interleaved with a
    right channel that has the bytes of the agent's track, up to the caller's length. -/
def Complete (rate : Int) (up down wav : List B) : Prop :=
  ∃ right : List B, right.length = samples up ∧
    wav = wavHeader rate up.length ++ interleave (up.take (samples up)) right ∧
    ∀ g < samples up, g < down.length →
      right.getD g (Octet.ofByte 0) = down.getD g (Octet.ofByte 0)

/-- The recording is not lost. -/
def Kept (rate : Int) (up down : List B) (d : Files B) : Prop :=
  (∃ wav, d.audioWav = some wav ∧ Complete rate up down wav) ∨
    d.callerRaw = some up ∧ d.agentRaw = some down

/-- A recording at its Finish, with what an earlier one has left as audio.wav. -/
def recorded (up down : List B) (old : Option (List B)) : Files B := ⟨some up, some down, old⟩

/-- How much a read of a block gives, with `rest` bytes to the end of the file. -/
def readLength (size : Nat) (limit : Option Nat) (rest : Nat) : Nat :=
  min (limit.getD size) (min size rest)

/-- Where the agent's track, of `length` bytes, is read next at block `i`. -/
def offset (size : Nat) (limits : Nat → Option Nat) (length : Nat) : Nat → Nat
  | 0 => 0
  | i + 1 =>
      let start := offset size limits length i
      start + readLength size (limits i) (length - start)

/-- How much of it is read then. -/
def delivered (size : Nat) (limits : Nat → Option Nat) (length i : Nat) : Nat :=
  readLength size (limits i) (length - offset size limits length i)

/-- How far behind its place byte `p` of block `i` of the right channel is taken from the
    agent's track: as far as the reads before have stopped short; behind a read that has
    itself stopped short, a block more than at the block before.  `none`: from nowhere. -/
def lag (size : Nat) (limits : Nat → Option Nat) (length : Nat) : Nat → Nat → Option Nat
  | 0, p => if p < delivered size limits length 0 then some 0 else none
  | i + 1, p =>
      if p < delivered size limits length (i + 1) then
        some ((i + 1) * size - offset size limits length (i + 1))
      else (lag size limits length i p).map (size + ·)

/-- The reads of the agent's track that stop short do no harm: where a byte of it, up to
    the caller's length, is taken from somewhere else, it is the same there, and where it is
    taken from nowhere it is silence. -/
def Harmless (size : Nat) (limits : Nat → Option Nat) (up down : List B) : Prop :=
  ∀ g < samples up, g < down.length →
    match lag size limits down.length (g / size) (g % size) with
    | some l => l = 0 ∨ down.getD (g - l) (Octet.ofByte 0) = down.getD g (Octet.ofByte 0)
    | none => down.getD g (Octet.ofByte 0) = Octet.ofByte 0

/-- A limit leaves `n` bytes. -/
def Allows (limit : Option Nat) (n : Nat) : Prop := ∀ k ∈ limit, n ≤ k

/-- The bytes of block `i` of the loop. -/
def blockLength (size : Nat) (up : List B) (i : Nat) : Nat := min size (samples up - i * size)

/-- No caller read and no write of block `i` fails. -/
def BlockDone (size : Nat) (f : Faults) (up : List B) (i : Nat) : Prop :=
  Allows (f.callerRead i) (blockLength size up i) ∧
    Allows (f.write i) (blockLength size up i * 2)

/-- The condition. -/
def Spared (f : Faults) (rate : Int) (up down : List B) (old : Option (List B)) : Prop :=
  if f.openCaller ∨ f.openAgent ∨ f.create then ∃ wav, old = some wav ∧ Complete rate up down wav
  else
    Allows f.header 44 ∧ (∀ i, i * blockSize < samples up → BlockDone blockSize f up i) ∧
      Harmless blockSize f.agentRead up down

-- ============================================================================
-- Reads and writes
-- ============================================================================

section Limits

omit [Octet B]

theorem allows_none (n : Nat) : Allows none n := fun _ hk => (Option.some_ne_none _ hk.symm).elim

theorem allows_some {k n : Nat} : Allows (some k) n ↔ n ≤ k :=
  ⟨fun h => h k rfl, fun h _ hk => Option.some.inj hk ▸ h⟩

theorem limited_of_allows {limit : Option Nat} {bytes : List B} (h : Allows limit bytes.length) :
    limited limit bytes = bytes := by
  cases limit with
  | none => rfl
  | some k => exact List.take_of_length_le (allows_some.mp h)

theorem length_limited_lt (limit : Option Nat) (bytes : List B) (h : ¬ Allows limit bytes.length) :
    (limited limit bytes).length < bytes.length := by
  cases limit with
  | none => exact absurd (allows_none _) h
  | some k =>
      rw [allows_some] at h
      rw [limited, List.length_take]
      omega

/-- A read that takes what it can of a block of `n` bytes. -/
theorem limited_take (limit : Option Nat) (size n : Nat) (hn : n ≤ size) (rest : List B) :
    limited limit (rest.take n) = rest.take (min n (readLength size limit rest.length)) := by
  cases limit with
  | none =>
      rw [limited, readLength, Option.getD_none, List.take_eq_take_iff]
      omega
  | some k =>
      rw [limited, readLength, Option.getD_some, List.take_take, List.take_eq_take_iff]
      omega

end Limits

-- ============================================================================
-- The agent's buffer
-- ============================================================================

/-- Byte `p` of the agent's buffer at block `i`: where the read has stopped before it,
    the byte of the block before is still there. -/
def bufferByte (size : Nat) (limits : Nat → Option Nat) (down : List B) : Nat → Nat → B
  | 0, p =>
      if p < delivered size limits down.length 0 then down.getD p (Octet.ofByte 0)
      else Octet.ofByte 0
  | i + 1, p =>
      if p < delivered size limits down.length (i + 1) then
        down.getD (offset size limits down.length (i + 1) + p) (Octet.ofByte 0)
      else bufferByte size limits down i p

/-- Byte `g` of what the reads make of the agent's track. -/
def heard (size : Nat) (limits : Nat → Option Nat) (down : List B) (g : Nat) : B :=
  bufferByte size limits down (g / size) (g % size)

/-- What the agent's buffer holds before block `i` is read. -/
def staleByte (size : Nat) (limits : Nat → Option Nat) (down : List B) : Nat → Nat → B
  | 0, _ => Octet.ofByte 0
  | i + 1, p => bufferByte size limits down i p

theorem bufferByte_eq (size : Nat) (limits : Nat → Option Nat) (down : List B) (i p : Nat) :
    bufferByte size limits down i p =
      if p < delivered size limits down.length i then
        down.getD (offset size limits down.length i + p) (Octet.ofByte 0)
      else staleByte size limits down i p := by
  cases i with
  | zero => rw [bufferByte, offset, Nat.zero_add, staleByte]
  | succ i => rw [bufferByte, staleByte]

omit [Octet B] in
theorem offset_le (size : Nat) (limits : Nat → Option Nat) (length i : Nat) :
    offset size limits length i ≤ i * size := by
  induction i with
  | zero => exact Nat.zero_le _
  | succ i ih =>
      rw [offset, readLength, Nat.succ_mul]
      omega

/-- A byte of the buffer is the one of the track that lies the lag behind. -/
theorem bufferByte_eq_lag (size : Nat) (limits : Nat → Option Nat) (down : List B) (i p : Nat) :
    bufferByte size limits down i p =
      match lag size limits down.length i p with
      | some l => down.getD (i * size + p - l) (Octet.ofByte 0)
      | none => Octet.ofByte 0 := by
  induction i with
  | zero =>
      rw [bufferByte, lag]
      split
      · dsimp only
        rw [Nat.zero_mul, Nat.zero_add, Nat.sub_zero]
      · rfl
  | succ i ih =>
      have hle := offset_le size limits down.length (i + 1)
      rw [bufferByte, lag]
      split
      · have hplace : (i + 1) * size + p - ((i + 1) * size - offset size limits down.length (i + 1))
            = offset size limits down.length (i + 1) + p := by omega
        dsimp only
        rw [hplace]
      · rw [ih]
        cases lag size limits down.length i p with
        | none => rfl
        | some l =>
            have hplace : (i + 1) * size + p - (size + l) = i * size + p - l := by
              rw [Nat.succ_mul]
              omega
            show _ = down.getD ((i + 1) * size + p - (size + l)) (Octet.ofByte 0)
            rw [hplace]

/-- The reads do no harm exactly when every byte of the agent's track is heard where it
    belongs. -/
theorem harmless_iff (size : Nat) (limits : Nat → Option Nat) (up down : List B) :
    Harmless size limits up down ↔ ∀ g < samples up, g < down.length →
      heard size limits down g = down.getD g (Octet.ofByte 0) := by
  refine forall_congr' fun g => forall_congr' fun _ => forall_congr' fun _ => ?_
  rw [heard, bufferByte_eq_lag, Nat.div_add_mod']
  cases lag size limits down.length (g / size) (g % size) with
  | none => exact eq_comm
  | some l =>
      refine ⟨?_, .inr⟩
      rintro (rfl | hsame)
      · rfl
      · exact hsame

/-- The buffer after the read of `n` bytes at block `i`. -/
theorem refill (size : Nat) (limits : Nat → Option Nat) (down : List B) (i n : Nat)
    (hn : n ≤ size) :
    (limited (limits i) ((down.drop (offset size limits down.length i)).take n) ++
        ((List.range size).map (staleByte size limits down i)).drop
          (limited (limits i) ((down.drop (offset size limits down.length i)).take n)).length).take
          n
      = (List.range n).map (bufferByte size limits down i) := by
  rw [limited_take _ size n hn, List.length_drop]
  have hdelivered : readLength size (limits i) (down.length - offset size limits down.length i) =
      delivered size limits down.length i := rfl
  have hle : delivered size limits down.length i ≤
      down.length - offset size limits down.length i := by
    rw [← hdelivered, readLength]
    omega
  rw [hdelivered]
  have hlen : ((down.drop (offset size limits down.length i)).take
      (min n (delivered size limits down.length i))).length =
        min n (delivered size limits down.length i) := by
    rw [List.length_take, List.length_drop]
    omega
  rw [hlen]
  apply List.ext_getElem
  · simp only [List.length_take, List.length_append, hlen, List.length_drop, List.length_map,
      List.length_range]
    omega
  · intro p hp hp'
    rw [List.length_map, List.length_range] at hp'
    rw [List.getElem_map, List.getElem_range, List.getElem_take, bufferByte_eq]
    by_cases h : p < delivered size limits down.length i
    · have hread : p < min n (delivered size limits down.length i) := by omega
      rw [if_pos h, List.getElem_append_left (by rw [hlen]; exact hread), List.getElem_take,
        List.getElem_drop, List.getD_eq_getElem _ _ (by omega)]
    · rw [if_neg h, List.getElem_append_right (by rw [hlen]; omega), List.getElem_drop,
        List.getElem_map, List.getElem_range]
      congr 1
      omega

-- ============================================================================
-- The loop
-- ============================================================================

section Loop

variable {size : Nat} {f : Faults} {up down : List B}

omit [Octet B] in
theorem samples_le (up : List B) : samples up ≤ up.length := by
  rw [samples]
  omega

/-- The right channel. -/
def rightBytes (size : Nat) (limits : Nat → Option Nat) (up down : List B) : List B :=
  (List.range (samples up)).map (heard size limits down)

omit [Octet B] in
theorem length_take_samples (up : List B) : (up.take (samples up)).length = samples up := by
  exact List.length_take_of_le (samples_le up)

theorem length_rightBytes (limits : Nat → Option Nat) (up down : List B) :
    (rightBytes size limits up down).length = samples up := by
  rw [rightBytes, List.length_map, List.length_range]

/-- The agent's track and buffer at block `i`. -/
structure AgentAt (size : Nat) (limits : Nat → Option Nat) (down : List B) (i : Nat)
    (agent abuf : List B) : Prop where
  rest : agent = down.drop (offset size limits down.length i)
  buffer : abuf = (List.range size).map (staleByte size limits down i)

/-- Where the loop is at block `i`. -/
def start (size : Nat) (up : List B) (i : Nat) : Nat := min (i * size) (samples up)

/-- What is left of the recording at block `i`. -/
def restOf (size : Nat) (limits : Nat → Option Nat) (up down : List B) (i : Nat) : List B :=
  interleave ((up.take (samples up)).drop (start size up i))
    ((rightBytes size limits up down).drop (start size up i))

omit [Octet B] in
/-- The loop ends where no sample is left. -/
theorem wavLoop_end (fuel : Nat) {i : Nat} (hi : samples up ≤ i * size)
    (caller agent abuf out : List B) :
    wavLoop size f fuel i caller agent abuf (up.length - start size up i) out = (true, out) := by
  have hstart : start size up i = samples up := Nat.min_eq_right hi
  cases fuel with
  | zero => rfl
  | succ fuel =>
      have hn : min size (up.length - start size up i) / 2 * 2 = 0 := by
        rw [hstart, samples]
        omega
      rw [wavLoop]
      dsimp only
      rw [if_pos hn]

theorem restOf_end {i : Nat} (hi : samples up ≤ i * size) :
    restOf size f.agentRead up down i = [] := by
  have hstart : start size up i = samples up := Nat.min_eq_right hi
  rw [restOf, hstart, List.drop_of_length_le (Nat.le_of_eq (length_take_samples up))]
  rfl

/-- A block of the recording. -/
def block (size : Nat) (limits : Nat → Option Nat) (up down : List B) (i : Nat) : List B :=
  interleave ((up.drop (i * size)).take (blockLength size up i))
    ((List.range (blockLength size up i)).map (bufferByte size limits down i))

omit [Octet B] in
theorem blockLength_even (hsize2 : size % 2 = 0) (i : Nat) : blockLength size up i % 2 = 0 := by
  have hmul : i * size % 2 = 0 := by rw [Nat.mul_mod, hsize2, Nat.mul_zero, Nat.zero_mod]
  rw [blockLength, samples]
  omega

theorem take_drop_rightBytes (hsize : 0 < size) (limits : Nat → Option Nat) (down : List B)
    (i : Nat) (hle : i * size + blockLength size up i ≤ samples up) :
    ((rightBytes size limits up down).drop (i * size)).take (blockLength size up i) =
      (List.range (blockLength size up i)).map (bufferByte size limits down i) := by
  apply List.ext_getElem
  · rw [List.length_take, List.length_drop, length_rightBytes, List.length_map,
      List.length_range]
    omega
  · intro p hp hp'
    rw [List.length_map, List.length_range] at hp'
    have hlt : p < size := by
      rw [blockLength] at hp'
      omega
    simp only [rightBytes]
    rw [List.getElem_take, List.getElem_drop, List.getElem_map, List.getElem_range,
      List.getElem_map, List.getElem_range, heard, Nat.add_comm (i * size) p,
      Nat.add_mul_div_right p i hsize, Nat.div_eq_of_lt hlt, Nat.zero_add,
      Nat.add_mul_mod_self_right, Nat.mod_eq_of_lt hlt]

/-- What is left is a block and what is left after it. -/
theorem restOf_block (hsize : 0 < size) (hsize2 : size % 2 = 0) {i : Nat}
    (hi : i * size < samples up) :
    restOf size f.agentRead up down i =
      block size f.agentRead up down i ++ restOf size f.agentRead up down (i + 1) := by
  have hstart : start size up i = i * size := Nat.min_eq_left (Nat.le_of_lt hi)
  have hnext : start size up (i + 1) = i * size + blockLength size up i := by
    rw [start, blockLength, Nat.succ_mul]
    omega
  have hle : i * size + blockLength size up i ≤ samples up := by
    rw [blockLength]
    omega
  have heven : blockLength size up i % 2 = 0 := blockLength_even hsize2 i
  have hup : (up.take (samples up)).drop (i * size) =
      (up.drop (i * size)).take (blockLength size up i) ++
        (up.take (samples up)).drop (i * size + blockLength size up i) := by
    rw [← List.take_append_drop (blockLength size up i) ((up.take (samples up)).drop (i * size)),
      List.drop_drop, List.drop_take, List.take_take, Nat.min_eq_left (by omega)]
  have hright : (rightBytes size f.agentRead up down).drop (i * size) =
      (List.range (blockLength size up i)).map (bufferByte size f.agentRead down i) ++
        (rightBytes size f.agentRead up down).drop (i * size + blockLength size up i) := by
    rw [← List.take_append_drop (blockLength size up i)
      ((rightBytes size f.agentRead up down).drop (i * size)), List.drop_drop,
      take_drop_rightBytes hsize _ _ _ hle]
  have hlen : ((up.drop (i * size)).take (blockLength size up i)).length =
      blockLength size up i := by
    have hsamples := samples_le up
    rw [List.length_take, List.length_drop]
    omega
  rw [restOf, restOf, hstart, hnext, hup, hright, block]
  refine interleave_append _ _ ?_ ?_ _ _
  · rw [hlen, List.length_map, List.length_range]
  · rw [hlen]
    exact heven

/-- After a full block. -/
theorem agentAt_next (limits : Nat → Option Nat) (down : List B) (i : Nat) {n : Nat}
    (hn : n = size) :
    AgentAt size limits down (i + 1)
      ((down.drop (offset size limits down.length i)).drop
        (limited (limits i) ((down.drop (offset size limits down.length i)).take n)).length)
      (limited (limits i) ((down.drop (offset size limits down.length i)).take n) ++
        ((List.range size).map (staleByte size limits down i)).drop
          (limited (limits i) ((down.drop (offset size limits down.length i)).take n)).length) := by
  subst hn
  have hfill := refill n limits down i n (Nat.le_refl n)
  have hlen : (limited (limits i)
      ((down.drop (offset n limits down.length i)).take n)).length =
        readLength n (limits i) (down.length - offset n limits down.length i) := by
    rw [limited_take _ n n (Nat.le_refl n), List.length_take, List.length_drop, readLength]
    omega
  constructor
  · rw [hlen, List.drop_drop, offset]
  · rw [List.take_of_length_le] at hfill
    · rw [hfill]
      rfl
    · rw [List.length_append, List.length_drop, List.length_map, List.length_range, hlen,
        readLength]
      omega

/-- One block: all of it is written, or less and the loop ends with an error. -/
theorem wavLoop_block (hsize : 0 < size) (hsize2 : size % 2 = 0) (fuel : Nat) {i : Nat}
    (hi : i * size < samples up) {agent abuf : List B}
    (h : AgentAt size f.agentRead down i agent abuf) (out : List B) :
    (BlockDone size f up i ∧ ∃ agent' abuf',
      (i * size + size < samples up → AgentAt size f.agentRead down (i + 1) agent' abuf') ∧
      wavLoop size f (fuel + 1) i (up.drop (start size up i)) agent abuf
        (up.length - start size up i) out =
          wavLoop size f fuel (i + 1) (up.drop (start size up (i + 1))) agent' abuf'
            (up.length - start size up (i + 1)) (out ++ block size f.agentRead up down i)) ∨
    (¬ BlockDone size f up i ∧ ∃ written,
      wavLoop size f (fuel + 1) i (up.drop (start size up i)) agent abuf
        (up.length - start size up i) out = (false, out ++ written) ∧
      written.length < (block size f.agentRead up down i).length) := by
  have hstart : start size up i = i * size := Nat.min_eq_left (Nat.le_of_lt hi)
  have hnext : start size up (i + 1) = i * size + blockLength size up i := by
    rw [start, blockLength, Nat.succ_mul]
    omega
  have hmul : i * size % 2 = 0 := by rw [Nat.mul_mod, hsize2, Nat.mul_zero, Nat.zero_mod]
  have hn : min size (up.length - i * size) / 2 * 2 = blockLength size up i := by
    rw [blockLength, samples] at *
    omega
  have hpos : 0 < blockLength size up i := by
    rw [blockLength]
    omega
  have hle : blockLength size up i ≤ size := Nat.min_le_left _ _
  have hsamples := samples_le up
  have hcaller : ((up.drop (i * size)).take (blockLength size up i)).length =
      blockLength size up i := by
    rw [blockLength, List.length_take, List.length_drop]
    omega
  have hblock : (block size f.agentRead up down i).length = blockLength size up i * 2 := by
    rw [block, length_interleave _ _ (by rw [hcaller, List.length_map, List.length_range])
      (by rw [hcaller]; exact blockLength_even hsize2 i), hcaller]
  rw [wavLoop, hstart, hn]
  dsimp only
  rw [if_neg (Nat.ne_of_gt hpos), h.rest, h.buffer, refill size f.agentRead down i _ hle]
  by_cases hread : Allows (f.callerRead i) (blockLength size up i)
  · rw [limited_of_allows (by rw [hcaller]; exact hread), hcaller, if_neg (Nat.lt_irrefl _)]
    rw [show interleave ((up.drop (i * size)).take (blockLength size up i))
      ((List.range (blockLength size up i)).map (bufferByte size f.agentRead down i)) =
        block size f.agentRead up down i from rfl]
    by_cases hwrite : Allows (f.write i) (blockLength size up i * 2)
    · rw [limited_of_allows (by rw [hblock]; exact hwrite), if_neg (Nat.lt_irrefl _)]
      rw [List.drop_drop (l := up), Nat.sub_sub, ← hnext]
      have hfull : i * size + size < samples up → blockLength size up i = size := by
        intro hmore
        rw [blockLength]
        omega
      exact .inl ⟨⟨hread, hwrite⟩, _, _,
        fun hmore => agentAt_next f.agentRead down i (hfull hmore), rfl⟩
    · have hshort := length_limited_lt (f.write i)
        (block size f.agentRead up down i) (by rw [hblock]; exact hwrite)
      rw [if_pos hshort]
      exact .inr ⟨fun hdone => hwrite hdone.2, _, rfl, hshort⟩
  · have hshort := length_limited_lt (f.callerRead i)
      ((up.drop (i * size)).take (blockLength size up i)) (by rw [hcaller]; exact hread)
    rw [hcaller] at hshort
    rw [if_pos hshort]
    refine .inr ⟨fun hdone => hread hdone.1, [], ?_, ?_⟩
    · rw [List.append_nil]
    · rw [hblock, List.length_nil]
      omega

/-- No caller read and no write fails from block `i` on. -/
def BlocksDone (size : Nat) (f : Faults) (up : List B) (i : Nat) : Prop :=
  ∀ j, i ≤ j → j * size < samples up → BlockDone size f up j

omit [Octet B] in
theorem blocksDone_iff {i : Nat} (hi : i * size < samples up) :
    BlocksDone size f up i ↔ BlockDone size f up i ∧ BlocksDone size f up (i + 1) := by
  constructor
  · intro h
    exact ⟨h i (Nat.le_refl i) hi, fun j hj => h j (by omega)⟩
  · rintro ⟨hblock, hrest⟩ j hj hlt
    rcases Nat.eq_or_lt_of_le hj with rfl | hj
    · exact hblock
    · exact hrest j hj hlt

/-- The loop from block `i` on: it writes what is left, or less and it ends with an
    error. -/
theorem wavLoop_spec (size : Nat) (f : Faults) (up : List B) (hsize : 0 < size)
    (hsize2 : size % 2 = 0) (fuel i : Nat)
    (hfuel : up.length ≤ start size up i + fuel) {agent abuf : List B}
    (h : i * size < samples up → AgentAt size f.agentRead down i agent abuf) (out : List B) :
    (BlocksDone size f up i ∧
      wavLoop size f fuel i (up.drop (start size up i)) agent abuf (up.length - start size up i)
        out = (true, out ++ restOf size f.agentRead up down i)) ∨
    (¬ BlocksDone size f up i ∧ ∃ written,
      wavLoop size f fuel i (up.drop (start size up i)) agent abuf (up.length - start size up i)
        out = (false, out ++ written) ∧
      written.length < (restOf size f.agentRead up down i).length) := by
  induction fuel generalizing i agent abuf out with
  | zero =>
      have hend : samples up ≤ i * size := by
        have hsamples := samples_le up
        rw [start] at hfuel
        omega
      refine .inl ⟨fun j hj hlt => ?_, ?_⟩
      · exact absurd (Nat.mul_le_mul_right size hj) (by omega)
      · rw [wavLoop_end 0 hend, restOf_end hend, List.append_nil]
  | succ fuel ih =>
      by_cases hi : i * size < samples up
      · have hnext : up.length ≤ start size up (i + 1) + fuel := by
          rw [start] at hfuel ⊢
          rw [Nat.succ_mul]
          rw [samples] at *
          omega
        rw [blocksDone_iff hi, restOf_block hsize hsize2 hi, List.length_append]
        rcases wavLoop_block hsize hsize2 fuel hi (h hi) out with
          ⟨hdone, agent', abuf', hat, hrun⟩ | ⟨hnot, written, hrun, hlen⟩
        · rw [hrun]
          rcases ih (i + 1) hnext (fun hmore => hat (by rw [← Nat.succ_mul]; exact hmore))
            (out ++ block size f.agentRead up down i) with
            ⟨hrest, heq⟩ | ⟨hrest, written, heq, hlen⟩
          · exact .inl ⟨⟨hdone, hrest⟩, by rw [heq, List.append_assoc]⟩
          · refine .inr ⟨fun hall => hrest hall.2, block size f.agentRead up down i ++ written,
              ?_, ?_⟩
            · rw [heq, List.append_assoc]
            · rw [List.length_append]
              omega
        · exact .inr ⟨fun hall => hnot hall.1, written, hrun, by omega⟩
      · have hend : samples up ≤ i * size := by omega
        refine .inl ⟨fun j hj hlt => ?_, ?_⟩
        · exact absurd (Nat.mul_le_mul_right size hj) (by omega)
        · rw [wavLoop_end (fuel + 1) hend, restOf_end hend, List.append_nil]

end Loop

-- ============================================================================
-- What Finish leaves
-- ============================================================================

section Finish

variable {rate : Int} {up down : List B}

theorem length_wavHeader (rate : Int) (n : Nat) : (wavHeader rate n : List B).length = 44 := by
  rw [wavHeader, own, List.length_map, length_writeWAVHeader]

theorem Complete.length {wav : List B} (h : Complete rate up down wav) :
    wav.length = 44 + samples up * 2 := by
  obtain ⟨right, hright, rfl, -⟩ := h
  have heven : samples up % 2 = 0 := Nat.mul_mod_left _ _
  rw [List.length_append, length_wavHeader, length_interleave, length_take_samples]
  · rw [length_take_samples, hright]
  · rw [length_take_samples]
    exact heven

/-- All of the loop's data. -/
theorem restOf_zero (size : Nat) (limits : Nat → Option Nat) (up down : List B) :
    restOf size limits up down 0 =
      interleave (up.take (samples up)) (rightBytes size limits up down) := by
  rw [restOf, start, Nat.zero_mul, Nat.zero_min]
  rfl

theorem length_restOf_zero (size : Nat) (limits : Nat → Option Nat) (up down : List B) :
    (restOf size limits up down 0).length = samples up * 2 := by
  have heven : samples up % 2 = 0 := Nat.mul_mod_left _ _
  rw [restOf_zero, length_interleave, length_take_samples]
  · rw [length_take_samples, length_rightBytes]
  · rw [length_take_samples]
    exact heven

/-- Where all is written, what counts is the agent's track. -/
theorem complete_iff (size : Nat) (limits : Nat → Option Nat) (rate : Int) (up down : List B) :
    Complete rate up down (wavHeader rate up.length ++ restOf size limits up down 0) ↔
      Harmless size limits up down := by
  have hbyte : ∀ g < samples up, (rightBytes size limits up down).getD g (Octet.ofByte 0) =
      heard size limits down g := by
    intro g hg
    rw [List.getD_eq_getElem _ _ (by rw [length_rightBytes]; exact hg)]
    simp only [rightBytes, List.getElem_map, List.getElem_range]
  have heven : (up.take (samples up)).length % 2 = 0 := by
    rw [length_take_samples]
    exact Nat.mul_mod_left _ _
  rw [restOf_zero, harmless_iff]
  constructor
  · rintro ⟨right, hright, heq, hall⟩ g hg hgd
    have hsame := congrArg rightChannel (List.append_cancel_left heq)
    rw [rightChannel_interleave _ _ (by rw [length_take_samples, length_rightBytes]) heven,
      rightChannel_interleave _ _ (by rw [length_take_samples, hright]) heven] at hsame
    rw [← hbyte g hg, hsame]
    exact hall g hg hgd
  · intro h
    refine ⟨_, length_rightBytes limits up down, rfl, fun g hg hgd => ?_⟩
    rw [hbyte g hg]
    exact h g hg hgd

/-- The raw tracks are gone: what is left of the recording is audio.wav. -/
theorem kept_finish_iff {f : Faults} {n : Nat} {d : Files B} :
    Kept rate up down (finish f rate n d) ↔
      ∃ wav, (finalizeWAV f rate n d).2.audioWav = some wav ∧ Complete rate up down wav := by
  constructor
  · rintro (h | ⟨h, -⟩)
    · exact h
    · cases h
  · exact .inl

/-- Where a file cannot be opened or made, audio.wav is what it was. -/
theorem finalizeWAV_stopped {f : Faults} {n : Nat} {old : Option (List B)}
    (h : f.openCaller ∨ f.openAgent ∨ f.create) :
    (finalizeWAV f rate n (recorded up down old)).2.audioWav = old := by
  rw [finalizeWAV, recorded]
  cases hcaller : f.openCaller with
  | true => rfl
  | false =>
      cases hagent : f.openAgent with
      | true => rfl
      | false =>
          rw [hcaller, hagent] at h
          obtain hcreate : f.create = true := by simpa using h
          show (if f.create then _ else _ : Bool × Files B).2.audioWav = old
          rw [if_pos hcreate]

/-- Where they can: the header and the loop. -/
theorem finalizeWAV_opened {f : Faults} {n : Nat} {old : Option (List B)}
    (h : ¬ (f.openCaller ∨ f.openAgent ∨ f.create)) :
    (finalizeWAV f rate n (recorded up down old)).2.audioWav =
      if (limited f.header (wavHeader rate n : List B)).length < 44 then
        some (limited f.header (wavHeader rate n))
      else some (wavLoop blockSize f n 0 up down (List.replicate blockSize (Octet.ofByte 0)) n
        (limited f.header (wavHeader rate n))).2 := by
  obtain ⟨hcaller, hagent, hcreate⟩ : f.openCaller = false ∧ f.openAgent = false ∧
      f.create = false := by simpa using h
  rw [finalizeWAV, recorded, opened, opened, hcaller, hagent, hcreate]
  dsimp only
  rw [if_neg Bool.false_ne_true, if_neg Bool.false_ne_true]
  dsimp only
  rw [if_neg Bool.false_ne_true, length_wavHeader]
  split
  · rfl
  · rfl

/-- The loop starts with an empty buffer. -/
theorem agentAt_zero (size : Nat) (limits : Nat → Option Nat) (down : List B) :
    AgentAt size limits down 0 down (List.replicate size (Octet.ofByte 0)) where
  rest := rfl
  buffer := by
    have hconst : staleByte size limits down 0 = fun _ => Octet.ofByte 0 := rfl
    rw [hconst, List.map_const', List.length_range]

/-- All of the recording is written, or less. -/
theorem finalizeWAV_written {f : Faults} (rate : Int) (up down : List B) (old : Option (List B))
    (hopen : ¬ (f.openCaller ∨ f.openAgent ∨ f.create)) :
    ((Allows f.header 44 ∧ BlocksDone blockSize f up 0) ∧
      (finalizeWAV f rate up.length (recorded up down old)).2.audioWav =
        some (wavHeader rate up.length ++ restOf blockSize f.agentRead up down 0)) ∨
    (¬ (Allows f.header 44 ∧ BlocksDone blockSize f up 0) ∧ ∃ wav,
      (finalizeWAV f rate up.length (recorded up down old)).2.audioWav = some wav ∧
      wav.length < 44 + samples up * 2) := by
  rw [finalizeWAV_opened hopen]
  by_cases hheader : Allows f.header 44
  · have hstart : start blockSize up 0 = 0 := by rw [start, Nat.zero_mul, Nat.zero_min]
    have hloop := wavLoop_spec blockSize f up (by decide) (by decide) up.length 0 (by omega)
      (fun _ => agentAt_zero blockSize f.agentRead down) (wavHeader rate up.length)
    rw [hstart, List.drop_zero, Nat.sub_zero] at hloop
    rw [limited_of_allows (by rw [length_wavHeader]; exact hheader), length_wavHeader,
      if_neg (Nat.lt_irrefl _)]
    rcases hloop with ⟨hdone, hrun⟩ | ⟨hnot, written, hrun, hlen⟩
    · rw [hrun]
      exact .inl ⟨⟨hheader, hdone⟩, rfl⟩
    · rw [hrun]
      refine .inr ⟨fun hall => hnot hall.2, _, rfl, ?_⟩
      rw [length_restOf_zero] at hlen
      rw [List.length_append, length_wavHeader]
      omega
  · have hshort := length_limited_lt f.header (wavHeader rate up.length : List B)
      (by rw [length_wavHeader]; exact hheader)
    rw [length_wavHeader] at hshort
    rw [if_pos hshort]
    exact .inr ⟨fun hall => hheader hall.1, _, rfl, by omega⟩

/-- Finish keeps a recording exactly under the condition. -/
theorem kept_iff (f : Faults) (rate : Int) (up down : List B) (old : Option (List B)) :
    Kept rate up down (finish f rate up.length (recorded up down old)) ↔
      Spared f rate up down old := by
  rw [kept_finish_iff, Spared]
  by_cases hopen : f.openCaller ∨ f.openAgent ∨ f.create
  · rw [if_pos hopen, finalizeWAV_stopped hopen]
  · rw [if_neg hopen]
    rcases finalizeWAV_written rate up down old hopen with ⟨hall, hwav⟩ | ⟨hnot, wav, hwav, hlen⟩
    · rw [hwav]
      constructor
      · rintro ⟨wav, hsome, hcomplete⟩
        obtain rfl := Option.some.inj hsome
        exact ⟨hall.1, fun i => hall.2 i (Nat.zero_le i),
          (complete_iff blockSize f.agentRead rate up down).mp hcomplete⟩
      · rintro ⟨-, -, hagent⟩
        exact ⟨_, rfl, (complete_iff blockSize f.agentRead rate up down).mpr hagent⟩
    · rw [hwav]
      constructor
      · rintro ⟨wav', hsome, hcomplete⟩
        obtain rfl := Option.some.inj hsome
        -- audio.wav is too short
        have htotal := hcomplete.length
        omega
      · rintro ⟨hheader, hdone, -⟩
        exact absurd ⟨hheader, fun i _ => hdone i⟩ hnot

end Finish

-- ============================================================================
-- Without failures
-- ============================================================================

section Whole

variable {size : Nat} {limits : Nat → Option Nat} {down : List B}

/-- No read of the agent's track stops before the end of its block or of the track. -/
def Whole (size : Nat) (limits : Nat → Option Nat) (length : Nat) : Prop :=
  ∀ i, Allows (limits i) (min size (length - i * size))

omit [Octet B] in
theorem readLength_of_allows {limit : Option Nat} {rest : Nat} (h : Allows limit (min size rest)) :
    readLength size limit rest = min size rest := by
  cases limit with
  | none => rw [readLength, Option.getD_none]; omega
  | some k =>
      have hk := allows_some.mp h
      rw [readLength, Option.getD_some]
      omega

theorem offset_of_whole {length : Nat} (h : Whole size limits length) (i : Nat) :
    offset size limits length i = min (i * size) length := by
  induction i with
  | zero => rw [offset, Nat.zero_mul, Nat.zero_min]
  | succ i ih =>
      have hrest : length - min (i * size) length = length - i * size := by omega
      rw [offset, ih, hrest, readLength_of_allows (h i), Nat.succ_mul]
      omega

theorem lt_delivered_iff {length : Nat} (h : Whole size limits length) {i p : Nat}
    (hp : p < size) : p < delivered size limits length i ↔ i * size + p < length := by
  have hrest : length - min (i * size) length = length - i * size := by omega
  rw [delivered, offset_of_whole h, hrest, readLength_of_allows (h i)]
  omega

/-- The buffer is the one of the reads that do not fail. -/
theorem bufferByte_of_whole (hsize : 0 < size) (h : Whole size limits down.length) (i : Nat)
    {p : Nat} (hp : p < size) :
    bufferByte size limits down i p = heldByte size down (i * size + p) := by
  induction i with
  | zero =>
      rw [bufferByte_eq, heldByte_eq hsize, prevByte, Nat.zero_mul, Nat.zero_add,
        if_neg (Nat.not_le.mpr hp), offset_of_whole h, Nat.zero_mul, Nat.zero_min, Nat.zero_add]
      refine if_congr ?_ rfl rfl
      rw [lt_delivered_iff h hp, Nat.zero_mul, Nat.zero_add]
  | succ i ih =>
      have hback : (i + 1) * size + p - size = i * size + p := by
        rw [Nat.succ_mul]
        omega
      have hge : size ≤ (i + 1) * size + p := by
        rw [Nat.succ_mul]
        omega
      rw [bufferByte_eq, heldByte_eq hsize, prevByte, if_pos hge, hback, staleByte, ih]
      by_cases hlt : (i + 1) * size + p < down.length
      · rw [if_pos ((lt_delivered_iff h hp).mpr hlt), if_pos hlt, offset_of_whole h,
          Nat.min_eq_left (by omega)]
      · rw [if_neg fun hp' => hlt ((lt_delivered_iff h hp).mp hp'), if_neg hlt]

theorem heard_of_whole (hsize : 0 < size) (h : Whole size limits down.length) (g : Nat) :
    heard size limits down g = heldByte size down g := by
  rw [heard, bufferByte_of_whole hsize h _ (Nat.mod_lt g hsize), Nat.div_add_mod']

/-- Reads that do not stop short do no harm. -/
theorem harmless_of_whole (hsize : 0 < size) (h : Whole size limits down.length)
    (up : List B) : Harmless size limits up down := by
  rw [harmless_iff]
  intro g _ hg
  rw [heard_of_whole hsize h, heldByte, if_pos hg]

omit [Octet B] in
/-- Behind a read that stops short, the bytes of its block are taken from elsewhere. -/
theorem lag_of_short (hsize : 0 < size) {length i k p : Nat} (hlimit : limits i = some k)
    (hp : k ≤ p) : lag size limits length i p ≠ some 0 := by
  have hread : ¬ p < delivered size limits length i := by
    rw [delivered, readLength, hlimit, Option.getD_some]
    omega
  cases i with
  | zero =>
      rw [lag, if_neg hread]
      exact fun hno => nomatch hno
  | succ i =>
      rw [lag, if_neg hread]
      cases lag size limits length i p with
      | none => exact fun hno => nomatch hno
      | some l =>
          show some (size + l) ≠ some 0
          intro hzero
          have hsum := Option.some.inj hzero
          omega

end Whole

/-- Where nothing stops short, audio.wav holds what the program on the file system
    writes. -/
theorem run_finalizeWAV_content {cwd : List Bytes} {fs : List Bytes → Slot B}
    {cr : CallRecording} {up down : List B} (h : Recording cwd fs cr up down)
    (old : Option (List B)) :
    (((cells B cwd).run cr.finalizeWAV fs).2 (filePlace cwd cr.dir audioWav)).content =
      (finalizeWAV .none cr.rate up.length (recorded up down old)).2.audioWav := by
  obtain ⟨gen, slot, hrun, hslot⟩ := h.run_finalizeWAV
  have hwhole : Whole blockSize Faults.none.agentRead down.length := fun i => allows_none _
  have hright : rightBytes blockSize Faults.none.agentRead up down =
      held blockSize down (samples up) := by
    rw [rightBytes, held]
    exact List.map_congr_left fun g _ => heard_of_whole (by decide) hwhole g
  have hdata : restOf blockSize Faults.none.agentRead up down 0 =
      interleave up (held blockSize down up.length) := by
    rw [restOf_zero, hright]
    refine interleave_take blockSize up down ?_ (samples_le up) ?_
    · exact Nat.mul_mod_left _ _
    · rw [samples]
      omega
  rcases finalizeWAV_written cr.rate up down old (f := .none) (by decide) with
    ⟨-, hwav⟩ | ⟨hnot, -⟩
  · rw [hrun, hwav, hdata]
    dsimp only
    rw [Function.update_self, hslot.content]
    rfl
  · exact absurd ⟨allows_none _, fun i _ _ => ⟨allows_none _, allows_none _⟩⟩ hnot

-- ============================================================================
-- A full disk
-- ============================================================================

/-- The header cannot be written. -/
def fullDisk : Faults := { Faults.none with header := some 0 }

/-- audio.wav is empty, and the raw tracks are gone. -/
theorem fullDisk_lost :
    ¬ Kept 8000 [1, 2] [3, 4]
      (finish fullDisk 8000 2 (recorded ([1, 2] : List UInt8) [3, 4] none)) := by
  have hempty : (finish fullDisk 8000 2 (recorded ([1, 2] : List UInt8) [3, 4] none)).audioWav =
      some [] := by decide
  rintro (⟨wav, hwav, hcomplete⟩ | ⟨hcaller, -⟩)
  · obtain rfl := Option.some.inj (hempty.symm.trans hwav)
    cases hcomplete.length
  · cases hcaller

end FsBridge.Bridge.RecordingFaults
