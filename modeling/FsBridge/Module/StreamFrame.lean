/-
  FsBridge.Module.StreamFrame

  The uplink of the module (`stream_frame` and the part of `stream_data_init`
  it relies on, module/ws_bridge_glue.cpp): media frames of the caller are read
  from the media bug, resampled where the rates differ, assembled into chunks
  of `rtp_packets` packets in `sbuffer`, and written to the WebSocket.

  The Speex resampler is a parameter.  `yield σ data k` is the number of output
  samples the first `k` input samples of `data` give in the state `σ`; a call
  consumes as much of its input as fits the output length it is given.

  `consumed` in the result of the resampling loop is history: nothing reads it.
-/

import FsBridge.Module.BufferSizes
import FsBridge.Module.SwitchBuffer

namespace FsBridge.Module

open FsBridge.Lib

/-- `sizeof(spx_int16_t)`. -/
def sampleSize : Nat := 2

/-- `switch_frame_t` as `switch_core_media_bug_read` fills it. -/
structure MediaFrame where
  data : Bytes
  /-- Samples per channel. -/
  samples : Nat
deriving DecidableEq, Repr

/-- `speex_resampler_process_int` and `speex_resampler_process_interleaved_int`
    for streams of `channels` channels. -/
structure Resampler (channels : Nat) where
  State : Type
  /-- The new state, the input samples consumed, and the output. -/
  process : State → Bytes → (inLen outLen : Nat) → State × Nat × Bytes
  yield : State → Bytes → Nat → Nat
  yield_zero : ∀ σ data, yield σ data 0 = 0
  consumed_le : ∀ σ data inLen outLen, (process σ data inLen outLen).2.1 ≤ inLen
  consumed_fits : ∀ σ data inLen outLen,
    yield σ data (process σ data inLen outLen).2.1 ≤ outLen
  consumed_max : ∀ σ data inLen outLen k, k ≤ inLen → yield σ data k ≤ outLen →
    k ≤ (process σ data inLen outLen).2.1
  out_length : ∀ σ data inLen outLen, (process σ data inLen outLen).2.2.length =
    yield σ data (process σ data inLen outLen).2.1 * (channels * sampleSize)

/-- The fields of `private_t` that `stream_frame` uses; `resampler` is the state
    of the resampler, if there is one. -/
structure Uplink (B : SwitchBuffer) {channels : Nat} (R : Resampler channels) where
  audio_paused : Bool
  cleanup_started : Bool
  pAudioStreamer : Bool
  rtp_packets : Int32
  sbuffer : B.Buffer
  resampler : Option R.State

section StreamFrame

variable (B : SwitchBuffer) {channels : Nat} (R : Resampler channels)

/-- The uplink as `stream_data_init` leaves it, where it gets as far: the size of
    `sbuffer` is a product of `int`s, and a negative one is a `size_t` of almost `2 ^ 64`,
    for which there is no memory. -/
def streamDataInit (desiredSampling rtp_packets : Int32) (resampler : Option R.State) :
    Option (Uplink B R) := do
  let buflen ← BufferSizes.buflen desiredSampling.toInt channels rtp_packets.toInt
  if buflen ≤ 2147483647 then
    some {
      audio_paused := false
      cleanup_started := false
      pAudioStreamer := true
      rtp_packets := rtp_packets
      sbuffer := B.create buflen
      resampler := resampler }
  else none

/-- `if (switch_buffer_freespace(sbuffer) == 0)`: a full buffer is a chunk. -/
def flushFull (sbuffer : B.Buffer) : B.Buffer × List Bytes :=
  if B.freespace sbuffer = 0 then
    let inuse := B.inuse sbuffer
    if 0 < inuse then
      let (tmp, sbuffer) := B.read sbuffer inuse
      (B.zero sbuffer, [tmp])
    else (sbuffer, [])
  else (sbuffer, [])

/-- One turn of the loop without a resampler: `sbuffer` and what is appended to
    `pending_send`. -/
def plainFrame (rtp_packets : Int32) (sbuffer : B.Buffer) (frame : MediaFrame) :
    B.Buffer × List Bytes :=
  if frame.data.length = 0 then (sbuffer, [])
  else if rtp_packets = 1 then (sbuffer, [frame.data])
  else
    let freespace := B.freespace sbuffer
    let sbuffer := if freespace ≥ frame.data.length then B.write sbuffer frame.data else sbuffer
    flushFull B sbuffer

def plainFrames (rtp_packets : Int32) : B.Buffer → List MediaFrame → B.Buffer × List Bytes
  | sbuffer, [] => (sbuffer, [])
  | sbuffer, frame :: frames =>
      let (sbuffer, pending) := plainFrame B rtp_packets sbuffer frame
      let (sbuffer, rest) := plainFrames rtp_packets sbuffer frames
      (sbuffer, pending ++ rest)

/-- The buffer, the resampler and `pending_send` after some turns of the
    resampling loop, and for each frame with data how many of its samples were
    consumed. -/
structure Resampled where
  sbuffer : B.Buffer
  resampler : R.State
  pending : List Bytes
  consumed : List (Nat × MediaFrame)

/-- One turn of the loop with a resampler. -/
def resampleFrame (rtp_packets : Int32) (sbuffer : B.Buffer) (σ : R.State) (frame : MediaFrame) :
    Resampled B R :=
  if frame.data.length = 0 then ⟨sbuffer, σ, [], []⟩
  else
    let freespace := B.freespace sbuffer
    let out_len := freespace / (channels * sampleSize)
    if out_len = 0 then
      let (sbuffer, pending) := flushFull B sbuffer
      ⟨sbuffer, σ, pending, [(0, frame)]⟩
    else
      let (σ, in_len, out) := R.process σ frame.data frame.samples out_len
      if 0 < out.length then
        if rtp_packets = 1 then ⟨sbuffer, σ, [out], [(in_len, frame)]⟩
        else
          let sbuffer := if out.length ≤ B.freespace sbuffer then B.write sbuffer out else sbuffer
          let (sbuffer, pending) := flushFull B sbuffer
          ⟨sbuffer, σ, pending, [(in_len, frame)]⟩
      else
        let (sbuffer, pending) := flushFull B sbuffer
        ⟨sbuffer, σ, pending, [(in_len, frame)]⟩

def resampleFrames (rtp_packets : Int32) : B.Buffer → R.State → List MediaFrame → Resampled B R
  | sbuffer, σ, [] => ⟨sbuffer, σ, [], []⟩
  | sbuffer, σ, frame :: frames =>
      let r := resampleFrame B R rtp_packets sbuffer σ frame
      let rest := resampleFrames rtp_packets r.sbuffer r.resampler frames
      ⟨rest.sbuffer, rest.resampler, r.pending ++ rest.pending, r.consumed ++ rest.consumed⟩

/-- What one call of `stream_frame` leaves and does. -/
structure Streamed where
  uplink : Uplink B R
  /-- The chunks given to `writeBinary`. -/
  written : List Bytes
  consumed : List (Nat × MediaFrame)

/-- `stream_frame` when `frames` are ready at the media bug.  `locked`: the
    `trylock` of the mutex succeeds; `connected`: so does `isConnected`. -/
def streamFrame (pvt : Uplink B R) (locked connected : Bool) (frames : List MediaFrame) :
    Streamed B R :=
  if pvt.audio_paused ∨ pvt.cleanup_started then ⟨pvt, [], []⟩
  else if ¬ locked then ⟨pvt, [], []⟩
  else if ¬ pvt.pAudioStreamer then ⟨pvt, [], []⟩
  else
    match pvt.resampler with
    | none =>
        let (sbuffer, pending) := plainFrames B pvt.rtp_packets pvt.sbuffer frames
        ⟨{ pvt with sbuffer := sbuffer },
          if connected then pending.filter (· ≠ []) else [], []⟩
    | some σ =>
        let r := resampleFrames B R pvt.rtp_packets pvt.sbuffer σ frames
        ⟨{ pvt with sbuffer := r.sbuffer, resampler := some r.resampler },
          if connected then r.pending.filter (· ≠ []) else [], r.consumed⟩

/-- A sequence of calls while the stream is connected and the mutex available. -/
def streamCalls : Uplink B R → List (List MediaFrame) → Streamed B R
  | pvt, [] => ⟨pvt, [], []⟩
  | pvt, frames :: calls =>
      let first := streamFrame B R pvt true true frames
      let rest := streamCalls first.uplink calls
      ⟨rest.uplink, first.written ++ rest.written, first.consumed ++ rest.consumed⟩

end StreamFrame

end FsBridge.Module
