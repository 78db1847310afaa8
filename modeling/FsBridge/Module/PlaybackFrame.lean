/-
  FsBridge.Module.PlaybackFrame

  The downlink of the module (`onBinary`, `clearPlayback`, `stream_playback_frame`
  and the part of `stream_data_init` they rely on, module/ws_bridge_glue.cpp):
  audio from the WebSocket waits in `play_buffer`, is moved in blocks of 4096
  bytes to `dl_stash`, at the write rate of the channel, and replaces the frames
  the channel writes.

  The three run under `play_mutex`, so a run is a list of them.  The buffers
  exist: `stream_data_init` has returned success.  `stashFull` is history: it
  records that the branch of that name was taken.
-/

import FsBridge.Module.SwitchBuffer

namespace FsBridge.Module

open FsBridge.Lib

/-- `SWITCH_RECOMMENDED_BUFFER_SIZE`, the most a media frame holds. -/
def switchRecommendedBufferSize : Nat := 8192

/-- `sizeof(in)` and `sizeof(scratch)`. -/
def blockSize : Nat := 4096

/-- `MAX_PLAY_BUFFER_MS`. -/
def maxPlayBufferMs : Nat := 10000

/-- `play_buflen` of `stream_data_init`. -/
def playBuflen (sampling channels : Nat) : Nat :=
  sampling * 2 * channels * (maxPlayBufferMs / 1000)

/-- `stash_buflen` of `stream_data_init`. -/
def stashBuflen (channels : Nat) : Nat := 48000 * 2 * channels * (maxPlayBufferMs / 1000)

/-- The frame a channel is about to write; `datalen` is the length of `data`. -/
structure WriteFrame where
  data : Bytes
  rate : Nat
  channels : Nat
deriving DecidableEq, Repr

/-- The downlink Speex resampler: `process` returns the bytes of its output. -/
structure PlaybackResampler where
  State : Type
  init : (channels inRate outRate : Nat) → Option State
  process : State → Bytes → (inLen outLen : Nat) → State × Bytes
  resetMem : State → State

section PlaybackFrame

variable (B : SwitchBuffer) (R : PlaybackResampler)

/-- The fields of `private_t` the downlink uses. -/
structure Playback where
  cleanup_started : Bool
  sampling : Nat
  play_buffer : B.Buffer
  dl_stash : B.Buffer
  dl_resampler : Option R.State
  dl_rate : Nat
  underruns : UInt32
  replaced : UInt32
  stashFull : Bool

/-- The downlink as `stream_data_init` leaves it. -/
def Playback.init (sampling channels : Nat) : Playback B R where
  cleanup_started := false
  sampling := sampling
  play_buffer := B.create (playBuflen sampling channels)
  dl_stash := B.create (stashBuflen channels)
  dl_resampler := none
  dl_rate := 0
  underruns := 0
  replaced := 0
  stashFull := false

variable {B R}

theorem length_read_lt (q : B.Buffer) (h : 0 < B.inuse q) :
    B.inuse (B.read q (min blockSize (B.inuse q))).2 < B.inuse q := by
  rw [B.inuse_eq] at h
  rw [B.inuse_eq, B.inuse_eq, B.contents_read, List.length_drop]
  unfold blockSize
  omega

/-- The loop of `onBinary`: the oldest blocks go until `len` bytes fit. -/
def makeRoom (len : Nat) (play_buffer : B.Buffer) : B.Buffer :=
  if B.freespace play_buffer < len ∧ 0 < B.inuse play_buffer then
    makeRoom len (B.read play_buffer (min blockSize (B.inuse play_buffer))).2
  else play_buffer
termination_by B.inuse play_buffer
decreasing_by
  rename_i h
  exact length_read_lt play_buffer h.2

/-- `AudioStreamer::onBinary`. -/
def Playback.onBinary (tp : Playback B R) (data : Bytes) : Playback B R :=
  if tp.cleanup_started then tp
  else
    let play_buffer := makeRoom data.length tp.play_buffer
    { tp with play_buffer :=
        if data.length ≤ B.freespace play_buffer then B.write play_buffer data else play_buffer }

/-- `AudioStreamer::clearPlayback`. -/
def Playback.clearPlayback (tp : Playback B R) : Playback B R :=
  { tp with
    play_buffer := B.zero tp.play_buffer
    dl_stash := B.zero tp.dl_stash
    dl_resampler := tp.dl_resampler.map R.resetMem }

/-- `(Re)initialize the downlink resampler when the channel write rate is learned
    or changes.` -/
def Playback.learnRate (tp : Playback B R) (channels rate : Nat) : Playback B R :=
  if tp.dl_rate ≠ rate then
    { tp with
      dl_rate := rate
      dl_stash := B.zero tp.dl_stash
      dl_resampler := if rate ≠ tp.sampling then R.init channels tp.sampling rate else none }
  else tp

/-- What `stream_playback_frame` does with the audio it has read from
    `play_buffer`. -/
def Playback.stashAudio (tp : Playback B R) (channels rate : Nat) (got : Bytes) : Playback B R :=
  match tp.dl_resampler with
  | some σ =>
      let in_len := got.length / (channels * 2)
      let out_len := in_len * rate / tp.sampling + 64
      let (σ, out) := R.process σ got in_len out_len
      { tp with
        dl_resampler := some σ
        dl_stash :=
          if 0 < out.length ∧ out.length ≤ B.freespace tp.dl_stash then B.write tp.dl_stash out
          else tp.dl_stash }
  | none =>
      if got.length ≤ B.freespace tp.dl_stash then
        { tp with dl_stash := B.write tp.dl_stash got }
      else
        -- stash full; put nothing back, oldest wins
        { tp with
          dl_stash := B.write tp.dl_stash (got.take (B.freespace tp.dl_stash))
          stashFull := true }

theorem stashAudio_play_buffer (tp : Playback B R) (channels rate : Nat) (got : Bytes) :
    (tp.stashAudio channels rate got).play_buffer = tp.play_buffer := by
  unfold Playback.stashAudio
  split
  · rfl
  · split <;> rfl

/-- The loop of `stream_playback_frame`: top up the stash until there is a full
    frame of `need` bytes in it. -/
def Playback.topUp (tp : Playback B R) (need channels rate : Nat) : Playback B R :=
  if B.inuse tp.dl_stash < need then
    if B.inuse tp.play_buffer = 0 then tp
    else
      let r := B.read tp.play_buffer (min blockSize (B.inuse tp.play_buffer))
      if r.1.length = 0 then { tp with play_buffer := r.2 }
      else
        let tp' := { tp with play_buffer := r.2 }.stashAudio channels rate r.1
        if r.1.length < blockSize then tp' else tp'.topUp need channels rate
  else tp
termination_by B.inuse tp.play_buffer
decreasing_by
  rename_i h _ _
  rw [stashAudio_play_buffer]
  exact length_read_lt tp.play_buffer (Nat.pos_of_ne_zero h)

/-- `stream_playback_frame`, and what it writes over the data of the frame, if it
    replaces it. -/
def Playback.streamPlaybackFrame (tp : Playback B R) (frame : WriteFrame) :
    Playback B R × Option Bytes :=
  if tp.cleanup_started then (tp, none)
  else if frame.data.length = 0 ∨ frame.rate = 0 then (tp, none)
  else
    let need := frame.data.length
    let channels := if 0 < frame.channels then frame.channels else 1
    let tp := (tp.learnRate channels frame.rate).topUp need channels frame.rate
    if need ≤ B.inuse tp.dl_stash then
      let (data, dl_stash) := B.read tp.dl_stash need
      ({ tp with dl_stash := dl_stash, replaced := tp.replaced + 1 }, some data)
    else ({ tp with underruns := tp.underruns + 1 }, none)

/-- One call of the downlink. -/
inductive PlaybackOp where
  | onBinary (data : Bytes)
  | clearPlayback
  | streamPlaybackFrame (frame : WriteFrame)
deriving DecidableEq, Repr

/-- One call, and what it writes into a frame. -/
def Playback.exec (tp : Playback B R) : PlaybackOp → Playback B R × Option Bytes
  | .onBinary data => (tp.onBinary data, none)
  | .clearPlayback => (tp.clearPlayback, none)
  | .streamPlaybackFrame frame => tp.streamPlaybackFrame frame

/-- The downlink after a run. -/
def Playback.after (tp : Playback B R) (ops : List PlaybackOp) : Playback B R :=
  ops.foldl (fun tp op => (tp.exec op).1) tp

/-- What each call of a run writes into its frame. -/
def Playback.outputs (tp : Playback B R) : List PlaybackOp → List (Option Bytes)
  | [] => []
  | op :: ops => (tp.exec op).2 :: (tp.exec op).1.outputs ops

end PlaybackFrame

end FsBridge.Module
