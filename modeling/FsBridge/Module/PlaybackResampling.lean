/-
  FsBridge.Module.PlaybackResampling

  The audio `stream_playback_frame` hands on.  Its loop reads blocks from
  `play_buffer`; a block goes to the stash as it is, or to the downlink resampler,
  which is told the whole sample frames in it, and gets no more.

  `topUpBlocks` lists the blocks of a top-up beside `Playback.topUp`: they are what
  leaves `play_buffer`, what reaches a resampler that keeps a log of its input, and
  what the stash gains when there is no resampler.  Nothing is lost between
  `play_buffer` and the player exactly when every block for a resampler is whole
  sample frames.
-/

import FsBridge.Module.PlaybackFifo

namespace FsBridge.Module

open FsBridge.Lib

-- ============================================================================
-- Blocks
-- ============================================================================

/-- Where a block goes: to the resampler, with the bytes of a sample frame, or to
    the stash, with the bytes it has room for. -/
inductive Sink where
  | resampler (width : Nat)
  | stash (room : Nat)
deriving DecidableEq, Repr

/-- A block read from `play_buffer`. -/
structure PlayedBlock where
  bytes : Bytes
  sink : Sink
deriving DecidableEq, Repr

/-- What of it is handed on. -/
def PlayedBlock.handed (b : PlayedBlock) : Bytes :=
  match b.sink with
  | .resampler width => b.bytes.take (b.bytes.length / width * width)
  | .stash room => b.bytes.take room

/-- A block for the resampler holds whole sample frames. -/
def PlayedBlock.WholeFrames (b : PlayedBlock) : Prop :=
  ∀ width, b.sink = .resampler width → b.bytes.length % width = 0

/-- A block for the stash fits it. -/
def PlayedBlock.HasRoom (b : PlayedBlock) : Prop :=
  ∀ room, b.sink = .stash room → b.bytes.length ≤ room

/-- The samples in a sequence of bytes, low byte first. -/
def samples : Bytes → List (UInt8 × UInt8)
  | lo :: hi :: bytes => (lo, hi) :: samples bytes
  | _ => []

theorem samples_prefix {part stream : Bytes} (h : part <+: stream) :
    samples part <+: samples stream := by
  induction part using samples.induct generalizing stream with
  | case1 lo hi bytes ih =>
      obtain ⟨rest, rfl⟩ := h
      exact List.cons_prefix_cons.mpr ⟨rfl, ih (List.prefix_append bytes rest)⟩
  | case2 part hshort =>
      rw [samples]
      · exact List.nil_prefix
      · exact hshort

theorem PlayedBlock.length_handed_le (b : PlayedBlock) : b.handed.length ≤ b.bytes.length := by
  unfold PlayedBlock.handed
  split
  · rw [List.length_take]
    exact Nat.min_le_right _ _
  · rw [List.length_take]
    exact Nat.min_le_right _ _

/-- Nothing of a block is lost exactly when it is whole, or fits. -/
theorem PlayedBlock.handed_eq_iff (b : PlayedBlock) :
    b.handed = b.bytes ↔ b.WholeFrames ∧ b.HasRoom := by
  unfold PlayedBlock.handed PlayedBlock.WholeFrames PlayedBlock.HasRoom
  cases hsink : b.sink with
  | resampler width =>
      have hdiv := Nat.div_add_mod b.bytes.length width
      rw [Nat.mul_comm] at hdiv
      constructor
      · intro h
        have hlen := congrArg List.length h
        rw [List.length_take] at hlen
        refine ⟨fun w hw => ?_, fun _ hroom => (nomatch hroom)⟩
        obtain rfl := Sink.resampler.inj hw
        omega
      · rintro ⟨hwhole, -⟩
        have hmod := hwhole width rfl
        exact List.take_of_length_le (by omega)
  | stash room =>
      constructor
      · intro h
        have hlen := congrArg List.length h
        rw [List.length_take] at hlen
        refine ⟨fun _ hw => (nomatch hw), fun r hr => ?_⟩
        obtain rfl := Sink.stash.inj hr
        omega
      · rintro ⟨-, hroom⟩
        exact List.take_of_length_le (hroom room rfl)

/-- The bytes of a list of blocks. -/
def readBytes (bs : List PlayedBlock) : Bytes := bs.flatMap PlayedBlock.bytes

/-- The bytes of a list of blocks that are handed on. -/
def handedBytes (bs : List PlayedBlock) : Bytes := bs.flatMap PlayedBlock.handed

theorem length_handedBytes_le (bs : List PlayedBlock) :
    (handedBytes bs).length ≤ (readBytes bs).length := by
  induction bs with
  | nil => exact Nat.le_refl _
  | cons b bs ih =>
      have hb := b.length_handed_le
      show (b.handed ++ handedBytes bs).length ≤ (b.bytes ++ readBytes bs).length
      rw [List.length_append, List.length_append]
      omega

/-- All bytes are handed on exactly when nothing of a block is lost. -/
theorem handedBytes_eq_iff (bs : List PlayedBlock) :
    handedBytes bs = readBytes bs ↔ ∀ b ∈ bs, b.WholeFrames ∧ b.HasRoom := by
  induction bs with
  | nil => exact ⟨fun _ _ h => (nomatch h), fun _ => rfl⟩
  | cons b bs ih =>
      have hb := b.length_handed_le
      have hbs := length_handedBytes_le bs
      have hcons : handedBytes (b :: bs) = readBytes (b :: bs)
          ↔ b.handed ++ handedBytes bs = b.bytes ++ readBytes bs := Iff.rfl
      rw [hcons, List.forall_mem_cons, ← ih, ← b.handed_eq_iff]
      constructor
      · intro h
        have hlen := congrArg List.length h
        rw [List.length_append, List.length_append] at hlen
        exact List.append_inj h (by omega)
      · rintro ⟨hfirst, hrest⟩
        rw [hfirst, hrest]

-- ============================================================================
-- The blocks of a frame
-- ============================================================================

section PlaybackResampling

variable {B : SwitchBuffer} {R : PlaybackResampler}

/-- A block read while this is the state of the downlink. -/
def Playback.block (tp : Playback B R) (channels : Nat) (got : Bytes) : PlayedBlock :=
  match tp.dl_resampler with
  | some _ => ⟨got, .resampler (channels * 2)⟩
  | none => ⟨got, .stash (B.freespace tp.dl_stash)⟩

theorem block_bytes (tp : Playback B R) (channels : Nat) (got : Bytes) :
    (tp.block channels got).bytes = got := by
  unfold Playback.block
  split <;> rfl

/-- The blocks the loop of `stream_playback_frame` reads: `Playback.topUp`, step
    for step. -/
def Playback.topUpBlocks (tp : Playback B R) (need channels rate : Nat) : List PlayedBlock :=
  if B.inuse tp.dl_stash < need then
    if B.inuse tp.play_buffer = 0 then []
    else
      let r := B.read tp.play_buffer (min blockSize (B.inuse tp.play_buffer))
      if r.1.length = 0 then []
      else
        let tp' := { tp with play_buffer := r.2 }.stashAudio channels rate r.1
        tp.block channels r.1
          :: if r.1.length < blockSize then [] else tp'.topUpBlocks need channels rate
  else []
termination_by B.inuse tp.play_buffer
decreasing_by
  rename_i h _ _
  rw [stashAudio_play_buffer]
  exact length_read_lt tp.play_buffer (Nat.pos_of_ne_zero h)

/-- The channels `stream_playback_frame` counts in a frame. -/
def WriteFrame.playedChannels (frame : WriteFrame) : Nat :=
  if 0 < frame.channels then frame.channels else 1

/-- The blocks `stream_playback_frame` reads for a frame. -/
def Playback.frameBlocks (tp : Playback B R) (frame : WriteFrame) : List PlayedBlock :=
  if tp.cleanup_started then []
  else if frame.data.length = 0 ∨ frame.rate = 0 then []
  else
    (tp.learnRate frame.playedChannels frame.rate).topUpBlocks frame.data.length
      frame.playedChannels frame.rate

/-- The blocks a call reads to play them. -/
def Playback.opBlocks (tp : Playback B R) : PlaybackOp → List PlayedBlock
  | .streamPlaybackFrame frame => tp.frameBlocks frame
  | _ => []

/-- The blocks a run reads to play them. -/
def Playback.blocks (tp : Playback B R) : List PlaybackOp → List PlayedBlock
  | [] => []
  | op :: ops => tp.opBlocks op ++ (tp.exec op).1.blocks ops

/-- A stream without a resampler gets none for its audio. -/
theorem stashAudio_none {tp : Playback B R} (hplain : tp.dl_resampler = none)
    (channels rate : Nat) (got : Bytes) :
    (tp.stashAudio channels rate got).dl_resampler = none := by
  unfold Playback.stashAudio
  rw [hplain]
  dsimp only
  split <;> rfl

/-- The blocks of a top-up are what leaves `play_buffer`. -/
theorem contents_topUp (tp : Playback B R) (need channels rate : Nat) :
    B.contents tp.play_buffer = readBytes (tp.topUpBlocks need channels rate)
      ++ B.contents (tp.topUp need channels rate).play_buffer := by
  rw [Playback.topUpBlocks, Playback.topUp]
  split
  · split
    · rfl
    · rename_i hsome
      have hpos := Nat.pos_of_ne_zero hsome
      generalize hr : B.read tp.play_buffer (min blockSize (B.inuse tp.play_buffer)) = r
      have hsplit : B.contents tp.play_buffer = r.1 ++ B.contents r.2 := by
        rw [← hr, B.read_fst, B.contents_read, List.take_append_drop]
      dsimp only
      split
      · rename_i hnone
        rw [hsplit, List.eq_nil_of_length_eq_zero hnone]
        rfl
      · rw [readBytes, List.flatMap_cons, block_bytes, List.append_assoc]
        split
        · rw [stashAudio_play_buffer]
          exact hsplit
        · have hless : B.inuse r.2 < B.inuse tp.play_buffer := by
            rw [← hr]
            exact length_read_lt tp.play_buffer hpos
          have hrest := contents_topUp (({ tp with play_buffer := r.2 } : Playback B R).stashAudio
            channels rate r.1) need channels rate
          rw [stashAudio_play_buffer] at hrest
          rw [hsplit]
          exact congrArg (r.1 ++ ·) hrest
  · rfl
termination_by B.inuse tp.play_buffer
decreasing_by
  rw [stashAudio_play_buffer]
  exact hless

theorem learnRate_play_buffer (tp : Playback B R) (channels rate : Nat) :
    (tp.learnRate channels rate).play_buffer = tp.play_buffer := by
  unfold Playback.learnRate
  split <;> rfl

theorem contents_frame (tp : Playback B R) (frame : WriteFrame) :
    B.contents tp.play_buffer = readBytes (tp.frameBlocks frame)
      ++ B.contents (tp.streamPlaybackFrame frame).1.play_buffer := by
  unfold Playback.frameBlocks Playback.streamPlaybackFrame
  split
  · rfl
  · split
    · rfl
    · have htop := contents_topUp (tp.learnRate frame.playedChannels frame.rate) frame.data.length
        frame.playedChannels frame.rate
      rw [learnRate_play_buffer] at htop
      rw [htop]
      unfold WriteFrame.playedChannels
      generalize (if 0 < frame.channels then frame.channels else 1) = channels
      dsimp only
      split <;> rfl

-- ============================================================================
-- What the blocks are
-- ============================================================================

/-- A resampler that keeps a log of the samples it is given, as bytes. -/
def PlaybackResampler.logged (R : PlaybackResampler) : PlaybackResampler where
  State := R.State × Nat × Bytes
  init channels inRate outRate := (R.init channels inRate outRate).map fun σ => (σ, channels * 2, [])
  process σ got inLen outLen :=
    let r := R.process σ.1 got inLen outLen
    ((r.1, σ.2.1, σ.2.2 ++ got.take (inLen * σ.2.1)), r.2)
  resetMem σ := (R.resetMem σ.1, σ.2)

/-- A top-up through a resampler that keeps a log: the log gains what is handed on. -/
theorem topUp_logged {R : PlaybackResampler} (tp : Playback B R.logged) (need channels rate : Nat)
    {σ : R.State} {log : Bytes} (h : tp.dl_resampler = some (σ, channels * 2, log)) :
    ∃ σ', (tp.topUp need channels rate).dl_resampler
      = some (σ', channels * 2, log ++ handedBytes (tp.topUpBlocks need channels rate)) := by
  rw [Playback.topUpBlocks, Playback.topUp]
  split
  · split
    · exact ⟨σ, by rw [h, handedBytes, List.flatMap_nil, List.append_nil]⟩
    · rename_i hsome
      have hpos := Nat.pos_of_ne_zero hsome
      generalize hr : B.read tp.play_buffer (min blockSize (B.inuse tp.play_buffer)) = r
      dsimp only
      split
      · exact ⟨σ, by rw [h, handedBytes, List.flatMap_nil, List.append_nil]⟩
      · have hblock : (tp.block channels r.1).handed
            = r.1.take (r.1.length / (channels * 2) * (channels * 2)) := by
          rw [Playback.block, h]
          rfl
        obtain ⟨σ', hstash⟩ : ∃ σ', (({ tp with play_buffer := r.2 } : Playback B
            R.logged).stashAudio channels rate r.1).dl_resampler
              = some (σ', channels * 2, log ++ (tp.block channels r.1).handed) := by
          refine ⟨(R.process σ r.1 (r.1.length / (channels * 2))
            (r.1.length / (channels * 2) * rate / tp.sampling + 64)).1, ?_⟩
          rw [hblock]
          unfold Playback.stashAudio
          rw [h]
          rfl
        rw [handedBytes, List.flatMap_cons, ← List.append_assoc]
        split
        · exact ⟨σ', by rw [hstash, List.flatMap_nil, List.append_nil]⟩
        · have hless : B.inuse r.2 < B.inuse tp.play_buffer := by
            rw [← hr]
            exact length_read_lt tp.play_buffer hpos
          exact topUp_logged _ need channels rate hstash
  · exact ⟨σ, by rw [h, handedBytes, List.flatMap_nil, List.append_nil]⟩
termination_by B.inuse tp.play_buffer
decreasing_by
  rw [stashAudio_play_buffer]
  exact hless

/-- A top-up without a resampler: the stash gains what is handed on. -/
theorem topUp_stashed (tp : Playback B R) (need channels rate : Nat)
    (hplain : tp.dl_resampler = none) :
    B.contents (tp.topUp need channels rate).dl_stash
      = B.contents tp.dl_stash ++ handedBytes (tp.topUpBlocks need channels rate) := by
  rw [Playback.topUpBlocks, Playback.topUp]
  split
  · split
    · rw [handedBytes, List.flatMap_nil, List.append_nil]
    · rename_i hsome
      have hpos := Nat.pos_of_ne_zero hsome
      generalize hr : B.read tp.play_buffer (min blockSize (B.inuse tp.play_buffer)) = r
      dsimp only
      split
      · rw [handedBytes, List.flatMap_nil, List.append_nil]
      · have hblock : (tp.block channels r.1).handed = r.1.take (B.freespace tp.dl_stash) := by
          rw [Playback.block, hplain]
          rfl
        have hstash : B.contents (({ tp with play_buffer := r.2 } : Playback B R).stashAudio
            channels rate r.1).dl_stash
              = B.contents tp.dl_stash ++ (tp.block channels r.1).handed := by
          rw [hblock]
          unfold Playback.stashAudio
          dsimp only
          rw [hplain]
          dsimp only
          split
          · rename_i hfits
            rw [B.contents_write _ _ hfits, List.take_of_length_le hfits]
          · refine B.contents_write _ _ ?_
            rw [List.length_take]
            exact Nat.min_le_left _ _
        rw [handedBytes, List.flatMap_cons, ← List.append_assoc, ← hstash]
        split
        · rw [List.flatMap_nil, List.append_nil]
        · have hless : B.inuse r.2 < B.inuse tp.play_buffer := by
            rw [← hr]
            exact length_read_lt tp.play_buffer hpos
          have hplain' : ({ tp with play_buffer := r.2 } : Playback B R).dl_resampler = none := hplain
          exact topUp_stashed _ need channels rate (stashAudio_none hplain' channels rate r.1)
  · rw [handedBytes, List.flatMap_nil, List.append_nil]
termination_by B.inuse tp.play_buffer
decreasing_by
  rw [stashAudio_play_buffer]
  exact hless

-- ============================================================================
-- Room in the stash
-- ============================================================================

/-- A call of the downlink changes neither of these. -/
structure Playback.Keeps (tp tp' : Playback B R) : Prop where
  live : tp'.cleanup_started = tp.cleanup_started
  stash : B.size tp'.dl_stash = B.size tp.dl_stash

theorem Playback.Keeps.trans {tp tp' tp'' : Playback B R} (h : tp.Keeps tp') (h' : tp'.Keeps tp'') :
    tp.Keeps tp'' :=
  ⟨h'.live.trans h.live, h'.stash.trans h.stash⟩

theorem stashAudio_keeps (tp : Playback B R) (channels rate : Nat) (got : Bytes) :
    tp.Keeps (tp.stashAudio channels rate got) := by
  unfold Playback.stashAudio
  split
  · refine ⟨rfl, ?_⟩
    dsimp only
    split
    · exact B.size_write _ _
    · rfl
  · split
    · exact ⟨rfl, B.size_write _ _⟩
    · exact ⟨rfl, B.size_write _ _⟩

theorem topUp_keeps (tp : Playback B R) (need channels rate : Nat) :
    tp.Keeps (tp.topUp need channels rate) := by
  rw [Playback.topUp]
  split
  · split
    · exact ⟨rfl, rfl⟩
    · rename_i hsome
      have hpos := Nat.pos_of_ne_zero hsome
      generalize hr : B.read tp.play_buffer (min blockSize (B.inuse tp.play_buffer)) = r
      dsimp only
      split
      · exact ⟨rfl, rfl⟩
      · have hread : tp.Keeps (({ tp with play_buffer := r.2 } : Playback B R).stashAudio
            channels rate r.1) := by
          obtain ⟨hlive, hstash⟩ := stashAudio_keeps ({ tp with play_buffer := r.2 } : Playback B R)
            channels rate r.1
          exact ⟨hlive, hstash⟩
        split
        · exact hread
        · have hless : B.inuse r.2 < B.inuse tp.play_buffer := by
            rw [← hr]
            exact length_read_lt tp.play_buffer hpos
          exact hread.trans (topUp_keeps _ need channels rate)
  · exact ⟨rfl, rfl⟩
termination_by B.inuse tp.play_buffer
decreasing_by
  rw [stashAudio_play_buffer]
  exact hless

theorem learnRate_keeps (tp : Playback B R) (channels rate : Nat) :
    tp.Keeps (tp.learnRate channels rate) := by
  unfold Playback.learnRate
  split
  · exact ⟨rfl, B.size_zero _⟩
  · exact ⟨rfl, rfl⟩

theorem exec_keeps (tp : Playback B R) (op : PlaybackOp) : tp.Keeps (tp.exec op).1 := by
  cases op with
  | onBinary data =>
      show tp.Keeps (tp.onBinary data)
      unfold Playback.onBinary
      split <;> exact ⟨rfl, rfl⟩
  | clearPlayback => exact ⟨rfl, B.size_zero _⟩
  | streamPlaybackFrame frame =>
      show tp.Keeps (tp.streamPlaybackFrame frame).1
      unfold Playback.streamPlaybackFrame
      split
      · exact ⟨rfl, rfl⟩
      · split
        · exact ⟨rfl, rfl⟩
        · generalize (if 0 < frame.channels then frame.channels else 1) = channels
          have htop := (learnRate_keeps tp channels frame.rate).trans
            (topUp_keeps _ frame.data.length channels frame.rate)
          dsimp only
          split
          · exact htop.trans ⟨rfl, B.size_read _ _⟩
          · exact htop.trans ⟨rfl, rfl⟩

/-- The stash of a top-up has room for a block whenever one is read. -/
theorem hasRoom_topUpBlocks (tp : Playback B R) (need channels rate : Nat)
    (hroom : need + blockSize ≤ B.size tp.dl_stash) :
    ∀ b ∈ tp.topUpBlocks need channels rate, b.HasRoom := by
  rw [Playback.topUpBlocks]
  split
  · rename_i hneed
    split
    · exact fun _ h => (nomatch h)
    · rename_i hsome
      have hpos := Nat.pos_of_ne_zero hsome
      generalize hr : B.read tp.play_buffer (min blockSize (B.inuse tp.play_buffer)) = r
      dsimp only
      split
      · exact fun _ h => (nomatch h)
      · rw [List.forall_mem_cons]
        constructor
        · have hlen : r.1.length ≤ blockSize := by
            rw [← hr, B.read_fst, List.length_take]
            omega
          have hfree := B.freespace_eq tp.dl_stash
          have hinuse := B.inuse_eq tp.dl_stash
          intro room hsink
          rw [Playback.block] at hsink
          rw [block_bytes]
          cases hres : tp.dl_resampler with
          | none =>
              rw [hres] at hsink
              have hroom' : B.freespace tp.dl_stash = room := Sink.stash.inj hsink
              omega
          | some σ =>
              rw [hres] at hsink
              exact nomatch hsink
        · split
          · exact fun _ h => (nomatch h)
          · have hless : B.inuse r.2 < B.inuse tp.play_buffer := by
              rw [← hr]
              exact length_read_lt tp.play_buffer hpos
            refine hasRoom_topUpBlocks _ need channels rate ?_
            rw [(stashAudio_keeps _ channels rate r.1).stash]
            exact hroom
  · exact fun _ h => (nomatch h)
termination_by B.inuse tp.play_buffer
decreasing_by
  rw [stashAudio_play_buffer]
  exact hless

theorem hasRoom_opBlocks (tp : Playback B R) {op : PlaybackOp}
    (hframe : ∀ frame, op = .streamPlaybackFrame frame →
      frame.data.length ≤ switchRecommendedBufferSize)
    (hroom : switchRecommendedBufferSize + blockSize ≤ B.size tp.dl_stash) :
    ∀ b ∈ tp.opBlocks op, b.HasRoom := by
  cases op with
  | onBinary data => exact fun _ h => (nomatch h)
  | clearPlayback => exact fun _ h => (nomatch h)
  | streamPlaybackFrame frame =>
      have hneed := hframe frame rfl
      show ∀ b ∈ tp.frameBlocks frame, b.HasRoom
      unfold Playback.frameBlocks
      split
      · exact fun _ h => (nomatch h)
      · split
        · exact fun _ h => (nomatch h)
        · refine hasRoom_topUpBlocks _ _ _ _ ?_
          rw [(learnRate_keeps tp _ _).stash]
          omega

-- ============================================================================
-- Runs
-- ============================================================================

/-- No message overflows `play_buffer`, nothing is cleared, and the frames are
    those of a media buffer. -/
def Playback.Undisturbed (tp : Playback B R) : List PlaybackOp → Prop
  | [] => True
  | op :: ops =>
      (match op with
        | .onBinary data => data.length ≤ B.freespace tp.play_buffer
        | .clearPlayback => False
        | .streamPlaybackFrame frame => frame.data.length ≤ switchRecommendedBufferSize) ∧
      (tp.exec op).1.Undisturbed ops

/-- What a run hands on, to a resampler or to the stash. -/
def Playback.handed (tp : Playback B R) (ops : List PlaybackOp) : Bytes :=
  handedBytes (tp.blocks ops)

/-- A run plays the stream it receives: all of it in order, at every point up to
    some place, and at the end of it when nothing is left. -/
structure Playback.PlaysStream (tp : Playback B R) (ops : List PlaybackOp) : Prop where
  bytes : ∀ n, tp.handed (ops.take n) <+: Waiting.received ops
  samples : ∀ n, samples (tp.handed (ops.take n)) <+: samples (Waiting.received ops)
  drained : ∀ n, Waiting.received (ops.drop n) = [] →
    B.inuse (tp.after (ops.take n)).play_buffer = 0 →
    tp.handed (ops.take n) = Waiting.received ops

/-- One call: what was waiting and what it receives is what it reads and what waits
    after it. -/
theorem contents_exec {tp : Playback B R} (hlive : tp.cleanup_started = false) {op : PlaybackOp}
    {ops : List PlaybackOp} (hrun : tp.Undisturbed (op :: ops)) :
    B.contents tp.play_buffer ++ Waiting.received [op]
      = readBytes (tp.opBlocks op) ++ B.contents (tp.exec op).1.play_buffer := by
  cases op with
  | onBinary data =>
      have hfree : data.length ≤ B.freespace tp.play_buffer := hrun.1
      have hroom : makeRoom data.length tp.play_buffer = tp.play_buffer := by
        rw [makeRoom, if_neg (by omega)]
      show B.contents tp.play_buffer ++ (data ++ [])
        = [] ++ B.contents (tp.onBinary data).play_buffer
      rw [Playback.onBinary, hlive, if_neg Bool.false_ne_true]
      dsimp only
      rw [hroom, if_pos hfree, B.contents_write _ _ hfree, List.append_nil, List.nil_append]
  | clearPlayback => exact absurd hrun.1 id
  | streamPlaybackFrame frame =>
      show B.contents tp.play_buffer ++ [] = _
      rw [List.append_nil]
      exact contents_frame tp frame

theorem received_append (ops ops' : List PlaybackOp) :
    Waiting.received (ops ++ ops') = Waiting.received ops ++ Waiting.received ops' := by
  induction ops with
  | nil => rfl
  | cons op ops ih =>
      cases op with
      | onBinary data =>
          show data ++ Waiting.received (ops ++ ops') = data ++ Waiting.received ops ++ _
          rw [ih, List.append_assoc]
      | clearPlayback => exact ih
      | streamPlaybackFrame frame => exact ih

/-- A run: what was waiting and what it receives is what it reads and what waits
    after it. -/
theorem contents_after {tp : Playback B R} (hlive : tp.cleanup_started = false)
    {ops : List PlaybackOp} (hrun : tp.Undisturbed ops) :
    B.contents tp.play_buffer ++ Waiting.received ops
      = readBytes (tp.blocks ops) ++ B.contents (tp.after ops).play_buffer := by
  induction ops generalizing tp with
  | nil => exact List.append_nil _
  | cons op ops ih =>
      have hstep := contents_exec hlive hrun
      have hrest := ih ((exec_keeps tp op).live.trans hlive) hrun.2
      have hblocks : readBytes (tp.blocks (op :: ops))
          = readBytes (tp.opBlocks op) ++ readBytes ((tp.exec op).1.blocks ops) :=
        List.flatMap_append
      calc B.contents tp.play_buffer ++ Waiting.received (op :: ops)
          = (B.contents tp.play_buffer ++ Waiting.received [op]) ++ Waiting.received ops := by
            rw [List.append_assoc, ← received_append]
            rfl
        _ = readBytes (tp.opBlocks op)
              ++ (B.contents (tp.exec op).1.play_buffer ++ Waiting.received ops) := by
            rw [hstep, List.append_assoc]
        _ = readBytes (tp.blocks (op :: ops)) ++ B.contents (tp.after (op :: ops)).play_buffer := by
            rw [hrest, hblocks, List.append_assoc]
            rfl

/-- The stash has room for every block of a run. -/
theorem hasRoom_blocks {tp : Playback B R}
    (hroom : switchRecommendedBufferSize + blockSize ≤ B.size tp.dl_stash) {ops : List PlaybackOp}
    (hrun : tp.Undisturbed ops) : ∀ b ∈ tp.blocks ops, b.HasRoom := by
  induction ops generalizing tp with
  | nil => exact fun _ h => (nomatch h)
  | cons op ops ih =>
      have hrest := ih (by rw [(exec_keeps tp op).stash]; exact hroom) hrun.2
      have hfirst : ∀ b ∈ tp.opBlocks op, b.HasRoom := by
        refine hasRoom_opBlocks tp (fun frame hop => ?_) hroom
        subst hop
        exact hrun.1
      intro b hb
      rcases List.mem_append.mp hb with hb | hb
      · exact hfirst b hb
      · exact hrest b hb

theorem Playback.Undisturbed.take {tp : Playback B R} {ops : List PlaybackOp}
    (hrun : tp.Undisturbed ops) (n : Nat) : tp.Undisturbed (ops.take n) := by
  induction ops generalizing tp n with
  | nil => rw [List.take_nil]; trivial
  | cons op ops ih =>
      cases n with
      | zero => trivial
      | succ n => exact ⟨hrun.1, ih hrun.2 n⟩

/-- The blocks of the first calls are among those of the run. -/
theorem blocks_take_subset (tp : Playback B R) (ops : List PlaybackOp) (n : Nat) :
    ∀ b ∈ tp.blocks (ops.take n), b ∈ tp.blocks ops := by
  induction ops generalizing tp n with
  | nil =>
      rw [List.take_nil]
      exact fun _ h => h
  | cons op ops ih =>
      cases n with
      | zero => exact fun _ h => (nomatch h)
      | succ n =>
          intro b hb
          rcases List.mem_append.mp hb with hb | hb
          · exact List.mem_append_left _ hb
          · exact List.mem_append_right _ (ih _ n b hb)

section Init

variable {sampling channels : Nat}

/-- The stream is read in order from its first byte. -/
theorem readBytes_init {ops : List PlaybackOp}
    (hrun : (Playback.init B R sampling channels).Undisturbed ops) :
    Waiting.received ops = readBytes ((Playback.init B R sampling channels).blocks ops)
      ++ B.contents ((Playback.init B R sampling channels).after ops).play_buffer := by
  have hcontents := contents_after rfl hrun
  have hempty : B.contents (Playback.init B R sampling channels).play_buffer = [] :=
    B.contents_create _
  rw [hempty] at hcontents
  exact hcontents

theorem hasRoom_init (hch : 0 < channels) {ops : List PlaybackOp}
    (hrun : (Playback.init B R sampling channels).Undisturbed ops) :
    ∀ b ∈ (Playback.init B R sampling channels).blocks ops, b.HasRoom := by
  refine hasRoom_blocks ?_ hrun
  show _ ≤ B.size (B.create (stashBuflen channels))
  rw [B.size_create]
  unfold stashBuflen switchRecommendedBufferSize blockSize maxPlayBufferMs
  omega

theorem playsStream_of_wholeFrames (hch : 0 < channels) {ops : List PlaybackOp}
    (hrun : (Playback.init B R sampling channels).Undisturbed ops)
    (hwhole : ∀ b ∈ (Playback.init B R sampling channels).blocks ops, b.WholeFrames) :
    (Playback.init B R sampling channels).PlaysStream ops := by
  have hroom := hasRoom_init hch hrun
  have hhanded : ∀ n, (Playback.init B R sampling channels).handed (ops.take n)
      = readBytes ((Playback.init B R sampling channels).blocks (ops.take n)) := by
    intro n
    refine (handedBytes_eq_iff _).mpr fun b hb => ?_
    have hmem := blocks_take_subset _ ops n b hb
    exact ⟨hwhole b hmem, hroom b hmem⟩
  have hreceived : ∀ n, Waiting.received ops
      = Waiting.received (ops.take n) ++ Waiting.received (ops.drop n) := by
    intro n
    rw [← received_append, List.take_append_drop]
  have hfront : ∀ n, (Playback.init B R sampling channels).handed (ops.take n)
      <+: Waiting.received ops := by
    intro n
    rw [hhanded n, hreceived n, readBytes_init (hrun.take n), List.append_assoc]
    exact List.prefix_append _ _
  refine ⟨hfront, fun n => samples_prefix (hfront n), fun n hlast hempty => ?_⟩
  have hnil : B.contents ((Playback.init B R sampling channels).after
      (ops.take n)).play_buffer = [] := by
    rw [B.inuse_eq] at hempty
    exact List.eq_nil_of_length_eq_zero hempty
  rw [hhanded n, hreceived n, hlast, readBytes_init (hrun.take n), hnil, List.append_nil,
    List.append_nil]

/-- **The stream is played as a whole exactly when the resampler is never given a
    part of a sample frame.**  Runs of any arrivals and any frames; the converse is
    for the runs that leave `play_buffer` empty, as long as audio is left nothing
    can be said of the end of the stream. -/
theorem playback_playsStream (hch : 0 < channels) (ops : List PlaybackOp)
    (hrun : (Playback.init B R sampling channels).Undisturbed ops) :
    ((∀ b ∈ (Playback.init B R sampling channels).blocks ops, b.WholeFrames) →
      (Playback.init B R sampling channels).PlaysStream ops) ∧
    (B.inuse ((Playback.init B R sampling channels).after ops).play_buffer = 0 →
      (Playback.init B R sampling channels).PlaysStream ops →
      ∀ b ∈ (Playback.init B R sampling channels).blocks ops, b.WholeFrames) := by
  refine ⟨playsStream_of_wholeFrames hch hrun, fun hempty hplays b hb => ?_⟩
  have hall := hplays.drained ops.length
  rw [List.take_length, List.drop_length] at hall
  have hnil : B.contents ((Playback.init B R sampling channels).after ops).play_buffer = [] := by
    rw [B.inuse_eq] at hempty
    exact List.eq_nil_of_length_eq_zero hempty
  have hread := readBytes_init hrun
  rw [hnil, List.append_nil] at hread
  have hhanded := (hall rfl hempty).trans hread
  exact ((handedBytes_eq_iff _).mp hhanded b hb).1

end Init

end PlaybackResampling

/-- The samples of mono audio, each of them `k` times. -/
def holdSamples (k : Nat) : Bytes → Bytes
  | lo :: hi :: bytes => (List.replicate k [lo, hi]).flatten ++ holdSamples k bytes
  | _ => []

/-- A resampler of mono audio to a multiple of its rate. -/
def holdResampler : PlaybackResampler where
  State := Nat
  init _ inRate outRate := some (outRate / inRate)
  process k got inLen _ := (k, holdSamples k (got.take (inLen * 2)))
  resetMem k := k

/-- Two samples arrive in two messages, each followed by a frame at twice the rate. -/
def splitStream (first second : Bytes) : List PlaybackOp :=
  [.onBinary first, .streamPlaybackFrame ⟨[0, 0, 0, 0], 16000, 1⟩, .onBinary second,
    .streamPlaybackFrame ⟨[0, 0, 0, 0], 16000, 1⟩]

/-- A stream of 8 kHz on a channel of 16 kHz. -/
def upsampled : Playback fifoBuffer holdResampler := Playback.init fifoBuffer holdResampler 8000 1

theorem undisturbed_whole : upsampled.Undisturbed (splitStream [1, 2] [3, 4]) := by
  refine ⟨?_, ?_, ?_, ?_, trivial⟩
  · show 2 ≤ fifoBuffer.freespace _
    decide +kernel
  · show 4 ≤ switchRecommendedBufferSize
    decide
  · show 2 ≤ fifoBuffer.freespace _
    decide +kernel
  · show 4 ≤ switchRecommendedBufferSize
    decide

theorem undisturbed_odd : upsampled.Undisturbed (splitStream [1] [2, 3, 4]) := by
  refine ⟨?_, ?_, ?_, ?_, trivial⟩
  · show 1 ≤ fifoBuffer.freespace _
    decide +kernel
  · show 4 ≤ switchRecommendedBufferSize
    decide
  · show 3 ≤ fifoBuffer.freespace _
    decide +kernel
  · show 4 ≤ switchRecommendedBufferSize
    decide

theorem playback_playsStream_split :
    ((∀ b ∈ upsampled.blocks (splitStream [1, 2] [3, 4]), b.WholeFrames) →
      upsampled.PlaysStream (splitStream [1, 2] [3, 4])) ∧
    (fifoBuffer.inuse (upsampled.after (splitStream [1, 2] [3, 4])).play_buffer = 0 →
      upsampled.PlaysStream (splitStream [1, 2] [3, 4]) →
      ∀ b ∈ upsampled.blocks (splitStream [1, 2] [3, 4]), b.WholeFrames) :=
  playback_playsStream Nat.one_pos (splitStream [1, 2] [3, 4]) undisturbed_whole

/-- A frame between the two bytes of a sample: the first byte is lost, and the
    resampler is given the high byte of the first sample for the low byte of a sample.
    Neither the bytes nor the samples are those of the stream. -/
theorem odd_arrival_shifts :
    upsampled.Undisturbed (splitStream [1] [2, 3, 4]) ∧
      Waiting.received (splitStream [1] [2, 3, 4]) = [1, 2, 3, 4] ∧
      (¬ upsampled.handed (splitStream [1] [2, 3, 4]) <+: [1, 2, 3, 4] ∧
        ¬ samples (upsampled.handed (splitStream [1] [2, 3, 4])) <+: samples [1, 2, 3, 4]) ∧
      ¬ upsampled.PlaysStream (splitStream [1] [2, 3, 4]) := by
  have hhanded : upsampled.handed (splitStream [1] [2, 3, 4]) = [2, 3] := by decide +kernel
  have hbytes : ¬ upsampled.handed (splitStream [1] [2, 3, 4]) <+: [1, 2, 3, 4] := by
    rw [hhanded]
    decide
  have hsamples : ¬ samples (upsampled.handed (splitStream [1] [2, 3, 4]))
      <+: samples [1, 2, 3, 4] := by
    rw [hhanded]
    decide
  exact ⟨undisturbed_odd, rfl, ⟨hbytes, hsamples⟩, fun h => hsamples (h.samples 4)⟩

end FsBridge.Module
