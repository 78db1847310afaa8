/-
  FsBridge.Module.PlaybackFifo

  The downlink as a queue of bytes.  `Waiting` says what the two buffers hold
  and, in closed form, what each call makes of it; the loops of the code are
  shown to compute that, and the queue laws are read off it.

  Both loops move blocks of `blockSize` bytes until an amount is reached or the
  buffer is empty, so both take the bytes of `blocks n`.
-/

import FsBridge.Module.PlaybackFrame

namespace FsBridge.Module

open FsBridge.Lib

-- ============================================================================
-- Blocks
-- ============================================================================

/-- The bytes in the fewest blocks that hold `n` bytes. -/
def blocks (n : Nat) : Nat := (n + (blockSize - 1)) / blockSize * blockSize

theorem blocks_zero : blocks 0 = 0 := rfl

theorem le_blocks (n : Nat) : n ≤ blocks n := by
  unfold blocks blockSize
  omega

theorem blocks_lt (n : Nat) : blocks n < n + blockSize := by
  unfold blocks blockSize
  omega

theorem blocks_of_pos {n : Nat} (h : 0 < n) : blocks n = blockSize + blocks (n - blockSize) := by
  unfold blocks blockSize
  omega

/-- A block taken off the front, and then the blocks for the rest. -/
theorem drop_block {l : Bytes} {n : Nat} (h : 0 < n) :
    (l.drop (min blockSize l.length)).drop (blocks (n - blockSize)) = l.drop (blocks n) := by
  rw [List.drop_drop, blocks_of_pos h]
  by_cases hle : blockSize ≤ l.length
  · rw [Nat.min_eq_left hle]
  · rw [List.drop_of_length_le (by omega), List.drop_of_length_le (by omega)]

-- ============================================================================
-- The queue
-- ============================================================================

/-- The audio that waits in the module: at the channel's rate, and as received. -/
structure Waiting where
  stash : Bytes
  play : Bytes
deriving DecidableEq, Repr

namespace Waiting

/-- Oldest byte first. -/
def queue (w : Waiting) : Bytes := w.stash ++ w.play

/-- `onBinary` on a `play_buffer` of `cap` bytes. -/
def receive (cap : Nat) (w : Waiting) (data : Bytes) : Waiting :=
  ⟨w.stash, w.play.drop (blocks (data.length - (cap - w.play.length))) ++ data⟩

/-- The blocks a frame of `need` bytes still needs move to the stash. -/
def topUp (w : Waiting) (need : Nat) : Waiting :=
  let k := blocks (need - w.stash.length)
  ⟨w.stash ++ w.play.take k, w.play.drop k⟩

/-- `stream_playback_frame` on a frame of `need` bytes. -/
def frame (w : Waiting) (need : Nat) : Waiting × Option Bytes :=
  if need = 0 then (w, none)
  else
    let w := w.topUp need
    if need ≤ w.stash.length then (⟨w.stash.drop need, w.play⟩, some (w.stash.take need))
    else (w, none)

def exec (cap : Nat) (w : Waiting) : PlaybackOp → Waiting × Option Bytes
  | .onBinary data => (w.receive cap data, none)
  | .clearPlayback => (⟨[], []⟩, none)
  | .streamPlaybackFrame f => w.frame f.data.length

def outputs (cap : Nat) (w : Waiting) : List PlaybackOp → List (Option Bytes)
  | [] => []
  | op :: ops => (w.exec cap op).2 :: ((w.exec cap op).1.outputs cap ops)

theorem queue_topUp (w : Waiting) (need : Nat) : (w.topUp need).queue = w.queue := by
  show (w.stash ++ w.play.take _) ++ w.play.drop _ = _
  rw [List.append_assoc, List.take_append_drop]
  rfl

/-- The top-up gets a frame its bytes exactly when the queue has them. -/
theorem le_topUp_iff (w : Waiting) (need : Nat) :
    need ≤ (w.topUp need).stash.length ↔ need ≤ w.queue.length := by
  have hblocks := le_blocks (need - w.stash.length)
  show need ≤ (w.stash ++ w.play.take _).length ↔ need ≤ (w.stash ++ w.play).length
  rw [List.length_append, List.length_append, List.length_take]
  omega

/-- The stash never holds more than a frame and a block. -/
theorem length_topUp (w : Waiting) (need : Nat) :
    (w.topUp need).stash.length ≤ max w.stash.length (need + blockSize) := by
  show (w.stash ++ w.play.take _).length ≤ _
  rw [List.length_append, List.length_take]
  by_cases henough : need ≤ w.stash.length
  · rw [Nat.sub_eq_zero_of_le henough, blocks_zero]
    omega
  · have hupper := blocks_lt (need - w.stash.length)
    omega

/-- A frame takes the first bytes of the queue. -/
theorem frame_of_le {w : Waiting} {need : Nat} (h0 : need ≠ 0) (h : need ≤ w.queue.length) :
    (w.frame need).2 = some (w.queue.take need) ∧
      (w.frame need).1.queue = w.queue.drop need := by
  have hle := (le_topUp_iff w need).mpr h
  unfold frame
  dsimp only
  rw [if_neg h0, if_pos hle, ← queue_topUp w need]
  constructor
  · exact congrArg some (List.take_append_of_le_length hle).symm
  · exact (List.drop_append_of_le_length hle).symm

/-- A frame that does not get its bytes leaves the queue as it is. -/
theorem frame_of_lt {w : Waiting} {need : Nat} (h : need = 0 ∨ w.queue.length < need) :
    (w.frame need).2 = none ∧ (w.frame need).1.queue = w.queue := by
  have hiff := le_topUp_iff w need
  unfold frame
  split
  · exact ⟨rfl, rfl⟩
  · dsimp only
    rw [if_neg (by omega)]
    exact ⟨rfl, queue_topUp w need⟩

/-- The bytes a run receives. -/
def received : List PlaybackOp → Bytes
  | [] => []
  | .onBinary data :: ops => data ++ received ops
  | _ :: ops => received ops

/-- The bytes a run plays. -/
def played (outputs : List (Option Bytes)) : Bytes := (outputs.map fun o => o.getD []).flatten

/-- One call plays the oldest bytes, and takes in what it receives. -/
theorem exec_sublist (cap : Nat) (w : Waiting) (op : PlaybackOp) :
    ((w.exec cap op).2.getD [] ++ (w.exec cap op).1.queue).Sublist (w.queue ++ received [op]) := by
  cases op with
  | onBinary data =>
      show (w.stash ++ (List.drop _ w.play ++ data)).Sublist (w.stash ++ w.play ++ (data ++ []))
      rw [List.append_nil, List.append_assoc]
      exact ((List.drop_sublist _ _).append_right data).append_left w.stash
  | clearPlayback => exact List.nil_sublist _
  | streamPlaybackFrame f =>
      show ((w.frame f.data.length).2.getD [] ++ (w.frame f.data.length).1.queue).Sublist
        (w.queue ++ [])
      rw [List.append_nil]
      by_cases h : f.data.length = 0 ∨ w.queue.length < f.data.length
      · obtain ⟨hout, hqueue⟩ := frame_of_lt h
        rw [hout, hqueue]
        exact List.Sublist.refl _
      · have hneed : f.data.length ≠ 0 := fun h0 => h (.inl h0)
        have hle : f.data.length ≤ w.queue.length := Nat.le_of_not_lt fun hlt => h (.inr hlt)
        obtain ⟨hout, hqueue⟩ := frame_of_le hneed hle
        rw [hout, hqueue, Option.getD_some, List.take_append_drop]

/-- What a run plays was waiting or is received in it, and comes in that order. -/
theorem played_sublist (cap : Nat) (ops : List PlaybackOp) (w : Waiting) :
    (played (w.outputs cap ops)).Sublist (w.queue ++ received ops) := by
  induction ops generalizing w with
  | nil => exact List.nil_sublist _
  | cons op ops ih =>
      have hstep := exec_sublist cap w op
      have hreceived : received (op :: ops) = received [op] ++ received ops := by
        cases op <;> simp [received]
      have hplayed : played (w.outputs cap (op :: ops))
          = (w.exec cap op).2.getD [] ++ played ((w.exec cap op).1.outputs cap ops) := rfl
      rw [hreceived, hplayed, ← List.append_assoc]
      refine (((ih (w.exec cap op).1).append_left _).trans ?_)
      rw [← List.append_assoc]
      exact hstep.append_right _

end Waiting

-- ============================================================================
-- The loops of the code
-- ============================================================================

section PlaybackFifo

variable {B : SwitchBuffer} {R : PlaybackResampler}

theorem size_makeRoom (len : Nat) (q : B.Buffer) : B.size (makeRoom len q) = B.size q := by
  rw [makeRoom]
  split
  · rw [size_makeRoom len, B.size_read]
  · rfl
termination_by B.inuse q
decreasing_by
  rename_i h
  exact length_read_lt q h.2

theorem contents_makeRoom (len : Nat) (q : B.Buffer) :
    B.contents (makeRoom len q)
      = (B.contents q).drop (blocks (len - (B.size q - (B.contents q).length))) := by
  have hle := B.contents_le q
  have hfree := B.freespace_eq q
  have hinuse := B.inuse_eq q
  rw [makeRoom]
  split
  · rename_i h
    have hmissing : 0 < len - (B.size q - (B.contents q).length) := by omega
    rw [contents_makeRoom len, B.contents_read, B.size_read, hinuse, List.length_drop,
      ← drop_block hmissing]
    by_cases hblock : blockSize ≤ (B.contents q).length
    · have hrest : len - (B.size q - ((B.contents q).length - blockSize))
          = len - (B.size q - (B.contents q).length) - blockSize := by omega
      rw [Nat.min_eq_left hblock, hrest]
    · -- the last block empties the buffer
      have hnil : (B.contents q).drop (min blockSize (B.contents q).length) = [] :=
        List.drop_of_length_le (by omega)
      rw [hnil, List.drop_nil, List.drop_nil]
  · rename_i h
    by_cases hempty : B.contents q = []
    · rw [hempty, List.drop_nil]
    · have hpos : 0 < (B.contents q).length := List.length_pos_iff.mpr hempty
      have hroom : len - (B.size q - (B.contents q).length) = 0 := by omega
      rw [hroom, blocks_zero, List.drop_zero]
termination_by B.inuse q
decreasing_by
  rename_i h
  exact length_read_lt q h.2

/-- The stash takes a block it has room for. -/
theorem stashAudio_plain {tp : Playback B R} (hplain : tp.dl_resampler = none)
    (channels rate : Nat) {got : Bytes}
    (hroom : (B.contents tp.dl_stash).length + got.length ≤ B.size tp.dl_stash) :
    tp.stashAudio channels rate got = { tp with dl_stash := B.write tp.dl_stash got } := by
  have hfree := B.freespace_eq tp.dl_stash
  unfold Playback.stashAudio
  rw [hplain]
  dsimp only
  rw [if_pos (by omega)]

/-- Without a resampler the top-up moves the blocks it takes from `play_buffer`. -/
theorem topUp_spec (tp : Playback B R) (need channels rate : Nat)
    (hplain : tp.dl_resampler = none) (hroom : need + blockSize ≤ B.size tp.dl_stash) :
    ∃ play stash, tp.topUp need channels rate = { tp with play_buffer := play, dl_stash := stash } ∧
      B.contents stash = B.contents tp.dl_stash
        ++ (B.contents tp.play_buffer).take (blocks (need - (B.contents tp.dl_stash).length)) ∧
      B.contents play = (B.contents tp.play_buffer).drop
        (blocks (need - (B.contents tp.dl_stash).length)) ∧
      B.size stash = B.size tp.dl_stash ∧ B.size play = B.size tp.play_buffer := by
  have hinuse := B.inuse_eq tp.dl_stash
  have hplay := B.inuse_eq tp.play_buffer
  rw [Playback.topUp]
  split
  · rename_i hneed
    split
    · rename_i hempty
      have hnil : B.contents tp.play_buffer = [] := List.length_eq_zero_iff.mp (by omega)
      refine ⟨tp.play_buffer, tp.dl_stash, rfl, ?_, ?_, rfl, rfl⟩
      · rw [hnil, List.take_nil, List.append_nil]
      · rw [hnil, List.drop_nil]
    · rename_i hsome
      generalize hr : B.read tp.play_buffer (min blockSize (B.inuse tp.play_buffer)) = r
      have hgot : r.1 = (B.contents tp.play_buffer).take blockSize := by
        rw [← hr, B.read_fst, hplay, ← List.take_eq_take_min]
      have hrest : B.contents r.2 = (B.contents tp.play_buffer).drop blockSize := by
        rw [← hr, B.contents_read, hplay, ← List.drop_eq_drop_min]
      have hlen : r.1.length = min blockSize (B.contents tp.play_buffer).length := by
        rw [hgot, List.length_take]
      have hne : ¬ r.1.length = 0 := by
        rw [hlen]
        unfold blockSize
        omega
      have hfree := B.freespace_eq tp.dl_stash
      have hstash : B.contents (B.write tp.dl_stash r.1) = B.contents tp.dl_stash ++ r.1 :=
        B.contents_write _ _ (by omega)
      have hplain' : ({ tp with play_buffer := r.2 } : Playback B R).dl_resampler = none := hplain
      have hkeep := stashAudio_plain hplain' channels rate
        (show (B.contents tp.dl_stash).length + r.1.length ≤ B.size tp.dl_stash by omega)
      have hless : B.inuse r.2 < B.inuse tp.play_buffer := by
        rw [← hr]
        exact length_read_lt tp.play_buffer (by omega)
      have hsize : B.size r.2 = B.size tp.play_buffer := by rw [← hr, B.size_read]
      have hblocks := blocks_of_pos (n := need - (B.contents tp.dl_stash).length) (by omega)
      dsimp only
      rw [if_neg hne, hkeep]
      split
      · -- the block was the last one
        rename_i hshort
        have hall : (B.contents tp.play_buffer).length ≤ blockSize := by omega
        refine ⟨r.2, B.write tp.dl_stash r.1, rfl, ?_, ?_, B.size_write _ _, hsize⟩
        · rw [hstash, hgot, List.take_of_length_le hall, List.take_of_length_le (by omega)]
        · rw [hrest, List.drop_of_length_le hall, List.drop_of_length_le (by omega)]
      · rename_i hlong
        have hblock : r.1.length = blockSize := by omega
        obtain ⟨play, stash, heq, hstash', hplay', hsizes, hsizep⟩ := topUp_spec
          ({ tp with play_buffer := r.2, dl_stash := B.write tp.dl_stash r.1 } : Playback B R)
          need channels rate hplain (by rw [B.size_write]; exact hroom)
        dsimp only at hstash' hplay' hsizes hsizep
        rw [hstash, List.length_append, hblock, ← Nat.sub_sub, hrest] at hstash' hplay'
        refine ⟨play, stash, heq, ?_, ?_, hsizes.trans (B.size_write _ _), hsizep.trans hsize⟩
        · rw [hstash', hblocks, List.take_add, hgot, List.append_assoc]
        · rw [hplay', hblocks, List.drop_drop]
  · rename_i hneed
    have hzero : need - (B.contents tp.dl_stash).length = 0 := by omega
    refine ⟨tp.play_buffer, tp.dl_stash, rfl, ?_, ?_, rfl, rfl⟩
    · rw [hzero, blocks_zero, List.take_zero, List.append_nil]
    · rw [hzero, blocks_zero, List.drop_zero]
termination_by B.inuse tp.play_buffer
decreasing_by exact hless

-- ============================================================================
-- The code computes the queue
-- ============================================================================

/-- What waits in the buffers. -/
def Playback.waiting (tp : Playback B R) : Waiting :=
  ⟨B.contents tp.dl_stash, B.contents tp.play_buffer⟩

/-- The downlink of a channel that writes at the rate of the stream. -/
structure PlaybackInv (sampling channels : Nat) (tp : Playback B R) : Prop where
  live : tp.cleanup_started = false
  sampling_eq : tp.sampling = sampling
  plain : tp.dl_resampler = none
  rate : tp.dl_rate = sampling ∨ B.contents tp.dl_stash = []
  silent : sampling = 0 → B.contents tp.dl_stash = []
  size_play : B.size tp.play_buffer = playBuflen sampling channels
  size_stash : B.size tp.dl_stash = stashBuflen channels
  stash_le : (B.contents tp.dl_stash).length ≤ switchRecommendedBufferSize + blockSize
  stashFull : tp.stashFull = false

/-- A call the module can get: a message that fits `play_buffer`, a frame of the
    stream's rate that fits a media buffer. -/
def PlaybackOp.Fits (sampling channels : Nat) : PlaybackOp → Prop
  | .onBinary data => data.length ≤ playBuflen sampling channels
  | .clearPlayback => True
  | .streamPlaybackFrame frame =>
      frame.rate = sampling ∧ frame.data.length ≤ switchRecommendedBufferSize

theorem playbackInv_init (sampling channels : Nat) :
    PlaybackInv sampling channels (Playback.init B R sampling channels) where
  live := rfl
  sampling_eq := rfl
  plain := rfl
  rate := .inr (B.contents_create _)
  silent := fun _ => B.contents_create _
  size_play := B.size_create _
  size_stash := B.size_create _
  stash_le := by
    show (B.contents (B.create _)).length ≤ _
    rw [B.contents_create]
    decide
  stashFull := rfl

theorem waiting_init (sampling channels : Nat) :
    (Playback.init B R sampling channels).waiting = ⟨[], []⟩ := by
  show Waiting.mk (B.contents (B.create _)) (B.contents (B.create _)) = _
  rw [B.contents_create, B.contents_create]

/-- A call keeps the invariant and does to the queue what `Waiting.exec` says. -/
structure Simulates (sampling channels : Nat) (tp : Playback B R) (op : PlaybackOp) : Prop where
  inv : PlaybackInv sampling channels (tp.exec op).1
  waiting : (tp.exec op).1.waiting = (tp.waiting.exec (playBuflen sampling channels) op).1
  output : (tp.exec op).2 = (tp.waiting.exec (playBuflen sampling channels) op).2

variable {sampling channels : Nat}

theorem onBinary_simulates {tp : Playback B R} (h : PlaybackInv sampling channels tp)
    {data : Bytes} (hfits : data.length ≤ playBuflen sampling channels) :
    Simulates sampling channels tp (.onBinary data) := by
  have hle := B.contents_le tp.play_buffer
  have hsize := size_makeRoom data.length tp.play_buffer
  have hcontents := contents_makeRoom data.length tp.play_buffer
  rw [h.size_play] at hle hsize hcontents
  have hfree := B.freespace_eq (makeRoom data.length tp.play_buffer)
  have hroom : data.length ≤ B.freespace (makeRoom data.length tp.play_buffer) := by
    have hblocks := le_blocks
      (data.length - (playBuflen sampling channels - (B.contents tp.play_buffer).length))
    rw [hfree, hsize, hcontents, List.length_drop]
    omega
  have hexec : tp.exec (.onBinary data) = ({ tp with
      play_buffer := B.write (makeRoom data.length tp.play_buffer) data }, none) := by
    rw [Playback.exec, Playback.onBinary, h.live]
    dsimp only
    rw [if_neg Bool.false_ne_true, if_pos hroom]
  constructor
  · rw [hexec]
    exact ⟨h.live, h.sampling_eq, h.plain, h.rate, h.silent, (B.size_write _ _).trans hsize,
      h.size_stash, h.stash_le, h.stashFull⟩
  · rw [hexec]
    show Waiting.mk _ (B.contents (B.write _ _)) = Waiting.mk _ _
    rw [B.contents_write _ _ hroom, hcontents]
    rfl
  · rw [hexec]
    rfl

theorem clearPlayback_simulates {tp : Playback B R} (h : PlaybackInv sampling channels tp) :
    Simulates sampling channels tp .clearPlayback := by
  constructor
  · refine ⟨h.live, h.sampling_eq, ?_, .inr (B.contents_zero _), fun _ => B.contents_zero _,
      (B.size_zero _).trans h.size_play, (B.size_zero _).trans h.size_stash, ?_, h.stashFull⟩
    · show tp.dl_resampler.map R.resetMem = none
      rw [h.plain]
      rfl
    · show (B.contents (B.zero _)).length ≤ _
      rw [B.contents_zero]
      exact Nat.zero_le _
  · show Waiting.mk (B.contents (B.zero _)) (B.contents (B.zero _)) = _
    rw [B.contents_zero, B.contents_zero]
    rfl
  · rfl

/-- At the rate of the stream, learning the rate of the channel changes no audio. -/
theorem learnRate_inv {tp : Playback B R} (h : PlaybackInv sampling channels tp) (c : Nat) :
    PlaybackInv sampling channels (tp.learnRate c sampling) ∧
      (tp.learnRate c sampling).waiting = tp.waiting ∧
      (tp.learnRate c sampling).dl_rate = sampling := by
  unfold Playback.learnRate
  split
  · rename_i hne
    have hempty : B.contents tp.dl_stash = [] := h.rate.resolve_left hne
    refine ⟨⟨h.live, h.sampling_eq, ?_, .inl rfl, fun _ => B.contents_zero _, h.size_play,
      (B.size_zero _).trans h.size_stash, ?_, h.stashFull⟩, ?_, rfl⟩
    · show (if sampling ≠ tp.sampling then _ else none) = none
      rw [if_neg (by rw [h.sampling_eq]; exact not_not_intro rfl)]
    · show (B.contents (B.zero _)).length ≤ _
      rw [B.contents_zero]
      exact Nat.zero_le _
    · show Waiting.mk (B.contents (B.zero _)) _ = Waiting.mk _ _
      rw [B.contents_zero, hempty]
  · rename_i heq
    exact ⟨h, rfl, not_not.mp heq⟩

/-- The stash has room for a frame and the block that completes it. -/
theorem stash_room (hch : 0 < channels) {need : Nat} (hneed : need ≤ switchRecommendedBufferSize) :
    need + blockSize ≤ stashBuflen channels := by
  unfold switchRecommendedBufferSize at hneed
  unfold blockSize stashBuflen maxPlayBufferMs
  omega

/-- A frame the code does not look at finds nothing to play, or needs nothing. -/
theorem frame_skipped {tp : Playback B R} (h : PlaybackInv sampling channels tp) {need : Nat}
    (hskip : need = 0 ∨ sampling = 0) : tp.waiting.frame need = (tp.waiting, none) := by
  by_cases h0 : need = 0
  · rw [Waiting.frame, if_pos h0]
  · have hsampling := hskip.resolve_left h0
    have hstash : tp.waiting.stash = [] := h.silent hsampling
    have hplay : tp.waiting.play = [] := by
      have hle := B.contents_le tp.play_buffer
      rw [h.size_play, hsampling, playBuflen] at hle
      simp only [Nat.zero_mul, Nat.le_zero] at hle
      exact List.length_eq_zero_iff.mp hle
    have hempty : tp.waiting = ⟨[], []⟩ :=
      calc tp.waiting = ⟨tp.waiting.stash, tp.waiting.play⟩ := rfl
        _ = ⟨[], []⟩ := by rw [hstash, hplay]
    have htop : Waiting.topUp ⟨[], []⟩ need = ⟨[], []⟩ := by simp [Waiting.topUp]
    rw [hempty, Waiting.frame, if_neg h0, htop]
    have hnot : ¬ need ≤ 0 := by omega
    exact if_neg hnot

/-- The downlink once a frame has learned the rate and topped up the stash. -/
theorem toppedUp_inv (hch : 0 < channels) (hrate : sampling ≠ 0) {tp : Playback B R}
    (h : PlaybackInv sampling channels tp) (c : Nat) {need : Nat}
    (hneed : need ≤ switchRecommendedBufferSize) :
    PlaybackInv sampling channels ((tp.learnRate c sampling).topUp need c sampling) ∧
      ((tp.learnRate c sampling).topUp need c sampling).waiting = tp.waiting.topUp need ∧
      ((tp.learnRate c sampling).topUp need c sampling).dl_rate = sampling := by
  obtain ⟨hinv, hwaiting, hlearned⟩ := learnRate_inv h c
  obtain ⟨play, stash, htop, hstash, hplay, hsizes, hsizep⟩ := topUp_spec
    (tp.learnRate c sampling) need c sampling hinv.plain
    (by rw [hinv.size_stash]; exact stash_room hch hneed)
  have hmoved : Waiting.mk (B.contents stash) (B.contents play) = tp.waiting.topUp need := by
    rw [hstash, hplay, ← hwaiting]
    rfl
  have hbound : (B.contents stash).length ≤ max tp.waiting.stash.length (need + blockSize) := by
    have hlength := Waiting.length_topUp tp.waiting need
    rw [← hmoved] at hlength
    exact hlength
  have hle : tp.waiting.stash.length ≤ _ := h.stash_le
  rw [htop]
  refine ⟨⟨hinv.live, hinv.sampling_eq, hinv.plain, .inl hlearned, fun h0 => absurd h0 hrate,
    hsizep.trans hinv.size_play, hsizes.trans hinv.size_stash, ?_, hinv.stashFull⟩, hmoved,
    hlearned⟩
  show (B.contents stash).length ≤ _
  omega

theorem streamPlaybackFrame_simulates (hch : 0 < channels) {tp : Playback B R}
    (h : PlaybackInv sampling channels tp) {frame : WriteFrame} (hrate : frame.rate = sampling)
    (hneed : frame.data.length ≤ switchRecommendedBufferSize) :
    Simulates sampling channels tp (.streamPlaybackFrame frame) := by
  by_cases hskip : frame.data.length = 0 ∨ frame.rate = 0
  · have hexec : tp.exec (.streamPlaybackFrame frame) = (tp, none) := by
      rw [Playback.exec, Playback.streamPlaybackFrame, h.live, if_neg Bool.false_ne_true,
        if_pos hskip]
    have hqueue : tp.waiting.exec (playBuflen sampling channels) (.streamPlaybackFrame frame)
        = (tp.waiting, none) := frame_skipped h (hrate ▸ hskip)
    constructor
    · rw [hexec]
      exact h
    · rw [hexec, hqueue]
    · rw [hexec, hqueue]
  · have hne : frame.data.length ≠ 0 := fun h0 => hskip (.inl h0)
    have hsampling : sampling ≠ 0 := fun h0 => hskip (.inr (hrate.trans h0))
    generalize hc : (if 0 < frame.channels then frame.channels else 1) = c
    obtain ⟨hinv, hwaiting, hlearned⟩ := toppedUp_inv hch hsampling h c hneed
    generalize htp : (tp.learnRate c sampling).topUp frame.data.length c sampling = tp'
    rw [htp] at hinv hwaiting hlearned
    have hstash : (tp.waiting.topUp frame.data.length).stash = B.contents tp'.dl_stash := by
      rw [← hwaiting]
      rfl
    have hplay : (tp.waiting.topUp frame.data.length).play = B.contents tp'.play_buffer := by
      rw [← hwaiting]
      rfl
    have hexec : tp.exec (.streamPlaybackFrame frame)
        = if frame.data.length ≤ B.inuse tp'.dl_stash then
            ({ tp' with
                dl_stash := (B.read tp'.dl_stash frame.data.length).2
                replaced := tp'.replaced + 1 },
              some (B.read tp'.dl_stash frame.data.length).1)
          else ({ tp' with underruns := tp'.underruns + 1 }, none) := by
      rw [Playback.exec, Playback.streamPlaybackFrame, h.live, if_neg Bool.false_ne_true,
        if_neg hskip]
      dsimp only
      rw [hc, hrate, htp]
    have hqueue : tp.waiting.exec (playBuflen sampling channels) (.streamPlaybackFrame frame)
        = if frame.data.length ≤ (B.contents tp'.dl_stash).length then
            (⟨(B.contents tp'.dl_stash).drop frame.data.length, B.contents tp'.play_buffer⟩,
              some ((B.contents tp'.dl_stash).take frame.data.length))
          else (tp'.waiting, none) := by
      rw [Waiting.exec, Waiting.frame, if_neg hne]
      dsimp only
      rw [hstash, hplay, hwaiting]
    rw [B.inuse_eq] at hexec
    by_cases hfull : frame.data.length ≤ (B.contents tp'.dl_stash).length
    · rw [if_pos hfull] at hexec hqueue
      constructor
      · rw [hexec]
        refine ⟨hinv.live, hinv.sampling_eq, hinv.plain, .inl hlearned,
          fun h0 => absurd h0 hsampling, hinv.size_play,
          (B.size_read _ _).trans hinv.size_stash, ?_, hinv.stashFull⟩
        have hle := hinv.stash_le
        show (B.contents (B.read _ _).2).length ≤ _
        rw [B.contents_read, List.length_drop]
        omega
      · rw [hexec, hqueue]
        show Waiting.mk (B.contents (B.read _ _).2) _ = _
        rw [B.contents_read]
      · rw [hexec, hqueue, B.read_fst]
    · rw [if_neg hfull] at hexec hqueue
      constructor
      · rw [hexec]
        exact ⟨hinv.live, hinv.sampling_eq, hinv.plain, .inl hlearned, hinv.silent,
          hinv.size_play, hinv.size_stash, hinv.stash_le, hinv.stashFull⟩
      · rw [hexec, hqueue]
        rfl
      · rw [hexec, hqueue]

theorem simulates (hch : 0 < channels) {tp : Playback B R} (h : PlaybackInv sampling channels tp)
    {op : PlaybackOp} (hfits : op.Fits sampling channels) : Simulates sampling channels tp op := by
  cases op with
  | onBinary data => exact onBinary_simulates h hfits
  | clearPlayback => exact clearPlayback_simulates h
  | streamPlaybackFrame frame => exact streamPlaybackFrame_simulates hch h hfits.1 hfits.2

-- ============================================================================
-- Runs
-- ============================================================================

theorem playbackInv_after (hch : 0 < channels) {ops : List PlaybackOp}
    (hops : ∀ op ∈ ops, op.Fits sampling channels) {tp : Playback B R}
    (h : PlaybackInv sampling channels tp) : PlaybackInv sampling channels (tp.after ops) := by
  induction ops generalizing tp with
  | nil => exact h
  | cons op ops ih =>
      have hstep := simulates hch h (hops op List.mem_cons_self)
      exact ih (fun op' hop' => hops op' (List.mem_cons_of_mem _ hop')) hstep.inv

/-- What a run plays is a function of the bytes that wait. -/
theorem outputs_eq (hch : 0 < channels) {ops : List PlaybackOp}
    (hops : ∀ op ∈ ops, op.Fits sampling channels) {tp : Playback B R}
    (h : PlaybackInv sampling channels tp) :
    tp.outputs ops = tp.waiting.outputs (playBuflen sampling channels) ops := by
  induction ops generalizing tp with
  | nil => rfl
  | cons op ops ih =>
      have hstep := simulates hch h (hops op List.mem_cons_self)
      have hrest := ih (fun op' hop' => hops op' (List.mem_cons_of_mem _ hop')) hstep.inv
      rw [Playback.outputs, Waiting.outputs, hrest, hstep.waiting, hstep.output]

/-- The queue laws in a state of the downlink. -/
structure PlaysFifo (sampling channels : Nat) (tp : Playback B R) : Prop where
  /-- A frame the queue can fill gets its first bytes. -/
  replaced : ∀ frame : WriteFrame, (PlaybackOp.streamPlaybackFrame frame).Fits sampling channels →
    frame.data ≠ [] → frame.data.length ≤ tp.waiting.queue.length →
    (tp.streamPlaybackFrame frame).2 = some (tp.waiting.queue.take frame.data.length) ∧
      (tp.streamPlaybackFrame frame).1.waiting.queue = tp.waiting.queue.drop frame.data.length
  /-- Any other frame passes, and nothing is lost. -/
  passed : ∀ frame : WriteFrame, (PlaybackOp.streamPlaybackFrame frame).Fits sampling channels →
    frame.data = [] ∨ tp.waiting.queue.length < frame.data.length →
    (tp.streamPlaybackFrame frame).2 = none ∧
      (tp.streamPlaybackFrame frame).1.waiting.queue = tp.waiting.queue
  /-- A message goes to the end; only the oldest of `play_buffer` make room for it. -/
  received : ∀ data : Bytes, (PlaybackOp.onBinary data).Fits sampling channels →
    (tp.onBinary data).waiting.stash = tp.waiting.stash ∧
    ∃ lost, (tp.onBinary data).waiting.play = tp.waiting.play.drop lost ++ data ∧
      (tp.waiting.play.length + data.length ≤ playBuflen sampling channels → lost = 0)
  /-- The branch for a full stash has not been taken. -/
  stashFull : tp.stashFull = false
  /-- After a clear a run plays what it would play on a fresh downlink: bytes it
      receives itself, in order. -/
  cleared : ∀ ops : List PlaybackOp, (∀ op ∈ ops, op.Fits sampling channels) →
    tp.clearPlayback.outputs ops = (Playback.init B R sampling channels).outputs ops ∧
      (Waiting.played (tp.clearPlayback.outputs ops)).Sublist (Waiting.received ops)

theorem PlaybackInv.playsFifo (hch : 0 < channels) {tp : Playback B R}
    (h : PlaybackInv sampling channels tp) : PlaysFifo sampling channels tp where
  replaced := by
    intro frame hfits hne hle
    have hstep := simulates hch h hfits
    have hlen : frame.data.length ≠ 0 := fun h0 => hne (List.length_eq_zero_iff.mp h0)
    obtain ⟨hout, hqueue⟩ := Waiting.frame_of_le hlen hle
    exact ⟨hstep.output.trans hout, (congrArg Waiting.queue hstep.waiting).trans hqueue⟩
  passed := by
    intro frame hfits hlt
    have hstep := simulates hch h hfits
    obtain ⟨hout, hqueue⟩ := Waiting.frame_of_lt (hlt.imp_left List.length_eq_zero_iff.mpr)
    exact ⟨hstep.output.trans hout, (congrArg Waiting.queue hstep.waiting).trans hqueue⟩
  received := by
    intro data hfits
    have hwaiting := (simulates hch h hfits).waiting
    have hstash := congrArg Waiting.stash hwaiting
    have hplay := congrArg Waiting.play hwaiting
    refine ⟨hstash,
      blocks (data.length - (playBuflen sampling channels - tp.waiting.play.length)), hplay, ?_⟩
    intro hroom
    have hzero : data.length - (playBuflen sampling channels - tp.waiting.play.length) = 0 := by
      omega
    rw [hzero, blocks_zero]
  stashFull := h.stashFull
  cleared := by
    intro ops hops
    have hstep : Simulates sampling channels tp .clearPlayback := clearPlayback_simulates h
    have hclear : tp.clearPlayback.waiting = ⟨[], []⟩ := hstep.waiting
    have hout := outputs_eq hch hops hstep.inv
    have hfresh := outputs_eq hch hops (playbackInv_init (B := B) (R := R) sampling channels)
    have hempty : (tp.exec .clearPlayback).1.waiting = ⟨[], []⟩ := hclear
    rw [hempty] at hout
    rw [waiting_init] at hfresh
    refine ⟨hout.trans hfresh.symm, ?_⟩
    have hplayed := Waiting.played_sublist (playBuflen sampling channels) ops ⟨[], []⟩
    rw [← hout] at hplayed
    exact hplayed

/-- **Playback is a FIFO.**  After every run of calls on a channel that writes at
    the rate of the stream, the queue laws hold. -/
theorem playback_playsFifo (hch : 0 < channels) (ops : List PlaybackOp)
    (hops : ∀ op ∈ ops, op.Fits sampling channels) :
    PlaysFifo sampling channels ((Playback.init B R sampling channels).after ops) :=
  (playbackInv_after hch hops (playbackInv_init sampling channels)).playsFifo hch

end PlaybackFifo

/-- A resampler that gives nothing. -/
def silentResampler : PlaybackResampler where
  State := Unit
  init _ _ _ := some ()
  process σ _ _ _ := (σ, [])
  resetMem σ := σ

/-- Six bytes received, a frame of four, a clear and two bytes more. -/
def shortCall : List PlaybackOp :=
  [.onBinary [1, 2, 3, 4, 5, 6], .streamPlaybackFrame ⟨[0, 0, 0, 0], 8000, 1⟩, .clearPlayback,
    .onBinary [7, 8]]

theorem playback_playsFifo_shortCall :
    PlaysFifo 8000 1 ((Playback.init fifoBuffer silentResampler 8000 1).after shortCall) := by
  refine playback_playsFifo Nat.one_pos shortCall ?_
  simp [shortCall, PlaybackOp.Fits, playBuflen, maxPlayBufferMs, switchRecommendedBufferSize]

end FsBridge.Module
