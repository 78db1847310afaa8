/-
  FsBridge.Module.Downlink

  The downlink of a call, from the bytes of the transport to the frames the channel
  writes (`bindCallbacks`, `onBinary`, `clearPlayback`, `stream_playback_frame` and the
  flags of `stream_session_cleanup`, module/ws_bridge_glue.cpp).

  The event thread of the client queues the binary messages and clears the queue for a
  control text; the media thread plays; another thread tears the stream down.  What
  they do to the buffers they do under `play_mutex`, so a callback is one action with
  the step of the client that makes it.

  * `heard_after_clear`: what the server sent before a control text is not heard once
    the text has been delivered.
  * `heard_of_roomy`: what is not dropped for want of room is heard, all of it.
-/

import FsBridge.Libwsc.Inbound
import FsBridge.Module.PlaybackOverflow

namespace FsBridge.Module

open FsBridge.Lib
open FsBridge.Libwsc (Zlib App Config Callback Client)

-- ============================================================================
-- What can be heard
-- ============================================================================

/-- What can still be heard behind a call, where `audible` could be before. -/
def PlaybackOp.leaves (audible : Bytes) : PlaybackOp → Bytes
  | .onBinary data => audible ++ data
  | .clearPlayback => []
  | .streamPlaybackFrame _ => audible

section Audible

variable {B : SwitchBuffer} {R : PlaybackResampler} {sampling channels : Nat}

/-- What waits to be played; a stream that is torn down plays nothing. -/
def Playback.audible (tp : Playback B R) : Bytes :=
  if tp.cleanup_started then [] else tp.waiting.queue

/-- The downlink plays at the rate of the stream, or is torn down. -/
def Playback.Ready (sampling channels : Nat) (tp : Playback B R) : Prop :=
  tp.cleanup_started = true ∨ PlaybackInv sampling channels tp

theorem Playback.audible_live {tp : Playback B R} (hlive : tp.cleanup_started = false) :
    tp.audible = tp.waiting.queue := by
  rw [audible, hlive, if_neg Bool.false_ne_true]

theorem Playback.audible_closing {tp : Playback B R} (hclosing : tp.cleanup_started = true) :
    tp.audible = [] := if_pos hclosing

/-- A message that is longer than the buffer empties it. -/
theorem onBinary_overlong {tp : Playback B R} (h : PlaybackInv sampling channels tp)
    {data : Bytes} (hlong : playBuflen sampling channels < data.length) :
    PlaybackInv sampling channels (tp.onBinary data) ∧
      (tp.onBinary data).waiting.queue = tp.waiting.stash := by
  have hlong' : B.size tp.play_buffer < data.length := h.size_play ▸ hlong
  have hempty := contents_onBinary_overlong h.live hlong'
  have hplay := onBinary_live h.live data
  have hnone : ¬ data.length ≤ B.freespace (makeRoom data.length tp.play_buffer) := by
    rw [B.freespace_eq, size_makeRoom]
    omega
  rw [if_neg hnone] at hplay
  have hrest : tp.onBinary data =
      { tp with play_buffer := makeRoom data.length tp.play_buffer } := by
    rw [Playback.onBinary, h.live, if_neg Bool.false_ne_true]
    dsimp only
    rw [if_neg hnone]
  refine ⟨?_, ?_⟩
  · rw [hrest]
    exact ⟨h.live, h.sampling_eq, h.plain, h.rate, h.silent,
      (size_makeRoom _ _).trans h.size_play, h.size_stash, h.stash_le, h.stashFull⟩
  · show B.contents (tp.onBinary data).dl_stash ++ B.contents (tp.onBinary data).play_buffer = _
    rw [hempty, hrest, List.append_nil]
    rfl

/-- What a call plays and leaves to be played was to be played before. -/
structure Plays (sampling channels : Nat) (tp : Playback B R) (op : PlaybackOp) : Prop where
  ready : (tp.exec op).1.Ready sampling channels
  order : ((tp.exec op).2.getD [] ++ (tp.exec op).1.audible).Sublist (op.leaves tp.audible)

/-- A call on a downlink that is torn down. -/
theorem plays_closing {tp : Playback B R} (hclosing : tp.cleanup_started = true)
    (op : PlaybackOp) : Plays sampling channels tp op := by
  have hnone := Playback.audible_closing hclosing
  cases op with
  | onBinary data =>
      have hsame : tp.exec (.onBinary data) = (tp, none) :=
        congrArg (·, none) (onBinary_closing hclosing data)
      refine ⟨by rw [hsame]; exact .inl hclosing, ?_⟩
      rw [hsame]
      show ([] ++ tp.audible).Sublist _
      rw [hnone]
      exact List.nil_sublist _
  | clearPlayback =>
      refine ⟨.inl hclosing, ?_⟩
      have hnone' : tp.clearPlayback.audible = [] := Playback.audible_closing hclosing
      show ([] ++ tp.clearPlayback.audible).Sublist []
      rw [hnone']
      exact List.Sublist.refl _
  | streamPlaybackFrame frame =>
      have hsame : tp.exec (.streamPlaybackFrame frame) = (tp, none) := if_pos hclosing
      refine ⟨by rw [hsame]; exact .inl hclosing, ?_⟩
      rw [hsame]
      exact List.Sublist.refl _

/-- Where a call does to the queue what `Waiting.exec` says. -/
theorem plays_of_simulates {tp : Playback B R} {op : PlaybackOp}
    (h : PlaybackInv sampling channels tp) (hsim : Simulates sampling channels tp op) :
    Plays sampling channels tp op := by
  refine ⟨.inr hsim.inv, ?_⟩
  have hafter : (tp.exec op).1.audible =
      (tp.waiting.exec (playBuflen sampling channels) op).1.queue :=
    (Playback.audible_live hsim.inv.live).trans (congrArg Waiting.queue hsim.waiting)
  rw [hafter, hsim.output, Playback.audible_live h.live]
  have horder := Waiting.exec_sublist (playBuflen sampling channels) tp.waiting op
  cases op with
  | onBinary data => simpa [PlaybackOp.leaves, Waiting.received] using horder
  | clearPlayback => exact List.Sublist.refl _
  | streamPlaybackFrame frame => simpa [PlaybackOp.leaves, Waiting.received] using horder

/-- Every call on a channel that writes at the rate of the stream. -/
theorem plays_exec (hch : 0 < channels) {tp : Playback B R} (h : tp.Ready sampling channels)
    {op : PlaybackOp}
    (hframe : ∀ frame, op = .streamPlaybackFrame frame → op.Fits sampling channels) :
    Plays sampling channels tp op := by
  rcases h with hclosing | h
  · exact plays_closing hclosing op
  cases op with
  | onBinary data =>
      by_cases hfits : data.length ≤ playBuflen sampling channels
      · exact plays_of_simulates h (onBinary_simulates h hfits)
      · obtain ⟨hinv, hqueue⟩ := onBinary_overlong h (Nat.lt_of_not_le hfits)
        refine ⟨.inr hinv, ?_⟩
        show ([] ++ (tp.onBinary data).audible).Sublist (tp.audible ++ data)
        rw [Playback.audible_live hinv.live, hqueue, Playback.audible_live h.live]
        exact ((List.sublist_append_left _ _).trans (List.sublist_append_left _ _))
  | clearPlayback => exact plays_of_simulates h (clearPlayback_simulates h)
  | streamPlaybackFrame frame =>
      exact plays_of_simulates h (simulates hch h (hframe frame rfl))

/-- What can still be heard behind calls. -/
def PlaybackOp.leavesAll (audible : Bytes) (ops : List PlaybackOp) : Bytes :=
  ops.foldl PlaybackOp.leaves audible

theorem leaves_mono {audible audible' : Bytes} (h : audible.Sublist audible') (op : PlaybackOp) :
    (op.leaves audible).Sublist (op.leaves audible') := by
  cases op with
  | onBinary data => exact h.append_right data
  | clearPlayback => exact List.Sublist.refl _
  | streamPlaybackFrame frame => exact h

theorem leavesAll_mono {audible audible' : Bytes} (h : audible.Sublist audible')
    (ops : List PlaybackOp) :
    (PlaybackOp.leavesAll audible ops).Sublist (PlaybackOp.leavesAll audible' ops) := by
  induction ops generalizing audible audible' with
  | nil => exact h
  | cons op ops ih => exact ih (leaves_mono h op)

/-- Nothing is left but what was there or has been received. -/
theorem leavesAll_sublist (audible : Bytes) (ops : List PlaybackOp) :
    (PlaybackOp.leavesAll audible ops).Sublist (audible ++ Waiting.received ops) := by
  induction ops generalizing audible with
  | nil => exact List.sublist_append_left _ _
  | cons op ops ih =>
      refine (ih (op.leaves audible)).trans ?_
      cases op with
      | onBinary data =>
          show (audible ++ data ++ _).Sublist (audible ++ (data ++ _))
          rw [List.append_assoc]
      | clearPlayback => exact List.sublist_append_right _ _
      | streamPlaybackFrame frame => exact List.Sublist.refl _

/-- The calls of the event thread: nothing is played in them. -/
theorem plays_after (hch : 0 < channels) {ops : List PlaybackOp}
    (hops : ∀ op ∈ ops, ∀ frame, op ≠ .streamPlaybackFrame frame) {tp : Playback B R}
    (h : tp.Ready sampling channels) :
    (tp.after ops).Ready sampling channels ∧
      (tp.after ops).audible.Sublist (PlaybackOp.leavesAll tp.audible ops) := by
  induction ops generalizing tp with
  | nil => exact ⟨h, List.Sublist.refl _⟩
  | cons op ops ih =>
      have hplays : Plays sampling channels tp op := plays_exec hch h fun frame hop =>
        absurd hop (hops op List.mem_cons_self frame)
      obtain ⟨hready, horder⟩ := ih (fun op' hop' => hops op' (List.mem_cons_of_mem _ hop'))
        hplays.ready
      have hleft := (List.sublist_append_right ((tp.exec op).2.getD []) _).trans hplays.order
      exact ⟨hready, horder.trans (leavesAll_mono hleft ops)⟩

end Audible

-- ============================================================================
-- The machine
-- ============================================================================

/-- What `bindCallbacks` does with a callback of the client, as far as it is about the
    playback; `isClear` is what cJSON makes of a text: an object whose `type` is
    `clear`. -/
def playbackOp (isClear : Bytes → Bool) : Callback → Option PlaybackOp
  | .binary data => some (.onBinary data)
  | .message text => if isClear text then some .clearPlayback else none
  | .opened | .error _ _ | .closed _ _ => none

/-- The audio in the callbacks. -/
def audio : List Callback → Bytes
  | [] => []
  | .binary data :: cbs => data ++ audio cbs
  | _ :: cbs => audio cbs

structure Downlink (Z : Zlib) (B : SwitchBuffer) (R : PlaybackResampler) where
  client : Client Z
  playback : Playback B R
  /-- `m_cleanedUp`: the callbacks of the client are not followed any more. -/
  cleanedUp : Bool

inductive DownlinkAct where
  | client (a : Libwsc.Act)
  /-- The channel writes a frame. -/
  | frame (frame : WriteFrame)
  /-- `stream_session_cleanup` sets `cleanup_started`. -/
  | cleanup
  | markCleanedUp
deriving DecidableEq, Repr

namespace DownlinkAct

def clientAct : DownlinkAct → Option Libwsc.Act
  | client a => some a
  | frame _ | cleanup | markCleanedUp => none

/-- The frames are written at the rate of the stream. -/
def AtRate (sampling : Nat) : DownlinkAct → Prop
  | frame f => f.rate = sampling ∧ f.data.length ≤ switchRecommendedBufferSize
  | client _ | cleanup | markCleanedUp => True

instance (sampling : Nat) : DecidablePred (AtRate sampling)
  | frame f => inferInstanceAs (Decidable (f.rate = sampling ∧ _))
  | client _ | cleanup | markCleanedUp => isTrue trivial

end DownlinkAct

namespace Downlink

variable {Z : Zlib} {B : SwitchBuffer} {R : PlaybackResampler}

section Steps

variable (cfg : Config) (app : App) (isClear : Bytes → Bool)

def init (sampling channels : Nat) : Downlink Z B R where
  client := .init
  playback := .init B R sampling channels
  cleanedUp := false

/-- The callbacks between two states of the client. -/
def news (client client' : Client Z) : List Callback :=
  client'.ctx.callbacks.drop client.ctx.callbacks.length

/-- The callbacks a step of the client makes, followed. -/
def follow (s : Downlink Z B R) (client : Client Z) : Downlink Z B R :=
  { s with
    client := client
    playback :=
      if s.cleanedUp then s.playback
      else s.playback.after ((news s.client client).filterMap (playbackOp isClear)) }

def step (s : Downlink Z B R) : DownlinkAct → Option (Downlink Z B R)
  | .client a => ((Client.machine cfg app).step s.client a).map (s.follow isClear)
  | .frame f => some { s with playback := (s.playback.streamPlaybackFrame f).1 }
  | .cleanup => some { s with playback := { s.playback with cleanup_started := true } }
  | .markCleanedUp =>
      if s.playback.cleanup_started then some { s with cleanedUp := true } else none

def machine (sampling channels : Nat) : Machine (Downlink Z B R) DownlinkAct where
  init := init sampling channels
  step := step cfg app isClear

/-- What an action puts into the frame the channel writes. -/
def heardBy (s : Downlink Z B R) : DownlinkAct → Bytes
  | .frame f => (s.playback.streamPlaybackFrame f).2.getD []
  | .client _ | .cleanup | .markCleanedUp => []

/-- What a schedule puts into the frames of the channel. -/
def heard (sampling channels : Nat) (s : Downlink Z B R) (as : List DownlinkAct) : Bytes :=
  (machine cfg app isClear sampling channels).observe heardBy s as

end Steps

variable {cfg : Config} {app : App} {isClear : Bytes → Bool} {sampling channels : Nat}

-- ============================================================================
-- One step
-- ============================================================================

theorem received_playbackOp (isClear : Bytes → Bool) (cbs : List Callback) :
    Waiting.received (cbs.filterMap (playbackOp isClear)) = audio cbs := by
  induction cbs with
  | nil => rfl
  | cons cb cbs ih =>
      cases cb with
      | binary data => exact congrArg (data ++ ·) ih
      | message text =>
          rw [List.filterMap_cons, playbackOp]
          cases isClear text <;> exact ih
      | opened | error _ _ | closed _ _ => exact ih

theorem not_frame_playbackOp {cbs : List Callback} {op : PlaybackOp}
    (h : op ∈ cbs.filterMap (playbackOp isClear)) (frame : WriteFrame) :
    op ≠ .streamPlaybackFrame frame := by
  obtain ⟨cb, -, hop⟩ := List.mem_filterMap.mp h
  cases cb with
  | binary data =>
      cases hop
      simp
  | message text =>
      rw [playbackOp] at hop
      split at hop
      · cases hop
        simp
      · cases hop
  | opened | error _ _ | closed _ _ => cases hop

/-- What can still be heard of what the callbacks have brought. -/
def owed (isClear : Bytes → Bool) (cbs : List Callback) : Bytes :=
  PlaybackOp.leavesAll [] (cbs.filterMap (playbackOp isClear))

theorem owed_append (cbs cbs' : List Callback) :
    owed isClear (cbs ++ cbs') =
      PlaybackOp.leavesAll (owed isClear cbs) (cbs'.filterMap (playbackOp isClear)) := by
  unfold owed PlaybackOp.leavesAll
  rw [List.filterMap_append, List.foldl_append]

/-- The callbacks of a step that the playback follows. -/
theorem follow_told {s : Downlink Z B R} {client : Client Z} {cbs : List Callback}
    (hcleaned : ¬ s.cleanedUp = true) (htold : s.client.ctx.callbacks ++ cbs = client.ctx.callbacks) :
    news s.client client = cbs ∧
      s.follow isClear client = { s with
        client := client
        playback := s.playback.after (cbs.filterMap (playbackOp isClear)) } := by
  have hnews : news s.client client = cbs := by
    rw [news, ← htold, List.drop_left]
  refine ⟨hnews, ?_⟩
  rw [follow, if_neg hcleaned, hnews]

structure Inv (isClear : Bytes → Bool) (sampling channels : Nat) (s : Downlink Z B R) :
    Prop where
  phase : s.client.Phase
  ready : s.playback.Ready sampling channels
  cleanedUp : s.cleanedUp = true → s.playback.cleanup_started = true
  owed : s.playback.audible.Sublist (owed isClear s.client.ctx.callbacks)

theorem inv_init : Inv isClear sampling channels (init sampling channels : Downlink Z B R) where
  phase := Client.phase_init
  ready := .inr (playbackInv_init sampling channels)
  cleanedUp := fun hc => absurd hc Bool.false_ne_true
  owed := by
    have hlive : (Playback.init B R sampling channels).cleanup_started = false := rfl
    show (Playback.init B R sampling channels).audible.Sublist _
    rw [Playback.audible_live hlive, waiting_init]
    exact List.nil_sublist _

/-- What an action makes heard, and leaves to be heard. -/
structure Hears (s s' : Downlink Z B R) (a : DownlinkAct) (cbs : List Callback) : Prop where
  told : s'.client.ctx.callbacks = s.client.ctx.callbacks ++ cbs
  order : (heardBy s a ++ s'.playback.audible).Sublist (s.playback.audible ++ audio cbs)

/-- A part of the downlink that is not the client. -/
theorem hears_aside {s s' : Downlink Z B R} {a : DownlinkAct} (hclient : s'.client = s.client)
    (horder : (heardBy s a ++ s'.playback.audible).Sublist s.playback.audible) :
    Hears s s' a [] :=
  ⟨by rw [hclient, List.append_nil], by rw [audio, List.append_nil]; exact horder⟩

theorem inv_step (hch : 0 < channels) {s s' : Downlink Z B R} {a : DownlinkAct}
    (h : Inv isClear sampling channels s) (hrate : a.AtRate sampling)
    (hstep : (machine cfg app isClear sampling channels).step s a = some s') :
    Inv isClear sampling channels s' ∧ ∃ cbs, Hears s s' a cbs := by
  cases a with
  | client a =>
      obtain ⟨client, hclient, rfl⟩ := Option.map_eq_some_iff.mp hstep
      obtain ⟨cbs, htold⟩ := Client.step_told h.phase hclient
      have hphase := Client.step_phase h.phase hclient
      by_cases hcleaned : s.cleanedUp = true
      · -- the callbacks are not followed, and nothing is heard any more
        have hclosing := Playback.audible_closing (h.cleanedUp hcleaned)
        have hfollow : s.follow isClear client = { s with client := client } := by
          rw [follow, if_pos hcleaned]
        rw [hfollow]
        refine ⟨⟨hphase, h.ready, h.cleanedUp, ?_⟩, cbs, htold.symm, ?_⟩
        · show s.playback.audible.Sublist _
          rw [hclosing]
          exact List.nil_sublist _
        · show ([] ++ s.playback.audible).Sublist _
          rw [hclosing]
          exact List.nil_sublist _
      · obtain ⟨-, hfollow⟩ := follow_told hcleaned htold
        have hops : ∀ op ∈ cbs.filterMap (playbackOp isClear), ∀ frame,
            op ≠ .streamPlaybackFrame frame := fun op hop => not_frame_playbackOp hop
        obtain ⟨hready, horder⟩ := plays_after hch hops h.ready
        rw [hfollow]
        refine ⟨⟨hphase, hready, fun hc => absurd hc hcleaned, ?_⟩, cbs, htold.symm, ?_⟩
        · show (s.playback.after _).audible.Sublist (Downlink.owed isClear client.ctx.callbacks)
          rw [← htold, owed_append]
          exact horder.trans (leavesAll_mono h.owed _)
        · show ([] ++ (s.playback.after _).audible).Sublist _
          rw [← received_playbackOp isClear cbs]
          exact horder.trans (leavesAll_sublist _ _)
  | frame f =>
      obtain rfl := Option.some.inj hstep
      have hplays : Plays sampling channels s.playback (.streamPlaybackFrame f) :=
        plays_exec hch h.ready fun _ _ => hrate
      have hleft := (List.sublist_append_right (heardBy s (.frame f)) _).trans hplays.order
      refine ⟨⟨h.phase, hplays.ready, fun hc => ?_, hleft.trans h.owed⟩, [],
        hears_aside rfl hplays.order⟩
      have hclosing := h.cleanedUp hc
      show (s.playback.streamPlaybackFrame f).1.cleanup_started = true
      rw [Playback.streamPlaybackFrame, if_pos hclosing]
      exact hclosing
  | cleanup =>
      obtain rfl := Option.some.inj hstep
      exact ⟨⟨h.phase, .inl rfl, fun _ => rfl, List.nil_sublist _⟩, [],
        hears_aside rfl (List.nil_sublist _)⟩
  | markCleanedUp =>
      obtain ⟨hclosing, rfl⟩ := Machine.of_guard hstep
      exact ⟨⟨h.phase, h.ready, fun _ => hclosing, h.owed⟩, [],
        hears_aside rfl (List.Sublist.refl _)⟩

-- ============================================================================
-- Runs
-- ============================================================================

theorem audio_append (cbs cbs' : List Callback) : audio (cbs ++ cbs') = audio cbs ++ audio cbs' := by
  induction cbs with
  | nil => rfl
  | cons cb cbs ih =>
      cases cb with
      | binary data =>
          show data ++ audio (cbs ++ cbs') = data ++ audio cbs ++ audio cbs'
          rw [ih, List.append_assoc]
      | message _ | opened | error _ _ | closed _ _ => exact ih

/-- The playback follows the messages only. -/
theorem filterMap_messages (isClear : Bytes → Bool) (cbs : List Callback) :
    (cbs.filter Callback.isMessage).filterMap (playbackOp isClear) =
      cbs.filterMap (playbackOp isClear) := by
  induction cbs with
  | nil => rfl
  | cons cb cbs ih =>
      cases cb with
      | message text =>
          show (Callback.message text :: cbs.filter Callback.isMessage).filterMap _ = _
          rw [List.filterMap_cons, List.filterMap_cons, ih]
      | binary data => exact congrArg (PlaybackOp.onBinary data :: ·) ih
      | opened | error _ _ | closed _ _ => exact ih

theorem audio_messages (cbs : List Callback) : audio (cbs.filter Callback.isMessage) = audio cbs := by
  rw [← received_playbackOp (fun _ => false), filterMap_messages, received_playbackOp]

theorem client_run {s t : Downlink Z B R} {as : List DownlinkAct}
    (hrun : (machine cfg app isClear sampling channels).run s as = some t) :
    (Client.machine cfg app).run s.client (as.filterMap DownlinkAct.clientAct) =
      some t.client := by
  refine Machine.run_project (f := client) (fun s a s' hstep => ?_) hrun
  cases a with
  | client a =>
      obtain ⟨client, hclient, rfl⟩ := Option.map_eq_some_iff.mp hstep
      exact (Machine.run_cons_of_step hclient []).trans rfl
  | frame f | cleanup =>
      obtain rfl := Option.some.inj hstep
      rfl
  | markCleanedUp =>
      obtain ⟨-, rfl⟩ := Machine.of_guard hstep
      rfl

/-- What a schedule makes heard and leaves to be heard was to be heard before, or has
    come in it. -/
theorem order_of_run (hch : 0 < channels) {s t : Downlink Z B R} {as : List DownlinkAct}
    (h : Inv isClear sampling channels s) (hrates : ∀ a ∈ as, a.AtRate sampling)
    (hrun : (machine cfg app isClear sampling channels).run s as = some t) :
    Inv isClear sampling channels t ∧ ∃ cbs,
      t.client.ctx.callbacks = s.client.ctx.callbacks ++ cbs ∧
      (heard cfg app isClear sampling channels s as ++ t.playback.audible).Sublist
        (s.playback.audible ++ audio cbs) := by
  induction as generalizing s with
  | nil =>
      cases hrun
      refine ⟨h, [], (List.append_nil _).symm, ?_⟩
      rw [audio, List.append_nil]
      exact List.Sublist.refl _
  | cons a as ih =>
      obtain ⟨s', hs', hrest⟩ := Machine.run_cons_some hrun
      obtain ⟨hinv, cbs, htold, horder⟩ := inv_step hch h (hrates a List.mem_cons_self) hs'
      obtain ⟨hinv', cbs', htold', horder'⟩ :=
        ih hinv (fun b hb => hrates b (List.mem_cons_of_mem a hb)) hrest
      refine ⟨hinv', cbs ++ cbs', by rw [htold', htold, List.append_assoc], ?_⟩
      unfold heard at horder' ⊢
      rw [Machine.observe, hs', audio_append, ← List.append_assoc]
      dsimp only
      rw [List.append_assoc]
      refine (horder'.append_left (heardBy s a)).trans ?_
      rw [← List.append_assoc]
      exact horder.append_right (audio cbs')

-- ============================================================================
-- What is cleared is not heard
-- ============================================================================

/-- A list that begins with a long enough part of another goes on in it. -/
theorem split_of_prefix {α : Type*} {l pre post : List α} {x : α} (h : l <+: pre ++ x :: post)
    (hlen : pre.length < l.length) : ∃ front, l = pre ++ x :: front ∧ front <+: post := by
  obtain ⟨rest, hrest⟩ := h
  rcases List.append_eq_append_iff.mp hrest with ⟨more, hpre, -⟩ | ⟨front, hfront, htail⟩
  · rw [hpre, List.length_append] at hlen
    omega
  · cases front with
    | nil =>
        rw [hfront, List.append_nil] at hlen
        omega
    | cons y front =>
        obtain ⟨rfl, hpost⟩ := List.cons.inj htail
        exact ⟨front, hfront, rest, hpost.symm⟩

theorem owed_after_clear {text : Bytes} (hclear : isClear text = true)
    (before after : List Callback) :
    (owed isClear (before ++ .message text :: after)).Sublist (audio after) := by
  have hop : playbackOp isClear (.message text) = some .clearPlayback := if_pos hclear
  rw [owed_append, List.filterMap_cons_some hop, ← received_playbackOp isClear after]
  exact leavesAll_sublist [] _

/-- A server accepts the handshake, and sends frames. -/
structure Serves (resp : Bytes) (fs : List (WsFrame × LengthForm)) : Prop where
  response : Libwsc.headerBytes resp = some resp.length
  accepted : Libwsc.upgradeAccepted resp = true
  writable : Libwsc.Writable fs

/-- The bytes a schedule reads from the transport. -/
def received (as : List DownlinkAct) : Bytes :=
  Libwsc.received (as.filterMap DownlinkAct.clientAct)

theorem received_append (as bs : List DownlinkAct) :
    received (as ++ bs) = received as ++ received bs := by
  unfold received Libwsc.received
  rw [List.filterMap_append, List.flatMap_append]

section Server

variable {resp : Bytes} {fs : List (WsFrame × LengthForm)}

theorem follows_server (hserver : Serves resp fs) {as : List DownlinkAct}
    {s : Downlink Z B R}
    (hrun : (machine cfg app isClear sampling channels).run (init sampling channels) as = some s)
    {more : Bytes} (hread : received as ++ more = resp ++ Libwsc.wire fs) :
    Client.Follows cfg resp fs s.client more :=
  Client.follows_of_run hserver.response hserver.accepted hserver.writable (client_run hrun) hread

/-- The messages of a client are those of the server, as far as they have come. -/
theorem messages_prefix (hserver : Serves resp fs) {as : List DownlinkAct}
    {s : Downlink Z B R}
    (hrun : (machine cfg app isClear sampling channels).run (init sampling channels) as = some s)
    {more : Bytes} (hread : received as ++ more = resp ++ Libwsc.wire fs) :
    s.client.ctx.messages <+: Client.arrives Z cfg resp fs :=
  (follows_server hserver hrun hread).messages

/-- What the server sent before a control text that has been delivered is not heard any
    more: what is heard from then on is audio that came behind the text, in order. -/
theorem heard_after_clear (hch : 0 < channels) (hserver : Serves resp fs)
    {pre post : List Callback} {text : Bytes}
    (harrives : Client.arrives Z cfg resp fs = pre ++ .message text :: post)
    (hclear : isClear text = true)
    {as bs : List DownlinkAct} (hrates : ∀ a ∈ as ++ bs, a.AtRate sampling) {s t : Downlink Z B R}
    (hrun : (machine cfg app isClear sampling channels).run (init sampling channels) as = some s)
    (hdelivered : pre.length < s.client.ctx.messages.length)
    (hrun' : (machine cfg app isClear sampling channels).run s bs = some t) {more : Bytes}
    (hread : received (as ++ bs) ++ more = resp ++ Libwsc.wire fs) :
    (heard cfg app isClear sampling channels s bs).Sublist (audio post) := by
  have hreadS : received as ++ (received bs ++ more) = resp ++ Libwsc.wire fs := by
    rw [← List.append_assoc, ← received_append]
    exact hread
  have hmessagesS := messages_prefix hserver hrun hreadS
  have hmessagesT := messages_prefix hserver ((Machine.run_append hrun bs).trans hrun') hread
  rw [harrives] at hmessagesS hmessagesT
  obtain ⟨since, hsince, -⟩ := split_of_prefix hmessagesS hdelivered
  obtain ⟨hinv, -⟩ := order_of_run hch (inv_init (Z := Z) (B := B) (R := R))
    (fun a ha => hrates a (List.mem_append_left bs ha)) hrun
  obtain ⟨-, cbs, htold, horder⟩ := order_of_run hch hinv
    (fun a ha => hrates a (List.mem_append_right as ha)) hrun'
  -- only what came behind the text is to be heard
  have howed : s.playback.audible.Sublist (audio since) := by
    refine hinv.owed.trans ?_
    unfold owed
    rw [← filterMap_messages, show s.client.ctx.callbacks.filter Callback.isMessage = _ from hsince]
    exact owed_after_clear hclear _ _
  have hlater : since ++ cbs.filter Callback.isMessage <+: post := by
    have hall : t.client.ctx.messages = s.client.ctx.messages ++ cbs.filter Callback.isMessage := by
      unfold Libwsc.Context.messages
      rw [htold, List.filter_append]
    rw [hall, hsince, List.append_assoc, List.cons_append, List.prefix_append_right_inj,
      List.cons_prefix_cons] at hmessagesT
    exact hmessagesT.2
  have hheard := (List.sublist_append_left _ _).trans
    (horder.trans (howed.append_right (audio cbs)))
  rw [← audio_messages cbs, ← audio_append] at hheard
  obtain ⟨rest, hrest⟩ := hlater
  rw [← hrest, audio_append]
  exact hheard.trans (List.sublist_append_left _ _)

end Server

/-- A text that cJSON reads as an object whose `type` is `clear`. -/
def clearText : Bytes := ascii "\x7b\"type\":\"clear\"\x7d"

/-- A mono stream of 8 kHz, of a client that asks for compression, behind a schedule. -/
def ran (as : List DownlinkAct)
    (h : ((machine (Z := .stored) (B := fifoBuffer) (R := silentResampler) .deflate .idle
      (· == clearText) 8000 1).run (init 8000 1) as).isSome) :
    Downlink .stored fifoBuffer silentResampler :=
  ((machine .deflate .idle (· == clearText) 8000 1).run (init 8000 1) as).get h

theorem run_ran {as bs : List DownlinkAct}
    (h : ((machine (Z := .stored) (B := fifoBuffer) (R := silentResampler) .deflate .idle
      (· == clearText) 8000 1).run (init 8000 1) as).isSome)
    (h' : ((machine (Z := .stored) (B := fifoBuffer) (R := silentResampler) .deflate .idle
      (· == clearText) 8000 1).run (init 8000 1) (as ++ bs)).isSome) :
    (machine .deflate .idle (· == clearText) 8000 1).run (ran as h) bs = some (ran (as ++ bs) h') :=
  Machine.run_get h h'

/-- The client connects, and reads what the server sends behind its response. -/
def serve (fs : List (WsFrame × LengthForm)) : List DownlinkAct :=
  [.client .run, .client (.connected none),
    .client (.read (Libwsc.deflateResponse ++ Libwsc.wire fs))]

/-- A binary message in one frame, compressed: a stored block, less the end of the flush. -/
def audioFrame (m : Bytes) : WsFrame :=
  { Libwsc.plainFrame true 2 (0 :: m.length.toUInt8 :: 0 :: ~~~m.length.toUInt8 :: 0xFF :: (m ++ [0]))
    with rsv1 := true }

/-- Two bytes, a clear and four bytes, in one segment. -/
def bargeIn : List (WsFrame × LengthForm) :=
  [(audioFrame [1, 2], .short), (Libwsc.plainFrame true 1 clearText, .short),
    (audioFrame [3, 4, 5, 6], .short)]

/-- What is stored is what arrives. -/
theorem sentAs_audioFrame {m : Bytes} {d : Libwsc.PerMessageDeflateConfig}
    (henabled : d.enabled = true) (hshort : m.length < Libwsc.inflateChunk)
    (hblocks : Libwsc.storedBlocks ((audioFrame m).payload ++ Libwsc.syncFlushTrailer).length
      ((audioFrame m).payload ++ Libwsc.syncFlushTrailer) =
        (((audioFrame m).payload ++ Libwsc.syncFlushTrailer).length, m)) :
    Libwsc.SentAs Libwsc.Inflater.decode true true (⟨d, some ()⟩ : Libwsc.Inflater .stored)
      ((audioFrame m).payload ++ []) m ⟨d, some ()⟩ := by
  rw [List.append_nil]
  exact ⟨rfl, Libwsc.decode_stored henabled () hshort hblocks⟩

/-- The clear has been delivered when the third message comes and a frame is played. -/
theorem heard_after_clear_bargeIn :
    (heard .deflate .idle (· == clearText) 8000 1
      (ran (serve bargeIn ++ [.client .frame, .client .frame]) (by decide +kernel))
      [.client .frame, .frame ⟨[0, 0, 0, 0], 8000, 1⟩]).Sublist [3, 4, 5, 6] := by
  have hserver : Serves Libwsc.deflateResponse bargeIn :=
    ⟨by decide +kernel, by decide +kernel, by decide⟩
  have hread : received (serve bargeIn ++ [.client .frame, .client .frame] ++
      [.client .frame, .frame ⟨[0, 0, 0, 0], 8000, 1⟩]) ++ [] =
      Libwsc.deflateResponse ++ Libwsc.wire bargeIn := by
    decide +kernel
  have harrives : Client.arrives .stored .deflate Libwsc.deflateResponse bargeIn =
      [.binary [1, 2]] ++ .message clearText :: [.binary [3, 4, 5, 6]] := by
    have htext : WellFormedUtf8 clearText := (Libwsc.isValidUtf8_iff _).mp (by decide +kernel)
    have hitems : Libwsc.Conforms Libwsc.Inflater.decode
        (Client.compressionOf .stored .deflate Libwsc.deflateResponse).1
        (Client.compressionOf .stored .deflate Libwsc.deflateResponse).2
        [.message false true (audioFrame [1, 2]).payload [], .message true false clearText [],
          .message false true (audioFrame [3, 4, 5, 6]).payload []]
        [.binary [1, 2], .text clearText, .binary [3, 4, 5, 6]] := by
      rw [Client.compressionOf_deflate]
      refine .message (by decide) (sentAs_audioFrame rfl (by decide) rfl) nofun ?_
      refine .message (by decide) ⟨List.append_nil _, rfl⟩ (fun _ => htext) ?_
      exact .message (by decide) (sentAs_audioFrame rfl (by decide) rfl) nofun (.nil _)
    exact Client.arrives_items hitems rfl
  exact heard_after_clear Nat.one_pos hserver harrives (by decide) (by decide +kernel)
    (Option.some_get _).symm (by decide +kernel) (run_ran _ (by decide +kernel)) hread

-- ============================================================================
-- Nothing is lost where there is room
-- ============================================================================

/-- The frames are written at the rate of the stream, the messages of each step of the
    client fit the room that is left, and the stream is not torn down. -/
def Roomy (cfg : Config) (app : App) (sampling channels : Nat) (s : Downlink Z B R) :
    DownlinkAct → Prop
  | .client a => ∀ client, (Client.machine cfg app).step s.client a = some client →
      s.playback.waiting.play.length + (audio (news s.client client)).length ≤
        playBuflen sampling channels
  | .frame f => (DownlinkAct.frame f).AtRate sampling
  | .cleanup => False
  | .markCleanedUp => True

instance (s : Downlink Z B R) : DecidablePred (Roomy cfg app sampling channels s)
  | .client a =>
      match h : (Client.machine cfg app).step s.client a with
      | none => .isTrue fun _ hc => nomatch h.symm.trans hc
      | some client => decidable_of_iff (s.playback.waiting.play.length +
          (audio (news s.client client)).length ≤ playBuflen sampling channels)
        ⟨fun hle _ hc => Option.some.inj (h.symm.trans hc) ▸ hle, fun hall => hall client h⟩
  | .frame f => inferInstanceAs (Decidable ((DownlinkAct.frame f).AtRate sampling))
  | .cleanup => .isFalse id
  | .markCleanedUp => .isTrue trivial

/-- Messages that fit are added to the queue. -/
theorem queue_after {tp : Playback B R} (h : PlaybackInv sampling channels tp)
    {ops : List PlaybackOp} (hops : ∀ op ∈ ops, ∃ data, op = .onBinary data)
    (hroom : tp.waiting.play.length + (Waiting.received ops).length ≤ playBuflen sampling channels) :
    PlaybackInv sampling channels (tp.after ops) ∧
      (tp.after ops).waiting.queue = tp.waiting.queue ++ Waiting.received ops := by
  induction ops generalizing tp with
  | nil => exact ⟨h, (List.append_nil _).symm⟩
  | cons op ops ih =>
      obtain ⟨data, rfl⟩ := hops op List.mem_cons_self
      have hlen : (Waiting.received (.onBinary data :: ops)).length =
        data.length + (Waiting.received ops).length := List.length_append
      rw [hlen] at hroom
      have hsim : Simulates sampling channels tp (.onBinary data) :=
        onBinary_simulates h (by omega)
      have hzero : data.length - (playBuflen sampling channels - tp.waiting.play.length) = 0 := by
        omega
      have hwaiting : (tp.exec (.onBinary data)).1.waiting =
          ⟨tp.waiting.stash, tp.waiting.play ++ data⟩ := by
        rw [hsim.waiting]
        show Waiting.mk _ (List.drop (blocks _) _ ++ data) = _
        rw [hzero, blocks_zero, List.drop_zero]
      obtain ⟨hinv, hqueue⟩ := ih hsim.inv
        (fun op' hop' => hops op' (List.mem_cons_of_mem _ hop')) (by
          rw [hwaiting, List.length_append]
          omega)
      refine ⟨hinv, hqueue.trans ?_⟩
      rw [hwaiting]
      show tp.waiting.stash ++ (tp.waiting.play ++ data) ++ _ =
        tp.waiting.stash ++ tp.waiting.play ++ (data ++ _)
      simp only [List.append_assoc]

theorem cleanup_started_exec (tp : Playback B R) {op : PlaybackOp}
    (h : ∀ frame, op ≠ .streamPlaybackFrame frame) :
    (tp.exec op).1.cleanup_started = tp.cleanup_started := by
  cases op with
  | onBinary data =>
      show (tp.onBinary data).cleanup_started = _
      unfold Playback.onBinary
      split <;> rfl
  | clearPlayback => rfl
  | streamPlaybackFrame frame => exact absurd rfl (h frame)

/-- The event thread does not tear the stream down. -/
theorem cleanup_started_after (tp : Playback B R) (cbs : List Callback) :
    (tp.after (cbs.filterMap (playbackOp isClear))).cleanup_started = tp.cleanup_started := by
  have hall : ∀ op ∈ cbs.filterMap (playbackOp isClear), ∀ frame,
      op ≠ .streamPlaybackFrame frame := fun op hop => not_frame_playbackOp hop
  generalize cbs.filterMap (playbackOp isClear) = ops at hall ⊢
  induction ops generalizing tp with
  | nil => rfl
  | cons op ops ih =>
      exact (ih _ fun op' hop' => hall op' (List.mem_cons_of_mem _ hop')).trans
        (cleanup_started_exec tp (hall op List.mem_cons_self))

/-- The callbacks have brought no control text. -/
def NoClear (isClear : Bytes → Bool) (cbs : List Callback) : Prop :=
  ∀ text, Callback.message text ∈ cbs → isClear text = false

theorem onBinary_of_noClear {cbs : List Callback} (h : NoClear isClear cbs) :
    ∀ op ∈ cbs.filterMap (playbackOp isClear), ∃ data, op = .onBinary data := by
  intro op hop
  obtain ⟨cb, hcb, hop⟩ := List.mem_filterMap.mp hop
  cases cb with
  | binary data =>
      cases hop
      exact ⟨data, rfl⟩
  | message text =>
      rw [playbackOp, h text hcb] at hop
      cases hop
  | opened | error _ _ | closed _ _ => cases hop

/-- All audio is heard or waits. -/
structure Whole (isClear : Bytes → Bool) (sampling channels : Nat) (heard : Bytes)
    (s : Downlink Z B R) : Prop where
  inv : Inv isClear sampling channels s
  live : s.playback.cleanup_started = false
  all : NoClear isClear s.client.ctx.callbacks →
    heard ++ s.playback.waiting.queue = audio s.client.ctx.callbacks

/-- A downlink that is not torn down plays. -/
theorem Whole.playbackInv {heard : Bytes} {s : Downlink Z B R}
    (h : Whole isClear sampling channels heard s) : PlaybackInv sampling channels s.playback := by
  rcases h.inv.ready with hclosing | hinv
  · exact absurd (hclosing.symm.trans h.live) (by decide)
  · exact hinv

theorem whole_step (hch : 0 < channels) {heard : Bytes} {s s' : Downlink Z B R} {a : DownlinkAct}
    (h : Whole isClear sampling channels heard s) (hroom : Roomy cfg app sampling channels s a)
    (hstep : (machine cfg app isClear sampling channels).step s a = some s') :
    Whole isClear sampling channels (heard ++ heardBy s a) s' := by
  have hrate : a.AtRate sampling := by
    cases a with
    | frame f => exact hroom
    | client a | cleanup | markCleanedUp => trivial
  have hinv := (inv_step hch h.inv hrate hstep).1
  cases a with
  | client a =>
      obtain ⟨client, hclient, rfl⟩ := Option.map_eq_some_iff.mp hstep
      obtain ⟨cbs, htold⟩ := Client.step_told h.inv.phase hclient
      have hcleaned : ¬ s.cleanedUp = true := fun hc =>
        absurd ((h.inv.cleanedUp hc).symm.trans h.live) (by decide)
      obtain ⟨hnews, hfollow⟩ := follow_told hcleaned htold
      have hfits := hroom client hclient
      rw [hnews, ← received_playbackOp isClear] at hfits
      rw [hfollow] at hinv ⊢
      refine ⟨hinv, (cleanup_started_after _ cbs).trans h.live, fun hnone => ?_⟩
      have hnone' : NoClear isClear (s.client.ctx.callbacks ++ cbs) := by
        rw [htold]
        exact hnone
      have hbefore := h.all fun text htext => hnone' text (List.mem_append_left cbs htext)
      obtain ⟨-, hqueue⟩ := queue_after h.playbackInv (onBinary_of_noClear fun text htext =>
        hnone' text (List.mem_append_right _ htext)) hfits
      show heard ++ [] ++ (s.playback.after _).waiting.queue = audio client.ctx.callbacks
      rw [hqueue, received_playbackOp, List.append_nil, ← List.append_assoc, hbefore,
        ← audio_append, htold]
  | frame f =>
      obtain rfl := Option.some.inj hstep
      have hsim := streamPlaybackFrame_simulates hch h.playbackInv hroom.1 hroom.2
      refine ⟨hinv, hsim.inv.live, fun hnone => ?_⟩
      have hafter : (s.playback.streamPlaybackFrame f).1.waiting = _ := hsim.waiting
      have hout : (s.playback.streamPlaybackFrame f).2 = _ := hsim.output
      show heard ++ (s.playback.streamPlaybackFrame f).2.getD [] ++
        (s.playback.streamPlaybackFrame f).1.waiting.queue = audio s.client.ctx.callbacks
      rw [← h.all hnone, hafter, hout, List.append_assoc]
      refine congrArg (heard ++ ·) ?_
      show (s.playback.waiting.frame f.data.length).2.getD [] ++
        (s.playback.waiting.frame f.data.length).1.queue = _
      by_cases hneed : f.data.length = 0 ∨ s.playback.waiting.queue.length < f.data.length
      · obtain ⟨hnothing, hsame⟩ := Waiting.frame_of_lt hneed
        rw [hnothing, hsame]
        rfl
      · obtain ⟨hnone, hle⟩ := not_or.mp hneed
        obtain ⟨hfirst, hrest⟩ := Waiting.frame_of_le hnone (Nat.le_of_not_lt hle)
        rw [hfirst, hrest, Option.getD_some, List.take_append_drop]
  | cleanup => exact hroom.elim
  | markCleanedUp =>
      obtain ⟨hclosing, rfl⟩ := Machine.of_guard hstep
      exact absurd (hclosing.symm.trans h.live) (by decide)

theorem whole_of_run (hch : 0 < channels) {as : List DownlinkAct} {t : Downlink Z B R}
    (hroom : (machine cfg app isClear sampling channels).Guarded
      (Roomy cfg app sampling channels) (init sampling channels : Downlink Z B R) as)
    (hrun : (machine cfg app isClear sampling channels).run (init sampling channels) as = some t) :
    Whole isClear sampling channels
      (heard cfg app isClear sampling channels (init sampling channels : Downlink Z B R) as) t := by
  refine Machine.guarded_induction
    (J := fun as (s : Downlink Z B R) => Whole isClear sampling channels
      (heard cfg app isClear sampling channels (init sampling channels : Downlink Z B R) as) s)
    ⟨inv_init, rfl, fun _ => ?_⟩ (fun as a s s' hbefore hs hok hstep => ?_) hroom hrun
  · show [] ++ (Playback.init B R sampling channels).waiting.queue = []
    rw [waiting_init]
    rfl
  · unfold heard at hs ⊢
    rw [Machine.observe_snoc hbefore hstep]
    exact whole_step hch hs hok hstep

section Server

variable {resp : Bytes} {fs : List (WsFrame × LengthForm)}

/-- A server that sends no control text, and audio no faster than it is played: what is
    heard and what waits is, byte for byte, the audio of the server as far as it has
    come, and all of it once the client has read everything and waits. -/
theorem heard_of_roomy (hch : 0 < channels) (hserver : Serves resp fs)
    (hclear : NoClear isClear (Client.arrives Z cfg resp fs)) {as : List DownlinkAct}
    (hroom : (machine cfg app isClear sampling channels).Guarded
      (Roomy cfg app sampling channels) (init sampling channels : Downlink Z B R) as)
    {t : Downlink Z B R}
    (hrun : (machine cfg app isClear sampling channels).run (init sampling channels) as = some t)
    {more : Bytes} (hread : received as ++ more = resp ++ Libwsc.wire fs) :
    heard cfg app isClear sampling channels (init sampling channels : Downlink Z B R) as ++
        t.playback.waiting.queue <+: audio (Client.arrives Z cfg resp fs) ∧
      (more = [] → t.client.pc ≠ .reading → t.client.ctx.rxIsTerminating = false →
        heard cfg app isClear sampling channels (init sampling channels : Downlink Z B R) as ++
          t.playback.waiting.queue = audio (Client.arrives Z cfg resp fs)) := by
  have hwhole := whole_of_run hch hroom hrun
  have hmessages := messages_prefix hserver hrun hread
  have hall := hwhole.all fun text htext => hclear text
    (hmessages.subset (List.mem_filter.mpr ⟨htext, rfl⟩))
  rw [hall, ← audio_messages]
  refine ⟨?_, fun hmore hpc hopen => ?_⟩
  · obtain ⟨rest, hrest⟩ := hmessages
    rw [← hrest, audio_append]
    exact List.prefix_append _ _
  · subst hmore
    exact congrArg audio ((follows_server hserver hrun hread).complete hserver.response hpc hopen)

end Server

/-- Four bytes and two, and a frame of four between them. -/
def twoMessages : List (WsFrame × LengthForm) :=
  [(audioFrame [1, 2, 3, 4], .short), (audioFrame [5, 6], .short)]

theorem heard_of_roomy_two :
    let as := serve twoMessages ++ [.client .frame, .frame ⟨[0, 0, 0, 0], 8000, 1⟩, .client .frame,
      .client .frame]
    let t := ran as (by decide +kernel)
    heard .deflate .idle (· == clearText) 8000 1 (init 8000 1 : Downlink .stored fifoBuffer
        silentResampler) as ++ t.playback.waiting.queue <+: [1, 2, 3, 4, 5, 6] ∧
      (([] : Bytes) = [] → t.client.pc ≠ .reading → t.client.ctx.rxIsTerminating = false →
        heard .deflate .idle (· == clearText) 8000 1 (init 8000 1 : Downlink .stored fifoBuffer
          silentResampler) as ++ t.playback.waiting.queue = [1, 2, 3, 4, 5, 6]) := by
  intro as t
  have hserver : Serves Libwsc.deflateResponse twoMessages :=
    ⟨by decide +kernel, by decide +kernel, by decide⟩
  have harrives : Client.arrives .stored .deflate Libwsc.deflateResponse twoMessages =
      [.binary [1, 2, 3, 4], .binary [5, 6]] := by
    have hitems : Libwsc.Conforms Libwsc.Inflater.decode
        (Client.compressionOf .stored .deflate Libwsc.deflateResponse).1
        (Client.compressionOf .stored .deflate Libwsc.deflateResponse).2
        [.message false true (audioFrame [1, 2, 3, 4]).payload [],
          .message false true (audioFrame [5, 6]).payload []]
        [.binary [1, 2, 3, 4], .binary [5, 6]] := by
      rw [Client.compressionOf_deflate]
      refine .message (by decide) (sentAs_audioFrame rfl (by decide) rfl) nofun ?_
      exact .message (by decide) (sentAs_audioFrame rfl (by decide) rfl) nofun (.nil _)
    exact Client.arrives_items hitems rfl
  have hclear : NoClear (· == clearText)
      (Client.arrives .stored .deflate Libwsc.deflateResponse twoMessages) := by
    intro text htext
    rw [harrives] at htext
    simp at htext
  have hroom : (machine .deflate .idle (· == clearText) 8000 1).Guarded
      (Roomy .deflate .idle 8000 1) (init 8000 1 : Downlink .stored fifoBuffer silentResampler)
      as := by
    decide +kernel
  have hrun : (machine .deflate .idle (· == clearText) 8000 1).run
      (init 8000 1 : Downlink .stored fifoBuffer silentResampler) as = some t :=
    (Option.some_get _).symm
  have hread : received as ++ [] = Libwsc.deflateResponse ++ Libwsc.wire twoMessages := by
    decide +kernel
  have hheard := heard_of_roomy Nat.one_pos hserver hclear hroom hrun hread
  rwa [harrives] at hheard

end Downlink

end FsBridge.Module
