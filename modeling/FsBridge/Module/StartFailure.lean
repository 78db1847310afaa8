/-
  FsBridge.Module.StartFailure

  Starts of a stream that fail (`start_capture`, module/mod_ws_bridge.c;
  `stream_session_init`, `stream_data_init`, `destroy_tech_pvt`,
  module/ws_bridge_glue.cpp), and what they leave on the channel.

  `stream_data_init` creates the streamer first, connects it and wraps it, and then
  does everything that can fail.  Each fallible call is an outcome of the model.
  `stream_session_cleanup`, which ends a stream that has started, is the only
  function that releases a streamer.
-/

import FsBridge.Lib.Ascii

namespace FsBridge.Module.StartFailure

inductive Status where
  | success
  | failure
deriving DecidableEq, Repr

/-- What `AudioStreamer::create` has made, and the wrapper around it. -/
structure Streamer where
  /-- `connect()` was called and `disconnect()` was not, and the peer has not closed
      the connection. -/
  connected : Bool
  /-- The callbacks of the client are set. -/
  callbacks : Bool
  /-- The `new std::shared_ptr` has not been deleted. -/
  wrapped : Bool
deriving DecidableEq, Repr

/-- `private_t`; `pAudioStreamer` is the number of its streamer on the channel. -/
structure TechPvt where
  pAudioStreamer : Option Nat
  mutex : Bool
  play_mutex : Bool
  sbuffer : Bool
  play_buffer : Bool
  dl_stash : Bool
  resampler : Bool
  cleanup_started : Bool
deriving DecidableEq, Repr

/-- A channel: its private value `MY_BUG_NAME`, as the user data of the bug, and every
    streamer made for it. -/
structure Channel where
  bug : Option TechPvt
  streamers : List Streamer
deriving DecidableEq, Repr

/-- What the fallible calls of a start return; `dropped`: the peer refuses or closes
    the connection before the start returns. -/
structure Outcomes where
  preAnswer : Bool
  alloc : Bool
  dropped : Bool
  createSbuffer : Bool
  createPlayBuffer : Bool
  createStash : Bool
  initResampler : Bool
  addBug : Bool
deriving DecidableEq, Repr

/-- What a start has done: its status, the channel, and the `tech_pvt` it allocated. -/
structure Result where
  status : Status
  channel : Channel
  tech : Option TechPvt
deriving DecidableEq, Repr

-- ============================================================================
-- The start
-- ============================================================================

/-- `memset(tech_pvt, 0, sizeof(private_t))`. -/
def TechPvt.zero : TechPvt := ⟨none, false, false, false, false, false, false, false⟩

/-- `AudioStreamer::create`, which binds the callbacks and connects, and the wrapper
    of its result. -/
def Channel.createStreamer (ch : Channel) (dropped : Bool) : Channel :=
  { ch with streamers := ch.streamers ++ [⟨!dropped, true, true⟩] }

/-- `stream_data_init`, on the channel of its session. -/
def streamDataInit (o : Outcomes) (sampling desiredSampling : Nat) (ch : Channel) : Result :=
  let tech_pvt := { TechPvt.zero with
    pAudioStreamer := some ch.streamers.length
    mutex := true
    play_mutex := true }
  let ch := ch.createStreamer o.dropped
  if !o.createSbuffer then ⟨.failure, ch, some tech_pvt⟩
  else
    let tech_pvt := { tech_pvt with sbuffer := true }
    if !o.createPlayBuffer then ⟨.failure, ch, some tech_pvt⟩
    else
      let tech_pvt := { tech_pvt with play_buffer := true }
      if !o.createStash then ⟨.failure, ch, some tech_pvt⟩
      else
        let tech_pvt := { tech_pvt with dl_stash := true }
        if desiredSampling ≠ sampling then
          if !o.initResampler then ⟨.failure, ch, some tech_pvt⟩
          else ⟨.success, ch, some { tech_pvt with resampler := true }⟩
        else ⟨.success, ch, some tech_pvt⟩

/-- `destroy_tech_pvt`. -/
def TechPvt.destroy (tech_pvt : TechPvt) : TechPvt :=
  { tech_pvt with resampler := false, mutex := false, play_mutex := false }

/-- `stream_session_init`. -/
def streamSessionInit (o : Outcomes) (sampling desiredSampling : Nat) (ch : Channel) : Result :=
  if !o.alloc then ⟨.failure, ch, none⟩
  else
    let r := streamDataInit o sampling desiredSampling ch
    match r.status with
    | .failure => { r with tech := r.tech.map TechPvt.destroy }
    | .success => r

/-- `start_capture`. -/
def startCapture (o : Outcomes) (sampling desiredSampling : Nat) (ch : Channel) : Result :=
  if ch.bug.isSome then ⟨.failure, ch, none⟩
  else if !o.preAnswer then ⟨.failure, ch, none⟩
  else
    let r := streamSessionInit o sampling desiredSampling ch
    match r.status with
    | .failure => r
    | .success =>
        if !o.addBug then { r with status := .failure }
        else { r with channel := { r.channel with bug := r.tech } }

/-- What `stream_session_cleanup` does to a streamer: `delete sp_wrap`,
    `markCleanedUp` and `disconnect`. -/
def Streamer.released (_ : Streamer) : Streamer := ⟨false, false, false⟩

/-- `stream_session_cleanup`. -/
def Channel.cleanup (ch : Channel) : Channel :=
  match ch.bug with
  | none => ch
  | some tech_pvt =>
      if tech_pvt.cleanup_started then ch
      else
        match tech_pvt.pAudioStreamer with
        | none => { ch with bug := none }
        | some i => ⟨none, ch.streamers.modify i Streamer.released⟩

-- ============================================================================
-- A failed start
-- ============================================================================

/-- A start leaves nothing behind: its streamers are closed and released, and all else
    is as a later start would have found it before. -/
structure LeavesNothing (before after : Channel) : Prop where
  closed : ∀ s ∈ after.streamers.drop before.streamers.length,
    s.connected = false ∧ s.callbacks = false
  released : ∀ s ∈ after.streamers.drop before.streamers.length, s.wrapped = false
  earlier : after.streamers.take before.streamers.length = before.streamers
  bug : after.bug = before.bug

/-- A start gets to `stream_data_init`. -/
def Reaches (o : Outcomes) (ch : Channel) : Prop :=
  ch.bug = none ∧ o.preAnswer = true ∧ o.alloc = true

instance (o : Outcomes) (ch : Channel) : Decidable (Reaches o ch) :=
  inferInstanceAs (Decidable (_ ∧ _ ∧ _))

/-- All that follows `AudioStreamer::create` succeeds. -/
def Completes (o : Outcomes) (sampling desiredSampling : Nat) : Prop :=
  o.createSbuffer = true ∧ o.createPlayBuffer = true ∧ o.createStash = true ∧
    (desiredSampling ≠ sampling → o.initResampler = true) ∧ o.addBug = true

instance (o : Outcomes) (sampling desiredSampling : Nat) :
    Decidable (Completes o sampling desiredSampling) :=
  inferInstanceAs (Decidable (_ ∧ _ ∧ _ ∧ _ ∧ _))

section

variable (o : Outcomes) (sampling desiredSampling : Nat) (ch : Channel)

/-- All that `stream_data_init` can do: whatever fails in it, it has made a streamer. -/
theorem streamDataInit_cases :
    (∃ tech_pvt, streamDataInit o sampling desiredSampling ch
        = ⟨.success, ch.createStreamer o.dropped, some tech_pvt⟩ ∧
      tech_pvt.pAudioStreamer = some ch.streamers.length ∧ tech_pvt.cleanup_started = false ∧
      o.createSbuffer = true ∧ o.createPlayBuffer = true ∧ o.createStash = true ∧
        (desiredSampling ≠ sampling → o.initResampler = true)) ∨
    (∃ tech_pvt, streamDataInit o sampling desiredSampling ch
        = ⟨.failure, ch.createStreamer o.dropped, some tech_pvt⟩ ∧
      ¬ (o.createSbuffer = true ∧ o.createPlayBuffer = true ∧ o.createStash = true ∧
        (desiredSampling ≠ sampling → o.initResampler = true))) := by
  unfold streamDataInit
  dsimp only
  cases hsbuffer : o.createSbuffer with
  | false => exact .inr ⟨_, rfl, fun hno => (nomatch hno.1)⟩
  | true =>
      cases hplay : o.createPlayBuffer with
      | false => exact .inr ⟨_, rfl, fun hno => (nomatch hno.2.1)⟩
      | true =>
          cases hstash : o.createStash with
          | false => exact .inr ⟨_, rfl, fun hno => (nomatch hno.2.2.1)⟩
          | true =>
              by_cases hrate : desiredSampling = sampling
              · rw [if_neg (not_not_intro hrate)]
                exact .inl ⟨_, rfl, rfl, rfl, rfl, rfl, rfl, fun hne => absurd hrate hne⟩
              · rw [if_pos hrate]
                cases hresampler : o.initResampler with
                | false => exact .inr ⟨_, rfl, fun hno => (nomatch hno.2.2.2 hrate)⟩
                | true => exact .inl ⟨_, rfl, rfl, rfl, rfl, rfl, rfl, fun _ => rfl⟩

theorem channel_streamDataInit :
    (streamDataInit o sampling desiredSampling ch).channel = ch.createStreamer o.dropped := by
  rcases streamDataInit_cases o sampling desiredSampling ch with
    ⟨tech_pvt, heq, -⟩ | ⟨tech_pvt, heq, -⟩
  · rw [heq]
  · rw [heq]

theorem tech_streamDataInit (h : (streamDataInit o sampling desiredSampling ch).status = .success) :
    ∃ tech_pvt, (streamDataInit o sampling desiredSampling ch).tech = some tech_pvt ∧
      tech_pvt.pAudioStreamer = some ch.streamers.length ∧ tech_pvt.cleanup_started = false := by
  rcases streamDataInit_cases o sampling desiredSampling ch with
    ⟨tech_pvt, heq, hstreamer, hstarted, -⟩ | ⟨tech_pvt, heq, -⟩
  · rw [heq]
    exact ⟨tech_pvt, rfl, hstreamer, hstarted⟩
  · rw [heq] at h
    exact nomatch h

theorem status_streamDataInit :
    (streamDataInit o sampling desiredSampling ch).status = .success ↔
      o.createSbuffer = true ∧ o.createPlayBuffer = true ∧ o.createStash = true ∧
        (desiredSampling ≠ sampling → o.initResampler = true) := by
  rcases streamDataInit_cases o sampling desiredSampling ch with
    ⟨tech_pvt, heq, -, -, hall⟩ | ⟨tech_pvt, heq, hfails⟩
  · rw [heq]
    exact ⟨fun _ => hall, fun _ => rfl⟩
  · rw [heq]
    exact ⟨fun hno => (nomatch hno), fun hno => absurd hno hfails⟩

theorem streamSessionInit_of_alloc (h : o.alloc = true) :
    (streamSessionInit o sampling desiredSampling ch).channel = ch.createStreamer o.dropped ∧
      (streamSessionInit o sampling desiredSampling ch).status
        = (streamDataInit o sampling desiredSampling ch).status ∧
      ((streamDataInit o sampling desiredSampling ch).status = .success →
        (streamSessionInit o sampling desiredSampling ch).tech
          = (streamDataInit o sampling desiredSampling ch).tech) := by
  have hchannel := channel_streamDataInit o sampling desiredSampling ch
  unfold streamSessionInit
  rw [h]
  dsimp only
  cases hstatus : (streamDataInit o sampling desiredSampling ch).status with
  | failure => exact ⟨hchannel, rfl, fun hno => (nomatch hno)⟩
  | success => exact ⟨hchannel, hstatus, fun _ => rfl⟩

/-- A start that does not get that far changes nothing. -/
theorem startCapture_of_not_reaches (h : ¬ Reaches o ch) :
    (startCapture o sampling desiredSampling ch).status = .failure ∧
      (startCapture o sampling desiredSampling ch).channel = ch := by
  unfold startCapture
  split
  · exact ⟨rfl, rfl⟩
  · rename_i hbug
    split
    · exact ⟨rfl, rfl⟩
    · rename_i hpre
      have halloc : o.alloc = false := by
        by_contra hne
        exact h ⟨by simpa using hbug, by simpa using hpre, by simpa using hne⟩
      rw [streamSessionInit, halloc]
      exact ⟨rfl, rfl⟩

/-- One that does has made a streamer; the channel has a new bug if it succeeds. -/
theorem startCapture_of_reaches (h : Reaches o ch) :
    (startCapture o sampling desiredSampling ch).channel.streamers
        = ch.streamers ++ [⟨!o.dropped, true, true⟩] ∧
      ((startCapture o sampling desiredSampling ch).status = .failure →
        (startCapture o sampling desiredSampling ch).channel.bug = none) ∧
      ((startCapture o sampling desiredSampling ch).status = .success →
        ∃ tech_pvt, (startCapture o sampling desiredSampling ch).channel.bug = some tech_pvt ∧
          tech_pvt.pAudioStreamer = some ch.streamers.length ∧
          tech_pvt.cleanup_started = false) := by
  obtain ⟨hbug, hpre, halloc⟩ := h
  obtain ⟨hchannel, hstatus, htech⟩ := streamSessionInit_of_alloc o
      sampling desiredSampling ch halloc
  have hnone : (ch.createStreamer o.dropped).bug = none := hbug
  unfold startCapture
  rw [hbug, hpre]
  dsimp only [Option.isSome_none]
  rw [if_neg Bool.false_ne_true, if_neg (by decide)]
  cases hinit : (streamDataInit o sampling desiredSampling ch).status with
  | failure =>
      rw [hstatus, hinit]
      dsimp only
      rw [hchannel]
      exact ⟨rfl, fun _ => hnone, fun hno => by rw [hstatus, hinit] at hno; exact nomatch hno⟩
  | success =>
      rw [hstatus, hinit]
      dsimp only
      split
      · rw [hchannel]
        exact ⟨rfl, fun _ => hnone, fun hno => nomatch hno⟩
      · obtain ⟨tech_pvt, hsome, hstreamer, hstarted⟩ := tech_streamDataInit o sampling
          desiredSampling ch hinit
        rw [hchannel, htech hinit, hsome]
        exact ⟨rfl, fun hno => (nomatch hno), fun _ => ⟨tech_pvt, rfl, hstreamer, hstarted⟩⟩

/-- A start succeeds when it gets there and all that follows succeeds too. -/
theorem startCapture_success_iff :
    (startCapture o sampling desiredSampling ch).status = .success ↔
      Reaches o ch ∧ Completes o sampling desiredSampling := by
  by_cases hreaches : Reaches o ch
  · obtain ⟨hbug, hpre, halloc⟩ := hreaches
    obtain ⟨-, hstatus, -⟩ := streamSessionInit_of_alloc o
      sampling desiredSampling ch halloc
    have hinit := status_streamDataInit o sampling desiredSampling ch
    have hstart : (startCapture o sampling desiredSampling ch).status = .success ↔
        (streamDataInit o sampling desiredSampling ch).status = .success ∧ o.addBug = true := by
      unfold startCapture
      rw [hbug, hpre]
      dsimp only [Option.isSome_none]
      rw [if_neg Bool.false_ne_true, if_neg (by decide)]
      cases hcases : (streamDataInit o sampling desiredSampling ch).status with
      | failure =>
          rw [hstatus, hcases]
          dsimp only
          rw [hstatus, hcases]
          exact ⟨fun hno => (nomatch hno), fun hno => (nomatch hno.1)⟩
      | success =>
          rw [hstatus, hcases]
          dsimp only
          cases haddBug : o.addBug with
          | false => exact ⟨fun hno => (nomatch hno), fun hno => (nomatch hno.2)⟩
          | true => exact ⟨fun _ => ⟨rfl, rfl⟩, fun _ => rfl⟩
    rw [hstart, hinit]
    exact ⟨fun ⟨⟨h₁, h₂, h₃, h₄⟩, h₅⟩ =>
        ⟨⟨hbug, hpre, halloc⟩, h₁, h₂, h₃, h₄, h₅⟩,
      fun ⟨_, h₁, h₂, h₃, h₄, h₅⟩ => ⟨⟨h₁, h₂, h₃, h₄⟩, h₅⟩⟩
  · rw [(startCapture_of_not_reaches o sampling desiredSampling ch hreaches).1]
    exact ⟨fun hno => (nomatch hno), fun hno => absurd hno.1 hreaches⟩

/-- What a start leaves behind: nothing exactly when it does not get to
    `stream_data_init`. -/
theorem leavesNothing_startCapture :
    LeavesNothing ch (startCapture o sampling desiredSampling ch).channel ↔ ¬ Reaches o ch := by
  constructor
  · intro h hreaches
    obtain ⟨hstreamers, -, -⟩ := startCapture_of_reaches o sampling
      desiredSampling ch hreaches
    have hkept := h.released ⟨!o.dropped, true, true⟩ (by
      rw [hstreamers, List.drop_left' rfl]
      exact List.mem_singleton_self _)
    exact Bool.noConfusion hkept
  · intro hreaches
    obtain ⟨-, hsame⟩ := startCapture_of_not_reaches o sampling desiredSampling ch hreaches
    rw [hsame]
    refine ⟨?_, ?_, List.take_length, rfl⟩
    · rw [List.drop_length]
      exact fun _ hs => absurd hs List.not_mem_nil
    · rw [List.drop_length]
      exact fun _ hs => absurd hs List.not_mem_nil

end

/-- **A failed start leaves nothing behind exactly when it fails before
    `stream_data_init`**, that is, unless it gets there and anything after it fails. -/
theorem startCapture_leavesNothing_iff (o : Outcomes) (sampling desiredSampling : Nat)
    (ch : Channel) :
    ((startCapture o sampling desiredSampling ch).status ≠ .success →
        LeavesNothing ch (startCapture o sampling desiredSampling ch).channel) ↔
      (Reaches o ch → Completes o sampling desiredSampling) := by
  rw [leavesNothing_startCapture, ne_eq, startCapture_success_iff]
  constructor
  · intro h hreaches
    by_contra hfails
    exact h (fun hsuccess => hfails hsuccess.2) hreaches
  · intro h hfailed hreaches
    exact hfailed ⟨hreaches, h hreaches⟩

/-- A channel without a stream. -/
def freshChannel : Channel := ⟨none, []⟩

/-- All calls succeed. -/
def allSucceed : Outcomes := ⟨true, true, false, true, true, true, true, true⟩

/-- The media bug cannot be added: the connection stays open with its callbacks, and
    nothing refers to its wrapper any more. -/
theorem failed_bug_leaves_connection :
    (startCapture { allSucceed with addBug := false } 8000 8000 freshChannel).status = .failure ∧
      (startCapture { allSucceed with addBug := false } 8000 8000 freshChannel).channel
        = ⟨none, [⟨true, true, true⟩]⟩ ∧
      ¬ LeavesNothing freshChannel
        (startCapture { allSucceed with addBug := false } 8000 8000 freshChannel).channel := by
  have hchannel : (startCapture { allSucceed with addBug := false } 8000 8000 freshChannel).channel
      = ⟨none, [⟨true, true, true⟩]⟩ := rfl
  refine ⟨rfl, hchannel, fun h => ?_⟩
  have hkept := h.released ⟨true, true, true⟩ (by rw [hchannel]; exact List.mem_singleton_self _)
  exact absurd hkept (by decide)

-- ============================================================================
-- The life of a channel
-- ============================================================================

/-- The commands that make and release streamers. -/
inductive Command where
  | start (o : Outcomes) (sampling desiredSampling : Nat)
  | stop
deriving DecidableEq, Repr

def Channel.exec (ch : Channel) : Command → Channel
  | .start o sampling desiredSampling => (startCapture o sampling desiredSampling ch).channel
  | .stop => ch.cleanup

def Channel.run (ch : Channel) (cmds : List Command) : Channel := cmds.foldl Channel.exec ch

/-- The wrappers there are. -/
def Channel.wrappers (ch : Channel) : Nat := ch.streamers.countP Streamer.wrapped

/-- The wrapper of a running stream. -/
def Channel.attached (ch : Channel) : Nat := if ch.bug = none then 0 else 1

/-- A command is a start that fails once it has got to `stream_data_init`. -/
def FailsLate (ch : Channel) : Command → Prop
  | .start o sampling desiredSampling => Reaches o ch ∧
      (startCapture o sampling desiredSampling ch).status = .failure
  | .stop => False

instance (ch : Channel) (cmd : Command) : Decidable (FailsLate ch cmd) :=
  match cmd with
  | .start _ _ _ => inferInstanceAs (Decidable (_ ∧ _))
  | .stop => .isFalse id

/-- How many starts of a run do. -/
def Channel.lateFailures (ch : Channel) : List Command → Nat
  | [] => 0
  | cmd :: cmds => (if FailsLate ch cmd then 1 else 0) + (ch.exec cmd).lateFailures cmds

/-- The bug's streamer is there, and wrapped. -/
structure Channel.Owns (ch : Channel) : Prop where
  streamer : ∀ tech_pvt, ch.bug = some tech_pvt → tech_pvt.cleanup_started = false ∧
    ∃ i s, tech_pvt.pAudioStreamer = some i ∧ ch.streamers[i]? = some s ∧ s.wrapped = true

/-- Releasing one wrapped streamer leaves one wrapper less. -/
theorem countP_released {ss : List Streamer} {i : Nat} {s : Streamer} (hs : ss[i]? = some s)
    (hwrapped : s.wrapped = true) :
    (ss.modify i Streamer.released).countP Streamer.wrapped + 1
      = ss.countP Streamer.wrapped := by
  induction ss generalizing i with
  | nil => exact absurd hs (by simp)
  | cons s' ss ih =>
      cases i with
      | zero =>
          obtain rfl : s' = s := by simpa using hs
          rw [List.modify_zero_cons, List.countP_cons_of_pos hwrapped,
            List.countP_cons_of_neg Bool.false_ne_true]
      | succ i =>
          have hrest := ih (i := i) (by simpa using hs)
          rw [List.modify_succ_cons]
          cases hw : s'.wrapped with
          | false =>
              rw [List.countP_cons_of_neg (by rw [hw]; decide),
                List.countP_cons_of_neg (by rw [hw]; decide)]
              exact hrest
          | true =>
              rw [List.countP_cons_of_pos hw, List.countP_cons_of_pos hw]
              omega

/-- One command: each wrapper more is that of the running stream, or of a start that
    failed late. -/
theorem exec_wrappers {ch : Channel} (h : ch.Owns) (cmd : Command) :
    (ch.exec cmd).Owns ∧
      (ch.exec cmd).wrappers + ch.attached
        = ch.wrappers + (ch.exec cmd).attached + if FailsLate ch cmd then 1 else 0 := by
  cases cmd with
  | start o sampling desiredSampling =>
      by_cases hreaches : Reaches o ch
      · obtain ⟨hstreamers, hfail, hsuccess⟩ := startCapture_of_reaches o sampling
          desiredSampling ch hreaches
        have hwrappers : (ch.exec (.start o sampling desiredSampling)).wrappers
            = ch.wrappers + 1 := by
          show List.countP _ (startCapture o sampling desiredSampling ch).channel.streamers = _
          rw [hstreamers, List.countP_append]
          rfl
        have hbefore : ch.attached = 0 := if_pos hreaches.1
        cases hstatus : (startCapture o sampling desiredSampling ch).status with
        | failure =>
            have hbug : (ch.exec (.start o sampling desiredSampling)).bug = none := hfail hstatus
            have hafter : (ch.exec (.start o sampling desiredSampling)).attached = 0 := if_pos hbug
            refine ⟨⟨fun tech_pvt hsome => ?_⟩, ?_⟩
            · rw [hbug] at hsome
              exact nomatch hsome
            · rw [hwrappers, hbefore, hafter, if_pos ⟨hreaches, hstatus⟩]
        | success =>
            obtain ⟨tech_pvt, hbug, hstreamer, hstarted⟩ := hsuccess hstatus
            have hbug' : (ch.exec (.start o sampling desiredSampling)).bug = some tech_pvt := hbug
            have hafter : (ch.exec (.start o sampling desiredSampling)).attached = 1 := by
              rw [Channel.attached, hbug']
              rfl
            have hontime : ¬ FailsLate ch (.start o sampling desiredSampling) := by
              rintro ⟨-, hno⟩
              rw [hstatus] at hno
              exact nomatch hno
            refine ⟨⟨fun tech_pvt' hsome => ?_⟩, ?_⟩
            · rw [hbug'] at hsome
              obtain rfl := Option.some.inj hsome
              refine ⟨hstarted, ch.streamers.length, ⟨!o.dropped, true, true⟩, hstreamer, ?_, rfl⟩
              show (startCapture o sampling desiredSampling ch).channel.streamers[_]? = _
              rw [hstreamers]
              exact List.getElem?_concat_length
            · rw [hwrappers, hbefore, hafter, if_neg hontime]
      · obtain ⟨-, hsame⟩ := startCapture_of_not_reaches o sampling desiredSampling ch hreaches
        have hexec : ch.exec (.start o sampling desiredSampling) = ch := hsame
        have hontime : ¬ FailsLate ch (.start o sampling desiredSampling) := fun hno =>
          hreaches hno.1
        rw [hexec, if_neg hontime]
        exact ⟨h, rfl⟩
  | stop =>
      have hontime : ¬ FailsLate ch .stop := id
      rw [if_neg hontime]
      show ch.cleanup.Owns ∧ ch.cleanup.wrappers + ch.attached
        = ch.wrappers + ch.cleanup.attached + 0
      cases hbug : ch.bug with
      | none =>
          have hsame : ch.cleanup = ch := by rw [Channel.cleanup, hbug]
          rw [hsame]
          exact ⟨h, rfl⟩
      | some tech_pvt =>
          obtain ⟨hstarted, i, s, hstreamer, hs, hwrapped⟩ := h.streamer tech_pvt hbug
          have hclean : ch.cleanup = ⟨none, ch.streamers.modify i Streamer.released⟩ := by
            rw [Channel.cleanup, hbug]
            dsimp only
            rw [hstarted, if_neg Bool.false_ne_true, hstreamer]
          have hbefore : ch.attached = 1 := by
            rw [Channel.attached, hbug]
            rfl
          rw [hclean, hbefore]
          exact ⟨⟨fun _ hno => nomatch hno⟩, countP_released hs hwrapped⟩

/-- Over the life of a channel every start that failed late has left its wrapper, and
    with it the streamer. -/
theorem run_wrappers {ch : Channel} (h : ch.Owns) (cmds : List Command) :
    (ch.run cmds).wrappers + ch.attached
      = ch.wrappers + (ch.run cmds).attached + ch.lateFailures cmds := by
  induction cmds generalizing ch with
  | nil => rfl
  | cons cmd cmds ih =>
      obtain ⟨howns, hstep⟩ := exec_wrappers h cmd
      have hrest := ih howns
      show ((ch.exec cmd).run cmds).wrappers + ch.attached
        = ch.wrappers + ((ch.exec cmd).run cmds).attached
          + ((if FailsLate ch cmd then 1 else 0) + (ch.exec cmd).lateFailures cmds)
      omega

end FsBridge.Module.StartFailure
