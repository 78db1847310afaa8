/-
  FsBridge.Module.TextCommands

  The `uuid_ws_bridge` command (`stream_function`, module/mod_ws_bridge.c) and the text
  frames it has the module send: at once (`stream_session_send_text`), while the stream
  is torn down (`stream_session_cleanup`), or from `initialMetadata` when the connection
  opens (`send_initial_metadata`, module/ws_bridge_glue.cpp).

  The arguments are what `switch_separate_string` makes of the command line: any list of
  C strings.  An argument beyond them is a null pointer.
-/

import FsBridge.Module.InitialMetadata
import FsBridge.Module.StartFailure
import FsBridge.Module.StreamUri
import FsBridge.Module.Utf8Check

namespace FsBridge.Module.TextCommands

open FsBridge.Lib
open FsBridge.Module.InitialMetadata (storedMetadata)
open FsBridge.Module.StartFailure (Channel Completes Outcomes TechPvt)
open FsBridge.Module.StreamUri (parseMix startCommand)
open FsBridge.Module.Utf8Check (CString isValidUtf8 noNul_of_all)

/-- `tolower`, in the C locale. -/
def tolower (c : UInt8) : UInt8 := if 65 ≤ c ∧ c ≤ 90 then c + 32 else c

/-- `!strcasecmp(s, word)`. -/
def strcaseeq (s : CString) (word : Bytes) : Bool := s.bytes.map tolower = word.map tolower

/-- `is_valid_utf8(text) == SWITCH_STATUS_SUCCESS`. -/
def validText (text : Bytes) : Bool := isValidUtf8 (text ++ [0]) = some true

/-- A FreeSWITCH session, as far as the command goes. -/
structure Session where
  /-- The bug and the streamers. -/
  channel : Channel
  preAnswered : Bool
  /-- The field of the bug's `tech_pvt`, up to the next NUL. -/
  initialMetadata : Bytes
  audio_paused : Bool
deriving DecidableEq, Repr

/-- What the command asks the rest of FreeSWITCH. -/
structure Env where
  /-- `switch_core_session_locate` finds the session. -/
  located : Bool
  /-- The fallible calls of a start. -/
  outcomes : Outcomes
  samplesPerSecond : Nat
  /-- What lies behind `wsUri` and behind `initialMetadata`, up to the next NUL. -/
  beyondUri : Bytes
  beyondMetadata : CString

/-- What the command writes to its stream.  Behind a `goto done` it writes nothing. -/
inductive Reply where
  | usage
  | nothing
  | ok
  | failed
deriving DecidableEq, Repr

structure Outcome where
  reply : Reply
  session : Session
  /-- The texts written to the connection before the command returns. -/
  sent : List Bytes
  /-- The command has attached a stream. -/
  attached : Bool
deriving DecidableEq, Repr

/-- Nothing done. -/
def refuse (reply : Reply) (s : Session) : Outcome := ⟨reply, s, [], false⟩

/-- `AudioStreamer::writeText` on the streamer of a `tech_pvt`. -/
def writeText (ch : Channel) (tech_pvt : TechPvt) (text : Bytes) : List Bytes :=
  match tech_pvt.pAudioStreamer.bind fun i => ch.streamers[i]? with
  | none => []
  | some streamer => if streamer.connected then [text] else []

/-- `do_stop`: `stream_session_cleanup`. -/
def doStop (text : Option CString) (s : Session) : Outcome :=
  match s.channel.bug with
  | none => refuse .failed s
  | some tech_pvt =>
      if tech_pvt.cleanup_started then refuse .ok s
      else
        ⟨.ok, { s with channel := s.channel.cleanup },
          text.toList.flatMap fun t => writeText s.channel tech_pvt t.bytes, false⟩

/-- `do_pauseresume`: `stream_session_pauseresume`. -/
def doPauseresume (pause : Bool) (s : Session) : Outcome :=
  match s.channel.bug with
  | none => refuse .failed s
  | some _ => ⟨.ok, { s with audio_paused := pause }, [], false⟩

/-- `send_text`: `stream_session_send_text`. -/
def sendText (text : CString) (s : Session) : Outcome :=
  match s.channel.bug with
  | none => refuse .failed s
  | some tech_pvt =>
      if tech_pvt.pAudioStreamer.isSome then
        ⟨.ok, s, writeText s.channel tech_pvt text.bytes, false⟩
      else refuse .failed s

/-- What the field holds after `stream_data_init`. -/
def fieldOf (beyond : CString) : Option CString → Bytes
  | none => []
  | some metadata => storedMetadata metadata.bytes beyond.bytes

/-- `start_capture`. -/
def startCapture (env : Env) (sampling : Int32) (metadata : Option CString) (s : Session) :
    Outcome :=
  let r := StartFailure.startCapture env.outcomes env.samplesPerSecond sampling.toUInt32.toNat
    s.channel
  let s := { s with
    channel := r.channel
    preAnswered := s.preAnswered || s.channel.bug.isNone && env.outcomes.preAnswer }
  match r.status with
  | .failure => ⟨.failed, s, [], false⟩
  | .success =>
      ⟨.ok, { s with initialMetadata := fieldOf env.beyondMetadata metadata, audio_paused := false },
        [], true⟩

/-- The `start` branch, with the arguments from the URL on; `none` where it calls `strcmp`
    with a null pointer. -/
def start (env : Env) (s : Session) : List CString → Option Outcome
  | url :: mix :: args =>
      -- the argument it checks is the URL
      if args[1]?.isSome ∧ validText url.bytes = false then some (refuse .nothing s)
      else if parseMix mix.bytes = none then some (refuse .nothing s)
      else
        match startCommand url.bytes mix.bytes (args[0]?.map CString.bytes) env.beyondUri with
        | none => some (refuse .failed s)
        | some start => some (startCapture env start.sampling args[1]? s)
  | _ => none

/-- `stream_function`. -/
def streamFunction (env : Env) (argv : List CString) (s : Session) : Option Outcome :=
  match argv with
  | _ :: verb :: args =>
      if verb.bytes = ascii "start" ∧ args.length < 2 then some (refuse .usage s)
      else if env.located = false then some (refuse .failed s)
      else if strcaseeq verb (ascii "stop") then
        if args[0]?.any (fun text => !validText text.bytes) then some (refuse .nothing s)
        else some (doStop args[0]? s)
      else if strcaseeq verb (ascii "pause") then some (doPauseresume true s)
      else if strcaseeq verb (ascii "resume") then some (doPauseresume false s)
      else if strcaseeq verb (ascii "send_text") then
        match args[0]? with
        | none => some (refuse .nothing s)
        | some text =>
            if validText text.bytes = false then some (refuse .nothing s)
            else some (sendText text s)
      else if strcaseeq verb (ascii "start") then start env s args
      else some (refuse .failed s)
  | _ => some (refuse .usage s)

/-- What `send_initial_metadata` sends for the session. -/
def sendInitialMetadata (s : Session) : List Bytes :=
  if s.channel.bug.isSome ∧ 0 < s.initialMetadata.length then [s.initialMetadata] else []

/-- The texts a command has the module send: those it sends itself, and for a stream it has
    attached what is sent when the connection opens. -/
def Outcome.caused (o : Outcome) : List Bytes :=
  o.sent ++ if o.attached then sendInitialMetadata o.session else []

/-- The text of a command. -/
def textOf : List CString → Option CString
  | _ :: verb :: args =>
      if strcaseeq verb (ascii "stop") ∨ strcaseeq verb (ascii "send_text") then args[0]?
      else if strcaseeq verb (ascii "start") then args[3]?
      else none
  | _ => none

-- ============================================================================
-- The law
-- ============================================================================

/-- Every text that is sent was valid, and a text that is not is refused. -/
structure Lawful (text : Option CString) (s : Session) (o : Outcome) : Prop where
  sent : ∀ t ∈ o.caused, validText t = true
  refused : ∀ t, text = some t → validText t.bytes = false → o.reply ≠ .ok ∧ o.session = s

def Law (env : Env) (argv : List CString) (s : Session) : Prop :=
  ∀ o, streamFunction env argv s = some o → Lawful (textOf argv) s o

/-- Metadata that a start gets as far as a connection, or an answer of the channel, though it
    is not valid; or that is, but not as the field reads behind its copy. -/
def MetadataPasses (env : Env) (sampling : Int32) (metadata : CString) (s : Session) : Prop :=
  s.channel.bug = none ∧ env.outcomes.preAnswer = true ∧
    if validText metadata.bytes then
      env.outcomes.alloc = true ∧
        Completes env.outcomes env.samplesPerSecond sampling.toUInt32.toNat ∧
        validText (storedMetadata metadata.bytes env.beyondMetadata.bytes) = false
    else env.outcomes.alloc = true ∨ s.preAnswered = false

/-- A start whose other arguments are accepted, with such metadata. -/
def Breaks (env : Env) (argv : List CString) (s : Session) : Prop :=
  ∃ uuid verb url mix rate metadata rest start,
    argv = uuid :: verb :: url :: mix :: rate :: metadata :: rest ∧
    strcaseeq verb (ascii "start") = true ∧ env.located = true ∧ validText url.bytes = true ∧
    startCommand url.bytes mix.bytes (some rate.bytes) env.beyondUri = some start ∧
    MetadataPasses env start.sampling metadata s

theorem lawful_refuse {reply : Reply} (hreply : reply ≠ .ok) (text : Option CString)
    (s : Session) : Lawful text s (refuse reply s) where
  sent := by simp [refuse, Outcome.caused]
  refused := fun _ _ _ => ⟨hreply, rfl⟩

/-- A command that has attached nothing and sends at most its text, which is valid. -/
theorem lawful_of_valid {text : Option CString} {s : Session} {o : Outcome}
    (hattached : o.attached = false) (hsent : ∀ t ∈ o.sent, ∃ c, text = some c ∧ t = c.bytes)
    (hvalid : ∀ c, text = some c → validText c.bytes = true) : Lawful text s o where
  sent := by
    intro t ht
    rw [Outcome.caused, hattached, if_neg Bool.false_ne_true, List.append_nil] at ht
    obtain ⟨c, hc, rfl⟩ := hsent t ht
    exact hvalid c hc
  refused := by
    intro t ht hinvalid
    exact absurd (hvalid t ht) (by simp [hinvalid])

theorem mem_writeText {ch : Channel} {tech_pvt : TechPvt} {text t : Bytes}
    (h : t ∈ writeText ch tech_pvt text) : t = text := by
  unfold writeText at h
  split at h
  · exact absurd h List.not_mem_nil
  · split at h
    · exact List.mem_singleton.mp h
    · exact absurd h List.not_mem_nil

theorem lawful_doStop {text : Option CString} (s : Session)
    (hvalid : ∀ c, text = some c → validText c.bytes = true) : Lawful text s (doStop text s) := by
  unfold doStop
  split
  · exact lawful_refuse (by decide) text s
  · rename_i tech_pvt hbug
    split
    · exact lawful_of_valid rfl (by simp [refuse]) hvalid
    · refine lawful_of_valid rfl ?_ hvalid
      intro t ht
      obtain ⟨c, hc, hwritten⟩ := List.mem_flatMap.mp ht
      exact ⟨c, Option.mem_toList.mp hc, mem_writeText hwritten⟩

theorem lawful_doPauseresume (pause : Bool) (s : Session) :
    Lawful none s (doPauseresume pause s) := by
  unfold doPauseresume
  split
  · exact lawful_refuse (by decide) none s
  · exact lawful_of_valid rfl (by simp) (by simp)

theorem lawful_sendText {text : CString} (s : Session) (hvalid : validText text.bytes = true) :
    Lawful (some text) s (sendText text s) := by
  have htext : ∀ c, some text = some c → validText c.bytes = true := by
    intro c hc
    rw [← Option.some.inj hc]
    exact hvalid
  unfold sendText
  split
  · exact lawful_refuse (by decide) _ s
  · split
    · exact lawful_of_valid rfl (fun t ht => ⟨text, rfl, mem_writeText ht⟩) htext
    · exact lawful_refuse (by decide) _ s

-- ============================================================================
-- The start
-- ============================================================================

section Start

variable (env : Env) (sampling : Int32) (s : Session)

/-- How the start of the channel model ends. -/
def started : StartFailure.Result :=
  StartFailure.startCapture env.outcomes env.samplesPerSecond sampling.toUInt32.toNat s.channel

theorem startCapture_failure (metadata : Option CString)
    (h : (started env sampling s).status = .failure) :
    startCapture env sampling metadata s = ⟨.failed, { s with
      channel := (started env sampling s).channel
      preAnswered := s.preAnswered || s.channel.bug.isNone && env.outcomes.preAnswer }, [],
        false⟩ := by
  rw [started] at h
  rw [startCapture]
  dsimp only
  rw [h]
  rfl

theorem startCapture_success (metadata : Option CString)
    (h : (started env sampling s).status = .success) :
    startCapture env sampling metadata s = ⟨.ok, {
      channel := (started env sampling s).channel
      preAnswered := s.preAnswered || s.channel.bug.isNone && env.outcomes.preAnswer
      initialMetadata := fieldOf env.beyondMetadata metadata
      audio_paused := false }, [], true⟩ := by
  rw [started] at h
  rw [startCapture]
  dsimp only
  rw [h]
  rfl

/-- What a start with metadata sends later: the field, as it is read. -/
theorem caused_startCapture (metadata : Option CString) {t : Bytes}
    (ht : t ∈ (startCapture env sampling metadata s).caused) :
    (started env sampling s).status = .success ∧ t = fieldOf env.beyondMetadata metadata ∧
      0 < t.length := by
  cases hstatus : (started env sampling s).status with
  | failure =>
      rw [startCapture_failure env sampling s metadata hstatus] at ht
      exact absurd ht List.not_mem_nil
  | success =>
      rw [startCapture_success env sampling s metadata hstatus, Outcome.caused, if_pos rfl,
        List.nil_append, sendInitialMetadata] at ht
      split at ht
      · rename_i hsend
        obtain rfl := List.mem_singleton.mp ht
        exact ⟨rfl, rfl, hsend.2⟩
      · exact absurd ht List.not_mem_nil

theorem mem_caused_startCapture (metadata : Option CString)
    (hstatus : (started env sampling s).status = .success)
    (hbug : (started env sampling s).channel.bug.isSome)
    (hpos : 0 < (fieldOf env.beyondMetadata metadata).length) :
    fieldOf env.beyondMetadata metadata ∈ (startCapture env sampling metadata s).caused := by
  rw [startCapture_success env sampling s metadata hstatus, Outcome.caused, if_pos rfl,
    List.nil_append, sendInitialMetadata, if_pos ⟨hbug, hpos⟩]
  exact List.mem_singleton_self _

theorem status_started_iff :
    (started env sampling s).status = .success ↔
      StartFailure.Reaches env.outcomes s.channel ∧
        Completes env.outcomes env.samplesPerSecond sampling.toUInt32.toNat :=
  StartFailure.startCapture_success_iff env.outcomes env.samplesPerSecond
    sampling.toUInt32.toNat s.channel

/-- A start that gets to its connection has changed the session. -/
theorem startCapture_changes (metadata : Option CString)
    (h : StartFailure.Reaches env.outcomes s.channel) :
    (startCapture env sampling metadata s).session ≠ s := by
  obtain ⟨hstreamers, -, -⟩ := StartFailure.startCapture_of_reaches env.outcomes
    env.samplesPerSecond sampling.toUInt32.toNat s.channel h
  have hchannel : (startCapture env sampling metadata s).session.channel
      = (started env sampling s).channel := by
    cases hstatus : (started env sampling s).status with
    | failure => rw [startCapture_failure env sampling s metadata hstatus]
    | success => rw [startCapture_success env sampling s metadata hstatus]
  intro hsame
  rw [hsame] at hchannel
  have hlonger := congrArg (fun ch => ch.streamers.length) hchannel
  rw [started] at hlonger
  rw [hstreamers, List.length_append, List.length_singleton] at hlonger
  omega

/-- A start that gets less far changes at most whether the channel is answered. -/
theorem startCapture_of_not_reaches (metadata : Option CString)
    (h : ¬ StartFailure.Reaches env.outcomes s.channel) :
    (startCapture env sampling metadata s).reply = .failed ∧
      ((startCapture env sampling metadata s).session = s ↔
        ¬ (s.channel.bug = none ∧ env.outcomes.preAnswer = true ∧ s.preAnswered = false)) := by
  obtain ⟨hstatus, hchannel⟩ := StartFailure.startCapture_of_not_reaches env.outcomes
    env.samplesPerSecond sampling.toUInt32.toNat s.channel h
  have hfail : (started env sampling s).status = .failure := hstatus
  have hsame : (started env sampling s).channel = s.channel := hchannel
  rw [startCapture_failure env sampling s metadata hfail, hsame]
  refine ⟨rfl, ?_⟩
  constructor
  · intro heq hpasses
    obtain ⟨hbug, hpre, hnot⟩ := hpasses
    have hanswered := congrArg Session.preAnswered heq
    dsimp only at hanswered
    rw [hbug, hpre, hnot] at hanswered
    exact absurd hanswered (by decide)
  · intro hnot
    have hanswered : (s.preAnswered || s.channel.bug.isNone && env.outcomes.preAnswer)
        = s.preAnswered := by
      cases hpre : s.preAnswered with
      | true => rfl
      | false =>
          cases hbug : s.channel.bug with
          | some tech_pvt => rfl
          | none =>
              cases houtcome : env.outcomes.preAnswer with
              | false => rfl
              | true => exact absurd ⟨hbug, houtcome, hpre⟩ hnot
    rw [hanswered]

theorem lawful_startCapture_none : Lawful none s (startCapture env sampling none s) where
  sent := by
    intro t ht
    obtain ⟨-, rfl, hpos⟩ := caused_startCapture env sampling s none ht
    exact absurd hpos (by simp [fieldOf])
  refused := fun t ht => absurd ht (by simp)

theorem lawful_startCapture_iff (metadata : CString) :
    Lawful (some metadata) s (startCapture env sampling (some metadata) s) ↔
      ¬ MetadataPasses env sampling metadata s := by
  by_cases hreaches : StartFailure.Reaches env.outcomes s.channel
  · obtain ⟨hbug, hpre, halloc⟩ := hreaches
    cases hvalid : validText metadata.bytes with
    | false =>
        refine iff_of_false ?_ ?_
        · intro hlawful
          exact startCapture_changes env sampling s (some metadata) ⟨hbug, hpre, halloc⟩
            (hlawful.refused metadata rfl hvalid).2
        · rw [not_not, MetadataPasses, hvalid, if_neg Bool.false_ne_true]
          exact ⟨hbug, hpre, .inl halloc⟩
    | true =>
        rw [MetadataPasses, hvalid, if_pos rfl]
        constructor
        · rintro hlawful ⟨-, -, -, hcompletes, hfield⟩
          have hreach : StartFailure.Reaches env.outcomes s.channel := ⟨hbug, hpre, halloc⟩
          have hstatus := (status_started_iff env sampling s).mpr ⟨hreach, hcompletes⟩
          obtain ⟨-, -, hattach⟩ := StartFailure.startCapture_of_reaches env.outcomes
            env.samplesPerSecond sampling.toUInt32.toNat s.channel hreach
          obtain ⟨tech_pvt, hsome, -, -⟩ := hattach hstatus
          have hpos : 0 < (fieldOf env.beyondMetadata (some metadata)).length := by
            rw [List.length_pos_iff]
            intro hempty
            rw [fieldOf] at hempty
            rw [hempty] at hfield
            exact absurd hfield (by decide)
          have hsent := mem_caused_startCapture env sampling s (some metadata) hstatus
            (by rw [started, hsome]; rfl) hpos
          exact absurd ((hlawful.sent _ hsent).symm.trans hfield) (by decide)
        · intro hfits
          refine ⟨fun t ht => ?_, fun t ht hinvalid => ?_⟩
          · obtain ⟨hstatus, rfl, -⟩ := caused_startCapture env sampling s (some metadata) ht
            have hcompletes := ((status_started_iff env sampling s).mp hstatus).2
            by_contra hfield
            exact hfits ⟨hbug, hpre, halloc, hcompletes, eq_false_of_ne_true hfield⟩
          · rw [← Option.some.inj ht, hvalid] at hinvalid
            cases hinvalid
  · obtain ⟨hreply, hsame⟩ := startCapture_of_not_reaches env sampling s (some metadata) hreaches
    have hsilent : ∀ t ∈ (startCapture env sampling (some metadata) s).caused,
        validText t = true := by
      intro t ht
      obtain ⟨hstatus, -, -⟩ := caused_startCapture env sampling s (some metadata) ht
      exact absurd ((status_started_iff env sampling s).mp hstatus).1 hreaches
    cases hvalid : validText metadata.bytes with
    | true =>
        rw [MetadataPasses, hvalid, if_pos rfl]
        refine iff_of_true ⟨hsilent, fun t ht hinvalid => ?_⟩ ?_
        · rw [← Option.some.inj ht, hvalid] at hinvalid
          cases hinvalid
        · rintro ⟨hbug, hpre, halloc, -⟩
          exact hreaches ⟨hbug, hpre, halloc⟩
    | false =>
        rw [MetadataPasses, hvalid, if_neg Bool.false_ne_true]
        constructor
        · rintro hlawful ⟨hbug, hpre, hchange⟩
          have hanswered : s.preAnswered = false :=
            hchange.resolve_left fun halloc => hreaches ⟨hbug, hpre, halloc⟩
          exact hsame.mp (hlawful.refused metadata rfl hvalid).2 ⟨hbug, hpre, hanswered⟩
        · intro hnot
          refine ⟨hsilent, fun t _ _ => ⟨?_, ?_⟩⟩
          · rw [hreply]
            decide
          · exact hsame.mpr fun hpasses =>
              hnot ⟨hpasses.1, hpasses.2.1, .inr hpasses.2.2⟩

end Start

-- ============================================================================
-- The dispatcher
-- ============================================================================

/-- A verb is one word. -/
theorem strcaseeq_ne {verb : CString} {word : Bytes} (other : Bytes)
    (h : strcaseeq verb word = true)
    (hne : word.map tolower ≠ other.map tolower) : ¬ strcaseeq verb other = true := by
  intro hother
  exact hne ((of_decide_eq_true h).symm.trans (of_decide_eq_true hother))

/-- What the dispatcher does with a verb and its arguments. -/
inductive Executed (env : Env) (verb : CString) (args : List CString) (s : Session) :
    Outcome → Prop where
  | refused (reply : Reply) (hreply : reply ≠ .ok) : Executed env verb args s (refuse reply s)
  | stopped (hverb : strcaseeq verb (ascii "stop") = true)
      (hvalid : ∀ c, args[0]? = some c → validText c.bytes = true) :
      Executed env verb args s (doStop args[0]? s)
  | pausedOrResumed (pause : Bool) (word : Bytes) (hword : word ∈ [ascii "pause", ascii "resume"])
      (hverb : strcaseeq verb word = true) : Executed env verb args s (doPauseresume pause s)
  | textSent (text : CString) (hverb : strcaseeq verb (ascii "send_text") = true)
      (hfirst : args[0]? = some text) (hvalid : validText text.bytes = true) :
      Executed env verb args s (sendText text s)
  | started (o : Outcome) (hverb : strcaseeq verb (ascii "start") = true)
      (hstart : start env s args = some o) : Executed env verb args s o

theorem executed {env : Env} {uuid verb : CString} {args : List CString} {s : Session}
    {o : Outcome} (h : streamFunction env (uuid :: verb :: args) s = some o) :
    Executed env verb args s o := by
  have hrefuse : ∀ {reply : Reply}, reply ≠ .ok → some (refuse reply s) = some o →
      Executed env verb args s o := by
    intro reply hreply heq
    rw [← Option.some.inj heq]
    exact .refused reply hreply
  rw [streamFunction] at h
  split at h
  · exact hrefuse (by decide) h
  · split at h
    · exact hrefuse (by decide) h
    · split at h
      · rename_i hstop
        split at h
        · exact hrefuse (by decide) h
        · rename_i hvalid
          rw [← Option.some.inj h]
          refine .stopped hstop fun c hc => ?_
          rw [hc, Option.any_some, Bool.not_eq_true', Bool.not_eq_false] at hvalid
          exact hvalid
      · split at h
        · rename_i hpause
          rw [← Option.some.inj h]
          exact .pausedOrResumed true _ List.mem_cons_self hpause
        · split at h
          · rename_i hresume
            rw [← Option.some.inj h]
            exact .pausedOrResumed false _ (List.mem_cons_of_mem _ List.mem_cons_self) hresume
          · split at h
            · rename_i hsend
              split at h
              · exact hrefuse (by decide) h
              · rename_i text hfirst
                split at h
                · exact hrefuse (by decide) h
                · rename_i hvalid
                  rw [← Option.some.inj h]
                  exact .textSent text hsend hfirst (by simpa using hvalid)
            · split at h
              · rename_i hstart
                exact .started o hstart h
              · exact hrefuse (by decide) h

/-- What a start does. -/
theorem start_cases {env : Env} {s : Session} {args : List CString} {o : Outcome}
    (h : start env s args = some o) :
    (∃ reply, reply ≠ .ok ∧ o = refuse reply s) ∨
      ∃ sampling, o = startCapture env sampling args[3]? s := by
  unfold start at h
  split at h
  · split at h
    · exact .inl ⟨.nothing, by decide, (Option.some.inj h).symm⟩
    · split at h
      · exact .inl ⟨.nothing, by decide, (Option.some.inj h).symm⟩
      · split at h
        · exact .inl ⟨.failed, by decide, (Option.some.inj h).symm⟩
        · rename_i start hstart
          exact .inr ⟨start.sampling, (Option.some.inj h).symm⟩
  · cases h

/-- A start without metadata. -/
theorem lawful_start_none {env : Env} {s : Session} {args : List CString}
    (hnone : args[3]? = none) {o : Outcome} (h : start env s args = some o) :
    Lawful none s o := by
  rcases start_cases h with ⟨reply, hreply, rfl⟩ | ⟨sampling, rfl⟩
  · exact lawful_refuse hreply none s
  · rw [hnone]
    exact lawful_startCapture_none env sampling s

/-- A start with metadata. -/
theorem lawful_start_some {env : Env} {s : Session} {url mix rate metadata : CString}
    {rest : List CString} :
    (∀ o, start env s (url :: mix :: rate :: metadata :: rest) = some o →
        Lawful (some metadata) s o) ↔
      ¬ ∃ start, validText url.bytes = true ∧
        startCommand url.bytes mix.bytes (some rate.bytes) env.beyondUri = some start ∧
        MetadataPasses env start.sampling metadata s := by
  have hrefuse : ∀ reply : Reply, reply ≠ .ok → ∀ o, some (refuse reply s) = some o →
      Lawful (some metadata) s o := by
    intro reply hreply o ho
    rw [← Option.some.inj ho]
    exact lawful_refuse hreply (some metadata) s
  rw [start]
  cases hurl : validText url.bytes with
  | false =>
      rw [if_pos ⟨rfl, rfl⟩]
      refine iff_of_true (hrefuse .nothing (by decide)) ?_
      rintro ⟨start, hno, -⟩
      cases hno
  | true =>
      rw [if_neg (by simp)]
      cases hmix : parseMix mix.bytes with
      | none =>
          rw [if_pos rfl]
          refine iff_of_true (hrefuse .nothing (by decide)) ?_
          rintro ⟨start, -, hstart, -⟩
          rw [startCommand, hmix] at hstart
          cases hstart
      | some m =>
          have hrate : (rate :: metadata :: rest)[0]?.map CString.bytes = some rate.bytes := rfl
          rw [if_neg (by simp), hrate]
          cases hstart : startCommand url.bytes mix.bytes (some rate.bytes) env.beyondUri with
          | none =>
              refine iff_of_true (hrefuse .failed (by decide)) ?_
              rintro ⟨start, -, hno, -⟩
              cases hno
          | some start =>
              constructor
              · rintro hlawful ⟨start', -, hstart', hpasses⟩
                obtain rfl := Option.some.inj hstart'
                exact (lawful_startCapture_iff env start.sampling s metadata).mp
                  (hlawful _ rfl) hpasses
              · intro hnot o ho
                obtain rfl := Option.some.inj ho
                exact (lawful_startCapture_iff env start.sampling s metadata).mpr
                  fun hpasses => hnot ⟨start, rfl, rfl, hpasses⟩

/-- A command whose verb is not start. -/
theorem law_of_not_start {env : Env} {uuid verb : CString} {args : List CString} {s : Session}
    (h : strcaseeq verb (ascii "start") = false) : Law env (uuid :: verb :: args) s := by
  intro o ho
  cases executed ho with
  | refused reply hreply => exact lawful_refuse hreply _ s
  | stopped hverb hvalid =>
      have htext : textOf (uuid :: verb :: args) = args[0]? := if_pos (.inl hverb)
      rw [htext]
      exact lawful_doStop s hvalid
  | pausedOrResumed pause word hword hverb =>
      have hother : ∀ word ∈ [ascii "pause", ascii "resume"],
          word.map tolower ≠ (ascii "stop").map tolower ∧
            word.map tolower ≠ (ascii "send_text").map tolower := by decide
      have htext : textOf (uuid :: verb :: args) = none := by
        rw [textOf, if_neg, if_neg (by rw [h]; decide)]
        rintro (hstop | hsend)
        · exact strcaseeq_ne _ hverb (hother word hword).1 hstop
        · exact strcaseeq_ne _ hverb (hother word hword).2 hsend
      rw [htext]
      exact lawful_doPauseresume pause s
  | textSent text hverb hfirst hvalid =>
      have htext : textOf (uuid :: verb :: args) = args[0]? := if_pos (.inr hverb)
      rw [htext, hfirst]
      exact lawful_sendText s hvalid
  | started o hverb hstart => exact absurd (hverb.symm.trans h) (by decide)

/-- One whose verb is. -/
theorem law_of_start {env : Env} {uuid verb : CString} {args : List CString} {s : Session}
    (h : strcaseeq verb (ascii "start") = true) (hlocated : env.located = true) :
    Law env (uuid :: verb :: args) s ↔
      ∀ o, start env s args = some o → Lawful args[3]? s o := by
  have hstop := strcaseeq_ne (ascii "stop") h (by decide)
  have hpause := strcaseeq_ne (ascii "pause") h (by decide)
  have hresume := strcaseeq_ne (ascii "resume") h (by decide)
  have hsend := strcaseeq_ne (ascii "send_text") h (by decide)
  have htext : textOf (uuid :: verb :: args) = args[3]? := by
    rw [textOf, if_neg (not_or.mpr ⟨hstop, hsend⟩), if_pos h]
  rw [Law, htext, streamFunction, hlocated, if_neg (by decide : ¬ true = false), if_neg hstop,
    if_neg hpause, if_neg hresume, if_neg hsend, if_pos h]
  by_cases husage : verb.bytes = ascii "start" ∧ args.length < 2
  · rw [if_pos husage]
    refine iff_of_true ?_ ?_
    · intro o ho
      rw [← Option.some.inj ho]
      exact lawful_refuse (by decide) _ s
    · intro o ho
      cases args with
      | nil => cases ho
      | cons url args =>
          cases args with
          | nil => cases ho
          | cons mix args => exact absurd husage.2 (by simp)
  · rw [if_neg husage]

/-- The start, whose only text is its metadata. -/
theorem law_start_iff (env : Env) (s : Session) (args : List CString) :
    (∀ o, start env s args = some o → Lawful args[3]? s o) ↔
      ¬ ∃ url mix rate metadata rest start,
        args = url :: mix :: rate :: metadata :: rest ∧ validText url.bytes = true ∧
        startCommand url.bytes mix.bytes (some rate.bytes) env.beyondUri = some start ∧
        MetadataPasses env start.sampling metadata s := by
  have hshort : args.length < 4 → ¬ ∃ url mix rate metadata rest start,
      args = url :: mix :: rate :: metadata :: rest ∧ validText url.bytes = true ∧
      startCommand url.bytes mix.bytes (some rate.bytes) env.beyondUri = some start ∧
      MetadataPasses env start.sampling metadata s := by
    rintro hlen ⟨url, mix, rate, metadata, rest, start, rfl, -⟩
    simp only [List.length_cons] at hlen
    omega
  rcases args with _ | ⟨url, _ | ⟨mix, _ | ⟨rate, _ | ⟨metadata, rest⟩⟩⟩⟩
  · exact iff_of_true (fun o ho => by cases ho) (hshort (by simp))
  · exact iff_of_true (fun o ho => by cases ho) (hshort (by simp))
  · exact iff_of_true (fun o ho => lawful_start_none rfl ho) (hshort (by simp))
  · exact iff_of_true (fun o ho => lawful_start_none rfl ho) (hshort (by simp))
  · refine lawful_start_some.trans (not_congr ?_)
    constructor
    · rintro ⟨start, h⟩
      exact ⟨url, mix, rate, metadata, rest, start, rfl, h⟩
    · rintro ⟨url', mix', rate', metadata', rest', start, heq, h⟩
      obtain ⟨rfl, rfl, rfl, rfl, rfl⟩ :
          url = url' ∧ mix = mix' ∧ rate = rate' ∧ metadata = metadata' ∧ rest = rest' := by
        simpa using heq
      exact ⟨start, h⟩

/-- A session that is not there. -/
theorem law_of_not_located {env : Env} {uuid verb : CString} {args : List CString} {s : Session}
    (h : env.located = false) : Law env (uuid :: verb :: args) s := by
  intro o ho
  rw [streamFunction, h, if_pos (rfl : false = false)] at ho
  split at ho
  · rw [← Option.some.inj ho]
    exact lawful_refuse (by decide) _ s
  · rw [← Option.some.inj ho]
    exact lawful_refuse (by decide) _ s

/-- **Texts on the wire.**  The law holds of every command but the starts whose metadata
    passes: they check their URL in its place. -/
theorem law_iff_not_breaks (env : Env) (argv : List CString) (s : Session) :
    Law env argv s ↔ ¬ Breaks env argv s := by
  have hshort : (∀ o, streamFunction env argv s = some o → o = refuse .usage s) →
      argv.length < 2 → (Law env argv s ↔ ¬ Breaks env argv s) := by
    intro husage hlen
    refine iff_of_true ?_ ?_
    · intro o ho
      rw [husage o ho]
      exact lawful_refuse (by decide) _ s
    · rintro ⟨uuid, verb, url, mix, rate, metadata, rest, start, rfl, -⟩
      simp only [List.length_cons] at hlen
      omega
  cases argv with
  | nil => exact hshort (fun o ho => (Option.some.inj ho).symm) (by simp)
  | cons uuid argv =>
      cases argv with
      | nil => exact hshort (fun o ho => (Option.some.inj ho).symm) (by simp)
      | cons verb args =>
          cases hlocated : env.located with
          | false =>
              refine iff_of_true (law_of_not_located hlocated) ?_
              rintro ⟨_, _, _, _, _, _, _, _, -, -, hyes, -⟩
              exact absurd (hyes.symm.trans hlocated) (by decide)
          | true =>
              cases hverb : strcaseeq verb (ascii "start") with
              | false =>
                  refine iff_of_true (law_of_not_start hverb) ?_
                  rintro ⟨_, _, _, _, _, _, _, _, heq, hyes, -⟩
                  obtain ⟨-, rfl, -⟩ : _ ∧ _ = _ ∧ _ := by simpa using heq
                  exact absurd (hyes.symm.trans hverb) (by decide)
              | true =>
                  rw [law_of_start hverb hlocated, law_start_iff]
                  refine not_congr ?_
                  constructor
                  · rintro ⟨url, mix, rate, metadata, rest, start, rfl, h⟩
                    exact ⟨uuid, verb, url, mix, rate, metadata, rest, start, rfl, hverb,
                      hlocated, h⟩
                  · rintro ⟨_, _, url, mix, rate, metadata, rest, start, heq, -, -, h⟩
                    obtain ⟨-, -, rfl⟩ : _ ∧ _ ∧ args = url :: mix :: rate :: metadata :: rest := by
                      simpa using heq
                    exact ⟨url, mix, rate, metadata, rest, start, rfl, h⟩

/-- `start ws://a mono 8k` with a byte that no UTF-8 string has as metadata. -/
def unchecked : List CString :=
  [⟨ascii "u", noNul_of_all rfl⟩, ⟨ascii "start", noNul_of_all rfl⟩,
    ⟨ascii "ws://a", noNul_of_all rfl⟩, ⟨ascii "mono", noNul_of_all rfl⟩,
    ⟨ascii "8k", noNul_of_all rfl⟩, ⟨[0xFF], noNul_of_all rfl⟩]

def smooth : Env where
  located := true
  outcomes := ⟨true, true, false, true, true, true, true, true⟩
  samplesPerSecond := 8000
  beyondUri := []
  beyondMetadata := ⟨[], noNul_of_all rfl⟩

def fresh : Session := ⟨⟨none, []⟩, false, [], false⟩

/-- The metadata is accepted, and is what the connection begins with. -/
theorem metadata_unchecked : ¬ Law smooth unchecked fresh := by
  intro hlaw
  have hrun : (streamFunction smooth unchecked fresh).any
      (fun o => o.reply = .ok ∧ [0xFF] ∈ o.caused) = true := by decide +kernel
  obtain ⟨o, ho, hok⟩ := (Option.any_eq_true _ _).mp hrun
  have hrefused := (hlaw o ho).refused ⟨[0xFF], noNul_of_all rfl⟩ rfl (by decide)
  exact hrefused.1 (of_decide_eq_true hok).1

-- ============================================================================
-- Runs
-- ============================================================================

/-- The session, and the texts its connections have carried. -/
structure State where
  session : Session
  wire : List Bytes
deriving DecidableEq, Repr

/-- A command, what a connection does (`opened` calls `eventCallback`, `dropped` ends it), and
    the end of the bug with its channel. -/
inductive Act where
  | command (env : Env) (argv : List CString)
  | opened (streamer : Nat)
  | dropped (streamer : Nat)
  | bugClosed

def step (st : State) : Act → Option State
  | .command env argv =>
      (streamFunction env argv st.session).map fun o => ⟨o.session, st.wire ++ o.sent⟩
  | .opened i =>
      if st.session.channel.streamers[i]?.any (fun s => s.connected && s.callbacks) then
        some { st with wire := st.wire ++ sendInitialMetadata st.session }
      else none
  | .dropped i =>
      let channel := st.session.channel
      some { st with
        session.channel.streamers :=
          channel.streamers.modify i fun s => { s with connected := false } }
  | .bugClosed => some { st with session.channel := st.session.channel.cleanup }

/-- A call without a stream. -/
def machine (preAnswered : Bool) : Machine State Act where
  init := ⟨⟨⟨none, []⟩, preAnswered, [], false⟩, []⟩
  step := step

/-- All a command can do. -/
theorem streamFunction_cases {env : Env} {argv : List CString} {s : Session} {o : Outcome}
    (h : streamFunction env argv s = some o) :
    (∃ reply, o = refuse reply s) ∨ (∃ text, o = doStop text s) ∨
      (∃ pause, o = doPauseresume pause s) ∨ (∃ text, o = sendText text s) ∨
        ∃ sampling metadata, o = startCapture env sampling metadata s := by
  rcases argv with _ | ⟨uuid, _ | ⟨verb, args⟩⟩
  · exact .inl ⟨_, (Option.some.inj h).symm⟩
  · exact .inl ⟨_, (Option.some.inj h).symm⟩
  · cases executed h with
    | refused reply hreply => exact .inl ⟨reply, rfl⟩
    | stopped hverb hvalid => exact .inr (.inl ⟨_, rfl⟩)
    | pausedOrResumed pause word hword hverb => exact .inr (.inr (.inl ⟨pause, rfl⟩))
    | textSent text hverb hfirst hvalid => exact .inr (.inr (.inr (.inl ⟨text, rfl⟩)))
    | started o hverb hstart =>
        rcases start_cases hstart with ⟨reply, -, rfl⟩ | ⟨sampling, rfl⟩
        · exact .inl ⟨reply, rfl⟩
        · exact .inr (.inr (.inr (.inr ⟨sampling, _, rfl⟩)))

/-- A cleanup attaches nothing. -/
theorem bug_cleanup {ch : Channel} (h : ch.cleanup.bug.isSome) : ch.bug.isSome := by
  cases hbug : ch.bug with
  | some tech_pvt => rfl
  | none =>
      rw [Channel.cleanup, hbug, hbug] at h
      cases h

theorem sendInitialMetadata_mono {s s' : Session} {t : Bytes} (ht : t ∈ sendInitialMetadata s')
    (hbug : s'.channel.bug.isSome → s.channel.bug.isSome)
    (hfield : s'.initialMetadata = s.initialMetadata) : t ∈ sendInitialMetadata s := by
  unfold sendInitialMetadata at ht ⊢
  split at ht
  · rename_i hsend
    rw [hfield] at ht hsend
    rw [if_pos ⟨hbug hsend.1, hsend.2⟩]
    exact ht
  · exact absurd ht List.not_mem_nil

/-- What is left to be sent when the connection opens: what was before, or what the command
    has caused. -/
theorem sendInitialMetadata_streamFunction {env : Env} {argv : List CString} {s : Session}
    {o : Outcome} (h : streamFunction env argv s = some o) {t : Bytes}
    (ht : t ∈ sendInitialMetadata o.session) : t ∈ sendInitialMetadata s ∨ t ∈ o.caused := by
  rcases streamFunction_cases h with ⟨reply, rfl⟩ | ⟨text, rfl⟩ | ⟨pause, rfl⟩ | ⟨text, rfl⟩ |
    ⟨sampling, metadata, rfl⟩
  · exact .inl ht
  · unfold doStop at ht
    split at ht
    · exact .inl ht
    · split at ht
      · exact .inl ht
      · exact .inl (sendInitialMetadata_mono ht bug_cleanup rfl)
  · unfold doPauseresume at ht
    split at ht
    · exact .inl ht
    · exact .inl (sendInitialMetadata_mono ht id rfl)
  · unfold sendText at ht
    split at ht
    · exact .inl ht
    · split at ht
      · exact .inl ht
      · exact .inl ht
  · cases hstatus : (started env sampling s).status with
    | success =>
        rw [startCapture_success env sampling s metadata hstatus] at ht ⊢
        exact .inr (List.mem_append_right _ ht)
    | failure =>
        rw [startCapture_failure env sampling s metadata hstatus] at ht
        refine .inl (sendInitialMetadata_mono ht (fun hbug => ?_) rfl)
        by_cases hreaches : StartFailure.Reaches env.outcomes s.channel
        · obtain ⟨-, hnone, -⟩ := StartFailure.startCapture_of_reaches env.outcomes
            env.samplesPerSecond sampling.toUInt32.toNat s.channel hreaches
          rw [started] at hbug
          dsimp only at hbug
          rw [hnone hstatus] at hbug
          cases hbug
        · obtain ⟨-, hsame⟩ := StartFailure.startCapture_of_not_reaches env.outcomes
            env.samplesPerSecond sampling.toUInt32.toNat s.channel hreaches
          rw [started] at hbug
          dsimp only at hbug
          rw [hsame] at hbug
          exact hbug

/-- Every text that has been sent, and what is left for the open callback, is valid. -/
structure TextsValid (st : State) : Prop where
  wire : ∀ t ∈ st.wire, validText t = true
  field : ∀ t ∈ sendInitialMetadata st.session, validText t = true

/-- The command of the step keeps the law. -/
def Keeps (st : State) : Act → Prop
  | .command env argv => Law env argv st.session
  | _ => True

theorem textsValid_step {st st' : State} {a : Act} (h : TextsValid st) (hkeeps : Keeps st a)
    (hstep : step st a = some st') : TextsValid st' := by
  cases a with
  | command env argv =>
      obtain ⟨o, ho, rfl⟩ := Option.map_eq_some_iff.mp hstep
      have hlawful : Lawful (textOf argv) st.session o := hkeeps o ho
      refine ⟨fun t ht => ?_, fun t ht => ?_⟩
      · rcases List.mem_append.mp ht with hold | hnew
        · exact h.wire t hold
        · exact hlawful.sent t (List.mem_append_left _ hnew)
      · rcases sendInitialMetadata_streamFunction ho ht with hold | hnew
        · exact h.field t hold
        · exact hlawful.sent t hnew
  | opened i =>
      obtain ⟨-, rfl⟩ := Machine.of_guard hstep
      refine ⟨fun t ht => ?_, h.field⟩
      rcases List.mem_append.mp ht with hold | hnew
      · exact h.wire t hold
      · exact h.field t hnew
  | dropped i =>
      obtain rfl := Option.some.inj hstep
      exact ⟨h.wire, h.field⟩
  | bugClosed =>
      obtain rfl := Option.some.inj hstep
      exact ⟨h.wire, fun t ht => h.field t (sendInitialMetadata_mono ht bug_cleanup rfl)⟩

/-- A run whose commands all keep the law has sent valid texts only. -/
theorem wire_valid (preAnswered : Bool) (as : List Act)
    (h : (machine preAnswered).Guarded Keeps (machine preAnswered).init as) :
    (machine preAnswered).Always (fun st => ∀ t ∈ st.wire, validText t = true)
      (machine preAnswered).init as := by
  have hinit : TextsValid (machine preAnswered).init :=
    ⟨fun t ht => absurd ht List.not_mem_nil, fun t ht => absurd ht List.not_mem_nil⟩
  have hall : (machine preAnswered).Always TextsValid (machine preAnswered).init as :=
    Machine.always_of_guarded (fun st a st' hst hkeeps hstep => textsValid_step hst hkeeps hstep)
      h hinit
  exact hall.mono fun st hst => hst.wire

end FsBridge.Module.TextCommands
