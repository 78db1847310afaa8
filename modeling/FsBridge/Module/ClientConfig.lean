/-
  FsBridge.Module.ClientConfig

  How the WebSocket client of a stream is configured: the channel variables that
  `stream_session_init` reads into its locals, and what the constructor of
  `AudioStreamer` does with them (module/ws_bridge_glue.cpp; the setters of the client,
  module/libs/libwsc).

  `deflate` and `heart_beat` are declared without an initialiser and assigned on some
  paths only.  What they hold before that is an argument of the model, so that two runs
  can start from different stacks.
-/

import FsBridge.Module.StreamUri

namespace FsBridge.Module.ClientConfig

open FsBridge.Lib
open FsBridge.Lib.Decimal (isDigit isSpace splitSign ofDigits)
open FsBridge.Module.StreamUri (ClientUrl setUrl atoi)

/-- What FreeSWITCH is asked: `switch_true` of a text, and the string members of a JSON
    text as `cJSON_Parse` finds them. -/
structure Switch where
  isTrue : Bytes → Bool
  stringMembers : Bytes → List (Bytes × Bytes)

/-- `switch_channel_get_variable`. -/
def Variables : Type := Bytes → Option Bytes

/-- `switch_channel_var_true`. -/
def Variables.isTrue (vars : Variables) (switch : Switch) (name : Bytes) : Bool :=
  match vars name with
  | none => false
  | some value => switch.isTrue value

/-- `strtol(s, &endptr, 10)`: the value, kept within a `long`, and what is left of the text;
    all of it where there is no number. -/
def strtol (s : Bytes) : Int × Bytes :=
  let t := splitSign (s.dropWhile isSpace)
  let ds := t.2.takeWhile isDigit
  if ds = [] then (0, s)
  else
    let n : Int := if t.1 then -ofDigits ds else ofDigits ds
    (max (-9223372036854775808) (min n 9223372036854775807), t.2.dropWhile isDigit)

-- ============================================================================
-- stream_session_init
-- ============================================================================

/-- The locals without an initialiser. -/
structure Locals where
  deflate : Int32
  heart_beat : Int32
deriving DecidableEq, Repr

/-- What `stream_session_init` passes on of the variables. -/
structure Settings where
  deflate : Int32
  heart_beat : Int32
  suppressLog : Bool
  rtp_packets : Int32
  extra_headers : Option Bytes
  tls_cafile : Option Bytes
  tls_keyfile : Option Bytes
  tls_certfile : Option Bytes
  tls_disable_hostname_validation : Bool
deriving DecidableEq, Repr

/-- A text is taken for a heart beat: all of it is a number that fits an `int`. -/
def IsHeartBeat (value : Bytes) : Prop :=
  (strtol value).2 = [] ∧ -2147483648 ≤ (strtol value).1 ∧ (strtol value).1 ≤ 2147483647

instance (value : Bytes) : Decidable (IsHeartBeat value) :=
  inferInstanceAs (Decidable (_ ∧ _ ∧ _))

/-- `heart_beat`, which keeps its content where there is no such text. -/
def heartBeat (content : Int32) : Option Bytes → Int32
  | none => content
  | some value => if IsHeartBeat value then Int32.ofInt (strtol value).1 else content

/-- `rtp_packets`: the frames of 20 ms in a buffer. -/
def rtpPackets : Option Bytes → Int32
  | none => 1
  | some buffer_size =>
      let bSize := atoi buffer_size
      if bSize % 20 ≠ 0 then 1
      else if 20 ≤ bSize then bSize / 20
      else 1

/-- The first half of `stream_session_init`. -/
def settings (switch : Switch) (vars : Variables) (content : Locals) : Settings where
  deflate := if vars.isTrue switch (ascii "STREAM_MESSAGE_DEFLATE") then 1 else content.deflate
  heart_beat := heartBeat content.heart_beat (vars (ascii "STREAM_HEART_BEAT"))
  suppressLog := vars.isTrue switch (ascii "STREAM_SUPPRESS_LOG")
  rtp_packets := rtpPackets (vars (ascii "STREAM_BUFFER_SIZE"))
  extra_headers := vars (ascii "STREAM_EXTRA_HEADERS")
  tls_cafile := vars (ascii "STREAM_TLS_CA_FILE")
  tls_keyfile := vars (ascii "STREAM_TLS_KEY_FILE")
  tls_certfile := vars (ascii "STREAM_TLS_CERT_FILE")
  tls_disable_hostname_validation :=
    vars.isTrue switch (ascii "STREAM_TLS_DISABLE_HOSTNAME_VALIDATION")

-- ============================================================================
-- The client
-- ============================================================================

/-- `WebSocketTLSOptions`. -/
structure TLSOptions where
  certFile : Bytes
  keyFile : Bytes
  caFile : Bytes
  ciphers : Bytes
  disableHostnameValidation : Bool
deriving DecidableEq, Repr

/-- A client before `connect()`.  Without a ping interval it never pings. -/
structure Client where
  url : ClientUrl
  ping_interval : UInt32
  compression_requested : Bool
  extra_headers : List (Bytes × Bytes)
  tls_options : TLSOptions
deriving DecidableEq, Repr

/-- A client as it is declared. -/
def Client.initial : Client where
  url := ⟨false, [], none, []⟩
  ping_interval := 0
  compression_requested := true
  extra_headers := []
  tls_options := ⟨[], [], ascii "SYSTEM", ascii "DEFAULT", false⟩

def Client.setPingInterval (client : Client) (interval : Int32) : Client :=
  { client with ping_interval := interval.toUInt32 }

def Client.enableCompression (client : Client) (enable : Bool) : Client :=
  { client with compression_requested := enable }

/-- `hdrs.set`: the last value of a name is the one that counts. -/
def setHeader (hdrs : List (Bytes × Bytes)) (member : Bytes × Bytes) : List (Bytes × Bytes) :=
  hdrs.filter (fun h => h.1 ≠ member.1) ++ [member]

/-- The extra headers. -/
def extraHeaders (switch : Switch) (m_extra_headers : Option Bytes) : List (Bytes × Bytes) :=
  match m_extra_headers with
  | none => []
  | some text => (switch.stringMembers text).foldl setHeader []

/-- The options the TLS variables set. -/
def tlsOptions (s : Settings) : TLSOptions where
  certFile := s.tls_certfile.getD []
  keyFile := s.tls_keyfile.getD []
  caFile := s.tls_cafile.getD (ascii "SYSTEM")
  ciphers := ascii "DEFAULT"
  disableHostnameValidation := s.tls_disable_hostname_validation

/-- The constructor of `AudioStreamer`. -/
def audioStreamer (switch : Switch) (wsUri : Bytes) (s : Settings) : Client :=
  let client := { Client.initial with url := setUrl wsUri, tls_options := tlsOptions s }
  let client := if s.heart_beat ≠ 0 then client.setPingInterval s.heart_beat else client
  let client := if s.deflate ≠ 0 then client.enableCompression false else client
  { client with extra_headers := extraHeaders switch s.extra_headers }

/-- The client of a session, for what its locals held at first. -/
def sessionClient (switch : Switch) (vars : Variables) (wsUri : Bytes) (content : Locals) :
    Client :=
  audioStreamer switch wsUri (settings switch vars content)

-- ============================================================================
-- What the configuration depends on
-- ============================================================================

section

variable (switch : Switch) (vars : Variables) (wsUri : Bytes)

/-- Zero is the ping interval a client has at first, so that it need not be set. -/
theorem setPingInterval_of_initial {client : Client} (h : client.ping_interval = 0)
    (heart_beat : Int32) :
    (if heart_beat ≠ 0 then client.setPingInterval heart_beat else client)
      = { client with ping_interval := heart_beat.toUInt32 } := by
  split
  · rfl
  · rename_i hzero
    rw [Classical.not_not.mp hzero]
    show client = { client with ping_interval := 0 }
    rw [← h]

theorem enableCompression_of_initial {client : Client} (h : client.compression_requested = true)
    (deflate : Int32) :
    (if deflate ≠ 0 then client.enableCompression false else client)
      = { client with compression_requested := decide (deflate = 0) } := by
  split
  · rename_i hset
    rw [decide_eq_false hset]
    rfl
  · rename_i hzero
    rw [decide_eq_true (Classical.not_not.mp hzero), ← h]

/-- The constructor, field by field. -/
theorem audioStreamer_eq (s : Settings) :
    audioStreamer switch wsUri s =
      { url := setUrl wsUri
        ping_interval := s.heart_beat.toUInt32
        compression_requested := decide (s.deflate = 0)
        extra_headers := extraHeaders switch s.extra_headers
        tls_options := tlsOptions s } := by
  unfold audioStreamer
  dsimp only
  rw [setPingInterval_of_initial rfl, enableCompression_of_initial rfl]

/-- Compression is asked for unless the variable or what was on the stack says no. -/
theorem compression_sessionClient (content : Locals) :
    (sessionClient switch vars wsUri content).compression_requested =
      (!vars.isTrue switch (ascii "STREAM_MESSAGE_DEFLATE") && decide (content.deflate = 0)) := by
  rw [sessionClient, audioStreamer_eq]
  cases htrue : vars.isTrue switch (ascii "STREAM_MESSAGE_DEFLATE") with
  | true => simp [settings, htrue]
  | false => simp [settings, htrue]

theorem ping_sessionClient (content : Locals) :
    (sessionClient switch vars wsUri content).ping_interval =
      (heartBeat content.heart_beat (vars (ascii "STREAM_HEART_BEAT"))).toUInt32 := by
  rw [sessionClient, audioStreamer_eq]
  rfl

/-- Everything else comes from the variables alone. -/
theorem sessionClient_eq_iff (content content' : Locals) :
    sessionClient switch vars wsUri content = sessionClient switch vars wsUri content' ↔
      (sessionClient switch vars wsUri content).compression_requested
          = (sessionClient switch vars wsUri content').compression_requested ∧
        (sessionClient switch vars wsUri content).ping_interval
          = (sessionClient switch vars wsUri content').ping_interval := by
  constructor
  · intro h
    rw [h]
    exact ⟨rfl, rfl⟩
  · rintro ⟨hcompression, hping⟩
    rw [sessionClient, sessionClient, audioStreamer_eq, audioStreamer_eq] at *
    dsimp only at hcompression hping
    rw [hcompression, hping]
    rfl

/-- A stack on which compression is on, and one on which it is off. -/
theorem compression_determined_iff :
    (∀ content content' : Locals,
        (sessionClient switch vars wsUri content).compression_requested
          = (sessionClient switch vars wsUri content').compression_requested) ↔
      vars.isTrue switch (ascii "STREAM_MESSAGE_DEFLATE") = true := by
  simp only [compression_sessionClient]
  constructor
  · intro h
    have hstacks := h ⟨0, 0⟩ ⟨1, 0⟩
    cases htrue : vars.isTrue switch (ascii "STREAM_MESSAGE_DEFLATE") with
    | true => rfl
    | false =>
        rw [htrue] at hstacks
        exact absurd hstacks (by decide)
  · intro htrue content content'
    rw [htrue]
    rfl

/-- Two stacks with different ping intervals, unless the variable is taken. -/
theorem ping_determined_iff :
    (∀ content content' : Locals,
        (sessionClient switch vars wsUri content).ping_interval
          = (sessionClient switch vars wsUri content').ping_interval) ↔
      ∃ value, vars (ascii "STREAM_HEART_BEAT") = some value ∧ IsHeartBeat value := by
  simp only [ping_sessionClient]
  constructor
  · intro h
    have hstacks := h ⟨0, 0⟩ ⟨0, 1⟩
    cases hvar : vars (ascii "STREAM_HEART_BEAT") with
    | none =>
        rw [hvar] at hstacks
        exact absurd hstacks (by decide)
    | some value =>
        refine ⟨value, rfl, ?_⟩
        by_contra hno
        rw [hvar, heartBeat, heartBeat, if_neg hno, if_neg hno] at hstacks
        exact absurd hstacks (by decide)
  · rintro ⟨value, hvar, hbeat⟩ content content'
    rw [hvar, heartBeat, heartBeat, if_pos hbeat, if_pos hbeat]

end

/-- **The configuration is determined by the variables exactly when both locals are
    assigned**: `STREAM_MESSAGE_DEFLATE` is true, and `STREAM_HEART_BEAT` is set to a
    number. -/
theorem sessionClient_determined_iff (switch : Switch) (vars : Variables) (wsUri : Bytes) :
    (∀ content content' : Locals,
        sessionClient switch vars wsUri content = sessionClient switch vars wsUri content') ↔
      vars.isTrue switch (ascii "STREAM_MESSAGE_DEFLATE") = true ∧
        ∃ value, vars (ascii "STREAM_HEART_BEAT") = some value ∧ IsHeartBeat value := by
  rw [← compression_determined_iff switch vars wsUri, ← ping_determined_iff switch vars wsUri]
  simp only [sessionClient_eq_iff]
  exact ⟨fun h => ⟨fun c c' => (h c c').1, fun c c' => (h c c').2⟩,
    fun h c c' => ⟨h.1 c c', h.2 c c'⟩⟩

/-- A channel without any of the variables: the stack decides on both. -/
theorem sessionClient_differs_unset :
    (sessionClient ⟨fun value => value = ascii "true", fun _ => []⟩ (fun _ => none)
        (ascii "ws://h/") ⟨0, 0⟩).compression_requested = true ∧
      (sessionClient ⟨fun value => value = ascii "true", fun _ => []⟩ (fun _ => none)
        (ascii "ws://h/") ⟨1, 7⟩).compression_requested = false ∧
      (sessionClient ⟨fun value => value = ascii "true", fun _ => []⟩ (fun _ => none)
        (ascii "ws://h/") ⟨0, 0⟩).ping_interval = 0 ∧
      (sessionClient ⟨fun value => value = ascii "true", fun _ => []⟩ (fun _ => none)
        (ascii "ws://h/") ⟨1, 7⟩).ping_interval = 7 := by
  decide +kernel

end FsBridge.Module.ClientConfig
