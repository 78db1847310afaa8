/-
  FsBridge.Module.StreamUri

  From the arguments of `uuid_ws_bridge <uuid> start` to the request target of the
  handshake: the start command (`stream_function`, module/mod_ws_bridge.c),
  `validate_ws_uri` and the first part of `stream_data_init`
  (module/ws_bridge_glue.cpp), and `setUrl` of the WebSocket client
  (module/libs/libwsc).

  Strings are C strings: their bytes before the NUL.  `beyond` is what lies behind an
  array that `strncpy` has filled without room for a NUL, up to the next NUL.
-/

import Mathlib.Algebra.Group.Int.Defs
import FsBridge.Lib.Ascii
import FsBridge.Lib.Decimal
import FsBridge.Lib.Query

namespace FsBridge.Module.StreamUri

open FsBridge.Lib
open FsBridge.Lib.Decimal (isDigit print scan natDigits)
open FsBridge.Lib.Query (cut)

/-- `MAX_WS_URI`. -/
def maxWsUri : Nat := 4096

/-- `MAX_SESSION_ID`. -/
def maxSessionId : Nat := 256

def slash : UInt8 := 47
def colon : UInt8 := 58
def question : UInt8 := 63
def hyphen : UInt8 := 45
def dot : UInt8 := 46

def isAlnum (c : UInt8) : Bool := isDigit c ∨ 65 ≤ c ∧ c ≤ 90 ∨ 97 ≤ c ∧ c ≤ 122

/-- What follows the scheme; the flag is set for `wss://`. -/
def afterScheme (url : Bytes) : Option (Bool × Bytes) :=
  if ascii "ws://" <+: url then some (false, url.drop 5)
  else if ascii "wss://" <+: url then some (true, url.drop 6)
  else none

/-- `validate_ws_uri`: a scheme, a host, a port of any digits if there is a colon, and
    from the first slash on anything. -/
def validateWsUri (url : Bytes) : Bool :=
  match afterScheme url with
  | none => false
  | some (_, rest) =>
      let host := rest.takeWhile fun c => c ≠ colon ∧ c ≠ slash
      host.all (fun c => isAlnum c || c = hyphen || c = dot) && !host.isEmpty &&
        match rest.drop host.length with
        | [] => true
        | c :: port => c ≠ colon || (port.takeWhile fun d => d ≠ slash).all isDigit

/-- `strncpy(wsUri, url, MAX_WS_URI)` as the `std::string` made of it reads it. -/
def copiedUri (url beyond : Bytes) : Bytes :=
  if url.length < maxWsUri then url else url.take maxWsUri ++ beyond

-- ============================================================================
-- The start command
-- ============================================================================

/-- The mix argument. -/
inductive Mix where
  | mono
  | mixed
  | stereo
deriving DecidableEq, Repr

def Mix.name : Mix → Bytes
  | .mono => ascii "mono"
  | .mixed => ascii "mixed"
  | .stereo => ascii "stereo"

def parseMix (arg : Bytes) : Option Mix :=
  if arg = ascii "mixed" then some .mixed
  else if arg = ascii "stereo" then some .stereo
  else if arg = ascii "mono" then some .mono
  else none

/-- `SMBF_STEREO` is set for stereo only. -/
def Mix.channels : Mix → Nat
  | .mono | .mixed => 1
  | .stereo => 2

/-- `atoi`: `strtol`, which stays within a `long`, cut down to an `int`. -/
def atoi (s : Bytes) : Int32 :=
  match scan s with
  | none => 0
  | some n => Int32.ofInt (max (-2 ^ 63) (min n (2 ^ 63 - 1)))

/-- The rate argument. -/
def samplingArg : Option Bytes → Int32
  | none => 8000
  | some arg =>
      if arg = ascii "16k" then 16000
      else if arg = ascii "8k" then 8000
      else atoi arg

/-- What `start_capture` is called with. -/
structure Start where
  wsUri : Bytes
  mix : Mix
  sampling : Int32
deriving DecidableEq, Repr

/-- The `start` branch of `stream_function`, without metadata; `none` where it refuses. -/
def startCommand (url mix : Bytes) (rate : Option Bytes) (beyond : Bytes) : Option Start :=
  match parseMix mix with
  | none => none
  | some m =>
      if ¬ validateWsUri url then none
      else if samplingArg rate % 8000 ≠ 0 then none
      else some ⟨copiedUri url beyond, m, samplingArg rate⟩

-- ============================================================================
-- stream_data_init
-- ============================================================================

/-- What `stream_data_init` asks the C library: whether `inet_pton` takes a host for an
    IPv4 address, and the first address `getaddrinfo` finds for it. -/
structure Resolver where
  isIPv4 : Bytes → Bool
  getaddrinfo : Bytes → Option (List UInt8)

/-- `inet_ntop`. -/
def inetNtop (address : List UInt8) : Bytes :=
  joinWith [dot] (address.map fun b => natDigits b.toNat)

/-- The pre-resolved URL: the host of a plain `ws://` URL becomes its address. -/
def preResolve (resolver : Resolver) (uri : Bytes) : Bytes :=
  if ascii "ws://" <+: uri then
    let rest := uri.drop 5
    let host := rest.takeWhile fun c => c ≠ colon ∧ c ≠ slash
    if host ≠ [] ∧ ¬ resolver.isIPv4 host then
      match resolver.getaddrinfo host with
      | none => uri
      | some address => ascii "ws://" ++ inetNtop address ++ rest.drop host.length
    else uri
  else uri

/-- The `mix` parameter. -/
def mixParam (channels : Nat) : Bytes := if channels = 2 then ascii "stereo" else ascii "mono"

/-- The separator in front of the parameters. -/
def separator (uri : Bytes) : UInt8 := if question ∈ uri then Query.amp else question

/-- The parameters without it. -/
def params (sampling : Int32) (mix : Bytes) (sessionId : Bytes) : Bytes :=
  ascii "rate" ++ Query.eq :: print sampling.toInt ++ Query.amp ::
    (ascii "mix" ++ Query.eq :: mix ++ Query.amp :: (ascii "uuid" ++ Query.eq :: sessionId))

/-- `tech_pvt->ws_uri`: `strncpy` of `MAX_WS_URI - 1` bytes into a zeroed field.
    `sessionId` is what `strncpy` of `MAX_SESSION_ID` keeps of the uuid: the field behind
    it is still zero. -/
def streamUri (resolver : Resolver) (start : Start) (uuid : Bytes) : Bytes :=
  let uri := preResolve resolver start.wsUri
  let sent := params start.sampling (mixParam start.mix.channels) (uuid.take maxSessionId)
  (uri ++ separator uri :: sent).take (maxWsUri - 1)

-- ============================================================================
-- The client
-- ============================================================================

/-- `std::stoi`; its exceptions are `none`. -/
def stoi (s : Bytes) : Option Int :=
  match scan s with
  | none => none
  | some n => if -2 ^ 31 ≤ n ∧ n < 2 ^ 31 then some n else none

/-- The URL as the client takes it apart.  `uri` is the request target; `port` is `none`
    while it is not set. -/
structure ClientUrl where
  secure : Bool
  host : Bytes
  port : Option UInt16
  uri : Bytes
deriving DecidableEq, Repr

/-- The request target behind a host and a port. -/
def pathOf (rest : Bytes) : Bytes :=
  if slash ∈ rest then rest.dropWhile (· != slash) else [slash]

/-- `WebSocketClient::setUrl`, with its early returns. -/
def setUrl (url : Bytes) : ClientUrl :=
  match afterScheme url with
  | none => ⟨false, [], none, []⟩
  | some (secure, rest) =>
      let hostport := rest.takeWhile (· != slash)
      if colon ∈ hostport then
        let host := (cut colon hostport).1
        match stoi (cut colon hostport).2 with
        | none => ⟨secure, host, none, []⟩
        | some port =>
            ⟨secure, host, some (UInt16.ofInt port), if host = [] then [] else pathOf rest⟩
      else
        ⟨secure, hostport, some (if secure then 443 else 80),
          if hostport = [] then [] else pathOf rest⟩

/-- `GET <uri> HTTP/1.1`. -/
def requestTarget (url : Bytes) : Bytes := (setUrl url).uri

end FsBridge.Module.StreamUri
