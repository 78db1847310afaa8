/-
  FsBridge.Bridge.Control

  The control commands (bridge/control.go) and the other two places that send
  an ESL command with a string from outside in it (bridge/agent.go): from the
  arguments to the text of the command and the bytes on the event socket.

  `execute` is split in two: `decodeAction` checks and decodes the arguments of
  a command, `CallAction.eslCmd` formats the ESL command of the action.
-/

import FsBridge.Bridge.Esl
import FsBridge.Lib.Framing
import FsBridge.Lib.Json

namespace FsBridge.Bridge

open FsBridge.Lib

/-- `ControlCommand`, with `args` as the value it encodes. -/
structure ControlCommand where
  id : Bytes
  cmd : Bytes
  args : Option Json

/-- The arguments of originate. -/
structure OriginateArgs where
  dest : Bytes
  ext : Bytes
  app : Bytes
  cid : Bytes
  vars : Json.StringMap
  metadata : Bytes

/-- The commands that end in an ESL command. -/
inductive CallAction where
  | originate (args : OriginateArgs)
  | hangup (uuid : Bytes)
  | transfer (uuid dest : Bytes)
  | hold (uuid : Bytes)
  | unhold (uuid : Bytes)
  | dtmf (uuid digits : Bytes)

/-- A command whose arguments have been accepted. -/
inductive ControlAction where
  | call (action : CallAction)
  | clearPlayback (uuid : Bytes)

/-- The errors `execute` replies with. -/
inductive ControlError where
  | originateArgs
  | uuidArgs
  | transferArgs
  | dtmfArgs
  | noAudioServer
  | noSession (uuid : Bytes)
  | sessionClosed
  | unknownCommand (cmd : Bytes)
  | eslNotConfigured
  | api (err : ApiError)
deriving DecidableEq, Repr

/-- The lexicographic order of Go strings. -/
def bytesLe : Bytes → Bytes → Bool
  | [], _ => true
  | _ :: _, [] => false
  | a :: s, b :: t => a < b || (a = b && bytesLe s t)

/-- `parts` of `buildOriginateVars`: the caller ID, the variables in the order of
    their keys, the metadata. -/
def originateParts (cid : Bytes) (vars : Json.StringMap) (metadata : Bytes) : List Bytes :=
  (if cid ≠ [] then [ascii "origination_caller_id_number=" ++ cid] else [])
    ++ (vars.entries.mergeSort fun e f => bytesLe e.1 f.1).map (fun e => e.1 ++ ascii "=" ++ e.2)
    ++ if metadata ≠ [] then [ascii "ws_bridge_metadata=" ++ metadata] else []

/-- `buildOriginateVars`. -/
def buildOriginateVars (cid : Bytes) (vars : Json.StringMap) (metadata : Bytes) : Bytes :=
  let parts := originateParts cid vars metadata
  if parts = [] then [] else ascii "\x7b" ++ joinWith (ascii ",") parts ++ ascii "\x7d"

/-- `uuidArg`. -/
def uuidArg (args : Option Json) : Except ControlError Bytes :=
  match Json.stringField (ascii "uuid") args with
  | some uuid => if uuid = [] then .error .uuidArgs else .ok uuid
  | none => .error .uuidArgs

/-- The arguments of originate, decoded. -/
def originateArgs (args : Option Json) : Option OriginateArgs := do
  let dest ← Json.stringField (ascii "dest") args
  let ext ← Json.stringField (ascii "ext") args
  let app ← Json.stringField (ascii "app") args
  let cid ← Json.stringField (ascii "cid") args
  let vars ← Json.mapField (ascii "vars") args
  let metadata ← Json.stringField (ascii "metadata") args
  pure ⟨dest, ext, app, cid, vars, metadata⟩

/-- Two string fields of the arguments, neither of them empty. -/
def twoStrings (first second : Bytes) (err : ControlError) (args : Option Json) :
    Except ControlError (Bytes × Bytes) :=
  match Json.stringField first args, Json.stringField second args with
  | some a, some b => if a = [] ∨ b = [] then .error err else .ok (a, b)
  | _, _ => .error err

/-- The first half of `execute`: which command, and its arguments. -/
def decodeAction (cmd : ControlCommand) : Except ControlError ControlAction :=
  if cmd.cmd = ascii "originate" then
    match originateArgs cmd.args with
    | some args =>
        if args.dest = [] then .error .originateArgs else .ok (.call (.originate args))
    | none => .error .originateArgs
  else if cmd.cmd = ascii "hangup" then
    (uuidArg cmd.args).map fun uuid => .call (.hangup uuid)
  else if cmd.cmd = ascii "transfer" then
    (twoStrings (ascii "uuid") (ascii "dest") .transferArgs cmd.args).map fun a =>
      .call (.transfer a.1 a.2)
  else if cmd.cmd = ascii "hold" then
    (uuidArg cmd.args).map fun uuid => .call (.hold uuid)
  else if cmd.cmd = ascii "unhold" then
    (uuidArg cmd.args).map fun uuid => .call (.unhold uuid)
  else if cmd.cmd = ascii "dtmf" then
    (twoStrings (ascii "uuid") (ascii "digits") .dtmfArgs cmd.args).map fun a =>
      .call (.dtmf a.1 a.2)
  else if cmd.cmd = ascii "clear_playback" then
    (uuidArg cmd.args).map fun uuid => .clearPlayback uuid
  else .error (.unknownCommand cmd.cmd)

/-- `eslCmd` of `execute`. -/
def CallAction.eslCmd : CallAction → Bytes
  | .originate args =>
      let vars := buildOriginateVars args.cid args.vars args.metadata
      if args.app ≠ [] then
        ascii "originate " ++ vars ++ args.dest ++ ascii " &" ++ trimPrefix args.app (ascii "&")
      else
        let ext := if args.ext = [] then ascii "9999" else args.ext
        ascii "originate " ++ vars ++ args.dest ++ ascii " " ++ ext ++ ascii " XML default"
  | .hangup uuid => ascii "uuid_kill " ++ uuid
  | .transfer uuid dest => ascii "uuid_transfer " ++ uuid ++ ascii " " ++ dest
  | .hold uuid => ascii "uuid_hold " ++ uuid
  | .unhold uuid => ascii "uuid_hold off " ++ uuid
  | .dtmf uuid digits => ascii "uuid_send_dtmf " ++ uuid ++ ascii " " ++ digits

/-- `ControlReply`. -/
structure ControlReply where
  id : Bytes
  result : Except ControlError Bytes
  uuid : Bytes

/-- `parseOriginateUUID`, over the fields of the result. -/
def parseOriginateUUID (fields : Bytes → List Bytes) (result : Bytes) : Bytes :=
  match fields result with
  | first :: second :: _ => if first = ascii "+OK" then second else []
  | _ => []

/-- What `execute` uses: `ESL` if it is set, `strings.Fields`, and the audio
    server, if it is set, as the outcome of `ClearPlayback` of a call's session. -/
structure ControlServer where
  esl : Option (Bytes → Except ApiError Bytes)
  fields : Bytes → List Bytes
  audio : Option (Bytes → Option (Except Unit Unit))

/-- `execute`. -/
def execute (cs : ControlServer) (cmd : ControlCommand) : ControlReply :=
  match decodeAction cmd with
  | .error err => ⟨cmd.id, .error err, []⟩
  | .ok (.clearPlayback uuid) =>
      match cs.audio with
      | none => ⟨cmd.id, .error .noAudioServer, []⟩
      | some sessions =>
          match sessions uuid with
          | none => ⟨cmd.id, .error (.noSession uuid), []⟩
          | some (.error _) => ⟨cmd.id, .error .sessionClosed, []⟩
          | some (.ok _) => ⟨cmd.id, .ok (ascii "playback cleared"), []⟩
  | .ok (.call action) =>
      match cs.esl with
      | none => ⟨cmd.id, .error .eslNotConfigured, []⟩
      | some api =>
          match api action.eslCmd with
          | .error err => ⟨cmd.id, .error (.api err), []⟩
          | .ok result => ⟨cmd.id, .ok result,
              if cmd.cmd = ascii "originate" then parseOriginateUUID cs.fields result else []⟩

/-- The ESL command `execute` gives to `API`, if it comes that far. -/
def controlEslCmd (cmd : ControlCommand) : Option Bytes :=
  match decodeAction cmd with
  | .ok (.call action) => some action.eslCmd
  | _ => none

/-- The ESL command of `callInfo` for a session's `uuid` query value. -/
def callInfoEslCmd (fsUUID : Bytes) : Option Bytes :=
  if fsUUID = [] then none else some (ascii "uuid_dump " ++ fsUUID)

/-- The ESL command of `readFromAgent` for a hangup message. -/
def agentHangupEslCmd (fsUUID : Bytes) : Option Bytes :=
  if fsUUID = [] then none else some (ascii "uuid_kill " ++ fsUUID)

/-- `writeESLCommand`: the bytes written to the event socket. -/
def writeESLCommand (cmd : Bytes) : Bytes := cmd ++ ascii "\n\n"

/-- The bytes `API` writes for a command. -/
def apiBytes (cmd : Bytes) : Bytes := writeESLCommand (ascii "api " ++ cmd)

end FsBridge.Bridge
