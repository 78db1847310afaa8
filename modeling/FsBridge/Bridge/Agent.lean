/-
  FsBridge.Bridge.Agent

  The messages between the bridge and an agent application (bridge/agent.go): what
  `AgentForwarder` writes, and what `readFromAgent` does with a frame it reads.

  A text frame to the agent is named by the message it is the JSON text of.
-/

import FsBridge.Bridge.CallEvents
import FsBridge.Bridge.EslFraming
import FsBridge.Bridge.Recorder
import FsBridge.Bridge.ServeWS
import FsBridge.Lib.JsonScan

namespace FsBridge.Bridge

open FsBridge.Lib

-- ============================================================================
-- Messages
-- ============================================================================

/-- `AgentMessage`. -/
structure AgentMessage where
  type : Bytes
  uuid : Bytes
  session : Bytes
  rate : Int
  mix : Bytes
  name : Bytes
  data : Bytes
  caller : Bytes
  destination : Bytes
  direction : Bytes
deriving DecidableEq, Repr

/-- A frame on the agent connection. -/
inductive AgentFrame where
  | binary (pcm : Bytes)
  | text (msg : AgentMessage)
deriving DecidableEq, Repr

/-- A message with the fields every message of the bridge has. -/
def agentMessage (type : String) (s : SessionInfo) : AgentMessage where
  type := ascii type
  uuid := s.fsUUID
  session := s.id.id
  rate := 0
  mix := []
  name := []
  data := []
  caller := []
  destination := []
  direction := []

/-- `json.Marshal` of a message: `omitempty` leaves empty fields out, and a
    `json.RawMessage` that is not left out has to be JSON. -/
def AgentMessage.marshal (msg : AgentMessage) : Option AgentFrame :=
  if msg.data ≠ [] ∧ JsonScan.valid msg.data = false then none else some (.text msg)

-- ============================================================================
-- OnStart
-- ============================================================================

/-- `CallInfo`. -/
structure CallInfo where
  uuid : Bytes
  caller : Bytes
  destination : Bytes
  direction : Bytes
deriving DecidableEq, Repr

/-- `parseKeyValueLines`. -/
def parseKeyValueLines (s : Bytes) : Json.StringMap :=
  (s.splitOn lf).foldl (fun out line =>
    match cutColonSpace line with
    | some (k, v) => out.insert (trimSpace k) (trimSpace v)
    | none => out) .empty

/-- `AgentForwarder.callInfo`; a panic is `none`. -/
def resolveCallInfo (ESL : ServeWS.Interface ServeWS.ESLClient) (s : SessionInfo)
    (dump : Except Unit Bytes) : Option CallInfo :=
  (ServeWS.callInfo ESL s.fsUUID dump).map fun
    | none => ⟨s.fsUUID, [], [], []⟩
    | some reply =>
        let h := parseKeyValueLines reply
        ⟨s.fsUUID, h.get (ascii "Caller-Caller-ID-Number"),
          h.get (ascii "Caller-Destination-Number"), h.get (ascii "Call-Direction")⟩

/-- The `start` message of `OnStart`. -/
def startMessage (s : SessionInfo) (ci : CallInfo) : AgentMessage :=
  { agentMessage "start" s with
    rate := s.sampleRate
    mix := s.mixType
    caller := ci.caller
    destination := ci.destination
    direction := ci.direction }

/-- The message of `OnText`. -/
def metadataMessage (s : SessionInfo) (data : Bytes) : AgentMessage :=
  { agentMessage "metadata" s with data := data }

/-- The message of `OnEnd`. -/
def stopMessage (s : SessionInfo) : AgentMessage := agentMessage "stop" s

-- ============================================================================
-- readFromAgent
-- ============================================================================

/-- What `readFromAgent` does with a frame. -/
inductive AgentReaction where
  | sendAudio (pcm : Bytes)
  | clearPlayback
  | api (cmd : Bytes)
  | publish (ev : Event)
  | nothing

/-- `readFromAgent` on a frame it has read: `unmarshal` is `json.Unmarshal` into an
    `AgentMessage`, `unmarshalMap` that into a `map[string]any`. -/
def readFromAgent (ESL bus : Bool) (unmarshal : Bytes → Option AgentMessage)
    (unmarshalMap : Bytes → Option (List (Bytes × Json))) (s : SessionInfo)
    (f : ServeWS.Frame) : AgentReaction :=
  match f with
  | .binary data => .sendAudio data
  | .text data =>
      match unmarshal data with
      | none => .nothing
      | some msg =>
          if msg.type = ascii "clear" then .clearPlayback
          else if msg.type = ascii "hangup" then
            if ESL = false ∨ s.fsUUID = [] then .nothing
            else .api (ascii "uuid_kill " ++ s.fsUUID)
          else if msg.type = ascii "event" then
            if bus then
              .publish ⟨msg.name, s.fsUUID,
                if msg.data ≠ [] then (unmarshalMap msg.data).getD [] else []⟩
            else .nothing
          else .nothing

-- ============================================================================
-- What is written of a message of the bridge
-- ============================================================================

theorem marshal_start (s : SessionInfo) (ci : CallInfo) :
    (startMessage s ci).marshal = some (.text (startMessage s ci)) :=
  if_neg fun h => h.1 rfl

theorem marshal_stop (s : SessionInfo) :
    (stopMessage s).marshal = some (.text (stopMessage s)) :=
  if_neg fun h => h.1 rfl

theorem marshal_metadata (s : SessionInfo) {data : Bytes} (h : data ≠ []) :
    (metadataMessage s data).marshal =
      if JsonScan.valid data then some (.text (metadataMessage s data)) else none := by
  rw [AgentMessage.marshal]
  cases hvalid : JsonScan.valid data with
  | true => exact if_neg fun h => absurd (hvalid.symm.trans h.2) (by simp)
  | false => exact if_pos ⟨h, hvalid⟩

/-- The data of an empty text is left out, and the rest is written. -/
theorem marshal_metadata_nil (s : SessionInfo) :
    (metadataMessage s []).marshal = some (.text (metadataMessage s [])) :=
  if_neg fun h => h.1 rfl

/-- No other message of the bridge is taken for its `stop`. -/
theorem start_ne_stop (s : SessionInfo) (ci : CallInfo) : startMessage s ci ≠ stopMessage s :=
  fun h => absurd (congrArg AgentMessage.type h) (show ascii "start" ≠ ascii "stop" by decide)

theorem metadata_ne_stop (s : SessionInfo) (data : Bytes) :
    metadataMessage s data ≠ stopMessage s := fun h =>
  absurd (congrArg AgentMessage.type h)
    (show ascii "metadata" ≠ ascii "stop" by decide)

end FsBridge.Bridge
