/-
  FsBridge.Bridge.Esl

  Event Socket messages as the client sees them (bridge/esl.go): a framed
  message, and the text that `API` returns for a reply.
-/

import Mathlib.Data.List.Infix
import FsBridge.Lib.Ascii

namespace FsBridge.Bridge

open FsBridge.Lib

/-- `eslMessage`: one framed ESL protocol message, each header key once. -/
structure EslMessage where
  headers : List (Bytes × Bytes)
  body : Bytes
deriving DecidableEq, Repr

namespace EslMessage

/-- `msg.headers[key]`: a missing header reads as the empty string. -/
def header (msg : EslMessage) (key : Bytes) : Bytes :=
  (msg.headers.lookup key).getD []

def contentType (msg : EslMessage) : Bytes := msg.header (ascii "Content-Type")

/-- The read loop takes the message for the reply to a command. -/
def isReply (msg : EslMessage) : Bool :=
  msg.contentType = ascii "command/reply" ∨ msg.contentType = ascii "api/response"

def isDisconnectNotice (msg : EslMessage) : Bool :=
  msg.contentType = ascii "text/disconnect-notice"

/-- The test of the greeting in `connectAndServe`. -/
def isGreeting (msg : EslMessage) : Bool :=
  ascii "auth/request" <:+: msg.contentType ∨ msg.headers = []

/-- The test of the auth reply in `connectAndServe`. -/
def authOk (msg : EslMessage) : Bool :=
  ascii "+OK" <:+: msg.header (ascii "Reply-Text")

end EslMessage

/-- The errors of `ESLClient.API`. -/
inductive ApiError where
  | notConnected
  | write
  | ctx
  | clientClosed
  | replyTimeout
  | reply (text : Bytes)
deriving DecidableEq, Repr

/-- What `API` returns for the message it receives from `pendingReply`. -/
def apiResult (msg : EslMessage) : Except ApiError Bytes :=
  if msg.contentType = ascii "api/response" then .ok (trimSpace msg.body)
  else
    let replyText := msg.header (ascii "Reply-Text")
    if ascii "-ERR" <+: replyText then .error (.reply (trimSpace replyText))
    else if msg.body ≠ [] then .ok (trimSpace msg.body)
    else .ok replyText

end FsBridge.Bridge
