/-
  FsBridge.Bridge.ControlReplies

  What the client of `/control` is told about a command (bridge/control.go): the
  fields `ok` and `error` of the reply, against the reply FreeSWITCH sent.

  `API` tests the first of the two kinds of reply for an error only
  (`command/reply`), and for one of the two ways in which FreeSWITCH reports one.
-/

import FsBridge.Bridge.Control

namespace FsBridge.Bridge

open FsBridge.Lib

-- ============================================================================
-- The reply to the control client
-- ============================================================================

/-- The texts that come from outside the bridge: of the error of a write, of the
    error of a context, and of a string under the verb `%q`. -/
structure ErrorTexts where
  write : Bytes
  ctx : Bytes
  quote : Bytes → Bytes

/-- `err.Error()` of an error of `API`. -/
def ApiError.text (texts : ErrorTexts) : ApiError → Bytes
  | .notConnected => ascii "esl: not connected"
  | .write => texts.write
  | .ctx => texts.ctx
  | .clientClosed => ascii "esl: client closed"
  | .replyTimeout => ascii "esl: api reply timeout"
  | .reply text => text

/-- `err.Error()` of an error of `execute`. -/
def ControlError.text (texts : ErrorTexts) : ControlError → Bytes
  | .originateArgs => ascii "originate requires args.dest"
  | .uuidArgs => ascii "command requires args.uuid"
  | .transferArgs => ascii "transfer requires args.uuid and args.dest"
  | .dtmfArgs => ascii "dtmf requires args.uuid and args.digits"
  | .noAudioServer => ascii "no audio server configured"
  | .noSession uuid => ascii "no active audio session for call " ++ uuid
  | .sessionClosed => ascii "bridge: session closed"
  | .unknownCommand cmd => ascii "unknown command " ++ texts.quote cmd
  | .eslNotConfigured => ascii "ESL not configured"
  | .api err => err.text texts

/-- The field `ok`. -/
def ControlReply.ok (reply : ControlReply) : Bool := reply.result.toBool

/-- The field `error`. -/
def ControlReply.error (texts : ErrorTexts) (reply : ControlReply) : Bytes :=
  match reply.result with
  | .ok _ => []
  | .error err => err.text texts

-- ============================================================================
-- The reply of FreeSWITCH
-- ============================================================================

/-- What FreeSWITCH says: in the body of the reply to an `api` command, in
    `Reply-Text` otherwise. -/
def EslMessage.replyText (msg : EslMessage) : Bytes :=
  if msg.contentType = ascii "api/response" then msg.body
  else msg.header (ascii "Reply-Text")

/-- The two ways in which FreeSWITCH reports an error. -/
def EslMessage.reportsError (msg : EslMessage) : Bool :=
  ascii "-ERR" <+: msg.replyText ∨ ascii "-USAGE" <+: msg.replyText

/-- The reply to the control client is a success only where that of FreeSWITCH
    is, and says otherwise what FreeSWITCH said. -/
structure SuccessMeansSuccess (texts : ErrorTexts) (cmd : ControlCommand) (msg : EslMessage)
    (reply : ControlReply) : Prop where
  id : reply.id = cmd.id
  ok : reply.ok = true → msg.reportsError = false
  error : msg.reportsError = true →
    reply.ok = false ∧ reply.error texts = trimSpace msg.replyText

/-- `API` sees that the reply is an error. -/
def EslMessage.seenAsError (msg : EslMessage) : Bool :=
  msg.contentType ≠ ascii "api/response" ∧ ascii "-ERR" <+: msg.header (ascii "Reply-Text")

theorem apiResult_of_seenAsError {msg : EslMessage} (h : msg.seenAsError = true) :
    apiResult msg = .error (.reply (trimSpace msg.replyText)) := by
  obtain ⟨htype, herr⟩ := of_decide_eq_true h
  rw [apiResult, if_neg htype, EslMessage.replyText, if_neg htype, if_pos herr]

theorem apiResult_of_not_seenAsError {msg : EslMessage} (h : msg.seenAsError = false) :
    ∃ text, apiResult msg = .ok text := by
  have hseen := of_decide_eq_false h
  unfold apiResult
  by_cases htype : msg.contentType = ascii "api/response"
  · exact ⟨_, if_pos htype⟩
  · have herr : ¬ ascii "-ERR" <+: msg.header (ascii "Reply-Text") := fun herr =>
      hseen ⟨htype, herr⟩
    rw [if_neg htype]
    dsimp only
    rw [if_neg herr]
    by_cases hbody : msg.body = []
    · exact ⟨_, if_neg (not_not_intro hbody)⟩
    · exact ⟨_, if_pos hbody⟩

theorem reportsError_of_seenAsError {msg : EslMessage} (h : msg.seenAsError = true) :
    msg.reportsError = true := by
  obtain ⟨htype, herr⟩ := of_decide_eq_true h
  apply decide_eq_true
  left
  rwa [EslMessage.replyText, if_neg htype]

/-- A command that reaches ESL is answered with what `API` returns. -/
theorem execute_of_reaches {cs : ControlServer} {cmd : ControlCommand}
    {api : Bytes → Except ApiError Bytes} (hesl : cs.esl = some api) {eslCmd : Bytes}
    (hreach : controlEslCmd cmd = some eslCmd) :
    (execute cs cmd).id = cmd.id ∧
      (execute cs cmd).result = (api eslCmd).mapError ControlError.api := by
  unfold controlEslCmd at hreach
  split at hreach
  · rename_i action haction
    cases hreach
    rw [execute, haction, hesl]
    dsimp only
    cases api action.eslCmd <;> exact ⟨rfl, rfl⟩
  · exact absurd hreach (by simp)

/-- Control success means FreeSWITCH success, for every command that reaches ESL
    and every reply, exactly when an error FreeSWITCH reports is one that `API`
    looks for. -/
theorem successMeansSuccess_iff (texts : ErrorTexts) (cs : ControlServer) (cmd : ControlCommand)
    (msg : EslMessage) (hesl : cs.esl = some fun _ => apiResult msg)
    (hreach : (controlEslCmd cmd).isSome = true) :
    SuccessMeansSuccess texts cmd msg (execute cs cmd) ↔
      (msg.reportsError = true →
        msg.contentType ≠ ascii "api/response" ∧
          ascii "-ERR" <+: msg.header (ascii "Reply-Text")) := by
  obtain ⟨eslCmd, hcmd⟩ := Option.isSome_iff_exists.mp hreach
  obtain ⟨hid, hresult⟩ := execute_of_reaches hesl hcmd
  constructor
  · intro h herr
    by_contra hseen
    obtain ⟨text, htext⟩ := apiResult_of_not_seenAsError (decide_eq_false hseen)
    have hok : (execute cs cmd).ok = true := by
      rw [ControlReply.ok, hresult, htext]
      rfl
    rw [(h.error herr).1] at hok
    exact absurd hok (by decide)
  · intro hcond
    cases hseen : msg.seenAsError with
    | true =>
        have herr := reportsError_of_seenAsError hseen
        rw [apiResult_of_seenAsError hseen] at hresult
        refine ⟨hid, fun hok => ?_, fun _ => ⟨?_, ?_⟩⟩
        · rw [ControlReply.ok, hresult] at hok
          exact absurd hok (by simp [Except.mapError, Except.toBool])
        · rw [ControlReply.ok, hresult]
          rfl
        · rw [ControlReply.error, hresult]
          rfl
    | false =>
        have hnone : msg.reportsError = false := by
          cases herr : msg.reportsError with
          | false => rfl
          | true => exact absurd (hcond herr) (of_decide_eq_false hseen)
        exact ⟨hid, fun _ => hnone, fun herr => absurd (hnone.symm.trans herr) (by decide)⟩

def hangupCommand : ControlCommand :=
  ⟨ascii "1", ascii "hangup", some (.obj [(ascii "uuid", .str (ascii "a"))])⟩

/-- A control server whose `API` gets the reply `msg`. -/
def repliedWith (msg : EslMessage) : ControlServer :=
  ⟨some fun _ => apiResult msg, fun s => [s], none⟩

def anyTexts : ErrorTexts := ⟨ascii "broken pipe", ascii "context canceled", fun s => s⟩

/-- A `command/reply` that begins with `-ERR` is reported. -/
theorem successMeansSuccess_iff_command :
    SuccessMeansSuccess anyTexts hangupCommand
      ⟨[(ascii "Content-Type", ascii "command/reply"), (ascii "Reply-Text", ascii "-ERR denied")],
        []⟩
      (execute (repliedWith
        ⟨[(ascii "Content-Type", ascii "command/reply"), (ascii "Reply-Text", ascii "-ERR denied")],
          []⟩) hangupCommand) :=
  (successMeansSuccess_iff anyTexts (repliedWith _) hangupCommand _ rfl (by decide)).mpr
    fun _ => by decide

/-- The reply FreeSWITCH sends to `api uuid_kill` for a call it does not have. -/
theorem hangup_error_ok :
    ¬ SuccessMeansSuccess anyTexts hangupCommand
      ⟨[(ascii "Content-Type", ascii "api/response")], ascii "-ERR No such channel!\n"⟩
      (execute (repliedWith
        ⟨[(ascii "Content-Type", ascii "api/response")], ascii "-ERR No such channel!\n"⟩)
        hangupCommand) := fun h =>
  absurd (h.ok rfl) (by decide)

end FsBridge.Bridge
