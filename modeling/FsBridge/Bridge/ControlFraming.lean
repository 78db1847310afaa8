/-
  FsBridge.Bridge.ControlFraming

  One action, one ESL command: the commands a reader of the event socket finds
  in the bytes written for a control action or for a session's uuid.

  The strings of a command go into its text unescaped.  One that is followed by
  more of its line may not contain a blank line; the one that ends the command
  may not end in one either.
-/

import FsBridge.Bridge.Control

namespace FsBridge.Bridge

open FsBridge.Lib

/-- An action that gives a command to `API`. -/
inductive EslRequest where
  | control (cmd : ControlCommand)
  /-- `callInfo` of a session with this `uuid` query value. -/
  | callInfo (fsUUID : Bytes)
  /-- The hangup message of the agent of such a session. -/
  | agentHangup (fsUUID : Bytes)

/-- The command, if one is sent. -/
def EslRequest.eslCmd : EslRequest → Option Bytes
  | .control cmd => controlEslCmd cmd
  | .callInfo fsUUID => callInfoEslCmd fsUUID
  | .agentHangup fsUUID => agentHangupEslCmd fsUUID

/-- The bytes written for the command are that command and nothing else. -/
def OneCommand (cmd : Bytes) : Prop :=
  splitCommands (apiBytes cmd) = ([ascii "api " ++ cmd], [])

-- ============================================================================
-- The condition
-- ============================================================================

/-- The string neither contains a blank line nor ends in one. -/
def EndsClean (s : Bytes) : Prop := ¬ HasBlankLine s ∧ ¬ EndsLine s

/-- The strings of the variable block. -/
def blockStrings (cid : Bytes) (vars : Json.StringMap) (metadata : Bytes) : List Bytes :=
  cid :: vars.entries.flatMap (fun e => [e.1, e.2]) ++ [metadata]

/-- The strings an action puts into its command, and the one the command ends
    with, if it ends with one. -/
def CallAction.strings : CallAction → List Bytes × Option Bytes
  | .originate args =>
      let block := blockStrings args.cid args.vars args.metadata
      if args.app ≠ [] then (block ++ [args.dest], some (trimPrefix args.app (ascii "&")))
      else (block ++ [args.dest, args.ext], none)
  | .hangup uuid | .hold uuid | .unhold uuid => ([], some uuid)
  | .transfer uuid dest => ([uuid], some dest)
  | .dtmf uuid digits => ([uuid], some digits)

/-- No string inside the command contains a blank line, and the string the
    command ends with does not end in one either. -/
def StringsClean (strings : List Bytes × Option Bytes) : Prop :=
  (∀ s ∈ strings.1, ¬ HasBlankLine s) ∧ ∀ s ∈ strings.2, EndsClean s

/-- The strings of the request are clean. -/
def EslRequest.Clean : EslRequest → Prop
  | .control cmd => ∀ action, decodeAction cmd = .ok (.call action) → StringsClean action.strings
  | .callInfo fsUUID | .agentHangup fsUUID => EndsClean fsUUID

-- ============================================================================
-- Commands
-- ============================================================================

/-- Between the newline that ends it and the blank line behind it. -/
theorem oneCommand_iff_scan (cmd : Bytes) : OneCommand cmd ↔ scan false cmd = some false := by
  have hbytes : apiBytes cmd = (ascii "api " ++ cmd) ++ [lf, lf] := rfl
  rw [OneCommand, splitCommands_eq_single_iff, hbytes, readCommand_blank_iff, scan_append]
  rfl

/-- A constant word at the start. -/
theorem scan_word {word rest : Bytes} (h : scan false word = some false) :
    scan false (word ++ rest) = scan false rest := by
  rw [scan_append, h]
  rfl

theorem scan_word_last {word s : Bytes} (h : scan false word = some false) :
    scan false (word ++ s) = some false ↔ EndsClean s := by
  rw [scan_word h, scan_false_iff]
  rfl

/-- A string between two pieces of one line. -/
theorem scan_string_iff {s rest : Bytes} :
    scan false (s ++ ascii " " ++ rest) = some false ↔
      ¬ HasBlankLine s ∧ scan false rest = some false := by
  rw [List.append_assoc]
  exact scan_piece_iff (by decide) (by decide)

theorem scan_two_iff {word s t : Bytes} (h : scan false word = some false) :
    scan false (word ++ s ++ ascii " " ++ t) = some false ↔ ¬ HasBlankLine s ∧ EndsClean t := by
  rw [List.append_assoc, List.append_assoc, scan_word h, ← List.append_assoc, scan_string_iff,
    scan_false_iff]
  rfl

-- ============================================================================
-- The variable block of originate
-- ============================================================================

theorem hasBlankLine_word {word s : Bytes} (h : scan false word = some false) :
    HasBlankLine (word ++ s) ↔ HasBlankLine s := by
  rw [← scan_none_iff, scan_word h, scan_none_iff]

theorem not_hasBlankLine_nil : ¬ HasBlankLine [] := by
  rw [← scan_none_iff]
  simp [scan]

/-- The parts are in one line with the commas between them and the brace behind. -/
theorem scan_joinWith_iff {parts : List Bytes} (hparts : parts ≠ []) {rest : Bytes} :
    scan false (joinWith (ascii ",") parts ++ (ascii "\x7d" ++ rest)) = some false ↔
      (∀ p ∈ parts, ¬ HasBlankLine p) ∧ scan false rest = some false := by
  induction parts with
  | nil => exact absurd rfl hparts
  | cons p ps ih =>
      cases ps with
      | nil =>
          have hbrace : joinWith (ascii ",") [p] ++ (ascii "\x7d" ++ rest) = p ++ 125 :: rest := rfl
          rw [hbrace, scan_piece_iff (by decide) (by decide), List.forall_mem_singleton]
      | cons q ps =>
          have hassoc : joinWith (ascii ",") (p :: q :: ps) ++ (ascii "\x7d" ++ rest)
              = p ++ 44 :: (joinWith (ascii ",") (q :: ps) ++ (ascii "\x7d" ++ rest)) := by
            simp [joinWith, ascii]
          rw [hassoc, scan_piece_iff (by decide) (by decide), ih (by simp),
            List.forall_mem_cons (a := p), and_assoc]

theorem originateParts_clean (cid : Bytes) (vars : Json.StringMap) (metadata : Bytes) :
    (∀ p ∈ originateParts cid vars metadata, ¬ HasBlankLine p) ↔
      ∀ s ∈ blockStrings cid vars metadata, ¬ HasBlankLine s := by
  have hcid : (∀ p ∈ (if cid ≠ [] then [ascii "origination_caller_id_number=" ++ cid] else []),
      ¬ HasBlankLine p) ↔ ¬ HasBlankLine cid := by
    split
    · rw [List.forall_mem_singleton, hasBlankLine_word (by decide)]
    · rename_i hnil
      have hcid : cid = [] := by simpa using hnil
      simp [hcid, not_hasBlankLine_nil]
  have hmeta : (∀ p ∈ (if metadata ≠ [] then [ascii "ws_bridge_metadata=" ++ metadata] else []),
      ¬ HasBlankLine p) ↔ ¬ HasBlankLine metadata := by
    split
    · rw [List.forall_mem_singleton, hasBlankLine_word (by decide)]
    · rename_i hnil
      have hmeta : metadata = [] := by simpa using hnil
      simp [hmeta, not_hasBlankLine_nil]
  have hentry : ∀ e : Bytes × Bytes, ¬ HasBlankLine (e.1 ++ ascii "=" ++ e.2) ↔
      ¬ HasBlankLine e.1 ∧ ¬ HasBlankLine e.2 := by
    intro e
    have hassoc : e.1 ++ ascii "=" ++ e.2 = e.1 ++ 61 :: e.2 := by simp [ascii]
    rw [hassoc, hasBlankLine_piece (by decide) (by decide), not_or]
  have hvars : (∀ p ∈ (vars.entries.mergeSort fun e f => bytesLe e.1 f.1).map
        (fun e => e.1 ++ ascii "=" ++ e.2), ¬ HasBlankLine p) ↔
      ∀ s ∈ vars.entries.flatMap (fun e => [e.1, e.2]), ¬ HasBlankLine s := by
    rw [List.forall_mem_map]
    constructor
    · intro h s hs
      obtain ⟨e, he, hmem⟩ := List.mem_flatMap.mp hs
      obtain ⟨hkey, hvalue⟩ := (hentry e).mp (h e (List.mem_mergeSort.mpr he))
      rcases List.mem_pair.mp hmem with rfl | rfl
      · exact hkey
      · exact hvalue
    · intro h e he
      have hmem := List.mem_mergeSort.mp he
      refine (hentry e).mpr ⟨h e.1 ?_, h e.2 ?_⟩
      · exact List.mem_flatMap.mpr ⟨e, hmem, by simp⟩
      · exact List.mem_flatMap.mpr ⟨e, hmem, by simp⟩
  rw [originateParts, blockStrings, List.forall_mem_append, List.forall_mem_append, hcid, hmeta,
    hvars, List.forall_mem_append, List.forall_mem_cons, List.forall_mem_singleton]

/-- The block and the dial string, with more of the line behind them. -/
theorem scan_block_iff (cid : Bytes) (vars : Json.StringMap) (metadata dest : Bytes)
    {rest : Bytes} :
    scan false (buildOriginateVars cid vars metadata ++ (dest ++ (ascii " " ++ rest)))
        = some false ↔
      ((∀ s ∈ blockStrings cid vars metadata, ¬ HasBlankLine s) ∧ ¬ HasBlankLine dest) ∧
        scan false rest = some false := by
  have hdest : scan false (dest ++ (ascii " " ++ rest)) = some false ↔
      ¬ HasBlankLine dest ∧ scan false rest = some false := by
    rw [← List.append_assoc]
    exact scan_string_iff
  rw [← originateParts_clean, buildOriginateVars]
  split
  · rename_i hnone
    rw [hnone, List.nil_append, hdest]
    simp
  · rename_i hparts
    rw [List.append_assoc, List.append_assoc, scan_word (by decide), scan_joinWith_iff hparts,
      hdest, and_assoc]

-- ============================================================================
-- The actions
-- ============================================================================

theorem scan_originate_iff (args : OriginateArgs) :
    scan false (CallAction.originate args).eslCmd = some false ↔
      StringsClean (CallAction.originate args).strings := by
  rw [StringsClean, CallAction.eslCmd, CallAction.strings]
  dsimp only
  by_cases happ : args.app ≠ []
  · have hassoc : ascii "originate " ++ buildOriginateVars args.cid args.vars args.metadata
        ++ args.dest ++ ascii " &" ++ trimPrefix args.app (ascii "&")
        = ascii "originate " ++ (buildOriginateVars args.cid args.vars args.metadata
          ++ (args.dest ++ (ascii " " ++ (ascii "&" ++ trimPrefix args.app (ascii "&"))))) := by
      simp [ascii]
    rw [if_pos happ, if_pos happ, hassoc, scan_word (by decide), scan_block_iff,
      scan_word_last (by decide), List.forall_mem_append, List.forall_mem_singleton]
    simp [and_assoc]
  · have hassoc : ∀ ext, ascii "originate "
        ++ buildOriginateVars args.cid args.vars args.metadata ++ args.dest ++ ascii " " ++ ext
        ++ ascii " XML default"
        = ascii "originate " ++ (buildOriginateVars args.cid args.vars args.metadata
          ++ (args.dest ++ (ascii " " ++ (ext ++ ascii " " ++ ascii "XML default")))) := by
      simp [ascii]
    have hext : ¬ HasBlankLine (if args.ext = [] then ascii "9999" else args.ext) ↔
        ¬ HasBlankLine args.ext := by
      split
      · rename_i hnil
        rw [hnil]
        exact iff_of_true (by rw [← scan_none_iff]; decide) not_hasBlankLine_nil
      · rfl
    rw [if_neg happ, if_neg happ, hassoc, scan_word (by decide), scan_block_iff, scan_string_iff,
      hext, List.forall_mem_append, List.forall_mem_cons, List.forall_mem_singleton]
    have hdefault : scan false (ascii "XML default") = some false := by decide
    simp [hdefault, and_assoc]

theorem scan_eslCmd_iff (action : CallAction) :
    scan false action.eslCmd = some false ↔ StringsClean action.strings := by
  cases action with
  | originate args => exact scan_originate_iff args
  | hangup uuid =>
      rw [CallAction.eslCmd, scan_word_last (by decide)]
      simp [StringsClean, CallAction.strings]
  | transfer uuid dest =>
      rw [CallAction.eslCmd, scan_two_iff (by decide)]
      simp [StringsClean, CallAction.strings]
  | hold uuid =>
      rw [CallAction.eslCmd, scan_word_last (by decide)]
      simp [StringsClean, CallAction.strings]
  | unhold uuid =>
      rw [CallAction.eslCmd, scan_word_last (by decide)]
      simp [StringsClean, CallAction.strings]
  | dtmf uuid digits =>
      rw [CallAction.eslCmd, scan_two_iff (by decide)]
      simp [StringsClean, CallAction.strings]

theorem controlEslCmd_eq_some {cmd : ControlCommand} {eslCmd : Bytes}
    (h : controlEslCmd cmd = some eslCmd) :
    ∃ action, decodeAction cmd = .ok (.call action) ∧ eslCmd = action.eslCmd := by
  rw [controlEslCmd] at h
  split at h
  · rename_i action hdecode
    exact ⟨action, hdecode, (Option.some.inj h).symm⟩
  · exact absurd h (by simp)

/-- The command of a session's uuid. -/
theorem oneCommand_uuid_iff {verb fsUUID eslCmd : Bytes} (hverb : scan false verb = some false)
    (h : (if fsUUID = [] then none else some (verb ++ fsUUID)) = some eslCmd) :
    OneCommand eslCmd ↔ EndsClean fsUUID := by
  split at h
  · exact absurd h (by simp)
  · rw [← Option.some.inj h, oneCommand_iff_scan, scan_word_last hverb]

/-- What is written for an action is its one command exactly when no string in
    the command can end it. -/
theorem oneCommand_iff_clean (req : EslRequest) {eslCmd : Bytes} (h : req.eslCmd = some eslCmd) :
    OneCommand eslCmd ↔ req.Clean := by
  cases req with
  | control cmd =>
      obtain ⟨action, hdecode, rfl⟩ := controlEslCmd_eq_some h
      rw [oneCommand_iff_scan, scan_eslCmd_iff]
      constructor
      · intro hclean action' hdecode'
        rw [hdecode] at hdecode'
        have haction : action = action' := by simpa using hdecode'
        rw [← haction]
        exact hclean
      · intro hclean
        exact hclean action hdecode
  | callInfo fsUUID => exact oneCommand_uuid_iff (by decide) h
  | agentHangup fsUUID => exact oneCommand_uuid_iff (by decide) h

/-- The hangup of an ordinary uuid. -/
theorem oneCommand_iff_clean_hangup :
    (EslRequest.agentHangup (ascii "f3a1")).eslCmd = some (ascii "uuid_kill f3a1") ∧
    (OneCommand (ascii "uuid_kill f3a1") ↔ (EslRequest.agentHangup (ascii "f3a1")).Clean) :=
  ⟨by decide, oneCommand_iff_clean (.agentHangup (ascii "f3a1")) (by decide)⟩

/-- A hangup whose uuid carries the hangup of another call. -/
def injectedHangup : ControlCommand where
  id := ascii "1"
  cmd := ascii "hangup"
  args := some (.obj [(ascii "uuid", .str (ascii "a\n\napi uuid_kill b"))])

theorem hangup_two_commands :
    ∃ eslCmd, (EslRequest.control injectedHangup).eslCmd = some eslCmd ∧
      splitCommands (apiBytes eslCmd) = ([ascii "api uuid_kill a", ascii "api uuid_kill b"], []) ∧
      ¬ OneCommand eslCmd := by
  have hsplit : splitCommands (apiBytes (ascii "uuid_kill a\n\napi uuid_kill b"))
      = ([ascii "api uuid_kill a", ascii "api uuid_kill b"], []) := by decide +kernel
  refine ⟨ascii "uuid_kill a\n\napi uuid_kill b", by decide +kernel, hsplit, ?_⟩
  rw [OneCommand, hsplit]
  simp

end FsBridge.Bridge
