/-
  FsBridge.Lib.JsonScan

  `json.Valid`: the scanner of Go's encoding/json, a state machine over the bytes
  of a text with a stack of the values it is inside of.

  The literals `true`, `false` and `null` are one family of states, each named by
  the letters that have still to come.
-/

import FsBridge.Lib.Ascii

namespace FsBridge.Lib.JsonScan

/-- An entry of `parseState`. -/
inductive ParseState where
  | objectKey
  | objectValue
  | arrayValue
deriving DecidableEq, Repr

inductive State where
  | beginValueOrEmpty
  | beginValue
  | beginStringOrEmpty
  | beginString
  | endValue
  | endTop
  | inString
  | inStringEsc
  /-- In `\u`, with this many digits to come. -/
  | inStringEscU (digits : Nat)
  | neg
  | one
  | zero
  | dot
  | dot0
  | exp
  | expSign
  | exp0
  | literal (rest : Bytes)
deriving DecidableEq, Repr

structure Scanner where
  step : State
  /-- Innermost value first. -/
  parseState : List ParseState
deriving DecidableEq, Repr

/-- `maxNestingDepth`. -/
def maxNestingDepth : Nat := 10000

def isSpace (c : UInt8) : Bool := c = 0x20 || c = 0x09 || c = 0x0D || c = 0x0A

def isDigit (c : UInt8) : Bool := 0x30 ≤ c && c ≤ 0x39

def isHexDigit (c : UInt8) : Bool :=
  isDigit c || (0x61 ≤ c && c ≤ 0x66) || (0x41 ≤ c && c ≤ 0x46)

namespace Scanner

def goTo (s : Scanner) (st : State) : Scanner := { s with step := st }

/-- `pushParseState`. -/
def push (s : Scanner) (st : State) (p : ParseState) : Option Scanner :=
  if s.parseState.length + 1 ≤ maxNestingDepth then some ⟨st, p :: s.parseState⟩ else none

/-- `popParseState`. -/
def pop (s : Scanner) : Scanner :=
  let rest := s.parseState.tail
  ⟨if rest = [] then .endTop else .endValue, rest⟩

/-- `stateEndValue`. -/
def endValue (s : Scanner) (c : UInt8) : Option Scanner :=
  match s.parseState with
  | [] => if isSpace c then some (s.goTo .endTop) else none
  | p :: rest =>
      if isSpace c then some (s.goTo .endValue)
      else
        match p with
        | .objectKey => if c = 0x3A then some ⟨.beginValue, .objectValue :: rest⟩ else none
        | .objectValue =>
            if c = 0x2C then some ⟨.beginString, .objectKey :: rest⟩
            else if c = 0x7D then some s.pop
            else none
        | .arrayValue =>
            if c = 0x2C then some (s.goTo .beginValue)
            else if c = 0x5D then some s.pop
            else none

/-- `stateBeginValue`. -/
def beginValue (s : Scanner) (c : UInt8) : Option Scanner :=
  if isSpace c then some s
  else if c = 0x7B then s.push .beginStringOrEmpty .objectKey
  else if c = 0x5B then s.push .beginValueOrEmpty .arrayValue
  else if c = 0x22 then some (s.goTo .inString)
  else if c = 0x2D then some (s.goTo .neg)
  else if c = 0x30 then some (s.goTo .zero)
  else if c = 0x74 then some (s.goTo (.literal (ascii "rue")))
  else if c = 0x66 then some (s.goTo (.literal (ascii "alse")))
  else if c = 0x6E then some (s.goTo (.literal (ascii "ull")))
  else if isDigit c then some (s.goTo .one)
  else none

/-- `stateBeginString`. -/
def beginString (s : Scanner) (c : UInt8) : Option Scanner :=
  if isSpace c then some s
  else if c = 0x22 then some (s.goTo .inString)
  else none

/-- `state0`: after `0`, and after the integer part of any other number. -/
def zero (s : Scanner) (c : UInt8) : Option Scanner :=
  if c = 0x2E then some (s.goTo .dot)
  else if c = 0x65 ∨ c = 0x45 then some (s.goTo .exp)
  else s.endValue c

/-- `stateESign`. -/
def expSign (s : Scanner) (c : UInt8) : Option Scanner :=
  if isDigit c then some (s.goTo .exp0) else none

/-- The scanner's step on the next byte; an error is `none`. -/
def next (s : Scanner) (c : UInt8) : Option Scanner :=
  match s.step with
  | .beginValueOrEmpty =>
      if isSpace c then some s
      else if c = 0x5D then s.endValue c
      else s.beginValue c
  | .beginValue => s.beginValue c
  | .beginStringOrEmpty =>
      if isSpace c then some s
      else if c = 0x7D then
        ({ s with parseState := .objectValue :: s.parseState.tail } : Scanner).endValue c
      else s.beginString c
  | .beginString => s.beginString c
  | .endValue => s.endValue c
  | .endTop => if isSpace c then some s else none
  | .inString =>
      if c = 0x22 then some (s.goTo .endValue)
      else if c = 0x5C then some (s.goTo .inStringEsc)
      else if c < 0x20 then none
      else some s
  | .inStringEsc =>
      if c ∈ ascii "bfnrt\\/\"" then some (s.goTo .inString)
      else if c = 0x75 then some (s.goTo (.inStringEscU 4))
      else none
  | .inStringEscU digits =>
      if isHexDigit c then
        some (s.goTo (if digits = 1 then .inString else .inStringEscU (digits - 1)))
      else none
  | .neg =>
      if c = 0x30 then some (s.goTo .zero)
      else if isDigit c then some (s.goTo .one)
      else none
  | .one => if isDigit c then some s else s.zero c
  | .zero => s.zero c
  | .dot => if isDigit c then some (s.goTo .dot0) else none
  | .dot0 =>
      if isDigit c then some s
      else if c = 0x65 ∨ c = 0x45 then some (s.goTo .exp)
      else s.endValue c
  | .exp => if c = 0x2B ∨ c = 0x2D then some (s.goTo .expSign) else s.expSign c
  | .expSign => s.expSign c
  | .exp0 => if isDigit c then some s else s.endValue c
  | .literal rest =>
      match rest with
      | [] => none
      | [l] => if c = l then some (s.goTo .endValue) else none
      | l :: rest => if c = l then some (s.goTo (.literal rest)) else none

/-- `eof`: the text may end here. -/
def eof (s : Scanner) : Bool :=
  s.step = .endTop || (s.next 0x20).any fun s' => s'.step = .endTop

end Scanner

/-- `json.Valid`. -/
def valid (data : Bytes) : Bool :=
  (data.foldlM Scanner.next ⟨.beginValue, []⟩).any Scanner.eof

example : valid (ascii "[1, -2.5e+3, \"x\\u00e9\", true, [\x7b \"a\" : null \x7d]] ") = true ∧
    valid (ascii "[01]") = false := by decide

end FsBridge.Lib.JsonScan
