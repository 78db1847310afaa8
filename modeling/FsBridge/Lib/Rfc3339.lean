/-
  FsBridge.Lib.Rfc3339

  Times in RFC 3339, as `time.Time` reads them from JSON: the instant is the number of
  nanoseconds since the beginning of 1970, wherever the clock stands.
-/

import FsBridge.Lib.Decimal

namespace FsBridge.Lib.Rfc3339

open Decimal (isDigit ofDigits)

/-- The number of `n` digits that the text begins with. -/
def digits (n : Nat) (s : Bytes) : Option (Int × Bytes) :=
  if (s.take n).length = n ∧ (s.take n).all isDigit then some (ofDigits (s.take n), s.drop n)
  else none

/-- A number of two digits behind a mark. -/
def field (mark : UInt8) (s : Bytes) : Option (Int × Bytes) :=
  if s.head? = some mark then digits 2 (s.drop 1) else none

def isLeap (year : Int) : Bool := year % 4 = 0 && (year % 100 ≠ 0 || year % 400 = 0)

def daysIn (year month : Int) : Int :=
  if month = 2 then (if isLeap year then 29 else 28)
  else if month = 4 ∨ month = 6 ∨ month = 9 ∨ month = 11 then 30
  else 31

/-- The days from the beginning of 1970, with years that begin in March. -/
def dayNumber (year month day : Int) : Int :=
  let y := if month ≤ 2 then year - 1 else year
  let m := if month ≤ 2 then month + 9 else month - 3
  365 * y + y / 4 - y / 100 + y / 400 + (153 * m + 2) / 5 + day - 1 - 719468

/-- The fraction of a second, if there is one: in nanoseconds, the digits behind them
    left out. -/
def fraction (s : Bytes) : Option (Int × Bytes) :=
  if s.head? = some 46 then
    let ds := (s.drop 1).takeWhile isDigit
    if ds = [] then none
    else some (ofDigits ((ds ++ List.replicate 9 48).take 9), (s.drop 1).dropWhile isDigit)
  else some (0, s)

/-- The minutes the clock is ahead. -/
def zone : Bytes → Option Int
  | [] => none
  | c :: s => do
      if c = 90 then
        if s = [] then pure 0 else none
      else
        let (hours, s) ← digits 2 s
        let (minutes, s) ← field 58 s
        if s ≠ [] ∨ 24 ≤ hours ∨ 60 ≤ minutes then none
        else if c = 43 then pure (60 * hours + minutes)
        else if c = 45 then pure (-(60 * hours + minutes))
        else none

/-- The instant of a text like `2006-01-02T15:04:05.999999999Z07:00`. -/
def instant (s : Bytes) : Option Int := do
  let (year, s) ← digits 4 s
  let (month, s) ← field 45 s
  let (day, s) ← field 45 s
  let (hour, s) ← field 84 s
  let (minute, s) ← field 58 s
  let (second, s) ← field 58 s
  let (nanosecond, s) ← fraction s
  let ahead ← zone s
  if 1 ≤ month ∧ month ≤ 12 ∧ 1 ≤ day ∧ day ≤ daysIn year month ∧ hour < 24 ∧ minute < 60 ∧
      second < 60 then
    pure ((((dayNumber year month day * 24 + hour) * 60 + minute - ahead) * 60 + second)
      * 1000000000 + nanosecond)
  else none

example : instant (ascii "1970-01-02T01:00:00.5+01:00") = some (86400 * 1000000000 + 500000000) := by
  decide

end FsBridge.Lib.Rfc3339
