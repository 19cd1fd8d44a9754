import Mathlib.Algebra.Group.Nat.Defs
import Mathlib.Data.List.Basic

/-!
# RFC 3339 timestamps as the Go `time` package reads and writes them

`parseTimestamp` follows `time.Parse` with the layout `time.RFC3339`: the hour
may have one digit, a fraction may follow the seconds after a period or a comma,
and offsets up to 24:60 are accepted. The layout `time.RFC3339Nano` accepts the
same strings with the same values. `parseDate` follows the layout `2006-01-02`.
-/

namespace Rfc3339

/-- A parsed time: the civil fields in its own zone and the offset of that zone. -/
structure Timestamp where
  year : Nat
  month : Nat
  day : Nat
  hour : Nat
  minute : Nat
  second : Nat
  nanosecond : Nat
  offsetMinutes : Int
  deriving DecidableEq, Repr

def isLeap (year : Nat) : Bool :=
  year % 4 == 0 && (year % 100 != 0 || year % 400 == 0)

def daysIn (month year : Nat) : Nat :=
  if month == 2 then (if isLeap year then 29 else 28)
  else if month == 4 || month == 6 || month == 9 || month == 11 then 30
  else 31

def digit? (c : Char) : Option Nat :=
  if '0' ≤ c ∧ c ≤ '9' then some (c.toNat - '0'.toNat) else none

/-- `getnum` with `fixed` set: exactly two digits. -/
def twoDigits? : List Char → Option (Nat × List Char)
  | a :: b :: rest => do
    let high ← digit? a
    let low ← digit? b
    pure (10 * high + low, rest)
  | _ => none

/-- `getnum` without `fixed`: two digits, or one when no second digit follows. -/
def oneOrTwoDigits? (value : List Char) : Option (Nat × List Char) :=
  match twoDigits? value with
  | some result => some result
  | none => match value with
    | a :: rest => (digit? a).map (·, rest)
    | [] => none

def fourDigits? (value : List Char) : Option (Nat × List Char) := do
  let (high, rest) ← twoDigits? value
  let (low, rest) ← twoDigits? rest
  pure (100 * high + low, rest)

def literal? (expected : Char) : List Char → Option (List Char)
  | c :: rest => if c = expected then some rest else none
  | [] => none

/-- The digits of a fraction; only the first nine count. -/
def takeDigits : List Char → List Nat × List Char
  | [] => ([], [])
  | c :: rest => match digit? c with
    | none => ([], c :: rest)
    | some d => let (ds, tail) := takeDigits rest; (d :: ds, tail)

def nanoseconds (digits : List Nat) : Nat :=
  (((digits ++ List.replicate 9 0).take 9).foldl (fun acc d => 10 * acc + d) 0)

/-- A fraction is read only when a digit follows the separator. -/
def fraction : List Char → Nat × List Char
  | [] => (0, [])
  | c :: rest =>
    if c = '.' ∨ c = ',' then
      match takeDigits rest with
      | ([], _) => (0, c :: rest)
      | (ds, tail) => (nanoseconds ds, tail)
    else (0, c :: rest)

def zone? : List Char → Option (Int × List Char)
  | 'Z' :: rest => some (0, rest)
  | sign :: rest => do
    let (hours, rest) ← twoDigits? rest
    let rest ← literal? ':' rest
    let (minutes, rest) ← twoDigits? rest
    if 24 < hours ∨ 60 < minutes then none
    else if sign = '+' then some ((60 * hours + minutes : Nat), rest)
    else if sign = '-' then some (-((60 * hours + minutes : Nat) : Int), rest)
    else none
  | [] => none

def date? (value : List Char) : Option ((Nat × Nat × Nat) × List Char) := do
  let (year, rest) ← fourDigits? value
  let rest ← literal? '-' rest
  let (month, rest) ← twoDigits? rest
  let rest ← literal? '-' rest
  let (day, rest) ← twoDigits? rest
  if month = 0 ∨ 12 < month ∨ day = 0 ∨ daysIn month year < day then none
  else some ((year, month, day), rest)

def parseTimestamp (text : String) : Option Timestamp := do
  let ((year, month, day), rest) ← date? text.toList
  let rest ← literal? 'T' rest
  let (hour, rest) ← oneOrTwoDigits? rest
  let rest ← literal? ':' rest
  let (minute, rest) ← twoDigits? rest
  let rest ← literal? ':' rest
  let (second, rest) ← twoDigits? rest
  if 24 ≤ hour ∨ 60 ≤ minute ∨ 60 ≤ second then none
  else
    let (nanosecond, rest) := fraction rest
    let (offsetMinutes, rest) ← zone? rest
    if rest = [] then
      some ⟨year, month, day, hour, minute, second, nanosecond, offsetMinutes⟩
    else none

/-- A bare calendar date is midnight UTC. -/
def parseDate (text : String) : Option Timestamp := do
  let ((year, month, day), rest) ← date? text.toList
  if rest = [] then some ⟨year, month, day, 0, 0, 0, 0, 0⟩ else none

def digitChar (n : Nat) : Char := Char.ofNat ('0'.toNat + n % 10)

def twoDigitText (n : Nat) : List Char := [digitChar (n / 10), digitChar n]

def zoneText (offsetMinutes : Int) : List Char :=
  if offsetMinutes = 0 then ['Z']
  else
    let size := offsetMinutes.natAbs
    (if offsetMinutes < 0 then '-' else '+') ::
      (twoDigitText (size / 60) ++ ':' :: twoDigitText (size % 60))

def civilText (t : Timestamp) : List Char :=
  twoDigitText (t.year / 100) ++ twoDigitText t.year ++ '-' :: twoDigitText t.month ++
    '-' :: twoDigitText t.day ++ 'T' :: twoDigitText t.hour ++ ':' :: twoDigitText t.minute ++
    ':' :: twoDigitText t.second

/-- `t.Format(time.RFC3339)`: the fraction of the second is dropped. -/
def formatRfc3339 (t : Timestamp) : String :=
  String.ofList (civilText t ++ zoneText t.offsetMinutes)

/-- The nine digits of a fraction without trailing zeros, as `RFC3339Nano` prints them. -/
def fractionText (nanosecond : Nat) : List Char :=
  let digits := (List.range 9).map (fun i => digitChar (nanosecond / 10 ^ (8 - i)))
  match (digits.reverse.dropWhile (· = '0')).reverse with
  | [] => []
  | ds => '.' :: ds

/-- `t.Format(time.RFC3339Nano)`, which is also how `time.Time` marshals to JSON. -/
def formatRfc3339Nano (t : Timestamp) : String :=
  String.ofList (civilText t ++ fractionText t.nanosecond ++ zoneText t.offsetMinutes)

example : (parseTimestamp "2024-02-29T7:05:09,25+02:00").map formatRfc3339Nano =
    some "2024-02-29T07:05:09.25+02:00" := by decide

example : parseTimestamp "2023-02-29T00:00:00Z" = none := by decide

end Rfc3339
