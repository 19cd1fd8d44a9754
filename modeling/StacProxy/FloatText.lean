import StacProxy.Cql2Eval

/-!
# Texts that read as numbers

`strconv.ParseFloat` with 64 bits: a text is the name of an infinity or of NaN, or a decimal or
hexadecimal literal, which is rounded to the nearest binary64 number, to even if there are two.
A literal beyond the largest number is an error, and so is a text with anything left over.
-/

namespace FloatText

open Cql2Eval

section Rounding

/-- The nearest integer to a quotient, to even if there are two. -/
def roundEven (n d : Nat) : Nat :=
  let q := n / d
  let r := n % d
  if d < 2 * r ∨ 2 * r = d ∧ q % 2 = 1 then q + 1 else q

/-- The greatest exponent whose power of two is at most `n / d`. -/
def exponentOf (n d : Nat) : Int :=
  let guess : Int := (n.log2 : Int) - d.log2
  if d * 2 ^ guess.toNat ≤ n * 2 ^ (-guess).toNat then guess else guess - 1

/-- A positive quotient rounded to 53 bits, of which the last one counts at least `2 ^ -1074`. -/
def binary64 (n d : Nat) : Option ℚ :=
  let unit := max (exponentOf n d - 52) (-1074)
  let mantissa := roundEven (n * 2 ^ (-unit).toNat) (d * 2 ^ unit.toNat)
  let value : ℚ := mantissa * 2 ^ unit.toNat / 2 ^ (-unit).toNat
  if value < 2 ^ 1024 then some value else none

/-- `mantissa * base ^ exponent`, rounded. -/
def scaled (base mantissa : Nat) (exponent : Int) : Option ℚ :=
  if mantissa = 0 then some 0
  else binary64 (mantissa * base ^ exponent.toNat) (base ^ (-exponent).toNat)

end Rounding

section Literals

def hexValue (c : Char) : Option Nat :=
  if c.isDigit then some (c.toNat - '0'.toNat)
  else if 'a' ≤ c.toLower ∧ c.toLower ≤ 'f' then some (c.toLower.toNat - 'a'.toNat + 10)
  else none

def digitValue (hex : Bool) (c : Char) : Option Nat :=
  if hex ∨ c.isDigit then hexValue c else none

/-- What was seen last: nothing yet, a digit or the prefix of a base, an underscore, or anything
else. -/
inductive Saw where
  | start
  | digit
  | underscore
  | other
  deriving DecidableEq

/-- Underscores stand between digits, or after the prefix of a base. -/
def underscoresFit (hex : Bool) : Saw → List Char → Bool
  | saw, [] => saw ≠ .underscore
  | saw, c :: rest =>
    if (digitValue hex c).isSome then underscoresFit hex .digit rest
    else if c = '_' then saw = .digit && underscoresFit hex .underscore rest
    else saw ≠ .underscore && underscoresFit hex .other rest

/-- Digits grow the exponent only while it is below 10000. -/
def exponentValue (digits : List Char) : Nat :=
  digits.foldl (fun e c => if c = '_' ∨ 10000 ≤ e then e else e * 10 + (c.toNat - '0'.toNat)) 0

/-- The exponent after its letter. -/
def exponent (text : List Char) : Option Int :=
  let (negative, digits) := match text with
    | '+' :: rest => (false, rest)
    | '-' :: rest => (true, rest)
    | rest => (false, rest)
  if (digits.head?.any Char.isDigit) && digits.all (fun c => c.isDigit || c = '_') then
    some (if negative then -exponentValue digits else exponentValue digits)
  else none

/-- A literal without its sign and the prefix of its base. -/
def literal (hex : Bool) (text : List Char) : Option ℚ := do
  let inMantissa (c : Char) : Bool := (digitValue hex c).isSome || c = '_' || c = '.'
  let mantissa := text.takeWhile inMantissa
  let digits := mantissa.filterMap (digitValue hex)
  guard (digits ≠ [] ∧ mantissa.count '.' ≤ 1)
  let e ← match text.dropWhile inMantissa with
    | [] => if hex then none else some 0
    | c :: rest => if c.toLower = (if hex then 'p' else 'e') then exponent rest else none
  let places := ((mantissa.dropWhile (· ≠ '.')).filterMap (digitValue hex)).length
  let base := if hex then 16 else 10
  let value := digits.foldl (fun value digit => value * base + digit) 0
  if hex then scaled 2 value (e - 4 * places) else scaled 10 value (e - places)

def unsignedLiteral (text : List Char) : Option ℚ :=
  match text with
  | '0' :: x :: rest =>
    if x.toLower = 'x' ∧ rest ≠ [] then do
      guard ('_' ∈ rest → underscoresFit true .digit rest)
      literal true rest
    else do
      guard ('_' ∈ text → underscoresFit false .start text)
      literal false text
  | _ => do
    guard ('_' ∈ text → underscoresFit false .start text)
    literal false text

end Literals

def lowered (text : List Char) : String := String.ofList (text.map Char.toLower)

def parseFloat (text : String) : Option Number :=
  let (negative, unsigned) := match text.toList with
    | '+' :: rest => (false, rest)
    | '-' :: rest => (true, rest)
    | rest => (false, rest)
  if lowered unsigned = "inf" ∨ lowered unsigned = "infinity" then some (.infinite negative)
  else if lowered text.toList = "nan" then some .nan
  else (unsignedLiteral unsigned).map fun value => .finite (if negative then -value else value)

example : [parseFloat "1", parseFloat "1.0", parseFloat "-0x1p-2", parseFloat "1_0e1",
    parseFloat "1__0", parseFloat "1e400", parseFloat "iNf", parseFloat "NaN", parseFloat "+nan",
    parseFloat "9007199254740993", parseFloat "landsat"] =
  [some (.finite 1), some (.finite 1), some (.finite (-1 / 4)), some (.finite 100), none, none,
    some (.infinite false), some .nan, none, some (.finite 9007199254740992), none] := by
  decide +kernel

end FloatText
