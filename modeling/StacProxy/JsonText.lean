import Mathlib.Data.List.TakeWhile
import StacProxy.JsonValue
import StacProxy.Utf8Characters

/-!
# JSON texts

Reading and writing decoded values as `encoding/json` does: nesting is limited, the last member
of a name counts, and members are written in the order of their names. The digits of numbers
stay a parameter. Strings and numbers that were written read as the same ones.
-/

namespace JsonText

open JsonValue Utf8Characters

section Strings

/-- A character, or a code unit written as an escape. -/
inductive StringUnit where
  | char (c : Char)
  | code (n : Nat)

def hexDigit? (c : Char) : Option Nat :=
  if '0' ≤ c ∧ c ≤ '9' then some (c.toNat - 48)
  else if 'a' ≤ c ∧ c ≤ 'f' then some (c.toNat - 87)
  else if 'A' ≤ c ∧ c ≤ 'F' then some (c.toNat - 55)
  else none

def hex4? (a b c d : Char) : Option Nat := do
  let a ← hexDigit? a
  let b ← hexDigit? b
  let c ← hexDigit? c
  let d ← hexDigit? d
  some (((a * 16 + b) * 16 + c) * 16 + d)

def simpleEscape? : Char → Option Char
  | '"' => some '"'
  | '\\' => some '\\'
  | '/' => some '/'
  | 'b' => some '\x08'
  | 'f' => some '\x0c'
  | 'n' => some '\n'
  | 'r' => some '\r'
  | 't' => some '\t'
  | _ => none

/-- The units up to the closing quote, and the text after it. -/
def stringUnits : List Char → Option (List StringUnit × List Char)
  | [] => none
  | '"' :: rest => some ([], rest)
  | '\\' :: 'u' :: a :: b :: c :: d :: rest => do
    let n ← hex4? a b c d
    let (units, after) ← stringUnits rest
    some (.code n :: units, after)
  | '\\' :: escape :: rest => do
    let c ← simpleEscape? escape
    let (units, after) ← stringUnits rest
    some (.char c :: units, after)
  | c :: rest =>
    if c.toNat < 0x20 then none
    else (stringUnits rest).map fun (units, after) => (.char c :: units, after)
termination_by structural text => text

def isHighSurrogate (n : Nat) : Bool := 0xD800 ≤ n && n < 0xDC00

def isLowSurrogate (n : Nat) : Bool := 0xDC00 ≤ n && n < 0xE000

def unitChar (n : Nat) : Char :=
  if isHighSurrogate n || isLowSurrogate n then '\uFFFD' else Char.ofNat n

/-- Surrogates make a character in pairs only. -/
def joinUnits : List StringUnit → List Char
  | [] => []
  | .char c :: rest => c :: joinUnits rest
  | .code high :: .code low :: rest =>
    if isHighSurrogate high && isLowSurrogate low then
      Char.ofNat ((high - 0xD800) * 0x400 + (low - 0xDC00) + 0x10000) :: joinUnits rest
    else unitChar high :: joinUnits (.code low :: rest)
  | .code n :: rest => unitChar n :: joinUnits rest

def readString (text : List Char) : Option (String × List Char) :=
  (stringUnits text).map fun (units, after) => (String.ofList (joinUnits units), after)

def hexDigit (n : Nat) : Char := if n < 10 then Char.ofNat (48 + n) else Char.ofNat (87 + n)

/-- The characters that are written by their code. -/
def isCoded (c : Char) : Bool :=
  c.toNat < 0x20 || c ∈ ['<', '>', '&', '\u2028', '\u2029']

def escapeChar (c : Char) : List Char :=
  match c with
  | '"' => ['\\', '"']
  | '\\' => ['\\', '\\']
  | '\x08' => ['\\', 'b']
  | '\x0c' => ['\\', 'f']
  | '\n' => ['\\', 'n']
  | '\r' => ['\\', 'r']
  | '\t' => ['\\', 't']
  | c =>
    if isCoded c then
      ['\\', 'u', hexDigit (c.toNat / 4096), hexDigit (c.toNat / 256 % 16),
        hexDigit (c.toNat / 16 % 16), hexDigit (c.toNat % 16)]
    else [c]

def quote (s : String) : List Char := '"' :: (s.toList.flatMap escapeChar ++ ['"'])

end Strings

section Readers

/-- Reads a value from the front of a text and returns what is left. -/
abbrev Reader (α : Type) := List Char → Option (α × List Char)

def isSpace (c : Char) : Bool := c == ' ' || c == '\t' || c == '\n' || c == '\r'

def skipSpace (text : List Char) : List Char := text.dropWhile isSpace

variable {α : Type} (item : Reader α) (close : Char)

/-- Items between commas up to the closing character. -/
def separated : Nat → Reader (List α)
  | 0, _ => none
  | fuel + 1, text => do
    let (first, rest) ← item text
    match skipSpace rest with
    | c :: rest =>
      if c = close then some ([first], rest)
      else if c = ',' then do
        let (others, after) ← separated fuel rest
        some (first :: others, after)
      else none
    | [] => none

/-- No items, or some of them between commas, up to the closing character. -/
def enclosed : Reader (List α) := fun text =>
  match skipSpace text with
  | c :: rest => if c = close then some ([], rest) else separated item close text.length text
  | [] => none

end Readers

section Numbers

def isNumberChar (c : Char) : Bool :=
  c.isDigit || c == '+' || c == '-' || c == '.' || c == 'e' || c == 'E'

def isDigits (text : List Char) : Bool := text != [] && text.all Char.isDigit

def isExponent : List Char → Bool
  | [] => true
  | e :: rest => (e == 'e' || e == 'E') && match rest with
    | '+' :: digits => isDigits digits
    | '-' :: digits => isDigits digits
    | digits => isDigits digits

def isFraction : List Char → Bool
  | '.' :: first :: rest => first.isDigit && isExponent (rest.dropWhile Char.isDigit)
  | rest => isExponent rest

def isUnsigned : List Char → Bool
  | '0' :: rest => isFraction rest
  | first :: rest => first.isDigit && isFraction (rest.dropWhile Char.isDigit)
  | [] => false

def isNumber : List Char → Bool
  | '-' :: rest => isUnsigned rest
  | text => isUnsigned text

/-- The conversions between numbers and their digits: a number that was read is written such
that it reads as the same number. -/
structure Numbers where
  parse : List Char → Option ℚ
  format : ℚ → List Char
  readable : ∀ lexeme q, isNumber lexeme → parse lexeme = some q →
    isNumber (format q) ∧ parse (format q) = some q

end Numbers

section Values
variable (numbers : Numbers)

def readNumber : Reader Json := fun text =>
  let lexeme := text.takeWhile isNumberChar
  if isNumber lexeme then
    (numbers.parse lexeme).map fun q => (.num q, text.dropWhile isNumberChar)
  else none

def readScalar : Reader Json := fun text =>
  match text with
  | '"' :: rest => (readString rest).map fun (s, after) => (.str s, after)
  | 'n' :: 'u' :: 'l' :: 'l' :: after => some (.null, after)
  | 't' :: 'r' :: 'u' :: 'e' :: after => some (.bool true, after)
  | 'f' :: 'a' :: 'l' :: 's' :: 'e' :: after => some (.bool false, after)
  | text => readNumber numbers text

def readMember (value : Reader Json) : Reader (String × Json) := fun text =>
  match skipSpace text with
  | '"' :: rest => do
    let (key, rest) ← readString rest
    match skipSpace rest with
    | ':' :: rest => do
      let (v, after) ← value rest
      some ((key, v), after)
    | _ => none
  | _ => none

def insertMember (key : String) (value : Json) : Members → Members
  | [] => [(key, value)]
  | (k, v) :: members =>
    if key < k then (key, value) :: (k, v) :: members
    else (k, v) :: insertMember key value members

/-- The members in the order of their names, the last one of each name. -/
def canonical : Members → Members
  | [] => []
  | (key, value) :: members =>
    if Members.has members key then canonical members
    else insertMember key value (canonical members)

/-- The first argument is the number of levels that may be nested. -/
def readValue : Nat → Reader Json
  | 0, text => readScalar numbers (skipSpace text)
  | depth + 1, text => match skipSpace text with
    | '[' :: rest => (enclosed (readValue depth) ']' rest).map fun (elems, after) =>
        (.arr elems, after)
    | '\x7b' :: rest => (enclosed (readMember (readValue depth)) '\x7d' rest).map fun (members, after) =>
        (.obj (canonical members), after)
    | text => readScalar numbers text

def maxNestingDepth : Nat := 10000

def decode (text : List Char) : Option Json :=
  match readValue numbers maxNestingDepth text with
  | some (value, rest) => if skipSpace rest = [] then some value else none
  | none => none

def unmarshal (body : List UInt8) : Option Json := decode numbers (characters body)

mutual
def encode : Json → List Char
  | .null => ['n', 'u', 'l', 'l']
  | .bool true => ['t', 'r', 'u', 'e']
  | .bool false => ['f', 'a', 'l', 's', 'e']
  | .num q => numbers.format q
  | .str s => quote s
  | .arr elems => '[' :: (encodeElems elems ++ [']'])
  | .obj members => '\x7b' :: (encodeMembers members ++ ['\x7d'])

def encodeElems : List Json → List Char
  | [] => []
  | [value] => encode value
  | value :: next :: elems => encode value ++ ',' :: encodeElems (next :: elems)

def encodeMembers : List (String × Json) → List Char
  | [] => []
  | [member] => encodeMember member
  | member :: next :: members => encodeMember member ++ ',' :: encodeMembers (next :: members)

def encodeMember : String × Json → List Char
  | (key, value) => quote key ++ ':' :: encode value
end

def marshal (value : Json) : List UInt8 := utf8 (encode numbers value)

end Values

section StringRoundTrip

theorem hexDigit?_hexDigit {n : Nat} (small : n < 16) : hexDigit? (hexDigit n) = some n :=
  (by decide : ∀ n : Fin 16, hexDigit? (hexDigit n) = some n.val) ⟨n, small⟩

theorem hex4?_hexDigit {n : Nat} (small : n < 65536) :
    hex4? (hexDigit (n / 4096)) (hexDigit (n / 256 % 16)) (hexDigit (n / 16 % 16))
      (hexDigit (n % 16)) = some n := by
  have first := hexDigit?_hexDigit (n := n / 4096) (by omega)
  have second := hexDigit?_hexDigit (n := n / 256 % 16) (by omega)
  have third := hexDigit?_hexDigit (n := n / 16 % 16) (by omega)
  have fourth := hexDigit?_hexDigit (n := n % 16) (by omega)
  simp only [hex4?, first, second, third, fourth, Option.bind_eq_bind, Option.bind_some,
    Option.some.injEq]
  omega

theorem isCoded_small {c : Char} (coded : isCoded c) : c.toNat < 65536 := by
  simp only [isCoded, Bool.or_eq_true, decide_eq_true_eq, List.mem_cons, List.not_mem_nil,
    or_false] at coded
  rcases coded with low | rfl | rfl | rfl | rfl | rfl
  · omega
  all_goals decide

theorem isHighSurrogate_char (c : Char) : isHighSurrogate c.toNat = false := by
  rcases c.valid with below | above
  · have : c.toNat < 0xD800 := below
    simp [isHighSurrogate]
    omega
  · have : 0xDFFF < c.toNat := above.1
    simp [isHighSurrogate]
    omega

theorem unitChar_char (c : Char) : unitChar c.toNat = c := by
  have low : isLowSurrogate c.toNat = false := by
    rcases c.valid with below | above
    · have : c.toNat < 0xD800 := below
      simp [isLowSurrogate]
      omega
    · have : 0xDFFF < c.toNat := above.1
      simp [isLowSurrogate]
      omega
  simp [unitChar, isHighSurrogate_char, low]

theorem joinUnits_code (c : Char) (units : List StringUnit) :
    joinUnits (.code c.toNat :: units) = c :: joinUnits units := by
  have single := isHighSurrogate_char c
  match units with
  | [] => simp [joinUnits, unitChar_char]
  | .char _ :: _ => simp [joinUnits, unitChar_char]
  | .code _ :: _ => simp [joinUnits, unitChar_char, single]

theorem stringUnits_escape {escape c : Char} (simple : simpleEscape? escape = some c)
    (rest : List Char) : stringUnits ('\\' :: escape :: rest) =
      (stringUnits rest).map fun (units, after) => (.char c :: units, after) := by
  rw [stringUnits, simple]
  · cases stringUnits rest <;> rfl
  · rintro _ _ _ _ _ ⟨rfl, -⟩
    cases simple

theorem stringUnits_plain {c : Char} (quoted : c ≠ '"') (backslash : c ≠ '\\')
    (rest : List Char) : stringUnits (c :: rest) =
      if c.toNat < 0x20 then none
      else (stringUnits rest).map fun (units, after) => (.char c :: units, after) := by
  rw [stringUnits]
  · exact quoted
  · exact fun _ _ _ _ _ escape _ => backslash escape
  · exact fun _ _ escape _ => backslash escape

/-- What is written for a character reads as a unit of that character. -/
theorem stringUnits_escapeChar (c : Char) : ∃ unit,
    (∀ rest, stringUnits (escapeChar c ++ rest) =
      (stringUnits rest).map fun (units, after) => (unit :: units, after)) ∧
    ∀ units, joinUnits (unit :: units) = c :: joinUnits units := by
  unfold escapeChar
  split
  case h_8 _ quoted backslash _ _ _ _ _ =>
    split
    · rename_i coded
      refine ⟨.code c.toNat, fun rest => ?_, joinUnits_code c⟩
      simp only [List.cons_append, List.nil_append, stringUnits, hex4?_hexDigit (isCoded_small coded)]
      cases stringUnits rest <;> rfl
    · rename_i plain
      have high : ¬ c.toNat < 0x20 := by
        intro low
        exact plain (by simp [isCoded, low])
      refine ⟨.char c, fun rest => ?_, fun _ => rfl⟩
      rw [List.singleton_append, stringUnits_plain quoted backslash, if_neg high]
  all_goals exact ⟨.char _, stringUnits_escape rfl, fun _ => rfl⟩

theorem stringUnits_escaped (text rest : List Char) : ∃ units,
    stringUnits (text.flatMap escapeChar ++ '"' :: rest) = some (units, rest) ∧
      joinUnits units = text := by
  induction text with
  | nil => exact ⟨[], rfl, rfl⟩
  | cons c text ih =>
    obtain ⟨units, reads, joined⟩ := ih
    obtain ⟨unit, first, join⟩ := stringUnits_escapeChar c
    refine ⟨unit :: units, ?_, by rw [join, joined]⟩
    rw [List.flatMap_cons, List.append_assoc, first, reads]
    rfl

theorem readString_quote (s : String) (rest : List Char) :
    readString (s.toList.flatMap escapeChar ++ '"' :: rest) = some (s, rest) := by
  obtain ⟨units, reads, joined⟩ := stringUnits_escaped s.toList rest
  simp [readString, reads, joined]

end StringRoundTrip

section NumberRoundTrip

theorem isNumberChar_of_isDigit {c : Char} (digit : c.isDigit) : isNumberChar c := by
  simp [isNumberChar, digit]

theorem all_of_isDigits {text : List Char} (digits : isDigits text) :
    ∀ c ∈ text, isNumberChar c := by
  intro c member
  simp only [isDigits, Bool.and_eq_true, List.all_eq_true] at digits
  exact isNumberChar_of_isDigit (digits.2 c member)

/-- The digits that are skipped are number characters as well. -/
theorem all_of_dropWhile {text : List Char}
    (rest : ∀ c ∈ text.dropWhile Char.isDigit, isNumberChar c) : ∀ c ∈ text, isNumberChar c := by
  intro c member
  rw [← @List.takeWhile_append_dropWhile _ Char.isDigit text, List.mem_append] at member
  rcases member with skipped | later
  · exact isNumberChar_of_isDigit (List.mem_takeWhile_imp skipped)
  · exact rest c later

theorem all_of_isExponent {text : List Char} (exponent : isExponent text) :
    ∀ c ∈ text, isNumberChar c := by
  match text with
  | [] => simp
  | e :: rest =>
    simp only [isExponent, Bool.and_eq_true, Bool.or_eq_true, beq_iff_eq] at exponent
    have sign : isNumberChar e := by rcases exponent.1 with rfl | rfl <;> decide
    have digits := exponent.2
    refine List.forall_mem_cons.mpr ⟨sign, ?_⟩
    split at digits
    · exact List.forall_mem_cons.mpr ⟨by decide, all_of_isDigits digits⟩
    · exact List.forall_mem_cons.mpr ⟨by decide, all_of_isDigits digits⟩
    · exact all_of_isDigits digits

theorem all_of_isFraction {text : List Char} (fraction : isFraction text) :
    ∀ c ∈ text, isNumberChar c := by
  unfold isFraction at fraction
  split at fraction
  · rename_i first rest
    simp only [Bool.and_eq_true] at fraction
    have later := all_of_dropWhile (all_of_isExponent fraction.2)
    exact List.forall_mem_cons.mpr ⟨by decide,
      List.forall_mem_cons.mpr ⟨isNumberChar_of_isDigit fraction.1, later⟩⟩
  · exact all_of_isExponent fraction

theorem all_of_isUnsigned {text : List Char} (unsigned : isUnsigned text) :
    ∀ c ∈ text, isNumberChar c := by
  unfold isUnsigned at unsigned
  split at unsigned
  · exact List.forall_mem_cons.mpr ⟨by decide, all_of_isFraction unsigned⟩
  · simp only [Bool.and_eq_true] at unsigned
    exact List.forall_mem_cons.mpr ⟨isNumberChar_of_isDigit unsigned.1,
      all_of_dropWhile (all_of_isFraction unsigned.2)⟩
  · simp

theorem all_of_isNumber {text : List Char} (number : isNumber text) :
    ∀ c ∈ text, isNumberChar c := by
  unfold isNumber at number
  split at number
  · exact List.forall_mem_cons.mpr ⟨by decide, all_of_isUnsigned number⟩
  · exact all_of_isUnsigned number

/-- A number starts with its sign or with a digit. -/
theorem head_of_isNumber {text : List Char} (number : isNumber text) :
    ∃ c rest, text = c :: rest ∧ (c = '-' ∨ c.isDigit) := by
  unfold isNumber at number
  split at number
  · exact ⟨'-', _, rfl, .inl rfl⟩
  · unfold isUnsigned at number
    split at number
    · exact ⟨'0', _, rfl, .inr (by decide)⟩
    · simp only [Bool.and_eq_true] at number
      exact ⟨_, _, rfl, .inr number.1⟩
    · cases number

/-- Nothing that continues a number. -/
def Stops (rest : List Char) : Prop := ∀ c ∈ rest.head?, isNumberChar c = false

theorem readNumber_append (numbers : Numbers) {lexeme rest : List Char} {q : ℚ}
    (number : isNumber lexeme) (parsed : numbers.parse lexeme = some q) (stops : Stops rest) :
    readNumber numbers (lexeme ++ rest) = some (.num q, rest) := by
  have all := all_of_isNumber number
  have none_taken : rest.takeWhile isNumberChar = [] := by
    cases rest with
    | nil => rfl
    | cons c rest => exact List.takeWhile_cons_of_neg (by simp [stops c rfl])
  have none_dropped : rest.dropWhile isNumberChar = rest := by
    cases rest with
    | nil => rfl
    | cons c rest => exact List.dropWhile_cons_of_neg (by simp [stops c rfl])
  simp only [readNumber, List.takeWhile_append_of_pos all, List.dropWhile_append_of_pos all,
    none_taken, none_dropped, List.append_nil, number, if_true, parsed, Option.map_some]

end NumberRoundTrip

end JsonText
