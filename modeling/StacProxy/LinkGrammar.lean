import StacProxy.OutboundRequest
import StacProxy.PageAdapter

/-!
# The grammar of Link headers

Link header values as the grammar generates them, without escapes in quoted texts, and what
`parseNextFromLinkHeader` reads of them. It splits a value at commas outside angle brackets and
a link at semicolons, and takes the first part that starts with `rel` and has an equals sign for
the relation; quotes do not count. Values come out right if every parameter is harmless to
that reading.
-/

namespace LinkGrammar

open PageAdapter OutboundRequest

section Grammar

abbrev Blank := {text : List Char // ∀ c ∈ text, c = ' ' ∨ c = '\t'}

abbrev Token := {text : List Char // text ≠ [] ∧ ∀ c ∈ text, validFieldChar c = true}

/-- What stands between two quotes. -/
abbrev Quoted := {text : List Char // '"' ∉ text ∧ '\\' ∉ text}

/-- A URI reference has no angle brackets. -/
abbrev Target := {text : List Char // '<' ∉ text ∧ '>' ∉ text}

inductive Value where
  | token (text : Token)
  | quoted (text : Quoted)

def Value.text : Value → List Char
  | token text => text.1
  | quoted text => '"' :: (text.1 ++ ['"'])

def Value.meaning : Value → List Char
  | token text => text.1
  | quoted text => text.1

/-- A parameter with the semicolon before it. There may be blanks around the semicolon, the
name and the equals sign. -/
structure Param where
  before : Blank
  after : Blank
  name : Token
  gap : Blank
  value : Option (Blank × Value)

def Param.body (q : Param) : List Char :=
  q.after.1 ++ (q.name.1 ++ (q.gap.1 ++
    q.value.elim [] fun value => '=' :: (value.1.1 ++ value.2.text)))

def Param.text (q : Param) : List Char := q.before.1 ++ ';' :: q.body

def Param.meaning (q : Param) : List Char := q.value.elim [] fun value => value.2.meaning

structure Link where
  target : Target
  params : List Param

def Link.text (l : Link) : List Char :=
  '<' :: (l.target.1 ++ '>' :: l.params.flatMap Param.text)

/-- An element of a list may be empty. -/
structure Element where
  before : Blank
  link : Option Link
  after : Blank

def Element.text (e : Element) : List Char := e.before.1 ++ (e.link.elim [] Link.text ++ e.after.1)

/-- The text of a header value: its elements with commas between them. -/
def valueText : List Element → List Char
  | [] => []
  | [e] => e.text
  | e :: e' :: rest => e.text ++ ',' :: valueText (e' :: rest)

def links (values : List (List Element)) : List Link := values.flatten.filterMap Element.link

end Grammar

section Meaning
variable (lib : Library)

/-- Parameter names are in any letter case. -/
def Param.isRel (q : Param) : Bool := q.name.1.map Char.toLower = "rel".toList

/-- The relations of a link: the value of the first `rel` parameter. -/
def Link.relation (l : Link) : List Char := ((l.params.find? Param.isRel).map Param.meaning).getD []

def Link.isNext (l : Link) : Bool := containsRel lib l.relation "next"

def nextTarget (values : List (List Element)) : String :=
  (((links values).find? (Link.isNext lib)).map fun l => String.ofList l.target.1).getD ""

def ReadRight (values : List (List Element)) : Prop :=
  parseNextFromLinkHeader lib (values.map fun elements => String.ofList (valueText elements)) =
    nextTarget lib values

end Meaning

section Harmless
variable (lib : Library)

/-- The depth of open angle brackets after a text, if it has no comma outside of them. -/
def depthAfter : Nat → List Char → Option Nat
  | depth, [] => some depth
  | depth, c :: rest =>
    if c = '<' then depthAfter (depth + 1) rest
    else if c = '>' then depthAfter (depth - 1) rest
    else if c = ',' ∧ depth = 0 then none
    else depthAfter depth rest

/-- What is after the first equals sign. -/
def afterEquals (part : List Char) : List Char := (part.dropWhile (· ≠ '=')).drop 1

/-- The value of a part between semicolons that looks like a `rel` parameter. -/
def lookalike (part : List Char) : Option (List Char) :=
  if "rel".toList.isPrefixOf (part.dropWhile isSpace) ∧ '=' ∈ part then some (afterEquals part)
  else none

/-- Whether the first part of the parameter that looks like `rel` names `next`. The first part
ends at a semicolon even inside of a quoted text. -/
def Param.found (q : Param) : Option Bool :=
  if "rel".toList.isPrefixOf q.name.1 ∧ q.value.isSome then
    some (containsRel lib (q.meaning.takeWhile (· ≠ ';')) "next")
  else ((q.meaning.splitOn ';').tail.findSome? lookalike).map (containsRel lib · "next")

/-- The value opens no bracket and has no comma outside of brackets, and only a `rel` parameter
looks like one, with the same answer for `next`. -/
structure Param.Harmless (q : Param) : Prop where
  settled : depthAfter 0 q.meaning = some 0
  found_eq : q.found lib = if q.isRel then some (containsRel lib q.meaning "next") else none

end Harmless

section Scanning
variable {depth depth' : Nat} {buf text rest : List Char}

theorem depthAfter_append (text rest : List Char) :
    depthAfter depth (text ++ rest) = (depthAfter depth text).bind (depthAfter · rest) := by
  induction text generalizing depth with
  | nil => rfl
  | cons c text ih =>
    simp only [List.cons_append, depthAfter]
    split_ifs <;> simp [ih]

/-- A text without commas to split at goes to the buffer. -/
theorem splitLinkValues_append (scanned : depthAfter depth text = some depth') :
    splitLinkValues depth buf (text ++ rest) = splitLinkValues depth' (buf ++ text) rest := by
  induction text generalizing depth buf with
  | nil =>
    cases scanned
    simp
  | cons c text ih =>
    simp only [depthAfter] at scanned
    simp only [List.cons_append, splitLinkValues]
    split_ifs at scanned ⊢ <;> rw [ih scanned, List.append_assoc, List.singleton_append]

theorem depthAfter_of_plain (plain : ∀ c ∈ text, c ≠ '<' ∧ c ≠ '>' ∧ c ≠ ',') :
    depthAfter depth text = some depth := by
  induction text with
  | nil => rfl
  | cons c text ih =>
    obtain ⟨left, right, comma⟩ := plain c (by simp)
    rw [depthAfter, if_neg left, if_neg right, if_neg (fun split => comma split.1)]
    exact ih fun c member => plain c (by simp [member])

theorem depthAfter_succ (left : '<' ∉ text) (right : '>' ∉ text) :
    depthAfter (depth + 1) text = some (depth + 1) := by
  induction text with
  | nil => rfl
  | cons c text ih =>
    rw [List.mem_cons, not_or] at left right
    rw [depthAfter, if_neg (Ne.symm left.1), if_neg (Ne.symm right.1),
      if_neg (fun split => Nat.succ_ne_zero _ split.2)]
    exact ih left.2 right.2

theorem Blank.plain (blank : Blank) : ∀ c ∈ blank.1, c ≠ '<' ∧ c ≠ '>' ∧ c ≠ ',' := by
  intro c member
  rcases blank.2 c member with rfl | rfl <;> decide

theorem Token.plain (token : Token) : ∀ c ∈ token.1, c ≠ '<' ∧ c ≠ '>' ∧ c ≠ ',' := by
  intro c member
  have valid := token.2.2 c member
  refine ⟨?_, ?_, ?_⟩ <;> (rintro rfl; revert valid; decide)

theorem depthAfter_param (q : Param) : depthAfter 0 q.text = depthAfter 0 q.meaning := by
  obtain ⟨before, after, name, gap, value⟩ := q
  have blanks : ∀ blank : Blank, depthAfter 0 blank.1 = some 0 := fun blank =>
    depthAfter_of_plain blank.plain
  have semicolon : ∀ rest, depthAfter 0 (';' :: rest) = depthAfter 0 rest := fun _ => rfl
  have equals : ∀ rest, depthAfter 0 ('=' :: rest) = depthAfter 0 rest := fun _ => rfl
  have named : depthAfter 0 name.1 = some 0 := depthAfter_of_plain name.plain
  simp only [Param.text, Param.body, depthAfter_append, blanks, named, semicolon, Option.bind_some]
  match value with
  | none => rfl
  | some (space, .token text) =>
    simp [Param.meaning, Value.meaning, Value.text, equals, depthAfter_append, blanks]
  | some (space, .quoted text) =>
    have quote : ∀ depth, depthAfter depth ['"'] = some depth := fun depth => by simp [depthAfter]
    have opened : ∀ rest, depthAfter 0 ('"' :: rest) = depthAfter 0 rest := fun _ => rfl
    simp [Param.meaning, Value.meaning, Value.text, equals, opened, quote, depthAfter_append, blanks]

theorem depthAfter_link {l : Link}
    (settled : ∀ q ∈ l.params, depthAfter 0 q.meaning = some 0) :
    depthAfter 0 l.text = some 0 := by
  have params : depthAfter 0 (l.params.flatMap Param.text) = some 0 := by
    generalize l.params = params at settled ⊢
    induction params with
    | nil => rfl
    | cons q params ih =>
      rw [List.flatMap_cons, depthAfter_append, depthAfter_param, settled q (by simp),
        Option.bind_some]
      exact ih fun q member => settled q (by simp [member])
  have opened : ∀ rest, depthAfter 0 ('<' :: rest) = depthAfter 1 rest := fun _ => rfl
  have closed : ∀ rest, depthAfter 1 ('>' :: rest) = depthAfter 0 rest := fun _ => rfl
  rw [Link.text, opened, depthAfter_append, depthAfter_succ l.target.2.1 l.target.2.2,
    Option.bind_some, closed, params]

/-- All parameters of an element are settled. -/
def Element.Settled (e : Element) : Prop :=
  ∀ l, e.link = some l → ∀ q ∈ l.params, depthAfter 0 q.meaning = some 0

theorem depthAfter_element {e : Element} (settled : e.Settled) : depthAfter 0 e.text = some 0 := by
  have linked : depthAfter 0 (e.link.elim [] Link.text) = some 0 := by
    cases link : e.link with
    | none => rfl
    | some l => exact depthAfter_link (settled l link)
  rw [Element.text, depthAfter_append, depthAfter_of_plain e.before.plain, Option.bind_some,
    depthAfter_append, linked, Option.bind_some, depthAfter_of_plain e.after.plain]

/-- The text of a first element, and what follows it. -/
theorem exists_valueText_cons (e : Element) (elements : List Element) :
    ∃ tail, valueText (e :: elements) = e.text ++ tail ∧ tail.tail = valueText elements ∧
      ∀ c ∈ tail.head?, c = ',' := by
  cases elements with
  | nil => exact ⟨[], by simp [valueText], rfl, by simp⟩
  | cons e' elements => exact ⟨',' :: valueText (e' :: elements), rfl, rfl, by simp⟩

theorem splitLinkValues_comma {tail : List Char} (starts : ∀ c ∈ tail.head?, c = ',')
    (filled : buf ≠ []) : splitLinkValues 0 buf tail =
      trimBoth isSpace buf :: splitLinkValues 0 [] tail.tail := by
  cases tail with
  | nil => rw [splitLinkValues, if_neg filled]; rfl
  | cons c rest =>
    obtain rfl := starts c (by simp)
    rfl

/-- The first piece of a value, whatever brackets are open, is cut at some place behind the buffer. -/
theorem exists_splitLinkValues (text : List Char) (filled : buf ≠ []) :
    ∃ more pieces, splitLinkValues depth buf text = trimBoth isSpace (buf ++ more) :: pieces := by
  induction text generalizing depth buf with
  | nil => exact ⟨[], [], by rw [splitLinkValues, if_neg filled, List.append_nil]⟩
  | cons c text ih =>
    have onward : ∀ depth', ∃ more pieces, splitLinkValues depth' (buf ++ [c]) text =
        trimBoth isSpace (buf ++ more) :: pieces := by
      intro depth'
      obtain ⟨more, pieces, split⟩ := @ih depth' (buf ++ [c]) (by simp)
      exact ⟨c :: more, pieces, by rw [split, List.append_cons buf c more]⟩
    rw [splitLinkValues]
    split_ifs
    · exact onward _
    · exact onward _
    · exact ⟨[], _, by rw [List.append_nil]⟩
    · exact onward _

end Scanning

end LinkGrammar
