import Mathlib.Data.List.Basic
import Mathlib.Data.List.Infix

/-!
# References to the environment in a configuration

A scalar of the configuration may refer to variables of the environment, with a default or
without. The scanner copies what is no reference, reads a doubled dollar sign as one, and leaves a
dollar sign before anything but a brace alone. Texts are bytes.
-/

namespace EnvExpansion

abbrev Bytes := List UInt8

def dollar : UInt8 := 36
def openBrace : UInt8 := 123
def closeBrace : UInt8 := 125

/-- What stands between a name and its default. -/
def defaultMark : Bytes := [58, 45]

/-- The text built so far and the names that were not defined. -/
structure Expansion where
  text : Bytes
  missing : List Bytes
deriving DecidableEq

def Expansion.before (first rest : Expansion) : Expansion :=
  ⟨first.text ++ rest.text, first.missing ++ rest.missing⟩

def literal (text : Bytes) : Expansion := ⟨text, []⟩

/-- The place at which a text is first found in another one, as `strings.Index` gives it. -/
def index (sub : Bytes) : Bytes → Option Nat
  | [] => if sub = [] then some 0 else none
  | c :: rest => if sub.isPrefixOf (c :: rest) then some 0 else (index sub rest).map (· + 1)

section Source
variable (lookup : Bytes → Option Bytes)

/-- The text between the braces. -/
def resolve (expr : Bytes) : Expansion :=
  match index defaultMark expr with
  | some idx =>
    let name := expr.take idx
    let default := expr.drop (idx + 2)
    match lookup name with
    | some value => if value ≠ [] then literal value else literal default
    | none => literal default
  | none =>
    match lookup expr with
    | some value => literal value
    | none => ⟨[], [expr]⟩

/-- The loop from one place on; the first `skip` bytes have been read already. -/
def expandFrom : Nat → Bytes → Expansion
  | _, [] => literal []
  | skip + 1, _ :: rest => expandFrom skip rest
  | 0, c :: rest =>
    if c ≠ dollar then (literal [c]).before (expandFrom 0 rest)
    else if rest.head? = some dollar then (literal [dollar]).before (expandFrom 1 rest)
    else if rest.head? = some openBrace then
      match rest.tail.idxOf? closeBrace with
      -- Without a closing brace the dollar sign is literal.
      | none => (literal [dollar]).before (expandFrom 0 rest)
      | some stop =>
        (resolve lookup (rest.tail.take stop)).before (expandFrom (1 + stop + 1) rest)
    else (literal [dollar]).before (expandFrom 0 rest)

def expandEnvStrict (s : Bytes) : Expansion := expandFrom lookup 0 s

end Source

/-! ## One token at a time -/

section Scanner
variable {lookup : Bytes → Option Bytes}

theorem openBrace_ne_dollar : openBrace ≠ dollar := by decide

theorem Expansion.before_assoc (first second third : Expansion) :
    (first.before second).before third = first.before (second.before third) := by
  simp [Expansion.before]

theorem expandFrom_skip (skip : Nat) (s : Bytes) :
    expandFrom lookup skip s = expandFrom lookup 0 (s.drop skip) := by
  induction s generalizing skip with
  | nil => cases skip <;> rfl
  | cons c rest ih =>
    cases skip with
    | zero => rfl
    | succ skip => exact ih skip

theorem expandFrom_text {text : Bytes} (plain : dollar ∉ text) (rest : Bytes) :
    expandFrom lookup 0 (text ++ rest) = (literal text).before (expandFrom lookup 0 rest) := by
  induction text with
  | nil => rfl
  | cons c text ih =>
    rw [List.mem_cons, not_or] at plain
    have other : c ≠ dollar := fun same => plain.1 same.symm
    rw [List.cons_append, expandFrom, if_pos other, ih plain.2, ← Expansion.before_assoc]
    rfl

theorem expandFrom_dollar (rest : Bytes) :
    expandFrom lookup 0 (dollar :: dollar :: rest) =
      (literal [dollar]).before (expandFrom lookup 0 rest) := by
  have doubled : (dollar :: rest).head? = some dollar := rfl
  rw [expandFrom, if_neg (not_not.mpr rfl), if_pos doubled, expandFrom_skip]
  rfl

theorem idxOf_closeBrace {expr : Bytes} (closed : closeBrace ∉ expr) (rest : Bytes) :
    (expr ++ closeBrace :: rest).idxOf? closeBrace = some expr.length := by
  have absent : expr.findIdx? (· == closeBrace) = none := List.idxOf?_eq_none_iff.mpr closed
  rw [List.idxOf?, List.findIdx?_append, absent, List.findIdx?_cons]
  simp

theorem expandFrom_reference {expr : Bytes} (closed : closeBrace ∉ expr) (rest : Bytes) :
    expandFrom lookup 0 (dollar :: openBrace :: (expr ++ closeBrace :: rest)) =
      (resolve lookup expr).before (expandFrom lookup 0 rest) := by
  have single : (openBrace :: (expr ++ closeBrace :: rest)).head? ≠ some dollar := by
    simp [openBrace_ne_dollar]
  have braced : (openBrace :: (expr ++ closeBrace :: rest)).head? = some openBrace := rfl
  have found := idxOf_closeBrace closed rest
  rw [expandFrom, if_neg (not_not.mpr rfl), if_neg single, if_pos braced]
  simp only [List.tail_cons, found, List.take_left]
  have read : (openBrace :: (expr ++ closeBrace :: rest)).drop (1 + expr.length + 1) = rest := by
    rw [Nat.add_comm 1, List.drop_succ_cons, List.drop_append]
    simp
  rw [expandFrom_skip, read]

end Scanner

/-! ## Names and defaults -/

section Marks

theorem index_eq_none {name : Bytes} (unmarked : ¬ defaultMark <:+: name) :
    index defaultMark name = none := by
  induction name with
  | nil => rfl
  | cons c name ih =>
    rw [List.infix_cons_iff, not_or] at unmarked
    have elsewhere : defaultMark.isPrefixOf (c :: name) = false := by
      rw [Bool.eq_false_iff]
      exact fun front => unmarked.1 (List.isPrefixOf_iff_prefix.mp front)
    rw [index, elsewhere, ih unmarked.2]
    rfl

/-- The mark is first found behind the name: it has two different bytes, so it cannot begin with
the last byte of the name. -/
theorem index_append {name : Bytes} (unmarked : ¬ defaultMark <:+: name) (default : Bytes) :
    index defaultMark (name ++ (defaultMark ++ default)) = some name.length := by
  induction name with
  | nil => rfl
  | cons c name ih =>
    rw [List.infix_cons_iff, not_or] at unmarked
    have elsewhere : defaultMark.isPrefixOf (c :: (name ++ (defaultMark ++ default))) = false := by
      cases name with
      | nil => simp [defaultMark, List.isPrefixOf]
      | cons d name =>
        have apart := unmarked.1
        simpa [defaultMark, List.isPrefixOf, List.cons_prefix_cons] using apart
    rw [List.cons_append, index, elsewhere, ih unmarked.2]
    rfl

end Marks

/-! ## Tokens -/

abbrev Plain := {text : Bytes // dollar ∉ text}
abbrev Name := {name : Bytes // closeBrace ∉ name ∧ ¬ defaultMark <:+: name}
abbrev Default := {text : Bytes // closeBrace ∉ text}

/-- What a configuration is written of. -/
inductive Token where
  | text (plain : Plain)
  | escape
  | reference (name : Name)
  | withDefault (name : Name) (default : Default)

def Token.spelling : Token → Bytes
  | .text plain => plain.1
  | .escape => [dollar, dollar]
  | .reference name => dollar :: openBrace :: (name.1 ++ [closeBrace])
  | .withDefault name default =>
    dollar :: openBrace :: (name.1 ++ (defaultMark ++ default.1) ++ [closeBrace])

section Meaning
variable (lookup : Bytes → Option Bytes)

def Token.meaning : Token → Bytes
  | .text plain => plain.1
  | .escape => [dollar]
  | .reference name => (lookup name.1).getD []
  | .withDefault name default =>
    match lookup name.1 with
    | some value => if value = [] then default.1 else value
    | none => default.1

/-- The name of a reference that has neither a value nor a default. -/
def Token.undefined : Token → Option Bytes
  | .reference name => if lookup name.1 = none then some name.1 else none
  | _ => none

def Token.expansion (token : Token) : Expansion :=
  ⟨token.meaning lookup, (token.undefined lookup).toList⟩

end Meaning

section Tokens
variable (lookup : Bytes → Option Bytes)

theorem resolve_reference (name : Name) :
    resolve lookup name.1 = Token.expansion lookup (.reference name) := by
  have unmarked := index_eq_none name.2.2
  simp only [resolve, unmarked, Token.expansion, Token.meaning, Token.undefined]
  cases value : lookup name.1 <;> simp [literal]

theorem resolve_withDefault (name : Name) (default : Default) :
    resolve lookup (name.1 ++ (defaultMark ++ default.1)) =
      Token.expansion lookup (.withDefault name default) := by
  have found := index_append name.2.2 default.1
  have rest : (name.1 ++ (defaultMark ++ default.1)).drop (name.1.length + 2) = default.1 := by
    rw [List.drop_append]
    simp [defaultMark]
  simp only [resolve, found, rest, List.take_left, Token.expansion, Token.meaning,
    Token.undefined]
  cases lookup name.1 with
  | none => rfl
  | some value =>
    by_cases empty : value = [] <;> simp [empty, literal]

/-- A token is expanded on its own, whatever follows it. -/
theorem expandFrom_token (token : Token) (rest : Bytes) :
    expandFrom lookup 0 (token.spelling ++ rest) =
      (token.expansion lookup).before (expandFrom lookup 0 rest) := by
  cases token with
  | text plain => exact expandFrom_text plain.2 rest
  | escape => exact expandFrom_dollar rest
  | reference name =>
    rw [← resolve_reference, ← expandFrom_reference name.2.1 rest]
    simp [Token.spelling]
  | withDefault name default =>
    have closed : closeBrace ∉ name.1 ++ (defaultMark ++ default.1) := by
      have unmarked : closeBrace ∉ defaultMark := by decide
      simp [name.2.1, default.2, unmarked]
    rw [← resolve_withDefault, ← expandFrom_reference closed rest]
    simp [Token.spelling]

theorem expandEnvStrict_tokens (tokens : List Token) :
    expandEnvStrict lookup (tokens.flatMap Token.spelling) =
      ⟨tokens.flatMap (Token.meaning lookup), tokens.filterMap (Token.undefined lookup)⟩ := by
  induction tokens with
  | nil => rfl
  | cons token rest ih =>
    rw [List.flatMap_cons, expandEnvStrict, expandFrom_token, ← expandEnvStrict, ih]
    cases undefined : token.undefined lookup <;>
      simp [Expansion.before, Token.expansion, undefined]

end Tokens

/-! ## The escape -/

/-- Every dollar sign doubled. -/
def doubled (s : Bytes) : Bytes := s.flatMap fun c => if c = dollar then [dollar, dollar] else [c]

theorem dollar_notMem {c : UInt8} (other : c ≠ dollar) : dollar ∉ [c] :=
  fun member => other (List.mem_singleton.mp member).symm

/-- A byte of a doubled text. -/
def byteToken (c : UInt8) : Token :=
  if other : c = dollar then .escape else .text ⟨[c], dollar_notMem other⟩

section Bytes
variable (lookup : Bytes → Option Bytes) (c : UInt8)

theorem spelling_byteToken :
    (byteToken c).spelling = if c = dollar then [dollar, dollar] else [c] := by
  by_cases same : c = dollar <;> simp [byteToken, same, Token.spelling]

theorem meaning_byteToken : (byteToken c).meaning lookup = [c] := by
  by_cases same : c = dollar <;> simp [byteToken, same, Token.meaning]

theorem undefined_byteToken : (byteToken c).undefined lookup = none := by
  by_cases same : c = dollar <;> simp [byteToken, same, Token.undefined]

end Bytes

theorem expandEnvStrict_doubled (lookup : Bytes → Option Bytes) (s : Bytes) :
    expandEnvStrict lookup (doubled s) = ⟨s, []⟩ := by
  have tokens : doubled s = (s.map byteToken).flatMap Token.spelling := by
    simp [doubled, List.flatMap_map, spelling_byteToken]
  have named : (s.map byteToken).filterMap (Token.undefined lookup) = [] := by
    simp [List.filterMap_map, undefined_byteToken]
  rw [tokens, expandEnvStrict_tokens, named]
  simp [List.flatMap_map, meaning_byteToken]

/-- Whatever the environment: a text with its dollar signs doubled is expanded to itself, and a
sequence of tokens is expanded to what the tokens mean, one after the other, with the undefined
names in order. A value or a default is put in as it is, whatever it contains and wherever the
reference stands. -/
theorem expansion_homomorphic (lookup : Bytes → Option Bytes) :
    (∀ s, expandEnvStrict lookup (doubled s) = ⟨s, []⟩) ∧
    (∀ tokens : List Token,
      (expandEnvStrict lookup (tokens.flatMap Token.spelling)).text =
        tokens.flatMap (Token.meaning lookup) ∧
      (expandEnvStrict lookup (tokens.flatMap Token.spelling)).missing =
        tokens.filterMap (Token.undefined lookup)) ∧
    ∀ (front back : List Token) (token : Token),
      (expandEnvStrict lookup ((front ++ token :: back).flatMap Token.spelling)).text =
        (expandEnvStrict lookup (front.flatMap Token.spelling)).text ++ token.meaning lookup ++
          (expandEnvStrict lookup (back.flatMap Token.spelling)).text := by
  refine ⟨expandEnvStrict_doubled lookup, ?_, ?_⟩
  · intro tokens
    rw [expandEnvStrict_tokens]
    exact ⟨rfl, rfl⟩
  · intro front back token
    rw [expandEnvStrict_tokens, expandEnvStrict_tokens, expandEnvStrict_tokens]
    simp

/-- A value with a reference in it, an undefined name, and a dollar sign before a digit. -/
example :
    let lookup := fun name =>
      if name = "A".toUTF8.toList then some "$\x7bB\x7d".toUTF8.toList else none
    expandEnvStrict lookup "x$\x7bA\x7d$$\x7bA\x7d$1$\x7bB\x7d$\x7bB:-$$\x7d".toUTF8.toList =
      ⟨"x$\x7bB\x7d$\x7bA\x7d$1$$".toUTF8.toList, ["B".toUTF8.toList]⟩ := by
  decide +kernel

end EnvExpansion
