import StacProxy.Geofence
import StacProxy.TextComparison
import StacProxy.ThreeValued

/-!
# Local evaluation against three-valued CQL2

In CQL2 a comparison, an `IN` or a spatial predicate with an operand that is null, missing or
does not parse is neither true nor false, and so is its negation. The evaluator has two values
and settles what is unknown, mostly as false. It also takes texts for numbers where it can, which
CQL2 does not; expressions in which it does so on the item are left out.
-/

namespace Cql2Soundness

open JsonValue Cql2Eval ThreeValued

section Grammar

/-- A property or a literal. -/
inductive Term : Node → Prop
  | bool (b : Bool) : Term (.bool b)
  | num (value : ℚ) : Term (.num value)
  | str (s : String) : Term (.str s)
  | null : Term .null
  | prop (name : String) : Term (.prop name)

/-- The expressions over properties and literals that the evaluator is for. -/
inductive Formula : Node → Prop
  | bool (b : Bool) : Formula (.bool b)
  | prop (name : String) : Formula (.prop name)
  | and {args : List Node} : (∀ arg ∈ args, Formula arg) → Formula (.op .and args)
  | or {args : List Node} : (∀ arg ∈ args, Formula arg) → Formula (.op .or args)
  | not {arg : Node} : Formula arg → Formula (.op .not [arg])
  | comparison {operator : Operator} {left right : Node} : operator ∈ comparisons → Term left →
      Term right → Formula (.op operator [left, right])
  | isIn {needle : Node} {elems : List Node} : Term needle → (∀ e ∈ elems, Term e) →
      Formula (.op .isIn [needle, .arr elems])
  | isNull {arg : Node} : Term arg → Formula (.op .isNull [arg])
  | sIntersects {args : List Node} : (spatialArgs args).isSome → Formula (.op .sIntersects args)

end Grammar

section Semantics
variable {G : Type} (lib : Library G) (item : Members)

/-- The value of a property or a literal. -/
def operand : Node → Json
  | .bool b => .bool b
  | .num value => .num value
  | .str s => .str s
  | .prop name => lookupProperty item name
  | _ => .null

/-- Two numbers, two texts or two Booleans compare, Booleans as equal or not. -/
def comparable (operator : Operator) : Json → Json → Option Bool
  | .num l, .num r => some (ordered operator l r)
  | .str l, .str r => some (textual operator l r)
  | .bool l, .bool r => match operator with
    | .eq => some (l == r)
    | .neq => some (l != r)
    | _ => none
  | _, _ => none

def compareTruth (operator : Operator) (left right : Json) : Truth :=
  if isNil left || isNil right then .unknown
  else ((comparable operator left right).map .ofBool).getD .unknown

def membershipTruth (needle : Json) (elems : List Json) : Truth :=
  if isNil needle then .unknown else .any (elems.map (compareTruth .eq needle))

def spatialTruth (args : List Node) : Truth :=
  match spatialArgs args with
  | none => .unknown
  | some (name, literal) =>
    match parseGeoJSON lib (lookupProperty item name),
        (literalToGeoJSON literal).bind lib.parseObject with
    | some itemGeom, some litGeom => .ofBool (lib.intersects itemGeom litGeom)
    | _, _ => .unknown

/-- An operator on its arguments and their truth values. -/
def truthOp (operator : Operator) (args : List Node) (truths : List Truth) : Truth :=
  match operator with
  | .and => .all truths
  | .or => .any truths
  | .not => match truths with
    | [t] => t.not
    | _ => .unknown
  | .eq | .neq | .lt | .lte | .gt | .gte => match args with
    | [left, right] => compareTruth operator (operand item left) (operand item right)
    | _ => .unknown
  | .isIn => match args with
    | [needle, .arr elems] => membershipTruth (operand item needle) (elems.map (operand item))
    | _ => .unknown
  | .isNull => match args with
    | [arg] => .ofBool (isNil (operand item arg))
    | _ => .unknown
  | .sIntersects => spatialTruth lib item args
  | .other _ => .unknown

mutual

def truth : Node → Truth
  | .bool b => .ofBool b
  | .prop name => match lookupProperty item name with
    | .bool b => .ofBool b
    | _ => .unknown
  | .op operator args => truthOp lib item operator args (truthAll args)
  | _ => .unknown

def truthAll : List Node → List Truth
  | [] => []
  | node :: rest => truth node :: truthAll rest

end

/-- Comparisons with null that the evaluator takes to be true. -/
def grantsNull (operator : Operator) (left right : Json) : Bool :=
  match operator with
  | .eq => isNil left && isNil right
  | .neq => isNil left != isNil right
  | _ => false

/-- The operator is not where the evaluator takes what is unknown to be true. -/
def guardedOp (operator : Operator) (args : List Node) (truths : List Truth) : Bool :=
  match operator, args with
  | .not, _ => .unknown ∉ truths
  | .eq, [left, right] => !grantsNull .eq (operand item left) (operand item right)
  | .neq, [left, right] => !grantsNull .neq (operand item left) (operand item right)
  | .isIn, [needle, .arr elems] =>
    elems.all fun e => !grantsNull .eq (operand item needle) (operand item e)
  | _, _ => true

/-- Operands that the evaluator compares as numbers although one of them is a text. -/
def numerals : Json → Json → Bool
  | .num _, .num _ => false
  | left, right => (toFloat lib left).isSome && (toFloat lib right).isSome

/-- The operator takes no text for a number. -/
def literalOp (operator : Operator) (args : List Node) : Bool :=
  match args with
  | [left, right] => match operator, right with
    | .isIn, .arr elems => elems.all fun e => !numerals lib (operand item left) (operand item e)
    | operator, _ => operator ∉ comparisons || !numerals lib (operand item left) (operand item right)
  | _ => true

mutual

/-- The check passes for every operator of the expression. -/
def everywhere (check : Operator → List Node → Bool) : Node → Bool
  | .op operator args => check operator args && everywhereAll check args
  | _ => true

def everywhereAll (check : Operator → List Node → Bool) : List Node → Bool
  | [] => true
  | node :: rest => everywhere check node && everywhereAll check rest

end

def guarded (node : Node) : Bool :=
  everywhere (fun operator args => guardedOp item operator args (truthAll lib item args)) node

def literal (node : Node) : Bool := everywhere (literalOp lib item) node

end Semantics

section Operands
variable {G : Type} {lib : Library G} {item : Members}

theorem truthAll_eq_map (args : List Node) : truthAll lib item args = args.map (truth lib item) := by
  induction args with
  | nil => simp [truthAll]
  | cons node rest ih => simp [truthAll, ih]

theorem everywhere_op {check : Operator → List Node → Bool} {operator : Operator} {args : List Node} :
    everywhere check (.op operator args) = true ↔
      check operator args = true ∧ ∀ arg ∈ args, everywhere check arg = true := by
  have all : everywhereAll check args = true ↔ ∀ arg ∈ args, everywhere check arg = true := by
    induction args with
    | nil => simp [everywhereAll]
    | cons node rest ih => simp [everywhereAll, ih]
  rw [everywhere, Bool.and_eq_true, all]

theorem eval_of_term {node : Node} (term : Term node) :
    eval lib item node = .ok (operand item node) := by
  cases term <;> simp [eval, operand]

theorem numericCmp_finite {operator : Operator} (compares : operator ∈ comparisons) (l r : ℚ) :
    numericCmp operator (.finite l) (.finite r) = ordered operator l r := by
  simp only [comparisons, List.mem_cons, List.not_mem_nil, or_false] at compares
  rcases compares with rfl | rfl | rfl | rfl | rfl | rfl <;>
    simp [numericCmp, ordered, Number.same, Number.less]

theorem match_of_unread {l r : Option Number} {operator : Operator} (otherwise : Bool) :
    l = none ∨ r = none → (match l, r with
      | some l, some r => numericCmp operator l r
      | _, _ => otherwise) = otherwise := by
  rintro (rfl | rfl)
  · rfl
  · cases l <;> rfl

theorem compare_of_present {operator : Operator} {left right : Json}
    (compares : operator ∈ comparisons) (present : ¬(isNil left || isNil right) = true)
    (texts : numerals lib left right = false) :
    Cql2Eval.compare lib operator left right = (comparable operator left right).getD false := by
  unfold Cql2Eval.compare
  rw [if_neg present]
  by_cases numbers : (∃ l, left = .num l) ∧ ∃ r, right = .num r
  · obtain ⟨⟨l, rfl⟩, r, rfl⟩ := numbers
    exact numericCmp_finite compares l r
  · have unread : toFloat lib left = none ∨ toFloat lib right = none := by
      unfold numerals at texts
      split at texts
      · exact absurd ⟨⟨_, rfl⟩, _, rfl⟩ numbers
      · rw [Bool.and_eq_false_iff] at texts
        simpa using texts
    refine (match_of_unread _ unread).trans ?_
    cases left <;> cases right <;> try rfl
    · cases operator <;> rfl
    · exact absurd ⟨⟨_, rfl⟩, _, rfl⟩ numbers
    · exact stringCmp_eq_textual compares _ _

/-- With null only the grants count as true. -/
theorem compare_of_null {operator : Operator} {left right : Json}
    (null : (isNil left || isNil right) = true) :
    Cql2Eval.compare lib operator left right = grantsNull operator left right := by
  unfold Cql2Eval.compare grantsNull
  rw [if_pos null]
  cases operator with
  | neq =>
    revert null
    cases isNil left <;> cases isNil right <;> decide
  | _ => rfl

/-- The evaluator agrees on every comparison that is not unknown. -/
theorem compareTruth_admits {operator : Operator} {left right : Json}
    (compares : operator ∈ comparisons) (texts : numerals lib left right = false) :
    (compareTruth operator left right).Admits (Cql2Eval.compare lib operator left right) := by
  unfold compareTruth
  split
  · exact Truth.admits_unknown _
  · rename_i present
    rw [compare_of_present compares present texts]
    cases comparable operator left right with
    | none => exact Truth.admits_unknown _
    | some b => exact Truth.admits_ofBool b

theorem compareTruth_eq_tt {operator : Operator} {left right : Json}
    (compares : operator ∈ comparisons) (texts : numerals lib left right = false)
    (granted : Cql2Eval.compare lib operator left right = true)
    (ungranted : grantsNull operator left right = false) :
    compareTruth operator left right = .tt := by
  by_cases null : (isNil left || isNil right) = true
  · rw [compare_of_null null, ungranted] at granted
    cases granted
  · rw [compare_of_present compares null texts] at granted
    rw [compareTruth, if_neg null]
    cases compared : comparable operator left right with
    | none => simp [compared] at granted
    | some b =>
      obtain rfl : b = true := by simpa [compared] using granted
      rfl

theorem eq_mem_comparisons : Operator.eq ∈ comparisons := by decide

theorem any_admits {needle : Json} {elems : List Json}
    (texts : ∀ e ∈ elems, numerals lib needle e = false) :
    (Truth.any (elems.map (compareTruth .eq needle))).Admits
      (elems.any (Cql2Eval.compare lib .eq needle)) := by
  induction elems with
  | nil => exact Truth.admits_ofBool false
  | cons e rest ih =>
    rw [List.forall_mem_cons] at texts
    have first := compareTruth_admits eq_mem_comparisons texts.1
    rw [List.any_cons]
    cases matched : Cql2Eval.compare lib .eq needle e with
    | true =>
      rw [matched] at first
      exact first.or_true
    | false =>
      rw [matched] at first
      exact first.or_false (ih texts.2)

theorem membershipTruth_admits {needle : Json} {elems : List Json}
    (texts : ∀ e ∈ elems, numerals lib needle e = false) :
    (membershipTruth needle elems).Admits (elems.any (Cql2Eval.compare lib .eq needle)) := by
  unfold membershipTruth
  split
  · exact Truth.admits_unknown _
  · exact any_admits texts

theorem membershipTruth_eq_tt {needle : Json} {elems : List Json}
    (texts : ∀ e ∈ elems, numerals lib needle e = false)
    (granted : elems.any (Cql2Eval.compare lib .eq needle) = true)
    (ungranted : ∀ e ∈ elems, grantsNull .eq needle e = false) :
    membershipTruth needle elems = .tt := by
  obtain ⟨e, member, matched⟩ := List.any_eq_true.mp granted
  have found := compareTruth_eq_tt eq_mem_comparisons (texts e member) matched (ungranted e member)
  have present : ¬isNil needle = true := by
    intro null
    simp [compareTruth, null] at found
  rw [membershipTruth, if_neg present, Truth.any_eq_tt]
  exact ⟨_, List.mem_map_of_mem member, found⟩

theorem arrayOf_terms {elems : List Node} (terms : ∀ e ∈ elems, Term e) :
    arrayOf (elems.map (eval lib item)) = .ok (.arr (elems.map (operand item))) := by
  have values : (elems.map (eval lib item)).mapM id = .ok (elems.map (operand item)) := by
    induction elems with
    | nil => rfl
    | cons e rest ih =>
      rw [List.forall_mem_cons] at terms
      rw [List.map_cons, List.mapM_cons, ih terms.2, eval_of_term terms.1]
      rfl
  rw [arrayOf, values]
  rfl

theorem spatialTruth_admits {args : List Node} {b : Bool}
    (ok : evalSIntersects lib item args = .ok (.bool b)) :
    (spatialTruth lib item args).Admits b ∧ (b = true → spatialTruth lib item args = .tt) := by
  unfold evalSIntersects at ok
  unfold spatialTruth
  split at ok
  · cases ok
  · cases shape : spatialArgs args with
    | none =>
      simp only [shape] at ok
      cases ok
    | some operands =>
      obtain ⟨name, literal⟩ := operands
      simp only [shape] at ok
      cases left : parseGeoJSON lib (lookupProperty item name) with
      | none =>
        simp only [left] at ok ⊢
        cases ok
        exact ⟨Truth.admits_unknown _, nofun⟩
      | some itemGeom =>
        cases right : (literalToGeoJSON literal).bind lib.parseObject with
        | none =>
          simp only [left, right] at ok ⊢
          cases ok
          exact ⟨Truth.admits_unknown _, nofun⟩
        | some litGeom =>
          simp only [left, right] at ok ⊢
          cases ok
          exact ⟨Truth.admits_ofBool _, fun meets => by rw [meets]; rfl⟩

end Operands

section Connectives
variable {G : Type} {lib : Library G} {item : Members} {args : List Node} {b : Bool}

/-- What the evaluator says about an expression is left open by its truth value, and it says true
only of what is true unless it takes something from unknown to true. -/
structure Sound (lib : Library G) (item : Members) (node : Node) : Prop where
  admits : ∀ {b}, eval lib item node = .ok (.bool b) → (truth lib item node).Admits b
  eq_tt : guarded lib item node = true → eval lib item node = .ok (.bool true) →
    truth lib item node = .tt

theorem guarded_op {operator : Operator} : guarded lib item (.op operator args) = true ↔
    guardedOp item operator args (args.map (truth lib item)) = true ∧
      ∀ arg ∈ args, guarded lib item arg = true := by
  rw [guarded, everywhere_op, truthAll_eq_map]
  rfl

/-- A conjunction goes on after true and stops at false. -/
theorem conjunction_cons {first : Result} {rest : List Result}
    (ok : conjunction (first :: rest) = .ok (.bool b)) :
    (first = .ok (.bool true) ∧ conjunction rest = .ok (.bool b)) ∨
      (first = .ok (.bool false) ∧ b = false) := by
  cases first with
  | error e => cases ok
  | ok value =>
    cases value with
    | bool known =>
      cases known with
      | true => exact .inl ⟨rfl, ok⟩
      | false =>
        cases ok
        exact .inr ⟨rfl, rfl⟩
    | _ => cases ok

theorem conjunction_admits (sound : ∀ arg ∈ args, Sound lib item arg)
    (ok : conjunction (args.map (eval lib item)) = .ok (.bool b)) :
    (Truth.all (args.map (truth lib item))).Admits b := by
  induction args with
  | nil =>
    cases ok
    exact Truth.admits_ofBool true
  | cons arg rest ih =>
    rw [List.forall_mem_cons] at sound
    rcases conjunction_cons ok with ⟨value, later⟩ | ⟨value, rfl⟩
    · exact (sound.1.admits value).and_true (ih sound.2 later)
    · exact (sound.1.admits value).and_false

theorem sound_and (sound : ∀ arg ∈ args, Sound lib item arg) : Sound lib item (.op .and args) := by
  have eval_eq : eval lib item (.op .and args) = conjunction (args.map (eval lib item)) := by
    rw [eval, evalAll_eq_map]
    rfl
  have truth_eq : truth lib item (.op .and args) = .all (args.map (truth lib item)) := by
    rw [truth, truthAll_eq_map]
    rfl
  refine ⟨fun ok => ?_, fun safe ok => ?_⟩
  · rw [truth_eq]
    exact conjunction_admits sound (eval_eq ▸ ok)
  · rw [truth_eq, Truth.all_eq_tt]
    rw [eval_eq, conjunction_eq_true] at ok
    intro t listed
    obtain ⟨arg, member, rfl⟩ := List.mem_map.mp listed
    exact (sound arg member).eq_tt ((guarded_op.mp safe).2 arg member)
      (ok _ (List.mem_map_of_mem member))

/-- A disjunction goes on after false and stops at true. -/
theorem disjunction_cons {first : Result} {rest : List Result}
    (ok : disjunction (first :: rest) = .ok (.bool b)) :
    (first = .ok (.bool false) ∧ disjunction rest = .ok (.bool b)) ∨
      (first = .ok (.bool true) ∧ b = true) := by
  cases first with
  | error e => cases ok
  | ok value =>
    cases value with
    | bool known =>
      cases known with
      | true =>
        cases ok
        exact .inr ⟨rfl, rfl⟩
      | false => exact .inl ⟨rfl, ok⟩
    | _ => cases ok

theorem disjunction_admits (sound : ∀ arg ∈ args, Sound lib item arg)
    (ok : disjunction (args.map (eval lib item)) = .ok (.bool b)) :
    (Truth.any (args.map (truth lib item))).Admits b := by
  induction args with
  | nil =>
    cases ok
    exact Truth.admits_ofBool false
  | cons arg rest ih =>
    rw [List.forall_mem_cons] at sound
    rcases disjunction_cons ok with ⟨value, later⟩ | ⟨value, rfl⟩
    · exact (sound.1.admits value).or_false (ih sound.2 later)
    · exact (sound.1.admits value).or_true

theorem mem_of_disjunction {values : List Result}
    (ok : disjunction values = .ok (.bool true)) : .ok (.bool true) ∈ values := by
  induction values with
  | nil => cases ok
  | cons first rest ih =>
    rcases disjunction_cons ok with ⟨-, later⟩ | ⟨rfl, -⟩
    · exact List.mem_cons_of_mem _ (ih later)
    · exact List.mem_cons_self

theorem sound_or (sound : ∀ arg ∈ args, Sound lib item arg) : Sound lib item (.op .or args) := by
  have eval_eq : eval lib item (.op .or args) = disjunction (args.map (eval lib item)) := by
    rw [eval, evalAll_eq_map]
    rfl
  have truth_eq : truth lib item (.op .or args) = .any (args.map (truth lib item)) := by
    rw [truth, truthAll_eq_map]
    rfl
  refine ⟨fun ok => ?_, fun safe ok => ?_⟩
  · rw [truth_eq]
    exact disjunction_admits sound (eval_eq ▸ ok)
  · obtain ⟨arg, member, holds⟩ := List.mem_map.mp (mem_of_disjunction (eval_eq ▸ ok))
    rw [truth_eq, Truth.any_eq_tt]
    exact ⟨_, List.mem_map_of_mem member,
      (sound arg member).eq_tt ((guarded_op.mp safe).2 arg member) holds⟩

theorem sound_not {arg : Node} (sound : Sound lib item arg) : Sound lib item (.op .not [arg]) := by
  have inner : ∀ {b}, eval lib item (.op .not [arg]) = .ok (.bool b) →
      eval lib item arg = .ok (.bool !b) := by
    intro b ok
    have negated : negation [eval lib item arg] = .ok (.bool b) := ok
    cases value : eval lib item arg with
    | error e => simp [value, negation] at negated
    | ok v =>
      cases v with
      | bool inner =>
        obtain rfl : (!inner) = b := by simpa [value, negation] using negated
        simp
      | _ => simp [value, negation] at negated
  refine ⟨fun {b} ok => ?_, fun safe ok => ?_⟩
  · have settled := (sound.admits (inner ok)).not
    rw [Bool.not_not] at settled
    exact settled
  · have known : truth lib item arg ≠ .unknown := by
      intro unknown
      simpa [guardedOp, unknown] using (guarded_op.mp safe).1
    exact Truth.not_eq_tt (sound.admits (inner ok)) known

end Connectives

section Predicates
variable {G : Type} {lib : Library G} {item : Members}

theorem sound_comparison {operator : Operator} {left right : Node}
    (compares : operator ∈ comparisons) (term_left : Term left) (term_right : Term right)
    (texts : numerals lib (operand item left) (operand item right) = false) :
    Sound lib item (.op operator [left, right]) := by
  have values : comparison lib operator [eval lib item left, eval lib item right] =
      .ok (.bool (Cql2Eval.compare lib operator (operand item left) (operand item right))) := by
    rw [eval_of_term term_left, eval_of_term term_right]
    rfl
  have eval_eq : eval lib item (.op operator [left, right]) =
      .ok (.bool (Cql2Eval.compare lib operator (operand item left) (operand item right))) := by
    cases operator <;> first | exact values | simp [comparisons] at compares
  have truth_eq : truth lib item (.op operator [left, right]) =
      compareTruth operator (operand item left) (operand item right) := by
    cases operator <;> first | rfl | simp [comparisons] at compares
  refine ⟨fun ok => ?_, fun safe ok => ?_⟩
  · rw [eval_eq] at ok
    cases ok
    rw [truth_eq]
    exact compareTruth_admits compares texts
  · have ungranted : grantsNull operator (operand item left) (operand item right) = false := by
      have here := (guarded_op.mp safe).1
      cases operator <;> first | rfl | simpa [guardedOp] using here
    rw [truth_eq]
    exact compareTruth_eq_tt compares texts (by simpa [eval_eq] using ok) ungranted

theorem sound_isIn {needle : Node} {elems : List Node} (term : Term needle)
    (terms : ∀ e ∈ elems, Term e)
    (texts : ∀ e ∈ elems.map (operand item), numerals lib (operand item needle) e = false) :
    Sound lib item (.op .isIn [needle, .arr elems]) := by
  have hay : eval lib item (.arr elems) = .ok (.arr (elems.map (operand item))) := by
    rw [eval, evalAll_eq_map, arrayOf_terms terms]
  have values : membership lib [eval lib item needle, eval lib item (.arr elems)] = .ok (.bool
      ((elems.map (operand item)).any (Cql2Eval.compare lib .eq (operand item needle)))) := by
    rw [eval_of_term term, hay]
    rfl
  have eval_eq : eval lib item (.op .isIn [needle, .arr elems]) = .ok (.bool
      ((elems.map (operand item)).any (Cql2Eval.compare lib .eq (operand item needle)))) := values
  have truth_eq : truth lib item (.op .isIn [needle, .arr elems]) =
      membershipTruth (operand item needle) (elems.map (operand item)) := rfl
  refine ⟨fun ok => ?_, fun safe ok => ?_⟩
  · rw [eval_eq] at ok
    cases ok
    rw [truth_eq]
    exact membershipTruth_admits texts
  · have ungranted := (guarded_op.mp safe).1
    rw [truth_eq]
    apply membershipTruth_eq_tt texts (by simpa [eval_eq] using ok)
    simpa [guardedOp] using ungranted

theorem sound_isNull {arg : Node} (term : Term arg) : Sound lib item (.op .isNull [arg]) := by
  have values : nullCheck [eval lib item arg] = .ok (.bool (isNil (operand item arg))) := by
    rw [eval_of_term term]
    rfl
  have eval_eq : eval lib item (.op .isNull [arg]) = .ok (.bool (isNil (operand item arg))) := values
  have truth_eq : truth lib item (.op .isNull [arg]) = .ofBool (isNil (operand item arg)) := rfl
  refine ⟨fun ok => ?_, fun _ ok => ?_⟩
  · rw [eval_eq] at ok
    cases ok
    exact .inr truth_eq
  · have null : isNil (operand item arg) = true := by simpa [eval_eq] using ok
    rw [truth_eq, null]
    rfl

theorem sound_sIntersects (args : List Node) : Sound lib item (.op .sIntersects args) := by
  have spatial : ∀ {b}, eval lib item (.op .sIntersects args) = .ok (.bool b) →
      evalSIntersects lib item args = .ok (.bool b) := fun ok => ok
  exact ⟨fun ok => (spatialTruth_admits (spatial ok)).1,
    fun _ ok => (spatialTruth_admits (spatial ok)).2 rfl⟩

/-- One case for every way to build an expression. -/
theorem sound_of_formula {expr : Node} (formula : Formula expr)
    (texts : literal lib item expr = true) : Sound lib item expr := by
  induction formula with
  | bool b =>
    refine ⟨fun ok => ?_, fun _ ok => ?_⟩
    · cases ok
      exact Truth.admits_ofBool b
    · cases ok
      rfl
  | prop name =>
    refine ⟨fun ok => ?_, fun _ ok => ?_⟩
    · simp only [eval, Except.ok.injEq] at ok
      simp only [truth, ok]
      exact Truth.admits_ofBool _
    · simp only [eval, Except.ok.injEq] at ok
      simp only [truth, ok]
      rfl
  | and _ ih =>
    exact sound_and fun arg member => ih arg member ((everywhere_op.mp texts).2 arg member)
  | or _ ih =>
    exact sound_or fun arg member => ih arg member ((everywhere_op.mp texts).2 arg member)
  | not _ ih => exact sound_not (ih ((everywhere_op.mp texts).2 _ (by simp)))
  | @comparison operator left right compares term_left term_right =>
    have here := (everywhere_op.mp texts).1
    refine sound_comparison compares term_left term_right ?_
    have other : operator ≠ .isIn := by
      rintro rfl
      simp [comparisons] at compares
    simpa [literalOp, other, compares] using here
  | isIn term terms =>
    have here := (everywhere_op.mp texts).1
    exact sound_isIn term terms (by simpa [literalOp] using here)
  | isNull term => exact sound_isNull term
  | sIntersects _ => exact sound_sIntersects _

end Predicates

section Verdicts
variable {G : Type} {lib : Library G} {item : Members} {expr : Node}

end Verdicts

section Samples

def sampleLibrary : Library Geofence.Box :=
  { Geofence.boxLibrary with parseFloat := FloatText.parseFloat }

/-- What a denied area is pushed down as. -/
def awayFrom (minX minY maxX maxY : ℚ) : Node :=
  .op .not [.op .sIntersects [.prop "geometry", .geom (boxPolygon minX minY maxX maxY)]]

theorem awayFrom_formula (minX minY maxX maxY : ℚ) : Formula (awayFrom minX minY maxX maxY) :=
  .not (.sIntersects rfl)

def awayAndListed : Node :=
  .op .and [awayFrom 5 5 6 6, .op .isIn [.prop "a", .arr [.str "b", .str "c"]]]

theorem awayAndListed_formula : Formula awayAndListed := by
  refine .and fun arg member => ?_
  simp only [List.mem_cons, List.not_mem_nil, or_false] at member
  rcases member with rfl | rfl
  · exact awayFrom_formula 5 5 6 6
  · refine .isIn (.prop "a") fun e listed => ?_
    simp only [List.mem_cons, List.not_mem_nil, or_false] at listed
    rcases listed with rfl | rfl
    · exact .str "b"
    · exact .str "c"

def listedItem : Members := [("a", .str "b"), ("geometry", .obj (boxPolygon 0 0 2 2))]

/-- The evaluator takes the expression to be true of the item, CQL2 does not. -/
def Granted (item : Members) (expr : Node) : Prop :=
  Formula expr ∧ evalCQL2 sampleLibrary item expr = .ok true ∧ truth sampleLibrary item expr ≠ .tt

end Samples

end Cql2Soundness
