import StacProxy.JsonValue
import Mathlib.Algebra.Order.Field.Rat

/-!
# Local evaluation of CQL2

The subset of CQL2 that `EvalCQL2` decides on a decoded item. Expressions come from a
third-party parser, so the syntax here is its tree; whatever the evaluator does not know is
an `other` node or operator. Geometry and the parsing of numeric strings are parameters.
-/

namespace Cql2Eval

open JsonValue

inductive Operator where
  | and
  | or
  | not
  | eq
  | neq
  | lt
  | lte
  | gt
  | gte
  | isIn
  | isNull
  | sIntersects
  | other (name : String)
  deriving DecidableEq, Repr

inductive Node where
  | bool (b : Bool)
  | num (value : ℚ)
  | str (s : String)
  | null
  | prop (name : String)
  | arr (elems : List Node)
  /-- A geometry literal, as the GeoJSON object it is encoded to. -/
  | geom (geojson : Members)
  | bbox (coords : List ℚ)
  | op (operator : Operator) (args : List Node)
  | other (kind : String)

/-- A floating-point number as far as comparisons go. -/
inductive Number where
  | finite (value : ℚ)
  | infinite (negative : Bool)
  | nan
  deriving DecidableEq, Repr

def Number.less : Number → Number → Bool
  | finite a, finite b => decide (a < b)
  | finite _, infinite negative => !negative
  | infinite negative, finite _ => negative
  | infinite a, infinite b => a && !b
  | nan, _ => false
  | _, nan => false

def Number.same : Number → Number → Bool
  | nan, _ => false
  | a, b => decide (a = b)

structure Library (G : Type) where
  /-- `strconv.ParseFloat`. -/
  parseFloat : String → Option Number
  /-- `geo.ParseGeoJSON` of a decoded object; anything else is no geometry. -/
  parseObject : Members → Option G
  intersects : G → G → Bool
  contains : G → G → Bool

inductive EvalError where
  | topLevelNotBoolean
  | argNotBoolean (operator : Operator)
  | arity (operator : Operator) (expected got : Nat)
  | inSecondArgNotArray
  | unsupportedNode (kind : String)
  deriving DecidableEq, Repr

section Properties

/-- A missing member of a Go map reads as nil. -/
def member (m : Members) (name : String) : Json := (m.get? name).getD .null

def walkPath (value : Json) : List String → Json
  | [] => value
  | step :: path => match value with
    | .obj m => walkPath (member m step) path
    | _ => .null

def lookupProperty (item : Members) (name : String) : Json :=
  if '.' ∈ name.toList then
    walkPath (.obj item) ((name.toList.splitOn '.').map String.ofList)
  else match item.get? "properties" with
    | some (.obj props) => match Members.get? props name with
      | some value => value
      | none => member item name
    | _ => member item name

end Properties

section Comparison
variable {G : Type} (lib : Library G)

def toFloat : Json → Option Number
  | .num value => some (.finite value)
  | .str s => lib.parseFloat s
  | _ => none

def numericCmp (operator : Operator) (l r : Number) : Bool :=
  match operator with
  | .eq => l.same r
  | .neq => !l.same r
  | .lt => l.less r
  | .lte => l.less r || l.same r
  | .gt => r.less l
  | .gte => r.less l || l.same r
  | _ => false

def stringCmp (operator : Operator) (l r : String) : Bool :=
  match operator with
  | .eq => l == r
  | .neq => l != r
  | .lt => decide (l < r)
  | .lte => !decide (r < l)
  | .gt => decide (r < l)
  | .gte => !decide (l < r)
  | _ => false

def isNil : Json → Bool
  | .null => true
  | _ => false

/-- Strings that read as numbers are compared as numbers; values of different kinds never
compare as true, not even with `<>`. -/
def compare (operator : Operator) (left right : Json) : Bool :=
  if isNil left || isNil right then
    match operator with
    | .eq => isNil left && isNil right
    | .neq => !(isNil left && isNil right)
    | _ => false
  else match toFloat lib left, toFloat lib right with
    | some l, some r => numericCmp operator l r
    | _, _ => match left, right with
      | .str l, .str r => stringCmp operator l r
      | .bool l, .bool r => match operator with
        | .eq => l == r
        | .neq => l != r
        | _ => false
      | _, _ => false

end Comparison

section Spatial
variable {G : Type} (lib : Library G)

def parseGeoJSON : Json → Option G
  | .obj m => lib.parseObject m
  | _ => none

def point (x y : ℚ) : Json := .arr [.num x, .num y]

def boxPolygon (minX minY maxX maxY : ℚ) : Members :=
  [("type", .str "Polygon"), ("coordinates", .arr [.arr [point minX minY, point maxX minY,
    point maxX maxY, point minX maxY, point minX minY]])]

def literalToGeoJSON : Node → Option Members
  | .geom geojson => some geojson
  | .bbox [minX, minY, maxX, maxY] => some (boxPolygon minX minY maxX maxY)
  | .bbox [minX, minY, _, maxX, maxY, _] => some (boxPolygon minX minY maxX maxY)
  | _ => none

/-- The property and the geometry literal of a spatial predicate, in either order. -/
def spatialArgs : List Node → Option (String × Node)
  | [.prop name, .geom g] => some (name, .geom g)
  | [.prop name, .bbox c] => some (name, .bbox c)
  | [.geom g, .prop name] => some (name, .geom g)
  | [.bbox c, .prop name] => some (name, .bbox c)
  | _ => none

def evalSIntersects (item : Members) (args : List Node) : Except EvalError Json :=
  if args.length ≠ 2 then .error (.arity .sIntersects 2 args.length)
  else match spatialArgs args with
    | none => .error (.unsupportedNode "Op:s_intersects (need property + literal geometry)")
    | some (name, literal) =>
      match parseGeoJSON lib (lookupProperty item name),
          (literalToGeoJSON literal).bind lib.parseObject with
      | some itemGeom, some litGeom => .ok (.bool (lib.intersects itemGeom litGeom))
      | _, _ => .ok (.bool false)

end Spatial

section Evaluation
variable {G : Type} (lib : Library G) (item : Members)

abbrev Result := Except EvalError Json

/-- An array of the values, unless one of them fails. -/
def arrayOf (values : List Result) : Result := do
  let elems ← values.mapM id
  pure (.arr elems)

/-- AND stops at the first argument that is not true. -/
def conjunction : List Result → Result
  | [] => .ok (.bool true)
  | .ok (.bool true) :: rest => conjunction rest
  | .ok (.bool false) :: _ => .ok (.bool false)
  | .ok _ :: _ => .error (.argNotBoolean .and)
  | .error e :: _ => .error e

def disjunction : List Result → Result
  | [] => .ok (.bool false)
  | .ok (.bool false) :: rest => disjunction rest
  | .ok (.bool true) :: _ => .ok (.bool true)
  | .ok _ :: _ => .error (.argNotBoolean .or)
  | .error e :: _ => .error e

def negation : List Result → Result
  | [.ok (.bool b)] => .ok (.bool !b)
  | [.ok _] => .error (.argNotBoolean .not)
  | [.error e] => .error e
  | args => .error (.arity .not 1 args.length)

def comparison (operator : Operator) : List Result → Result
  | [left, right] => do
    let l ← left
    let r ← right
    pure (.bool (compare lib operator l r))
  | args => .error (.arity operator 2 args.length)

def membership : List Result → Result
  | [needle, hay] => do
    let n ← needle
    match ← hay with
    | .arr elems => pure (.bool (elems.any (compare lib .eq n)))
    | _ => .error .inSecondArgNotArray
  | args => .error (.arity .isIn 2 args.length)

def nullCheck : List Result → Result
  | [arg] => do pure (.bool (isNil (← arg)))
  | args => .error (.arity .isNull 1 args.length)

/-- An operator on its arguments and their values. -/
def evalOp (operator : Operator) (args : List Node) (values : List Result) : Result :=
  match operator with
  | .and => conjunction values
  | .or => disjunction values
  | .not => negation values
  | .eq | .neq | .lt | .lte | .gt | .gte => comparison lib operator values
  | .isIn => membership lib values
  | .isNull => nullCheck values
  | .sIntersects => evalSIntersects lib item args
  | .other name => .error (.unsupportedNode ("Op:" ++ name))

mutual

def eval : Node → Result
  | .bool b => .ok (.bool b)
  | .num value => .ok (.num value)
  | .str s => .ok (.str s)
  | .null => .ok .null
  | .prop name => .ok (lookupProperty item name)
  | .arr elems => arrayOf (evalAll elems)
  | .op operator args => evalOp lib item operator args (evalAll args)
  | .geom _ => .error (.unsupportedNode "*cql2.GeomLit")
  | .bbox _ => .error (.unsupportedNode "*cql2.BBoxLit")
  | .other kind => .error (.unsupportedNode kind)

/-- The value of every argument; an operator looks at as many as it needs. -/
def evalAll : List Node → List Result
  | [] => []
  | node :: rest => eval node :: evalAll rest

end

def evalCQL2 (expr : Node) : Except EvalError Bool :=
  match eval lib item expr with
  | .error e => .error e
  | .ok (.bool b) => .ok b
  | .ok _ => .error .topLevelNotBoolean

/-- The expression evaluates to true on the item. -/
def Holds (expr : Node) : Prop := evalCQL2 lib item expr = .ok true

instance (expr : Node) : Decidable (Holds lib item expr) :=
  inferInstanceAs (Decidable (evalCQL2 lib item expr = .ok true))

end Evaluation

section Laws
variable {G : Type} {lib : Library G} {item : Members} {expr : Node} {args : List Node}

theorem evalAll_eq_map (args : List Node) : evalAll lib item args = args.map (eval lib item) := by
  induction args with
  | nil => simp [evalAll]
  | cons node rest ih => simp [evalAll, ih]

theorem holds_iff : Holds lib item expr ↔ eval lib item expr = .ok (.bool true) := by
  unfold Holds evalCQL2
  split <;> simp_all

theorem conjunction_eq_true {values : List Result} :
    conjunction values = .ok (.bool true) ↔ ∀ v ∈ values, v = .ok (.bool true) := by
  fun_induction conjunction values <;> simp_all

/-- A conjunction holds if and only if all of its parts do. -/
theorem holds_and_iff : Holds lib item (.op .and args) ↔ ∀ arg ∈ args, Holds lib item arg := by
  simp only [holds_iff, eval, evalOp, conjunction_eq_true, evalAll_eq_map, List.mem_map,
    forall_exists_index, and_imp, forall_apply_eq_imp_iff₂]

theorem holds_not_iff : Holds lib item (.op .not [expr]) ↔
    eval lib item expr = .ok (.bool false) := by
  simp only [holds_iff, eval, evalOp, evalAll]
  cases eval lib item expr with
  | error e => simp [negation]
  | ok value => cases value <;> simp [negation]

/-- The spatial predicate that a geofence is pushed down as. -/
theorem eval_sIntersects (name : String) (geojson : Members) :
    eval lib item (.op .sIntersects [.prop name, .geom geojson]) =
      .ok (.bool (match parseGeoJSON lib (lookupProperty item name), lib.parseObject geojson with
        | some itemGeom, some litGeom => lib.intersects itemGeom litGeom
        | _, _ => false)) := by
  simp only [eval, evalOp, evalSIntersects, spatialArgs, literalToGeoJSON, List.length_cons,
    List.length_nil, Option.bind_some]
  cases parseGeoJSON lib (lookupProperty item name) <;> cases lib.parseObject geojson <;> rfl

end Laws

end Cql2Eval
