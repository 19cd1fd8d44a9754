import Mathlib.Data.Rat.Defs

/-!
# Decoded JSON values

The values `encoding/json` produces when it decodes into `any`. Objects are
association lists whose first entry for a name counts, and numbers are exact
rationals: rounding to binary64 is not modelled. Texts and byte encodings stay
outside this module.
-/

namespace JsonValue

inductive Json where
  | null
  | bool (b : Bool)
  | num (value : ℚ)
  | str (s : String)
  | arr (elems : List Json)
  | obj (members : List (String × Json))
  deriving Inhabited

/-- The members of a decoded JSON object, `map[string]any` in the source. -/
abbrev Members := List (String × Json)

/-- Map lookup `m[name]`. -/
def Members.get? (m : Members) (name : String) : Option Json :=
  m.lookup name

def Members.has (m : Members) (name : String) : Bool :=
  (m.get? name).isSome

namespace Json

def asString? : Json → Option String
  | str s => some s
  | _ => none

def asObject? : Json → Option Members
  | obj m => some m
  | _ => none

def asArray? : Json → Option (List Json)
  | arr l => some l
  | _ => none

end Json

@[simp] theorem get?_nil (name : String) : Members.get? [] name = none := rfl

theorem get?_cons (name key : String) (value : Json) (m : Members) :
    Members.get? ((key, value) :: m) name =
      if name = key then some value else Members.get? m name := by
  by_cases h : name = key
  · simp [Members.get?, h]
  · simp [Members.get?, List.lookup_cons, h, beq_eq_false_iff_ne.mpr h]

end JsonValue
