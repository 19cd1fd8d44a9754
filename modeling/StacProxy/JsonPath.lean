import StacProxy.JsonValue

/-!
# Paths into a document

A path is a sequence of steps into members and elements. Two documents agree at a path if the
values there have the same head: the same scalar, the same keys in their order, or the same
number of elements. A transformation that treats every place of a document by its kind, where
the kind of a place is that of its parent and the step that leads to it, acts at the end of a
path by the kind that the path leads to.
-/

namespace JsonValue

inductive Step where
  | key (name : String)
  | index (i : Nat)
  deriving DecidableEq

namespace Json

def child : Json → Step → Option Json
  | obj members, .key name => Members.get? members name
  | arr elems, .index i => elems[i]?
  | _, _ => none

def at? (data : Json) : List Step → Option Json
  | [] => some data
  | step :: path => (data.child step).bind (at? · path)

/-- A value without what is inside it. -/
inductive Head where
  | null
  | bool (b : Bool)
  | num (value : ℚ)
  | str (s : String)
  | arr (length : Nat)
  | obj (keys : List String)
  deriving DecidableEq

def head : Json → Head
  | null => .null
  | bool b => .bool b
  | num value => .num value
  | str s => .str s
  | arr elems => .arr elems.length
  | obj members => .obj (members.map Prod.fst)

@[simp] theorem at?_nil (data : Json) : data.at? [] = some data := rfl

@[simp] theorem at?_cons (data : Json) (step : Step) (path : List Step) :
    data.at? (step :: path) = (data.child step).bind (at? · path) := rfl

end Json

/-- Looking up a member after every member was treated by its key. -/
theorem get?_map (treat : String → Json → Json) (m : Members) (name : String) :
    Members.get? (m.map fun entry => (entry.1, treat entry.1 entry.2)) name =
      (m.get? name).map (treat name) := by
  induction m with
  | nil => rfl
  | cons entry rest ih =>
    obtain ⟨key, value⟩ := entry
    rw [List.map_cons, get?_cons, get?_cons, ih]
    split
    · rename_i same
      rw [same, Option.map_some]
    · rfl

section Kinds
variable {κ : Type*} {act : κ → Json → Json} {next : κ → Step → κ}

/-- What holds of single steps holds along paths. -/
theorem at?_act (acts : ∀ kind data step,
      (act kind data).child step = (data.child step).map (act (next kind step)))
    (kind : κ) (data : Json) (path : List Step) :
    (act kind data).at? path = (data.at? path).map (act (path.foldl next kind)) := by
  induction path generalizing kind data with
  | nil => rfl
  | cons step path ih =>
    rw [Json.at?_cons, Json.at?_cons, acts, Option.bind_map, Option.map_bind]
    congr 1
    funext inner
    exact ih (next kind step) inner

end Kinds

end JsonValue
