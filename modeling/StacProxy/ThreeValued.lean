import Mathlib.Data.List.Basic

/-!
# Three truth values

Strong Kleene logic. A truth value leaves open one or both of the Booleans, and a two-valued
evaluation that settles what is open in any way stays within what the connectives leave open.
-/

namespace ThreeValued

inductive Truth where
  | ff
  | unknown
  | tt
  deriving DecidableEq, Repr

namespace Truth

def ofBool : Bool → Truth
  | true => tt
  | false => ff

def not : Truth → Truth
  | ff => tt
  | unknown => unknown
  | tt => ff

def and : Truth → Truth → Truth
  | ff, _ => ff
  | tt, u => u
  | unknown, ff => ff
  | unknown, _ => unknown

def or : Truth → Truth → Truth
  | tt, _ => tt
  | ff, u => u
  | unknown, tt => tt
  | unknown, _ => unknown

def all (truths : List Truth) : Truth := truths.foldr and tt

def any (truths : List Truth) : Truth := truths.foldr or ff

/-- The Boolean is among those that the truth value leaves open. -/
def Admits (t : Truth) (b : Bool) : Prop := t = unknown ∨ t = ofBool b

variable {t u : Truth} {b : Bool} {truths : List Truth}

theorem admits_unknown (b : Bool) : Admits unknown b := .inl rfl

theorem admits_ofBool (b : Bool) : (ofBool b).Admits b := .inr rfl

theorem Admits.ne_ff (open_ : t.Admits true) : t ≠ ff := by
  rintro rfl
  simp [Admits, ofBool] at open_

theorem Admits.ne_tt (open_ : t.Admits false) : t ≠ tt := by
  rintro rfl
  simp [Admits, ofBool] at open_

theorem Admits.not (open_ : t.Admits b) : t.not.Admits !b := by
  rcases open_ with rfl | rfl
  · exact admits_unknown _
  · cases b <;> exact .inr rfl

theorem not_eq_tt (open_ : t.Admits false) (known : t ≠ unknown) : t.not = tt := by
  rcases open_ with rfl | rfl
  · exact absurd rfl known
  · rfl

theorem Admits.and_false (open_ : t.Admits false) : (t.and u).Admits false := by
  rcases open_ with rfl | rfl
  · cases u <;> simp [Truth.and, Admits, ofBool]
  · exact .inr rfl

theorem Admits.and_true (left : t.Admits true) (right : u.Admits b) : (t.and u).Admits b := by
  rcases left with rfl | rfl
  · rcases right with rfl | rfl
    · exact .inl rfl
    · cases b <;> simp [Truth.and, Admits, ofBool]
  · exact right

theorem Admits.or_true (open_ : t.Admits true) : (t.or u).Admits true := by
  rcases open_ with rfl | rfl
  · cases u <;> simp [Truth.or, Admits, ofBool]
  · exact .inr rfl

theorem Admits.or_false (left : t.Admits false) (right : u.Admits b) : (t.or u).Admits b := by
  rcases left with rfl | rfl
  · rcases right with rfl | rfl
    · exact .inl rfl
    · cases b <;> simp [Truth.or, Admits, ofBool]
  · exact right

theorem and_eq_tt : t.and u = tt ↔ t = tt ∧ u = tt := by
  cases t <;> cases u <;> simp [Truth.and]

theorem or_eq_tt : t.or u = tt ↔ t = tt ∨ u = tt := by
  cases t <;> cases u <;> simp [Truth.or]

theorem all_eq_tt : all truths = tt ↔ ∀ t ∈ truths, t = tt := by
  induction truths with
  | nil => simp [all]
  | cons t rest ih =>
    rw [List.forall_mem_cons, ← ih]
    exact and_eq_tt

theorem any_eq_tt : any truths = tt ↔ ∃ t ∈ truths, t = tt := by
  induction truths with
  | nil => simp [any]
  | cons t rest ih =>
    rw [List.exists_mem_cons_iff, ← ih]
    exact or_eq_tt

end Truth

end ThreeValued
