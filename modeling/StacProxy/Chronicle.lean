import Mathlib.Data.List.Basic

/-!
# Notes along a run

A system moves from state to state by events. Notes are taken of each move and have no
influence on it; they say in a state what has happened before.
-/

namespace Chronicle

universe u v w
variable {σ : Type u} {ε : Type v} {γ : Type w}

/-- A state with the notes so far. -/
structure Noted (σ : Type u) (γ : Type w) where
  state : σ
  notes : γ

variable (step : σ → ε → σ) (note : σ → ε → γ → γ)

def advance (s : Noted σ γ) (e : ε) : Noted σ γ := ⟨step s.state e, note s.state e s.notes⟩

def follow (s : Noted σ γ) (events : List ε) : Noted σ γ := events.foldl (advance step note) s

/-- Every move of a run is one that is allowed where it is made. -/
def Meets (allowed : Noted σ γ → ε → Prop) : Noted σ γ → List ε → Prop
  | _, [] => True
  | s, e :: rest => allowed s e ∧ Meets allowed (advance step note s e) rest

instance instDecidableMeets (allowed : Noted σ γ → ε → Prop)
    [decide_allowed : ∀ s e, Decidable (allowed s e)] :
    ∀ s events, Decidable (Meets step note allowed s events)
  | _, [] => .isTrue trivial
  | s, e :: rest =>
    @instDecidableAnd _ _ (decide_allowed s e)
      (instDecidableMeets allowed (advance step note s e) rest)

variable {step note} {s : Noted σ γ}

/-- An invariant of the allowed moves holds after every run that makes no others. -/
theorem follow_invariant {Inv : Noted σ γ → Prop} {allowed : Noted σ γ → ε → Prop}
    (start : Inv s) (kept : ∀ s e, Inv s → allowed s e → Inv (advance step note s e))
    {events : List ε} (meets : Meets step note allowed s events) :
    Inv (follow step note s events) := by
  induction events generalizing s with
  | nil => exact start
  | cons e rest ih => exact ih (kept s e start meets.1) meets.2

theorem meets_true (s : Noted σ γ) (events : List ε) :
    Meets step note (fun _ _ => True) s events := by
  induction events generalizing s with
  | nil => trivial
  | cons e rest ih => exact ⟨trivial, ih _⟩

/-- What holds at the end of a run and not at its start has come about by one of its moves. -/
theorem exists_turn {P : Noted σ γ → Prop} {events : List ε} (before : ¬ P s)
    (after : P (follow step note s events)) :
    ∃ front e back, events = front ++ e :: back ∧ ¬ P (follow step note s front) ∧
      P (advance step note (follow step note s front) e) := by
  induction events generalizing s with
  | nil => exact absurd after before
  | cons e rest ih =>
    by_cases now : P (advance step note s e)
    · exact ⟨[], e, rest, rfl, before, now⟩
    · obtain ⟨front, later, back, rfl, not_yet, turned⟩ := ih now after
      exact ⟨e :: front, later, back, rfl, not_yet, turned⟩

end Chronicle
