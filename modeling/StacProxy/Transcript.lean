import Mathlib.Algebra.BigOperators.Group.List.Basic
import Mathlib.Algebra.Order.Group.Defs

/-!
# Machines that answer

A machine reads inputs one after the other, and each input changes its state and is answered.
The rules below carry facts of one step to whole runs: an invariant, a potential that pays for
what the answers cost, and a simulation of one machine by another.
-/

namespace Transcript

universe u v w
variable {σ : Type u} {ι : Type v} {ο : Type w} (step : σ → ι → σ × ο)

def final (s : σ) (inputs : List ι) : σ :=
  inputs.foldl (fun state input => (step state input).1) s

def replies (s : σ) : List ι → List ο
  | [] => []
  | input :: rest => (step s input).2 :: replies (step s input).1 rest

@[simp] theorem final_nil (s : σ) : final step s [] = s := rfl

@[simp] theorem final_cons (s : σ) (input : ι) (rest : List ι) :
    final step s (input :: rest) = final step (step s input).1 rest := rfl

theorem final_append (s : σ) (first second : List ι) :
    final step s (first ++ second) = final step (final step s first) second :=
  List.foldl_append

variable {step}

/-- What every step keeps holds at the end of every run. -/
theorem invariant {Inv : σ → Prop} (kept : ∀ s input, Inv s → Inv (step s input).1) {s : σ}
    (start : Inv s) (inputs : List ι) : Inv (final step s inputs) := by
  induction inputs generalizing s with
  | nil => exact start
  | cons input rest ih => exact ih (kept s input start)

/-- A run costs no more than its potential drops, if every step does. -/
theorem cost_le {K : Type*} [AddCommGroup K] [PartialOrder K] [IsOrderedAddMonoid K]
    {Inv : σ → Prop} (kept : ∀ s input, Inv s → Inv (step s input).1)
    {cost : ο → K} {potential : σ → K}
    (paid : ∀ s input, Inv s →
      cost (step s input).2 + potential (step s input).1 ≤ potential s)
    {s : σ} (start : Inv s) (inputs : List ι) :
    ((replies step s inputs).map cost).sum + potential (final step s inputs) ≤ potential s := by
  induction inputs generalizing s with
  | nil => simp [replies]
  | cons input rest ih =>
    have later := ih (kept s input start)
    simp only [replies, List.map_cons, List.sum_cons, final_cons, add_assoc]
    exact le_trans (by gcongr) (paid s input start)

/-- Machines that answer alike, and go on answering alike, as long as a relation between them
holds. The relation may speak of the inputs that are still to come. -/
theorem replies_eq_of_simulation {τ : Type*} {step' : τ → ι → τ × ο} {Rel : σ → τ → List ι → Prop}
    (simulates : ∀ s t input rest, Rel s t (input :: rest) →
      (step s input).2 = (step' t input).2 ∧ Rel (step s input).1 (step' t input).1 rest)
    {s : σ} {t : τ} (inputs : List ι) (start : Rel s t inputs) :
    replies step s inputs = replies step' t inputs := by
  induction inputs generalizing s t with
  | nil => rfl
  | cons input rest ih =>
    obtain ⟨same, related⟩ := simulates s t input rest start
    rw [replies, replies, same, ih related]

end Transcript
