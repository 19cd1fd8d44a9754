import Mathlib.Algebra.BigOperators.Group.Finset.Basic
import Mathlib.Data.Fintype.Basic
import Mathlib.Logic.Relation
import Mathlib.Logic.Function.Basic
import Mathlib.Data.List.Basic

/-!
# Interleaved threads over shared state

Threads with a local state each act on a state they share, one step at a time, in the
order of a schedule. A thread that has nothing left to do repeats its state.
-/

namespace Interleaving

universe u v w
variable {ι : Type u} {σ : Type v} {τ : Type w} [DecidableEq ι]

structure State (ι : Type u) (σ : Type v) (τ : Type w) where
  shared : σ
  threads : ι → τ

variable (act : ι → σ → τ → σ × τ)

def step (s : State ι σ τ) (i : ι) : State ι σ τ where
  shared := (act i s.shared (s.threads i)).1
  threads := Function.update s.threads i (act i s.shared (s.threads i)).2

def run (s : State ι σ τ) (schedule : List ι) : State ι σ τ :=
  schedule.foldl (step act) s

theorem run_append (s : State ι σ τ) (first second : List ι) :
    run act s (first ++ second) = run act (run act s first) second :=
  List.foldl_append

/-- An invariant of every step of the scheduled threads holds at the end of the run. -/
theorem run_invariant {Inv : State ι σ τ → Prop} {s : State ι σ τ} {schedule : List ι}
    (kept : ∀ t, ∀ i ∈ schedule, Inv t → Inv (step act t i)) (start : Inv s) :
    Inv (run act s schedule) := by
  induction schedule generalizing s with
  | nil => exact start
  | cons i rest ih =>
    apply ih
    · intro t j member
      exact kept t j (List.mem_cons_of_mem i member)
    · exact kept s i List.mem_cons_self start

theorem step_threads_self (s : State ι σ τ) (i : ι) :
    (step act s i).threads i = (act i s.shared (s.threads i)).2 :=
  Function.update_self i _ s.threads

theorem step_threads_of_ne (s : State ι σ τ) {i j : ι} (other : j ≠ i) :
    (step act s i).threads j = s.threads j :=
  Function.update_of_ne other _ s.threads

open Finset in
/-- A step changes a sum over the threads by what it makes of the thread that acts. -/
theorem sum_step [Fintype ι] {M : Type*} [AddCommMonoid M] (weight : τ → M) (s : State ι σ τ)
    (i : ι) :
    ∑ j, weight ((step act s i).threads j) + weight (s.threads i) =
      ∑ j, weight (s.threads j) + weight (act i s.shared (s.threads i)).2 := by
  have others : ∑ j ∈ univ.erase i, weight ((step act s i).threads j) =
      ∑ j ∈ univ.erase i, weight (s.threads j) := by
    refine sum_congr rfl fun j other => ?_
    rw [step_threads_of_ne act s (ne_of_mem_erase other)]
  rw [← add_sum_erase univ _ (mem_univ i), others, ← add_sum_erase univ _ (mem_univ i),
    step_threads_self]
  ac_rfl

/-- What a thread can turn the shared state and its own into while no other thread acts. -/
def Alone (i : ι) : σ × τ → σ × τ → Prop :=
  Relation.ReflTransGen fun before after => act i before.1 before.2 = after

variable {act}

omit [DecidableEq ι] in
theorem Alone.head {i : ι} {a b c : σ × τ} (first : act i a.1 a.2 = b) (rest : Alone act i b c) :
    Alone act i a c :=
  Relation.ReflTransGen.head first rest

omit [DecidableEq ι] in
theorem Alone.trans {i : ι} {a b c : σ × τ} (first : Alone act i a b) (rest : Alone act i b c) :
    Alone act i a c :=
  Relation.ReflTransGen.trans first rest

/-- A thread that is scheduled alone leaves the other threads where they are. -/
theorem exists_run_of_alone {i : ι} {s : State ι σ τ} {x : σ} {t : τ}
    (alone : Alone act i (s.shared, s.threads i) (x, t)) :
    ∃ schedule : List ι, (∀ j ∈ schedule, j = i) ∧
      run act s schedule = ⟨x, Function.update s.threads i t⟩ := by
  generalize reached : (x, t) = after at alone
  induction alone generalizing x t with
  | refl =>
    cases reached
    refine ⟨[], by simp, ?_⟩
    rw [Function.update_eq_self]
    rfl
  | @tail middle after _ last ih =>
    obtain ⟨schedule, only, ran⟩ := ih rfl
    refine ⟨schedule ++ [i], ?_, ?_⟩
    · intro j member
      rcases List.mem_append.mp member with early | late
      · exact only j early
      · exact List.mem_singleton.mp late
    · rw [run_append, ran]
      simp [run, step, last, ← reached]

end Interleaving
