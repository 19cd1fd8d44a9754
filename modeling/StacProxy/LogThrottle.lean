import Mathlib.Algebra.BigOperators.Fin
import Mathlib.Algebra.Order.BigOperators.Group.Finset
import StacProxy.Interleaving

/-!
# Warnings at most once per interval

Calls of `Warn` share a deadline and a counter, and nothing else. A call that finds the deadline
passed sets the next one by a compare-and-swap and emits its line with the count of those that
were suppressed; any other call adds itself to the count. Each access to the deadline or to the
counter is one step, and the steps of the calls come in any order.

Both numbers have 64 bits. The clock may show anything.
-/

namespace LogThrottle

/-- The number of 64 bits that a sum comes to. -/
def wrap64 (x : Int) : Int := x.bmod (2 ^ 64)

theorem wrap64_eq {x : Int} (nonneg : 0 ≤ x) (fits : x < 2 ^ 63) : wrap64 x = x :=
  Int.bmod_eq_of_le (by omega) (by omega)

/-- The interval that `NewLogThrottle` keeps, in nanoseconds. -/
def newLogThrottle (interval : Int) : Int := if interval ≤ 0 then 30000000000 else interval

theorem newLogThrottle_pos (interval : Int) : 0 < newLogThrottle interval := by
  simp only [newLogThrottle]
  split <;> omega

/-- What the calls share, with the counts that the emitted lines carry. -/
structure Throttle where
  next : Int
  suppressed : Int
  lines : List Int
deriving DecidableEq

/-- A call of `Warn`: whether it has a logger, and what the clock shows to it. -/
structure Call where
  logger : Bool
  now : Int

/-- What a call is about to do, or how it has returned. -/
inductive Stage where
  | entered
  | timed
  | loaded (deadline : Int)
  | refused
  | claimed
  | counted (n : Int)
  | ignored
  | suppressed
  | emitted
deriving DecidableEq

variable {n : Nat}

section Source
variable (interval : Int) (calls : Fin n → Call)

/-- The next step of a call. The comparison with the deadline that was loaded reads nothing that
is shared, and the compare-and-swap is made only if it comes out so. -/
def warn (i : Fin n) (t : Throttle) : Stage → Throttle × Stage
  | .entered => if (calls i).logger then (t, .timed) else (t, .ignored)
  | .timed => (t, .loaded t.next)
  | .loaded deadline =>
    if (calls i).now < deadline then (t, .refused)
    else if t.next = deadline then
      ({ t with next := wrap64 ((calls i).now + interval) }, .claimed)
    else (t, .refused)
  | .refused => ({ t with suppressed := wrap64 (t.suppressed + 1) }, .suppressed)
  | .claimed => ({ t with suppressed := 0 }, .counted t.suppressed)
  | .counted count => ({ t with lines := t.lines ++ [count] }, .emitted)
  | stage => (t, stage)

abbrev State (n : Nat) := Interleaving.State (Fin n) Throttle Stage

def initial (n : Nat) : State n := ⟨⟨0, 0, []⟩, fun _ => .entered⟩

def run (schedule : List (Fin n)) : State n :=
  Interleaving.run (warn interval calls) (initial n) schedule

end Source

/-! ## What a step can be -/

/-- A call that has set the deadline: it emits a line, or has done so. -/
def Stage.emits : Stage → Bool
  | .claimed => true
  | .counted _ => true
  | .emitted => true
  | _ => false

/-- What a call has brought to the count, less what it has taken from it and not yet emitted. -/
def Stage.brought : Stage → Int
  | .suppressed => 1
  | .emitted => 1
  | .counted count => -count
  | _ => 0

/-- One for a call that has added itself to the counter. -/
def Stage.added : Stage → Int
  | .suppressed => 1
  | _ => 0

/-- A step of a call changes nothing that counts, or sets the deadline it has found to be passed,
or adds to the counter, or takes the counter, or emits. -/
theorem warn_cases (interval : Int) (calls : Fin n → Call) (i : Fin n) (t : Throttle)
    (stage : Stage) :
    (∃ later, warn interval calls i t stage = (t, later) ∧ later.emits = stage.emits ∧
      later.brought = stage.brought ∧ later.added = stage.added) ∨
    (stage = .loaded t.next ∧ t.next ≤ (calls i).now ∧ warn interval calls i t stage =
      ({ t with next := wrap64 ((calls i).now + interval) }, .claimed)) ∨
    (stage = .refused ∧ warn interval calls i t stage =
      ({ t with suppressed := wrap64 (t.suppressed + 1) }, .suppressed)) ∨
    (stage = .claimed ∧ warn interval calls i t stage =
      ({ t with suppressed := 0 }, .counted t.suppressed)) ∨
    ∃ count, stage = .counted count ∧ warn interval calls i t stage =
      ({ t with lines := t.lines ++ [count] }, .emitted) := by
  cases stage with
  | entered =>
    refine Or.inl ?_
    cases logged : (calls i).logger
    · exact ⟨.ignored, by simp [warn, logged], rfl, rfl, rfl⟩
    · exact ⟨.timed, by simp [warn, logged], rfl, rfl, rfl⟩
  | timed => exact Or.inl ⟨.loaded t.next, rfl, rfl, rfl, rfl⟩
  | loaded deadline =>
    by_cases early : (calls i).now < deadline
    · exact Or.inl ⟨.refused, by simp [warn, early], rfl, rfl, rfl⟩
    · by_cases unchanged : t.next = deadline
      · refine Or.inr (Or.inl ⟨by rw [unchanged], by omega, ?_⟩)
        simp only [warn, early, unchanged, if_false, if_true]
      · exact Or.inl ⟨.refused, by simp [warn, early, unchanged], rfl, rfl, rfl⟩
  | refused => exact Or.inr (Or.inr (Or.inl ⟨rfl, rfl⟩))
  | claimed => exact Or.inr (Or.inr (Or.inr (Or.inl ⟨rfl, rfl⟩)))
  | counted count => exact Or.inr (Or.inr (Or.inr (Or.inr ⟨count, rfl, rfl⟩)))
  | ignored => exact Or.inl ⟨.ignored, rfl, rfl, rfl, rfl⟩
  | suppressed => exact Or.inl ⟨.suppressed, rfl, rfl, rfl, rfl⟩
  | emitted => exact Or.inl ⟨.emitted, rfl, rfl, rfl, rfl⟩

/-! ## The count -/

/-- A call with a logger that has returned. -/
def Stage.returned : Stage → Bool
  | .suppressed => true
  | .emitted => true
  | _ => false

/-- No call is under way. -/
def Quiescent (s : State n) : Prop :=
  ∀ i, s.threads i = .entered ∨ s.threads i = .ignored ∨ (s.threads i).returned = true

instance (s : State n) : Decidable (Quiescent s) := Nat.decidableForallFin _

/-- The calls are as many as the lines, the counts on the lines and the pending count. -/
def Conserved (s : State n) : Prop :=
  ((Finset.univ.filter fun i => (s.threads i).returned = true).card : Int) =
    s.shared.lines.length + s.shared.lines.sum + s.shared.suppressed

open Finset in
structure Balanced (s : State n) : Prop where
  balance : ∑ i, (s.threads i).brought =
    s.shared.lines.length + s.shared.lines.sum + s.shared.suppressed
  nonneg : 0 ≤ s.shared.suppressed
  bounded : s.shared.suppressed ≤ ∑ i, (s.threads i).added

section Count
variable {interval : Int} {calls : Fin n → Call} {s : State n}

theorem balanced_initial (n : Nat) : Balanced (initial n) where
  balance := by simp [initial, Stage.brought]
  nonneg := le_rfl
  bounded := by simp [initial, Stage.added]

open Finset in
theorem sum_added_le (s : State n) : ∑ i, (s.threads i).added ≤ n := by
  have each : ∀ i ∈ univ, (s.threads i).added ≤ 1 := by
    intro i _
    cases s.threads i <;> simp [Stage.added]
  simpa using sum_le_card_nsmul univ _ 1 each

/-- A step keeps the balance if it brings to the count what it leaves in the shared numbers. -/
theorem Balanced.move (balanced : Balanced s) {i : Fin n} {t : Throttle} {stage : Stage}
    (moved : warn interval calls i s.shared (s.threads i) = (t, stage))
    (even : (t.lines.length + t.lines.sum + t.suppressed : Int) + (s.threads i).brought =
      s.shared.lines.length + s.shared.lines.sum + s.shared.suppressed + stage.brought)
    (nonneg : 0 ≤ t.suppressed)
    (within : t.suppressed + (s.threads i).added ≤ s.shared.suppressed + stage.added) :
    Balanced (Interleaving.step (warn interval calls) s i) := by
  have brought := Interleaving.sum_step (warn interval calls) Stage.brought s i
  have added := Interleaving.sum_step (warn interval calls) Stage.added s i
  have shared : (Interleaving.step (warn interval calls) s i).shared = t :=
    congrArg Prod.fst moved
  simp only [moved] at brought added
  obtain ⟨balance, -, bounded⟩ := balanced
  refine ⟨?_, ?_, ?_⟩ <;> rw [shared]
  · omega
  · exact nonneg
  · omega

theorem Balanced.step (few : n < 2 ^ 63) (balanced : Balanced s) (i : Fin n) :
    Balanced (Interleaving.step (warn interval calls) s i) := by
  have nonneg := balanced.nonneg
  have bounded := balanced.bounded
  rcases warn_cases interval calls i s.shared (s.threads i) with
    ⟨later, moved, -, same_brought, same_added⟩ | ⟨stage, -, moved⟩ | ⟨stage, moved⟩ |
    ⟨stage, moved⟩ | ⟨count, stage, moved⟩
  · exact balanced.move moved (by rw [same_brought]) nonneg (by rw [same_added])
  · refine balanced.move moved ?_ nonneg ?_ <;> simp [stage, Stage.brought, Stage.added]
  · -- The counter is below the number of calls, so that it does not overflow.
    have room : s.shared.suppressed + 1 < 2 ^ 63 := by
      have added := Interleaving.sum_step (warn interval calls) Stage.added s i
      have most := sum_added_le (Interleaving.step (warn interval calls) s i)
      rw [moved, stage] at added
      change _ + (0 : Int) = _ + 1 at added
      omega
    have counts : wrap64 (s.shared.suppressed + 1) = s.shared.suppressed + 1 :=
      wrap64_eq (by omega) room
    rw [counts] at moved
    refine balanced.move moved ?_ ?_ ?_
    · simp only [stage, Stage.brought]
      omega
    · simp only
      omega
    · simp [stage, Stage.added]
  · refine balanced.move moved ?_ le_rfl ?_
    · simp only [stage, Stage.brought]
      omega
    · simpa [stage, Stage.added] using nonneg
  · refine balanced.move moved ?_ nonneg ?_
    · simp only [stage, Stage.brought, List.length_append, List.length_singleton, List.sum_append,
        List.sum_singleton]
      omega
    · simp [stage, Stage.added]

open Finset in
/-- When no call is under way, what the calls have brought is their number. -/
theorem Balanced.conserved (balanced : Balanced s) (quiet : Quiescent s) : Conserved s := by
  have brought : ∀ i, (s.threads i).brought =
      if (s.threads i).returned = true then 1 else 0 := by
    intro i
    rcases quiet i with at_start | ignored | returned
    · rw [at_start]
      rfl
    · rw [ignored]
      rfl
    · cases stage : s.threads i <;> simp [stage, Stage.returned, Stage.brought] at returned ⊢
  rw [Conserved, ← balanced.balance, sum_congr rfl fun i _ => brought i]
  simp

end Count

/-! ## The distance between two lines -/

/-- The clock readings of the calls that emit are an interval apart. -/
def Spaced (interval : Int) (calls : Fin n → Call) (s : State n) : Prop :=
  ∀ i j, i ≠ j → (s.threads i).emits = true → (s.threads j).emits = true →
    interval ≤ |(calls i).now - (calls j).now|

instance (interval : Int) (calls : Fin n → Call) (s : State n) :
    Decidable (Spaced interval calls s) :=
  @Nat.decidableForallFin n _ fun _ => Nat.decidableForallFin _

/-- The deadline is never before the end of the interval of a call that emits. -/
structure Deadline (interval : Int) (calls : Fin n → Call) (s : State n) : Prop where
  nonneg : 0 ≤ s.shared.next
  passed : ∀ i, (s.threads i).emits = true → (calls i).now + interval ≤ s.shared.next
  spaced : Spaced interval calls s

section Distance
variable {interval : Int} {calls : Fin n → Call} {s : State n}

theorem deadline_initial : Deadline interval calls (initial n) where
  nonneg := le_rfl
  passed i emits := by cases emits
  spaced i j _ emits := by cases emits

/-- A step that leaves the deadline as it is and does not make a call emit. -/
theorem Deadline.move (deadline : Deadline interval calls s) {i : Fin n} {t : Throttle}
    {stage : Stage} (moved : warn interval calls i s.shared (s.threads i) = (t, stage))
    (same_next : t.next = s.shared.next) (same : stage.emits = (s.threads i).emits) :
    Deadline interval calls (Interleaving.step (warn interval calls) s i) := by
  have shared : (Interleaving.step (warn interval calls) s i).shared = t :=
    congrArg Prod.fst moved
  have emits : ∀ j, ((Interleaving.step (warn interval calls) s i).threads j).emits =
      (s.threads j).emits := by
    intro j
    by_cases self : j = i
    · rw [self, Interleaving.step_threads_self, moved, same]
    · rw [Interleaving.step_threads_of_ne _ _ self]
  refine ⟨?_, ?_, ?_⟩
  · rw [shared, same_next]
    exact deadline.nonneg
  · intro j
    rw [emits, shared, same_next]
    exact deadline.passed j
  · intro j k
    rw [emits, emits]
    exact deadline.spaced j k

/-- A call that sets the deadline comes after the interval of every call that has set it
before. -/
theorem Deadline.claim (pos : 0 < interval) (deadline : Deadline interval calls s) {i : Fin n}
    (fits : (calls i).now + interval < 2 ^ 63) (passed : s.shared.next ≤ (calls i).now)
    (moved : warn interval calls i s.shared (s.threads i) =
      ({ s.shared with next := wrap64 ((calls i).now + interval) }, .claimed)) :
    Deadline interval calls (Interleaving.step (warn interval calls) s i) := by
  have nonneg := deadline.nonneg
  have next_eq : (Interleaving.step (warn interval calls) s i).shared.next =
      (calls i).now + interval := by
    rw [← wrap64_eq (by omega) fits]
    exact congrArg (fun moved => moved.1.next) moved
  have emits : ∀ j, j ≠ i → ((Interleaving.step (warn interval calls) s i).threads j).emits =
      (s.threads j).emits := by
    intro j other
    rw [Interleaving.step_threads_of_ne _ _ other]
  have behind : ∀ j, j ≠ i →
      ((Interleaving.step (warn interval calls) s i).threads j).emits = true →
      (calls j).now + interval ≤ (calls i).now := by
    intro j other emits_j
    rw [emits j other] at emits_j
    exact (deadline.passed j emits_j).trans passed
  refine ⟨?_, ?_, ?_⟩
  · rw [next_eq]
    omega
  · intro j emits_j
    rw [next_eq]
    by_cases self : j = i
    · rw [self]
    · have before := behind j self emits_j
      omega
  · intro j k apart emits_j emits_k
    by_cases first : j = i
    · have before := behind k (fun same => apart (first.trans same.symm)) emits_k
      rw [first, le_abs]
      omega
    · by_cases second : k = i
      · have before := behind j first emits_j
        rw [second, le_abs]
        omega
      · rw [emits j first] at emits_j
        rw [emits k second] at emits_k
        exact deadline.spaced j k apart emits_j emits_k

theorem Deadline.step (pos : 0 < interval) (deadline : Deadline interval calls s) {i : Fin n}
    (fits : (calls i).now + interval < 2 ^ 63) :
    Deadline interval calls (Interleaving.step (warn interval calls) s i) := by
  rcases warn_cases interval calls i s.shared (s.threads i) with
    ⟨later, moved, same, -, -⟩ | ⟨-, passed, moved⟩ | ⟨stage, moved⟩ | ⟨stage, moved⟩ |
    ⟨count, stage, moved⟩
  · exact deadline.move moved rfl same
  · exact deadline.claim pos fits passed moved
  · exact deadline.move moved rfl (by rw [stage]; rfl)
  · exact deadline.move moved rfl (by rw [stage]; rfl)
  · exact deadline.move moved rfl (by rw [stage]; rfl)

end Distance

/-- For any number of calls and any order of their steps: no count is lost, as long as the counter
can hold the number of calls; and the lines are an interval apart, as long as no clock reading
comes so late that the deadline after it does not fit in 64 bits. -/
theorem throttle_safe (interval : Int) (calls : Fin n → Call) (schedule : List (Fin n)) :
    (n < 2 ^ 63 → Quiescent (run (newLogThrottle interval) calls schedule) →
      Conserved (run (newLogThrottle interval) calls schedule)) ∧
    ((∀ i ∈ schedule, (calls i).now + newLogThrottle interval < 2 ^ 63) →
      Spaced (newLogThrottle interval) calls (run (newLogThrottle interval) calls schedule)) := by
  constructor
  · intro few
    have balanced : Balanced (run (newLogThrottle interval) calls schedule) :=
      Interleaving.run_invariant _ (fun _ i _ balanced => balanced.step few i)
        (balanced_initial n)
    exact balanced.conserved
  · intro fits
    have deadline : Deadline (newLogThrottle interval) calls
        (run (newLogThrottle interval) calls schedule) :=
      Interleaving.run_invariant _
        (fun _ i scheduled deadline =>
          deadline.step (newLogThrottle_pos interval) (fits i scheduled)) deadline_initial
    exact deadline.spaced

section Samples

/-- Two calls within a second, and one forty seconds later. -/
def threeCalls (i : Fin 3) : Call :=
  if i = 0 then ⟨true, 10000000000⟩ else if i = 1 then ⟨true, 11000000000⟩
  else ⟨true, 50000000000⟩

/-- The first two calls load the same deadline, and one of them is refused after the other has
taken the count. -/
def contended : List (Fin 3) := [0, 1, 0, 1, 0, 1, 0, 1, 0, 2, 2, 2, 2, 2]

theorem contended_calls_counted :
    Quiescent (run (newLogThrottle 0) threeCalls contended) ∧
    (run (newLogThrottle 0) threeCalls contended).shared.lines = [0, 1] ∧
    Conserved (run (newLogThrottle 0) threeCalls contended) ∧
    Spaced (newLogThrottle 0) threeCalls (run (newLogThrottle 0) threeCalls contended) := by
  have quiet : Quiescent (run (newLogThrottle 0) threeCalls contended) := by decide +kernel
  obtain ⟨counted, spaced⟩ := throttle_safe 0 threeCalls contended
  exact ⟨quiet, by decide +kernel, counted (by decide) quiet, spaced (by decide +kernel)⟩

/-- Two calls that are a second apart. -/
def twoCalls (i : Fin 2) : Call :=
  if i = 0 then ⟨true, 1700000000000000000⟩ else ⟨true, 1700000001000000000⟩

/-- With the longest interval there is, the deadline overflows and is in the past, so that every
call emits. -/
theorem longest_interval_emits_twice :
    let s := run (newLogThrottle 9223372036854775807) twoCalls [0, 0, 0, 0, 0, 1, 1, 1, 1, 1]
    s.threads 0 = .emitted ∧ s.threads 1 = .emitted ∧ s.shared.next < 0 ∧
      (twoCalls 1).now - (twoCalls 0).now = 1000000000 ∧
      ¬ Spaced (newLogThrottle 9223372036854775807) twoCalls s := by
  decide +kernel

end Samples

end LogThrottle
