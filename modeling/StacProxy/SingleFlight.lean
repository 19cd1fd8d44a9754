import Mathlib.Logic.Function.Basic

/-!
# Flights that are shared

Participants that want the same work done share it. The first one to come launches a flight and
does the work, those that come while it is under way wait for it, and all of them leave with its
result. The work is a job that is done in steps on a state of its own.
-/

namespace SingleFlight

universe u v w x
variable {ι : Type u} {κ : Type v} {ρ : Type w} {σ : Type x}

structure Flight (ι : Type u) where
  number : Nat
  leader : ι
deriving DecidableEq

/-- The flight under way, how many have been launched, and the results of those that are over. -/
structure Group (ι : Type u) (ρ : Type w) where
  current : Option (Flight ι)
  launched : Nat
  results : Nat → Option ρ

def Group.empty : Group ι ρ := ⟨none, 0, fun _ => none⟩

/-- Where a participant is. -/
inductive Ride (κ : Type v) (ρ : Type w) where
  | entering
  | working (flight : Nat) (job : κ)
  | landing (flight : Nat) (result : ρ)
  | waiting (flight : Nat)
deriving DecidableEq

/-- The flight that a participant leads. -/
def Ride.leads : Ride κ ρ → Option Nat
  | .working f _ => some f
  | .landing f _ => some f
  | _ => none

/-- A step of participant `i`, who goes on with the ride or leaves with the result. -/
def Ride.step (first : κ) (work : σ → κ → σ × (κ ⊕ ρ)) (i : ι) (g : Group ι ρ) (s : σ) :
    Ride κ ρ → Group ι ρ × σ × (Ride κ ρ ⊕ ρ)
  | .entering => match g.current with
    | some flight => (g, s, .inl (.waiting flight.number))
    | none =>
      ({ g with current := some ⟨g.launched, i⟩, launched := g.launched + 1 }, s,
        .inl (.working g.launched first))
  | .working f job => match work s job with
    | (s, .inl job) => (g, s, .inl (.working f job))
    | (s, .inr result) => (g, s, .inl (.landing f result))
  | .landing f result =>
    ({ g with current := none, results := Function.update g.results f (some result) }, s,
      .inr result)
  | .waiting f => match g.results f with
    | none => (g, s, .inl (.waiting f))
    | some result => (g, s, .inr result)

/-- The flight under way is led by the one participant that the group names, and is not over. Those
who wait do so for it or for one that is over. -/
structure Orderly (g : Group ι ρ) (rides : ι → Option (Ride κ ρ)) : Prop where
  leads_iff : ∀ i f, (rides i).bind Ride.leads = some f ↔ g.current = some ⟨f, i⟩
  current_lt : ∀ flight, g.current = some flight → flight.number < g.launched
  results_lt : ∀ f, (g.results f).isSome → f < g.launched
  open_current : ∀ flight, g.current = some flight → g.results flight.number = none
  awaited : ∀ i f, rides i = some (.waiting f) →
    (∃ leader, g.current = some ⟨f, leader⟩) ∨ (g.results f).isSome

theorem orderly_empty : Orderly (Group.empty : Group ι ρ) (fun _ => (none : Option (Ride κ ρ))) where
  leads_iff := by simp [Group.empty]
  current_lt := by simp [Group.empty]
  results_lt := by simp [Group.empty]
  open_current := by simp [Group.empty]
  awaited := by simp

section
variable {g : Group ι ρ} {rides : ι → Option (Ride κ ρ)} {i j : ι} {r q : Ride κ ρ} {f h : Nat}

theorem Orderly.current (tidy : Orderly g rides) (at_i : rides i = some r)
    (leads : r.leads = some f) : g.current = some ⟨f, i⟩ :=
  (tidy.leads_iff i f).mp (by rw [at_i]; exact leads)

/-- While one participant leads, no other does. -/
theorem Orderly.eq_of_leads (tidy : Orderly g rides) (at_i : rides i = some r)
    (leads : r.leads = some f) (at_j : rides j = some q) (also : q.leads = some h) : j = i := by
  have same := (tidy.current at_j also).symm.trans (tidy.current at_i leads)
  simp only [Option.some.injEq, Flight.mk.injEq] at same
  exact same.2

/-- Participants change place, but none begins or ends to lead. -/
theorem Orderly.rearrange (tidy : Orderly g rides) {rides' : ι → Option (Ride κ ρ)}
    (same : ∀ i, (rides' i).bind Ride.leads = (rides i).bind Ride.leads)
    (awaited : ∀ i f, rides' i = some (.waiting f) →
      (∃ leader, g.current = some ⟨f, leader⟩) ∨ (g.results f).isSome) : Orderly g rides' where
  leads_iff i f := by
    rw [same]
    exact tidy.leads_iff i f
  current_lt := tidy.current_lt
  results_lt := tidy.results_lt
  open_current := tidy.open_current
  awaited := awaited

variable [DecidableEq ι]

/-- A participant that changes place without beginning or ending to lead. -/
theorem Orderly.update (tidy : Orderly g rides) {place : Option (Ride κ ρ)}
    (same : place.bind Ride.leads = (rides i).bind Ride.leads)
    (awaited : ∀ f, place = some (.waiting f) →
      (∃ leader, g.current = some ⟨f, leader⟩) ∨ (g.results f).isSome) :
    Orderly g (Function.update rides i place) := by
  refine tidy.rearrange (fun j => ?_) fun j f waits => ?_
  · by_cases eq : j = i
    · rw [eq, Function.update_self, same]
    · rw [Function.update_of_ne eq]
  · by_cases eq : j = i
    · rw [eq, Function.update_self] at waits
      exact awaited f waits
    · rw [Function.update_of_ne eq] at waits
      exact tidy.awaited j f waits

theorem Orderly.launch (tidy : Orderly g rides) (free : g.current = none) (first : κ) :
    Orderly { g with current := some ⟨g.launched, i⟩, launched := g.launched + 1 }
      (Function.update rides i (some (.working g.launched first))) where
  leads_iff := by
    intro j f
    by_cases eq : j = i
    · simp [eq, Ride.leads]
    · have idle := tidy.leads_iff j f
      rw [free] at idle
      simp [Function.update_of_ne eq, idle, Ne.symm eq]
  current_lt := by simp
  results_lt := fun f ended => Nat.lt_succ_of_lt (tidy.results_lt f ended)
  open_current := by
    rintro flight ⟨⟩
    refine Option.not_isSome_iff_eq_none.mp fun ended => ?_
    exact Nat.lt_irrefl _ (tidy.results_lt _ ended)
  awaited := by
    intro j f waits
    by_cases eq : j = i
    · simp [eq] at waits
    · rw [Function.update_of_ne eq] at waits
      obtain ⟨leader, current⟩ | ended := tidy.awaited j f waits
      · rw [free] at current
        cases current
      · exact .inr ended

theorem Orderly.land (tidy : Orderly g rides) (at_i : rides i = some r)
    (leads : r.leads = some f) (result : ρ) :
    Orderly { g with current := none, results := Function.update g.results f (some result) }
      (Function.update rides i none) where
  leads_iff := by
    intro j h
    by_cases eq : j = i
    · simp [eq]
    · -- Another participant that leads would be the leader who lands.
      have idle : (rides j).bind Ride.leads ≠ some h := fun also => by
        obtain ⟨q, at_j, q_leads⟩ := Option.bind_eq_some_iff.mp also
        exact eq (tidy.eq_of_leads at_i leads at_j q_leads)
      simp [Function.update_of_ne eq, idle]
  current_lt := by simp
  results_lt := by
    intro h ended
    by_cases eq : h = f
    · rw [eq]
      exact tidy.current_lt _ (tidy.current at_i leads)
    · have earlier : (g.results h).isSome := by simpa [Function.update_of_ne eq] using ended
      exact tidy.results_lt h earlier
  open_current := by simp
  awaited := by
    intro j h waits
    by_cases here : h = f
    · exact .inr (by simp [here])
    · by_cases eq : j = i
      · simp [eq] at waits
      · rw [Function.update_of_ne eq] at waits
        obtain ⟨leader, current⟩ | ended := tidy.awaited j h waits
        · rw [tidy.current at_i leads] at current
          cases current
          exact absurd rfl here
        · exact .inr (by simpa [Function.update_of_ne here] using ended)

variable (first : κ) (work : σ → κ → σ × (κ ⊕ ρ)) (s : σ)

/-- Whatever the work is, every step of a participant keeps the group in order. -/
theorem Orderly.step (tidy : Orderly g rides) (at_i : rides i = some r) :
    Orderly (r.step first work i g s).1
      (Function.update rides i (r.step first work i g s).2.2.getLeft?) := by
  have keeps : ∀ place : Option (Ride κ ρ), place.bind Ride.leads = r.leads →
      (∀ f, place = some (.waiting f) →
        (∃ leader, g.current = some ⟨f, leader⟩) ∨ (g.results f).isSome) →
      Orderly g (Function.update rides i place) := fun place same =>
    tidy.update (by rw [same, at_i]; rfl)
  cases r with
  | entering =>
    cases free : g.current with
    | none => simpa [Ride.step, free] using tidy.launch free first
    | some flight =>
      have joins := keeps (some (.waiting flight.number)) rfl <| by
        rintro f ⟨⟩
        exact .inl ⟨flight.leader, free⟩
      simpa [Ride.step, free] using joins
  | working f job =>
    rcases done : work s job with ⟨s', job' | result⟩
    · simpa [Ride.step, done] using keeps (some (.working f job')) rfl nofun
    · simpa [Ride.step, done] using keeps (some (.landing f result)) rfl nofun
  | landing f result => exact tidy.land at_i rfl result
  | waiting f =>
    cases ended : g.results f with
    | none => simpa [Ride.step, ended] using keeps (some (.waiting f)) rfl fun h waits =>
        tidy.awaited i h (at_i.trans waits)
    | some result => simpa [Ride.step, ended] using keeps none rfl nofun

end

end SingleFlight
