import Mathlib.Data.List.Basic
import Mathlib.Data.List.Count
import StacProxy.Transcript

/-!
# The circuit breaker of an origin

`tryAdmit`, the `admit` of the source, lets a request pass or not, and `record` judges its
outcome. The lock makes each of them one step, but a request admitted in one state of the
breaker is recorded in another. The requests under way are kept beside the breaker, as the
generation each was admitted under, and so is a log of what counted as an outcome and of every
opening.

Counters do not wrap around here; the open period is shifted as a 64-bit number.
-/

namespace CircuitBreaker

/-- Durations are in nanoseconds. -/
structure BreakerConfig where
  failureThreshold : Int
  openBase : Int
  openMax : Int
  halfOpenProbes : Int

/-- A configuration with its defaults filled in. -/
structure Settings where
  failureThreshold : Int
  openBase : Int
  openMax : Int
  halfOpenProbes : Int
  failureThreshold_pos : 0 < failureThreshold
  openBase_pos : 0 < openBase
  openBase_le_openMax : openBase ≤ openMax
  halfOpenProbes_pos : 0 < halfOpenProbes

def orDefault (value default : Int) : Int := if value ≤ 0 then default else value

theorem orDefault_pos {value default : Int} (pos : 0 < default) : 0 < orDefault value default := by
  unfold orDefault
  split <;> omega

def atLeast (value least : Int) : Int := if value < least then least else value

theorem le_atLeast (value least : Int) : least ≤ atLeast value least := by
  unfold atLeast
  split <;> omega

def BreakerConfig.withDefaults (c : BreakerConfig) : Settings where
  failureThreshold := orDefault c.failureThreshold 5
  openBase := orDefault c.openBase 10000000000
  openMax := atLeast (orDefault c.openMax 120000000000) (orDefault c.openBase 10000000000)
  halfOpenProbes := orDefault c.halfOpenProbes 1
  failureThreshold_pos := orDefault_pos (Int.natCast_pos.mpr (Nat.succ_pos 4))
  openBase_pos := orDefault_pos (Int.natCast_pos.mpr (Nat.succ_pos 9999999999))
  openBase_le_openMax := le_atLeast _ _
  halfOpenProbes_pos := orDefault_pos Int.one_pos

inductive BreakerState where
  | stateClosed
  | stateOpen
  | stateHalfOpen
deriving DecidableEq

structure Breaker where
  state : BreakerState
  consecFails : Nat
  reopens : Nat
  openUntil : Int
  probes : Nat
  gen : Nat
deriving DecidableEq

def initial : Breaker := ⟨.stateClosed, 0, 0, 0, 0, 0⟩

inductive TransportError where
  | canceled
  | other
deriving DecidableEq

/-- What the inner transport returned: the status of its response, if any, and its error. -/
structure Outcome where
  status : Option Int
  err : Option TransportError
deriving DecidableEq

def Outcome.failure (outcome : Outcome) : Bool :=
  outcome.err.isSome || outcome.status.any fun code => 500 ≤ code

/-- A delay between half of `d` and `d`, as the random number falls. -/
def fullJitter (d : Int) (draw : Nat) : Int :=
  if d ≤ 0 then d else d / 2 + draw % (d / 2 + 1)

section Source
variable (cfg : Settings)

/-- The shift is that of a 64-bit number and may overflow. -/
def openPeriod (reopens : Nat) : Int :=
  let period := (BitVec.ofInt 64 cfg.openBase <<< reopens).toInt
  if cfg.openMax < period ∨ period ≤ 0 then cfg.openMax else period

def openCircuit (b : Breaker) (now : Int) (draw : Nat) : Breaker :=
  { b with
    state := .stateOpen
    openUntil := now + fullJitter (openPeriod cfg b.reopens) draw
    consecFails := 0
    probes := 0
    gen := b.gen + 1 }

def errCircuitOpen (name : String) : String := "origin " ++ name ++ ": circuit breaker open"

def tryAdmit (name : String) (b : Breaker) (now : Int) : Breaker × Except String Nat :=
  match b.state with
  | .stateClosed => (b, .ok b.gen)
  | .stateOpen =>
    if now < b.openUntil then (b, .error (errCircuitOpen name))
    else ({ b with state := .stateHalfOpen, probes := 1 }, .ok b.gen)
  | .stateHalfOpen =>
    if cfg.halfOpenProbes ≤ b.probes then (b, .error (errCircuitOpen name))
    else ({ b with probes := b.probes + 1 }, .ok b.gen)

def recordFailure (b : Breaker) (now : Int) (draw : Nat) : Breaker :=
  match b.state with
  | .stateClosed =>
    let fails := b.consecFails + 1
    if cfg.failureThreshold ≤ fails then
      openCircuit cfg { b with consecFails := fails, reopens := 0 } now draw
    else { b with consecFails := fails }
  | .stateHalfOpen => openCircuit cfg { b with reopens := b.reopens + 1 } now draw
  | .stateOpen => b

def recordSuccess (b : Breaker) : Breaker :=
  { b with state := .stateClosed, consecFails := 0, reopens := 0, probes := 0 }

/-- A cancelled request gives back its probe and says nothing of the origin. -/
def recordCanceled (b : Breaker) : Breaker :=
  if b.state = .stateHalfOpen ∧ 0 < b.probes then { b with probes := b.probes - 1 } else b

def record (b : Breaker) (now : Int) (draw gen : Nat) (outcome : Outcome) : Breaker :=
  if gen ≠ b.gen then b
  else if outcome.err = some .canceled then recordCanceled b
  else if outcome.failure then recordFailure cfg b now draw
  else recordSuccess b

end Source

/-- A cancelled request changes the number of probes at most. -/
theorem recordCanceled_eq (b : Breaker) :
    recordCanceled b = { b with probes := (recordCanceled b).probes } := by
  simp only [recordCanceled]
  split <;> rfl

theorem openPeriod_bounds (cfg : Settings) (reopens : Nat) :
    0 < openPeriod cfg reopens ∧ openPeriod cfg reopens ≤ cfg.openMax := by
  have base_pos := cfg.openBase_pos
  have base_le := cfg.openBase_le_openMax
  simp only [openPeriod]
  split <;> omega

theorem fullJitter_bounds {d : Int} (pos : 0 < d) (draw : Nat) :
    d / 2 ≤ fullJitter d draw ∧ fullJitter d draw ≤ d := by
  have nonneg := Int.emod_nonneg (draw : Int) (show d / 2 + 1 ≠ 0 by omega)
  have below := Int.emod_lt_of_pos (draw : Int) (show 0 < d / 2 + 1 by omega)
  simp only [fullJitter, not_le.mpr pos, if_false]
  omega

/-! ## Requests under way -/

inductive Note where
  | failure
  | success
  | opening
deriving DecidableEq

/-- Failures since the last success or the last opening. -/
def failuresSince (log : List Note) : Nat :=
  (log.reverse.takeWhile fun note => note = .failure).length

/-- How a recorded outcome counts for a breaker: not at all if its generation is gone or it was
cancelled. -/
def verdict (b : Breaker) (gen : Nat) (outcome : Outcome) : Option Note :=
  if gen ≠ b.gen ∨ outcome.err = some .canceled then none
  else if outcome.failure then some .failure else some .success

structure World where
  breaker : Breaker
  now : Int
  inFlight : List Nat
  log : List Note

/-- The random number of a record is used if the record opens the circuit. -/
inductive Event where
  | tryAdmit
  | record (gen : Nat) (outcome : Outcome) (draw : Nat)
  | advance (elapsed : Nat)

/-- What an event adds to the log, an opening apart. -/
def World.notes (w : World) : Event → List Note
  | .record gen outcome _ => if gen ∈ w.inFlight then (verdict w.breaker gen outcome).toList else []
  | _ => []

def World.opening (before after : Breaker) : List Note :=
  if before.state ≠ .stateOpen ∧ after.state = .stateOpen then [.opening] else []

/-- The world once a request of a generation has been recorded. -/
def World.settle (w : World) (gen : Nat) (after : Breaker) (notes : List Note) : World :=
  { w with
    breaker := after
    inFlight := w.inFlight.erase gen
    log := w.log ++ notes ++ World.opening w.breaker after }

section System
variable (cfg : Settings) (name : String)

/-- Only a request under way is recorded, and once. -/
def World.step (w : World) : Event → World × Option (Except String Nat)
  | .tryAdmit =>
    let (b, answer) := tryAdmit cfg name w.breaker w.now
    let admitted := match answer with
      | .ok gen => [gen]
      | .error _ => []
    ({ w with breaker := b, inFlight := admitted ++ w.inFlight }, some answer)
  | .record gen outcome draw =>
    if gen ∈ w.inFlight then
      (w.settle gen (record cfg w.breaker w.now draw gen outcome)
        (w.notes (.record gen outcome draw)), none)
    else (w, none)
  | .advance elapsed => ({ w with now := w.now + elapsed }, none)

def reached (start : Int) (events : List Event) : World :=
  Transcript.final (World.step cfg name) ⟨initial, start, [], []⟩ events

end System

section Notes

@[simp] theorem failuresSince_failure (log : List Note) :
    failuresSince (log ++ [.failure]) = failuresSince log + 1 := by
  simp [failuresSince]

@[simp] theorem failuresSince_success (log : List Note) :
    failuresSince (log ++ [.success]) = 0 := by
  simp [failuresSince]

@[simp] theorem failuresSince_opening (log : List Note) :
    failuresSince (log ++ [.opening]) = 0 := by
  simp [failuresSince]

/-- What a record can do to a breaker, with how it counts. -/
theorem record_cases (cfg : Settings) (b : Breaker) (now : Int) (draw gen : Nat)
    (outcome : Outcome) :
    (gen ≠ b.gen ∧ verdict b gen outcome = none ∧ record cfg b now draw gen outcome = b) ∨
    (gen = b.gen ∧ verdict b gen outcome = none ∧
      record cfg b now draw gen outcome = recordCanceled b) ∨
    (gen = b.gen ∧ verdict b gen outcome = some .failure ∧
      record cfg b now draw gen outcome = recordFailure cfg b now draw) ∨
    (gen = b.gen ∧ verdict b gen outcome = some .success ∧
      record cfg b now draw gen outcome = recordSuccess b) := by
  by_cases stale : gen = b.gen
  · by_cases canceled : outcome.err = some .canceled
    · simp [record, verdict, stale, canceled]
    · cases failed : outcome.failure <;> simp [record, verdict, stale, canceled, failed]
  · simp [record, verdict, stale]

end Notes

/-! ## Every interleaving -/

/-- What holds of the breaker and of the requests under way in every state a run reaches. -/
structure Sound (cfg : Settings) (w : World) : Prop where
  known : ∀ gen ∈ w.inFlight, gen ≤ w.breaker.gen
  opened : w.breaker.state = .stateOpen → w.breaker.gen ∉ w.inFlight
  probing : w.breaker.state = .stateHalfOpen →
    w.breaker.probes = w.inFlight.count w.breaker.gen ∧ w.breaker.probes ≤ cfg.halfOpenProbes
  counted : w.breaker.state = .stateClosed →
    w.breaker.consecFails = failuresSince w.log ∧ w.breaker.consecFails < cfg.failureThreshold
  cleared : w.breaker.state ≠ .stateClosed → failuresSince w.log = 0

section Runs
variable {cfg : Settings} {name : String} {w : World}

theorem sound_initial (start : Int) : Sound cfg ⟨initial, start, [], []⟩ where
  known := nofun
  opened := nofun
  probing := nofun
  counted _ := ⟨rfl, cfg.failureThreshold_pos⟩
  cleared unclosed := absurd rfl unclosed

/-- Asking for admission leaves the world as it is, or starts a request of the current
generation. -/
theorem tryAdmit_cases (cfg : Settings) (name : String) (w : World) :
    (World.step cfg name w .tryAdmit).1 = w ∨
    (w.breaker.state = .stateClosed ∧ (World.step cfg name w .tryAdmit).1 =
      { w with inFlight := w.breaker.gen :: w.inFlight }) ∨
    (w.breaker.state = .stateOpen ∧ (World.step cfg name w .tryAdmit).1 =
      { w with
        breaker := { w.breaker with state := .stateHalfOpen, probes := 1 }
        inFlight := w.breaker.gen :: w.inFlight }) ∨
    (w.breaker.state = .stateHalfOpen ∧ w.breaker.probes < cfg.halfOpenProbes ∧
      (World.step cfg name w .tryAdmit).1 =
        { w with
          breaker := { w.breaker with probes := w.breaker.probes + 1 }
          inFlight := w.breaker.gen :: w.inFlight }) := by
  cases state : w.breaker.state with
  | stateClosed => simp [World.step, tryAdmit, state]
  | stateOpen =>
    by_cases early : w.now < w.breaker.openUntil <;> simp [World.step, tryAdmit, state, early]
  | stateHalfOpen =>
    by_cases full : cfg.halfOpenProbes ≤ w.breaker.probes
    · simp [World.step, tryAdmit, state, full]
    · simp [World.step, tryAdmit, state, full, lt_of_not_ge full]

theorem Sound.tryAdmit (sound : Sound cfg w) : Sound cfg (World.step cfg name w .tryAdmit).1 := by
  have admitted_known : ∀ gen ∈ w.breaker.gen :: w.inFlight, gen ≤ w.breaker.gen := by
    intro gen member
    rcases List.mem_cons.mp member with rfl | earlier
    · exact le_rfl
    · exact sound.known gen earlier
  rcases tryAdmit_cases cfg name w with
    same | ⟨state, same⟩ | ⟨state, same⟩ | ⟨state, room, same⟩ <;> rw [same]
  · exact sound
  · exact ⟨admitted_known, by simp [state], by simp [state], sound.counted, sound.cleared⟩
  · -- The first probe is the only request of this generation.
    have alone : w.inFlight.count w.breaker.gen = 0 :=
      List.count_eq_zero.mpr (sound.opened state)
    have pos := cfg.halfOpenProbes_pos
    refine ⟨admitted_known, by simp, fun _ => ⟨by simp [alone], ?_⟩, by simp, fun _ => ?_⟩
    · simp only
      omega
    · exact sound.cleared (by simp [state])
  · obtain ⟨probes_eq, -⟩ := sound.probing state
    refine ⟨admitted_known, by simp [state], fun _ => ⟨by simp [probes_eq], ?_⟩, by simp [state],
      fun _ => ?_⟩
    · simp only
      omega
    · exact sound.cleared (by simp [state])

theorem opening_eq_nil {before after : Breaker}
    (unopened : after.state = .stateOpen → before.state = .stateOpen) :
    World.opening before after = [] := by
  unfold World.opening
  split
  · rename_i opened
    exact absurd (unopened opened.2) opened.1
  · rfl

theorem Sound.known_erase (sound : Sound cfg w) (gen : Nat) :
    ∀ under ∈ w.inFlight.erase gen, under ≤ w.breaker.gen := by
  intro under member
  exact sound.known under (List.mem_of_mem_erase member)

/-- An opening starts a generation that no request under way has. -/
theorem Sound.opens (sound : Sound cfg w) {b : Breaker} (same_gen : b.gen = w.breaker.gen)
    (unopened : w.breaker.state ≠ .stateOpen) (gen draw : Nat) (notes : List Note) :
    Sound cfg (w.settle gen (openCircuit cfg b w.now draw) notes) where
  known := by
    intro under member
    have older := sound.known_erase gen under member
    simp only [World.settle, openCircuit, same_gen]
    omega
  opened := by
    intro _ member
    have older := sound.known_erase gen _ member
    simp only [World.settle, openCircuit, same_gen] at older
    omega
  probing := nofun
  counted := nofun
  cleared _ := by
    have logged : World.opening w.breaker (openCircuit cfg b w.now draw) = [.opening] :=
      if_pos ⟨unopened, rfl⟩
    simp only [World.settle, logged, failuresSince_opening]

theorem Sound.stale (sound : Sound cfg w) {gen : Nat} (stale : gen ≠ w.breaker.gen) :
    Sound cfg (w.settle gen w.breaker []) := by
  have log_eq : (w.settle gen w.breaker []).log = w.log := by
    simp [World.settle, opening_eq_nil]
  have others : (w.inFlight.erase gen).count w.breaker.gen = w.inFlight.count w.breaker.gen :=
    List.count_erase_of_ne stale.symm
  refine ⟨sound.known_erase gen, ?_, ?_, ?_, ?_⟩
  · intro opened member
    exact sound.opened opened (List.mem_of_mem_erase member)
  · intro probing
    simpa only [World.settle, others] using sound.probing probing
  · rw [log_eq]
    exact sound.counted
  · rw [log_eq]
    exact sound.cleared

theorem Sound.canceled (sound : Sound cfg w) (underway : w.breaker.gen ∈ w.inFlight) :
    Sound cfg (w.settle w.breaker.gen (recordCanceled w.breaker) []) := by
  have same_state : (recordCanceled w.breaker).state = w.breaker.state := by
    rw [recordCanceled_eq]
  have same_gen : (recordCanceled w.breaker).gen = w.breaker.gen := by
    rw [recordCanceled_eq]
  have same_fails : (recordCanceled w.breaker).consecFails = w.breaker.consecFails := by
    rw [recordCanceled_eq]
  have log_eq : (w.settle w.breaker.gen (recordCanceled w.breaker) []).log = w.log := by
    simp [World.settle, opening_eq_nil, same_state]
  refine ⟨?_, ?_, ?_, ?_, ?_⟩
  · simpa only [World.settle, same_gen] using sound.known_erase w.breaker.gen
  · intro opened
    exact absurd underway (sound.opened (same_state.symm.trans opened))
  · intro probing
    -- The probe that is given back is the request that leaves.
    have half_open : w.breaker.state = .stateHalfOpen := same_state.symm.trans probing
    obtain ⟨probes_eq, probes_le⟩ := sound.probing half_open
    have positive : 0 < w.inFlight.count w.breaker.gen := List.count_pos_iff.mpr underway
    have given_back : (recordCanceled w.breaker).probes = w.breaker.probes - 1 := by
      simp [recordCanceled, half_open, probes_eq, positive]
    simp only [World.settle, given_back, same_gen, List.count_erase_self]
    omega
  · rw [log_eq]
    simpa only [World.settle, same_state, same_fails] using sound.counted
  · rw [log_eq]
    simpa only [World.settle, same_state] using sound.cleared

theorem Sound.failed (sound : Sound cfg w) (underway : w.breaker.gen ∈ w.inFlight) (draw : Nat) :
    Sound cfg (w.settle w.breaker.gen (recordFailure cfg w.breaker w.now draw) [.failure]) := by
  cases state : w.breaker.state with
  | stateOpen => exact absurd underway (sound.opened state)
  | stateHalfOpen =>
    simp only [recordFailure, state]
    exact sound.opens (b := { w.breaker with reopens := w.breaker.reopens + 1 }) rfl
      (by simp [state]) w.breaker.gen draw [.failure]
  | stateClosed =>
    obtain ⟨counted, below⟩ := sound.counted state
    simp only [recordFailure, state]
    split
    · refine sound.opens ?_ ?_ w.breaker.gen draw [.failure]
      · rfl
      · simp [state]
    · rename_i short
      refine ⟨sound.known_erase _, nofun, nofun, ?_, fun unclosed => absurd rfl unclosed⟩
      intro _
      simp only [World.settle, World.opening, reduceCtorEq, and_false, if_false, List.append_nil,
        failuresSince_failure, counted, true_and]
      omega

theorem Sound.succeeded (sound : Sound cfg w) (gen : Nat) :
    Sound cfg (w.settle gen (recordSuccess w.breaker) [.success]) := by
  have log_eq : (w.settle gen (recordSuccess w.breaker) [.success]).log = w.log ++ [.success] := by
    simp [World.settle, World.opening, recordSuccess]
  refine ⟨sound.known_erase gen, nofun, nofun, ?_, fun unclosed => absurd rfl unclosed⟩
  intro _
  rw [log_eq, failuresSince_success]
  exact ⟨rfl, cfg.failureThreshold_pos⟩

theorem Sound.record (sound : Sound cfg w) (gen draw : Nat) (outcome : Outcome) :
    Sound cfg (World.step cfg name w (.record gen outcome draw)).1 := by
  by_cases underway : gen ∈ w.inFlight
  · simp only [World.step, underway, if_true, World.notes]
    rcases record_cases cfg w.breaker w.now draw gen outcome with
      ⟨stale, ignored, recorded⟩ | ⟨rfl, ignored, recorded⟩ | ⟨rfl, failed, recorded⟩ |
      ⟨rfl, succeeded, recorded⟩
    · rw [ignored, recorded]
      exact sound.stale stale
    · rw [ignored, recorded]
      exact sound.canceled underway
    · rw [failed, recorded]
      exact sound.failed underway draw
    · rw [succeeded, recorded]
      exact sound.succeeded _
  · simpa [World.step, underway] using sound

theorem Sound.step (w : World) (e : Event) (sound : Sound cfg w) :
    Sound cfg (World.step cfg name w e).1 := by
  cases e with
  | tryAdmit => exact sound.tryAdmit
  | record gen outcome draw => exact sound.record gen draw outcome
  | advance elapsed =>
    exact ⟨sound.known, sound.opened, sound.probing, sound.counted, sound.cleared⟩

theorem sound_reached (start : Int) (events : List Event) :
    Sound cfg (reached cfg name start events) :=
  Transcript.invariant Sound.step (sound_initial start) events

/-- A closed breaker opens at the failure that completes the threshold and at nothing else. -/
theorem Sound.opens_iff (sound : Sound cfg w) (closed : w.breaker.state = .stateClosed)
    (e : Event) :
    (World.step cfg name w e).1.breaker.state = .stateOpen ↔
      failuresSince (w.log ++ w.notes e) = cfg.failureThreshold := by
  obtain ⟨counted, below⟩ := sound.counted closed
  have unmet : (failuresSince (w.log ++ []) : Int) ≠ cfg.failureThreshold := by
    rw [List.append_nil, ← counted]
    exact below.ne
  cases e with
  | tryAdmit => simpa [World.step, CircuitBreaker.tryAdmit, closed, World.notes] using unmet
  | advance elapsed => simpa [World.step, closed, World.notes] using unmet
  | record gen outcome draw =>
    by_cases underway : gen ∈ w.inFlight
    · simp only [World.step, underway, if_true, World.notes, World.settle]
      rcases record_cases cfg w.breaker w.now draw gen outcome with
        ⟨stale, ignored, recorded⟩ | ⟨rfl, ignored, recorded⟩ | ⟨rfl, failed, recorded⟩ |
        ⟨rfl, succeeded, recorded⟩
      · rw [ignored, recorded]
        simpa [closed] using unmet
      · rw [ignored, recorded]
        simpa [closed, recordCanceled] using unmet
      · rw [failed, recorded]
        simp only [recordFailure, closed, Option.toList_some, failuresSince_failure, ← counted]
        split
        · simp only [openCircuit, true_iff]
          omega
        · simp only [reduceCtorEq, false_iff]
          omega
      · rw [succeeded, recorded]
        have pos := cfg.failureThreshold_pos
        simp only [recordSuccess, Option.toList_some, failuresSince_success, reduceCtorEq,
          false_iff]
        omega
    · simpa [World.step, underway, closed, World.notes] using unmet

end Runs

/-- In every state that some interleaving reaches: while the open period lasts no request is
admitted; a half-open breaker has as many probes as requests of its generation under way, and
no more than it may; an outcome of an older generation changes nothing; and a closed breaker
opens exactly when the threshold of failures is reached since the last success or opening. -/
theorem interleaving_safe (config : BreakerConfig) (name : String) (start : Int)
    (events : List Event) :
    let cfg := config.withDefaults
    let w := reached cfg name start events
    (w.breaker.state = .stateOpen → w.now < w.breaker.openUntil →
      World.step cfg name w .tryAdmit = (w, some (.error (errCircuitOpen name)))) ∧
    (w.breaker.state = .stateHalfOpen →
      w.breaker.probes = w.inFlight.count w.breaker.gen ∧
        w.breaker.probes ≤ cfg.halfOpenProbes) ∧
    (∀ gen outcome draw, gen < w.breaker.gen →
      record cfg w.breaker w.now draw gen outcome = w.breaker ∧
        (World.step cfg name w (.record gen outcome draw)).1.log = w.log) ∧
    (w.breaker.state = .stateClosed → ∀ e,
      ((World.step cfg name w e).1.breaker.state = .stateOpen ↔
        failuresSince (w.log ++ w.notes e) = cfg.failureThreshold)) := by
  intro cfg w
  have sound : Sound cfg w := sound_reached start events
  refine ⟨?_, sound.probing, ?_, sound.opens_iff⟩
  · intro opened early
    simp [World.step, tryAdmit, opened, early]
  · intro gen outcome draw older
    have stale : gen ≠ w.breaker.gen := older.ne
    have recorded : record cfg w.breaker w.now draw gen outcome = w.breaker := if_pos stale
    refine ⟨recorded, ?_⟩
    by_cases underway : gen ∈ w.inFlight
    · simp [World.step, underway, World.settle, World.notes, verdict, stale, recorded,
        opening_eq_nil]
    · simp [World.step, underway]

/-- Two failures open a breaker of threshold two while a third request of the first generation
is under way; its success changes nothing, and the second probe of the next generation is
refused. -/
example :
    let cfg := (⟨2, 8, 8, 0⟩ : BreakerConfig).withDefaults
    let failed : Outcome := ⟨some 503, none⟩
    let served : Outcome := ⟨some 200, none⟩
    let opened : List Event :=
      [.tryAdmit, .tryAdmit, .tryAdmit, .record 0 failed 0, .record 0 failed 4]
    (reached cfg "a" 0 opened).breaker = ⟨.stateOpen, 0, 0, 8, 0, 1⟩ ∧
    (reached cfg "a" 0 (opened ++ [.record 0 served 0])).breaker.state = .stateOpen ∧
    (reached cfg "a" 0 (opened ++ [.advance 8, .tryAdmit, .tryAdmit])).breaker =
      ⟨.stateHalfOpen, 0, 0, 8, 1, 1⟩ := by
  decide +kernel

end CircuitBreaker
