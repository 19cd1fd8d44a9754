import StacProxy.CircuitBreaker

/-!
# How long the circuit stays open

The period doubles with every probe that fails, up to a maximum. It is doubled by a shift of a
64-bit number, and the check after the shift finds only the overflows that leave nothing
positive behind. A shifted number that comes out positive and small is taken for a period.
-/

namespace CircuitBreaker

/-- A configuration as the source holds it, with durations of 64 bits. -/
structure DurationConfig extends BreakerConfig where
  openBase_lt : openBase < 2 ^ 63
  openMax_lt : openMax < 2 ^ 63

theorem DurationConfig.openMax_fits (c : DurationConfig) : c.withDefaults.openMax < 2 ^ 63 := by
  have base := c.openBase_lt
  have most := c.openMax_lt
  simp only [BreakerConfig.withDefaults, orDefault, atLeast]
  split_ifs <;> omega

section Period
variable (cfg : Settings) (reopens : Nat)

/-- The period of an opening, in numbers that do not overflow. -/
def doubled : Int := min (cfg.openBase * 2 ^ reopens) cfg.openMax

/-- What 64 bits keep of the doubled base. -/
def shifted : Int := cfg.openBase * 2 ^ reopens % 2 ^ 64

/-- The shift does not overflow, or the overflow is found because what is left is zero or has
the sign bit set, or what is left is no less than the maximum, up to the halving. -/
def Shiftable : Prop :=
  cfg.openBase * 2 ^ reopens < 2 ^ 63 ∨ shifted cfg reopens = 0 ∨
    2 ^ 63 ≤ shifted cfg reopens ∨ cfg.openMax / 2 ≤ shifted cfg reopens / 2

instance : Decidable (Shiftable cfg reopens) := inferInstanceAs (Decidable (_ ∨ _))

end Period

section Shift
variable {cfg : Settings} {reopens : Nat}

theorem toInt_shift (base : Int) (reopens : Nat) :
    (BitVec.ofInt 64 base <<< reopens).toInt = (base * 2 ^ reopens).bmod (2 ^ 64) := by
  have nonneg : 0 ≤ base % ((2 ^ 64 : Nat) : Int) := Int.emod_nonneg base (by decide)
  rw [BitVec.toInt_shiftLeft, BitVec.toNat_ofInt, Nat.shiftLeft_eq, Int.natCast_mul,
    Int.toNat_of_nonneg nonneg, Int.emod_mul_bmod, Int.natCast_pow]
  rfl

theorem openPeriod_eq (cfg : Settings) (reopens : Nat) :
    openPeriod cfg reopens =
      if shifted cfg reopens = 0 ∨ 2 ^ 63 ≤ shifted cfg reopens then cfg.openMax
      else min (shifted cfg reopens) cfg.openMax := by
  have nonneg : 0 ≤ shifted cfg reopens := Int.emod_nonneg _ (by decide)
  have below : shifted cfg reopens < 2 ^ 64 := Int.emod_lt_of_pos _ (by decide)
  have signed : (BitVec.ofInt 64 cfg.openBase <<< reopens).toInt =
      if shifted cfg reopens < 2 ^ 63 then shifted cfg reopens
      else shifted cfg reopens - 2 ^ 64 := by
    rw [toInt_shift, Int.bmod_def]
    rfl
  simp only [openPeriod, signed]
  split_ifs <;> omega

theorem doubledBase_pos (cfg : Settings) (reopens : Nat) : 0 < cfg.openBase * 2 ^ reopens :=
  Int.mul_pos cfg.openBase_pos (Int.pow_pos (by decide))

/-- Where the shift does not overflow, the period is the doubled one. -/
theorem openPeriod_eq_doubled (small : cfg.openBase * 2 ^ reopens < 2 ^ 63) :
    openPeriod cfg reopens = doubled cfg reopens := by
  have pos := doubledBase_pos cfg reopens
  have kept : shifted cfg reopens = cfg.openBase * 2 ^ reopens :=
    Int.emod_eq_of_lt pos.le (by omega)
  rw [openPeriod_eq, kept, doubled, if_neg (by omega)]

theorem doubled_eq_openMax (fits : cfg.openMax < 2 ^ 63)
    (overflows : ¬ cfg.openBase * 2 ^ reopens < 2 ^ 63) :
    doubled cfg reopens = cfg.openMax := by
  simp only [doubled]
  omega

theorem openPeriod_le_doubled (fits : cfg.openMax < 2 ^ 63) :
    openPeriod cfg reopens ≤ doubled cfg reopens := by
  by_cases small : cfg.openBase * 2 ^ reopens < 2 ^ 63
  · exact (openPeriod_eq_doubled small).le
  · rw [doubled_eq_openMax fits small]
    exact (openPeriod_bounds cfg reopens).2

/-- The least period the jitter may leave is long enough exactly where the shift is harmless. -/
theorem half_doubled_le_iff (fits : cfg.openMax < 2 ^ 63) :
    doubled cfg reopens / 2 ≤ openPeriod cfg reopens / 2 ↔ Shiftable cfg reopens := by
  by_cases small : cfg.openBase * 2 ^ reopens < 2 ^ 63
  · refine iff_of_true ?_ (Or.inl small)
    rw [openPeriod_eq_doubled small]
  · rw [doubled_eq_openMax fits small, openPeriod_eq]
    simp only [Shiftable, small, false_or]
    split_ifs <;> omega

end Shift

/-! ## The number of failed probes -/

/-- Openings since the last success. -/
def openingsSince (log : List Note) : Nat :=
  (log.reverse.takeWhile fun note => note ≠ .success).count .opening

section Log

@[simp] theorem openingsSince_failure (log : List Note) :
    openingsSince (log ++ [.failure]) = openingsSince log := by
  simp [openingsSince]

@[simp] theorem openingsSince_success (log : List Note) :
    openingsSince (log ++ [.success]) = 0 := by
  simp [openingsSince]

@[simp] theorem openingsSince_opening (log : List Note) :
    openingsSince (log ++ [.opening]) = openingsSince log + 1 := by
  simp [openingsSince]

end Log

/-- The breaker counts the openings since the last success, the first one apart. -/
structure Counts (w : World) : Prop where
  closed : w.breaker.state = .stateClosed → openingsSince w.log = 0
  unclosed : w.breaker.state ≠ .stateClosed → openingsSince w.log = w.breaker.reopens + 1

section Runs
variable {cfg : Settings} {name : String} {w : World}

theorem counts_initial (start : Int) : Counts ⟨initial, start, [], []⟩ where
  closed _ := rfl
  unclosed unclosed := absurd rfl unclosed

theorem Counts.tryAdmit (counts : Counts w) : Counts (World.step cfg name w .tryAdmit).1 := by
  rcases tryAdmit_cases cfg name w with
    same | ⟨state, same⟩ | ⟨state, same⟩ | ⟨state, -, same⟩ <;> rw [same]
  · exact counts
  · exact ⟨counts.closed, counts.unclosed⟩
  · exact ⟨by simp, fun _ => counts.unclosed (by simp [state])⟩
  · exact ⟨counts.closed, counts.unclosed⟩

/-- A record that leaves the state as it was adds no opening. -/
theorem Counts.settle (counts : Counts w) {after : Breaker} {notes : List Note} (gen : Nat)
    (same_state : after.state = w.breaker.state) (same_reopens : after.reopens = w.breaker.reopens)
    (same_log : openingsSince (w.log ++ notes) = openingsSince w.log) :
    Counts (w.settle gen after notes) := by
  have log_eq : (w.settle gen after notes).log = w.log ++ notes := by
    simp [World.settle, opening_eq_nil, same_state]
  constructor
  · intro closed
    rw [log_eq, same_log]
    exact counts.closed (same_state.symm.trans closed)
  · intro unclosed
    rw [log_eq, same_log]
    simp only [World.settle, same_state, same_reopens] at unclosed ⊢
    exact counts.unclosed unclosed

/-- An opening that starts from the number of openings since the last success. -/
theorem counts_opening {b : Breaker} (reopened : b.reopens = openingsSince w.log)
    (unopened : w.breaker.state ≠ .stateOpen) (gen draw : Nat) :
    Counts (w.settle gen (openCircuit cfg b w.now draw) [.failure]) := by
  have logged : World.opening w.breaker (openCircuit cfg b w.now draw) = [.opening] :=
    if_pos ⟨unopened, rfl⟩
  refine ⟨by simp [World.settle, openCircuit], fun _ => ?_⟩
  simp only [World.settle, logged, openingsSince_opening, openingsSince_failure]
  simp only [openCircuit, reopened]

/-- A counted failure opens the circuit with the number of probes that failed in a row, or it
leaves the state as it was. -/
theorem Counts.failed_cases (counts : Counts w) (cfg : Settings) :
    (w.breaker.state ≠ .stateOpen ∧ ∃ b : Breaker, b.reopens = openingsSince w.log ∧
      b.gen = w.breaker.gen ∧
      ∀ draw, recordFailure cfg w.breaker w.now draw = openCircuit cfg b w.now draw) ∨
    ∀ draw, (recordFailure cfg w.breaker w.now draw).state = w.breaker.state ∧
      (recordFailure cfg w.breaker w.now draw).reopens = w.breaker.reopens := by
  cases state : w.breaker.state with
  | stateClosed =>
    by_cases reached : cfg.failureThreshold ≤ (w.breaker.consecFails + 1 : Nat)
    · refine Or.inl ⟨by simp, { w.breaker with
        consecFails := w.breaker.consecFails + 1, reopens := 0 }, ?_, rfl, fun draw => ?_⟩
      · exact (counts.closed state).symm
      · simp only [recordFailure, state, reached, if_true]
    · refine Or.inr fun draw => ?_
      simp only [recordFailure, state, reached, if_false, and_self]
  | stateHalfOpen =>
    refine Or.inl ⟨by simp, { w.breaker with reopens := w.breaker.reopens + 1 }, ?_, rfl,
      fun draw => ?_⟩
    · exact (counts.unclosed (by simp [state])).symm
    · simp only [recordFailure, state]
  | stateOpen =>
    refine Or.inr fun draw => ?_
    simp [recordFailure, state]

theorem Counts.failed (counts : Counts w) (gen draw : Nat) :
    Counts (w.settle gen (recordFailure cfg w.breaker w.now draw) [.failure]) := by
  rcases counts.failed_cases cfg with ⟨unopened, b, reopened, -, opens⟩ | same
  · rw [opens draw]
    exact counts_opening reopened unopened gen draw
  · exact counts.settle gen (same draw).1 (same draw).2 (openingsSince_failure w.log)

theorem Counts.succeeded (w : World) (gen : Nat) :
    Counts (w.settle gen (recordSuccess w.breaker) [.success]) := by
  have log_eq : (w.settle gen (recordSuccess w.breaker) [.success]).log = w.log ++ [.success] := by
    simp [World.settle, World.opening, recordSuccess]
  refine ⟨fun _ => ?_, fun unclosed => absurd rfl unclosed⟩
  rw [log_eq, openingsSince_success]

theorem Counts.record (counts : Counts w) (gen draw : Nat) (outcome : Outcome) :
    Counts (World.step cfg name w (.record gen outcome draw)).1 := by
  by_cases underway : gen ∈ w.inFlight
  · simp only [World.step, underway, if_true, World.notes]
    rcases record_cases cfg w.breaker w.now draw gen outcome with
      ⟨stale, ignored, recorded⟩ | ⟨rfl, ignored, recorded⟩ | ⟨rfl, failed, recorded⟩ |
      ⟨rfl, succeeded, recorded⟩
    · rw [ignored, recorded]
      exact counts.settle gen rfl rfl (by simp)
    · rw [ignored, recorded]
      exact counts.settle _ (by rw [recordCanceled_eq]) (by rw [recordCanceled_eq]) (by simp)
    · rw [failed, recorded]
      exact counts.failed _ draw
    · rw [succeeded, recorded]
      exact Counts.succeeded w _
  · simpa [World.step, underway] using counts

theorem Counts.step (w : World) (e : Event) (counts : Counts w) :
    Counts (World.step cfg name w e).1 := by
  cases e with
  | tryAdmit => exact counts.tryAdmit
  | record gen outcome draw => exact counts.record gen draw outcome
  | advance elapsed => exact ⟨counts.closed, counts.unclosed⟩

theorem counts_reached (start : Int) (events : List Event) :
    Counts (reached cfg name start events) :=
  Transcript.invariant Counts.step (counts_initial start) events

end Runs

/-! ## What an opening refuses -/

section Openings
variable (cfg : Settings) (name : String)

/-- Whatever happens, a request is refused before `period` has passed, and one is admitted if
nothing happens until then. -/
structure StaysOpen (w : World) (period : Nat) : Prop where
  refuses : ∀ events, (Transcript.final (World.step cfg name) w events).now < w.now + period →
    (World.step cfg name (Transcript.final (World.step cfg name) w events) .tryAdmit).2 =
      some (.error (errCircuitOpen name))
  admits : ∀ elapsed, period ≤ elapsed → ∃ gen,
    (World.step cfg name (World.step cfg name w (.advance elapsed)).1 .tryAdmit).2 =
      some (.ok gen)

/-- The record of a request under way opens the circuit. -/
def Opens (w : World) (gen : Nat) (outcome : Outcome) : Prop :=
  gen ∈ w.inFlight ∧ w.breaker.state ≠ .stateOpen ∧
    (record cfg w.breaker w.now 0 gen outcome).state = .stateOpen

instance (w : World) (gen : Nat) (outcome : Outcome) : Decidable (Opens cfg w gen outcome) :=
  inferInstanceAs (Decidable (_ ∧ _))

/-- However the random number falls, the circuit that the record opens stays open for a period
between the half and the whole of the doubled base, capped; at the cap for half of it at
least. -/
def DoublesUpToMax (w : World) (gen : Nat) (outcome : Outcome) : Prop :=
  let reopens := openingsSince w.log
  ∀ draw, ∃ period : Nat,
    StaysOpen cfg name (World.step cfg name w (.record gen outcome draw)).1 period ∧
    doubled cfg reopens / 2 ≤ period ∧ period ≤ doubled cfg reopens ∧
    (cfg.openMax ≤ cfg.openBase * 2 ^ reopens → cfg.openMax / 2 ≤ period)

end Openings

section Refusals
variable {cfg : Settings} {name : String} {w : World}

theorem StaysOpen.unique {first second : Nat} (stays : StaysOpen cfg name w first)
    (also : StaysOpen cfg name w second) : first = second := by
  have not_before : ∀ {short long : Nat}, StaysOpen cfg name w short →
      StaysOpen cfg name w long → ¬ short < long := by
    intro short long early late less
    obtain ⟨gen, admitted⟩ := early.admits short le_rfl
    have refused := late.refuses [.advance short] (by simp [World.step, less])
    rw [Transcript.final_cons, Transcript.final_nil, admitted] at refused
    cases refused
  have upper := not_before stays also
  have lower := not_before also stays
  omega

theorem now_le_step (w : World) (e : Event) : w.now ≤ (World.step cfg name w e).1.now := by
  cases e with
  | tryAdmit =>
    rcases tryAdmit_cases cfg name w with same | ⟨-, same⟩ | ⟨-, same⟩ | ⟨-, -, same⟩ <;> simp [same]
  | record gen outcome draw =>
    by_cases underway : gen ∈ w.inFlight <;> simp [World.step, World.settle, underway]
  | advance elapsed => simp [World.step]

/-- An open breaker is as it was after every step that is made before its period ends. -/
theorem Sound.open_step (sound : Sound cfg w) (opened : w.breaker.state = .stateOpen) (e : Event)
    (early : w.now < w.breaker.openUntil) :
    (World.step cfg name w e).1.breaker = w.breaker := by
  cases e with
  | tryAdmit => simp [World.step, CircuitBreaker.tryAdmit, opened, early]
  | record gen outcome draw =>
    by_cases underway : gen ∈ w.inFlight
    · have stale : gen ≠ w.breaker.gen := by
        rintro rfl
        exact sound.opened opened underway
      simp [World.step, underway, World.settle, CircuitBreaker.record, stale]
    · simp [World.step, underway]
  | advance elapsed => rfl

theorem Sound.open_run (sound : Sound cfg w) (opened : w.breaker.state = .stateOpen)
    (events : List Event)
    (early : (Transcript.final (World.step cfg name) w events).now < w.breaker.openUntil) :
    (Transcript.final (World.step cfg name) w events).breaker = w.breaker := by
  have kept : ∀ v e, (Sound cfg v ∧ (v.now < w.breaker.openUntil → v.breaker = w.breaker)) →
      (Sound cfg (World.step cfg name v e).1 ∧
        ((World.step cfg name v e).1.now < w.breaker.openUntil →
          (World.step cfg name v e).1.breaker = w.breaker)) := by
    rintro v e ⟨sound_v, same⟩
    refine ⟨sound_v.step v e, fun still => ?_⟩
    have before : v.now < w.breaker.openUntil := (now_le_step v e).trans_lt still
    have unchanged := same before
    rw [sound_v.open_step (by rw [unchanged, opened]) e (by rw [unchanged]; exact before),
      unchanged]
  exact (Transcript.invariant kept ⟨sound, fun _ => rfl⟩ events).2 early

theorem Sound.staysOpen (sound : Sound cfg w) (opened : w.breaker.state = .stateOpen)
    {period : Nat} (until_eq : w.breaker.openUntil = w.now + period) :
    StaysOpen cfg name w period where
  refuses := by
    intro events early
    have unchanged := sound.open_run opened events (until_eq ▸ early)
    simp only [World.step, CircuitBreaker.tryAdmit, unchanged, opened, until_eq, early, if_true]
  admits := by
    intro elapsed over_period
    refine ⟨w.breaker.gen, ?_⟩
    have late : ¬ w.now + (elapsed : Int) < w.breaker.openUntil := by omega
    simp only [World.step, CircuitBreaker.tryAdmit, opened, late, if_false]

/-- A failure that counts is recorded as one, however the random number falls. -/
theorem record_eq_recordFailure {b : Breaker} {gen : Nat} {outcome : Outcome}
    (failed : verdict b gen outcome = some .failure) (now : Int) (draw : Nat) :
    record cfg b now draw gen outcome = recordFailure cfg b now draw := by
  rcases record_cases cfg b now draw gen outcome with
    ⟨-, ignored, -⟩ | ⟨-, ignored, -⟩ | ⟨-, -, recorded⟩ | ⟨-, succeeded, -⟩
  · rw [failed] at ignored
    cases ignored
  · rw [failed] at ignored
    cases ignored
  · exact recorded
  · rw [failed] at succeeded
    cases succeeded

theorem verdict_of_opens {gen : Nat} {outcome : Outcome} (opens : Opens cfg w gen outcome) :
    verdict w.breaker gen outcome = some .failure := by
  obtain ⟨-, unopened, opened⟩ := opens
  rcases record_cases cfg w.breaker w.now 0 gen outcome with
    ⟨-, -, recorded⟩ | ⟨-, -, recorded⟩ | ⟨-, failed, -⟩ | ⟨-, -, recorded⟩
  · rw [recorded] at opened
    exact absurd opened unopened
  · rw [recorded, recordCanceled_eq] at opened
    exact absurd opened unopened
  · exact failed
  · rw [recorded] at opened
    cases opened

/-- The world after a record that opens the circuit. -/
theorem Counts.opened (counts : Counts w) {gen : Nat} {outcome : Outcome}
    (opens : Opens cfg w gen outcome) :
    ∃ b : Breaker, b.reopens = openingsSince w.log ∧ b.gen = w.breaker.gen ∧
      ∀ draw, (World.step cfg name w (.record gen outcome draw)).1 =
        w.settle gen (openCircuit cfg b w.now draw) [.failure] := by
  have failed := verdict_of_opens opens
  obtain ⟨underway, unopened, opened⟩ := opens
  rw [record_eq_recordFailure failed] at opened
  rcases counts.failed_cases cfg with ⟨-, b, reopened, same_gen, circuit⟩ | same
  · refine ⟨b, reopened, same_gen, fun draw => ?_⟩
    simp only [World.step, underway, if_true, World.notes, failed, Option.toList_some,
      record_eq_recordFailure failed, circuit]
  · exact absurd ((same 0).1.symm.trans opened) unopened

theorem fullJitter_zero {d : Int} (pos : 0 < d) : fullJitter d 0 = d / 2 := by
  have unsigned : ¬ d ≤ 0 := by omega
  simp [fullJitter, unsigned]

/-- How long the circuit stays open after a record that opens it. -/
theorem Sound.staysOpen_of_opens (sound : Sound cfg w) (counts : Counts w) {gen : Nat}
    {outcome : Outcome} (opens : Opens cfg w gen outcome) (draw : Nat) :
    ∃ period : Nat, (period : Int) = fullJitter (openPeriod cfg (openingsSince w.log)) draw ∧
      StaysOpen cfg name (World.step cfg name w (.record gen outcome draw)).1 period := by
  obtain ⟨b, reopened, same_gen, after⟩ := @Counts.opened cfg name w counts gen outcome opens
  have pos := (openPeriod_bounds cfg (openingsSince w.log)).1
  have least := (fullJitter_bounds pos draw).1
  have period_eq : ((fullJitter (openPeriod cfg (openingsSince w.log)) draw).toNat : Int) =
      fullJitter (openPeriod cfg (openingsSince w.log)) draw :=
    Int.toNat_of_nonneg (by omega)
  refine ⟨_, period_eq, ?_⟩
  rw [after draw]
  refine (sound.opens same_gen opens.2.1 gen draw [.failure]).staysOpen rfl ?_
  rw [period_eq, ← reopened]
  rfl

theorem Sound.doubles_iff (sound : Sound cfg w) (counts : Counts w) (fits : cfg.openMax < 2 ^ 63)
    {gen : Nat} {outcome : Outcome} (opens : Opens cfg w gen outcome) :
    DoublesUpToMax cfg name w gen outcome ↔ Shiftable cfg (openingsSince w.log) := by
  have pos := (openPeriod_bounds cfg (openingsSince w.log)).1
  have stays := @Sound.staysOpen_of_opens cfg name w sound counts gen outcome opens
  constructor
  · intro doubles
    -- The least random number leaves half of the period.
    obtain ⟨period, opened, least, -, -⟩ := doubles 0
    obtain ⟨same, period_eq, also⟩ := stays 0
    rw [opened.unique also, period_eq, fullJitter_zero pos] at least
    exact (half_doubled_le_iff fits).mp least
  · intro shiftable draw
    obtain ⟨period, period_eq, opened⟩ := stays draw
    have half := (half_doubled_le_iff fits).mpr shiftable
    have whole := @openPeriod_le_doubled cfg (openingsSince w.log) fits
    obtain ⟨least, most⟩ := fullJitter_bounds pos draw
    refine ⟨period, opened, by omega, by omega, fun capped => ?_⟩
    have at_most : doubled cfg (openingsSince w.log) = cfg.openMax := min_eq_right capped
    omega

end Refusals

/-- For every configuration, every run and every record of it that opens the circuit: it stays
open for the doubled period, up to the jitter, exactly where the shift is harmless. -/
theorem doubles_iff_shiftable (c : DurationConfig) (name : String) (start : Int)
    (events : List Event) (gen : Nat) (outcome : Outcome)
    (opens : Opens c.withDefaults (reached c.withDefaults name start events) gen outcome) :
    DoublesUpToMax c.withDefaults name (reached c.withDefaults name start events) gen outcome ↔
      Shiftable c.withDefaults
        (openingsSince (reached c.withDefaults name start events).log) :=
  (sound_reached start events).doubles_iff (counts_reached start events) c.openMax_fits opens

def unavailable : Outcome := ⟨some 503, none⟩

/-- A probe that fails, a while after the opening before it. -/
def failedProbe (pause probe : Nat) : List Event :=
  [.advance pause, .tryAdmit, .record (probe + 1) unavailable 0]

/-- A request opens the circuit, a number of probes fail, and the next one is under way. -/
def failedProbes (rounds pause : Nat) : List Event :=
  .tryAdmit :: .record 0 unavailable 0 ::
    ((List.range rounds).flatMap (failedProbe pause) ++ [Event.advance pause, .tryAdmit])

theorem quarterSecond_fits : (268435457 : Int) < 2 ^ 63 := by decide

theorem twoMinutes_fits : (120000000000 : Int) < 2 ^ 63 := by decide

/-- Two minutes at most, from a base of a little more than a quarter of a second. -/
def oddBase : DurationConfig where
  failureThreshold := 1
  openBase := 268435457
  openMax := 120000000000
  halfOpenProbes := 1
  openBase_lt := quarterSecond_fits
  openMax_lt := twoMinutes_fits

/-- The third failed probe in a row opens the circuit for eight times the base. -/
theorem third_probe_doubles :
    let w := reached oddBase.withDefaults "a" 0 (failedProbes 2 120000000000)
    Opens oddBase.withDefaults w 3 unavailable ∧ openingsSince w.log = 3 ∧
      DoublesUpToMax oddBase.withDefaults "a" w 3 unavailable := by
  refine ⟨by decide +kernel, by decide +kernel, ?_⟩
  exact (doubles_iff_shiftable oddBase "a" 0 (failedProbes 2 120000000000) 3 unavailable
    (by decide +kernel)).mpr (by decide +kernel)

/-- After thirty-six failed probes the shifted base comes out as a little more than a minute:
the circuit may open for half of that, although the cap of two minutes was reached long
before. -/
theorem overflow_shortens_period :
    let cfg := oddBase.withDefaults
    let w := reached cfg "a" 0 (failedProbes 35 120000000000)
    Opens cfg w 36 unavailable ∧ openingsSince w.log = 36 ∧
      cfg.openMax ≤ cfg.openBase * 2 ^ 9 ∧
      (World.step cfg "a" w (.record 36 unavailable 0)).1.breaker.openUntil =
        w.now + 34359738368 ∧
      ¬ DoublesUpToMax cfg "a" w 36 unavailable := by
  refine ⟨by decide +kernel, by decide +kernel, by decide +kernel, by decide +kernel, ?_⟩
  have harmful : ¬ Shiftable oddBase.withDefaults
      (openingsSince (reached oddBase.withDefaults "a" 0 (failedProbes 35 120000000000)).log) := by
    decide +kernel
  intro doubles
  exact harmful (((sound_reached 0 _).doubles_iff (counts_reached 0 _) oddBase.openMax_fits
    (by decide +kernel)).mp doubles)

end CircuitBreaker
