import StacProxy.JwksFreshness

/-!
# How often the issuer is asked

A call for an unknown key is refused for a while after the last attempt, so that such calls do
not flood the issuer. The attempt is recorded by the refresh and not by the check, so of the calls
that pass the check before an attempt is recorded each may make one of its own. Notes are taken of
the attempts of calls, and of the calls since whose check no call has made one.
-/

namespace JwksClient

open Chronicle

section Notes
variable (cfg : Settings) (kids : Nat → String)

/-- The times of the attempts, the last one first, and the calls whose check is up to date. -/
structure Watch where
  attempts : List Int
  upToDate : Nat → Bool

inductive Move where
  | checks
  | starts
  | records
  | other
deriving DecidableEq

/-- What a call does next, where it matters. -/
def Stage.move : Stage → Move
  | .checking => .checks
  | .refreshing .entering => .starts
  | .refreshing (.recording _) => .records
  | _ => .other

def noteAttempt (w : World) (m : Moment) (watch : Watch) : Watch :=
  match m.1 with
  | .act (.caller i) => match (w.callers i).stage.move with
    | .checks => { watch with upToDate := Function.update watch.upToDate i true }
    | .records => ⟨w.shared.now :: watch.attempts, fun _ => false⟩
    | _ => watch
  | _ => watch

def watched (start : Int) (moments : List Moment) : Noted World Watch :=
  follow (served cfg kids) noteAttempt ⟨initial start, [], fun _ => false⟩ moments

/-- A call that starts a refresh of its own does so on a check that is up to date. -/
def startsUpToDate (s : Noted World Watch) (m : Moment) : Bool :=
  match m.1 with
  | .act (.caller i) => (s.state.callers i).stage.move ≠ .starts ||
      s.state.shared.group.current.isSome || s.notes.upToDate i
  | _ => true

end Notes

section Steps
variable {cfg : Settings} {doc : List JWK} {kids : Nat → String} {w : World} {i : Nat}

theorem refreshStep_now (a : Agent) (cancelled : Bool) (sh : Shared) (r : Refresh) :
    (refreshStep cfg doc a cancelled sh r).1.now = sh.now := by
  rcases r with ride | err <;> rfl

theorem now_le_step (e : Event) : w.shared.now ≤ (w.step cfg doc kids e).shared.now := by
  cases e with
  | tick elapsed =>
    simp only [World.step]
    omega
  | cancel j | cancelBackground => exact Int.le_refl _
  | act a =>
    refine Int.le_of_eq (Eq.symm ?_)
    cases a with
    | background =>
      simp only [World.step, backgroundStep]
      split <;> simp [refreshStep_now]
    | caller j =>
      obtain ⟨sh, stage, taken, stepped, -⟩ := @exists_taken cfg doc kids w j
      rw [stepped]
      generalize (w.callers j).stage = here at taken
      cases taken with
      | kicks entry =>
        unfold maybeKickBackgroundRefresh
        split <;> rfl
      | rides r unfinished => exact refreshStep_now _ _ _ r
      | _ => rfl

/-- A call is about to enter a refresh after its check has let it pass, and to record an attempt
after it has started a refresh of its own. -/
theorem stage_act_cases :
    (((w.step cfg doc kids (.act (.caller i))).callers i).stage = .refreshing .entering →
      (w.callers i).stage = .checking ∧
        shouldShortCircuit cfg w.shared.client w.shared.now (kids i) = false) ∧
    ∀ f, ((w.step cfg doc kids (.act (.caller i))).callers i).stage = .refreshing (.recording f) →
      (w.callers i).stage = .refreshing .entering ∧ w.shared.group.current = none := by
  obtain ⟨sh, stage, taken, -, moved⟩ := @exists_taken cfg doc kids w i
  rw [moved]
  generalize (w.callers i).stage = here at taken
  cases taken with
  | passes long => simp [long]
  | rides r unfinished =>
    cases r with
    | entering =>
      cases current : w.shared.group.current with
      | none => simp [refreshStep_launches current]
      | some flight => simp [refreshStep_joins current]
    | fetching f => cases (w.callers i).cancelled <;> simp
    | waiting f =>
      cases result : w.shared.group.results f with
      | none => simp [refreshStep_waits result]
      | some err => simp [refreshStep_leaves result]
    | done err => exact absurd rfl (unfinished err)
    | recording f | storing f | finishing f err => simp
  | _ => simp

end Steps

section Runs
variable {cfg : Settings} {kids : Nat → String} {s : Noted World Watch}

/-- What holds in every state of a run in which calls start on checks that are up to date. -/
structure Throttled (cfg : Settings) (s : Noted World Watch) : Prop where
  flagged : Flagged s.state
  orderly : Orderly s.state
  last_le : ∀ last, s.state.shared.client.lastRefreshAttempt = some last → last ≤ s.state.shared.now
  noted : ∀ t ∈ s.notes.attempts, ∃ last,
    s.state.shared.client.lastRefreshAttempt = some last ∧ t ≤ last
  entering : ∀ i, (s.state.callers i).stage = .refreshing .entering → s.notes.upToDate i = true →
    ∀ t ∈ s.notes.attempts, cfg.minRefreshInterval ≤ s.state.shared.now - t
  recording : ∀ i f, (s.state.callers i).stage = .refreshing (.recording f) →
    ∀ t ∈ s.notes.attempts, cfg.minRefreshInterval ≤ s.state.shared.now - t
  apart : s.notes.attempts.Pairwise fun later earlier => cfg.minRefreshInterval ≤ later - earlier

theorem throttled_initial (start : Int) : Throttled cfg ⟨initial start, [], fun _ => false⟩ where
  flagged := nofun
  orderly := orderly_initial start
  last_le := nofun
  noted := nofun
  entering := nofun
  recording := nofun
  apart := .nil

/-- The last attempt is never taken back. -/
theorem Throttled.attempt_kept (throttled : Throttled cfg s) {doc : List JWK} (e : Event) :
    (∀ last, (s.state.step cfg doc kids e).shared.client.lastRefreshAttempt = some last →
      last ≤ (s.state.step cfg doc kids e).shared.now) ∧
    ∀ last, s.state.shared.client.lastRefreshAttempt = some last → ∃ later,
      (s.state.step cfg doc kids e).shared.client.lastRefreshAttempt = some later ∧ last ≤ later := by
  have now_le := @now_le_step cfg doc kids s.state e
  rcases @client_step cfg doc kids s.state e with ⟨a, f, -, -, client⟩ | ⟨a, f, -, -, client⟩ |
    ⟨-, untouched⟩
  · rw [client]
    exact ⟨fun last same => Int.le_trans (throttled.last_le last same) now_le,
      fun last same => ⟨last, same, Int.le_refl _⟩⟩
  · rw [client]
    refine ⟨?_, fun last same => ⟨_, rfl, throttled.last_le last same⟩⟩
    rintro last ⟨⟩
    exact now_le
  · rw [untouched.lastRefreshAttempt]
    exact ⟨fun last same => Int.le_trans (throttled.last_le last same) now_le,
      fun last same => ⟨last, same, Int.le_refl _⟩⟩

/-- An attempt is noted when it is recorded; only a check makes a call up to date. -/
theorem noteAttempt_cases (w : World) (m : Moment) (watch : Watch) :
    (∃ i f, m.1 = .act (.caller i) ∧ (w.callers i).stage = .refreshing (.recording f) ∧
      noteAttempt w m watch = ⟨w.shared.now :: watch.attempts, fun _ => false⟩) ∨
    (noteAttempt w m watch).attempts = watch.attempts ∧
      ∀ j, (noteAttempt w m watch).upToDate j = true →
        watch.upToDate j = true ∨ m.1 = .act (.caller j) ∧ (w.callers j).stage = .checking := by
  obtain ⟨e, doc⟩ := m
  have unnoted : noteAttempt w (e, doc) watch = watch →
      (noteAttempt w (e, doc) watch).attempts = watch.attempts ∧
        ∀ j, (noteAttempt w (e, doc) watch).upToDate j = true →
          watch.upToDate j = true ∨ e = .act (.caller j) ∧ (w.callers j).stage = .checking := by
    intro same
    rw [same]
    exact ⟨rfl, fun j => .inl⟩
  cases e with
  | act a =>
    cases a with
    | background => exact .inr (unnoted rfl)
    | caller i =>
      cases stage : (w.callers i).stage with
      | checking =>
        have checked : noteAttempt w (.act (.caller i), doc) watch =
            { watch with upToDate := Function.update watch.upToDate i true } := by
          simp [noteAttempt, stage, Stage.move]
        rw [checked]
        refine .inr ⟨rfl, fun j passed => ?_⟩
        by_cases mine : j = i
        · subst mine
          exact .inr ⟨rfl, stage⟩
        · exact .inl (by simpa [mine] using passed)
      | refreshing r =>
        cases r with
        | recording f => exact .inl ⟨i, f, rfl, stage, by simp [noteAttempt, stage, Stage.move]⟩
        | _ => exact .inr (unnoted (by simp [noteAttempt, stage, Stage.move]))
      | _ => exact .inr (unnoted (by simp [noteAttempt, stage, Stage.move]))
  | _ => exact .inr (unnoted rfl)

/-- A call records its attempt: it is the only one that leads a refresh. -/
theorem Throttled.records (throttled : Throttled cfg s) {m : Moment} {i f : Nat}
    (act : m.1 = .act (.caller i)) (stage : (s.state.callers i).stage = .refreshing (.recording f))
    (notes : noteAttempt s.state m s.notes =
      ⟨s.state.shared.now :: s.notes.attempts, fun _ => false⟩) :
    Throttled cfg (advance (served cfg kids) noteAttempt s m) := by
  have inside : ∀ j g, (s.state.callers j).stage = .refreshing (.recording g) →
      s.state.shared.group.current = some ⟨g, .caller j⟩ := fun j g recording =>
    (throttled.orderly.led (.caller j) g).mpr
      ⟨.recording g, by simp [World.refreshOf, recording, Stage.refresh?], rfl⟩
  have advances := @caller_refreshing cfg m.2 kids s.state i _ stage
    (fun _ same => by cases same)
  rw [← act] at advances
  have client : (served cfg kids s.state m).shared.client.lastRefreshAttempt =
      some s.state.shared.now := by
    rw [served, advances.client]
    rfl
  have kept := @Throttled.attempt_kept cfg kids s throttled m.2 m.1
  refine ⟨throttled.flagged.step m.1, throttled.orderly.step throttled.flagged m.1, kept.1, ?_, ?_, ?_, ?_⟩
  · rw [advance, notes]
    intro t member
    rcases List.mem_cons.mp member with rfl | earlier
    · exact ⟨_, client, Int.le_refl _⟩
    · obtain ⟨last, same, t_le⟩ := throttled.noted t earlier
      obtain ⟨later, same', last_le⟩ := kept.2 last same
      exact ⟨later, same', Int.le_trans t_le last_le⟩
  · rw [advance, notes]
    intro _ _ passed
    cases passed
  · rw [advance, notes]
    intro j g recording
    have moved : ((served cfg kids s.state m).callers i).stage.refresh? = some (.fetching f) :=
      advances.refresh
    have elsewhere : m.1 ≠ .act (.caller j) := by
      intro same
      obtain rfl : i = j := by simpa [act] using same
      rw [recording] at moved
      cases moved
    have before : (s.state.callers j).stage = .refreshing (.recording g) :=
      (@stage_step_of_ne cfg m.2 kids s.state j m.1 elsewhere).symm.trans recording
    have flying := inside j g before
    rw [inside i f stage] at flying
    cases flying
    exact absurd act elsewhere
  · rw [advance, notes]
    exact .cons (throttled.recording i f stage) throttled.apart

theorem Throttled.step (throttled : Throttled cfg s) (m : Moment)
    (timely : startsUpToDate s m = true) :
    Throttled cfg (advance (served cfg kids) noteAttempt s m) := by
  rcases noteAttempt_cases s.state m s.notes with ⟨i, f, act, stage, notes⟩ | ⟨attempts, upToDate⟩
  · exact throttled.records act stage notes
  have kept := @Throttled.attempt_kept cfg kids s throttled m.2 m.1
  have now_le : s.state.shared.now ≤ (served cfg kids s.state m).shared.now := now_le_step m.1
  -- What was long enough ago before the step is so after it.
  have later : (∀ t ∈ s.notes.attempts, cfg.minRefreshInterval ≤ s.state.shared.now - t) →
      ∀ t ∈ (noteAttempt s.state m s.notes).attempts,
        cfg.minRefreshInterval ≤ (served cfg kids s.state m).shared.now - t := by
    rw [attempts]
    intro passed t member
    have passed := passed t member
    omega
  have stays : ∀ j, m.1 ≠ .act (.caller j) →
      ((served cfg kids s.state m).callers j).stage = (s.state.callers j).stage :=
    fun j elsewhere => stage_step_of_ne elsewhere
  refine ⟨throttled.flagged.step m.1, throttled.orderly.step throttled.flagged m.1, kept.1, ?_, ?_, ?_, ?_⟩
  · rw [advance, attempts]
    intro t member
    obtain ⟨last, same, t_le⟩ := throttled.noted t member
    obtain ⟨later, same', last_le⟩ := kept.2 last same
    exact ⟨later, same', Int.le_trans t_le last_le⟩
  · intro j entering passed
    refine later ?_
    by_cases mine : m.1 = .act (.caller j)
    · have entering : ((s.state.step cfg m.2 kids (.act (.caller j))).callers j).stage =
          .refreshing .entering := mine ▸ entering
      obtain ⟨-, unrefused⟩ := stage_act_cases.1 entering
      rw [shouldShortCircuit_eq_false_iff] at unrefused
      intro t member
      obtain ⟨last, same, t_le⟩ := throttled.noted t member
      have passed := unrefused.2 last same
      omega
    · rcases upToDate j passed with before | ⟨act, -⟩
      · exact throttled.entering j ((stays j mine).symm.trans entering) before
      · exact absurd act mine
  · intro j f recording
    refine later ?_
    by_cases mine : m.1 = .act (.caller j)
    · have recording : ((s.state.step cfg m.2 kids (.act (.caller j))).callers j).stage =
          .refreshing (.recording f) := mine ▸ recording
      obtain ⟨entering, idle⟩ := stage_act_cases.2 f recording
      refine throttled.entering j entering ?_
      simpa [startsUpToDate, mine, entering, Stage.move, idle] using timely
    · exact throttled.recording j f ((stays j mine).symm.trans recording)
  · rw [advance, attempts]
    exact throttled.apart

end Runs

/-- In a run in which every call that starts a refresh does so on a check since which no call has
made an attempt, any two attempts of calls are the minimal interval apart. -/
theorem attempts_apart (cfg : Settings) (kids : Nat → String) (start : Int) (moments : List Moment)
    (timely : Meets (served cfg kids) noteAttempt (fun s m => startsUpToDate s m = true)
      ⟨initial start, [], fun _ => false⟩ moments) :
    (watched cfg kids start moments).notes.attempts.Pairwise fun later earlier =>
      cfg.minRefreshInterval ≤ later - earlier :=
  (follow_invariant (throttled_initial start) (fun _ m throttled => throttled.step m) timely).apart

section Samples

def unknownKids (i : Nat) : String := if i = 0 then "x" else "y"

/-- Steps of a call, with an issuer that serves no keys. -/
def steps (i n : Nat) : List Moment := List.replicate n (.act (.caller i), [])

def patientMoments : List Moment := steps 0 10 ++ (.tick 30000000000, []) :: steps 1 4

/-- Both calls pass the check before one of them makes an attempt. -/
def racingMoments : List Moment := steps 0 2 ++ steps 1 2 ++ steps 0 5 ++ steps 1 2

end Samples

theorem patient_attempts_apart :
    (watched (settings 0 0 0 0) unknownKids 0 patientMoments).notes.attempts = [30000000000, 0] ∧
    (watched (settings 0 0 0 0) unknownKids 0 patientMoments).notes.attempts.Pairwise
      fun later earlier => (settings 0 0 0 0).minRefreshInterval ≤ later - earlier :=
  ⟨by decide +kernel, attempts_apart _ _ _ _ (by decide +kernel)⟩

theorem racing_attempts :
    (watched (settings 0 0 0 0) unknownKids 0 racingMoments).notes.attempts = [0, 0] ∧
      (settings 0 0 0 0).minRefreshInterval = 30000000000 := by
  decide +kernel

end JwksClient
