import StacProxy.JwksClient

/-!
# Calls for one key

A call for a key that the issuer serves is either answered by the cache, or refreshes and is
answered then. It can come to grief in three places: it is refused because an attempt was
recorded not long ago, also while that very attempt is still under way; the refresh it waits
for fails because the call that makes it is cancelled; or the keys have expired again before
it looks them up. `Unhindered` says at each of its steps that this is not so, and a call
returns the key exactly if all its steps are unhindered.
-/

namespace JwksClient

section Invariants
variable (cfg : Settings) (doc : List JWK) (kids : Nat → String)

def Stage.refresh? : Stage → Option Refresh
  | .refreshing r => some r
  | _ => none

/-- The refresh an agent is in. -/
def World.refreshOf (w : World) : Agent → Option Refresh
  | .caller i => (w.callers i).stage.refresh?
  | .background => w.shared.background

/-- An agent that takes no part in a shared refresh: it has not entered one, or it is done. -/
def Aside : Option Refresh → Prop
  | none => True
  | some .entering => True
  | some (.done _) => True
  | _ => False

/-- The keys of the document have been stored. -/
def Loaded (doc : List JWK) (c : Client) : Prop := c.keys = keysOf doc ∧ c.hardExpiry.isSome

def Blank (c : Client) : Prop := c.keys = ∅ ∧ c.hardExpiry = none

/-- The refresh has ended well, or its own part of it has. -/
def Refresh.succeeded : Refresh → Prop
  | .finishing _ none => True
  | .done none => True
  | _ => False

/-- A refresh in the background is marked as such. -/
def Flagged (w : World) : Prop := w.shared.background.isSome → w.shared.client.bgRefresh

/-- What a success tells: the keys are there. -/
structure Sound (doc : List JWK) (w : World) : Prop where
  client : Blank w.shared.client ∨ Loaded doc w.shared.client
  results : ∀ f, w.shared.group.results f = some none → Loaded doc w.shared.client
  refreshes : ∀ a r, w.refreshOf a = some r → r.succeeded → Loaded doc w.shared.client
  second : ∀ i, (w.callers i).stage = .second → Loaded doc w.shared.client
  flagged : Flagged w

/-- A step that leaves the shared refreshes alone: only agents that take no part in one leave
or enter. -/
structure Quiet (w after : World) : Prop where
  group : after.shared.group = w.shared.group
  keys : after.shared.client.keys = w.shared.client.keys
  hardExpiry : after.shared.client.hardExpiry = w.shared.client.hardExpiry
  refreshes : ∀ a, after.refreshOf a = w.refreshOf a ∨
    Aside (w.refreshOf a) ∧ (after.refreshOf a = none ∨ after.refreshOf a = some .entering)
  second : ∀ i, (after.callers i).stage = .second →
    (w.callers i).stage = .second ∨ (w.callers i).stage = .refreshing (.done none)
  flagged : Flagged after

/-- A step of a refresh of one agent. -/
structure Advances (cfg : Settings) (doc : List JWK) (w after : World) (a : Agent) (r : Refresh)
    (cancelled : Bool) : Prop where
  before : w.refreshOf a = some r
  unfinished : ∀ err, r ≠ .done err
  group : after.shared.group = (refreshStep cfg doc a cancelled w.shared r).1.group
  client : after.shared.client = (refreshStep cfg doc a cancelled w.shared r).1.client
  refresh : after.refreshOf a = some (refreshStep cfg doc a cancelled w.shared r).2
  others : ∀ b, b ≠ a → after.refreshOf b = w.refreshOf b
  second : ∀ i, (after.callers i).stage = .second → (w.callers i).stage = .second
  background : after.shared.background.isSome = w.shared.background.isSome

end Invariants

section Steps
variable {cfg : Settings} {doc : List JWK} {kids : Nat → String} {w : World}

section Places
variable {a : Agent} {cancelled : Bool} {sh : Shared} {f : Nat}

theorem refreshStep_launches (free : sh.group.current = none) :
    refreshStep cfg doc a cancelled sh .entering =
      ({ sh with group := { sh.group with
          current := some ⟨sh.group.launched, a⟩, launched := sh.group.launched + 1 } },
        .recording sh.group.launched) := by
  simp [refreshStep, SingleFlight.Ride.step, free]

theorem refreshStep_joins {flight : SingleFlight.Flight Agent}
    (current : sh.group.current = some flight) :
    refreshStep cfg doc a cancelled sh .entering = (sh, .waiting flight.number) := by
  simp [refreshStep, SingleFlight.Ride.step, current]

@[simp] theorem refreshStep_recording : refreshStep cfg doc a cancelled sh (.recording f) =
    ({ sh with client := { sh.client with lastRefreshAttempt := some sh.now } }, .fetching f) := rfl

@[simp] theorem refreshStep_fetching : refreshStep cfg doc a cancelled sh (.fetching f) =
    (sh, if cancelled then .finishing f (some .fetch) else .storing f) := by
  cases cancelled <;> rfl

@[simp] theorem refreshStep_storing : refreshStep cfg doc a cancelled sh (.storing f) =
    ({ sh with client := store cfg doc sh.client sh.now }, .finishing f none) := rfl

@[simp] theorem refreshStep_finishing {err : Option JwksError} :
    refreshStep cfg doc a cancelled sh (.finishing f err) =
      ({ sh with group := { sh.group with
          current := none, results := Function.update sh.group.results f (some err) } },
        .done err) := rfl

theorem refreshStep_waits (unended : sh.group.results f = none) :
    refreshStep cfg doc a cancelled sh (.waiting f) = (sh, .waiting f) := by
  simp [refreshStep, SingleFlight.Ride.step, unended]

theorem refreshStep_leaves {err : Option JwksError} (ended : sh.group.results f = some err) :
    refreshStep cfg doc a cancelled sh (.waiting f) = (sh, .done err) := by
  simp [refreshStep, SingleFlight.Ride.step, ended]

@[simp] theorem refreshStep_done {err : Option JwksError} :
    refreshStep cfg doc a cancelled sh (.done err) = (sh, .done err) := rfl

end Places

section Calling
variable (cfg : Settings) (doc : List JWK) (i : Nat) (kid : String) (cancelled : Bool) (sh : Shared)

/-- What a step of a call can be. -/
inductive Taken : Stage → Shared × Stage → Prop
  | finds {entry : CachedKey} (found : lookup sh.client sh.now kid = .fresh entry) :
    Taken .first (sh, .returned (.ok entry))
  | serves {entry : CachedKey} (found : lookup sh.client sh.now kid = .stale entry) :
    Taken .first (sh, .kicking entry)
  | misses (missed : lookup sh.client sh.now kid = .miss) : Taken .first (sh, .checking)
  | kicks (entry : CachedKey) :
    Taken (.kicking entry) (maybeKickBackgroundRefresh sh, .returned (.ok entry))
  | refused (short : shouldShortCircuit cfg sh.client sh.now kid = true) :
    Taken .checking (sh, .returned (.error (.negativeCached kid)))
  | passes (long : shouldShortCircuit cfg sh.client sh.now kid = false) :
    Taken .checking (sh, .refreshing .entering)
  | rides (r : Refresh) (unfinished : ∀ err, r ≠ .done err) : Taken (.refreshing r)
    ((refreshStep cfg doc (.caller i) cancelled sh r).1,
      .refreshing (refreshStep cfg doc (.caller i) cancelled sh r).2)
  | fails (err : JwksError) : Taken (.refreshing (.done (some err))) (sh, .returned (.error err))
  | refreshed : Taken (.refreshing (.done none)) (sh, .second)
  | reads {entry : CachedKey} (found : lookup sh.client sh.now kid = .fresh entry ∨
      lookup sh.client sh.now kid = .stale entry) : Taken .second (sh, .returned (.ok entry))
  | lacks (missed : lookup sh.client sh.now kid = .miss) : Taken .second (sh, .marking)
  | marks : Taken .marking ({ sh with client := markNegative cfg sh.client sh.now kid },
      .returned (.error (.notPresentAfterRefresh kid)))
  | stays (result : Except JwksError CachedKey) : Taken (.returned result) (sh, .returned result)

theorem callerStep_taken (stage : Stage) :
    Taken cfg doc i kid cancelled sh stage (callerStep cfg doc i kid cancelled sh stage) := by
  cases stage with
  | first =>
    rw [callerStep]
    cases looked : lookup sh.client sh.now kid with
    | miss => exact .misses looked
    | fresh entry => exact .finds looked
    | stale entry => exact .serves looked
  | kicking entry => exact .kicks entry
  | checking =>
    rw [callerStep]
    split
    · exact .refused ‹_›
    · exact .passes (Bool.eq_false_iff.mpr ‹_›)
  | refreshing r =>
    rcases r with ride | err
    · exact .rides (.riding ride) nofun
    · cases err with
      | none => exact .refreshed
      | some err => exact .fails err
  | second =>
    rw [callerStep]
    cases looked : lookup sh.client sh.now kid with
    | miss => exact .lacks looked
    | fresh entry => exact .reads (.inl looked)
    | stale entry => exact .reads (.inr looked)
  | marking => exact .marks
  | returned result => exact .stays result

end Calling

theorem stage_act {i : Nat} :
    ((w.step cfg doc kids (.act (.caller i))).callers i).stage =
      (callerStep cfg doc i (kids i) (w.callers i).cancelled w.shared (w.callers i).stage).2 := by
  simp [World.step]

theorem exists_taken (i : Nat) : ∃ sh stage,
    Taken cfg doc i (kids i) (w.callers i).cancelled w.shared (w.callers i).stage (sh, stage) ∧
      w.step cfg doc kids (.act (.caller i)) =
        ⟨sh, Function.update w.callers i { w.callers i with stage }⟩ ∧
      ((w.step cfg doc kids (.act (.caller i))).callers i).stage = stage :=
  ⟨_, _, callerStep_taken .., rfl, stage_act⟩

theorem loaded_store (c : Client) (now : Int) : Loaded doc (store cfg doc c now) := ⟨rfl, rfl⟩

/-- What a step of a refresh does to the client and to the results. -/
theorem refreshStep_spec (a : Agent) (cancelled : Bool) (sh : Shared) (r : Refresh) :
    let after := refreshStep cfg doc a cancelled sh r
    (Loaded doc after.1.client ∨
      after.1.client.keys = sh.client.keys ∧ after.1.client.hardExpiry = sh.client.hardExpiry) ∧
    (∀ f, after.1.group.results f = some none →
      sh.group.results f = some none ∨ r = .finishing f none) ∧
    (after.2.succeeded → Loaded doc after.1.client ∨ r.succeeded ∨
      ∃ f, sh.group.results f = some none) := by
  cases r with
  | entering =>
    cases current : sh.group.current with
    | none => simp [refreshStep_launches current, Refresh.succeeded]
    | some flight => simp [refreshStep_joins current, Refresh.succeeded]
  | recording f => simp [Refresh.succeeded]
  | fetching f => cases cancelled <;> simp [Refresh.succeeded]
  | storing f => simp [loaded_store, Refresh.succeeded]
  | finishing f err =>
    refine ⟨.inr ⟨rfl, rfl⟩, ?_, ?_⟩
    · intro g
      by_cases same : g = f
      · cases err <;> simp [same]
      · intro found
        exact .inl (by simpa [same] using found)
    · cases err <;> simp [Refresh.succeeded]
  | waiting f =>
    cases found : sh.group.results f with
    | none => simp [refreshStep_waits found, Refresh.succeeded]
    | some err =>
      rw [refreshStep_leaves found]
      cases err with
      | none => exact ⟨.inr ⟨rfl, rfl⟩, fun _ => .inl, fun _ => .inr (.inr ⟨f, found⟩)⟩
      | some err => simp [Refresh.succeeded]
  | done err => cases err <;> simp [Refresh.succeeded]

@[simp] theorem refreshStep_background (a : Agent) (cancelled : Bool) (sh : Shared) (r : Refresh) :
    (refreshStep cfg doc a cancelled sh r).1.background = sh.background := by
  rcases r with ride | err <;> rfl

@[simp] theorem refreshStep_bgRefresh (a : Agent) (cancelled : Bool) (sh : Shared) (r : Refresh) :
    (refreshStep cfg doc a cancelled sh r).1.client.bgRefresh = sh.client.bgRefresh := by
  cases r with
  | entering =>
    cases current : sh.group.current with
    | none => rw [refreshStep_launches current]
    | some flight => rw [refreshStep_joins current]
  | waiting f =>
    cases found : sh.group.results f with
    | none => rw [refreshStep_waits found]
    | some err => rw [refreshStep_leaves found]
  | fetching f => cases cancelled <;> rfl
  | _ => rfl

/-- A call that is not in a refresh, or is done with it, moves on. -/
theorem quiet_caller {i : Nat} {sh : Shared} {stage : Stage}
    (group : sh.group = w.shared.group) (keys : sh.client.keys = w.shared.client.keys)
    (hardExpiry : sh.client.hardExpiry = w.shared.client.hardExpiry)
    (background : sh.background = w.shared.background ∨
      w.shared.background = none ∧ sh.background = some .entering)
    (flagged : sh.background.isSome → sh.client.bgRefresh)
    (before : Aside (w.callers i).stage.refresh?)
    (later : stage.refresh? = none ∨ stage.refresh? = some .entering)
    (second : stage = .second → (w.callers i).stage = .refreshing (.done none)) :
    Quiet w ⟨sh, Function.update w.callers i { w.callers i with stage }⟩ where
  group := group
  keys := keys
  hardExpiry := hardExpiry
  refreshes a := by
    cases a with
    | background =>
      rcases background with same | ⟨idle, entering⟩
      · exact .inl same
      · exact .inr ⟨by simp [World.refreshOf, idle, Aside], .inr entering⟩
    | caller j =>
      by_cases mine : j = i
      · subst mine
        exact .inr ⟨before, by simpa [World.refreshOf] using later⟩
      · exact .inl (by simp [World.refreshOf, mine])
  second j := by
    by_cases mine : j = i
    · subst mine
      intro now_second
      exact .inr (second (by simpa using now_second))
    · intro still
      exact .inl (by simpa [mine] using still)
  flagged := flagged

theorem quiet_of_unchanged {after : World} (flagged : Flagged w)
    (group : after.shared.group = w.shared.group) (client : after.shared.client = w.shared.client)
    (background : after.shared.background = w.shared.background)
    (stages : ∀ i, (after.callers i).stage = (w.callers i).stage) : Quiet w after where
  group := group
  keys := by rw [client]
  hardExpiry := by rw [client]
  refreshes a := by
    cases a with
    | background => exact .inl background
    | caller i => exact .inl (by simp [World.refreshOf, stages])
  second i second := .inl ((stages i).symm.trans second)
  flagged running := by
    rw [client]
    exact flagged (background ▸ running)

/-- What a step of an unfinished refresh in the background is. -/
theorem background_refreshing {r : Refresh} (running : w.shared.background = some r)
    (unfinished : ∀ err, r ≠ .done err) :
    Advances cfg doc w (w.step cfg doc kids (.act .background)) .background r
      w.shared.backgroundCancelled := by
  let moved := refreshStep cfg doc .background w.shared.backgroundCancelled w.shared r
  have stepped : w.step cfg doc kids (.act .background) =
      { w with shared := { moved.1 with background := some moved.2 } } := by
    simp only [World.step, backgroundStep, running]
    cases r <;> rfl
  rw [stepped]
  refine ⟨running, unfinished, rfl, rfl, rfl, ?_, fun _ => id, by simp [running]⟩
  intro b other
  cases b with
  | background => exact absurd rfl other
  | caller i => rfl

theorem background_quiet (flagged : Flagged w)
    (ended : ∀ r, w.shared.background = some r → ∃ err, r = .done err) :
    Quiet w (w.step cfg doc kids (.act .background)) := by
  cases running : w.shared.background with
  | none =>
    have same : w.step cfg doc kids (.act .background) = w := by
      simp [World.step, backgroundStep, running]
    rw [same]
    exact quiet_of_unchanged flagged rfl rfl rfl fun _ => rfl
  | some r =>
    obtain ⟨err, rfl⟩ := ended r running
    have cleared : w.step cfg doc kids (.act .background) = { w with
        shared := { w.shared with
          background := none, client := { w.shared.client with bgRefresh := false } } } := by
      simp [World.step, backgroundStep, running]
    rw [cleared]
    refine ⟨rfl, rfl, rfl, ?_, fun _ => .inl, nofun⟩
    intro a
    cases a with
    | background => exact .inr ⟨by simp [World.refreshOf, running, Aside], .inl rfl⟩
    | caller i => exact .inl rfl

/-- What a step of a call in a refresh is. -/
theorem caller_refreshing {i : Nat} {r : Refresh} (stage : (w.callers i).stage = .refreshing r)
    (unfinished : ∀ err, r ≠ .done err) :
    Advances cfg doc w (w.step cfg doc kids (.act (.caller i))) (.caller i) r
      (w.callers i).cancelled := by
  let moved := refreshStep cfg doc (.caller i) (w.callers i).cancelled w.shared r
  have stepped : w.step cfg doc kids (.act (.caller i)) =
      ⟨moved.1, Function.update w.callers i { w.callers i with stage := .refreshing moved.2 }⟩ := by
    simp only [World.step, stage]
    cases r <;> first | rfl | exact absurd rfl (unfinished _)
  rw [stepped]
  refine ⟨by simp [World.refreshOf, stage, Stage.refresh?], unfinished, rfl, rfl,
    by simp [World.refreshOf, Stage.refresh?, moved], ?_, ?_, by simp [moved]⟩
  · intro b other
    cases b with
    | background => simp [World.refreshOf, moved]
    | caller j =>
      have elsewhere : j ≠ i := fun same => other (congrArg Agent.caller same)
      simp [World.refreshOf, elsewhere]
  · intro j second
    by_cases mine : j = i
    · subst mine
      simp at second
    · simpa [mine] using second

/-- What a step of a call is that is not in a refresh, or is done with it. -/
theorem caller_quiet (flagged : Flagged w) {i : Nat}
    (ended : ∀ r, (w.callers i).stage = .refreshing r → ∃ err, r = .done err) :
    Quiet w (w.step cfg doc kids (.act (.caller i))) := by
  have before : Aside (w.callers i).stage.refresh? := by
    cases stage : (w.callers i).stage with
    | refreshing r =>
      obtain ⟨err, rfl⟩ := ended r stage
      trivial
    | _ => trivial
  obtain ⟨sh, stage, taken, stepped, -⟩ := @exists_taken cfg doc kids w i
  rw [stepped]
  generalize at_i : (w.callers i).stage = here at taken
  cases taken with
  | kicks entry =>
    unfold maybeKickBackgroundRefresh
    split
    · exact quiet_caller rfl rfl rfl (.inl rfl) flagged before (.inl rfl) nofun
    · rename_i unflagged
      have idle : w.shared.background = none := by
        by_contra running
        exact unflagged (flagged (Option.isSome_iff_ne_none.mpr running))
      exact quiet_caller rfl rfl rfl (.inr ⟨idle, rfl⟩) (fun _ => rfl) before (.inl rfl) nofun
  | passes long => exact quiet_caller rfl rfl rfl (.inl rfl) flagged before (.inr rfl) nofun
  | refreshed => exact quiet_caller rfl rfl rfl (.inl rfl) flagged before (.inl rfl) fun _ => at_i
  | rides r unfinished =>
    obtain ⟨err, same⟩ := ended r at_i
    exact absurd same (unfinished err)
  | _ => exact quiet_caller rfl rfl rfl (.inl rfl) flagged before (.inl rfl) nofun

/-- What an event can be: a step of a refresh, or a quiet one. -/
theorem step_cases (flagged : Flagged w) (e : Event) :
    Quiet w (w.step cfg doc kids e) ∨
      ∃ a r cancelled, e = .act a ∧ Advances cfg doc w (w.step cfg doc kids e) a r cancelled := by
  cases e with
  | tick elapsed | cancelBackground =>
    exact .inl (quiet_of_unchanged flagged rfl rfl rfl fun _ => rfl)
  | cancel i =>
    refine .inl (quiet_of_unchanged flagged rfl rfl rfl fun j => ?_)
    by_cases mine : j = i
    · subst mine
      simp [World.step]
    · simp [World.step, mine]
  | act a =>
    cases a with
    | background =>
      by_cases inside : ∃ r, w.shared.background = some r ∧ ∀ err, r ≠ .done err
      · obtain ⟨r, running, unfinished⟩ := inside
        exact .inr ⟨.background, r, _, rfl, background_refreshing running unfinished⟩
      · refine .inl (background_quiet flagged fun r running => ?_)
        by_contra unfinished
        exact inside ⟨r, running, fun err same => unfinished ⟨err, same⟩⟩
    | caller i =>
      by_cases inside : ∃ r, (w.callers i).stage = .refreshing r ∧ ∀ err, r ≠ .done err
      · obtain ⟨r, stage, unfinished⟩ := inside
        exact .inr ⟨.caller i, r, _, rfl, caller_refreshing stage unfinished⟩
      · refine .inl (caller_quiet flagged fun r stage => ?_)
        by_contra unfinished
        exact inside ⟨r, stage, fun err same => unfinished ⟨err, same⟩⟩

theorem Advances.flagged {after : World} {a : Agent} {r : Refresh} {cancelled : Bool}
    (advances : Advances cfg doc w after a r cancelled) (flagged : Flagged w) : Flagged after := by
  intro running
  rw [advances.background] at running
  rw [advances.client, refreshStep_bgRefresh]
  exact flagged running

theorem Flagged.step (flagged : Flagged w) (e : Event) : Flagged (w.step cfg doc kids e) := by
  rcases step_cases flagged e with quiet | ⟨a, r, cancelled, -, advances⟩
  · exact quiet.flagged
  · exact advances.flagged flagged

theorem Loaded.congr {c c' : Client} (loaded : Loaded doc c) (keys : c'.keys = c.keys)
    (hardExpiry : c'.hardExpiry = c.hardExpiry) : Loaded doc c' :=
  ⟨keys.trans loaded.1, hardExpiry ▸ loaded.2⟩

theorem Sound.quiet {after : World} (sound : Sound doc w) (quiet : Quiet w after) :
    Sound doc after := by
  have kept : Loaded doc w.shared.client → Loaded doc after.shared.client :=
    fun loaded => loaded.congr quiet.keys quiet.hardExpiry
  refine ⟨?_, ?_, ?_, ?_, quiet.flagged⟩
  · exact sound.client.imp
      (fun blank => ⟨quiet.keys.trans blank.1, quiet.hardExpiry.trans blank.2⟩) kept
  · intro f succeeded
    exact kept (sound.results f (quiet.group ▸ succeeded))
  · intro a r inside succeeded
    rcases quiet.refreshes a with same | ⟨-, gone | entering⟩
    · exact kept (sound.refreshes a r (same ▸ inside) succeeded)
    · rw [gone] at inside
      cases inside
    · rw [entering] at inside
      cases inside
      cases succeeded
  · intro i second
    rcases quiet.second i second with already | succeeded
    · exact kept (sound.second i already)
    · exact kept (sound.refreshes (.caller i) (.done none)
        (by simp [World.refreshOf, succeeded, Stage.refresh?]) trivial)

theorem Sound.advances {after : World} {a : Agent} {r : Refresh} {cancelled : Bool}
    (sound : Sound doc w) (advances : Advances cfg doc w after a r cancelled) :
    Sound doc after := by
  obtain ⟨client, results, succeeds⟩ := @refreshStep_spec cfg doc a cancelled w.shared r
  rw [← advances.client] at client succeeds
  rw [← advances.group] at results
  have kept : Loaded doc w.shared.client → Loaded doc after.shared.client := by
    intro loaded
    rcases client with stored | ⟨keys, hardExpiry⟩
    · exact stored
    · exact loaded.congr keys hardExpiry
  refine ⟨?_, ?_, ?_, ?_, ?_⟩
  · rcases client with stored | ⟨keys, hardExpiry⟩
    · exact .inr stored
    · exact sound.client.imp
        (fun blank => ⟨keys.trans blank.1, hardExpiry.trans blank.2⟩) kept
  · intro f succeeded
    rcases results f succeeded with earlier | rfl
    · exact kept (sound.results f earlier)
    · exact kept (sound.refreshes a _ advances.before trivial)
  · intro b r' inside succeeded
    by_cases mine : b = a
    · subst mine
      rw [advances.refresh] at inside
      cases inside
      rcases succeeds succeeded with loaded | already | ⟨f, shared⟩
      · exact loaded
      · exact kept (sound.refreshes b r advances.before already)
      · exact kept (sound.results f shared)
    · exact kept (sound.refreshes b r' (advances.others b mine ▸ inside) succeeded)
  · intro i second
    exact kept (sound.second i (advances.second i second))
  · exact advances.flagged sound.flagged

theorem Sound.step (sound : Sound doc w) (e : Event) : Sound doc (w.step cfg doc kids e) := by
  rcases step_cases sound.flagged e with quiet | ⟨a, r, cancelled, -, advances⟩
  · exact sound.quiet quiet
  · exact sound.advances advances

theorem sound_initial (start : Int) : Sound doc (initial start) where
  client := .inl ⟨rfl, rfl⟩
  results := nofun
  refreshes a r inside := by cases a <;> cases inside
  second := nofun
  flagged := nofun

end Steps

/-! ## One call -/

section OneCall
variable (cfg : Settings) (kids : Nat → String)

/-- Nothing stands in the way of the next step of a call: it is not refused for an attempt made
not long ago or as a key found missing, the refresh it waits for does not fail, and the keys it
looks up after a refresh have not expired. -/
def Unhindered (w : World) (i : Nat) : Prop :=
  match (w.callers i).stage with
  | .checking =>
    (∀ expiry, w.shared.client.negKids[kids i]? = some expiry → expiry ≤ w.shared.now) ∧
    (∀ last, w.shared.client.lastRefreshAttempt = some last →
      cfg.minRefreshInterval ≤ w.shared.now - last)
  | .refreshing (.waiting f) => ∀ err, w.shared.group.results f ≠ some (some err)
  | .second => ∀ expiry, w.shared.client.hardExpiry = some expiry → w.shared.now ≤ expiry
  | _ => True

/-- Every step the call takes in a run is unhindered. -/
def Clear (doc : List JWK) (i : Nat) : World → List Event → Prop
  | _, [] => True
  | w, e :: rest =>
    (e = .act (.caller i) → Unhindered cfg kids w i) ∧ Clear doc i (w.step cfg doc kids e) rest

/-- Stages from which a call can only return the entry, or be hindered. -/
def OnCourse (entry : CachedKey) : Stage → Prop
  | .kicking found => found = entry
  | .refreshing (.finishing _ err) => err = none
  | .refreshing (.done err) => err = none
  | .marking => False
  | .returned result => result = .ok entry
  | _ => True

end OneCall

section Calls
variable {cfg : Settings} {doc : List JWK} {kids : Nat → String} {w : World} {i : Nat}
  {entry : CachedKey}

theorem shouldShortCircuit_eq_false_iff (c : Client) (now : Int) (kid : String) :
    shouldShortCircuit cfg c now kid = false ↔
      (∀ expiry, c.negKids[kid]? = some expiry → expiry ≤ now) ∧
      (∀ last, c.lastRefreshAttempt = some last → cfg.minRefreshInterval ≤ now - last) := by
  unfold shouldShortCircuit
  cases c.negKids[kid]? <;> cases c.lastRefreshAttempt <;> simp

/-- The cache holds the entry, or nothing under its ID. -/
theorem Sound.lookup_cases (sound : Sound doc w) {kid : String}
    (served : (keysOf doc)[kid]? = some entry) :
    lookup w.shared.client w.shared.now kid = .miss ∨
      lookup w.shared.client w.shared.now kid = .fresh entry ∨
      lookup w.shared.client w.shared.now kid = .stale entry := by
  have stored : w.shared.client.keys[kid]? = none ∨ w.shared.client.keys[kid]? = some entry := by
    rcases sound.client with blank | loaded
    · exact .inl (by simp [blank.1])
    · exact .inr (by rw [loaded.1, served])
  unfold lookup
  split
  · exact .inl rfl
  · rcases stored with absent | present
    · exact .inl (by rw [absent])
    · rw [present]
      simp only
      split <;> simp

theorem lookup_loaded (loaded : Loaded doc w.shared.client) {kid : String}
    (served : (keysOf doc)[kid]? = some entry) :
    lookup w.shared.client w.shared.now kid ≠ .miss ↔
      ∀ expiry, w.shared.client.hardExpiry = some expiry → w.shared.now ≤ expiry := by
  unfold lookup
  rw [loaded.1, served]
  obtain ⟨expiry, set⟩ := Option.isSome_iff_exists.mp loaded.2
  by_cases expired : expiry < w.shared.now
  · simp [set, expired]
  · have live : w.shared.now ≤ expiry := by omega
    simp only [set, Option.any_some, expired, decide_false, Bool.false_eq_true, if_false,
      Option.some.injEq, forall_eq', live, iff_true]
    split <;> simp

/-- An agent other than the call does not move it. -/
theorem stage_step_of_ne {e : Event} (other : e ≠ .act (.caller i)) :
    ((w.step cfg doc kids e).callers i).stage = (w.callers i).stage := by
  cases e with
  | act a =>
    cases a with
    | background => rfl
    | caller j =>
      have elsewhere : i ≠ j := fun same => other (by rw [same])
      simp [World.step, elsewhere]
  | cancel j =>
    by_cases mine : i = j
    · subst mine
      simp [World.step]
    · simp [World.step, mine]
  | cancelBackground | tick elapsed => rfl

theorem cancelled_step {e : Event} (other : e ≠ .cancel i) :
    ((w.step cfg doc kids e).callers i).cancelled = (w.callers i).cancelled := by
  cases e with
  | act a =>
    cases a with
    | background => rfl
    | caller j =>
      by_cases mine : i = j
      · subst mine
        simp [World.step]
      · simp [World.step, mine]
  | cancel j =>
    have elsewhere : i ≠ j := fun same => other (by rw [same])
    simp [World.step, elsewhere]
  | cancelBackground | tick elapsed => rfl

/-- A step of a call on course leaves it on course exactly if it is unhindered. -/
theorem onCourse_act_iff (sound : Sound doc w) (served : (keysOf doc)[kids i]? = some entry)
    (uncancelled : (w.callers i).cancelled = false)
    (course : OnCourse entry (w.callers i).stage) :
    OnCourse entry ((w.step cfg doc kids (.act (.caller i))).callers i).stage ↔
      Unhindered cfg kids w i := by
  rw [stage_act]
  unfold Unhindered
  cases stage : (w.callers i).stage with
  | first =>
    rcases sound.lookup_cases served with looked | looked | looked <;>
      simp [callerStep, looked, OnCourse]
  | kicking found =>
    rw [stage] at course
    have same : found = entry := course
    simp [callerStep, OnCourse, same]
  | checking =>
    simp only [callerStep, ← shouldShortCircuit_eq_false_iff]
    cases shouldShortCircuit cfg w.shared.client w.shared.now (kids i) <;> simp [OnCourse]
  | second =>
    have loaded := sound.second i stage
    rw [← lookup_loaded loaded served]
    rcases sound.lookup_cases served with looked | looked | looked <;>
      simp [callerStep, looked, OnCourse]
  | marking => rw [stage] at course; cases course
  | returned result =>
    rw [stage] at course
    have same : result = .ok entry := course
    simp [callerStep, OnCourse, same]
  | refreshing r =>
    rw [stage] at course
    cases r with
    | entering =>
      cases current : w.shared.group.current with
      | none => simp [callerStep, refreshStep_launches current, OnCourse]
      | some flight => simp [callerStep, refreshStep_joins current, OnCourse]
    | recording f | storing f => simp [callerStep, OnCourse]
    | fetching f => simp [callerStep, uncancelled, OnCourse]
    | finishing f err | done err =>
      have succeeded : err = none := course
      simp [callerStep, succeeded, OnCourse]
    | waiting f =>
      cases result : w.shared.group.results f with
      | none => simp [callerStep, refreshStep_waits result, result, OnCourse]
      | some err => cases err <;> simp [callerStep, refreshStep_leaves result, result, OnCourse]

/-- A call that is off course stays so. -/
theorem offCourse_act (off : ¬ OnCourse entry (w.callers i).stage) :
    ¬ OnCourse entry ((w.step cfg doc kids (.act (.caller i))).callers i).stage := by
  obtain ⟨sh, stage, taken, -, moved⟩ := @exists_taken cfg doc kids w i
  rw [moved]
  generalize (w.callers i).stage = here at taken off
  cases taken with
  | rides r unfinished =>
    cases r with
    | finishing f err => exact off
    | done err => exact absurd rfl (unfinished err)
    | entering | recording f | fetching f | storing f | waiting f => exact absurd trivial off
  | kicks entry => exact fun same => off (Except.ok.inj same)
  | refreshed => exact absurd rfl off
  | marks | fails err => exact nofun
  | stays result => exact off
  | _ => exact absurd trivial off

@[simp] theorem run_cons (e : Event) (rest : List Event) :
    run cfg doc kids w (e :: rest) = run cfg doc kids (w.step cfg doc kids e) rest := rfl

theorem offCourse_run (off : ¬ OnCourse entry (w.callers i).stage) (events : List Event) :
    ¬ OnCourse entry ((run cfg doc kids w events).callers i).stage := by
  induction events generalizing w with
  | nil => exact off
  | cons e rest ih =>
    apply ih
    by_cases mine : e = .act (.caller i)
    · rw [mine]
      exact offCourse_act off
    · rwa [stage_step_of_ne mine]

/-- Along a run in which it is not cancelled, a call stays on course exactly if all its steps
are unhindered. -/
theorem onCourse_run_iff (sound : Sound doc w) (served : (keysOf doc)[kids i]? = some entry)
    (uncancelled : (w.callers i).cancelled = false)
    (course : OnCourse entry (w.callers i).stage) (events : List Event)
    (spared : .cancel i ∉ events) :
    OnCourse entry ((run cfg doc kids w events).callers i).stage ↔
      Clear cfg kids doc i w events := by
  induction events generalizing w with
  | nil => simpa [run, Clear] using course
  | cons e rest ih =>
    obtain ⟨kept, spared_rest⟩ : .cancel i ≠ e ∧ .cancel i ∉ rest := by simpa using spared
    have uncancelled' : ((w.step cfg doc kids e).callers i).cancelled = false :=
      (cancelled_step kept.symm).trans uncancelled
    by_cases mine : e = .act (.caller i)
    · subst mine
      have stepped : OnCourse entry ((w.step cfg doc kids (.act (.caller i))).callers i).stage ↔
          Unhindered cfg kids w i := onCourse_act_iff sound served uncancelled course
      by_cases unhindered : Unhindered cfg kids w i
      · have later := ih (sound.step _) uncancelled' (stepped.mpr unhindered) spared_rest
        simpa [Clear, unhindered] using later
      · have off : ¬ OnCourse entry
            ((run cfg doc kids (w.step cfg doc kids (.act (.caller i))) rest).callers i).stage :=
          offCourse_run (fun on => unhindered (stepped.mp on)) rest
        simpa [Clear, unhindered] using off
    · have same : OnCourse entry ((w.step cfg doc kids e).callers i).stage := by
        rwa [stage_step_of_ne mine]
      have later := ih (sound.step e) uncancelled' same spared_rest
      simpa [Clear, mine] using later

end Calls

/-! ## Every call returns -/

section Progress
variable {cfg : Settings} {doc : List JWK} {kids : Nat → String} {w : World} {i : Nat}

def Refresh.ride? : Refresh → Option Ride
  | .riding ride => some ride
  | .done _ => none

def World.rides (w : World) (a : Agent) : Option Ride := (w.refreshOf a).bind Refresh.ride?

def Refresh.leads (f : Nat) (r : Refresh) : Prop := r.ride?.bind SingleFlight.Ride.leads = some f

/-- The refreshes are shared as they should be. -/
def Orderly (w : World) : Prop := SingleFlight.Orderly w.shared.group w.rides

theorem orderly_initial (start : Int) : Orderly (initial start) := by
  have outside : (initial start).rides = fun _ => none := by
    funext a
    cases a <;> rfl
  rw [Orderly, outside]
  exact SingleFlight.orderly_empty

/-- The refresh under way is that of its leader. -/
theorem Orderly.led (orderly : Orderly w) (a : Agent) (f : Nat) :
    w.shared.group.current = some ⟨f, a⟩ ↔ ∃ r, w.refreshOf a = some r ∧ r.leads f := by
  rw [← SingleFlight.Orderly.leads_iff orderly, World.rides, Option.bind_assoc,
    Option.bind_eq_some_iff]
  rfl

theorem Orderly.awaits (orderly : Orderly w) {a : Agent} {f : Nat}
    (waiting : w.refreshOf a = some (.waiting f)) :
    (∃ b, w.shared.group.current = some ⟨f, b⟩) ∨ (w.shared.group.results f).isSome :=
  SingleFlight.Orderly.awaited orderly a f (by rw [World.rides, waiting]; rfl)

theorem leads_of_aside {r : Option Refresh} (aside : Aside r) :
    (r.bind Refresh.ride?).bind SingleFlight.Ride.leads = none := by
  cases r with
  | none => rfl
  | some r => cases r <;> first | rfl | cases aside

theorem Orderly.quiet {after : World} (orderly : Orderly w) (quiet : Quiet w after) :
    Orderly after := by
  unfold Orderly
  rw [quiet.group]
  refine SingleFlight.Orderly.rearrange orderly (fun a => ?_) fun a f waits => ?_
  · simp only [World.rides]
    rcases quiet.refreshes a with same | ⟨aside, gone | entering⟩
    · rw [same]
    · rw [gone, leads_of_aside aside]
      rfl
    · rw [entering, leads_of_aside aside]
      rfl
  · rcases quiet.refreshes a with same | ⟨-, gone | entering⟩
    · rw [World.rides, same] at waits
      exact SingleFlight.Orderly.awaited orderly a f waits
    · simp [World.rides, gone] at waits
    · rw [World.rides, entering] at waits
      cases waits

theorem Orderly.advances {after : World} {a : Agent} {r : Refresh} {cancelled : Bool}
    (orderly : Orderly w) (advances : Advances cfg doc w after a r cancelled) : Orderly after := by
  rcases r with ride | err
  · have aboard : w.rides a = some ride := by rw [World.rides, advances.before]; rfl
    have kept := SingleFlight.Orderly.step .recording
      (refreshWork cfg doc cancelled w.shared.now) w.shared.client orderly aboard
    have rides : after.rides = Function.update w.rides a (ride.step .recording
        (refreshWork cfg doc cancelled w.shared.now) a w.shared.group
        w.shared.client).2.2.getLeft? := by
      funext b
      by_cases mine : b = a
      · rw [mine, Function.update_self, World.rides, advances.refresh]
        simp only [refreshStep, Option.bind_some]
        cases (ride.step .recording (refreshWork cfg doc cancelled w.shared.now) a w.shared.group
          w.shared.client).2.2 <;> rfl
      · rw [Function.update_of_ne mine, World.rides, advances.others b mine]
        rfl
    rw [Orderly, advances.group, rides]
    exact kept
  · exact absurd rfl (advances.unfinished err)

theorem Orderly.step (flagged : Flagged w) (orderly : Orderly w) (e : Event) :
    Orderly (w.step cfg doc kids e) := by
  rcases step_cases flagged e with quiet | ⟨a, r, cancelled, -, advances⟩
  · exact orderly.quiet quiet
  · exact orderly.advances advances

/-- The invariants of every reachable state, along a run. -/
theorem run_kept (sound : Sound doc w) (orderly : Orderly w) (events : List Event) :
    Sound doc (run cfg doc kids w events) ∧ Orderly (run cfg doc kids w events) := by
  induction events generalizing w with
  | nil => exact ⟨sound, orderly⟩
  | cons e rest ih => exact ih (sound.step e) (orderly.step sound.flagged e)

theorem agent_refreshing {a : Agent} {r : Refresh} (inside : w.refreshOf a = some r)
    (unfinished : ∀ err, r ≠ .done err) :
    ∃ cancelled, Advances cfg doc w (w.step cfg doc kids (.act a)) a r cancelled := by
  cases a with
  | background => exact ⟨_, background_refreshing inside unfinished⟩
  | caller i =>
    have stage : (w.callers i).stage = .refreshing r := by
      cases stage : (w.callers i).stage <;>
        simp [World.refreshOf, stage, Stage.refresh?] at inside
      rw [inside]
    exact ⟨_, caller_refreshing stage unfinished⟩

/-- How many steps the leader of a refresh has before it ends it. -/
def Refresh.toGo : Refresh → Nat
  | .recording _ => 3
  | .fetching _ => 2
  | .storing _ => 1
  | _ => 0

/-- The leader of a refresh can end it by its own steps. -/
theorem exists_landing {a : Agent} {r : Refresh} {f : Nat} (inside : w.refreshOf a = some r)
    (leads : r.leads f) :
    ∃ n, ((run cfg doc kids w (List.replicate n (.act a))).shared.group.results f).isSome := by
  induction left : r.toGo using Nat.strongRecOn generalizing w r with
  | ind left' ih =>
    subst left
    have unfinished : ∀ err, r ≠ .done err := by
      rintro err rfl
      cases leads
    obtain ⟨cancelled, advances⟩ := @agent_refreshing cfg doc kids w a r inside unfinished
    -- One step on, the leader is closer to its end.
    have later : ∀ r', (refreshStep cfg doc a cancelled w.shared r).2 = r' → r'.leads f →
        r'.toGo < r.toGo →
        ∃ n, ((run cfg doc kids w (List.replicate n (.act a))).shared.group.results f).isSome := by
      rintro r' rfl leads' closer
      obtain ⟨n, ended⟩ := ih _ closer advances.refresh leads' rfl
      exact ⟨n + 1, ended⟩
    cases r with
    | recording g => exact later (.fetching g) rfl leads (by simp [Refresh.toGo])
    | fetching g =>
      cases cancelled with
      | false => exact later (.storing g) rfl leads (by simp [Refresh.toGo])
      | true => exact later (.finishing g _) rfl leads (by simp [Refresh.toGo])
    | storing g => exact later (.finishing g none) rfl leads (by simp [Refresh.toGo])
    | finishing g err =>
      obtain rfl : g = f := Option.some.inj leads
      refine ⟨1, ?_⟩
      change ((w.step cfg doc kids (.act a)).shared.group.results g).isSome
      rw [advances.group]
      simp
    | entering | waiting g | done err => cases leads

/-- How far a call is from its return. -/
def Stage.toGo : Stage → Nat
  | .first => 11
  | .checking => 10
  | .refreshing .entering => 9
  | .refreshing (.recording _) => 8
  | .refreshing (.fetching _) => 7
  | .refreshing (.storing _) => 6
  | .refreshing (.finishing _ _) => 5
  | .refreshing (.waiting _) => 5
  | .refreshing (.done _) => 4
  | .second => 3
  | .marking => 2
  | .kicking _ => 1
  | .returned _ => 0

/-- A step of a call that does not wait brings it closer to its return. -/
theorem toGo_act_lt (unreturned : ∀ result, (w.callers i).stage ≠ .returned result)
    (unwaiting : ∀ f, (w.callers i).stage = .refreshing (.waiting f) →
      (w.shared.group.results f).isSome) :
    ((w.step cfg doc kids (.act (.caller i))).callers i).stage.toGo <
      (w.callers i).stage.toGo := by
  obtain ⟨sh, stage, taken, -, moved⟩ := @exists_taken cfg doc kids w i
  rw [moved]
  generalize (w.callers i).stage = here at taken unreturned unwaiting
  cases taken with
  | rides r unfinished =>
    cases r with
    | entering =>
      cases current : w.shared.group.current with
      | none => simp [refreshStep_launches current, Stage.toGo]
      | some flight => simp [refreshStep_joins current, Stage.toGo]
    | fetching f => cases (w.callers i).cancelled <;> simp [Stage.toGo]
    | waiting f =>
      obtain ⟨err, result⟩ := Option.isSome_iff_exists.mp (unwaiting f rfl)
      simp [refreshStep_leaves result, Stage.toGo]
    | done err => exact absurd rfl (unfinished err)
    | recording f | storing f | finishing f err => simp [Stage.toGo]
  | stays result => exact absurd rfl (unreturned result)
  | _ => simp [Stage.toGo]

theorem stage_replicate_of_ne {a : Agent} (other : a ≠ .caller i) (n : Nat) :
    ((run cfg doc kids w (List.replicate n (.act a))).callers i).stage = (w.callers i).stage := by
  induction n generalizing w with
  | zero => rfl
  | succ n ih =>
    rw [List.replicate_succ, run_cons, ih]
    exact stage_step_of_ne (by simpa using other)

/-- Whoever waits for a refresh gets its result if its leader goes on. -/
theorem exists_result (orderly : Orderly w) :
    ∃ (more : List Event), (∀ e ∈ more, ∃ a, e = .act a) ∧
      ((run cfg doc kids w more).callers i).stage = (w.callers i).stage ∧
      ∀ f, (w.callers i).stage = .refreshing (.waiting f) →
        ((run cfg doc kids w more).shared.group.results f).isSome := by
  by_cases waits : ∃ f, (w.callers i).stage = .refreshing (.waiting f)
  · obtain ⟨f, stage⟩ := waits
    have inside : w.refreshOf (.caller i) = some (.waiting f) := by
      simp [World.refreshOf, stage, Stage.refresh?]
    rcases orderly.awaits inside with ⟨b, flying⟩ | ended
    · obtain ⟨r, leading, leads⟩ := (orderly.led b f).mp flying
      have other : b ≠ .caller i := by
        rintro rfl
        rw [inside] at leading
        cases leading
        cases leads
      obtain ⟨n, ended⟩ := @exists_landing cfg doc kids w b r f leading leads
      refine ⟨List.replicate n (.act b), ?_, stage_replicate_of_ne other n, ?_⟩
      · intro e member
        exact ⟨b, List.eq_of_mem_replicate member⟩
      · intro g same
        rw [stage] at same
        cases same
        exact ended
    · refine ⟨[], by simp, rfl, ?_⟩
      intro g same
      rw [stage] at same
      cases same
      exact ended
  · exact ⟨[], by simp, rfl, fun f stage => absurd ⟨f, stage⟩ waits⟩

theorem run_append (w : World) (first second : List Event) :
    run cfg doc kids w (first ++ second) = run cfg doc kids (run cfg doc kids w first) second :=
  List.foldl_append

/-- From every reachable state a call returns, if it and the refresh it waits for go on. -/
theorem exists_return (sound : Sound doc w) (orderly : Orderly w) (i : Nat) :
    ∃ more : List Event, (∀ e ∈ more, ∃ a, e = .act a) ∧
      ∃ result, ((run cfg doc kids w more).callers i).stage = .returned result := by
  induction left : (w.callers i).stage.toGo using Nat.strongRecOn generalizing w with
  | ind left' ih =>
    subst left
    by_cases returned : ∃ result, (w.callers i).stage = .returned result
    · exact ⟨[], by simp, returned⟩
    obtain ⟨first, acts, same_stage, awaited⟩ := @exists_result cfg doc kids w i orderly
    obtain ⟨sound', orderly'⟩ := @run_kept cfg doc kids w sound orderly first
    have closer : (((run cfg doc kids w first).step cfg doc kids
        (.act (.caller i))).callers i).stage.toGo < (w.callers i).stage.toGo := by
      rw [← same_stage]
      apply toGo_act_lt
      · intro result returned_now
        exact returned ⟨result, same_stage ▸ returned_now⟩
      · intro f waiting
        exact awaited f (same_stage ▸ waiting)
    obtain ⟨more, acts', result, ended⟩ :=
      ih _ closer (sound'.step _) (orderly'.step sound'.flagged _) rfl
    refine ⟨first ++ .act (.caller i) :: more, ?_, result, ?_⟩
    · intro e member
      rcases List.mem_append.mp member with early | late
      · exact acts e early
      · rcases List.mem_cons.mp late with rfl | last
        · exact ⟨_, rfl⟩
        · exact acts' e last
    · rw [run_append, run_cons]
      exact ended

end Progress

/-- A call for a key that the issuer serves, and that is never cancelled, returns: from every
state of every run it does so if it and the refresh it may wait for go on. And it returns the
key exactly if its steps were unhindered, whatever other calls did. -/
theorem key_returned_iff (cfg : Settings) (doc : List JWK) (kids : Nat → String) (start : Int)
    (i : Nat) (entry : CachedKey) (served : (keysOf doc)[kids i]? = some entry)
    (events : List Event) (uncancelled : .cancel i ∉ events) :
    (∀ result, ((run cfg doc kids (initial start) events).callers i).stage = .returned result →
      (result = .ok entry ↔ Clear cfg kids doc i (initial start) events)) ∧
    (∃ more : List Event, (∀ e ∈ more, ∃ a, e = .act a) ∧
      ∃ result, ((run cfg doc kids (initial start) (events ++ more)).callers i).stage =
        .returned result) := by
  obtain ⟨sound, orderly⟩ :=
    @run_kept cfg doc kids (initial start) (sound_initial start) (orderly_initial start) events
  constructor
  · intro result returned
    have course : OnCourse entry ((run cfg doc kids (initial start) events).callers i).stage ↔
        Clear cfg kids doc i (initial start) events :=
      onCourse_run_iff (sound_initial start) served rfl trivial events uncancelled
    rw [returned] at course
    exact course
  · obtain ⟨more, acts, result, returned⟩ := @exists_return cfg doc kids _ sound orderly i
    exact ⟨more, acts, result, by rw [run_append]; exact returned⟩

def sampleDocument : List JWK := [⟨"EC", "k", "sig", "ES256", "", "", "P-256", "AQ", "Ag"⟩]

def sampleEntry : CachedKey := ⟨.ec .p256 1 2, "ES256"⟩

def sampleSettings : Settings := settings 0 0 0 0

/-- Two calls for one key; the second asks for the refresh before the first has recorded it. -/
def sharedRefresh : List Event :=
  [.caller 0, .caller 0, .caller 1, .caller 1, .caller 0, .caller 1, .caller 0, .caller 0,
    .caller 0, .caller 0, .caller 1, .caller 1, .caller 1].map .act

theorem key_returned_shared :
    Clear sampleSettings (fun _ => "k") sampleDocument 1 (initial 0) sharedRefresh :=
  ((key_returned_iff sampleSettings sampleDocument (fun _ => "k") 0 1 sampleEntry
    (by decide +kernel) sharedRefresh (by simp [sharedRefresh])).1 (.ok sampleEntry)
      (by rfl)).mp rfl

/-- Two calls for one key, with nothing cancelled and nothing unknown: the second looks for the
key while the first fetches it, and is told that the key is not there. -/
theorem refused_during_fetch :
    (keysOf sampleDocument)["k"]? = some sampleEntry ∧
    ((run sampleSettings sampleDocument (fun _ => "k") (initial 0)
      ([.caller 0, .caller 0, .caller 0, .caller 0, .caller 1, .caller 1].map .act)).callers
        1).stage = .returned (.error (.negativeCached "k")) :=
  ⟨by decide +kernel, by rfl⟩

/-- A call that waits for a refresh fails with the call that makes it, and a later one is
refused for the attempt. -/
example :
    let joining : List Agent :=
      [.caller 0, .caller 0, .caller 1, .caller 1, .caller 0, .caller 1, .caller 0]
    let failing : List Agent :=
      [.caller 0, .caller 0, .caller 1, .caller 1, .caller 2, .caller 2]
    let w := run sampleSettings sampleDocument (fun _ => "k") (initial 0)
      (joining.map Event.act ++ .cancel 0 :: failing.map Event.act)
    (w.callers 1).stage = .returned (.error .fetch) ∧
      (w.callers 2).stage = .returned (.error (.negativeCached "k")) :=
  ⟨by rfl, by rfl⟩

end JwksClient
