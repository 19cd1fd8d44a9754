import StacProxy.OAuth2Soundness

/-!
# The tokens that a refresh may return

A `Refresh` looks at the cache as `getToken` does, so it may return without a fetch. When no token
from before is there at the call, all the tokens it can get are from the fetch under way or from a
later one.
-/

namespace OAuth2Token

open SingleFlight Chronicle

section Service
variable {s s' : Noted World Ledger} {kinds : Nat → Kind} {i : Nat}

/-- Whatever token call `i` can still get comes from a flight that was not over when the call was
made. -/
structure Served (s : Noted World Ledger) (i : Nat) : Prop where
  made : s.state.calls i ≠ .start
  ended : ∀ f, s.notes.ended i f = true → (s.state.group.results f).isSome
  cached : s.state.usable = true → ∀ o, s.notes.cached = some o →
    s.notes.ended i o.flight = false
  origins : ∀ f o, s.notes.ended i f = false → s.notes.origins f = some o →
    s.notes.ended i o.flight = false
  waiting : ∀ f, s.state.calls i = .riding (.waiting f) → s.notes.ended i f = false
  got : ∀ token, s.state.calls i = .returned (.ok token) → ∀ o, s.notes.got i = some o →
    s.notes.ended i o.flight = false

/-- Where the leader of the flight under way is, found from the group. -/
theorem leader_of_current {w : World} (orderly : Orderly w) {f j : Nat}
    (current : w.group.current = some ⟨f, j⟩) :
    ∃ ride, w.calls j = .riding ride ∧ ride.leads = some f ∧ w.leader = some ride := by
  obtain ⟨ride, aboard, leads⟩ := Option.bind_eq_some_iff.mp ((orderly.leads_iff j f).mpr current)
  cases at_j : w.calls j with
  | start | returned result => simp [World.rides, at_j, Stage.ride] at aboard
  | riding q =>
    have same : q = ride := by simpa [World.rides, at_j, Stage.ride] using aboard
    exact ⟨q, rfl, by rw [same]; exact leads, by simp [World.leader, current, at_j]⟩

/-- Where nothing old is left, the token of the flight under way is one it has fetched itself. -/
theorem Sound.flight_of_current (sound : Sound s) (orderly : Orderly s.state)
    (old : nothingOld s = true) {f j : Nat} {o : Origin}
    (current : s.state.group.current = some ⟨f, j⟩) (at_f : s.notes.origins f = some o) :
    o.flight = f := by
  obtain ⟨ride, at_j, leads, leader⟩ := leader_of_current orderly current
  have phase := sound.phase j ride at_j
  match ride, leads, phase with
  | .working _ .checking, rfl, none_f => cases at_f.symm.trans none_f
  | .working _ .fetching, rfl, ⟨none_f, _⟩ => cases at_f.symm.trans none_f
  | .working _ (.publishing _ _), rfl, ⟨_, _, o', at_f', flight, _, _⟩ =>
    cases at_f.symm.trans at_f'
    exact flight
  | .landing _ (.error _), rfl, none_f => cases at_f.symm.trans none_f
  | .landing _ (.ok _), rfl, ⟨_, o', at_f', fetched⟩ =>
    cases at_f.symm.trans at_f'
    have unread : o.readAt = none := by simpa [nothingOld, leader, at_f] using old
    exact (fetched unread).1

/-- Where nothing old is left, a usable token has been fetched by the flight under way. -/
theorem Sound.flight_of_cached (sound : Sound s) (old : nothingOld s = true)
    (usable : s.state.usable = true) {o : Origin} (cached : s.notes.cached = some o) :
    ∃ j token, s.state.calls j = .riding (.landing o.flight (.ok token)) := by
  unfold nothingOld at old
  split at old
  · next f token leader =>
    obtain ⟨flight, -, place⟩ := Option.bind_eq_some_iff.mp leader
    cases at_j : s.state.calls flight.leader with
    | start | returned result => simp [at_j] at place
    | riding ride =>
      have same : ride = .landing f (.ok token) := by simpa [at_j] using place
      rw [same] at at_j
      obtain ⟨-, o', at_f, fetched⟩ := sound.phase _ _ at_j
      have unread : o'.readAt = none := by simpa [at_f] using old
      obtain ⟨number, here⟩ := fetched unread
      cases cached.symm.trans here
      exact ⟨flight.leader, token, by rw [number]; exact at_j⟩
  · rw [usable] at old
    cases old

/-- A call is made where nothing old is left: the tokens there are to come come from the flight
under way or from later ones. -/
theorem served_of_begins {w : World} {n : Ledger} (orderly : Orderly w) (sound : Sound ⟨w, n⟩)
    (old : nothingOld ⟨w, n⟩ = true) :
    Served ⟨w.put i (.riding .entering), n.called w i⟩ i := by
  have ended : ∀ f, (n.called w i).ended i f = (w.group.results f).isSome := by
    simp [Ledger.called]
  have entering : (w.put i (.riding .entering)).calls i = .riding .entering :=
    Function.update_self ..
  -- A flight under way is not over.
  have not_over : ∀ {f j}, w.group.current = some ⟨f, j⟩ → (n.called w i).ended i f = false := by
    intro f j current
    rw [ended, orderly.open_current _ current]
    rfl
  refine ⟨?_, fun f over_f => (ended f).symm.trans over_f, ?_, ?_, ?_, ?_⟩
  · intro start
    cases entering.symm.trans start
  · intro usable o cached
    obtain ⟨j, token, at_j⟩ := sound.flight_of_cached old usable cached
    exact not_over (current_of_leader orderly at_j rfl)
  · intro f o open_f at_f
    have results : w.group.results f = none := by simpa [ended] using open_f
    obtain ⟨j, current⟩ := sound.open_led f (by simp [show n.origins f = some o from at_f]) results
    rw [sound.flight_of_current orderly old current at_f]
    exact open_f
  · intro f at_i
    cases entering.symm.trans at_i
  · intro token at_i
    cases entering.symm.trans at_i

theorem Served.current (served : Served s i) (orderly : Orderly s.state) {flight : Flight Nat}
    (current : s.state.group.current = some flight) :
    s.notes.ended i flight.number = false := by
  refine Bool.eq_false_iff.mpr fun ended => ?_
  have over_f := served.ended _ ended
  rw [orderly.open_current _ current] at over_f
  cases over_f

/-- What was over when a call was made stays noted. -/
theorem Served.step_ended (served : Served s i) (move : Move kinds s s') :
    s'.notes.ended i = s.notes.ended i := by
  cases move with
  | reads w n j at_j getToken usable | begins w n j at_j old =>
    exact Function.update_of_ne (fun eq => served.made (by rw [eq]; exact at_j)) _ _
  | _ => rfl

theorem isSome_results (orderly : Orderly s.state) (move : Move kinds s s') {f : Nat}
    (over_f : (s.state.group.results f).isSome) : (s'.state.group.results f).isSome := by
  obtain group | ⟨-, j, group⟩ | ⟨j, g, result, -, -, group⟩ := step_group orderly move
  · rw [group]
    exact over_f
  · rw [group]
    exact over_f
  · rw [group]
    by_cases eq : f = g
    · simp [eq]
    · simpa [Function.update_of_ne eq] using over_f

theorem Served.step_cached (served : Served s i) (sound : Sound s) (orderly : Orderly s.state)
    (move : Move kinds s s') (usable : s'.state.usable = true) (o : Origin)
    (cached : s'.notes.cached = some o) : s.notes.ended i o.flight = false := by
  cases move with
  | ticks w n elapsed =>
    have before : w.usable = true := by
      refine (Bool.eq_false_or_eq_true w.usable).resolve_right fun unusable => ?_
      rw [unusable_later elapsed unusable] at usable
      cases usable
    exact served.cached before o cached
  | publishes w n j f token expiry at_j =>
    obtain ⟨-, -, o', at_f, flight, -, -⟩ := sound.phase j _ at_j
    cases (show n.origins f = some o from cached).symm.trans at_f
    rw [flight]
    exact served.current orderly (current_of_leader orderly at_j rfl)
  | _ => exact served.cached usable o cached

theorem Served.step_origins (served : Served s i) (sound : Sound s) (orderly : Orderly s.state)
    (move : Move kinds s s') (f : Nat) (o : Origin) (open_f : s.notes.ended i f = false)
    (at_f : s'.notes.origins f = some o) : s.notes.ended i o.flight = false := by
  cases move with
  | finds w n j g at_j usable =>
    by_cases eq : f = g
    · obtain ⟨new, cached, read, -⟩ := sound.read usable
      have here : n.read w.now = some o := by simpa [eq] using at_f
      cases read.symm.trans here
      exact served.cached usable new cached
    · exact served.origins f o open_f (by simpa [Function.update_of_ne eq] using at_f)
  | receives w n j g r at_j proper =>
    by_cases eq : f = g
    · have here : some (Origin.mk g (w.now + r.lifetime) none) = some o := by
        simpa [eq] using at_f
      cases here
      exact served.current orderly (current_of_leader orderly at_j rfl)
    · exact served.origins f o open_f (by simpa [Function.update_of_ne eq] using at_f)
  | _ => exact served.origins f o open_f at_f

theorem Served.step_made (served : Served s i) (move : Move kinds s s') :
    s'.state.calls i ≠ .start := by
  intro at_i
  cases move with
  | rests | ticks w n elapsed => exact served.made at_i
  | _ =>
    obtain ⟨-, eq⟩ | ⟨-, before⟩ := eq_or_of_update at_i
    · cases eq
    · exact served.made before

theorem Served.step_waiting (served : Served s i) (orderly : Orderly s.state)
    (move : Move kinds s s') (f : Nat) (at_i : s'.state.calls i = .riding (.waiting f)) :
    s.notes.ended i f = false := by
  cases move with
  | rests | ticks w n elapsed => exact served.waiting f at_i
  | joins w n j flight at_j busy =>
    obtain ⟨-, eq⟩ | ⟨-, before⟩ := eq_or_of_update at_i
    · cases eq
      exact served.current orderly busy
    · exact served.waiting f before
  | waits w n j g at_j =>
    obtain ⟨rfl, eq⟩ | ⟨-, before⟩ := eq_or_of_update at_i
    · cases eq
      exact served.waiting f at_j
    · exact served.waiting f before
  | _ =>
    obtain ⟨-, eq⟩ | ⟨-, before⟩ := eq_or_of_update at_i
    · cases eq
    · exact served.waiting f before

theorem Served.step_got (served : Served s i) (orderly : Orderly s.state)
    (move : Move kinds s s') (token : String) (at_i : s'.state.calls i = .returned (.ok token))
    (o : Origin) (got : s'.notes.got i = some o) : s.notes.ended i o.flight = false := by
  cases move with
  | rests | ticks w n elapsed => exact served.got token at_i o got
  | reads w n j at_j getToken usable =>
    obtain ⟨rfl, -⟩ | ⟨ne, before⟩ := eq_or_of_update at_i
    · exact absurd at_j served.made
    · exact served.got token before o ((Function.update_of_ne ne ..).symm.trans got)
  | begins w n j at_j old =>
    obtain ⟨-, eq⟩ | ⟨ne, before⟩ := eq_or_of_update at_i
    · cases eq
    · exact served.got token before o ((Function.update_of_ne ne ..).symm.trans got)
  | lands w n j f result at_j =>
    obtain ⟨rfl, -⟩ | ⟨ne, before⟩ := eq_or_of_update at_i
    · have landed := served.current orderly (current_of_leader orderly at_j rfl)
      exact served.origins f o landed ((take_got ..).symm.trans got)
    · exact served.got token before o ((Function.update_of_ne ne ..).symm.trans got)
  | waits w n j f at_j =>
    obtain ⟨-, eq⟩ | ⟨ne, before⟩ := eq_or_of_update at_i
    · cases eq
    · exact served.got token before o ((Function.update_of_ne ne ..).symm.trans got)
  | collects w n j f result at_j over_f =>
    obtain ⟨rfl, -⟩ | ⟨ne, before⟩ := eq_or_of_update at_i
    · have waited := served.waiting f at_j
      exact served.origins f o waited ((take_got ..).symm.trans got)
    · exact served.got token before o ((Function.update_of_ne ne ..).symm.trans got)
  | _ =>
    obtain ⟨-, eq⟩ | ⟨-, before⟩ := eq_or_of_update at_i
    · cases eq
    · exact served.got token before o got

theorem Served.step (served : Served s i) (sound : Sound s) (orderly : Orderly s.state)
    (move : Move kinds s s') : Served s' i := by
  have same := served.step_ended move
  constructor
  · exact served.step_made move
  · intro f ended
    rw [same] at ended
    exact isSome_results orderly move (served.ended f ended)
  · rw [same]
    exact served.step_cached sound orderly move
  · rw [same]
    exact served.step_origins sound orderly move
  · rw [same]
    exact served.step_waiting orderly move
  · rw [same]
    exact served.step_got orderly move

/-- A `Refresh` has not been made yet, or gets no token from before it was made. -/
def RefreshServed (kinds : Nat → Kind) (s : Noted World Ledger) : Prop :=
  ∀ i, kinds i = .refresh → s.state.calls i = .start ∨ Served s i

theorem RefreshServed.step (all : RefreshServed kinds s) (sound : Sound s)
    (orderly : Orderly s.state) (move : Move kinds s s') : RefreshServed kinds s' := by
  intro i refresh
  obtain start | served := all i refresh
  · cases move with
    | rests | ticks w n elapsed => exact .inl start
    | reads w n j at_j getToken usable =>
      have ne : i ≠ j := by
        rintro rfl
        rw [getToken] at refresh
        cases refresh
      exact .inl ((Function.update_of_ne ne ..).trans start)
    | begins w n j at_j old =>
      by_cases eq : i = j
      · rw [eq] at refresh ⊢
        exact .inr (served_of_begins orderly sound (old refresh))
      · exact .inl ((Function.update_of_ne eq ..).trans start)
    | joins w n j _ at_j | launches w n j at_j | finds w n j _ at_j | asks w n j _ at_j
    | fails w n j _ _ at_j | receives w n j _ _ at_j | publishes w n j _ _ _ at_j
    | lands w n j _ _ at_j | waits w n j _ at_j | collects w n j _ _ at_j =>
      have ne : i ≠ j := by
        rintro rfl
        cases start.symm.trans at_j
      exact .inl ((Function.update_of_ne ne ..).trans start)
  · exact .inr (served.step sound orderly move)

end Service

section Results
variable (kinds : Nat → Kind) (start : Int)

/-- The invariants of a provider that is well used. -/
structure Reliable (s : Noted World Ledger) : Prop where
  orderly : Orderly s.state
  sound : Sound s
  served : RefreshServed kinds s

variable {kinds start}

theorem Reliable.advance {s : Noted World Ledger} (reliable : Reliable kinds s) (e : Event)
    (used : wellUsed kinds s e = true) :
    Reliable kinds (advance (World.step kinds) noteOrigin s e) := by
  have move := move_of_wellUsed s e used
  exact ⟨reliable.orderly.step kinds e, reliable.sound.step reliable.orderly move,
    reliable.served.step reliable.sound reliable.orderly move⟩

theorem reliable_run {events : List Event}
    (used : Meets (World.step kinds) noteOrigin (fun s e => wellUsed kinds s e = true)
      ⟨initial start, .blank⟩ events) :
    Reliable kinds (run kinds start events) :=
  follow_invariant ⟨orderly_initial start, sound_initial start, fun _ _ => .inl rfl⟩
    (fun _ e reliable used => reliable.advance e used) used

/-- Where the endpoint issues proper tokens and `Refresh` is called when no token from before is
there, whatever the interleaving: no call returns an empty token, a token from the cache had the
margin left of what it was issued with when it was read, and the flight that has fetched the token
of a `Refresh` was not over when the `Refresh` was called. -/
theorem tokens_usable (kinds : Nat → Kind) (start : Int) (events : List Event)
    (used : Meets (World.step kinds) noteOrigin (fun s e => wellUsed kinds s e = true)
      ⟨initial start, .blank⟩ events)
    (i : Nat) (token : String)
    (returned : (run kinds start events).state.calls i = .returned (.ok token)) :
    token ≠ "" ∧ ∃ o, (run kinds start events).notes.got i = some o ∧
      (∀ time, o.readAt = some time → time + margin ≤ o.lasts) ∧
      (kinds i = .refresh → (run kinds start events).notes.ended i o.flight = false) := by
  have reliable := reliable_run used
  obtain ⟨filled, o, got, fresh⟩ := reliable.sound.returned i token returned
  refine ⟨filled, o, got, fresh, fun refresh => ?_⟩
  obtain at_start | served := reliable.served i refresh
  · cases at_start.symm.trans returned
  · exact served.got token returned o got

section Samples

/-- The reply that issues a token. -/
def issues (token : String) (expiresIn : Option (BitVec 64)) : Reply :=
  .answered 200 "" (.ok ⟨token, expiresIn⟩)

def steps (n i : Nat) (reply : Reply) : List Event := List.replicate n (.act i reply)

/-- The first call is one of `getToken`, the others are of `Refresh`. -/
def firstGets (i : Nat) : Kind := if i = 0 then .getToken else .refresh

/-- A `Refresh` that is called while the endpoint is being asked. -/
def joiningEvents : List Event :=
  steps 3 0 (issues "a" none) ++ steps 2 1 (issues "a" none) ++ steps 3 0 (issues "a" none) ++
    steps 1 1 (issues "a" none)

/-- A call of `getToken` a minute after a token was issued for no time at all. -/
def expiredEvents : List Event :=
  steps 6 0 (issues "a" (some 0)) ++ .tick 60000000000 :: steps 1 1 (.failed "")

/-- A `Refresh` that is called when a token has been fetched. -/
def cachedEvents : List Event := steps 6 0 (issues "a" none) ++ steps 4 1 (.failed "")

end Samples

/-- The `Refresh` shares the token of the fetch that was in flight. -/
theorem joining_refresh_usable :
    (run firstGets 0 joiningEvents).state.calls 1 = .returned (.ok "a") ∧
    ∃ o, (run firstGets 0 joiningEvents).notes.got 1 = some o ∧
      (run firstGets 0 joiningEvents).notes.ended 1 o.flight = false := by
  have returned : (run firstGets 0 joiningEvents).state.calls 1 = .returned (.ok "a") := by
    decide +kernel
  obtain ⟨-, o, got, -, served⟩ := tokens_usable firstGets 0 joiningEvents (by decide +kernel) 1 "a"
    returned
  exact ⟨returned, o, got, served (by decide)⟩

/-- An empty token is returned without an error; a token issued for no time at all is handed out
a minute later; and a `Refresh` returns with the token of a fetch that was over when it was
called. -/
theorem unusable_tokens :
    (run firstGets 0 (steps 6 0 (issues "" none))).state.calls 0 = .returned (.ok "") ∧
    ((run (fun _ => .getToken) 0 expiredEvents).state.calls 1 = .returned (.ok "a") ∧
      (run (fun _ => .getToken) 0 expiredEvents).notes.got 1 = some ⟨0, 0, some 60000000000⟩ ∧
      ¬ 60000000000 + margin ≤ 0) ∧
    (run firstGets 0 cachedEvents).state.calls 1 = .returned (.ok "a") ∧
      (run firstGets 0 cachedEvents).notes.got 1 = some ⟨0, hour, some 0⟩ ∧
      (run firstGets 0 cachedEvents).notes.ended 1 0 = true := by
  decide +kernel

end Results

end OAuth2Token
