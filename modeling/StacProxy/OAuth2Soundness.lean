import StacProxy.OAuth2Token

/-!
# Tokens that are worth something

What the notes say of a token fits the state of a provider that is well used: a token that is
cached, that a flight lands with or that a call has returned is not empty, and one that was read
from the cache had the margin left.
-/

namespace OAuth2Token

open SingleFlight Chronicle

section Soundness

/-- A token that was read from the cache had the margin left. -/
def Origin.Fresh (o : Origin) : Prop := ∀ time, o.readAt = some time → time + margin ≤ o.lasts

/-- What holds at the place where a leader is. -/
def Phase (s : Noted World Ledger) : Ride Job Result → Prop
  | .working f .checking => s.notes.origins f = none
  | .working f .fetching => s.notes.origins f = none ∧ s.state.usable = false
  | .working f (.publishing token expiry) =>
    token ≠ "" ∧ s.state.usable = false ∧
      ∃ o, s.notes.origins f = some o ∧ o.flight = f ∧ o.readAt = none ∧ expiry ≤ o.lasts
  | .landing f (.ok token) =>
    token ≠ "" ∧ ∃ o, s.notes.origins f = some o ∧
      (o.readAt = none → o.flight = f ∧ s.notes.cached = some o)
  | .landing f (.error _) => s.notes.origins f = none
  | _ => True

structure Sound (s : Noted World Ledger) : Prop where
  phase : ∀ j ride, s.state.calls j = .riding ride → Phase s ride
  cached : s.state.provider.token ≠ "" →
    ∃ o, s.notes.cached = some o ∧ s.state.provider.tokenExpiry ≤ o.lasts
  fresh : ∀ f o, s.notes.origins f = some o → o.Fresh
  known : ∀ f, (s.notes.origins f).isSome → f < s.state.group.launched
  open_led : ∀ f, (s.notes.origins f).isSome → s.state.group.results f = none →
    ∃ j, s.state.group.current = some ⟨f, j⟩
  results : ∀ f token, s.state.group.results f = some (.ok token) →
    token ≠ "" ∧ (s.notes.origins f).isSome
  returned : ∀ i token, s.state.calls i = .returned (.ok token) →
    token ≠ "" ∧ ∃ o, s.notes.got i = some o ∧ o.Fresh

variable {s s' : Noted World Ledger} {kinds : Nat → Kind}

theorem sound_initial (start : Int) : Sound ⟨initial start, .blank⟩ where
  phase := by intro j ride at_j; cases at_j
  cached := by intro filled; exact absurd rfl filled
  fresh := by intro f o at_f; cases at_f
  known := by intro f some_f; cases some_f
  open_led := by intro f some_f; cases some_f
  results := by intro f token over_f; cases over_f
  returned := by intro i token at_i; cases at_i

/-- A token is never kept longer than it was issued for: a product that does not fit into 64 bits
only comes out smaller. -/
theorem TokenResponse.kept_le_lifetime {r : TokenResponse} (proper : r.proper = true) :
    r.kept ≤ r.lifetime := by
  obtain ⟨token, expiresIn⟩ := r
  cases expiresIn with
  | none => exact Int.le_refl hour
  | some seconds =>
    have positive : 0 < seconds.toInt := by
      have given := (Bool.and_eq_true_iff.mp proper).2
      simpa using given
    have product : (seconds * 1000000000#64).toInt = (seconds.toInt * 1000000000).bmod (2 ^ 64) := by
      rw [BitVec.toInt_mul]
      rfl
    simp only [TokenResponse.kept, TokenResponse.lifetime, Option.getD_some, if_pos positive,
      product, second]
    simp only [Int.bmod]
    split <;> omega

theorem left_of_usable {w : World} (usable : w.usable = true) :
    w.provider.token ≠ "" ∧ w.now + margin < w.provider.tokenExpiry := by
  have test := Bool.and_eq_true_iff.mp usable
  have time := of_decide_eq_true test.2
  exact ⟨by simpa using test.1, by omega⟩

/-- The cached token, read while it is usable. -/
theorem Sound.read (sound : Sound s) (usable : s.state.usable = true) :
    ∃ o, s.notes.cached = some o ∧
      s.notes.read s.state.now = some { o with readAt := some s.state.now } ∧
      Origin.Fresh { o with readAt := some s.state.now } := by
  obtain ⟨filled, time⟩ := left_of_usable usable
  obtain ⟨o, cached, expiry⟩ := sound.cached filled
  refine ⟨o, cached, by simp [Ledger.read, cached], ?_⟩
  rintro _ ⟨⟩
  show s.state.now + margin ≤ o.lasts
  omega

theorem phase_of_idle {ride : Ride Job Result} (idle : ride.leads = none) : Phase s ride := by
  cases ride with
  | entering => trivial
  | working f job | landing f result => cases idle
  | waiting f => trivial

/-- What holds at a place holds there as long as the tokens stay what they are. -/
theorem Phase.congr {ride : Ride Job Result} (phase : Phase s ride)
    (origins : s'.notes.origins = s.notes.origins) (cached : s'.notes.cached = s.notes.cached)
    (usable : s.state.usable = false → s'.state.usable = false) : Phase s' ride := by
  match ride, phase with
  | .entering, _ => trivial
  | .waiting _, _ => trivial
  | .working f .checking, phase => exact (congrFun origins f).trans phase
  | .working f .fetching, phase => exact ⟨(congrFun origins f).trans phase.1, usable phase.2⟩
  | .working f (.publishing token expiry), ⟨filled, unusable, o, at_f, rest⟩ =>
    exact ⟨filled, usable unusable, o, (congrFun origins f).trans at_f, rest⟩
  | .landing f (.ok token), ⟨filled, o, at_f, fetched⟩ =>
    exact ⟨filled, o, (congrFun origins f).trans at_f, by rw [cached]; exact fetched⟩
  | .landing f (.error err), phase => exact (congrFun origins f).trans phase

/-- When a call moves that leads no flight, the others are where they were. -/
theorem Sound.phase_of_bystander (sound : Sound s) {i : Nat} {stage : Stage}
    (calls : s'.state.calls = Function.update s.state.calls i stage)
    (origins : s'.notes.origins = s.notes.origins) (cached : s'.notes.cached = s.notes.cached)
    (usable : s.state.usable = false → s'.state.usable = false)
    (own : ∀ ride, stage = .riding ride → Phase s' ride) :
    ∀ j ride, s'.state.calls j = .riding ride → Phase s' ride := by
  intro j ride at_j
  rw [calls] at at_j
  obtain ⟨-, moved⟩ | ⟨-, before⟩ := eq_or_of_update at_j
  · exact own ride moved
  · exact (sound.phase j ride before).congr origins cached usable

/-- When the leader moves, nobody else is at a place where the tokens matter. -/
theorem phase_of_leader (orderly : Orderly s.state) {i f : Nat} {ride : Ride Job Result}
    {stage : Stage} (at_i : s.state.calls i = .riding ride) (leads : ride.leads = some f)
    (calls : s'.state.calls = Function.update s.state.calls i stage)
    (own : ∀ ride, stage = .riding ride → Phase s' ride) :
    ∀ j ride, s'.state.calls j = .riding ride → Phase s' ride := by
  intro j q at_j
  rw [calls] at at_j
  obtain ⟨-, moved⟩ | ⟨ne, before⟩ := eq_or_of_update at_j
  · exact own q moved
  · refine phase_of_idle (Option.eq_none_iff_forall_ne_some.mpr fun h also => ne ?_)
    have aboard : s.state.rides i = some ride := by simp [World.rides, at_i, Stage.ride]
    have other : s.state.rides j = some q := by simp [World.rides, before, Stage.ride]
    exact SingleFlight.Orderly.eq_of_leads orderly aboard leads other also

theorem unusable_later {w : World} (elapsed : Nat) (unusable : w.usable = false) :
    World.usable { w with now := w.now + elapsed } = false := by
  simp only [World.usable, Provider.usable, Bool.and_eq_false_iff, decide_eq_false_iff_not] at *
  exact unusable.imp_right fun over_ => by omega

theorem Sound.step_phase (sound : Sound s) (orderly : Orderly s.state) (move : Move kinds s s') :
    ∀ j ride, s'.state.calls j = .riding ride → Phase s' ride := by
  cases move with
  | rests => exact sound.phase
  | ticks w n elapsed =>
    intro j ride at_j
    exact (sound.phase j ride at_j).congr rfl rfl (unusable_later elapsed)
  | reads w n i at_i getToken usable | collects w n i f result at_i over_f =>
    exact sound.phase_of_bystander rfl rfl rfl id (fun _ eq => by cases eq)
  | begins w n i at_i old | joins w n i flight at_i busy | waits w n i f at_i =>
    exact sound.phase_of_bystander rfl rfl rfl id (fun _ eq => by cases eq; trivial)
  | launches w n i at_i free =>
    refine sound.phase_of_bystander rfl rfl rfl id (fun _ eq => ?_)
    cases eq
    exact Option.not_isSome_iff_eq_none.mp fun some_f => Nat.lt_irrefl _ (sound.known _ some_f)
  | finds w n i f at_i usable =>
    refine phase_of_leader orderly at_i rfl rfl (fun _ eq => ?_)
    cases eq
    obtain ⟨o, -, read, -⟩ := sound.read usable
    exact ⟨(left_of_usable usable).1, _, (Function.update_self ..).trans read, fun none_o => by
      cases none_o⟩
  | asks w n i f at_i unusable =>
    refine phase_of_leader orderly at_i rfl rfl (fun _ eq => ?_)
    cases eq
    exact ⟨sound.phase i _ at_i, unusable⟩
  | fails w n i f err at_i =>
    refine phase_of_leader orderly at_i rfl rfl (fun _ eq => ?_)
    cases eq
    exact (sound.phase i _ at_i).1
  | receives w n i f r at_i proper =>
    refine phase_of_leader orderly at_i rfl rfl (fun _ eq => ?_)
    cases eq
    have filled : r.accessToken ≠ "" := by simpa using (Bool.and_eq_true_iff.mp proper).1
    have kept := TokenResponse.kept_le_lifetime proper
    exact ⟨filled, (sound.phase i _ at_i).2, _, Function.update_self .., rfl, rfl,
      Int.add_le_add_left kept w.now⟩
  | publishes w n i f token expiry at_i =>
    refine phase_of_leader orderly at_i rfl rfl (fun _ eq => ?_)
    cases eq
    obtain ⟨filled, -, o, at_f, flight, -, -⟩ := sound.phase i _ at_i
    exact ⟨filled, o, at_f, fun _ => ⟨flight, at_f⟩⟩
  | lands w n i f result at_i =>
    exact phase_of_leader orderly at_i rfl rfl (fun _ eq => by cases eq)

theorem Sound.step_cached (sound : Sound s) (move : Move kinds s s') :
    s'.state.provider.token ≠ "" →
      ∃ o, s'.notes.cached = some o ∧ s'.state.provider.tokenExpiry ≤ o.lasts := by
  cases move with
  | publishes w n i f token expiry at_i =>
    intro _
    obtain ⟨-, -, o, at_f, -, -, expiry_le⟩ := sound.phase i _ at_i
    exact ⟨o, at_f, expiry_le⟩
  | _ => exact sound.cached

/-- The flight of a leader is the one under way. -/
theorem current_of_leader {w : World} (orderly : Orderly w) {i f : Nat} {ride : Ride Job Result}
    (at_i : w.calls i = .riding ride) (leads : ride.leads = some f) :
    w.group.current = some ⟨f, i⟩ :=
  SingleFlight.Orderly.current orderly (by simp [World.rides, at_i, Stage.ride]) leads

/-- The origin of a flight's token changes only while the flight is under way, and to that of a
fresh token. -/
theorem Sound.step_origins (sound : Sound s) (orderly : Orderly s.state)
    (move : Move kinds s s') (f : Nat) :
    s'.notes.origins f = s.notes.origins f ∨
      ∃ i o, s.state.group.current = some ⟨f, i⟩ ∧ s'.state.group = s.state.group ∧
        s'.notes.origins f = some o ∧ o.Fresh := by
  cases move with
  | finds w n i g at_i usable =>
    by_cases eq : f = g
    · subst eq
      obtain ⟨o, -, read, fresh⟩ := sound.read usable
      exact .inr ⟨i, _, current_of_leader orderly at_i rfl, rfl,
        (Function.update_self ..).trans read, fresh⟩
    · exact .inl (Function.update_of_ne eq ..)
  | receives w n i g r at_i proper =>
    by_cases eq : f = g
    · subst eq
      exact .inr ⟨i, _, current_of_leader orderly at_i rfl, rfl, Function.update_self ..,
        fun _ unread => by cases unread⟩
    · exact .inl (Function.update_of_ne eq ..)
  | _ => exact .inl rfl

/-- The group changes by a launch when it is free, or by the landing of the flight under way. -/
theorem step_group (orderly : Orderly s.state) (move : Move kinds s s') :
    s'.state.group = s.state.group ∨
      (s.state.group.current = none ∧
        ∃ i, s'.state.group = { s.state.group with
          current := some ⟨s.state.group.launched, i⟩
          launched := s.state.group.launched + 1 }) ∨
      ∃ i f result, s.state.calls i = .riding (.landing f result) ∧
        s.state.group.current = some ⟨f, i⟩ ∧
        s'.state.group = { s.state.group with
          current := none, results := Function.update s.state.group.results f (some result) } := by
  cases move with
  | launches w n i at_i free => exact .inr (.inl ⟨free, i, rfl⟩)
  | lands w n i f result at_i =>
    exact .inr (.inr ⟨i, f, result, at_i, current_of_leader orderly at_i rfl, rfl⟩)
  | _ => exact .inl rfl

theorem Sound.step_fresh (sound : Sound s) (orderly : Orderly s.state) (move : Move kinds s s')
    (f : Nat) (o : Origin) (at_f : s'.notes.origins f = some o) : o.Fresh := by
  obtain same | ⟨i, new, -, -, changed, fresh⟩ := sound.step_origins orderly move f
  · exact sound.fresh f o (same.symm.trans at_f)
  · cases changed.symm.trans at_f
    exact fresh

theorem Sound.step_known (sound : Sound s) (orderly : Orderly s.state) (move : Move kinds s s')
    (f : Nat) (some_f : (s'.notes.origins f).isSome) : f < s'.state.group.launched := by
  obtain same | ⟨i, new, current, group, -, -⟩ := sound.step_origins orderly move f
  · rw [same] at some_f
    have before := sound.known f some_f
    obtain group | ⟨-, i, group⟩ | ⟨i, g, result, -, -, group⟩ := step_group orderly move
    · rw [group]
      exact before
    · rw [group]
      exact Nat.lt_succ_of_lt before
    · rw [group]
      exact before
  · rw [group]
    exact orderly.current_lt _ current

theorem Sound.step_open_led (sound : Sound s) (orderly : Orderly s.state)
    (move : Move kinds s s') (f : Nat) (some_f : (s'.notes.origins f).isSome)
    (open_f : s'.state.group.results f = none) :
    ∃ j, s'.state.group.current = some ⟨f, j⟩ := by
  obtain same | ⟨i, new, current, group, -, -⟩ := sound.step_origins orderly move f
  · rw [same] at some_f
    obtain group | ⟨free, i, group⟩ | ⟨i, g, result, -, current, group⟩ :=
      step_group orderly move
    · rw [group] at open_f ⊢
      exact sound.open_led f some_f open_f
    · -- A flight with a token that is not over is under way, so the group is not free.
      rw [group] at open_f
      obtain ⟨j, busy⟩ := sound.open_led f some_f open_f
      rw [free] at busy
      cases busy
    · -- The flight under way is the one that lands.
      rw [group] at open_f
      have ne : f ≠ g := by
        rintro rfl
        simp at open_f
      have before : s.state.group.results f = none := by
        simpa [Function.update_of_ne ne] using open_f
      obtain ⟨j, busy⟩ := sound.open_led f some_f before
      rw [current] at busy
      cases busy
      exact absurd rfl ne
  · exact ⟨i, by rw [group]; exact current⟩

/-- A flight that has a token keeps having one. -/
theorem Sound.isSome_origins (sound : Sound s) (orderly : Orderly s.state)
    (move : Move kinds s s') {f : Nat} (some_f : (s.notes.origins f).isSome) :
    (s'.notes.origins f).isSome := by
  obtain same | ⟨i, new, -, -, changed, -⟩ := sound.step_origins orderly move f
  · rw [same]
    exact some_f
  · rw [changed]
    rfl

theorem Sound.step_results (sound : Sound s) (orderly : Orderly s.state)
    (move : Move kinds s s') (f : Nat) (token : String)
    (over_f : s'.state.group.results f = some (.ok token)) :
    token ≠ "" ∧ (s'.notes.origins f).isSome := by
  suffices before : token ≠ "" ∧ (s.notes.origins f).isSome from
    ⟨before.1, sound.isSome_origins orderly move before.2⟩
  obtain group | ⟨-, i, group⟩ | ⟨i, g, result, at_i, -, group⟩ := step_group orderly move
  · rw [group] at over_f
    exact sound.results f token over_f
  · rw [group] at over_f
    exact sound.results f token over_f
  · rw [group] at over_f
    by_cases eq : f = g
    · have same : result = .ok token := by simpa [eq] using over_f
      rw [same, ← eq] at at_i
      obtain ⟨filled, o, at_f, -⟩ := sound.phase i _ at_i
      exact ⟨filled, by simp [at_f]⟩
    · have earlier : s.state.group.results f = some (.ok token) := by
        simpa [Function.update_of_ne eq] using over_f
      exact sound.results f token earlier

/-- A call has returned a token, and where the token comes from has been noted. -/
def Accounted (s : Noted World Ledger) (i : Nat) (token : String) : Prop :=
  token ≠ "" ∧ ∃ o, s.notes.got i = some o ∧ o.Fresh

/-- When call `i` moves, it has to account for a token that it returns; the other calls have. -/
theorem Sound.returned_of_mover (sound : Sound s) {i : Nat} {stage : Stage}
    {origin : Option Origin} (calls : s'.state.calls = Function.update s.state.calls i stage)
    (got : s'.notes.got = Function.update s.notes.got i origin)
    (own : ∀ token, stage = .returned (.ok token) →
      token ≠ "" ∧ ∃ o, origin = some o ∧ o.Fresh) :
    ∀ j token, s'.state.calls j = .returned (.ok token) → Accounted s' j token := by
  intro j token at_j
  rw [calls] at at_j
  rw [Accounted, got]
  obtain ⟨rfl, moved⟩ | ⟨ne, before⟩ := eq_or_of_update at_j
  · rw [Function.update_self]
    exact own token moved
  · rw [Function.update_of_ne ne]
    exact sound.returned j token before

/-- The same for a move that ends no call. -/
theorem Sound.returned_of_riding (sound : Sound s) {i : Nat} {ride : Ride Job Result}
    (calls : s'.state.calls = Function.update s.state.calls i (.riding ride))
    (got : s'.notes.got = s.notes.got) :
    ∀ j token, s'.state.calls j = .returned (.ok token) → Accounted s' j token := by
  have kept : s'.notes.got = Function.update s.notes.got i (s.notes.got i) := by
    rw [got, Function.update_eq_self]
  exact sound.returned_of_mover calls kept (fun _ eq => by cases eq)

theorem Sound.step_returned (sound : Sound s) (move : Move kinds s s') :
    ∀ j token, s'.state.calls j = .returned (.ok token) → Accounted s' j token := by
  cases move with
  | rests | ticks w n elapsed => exact sound.returned
  | reads w n i at_i getToken usable =>
    refine sound.returned_of_mover rfl rfl (fun token eq => ?_)
    cases eq
    obtain ⟨o, -, read, fresh⟩ := sound.read usable
    exact ⟨(left_of_usable usable).1, _, read, fresh⟩
  | begins w n i at_i old | waits w n i f at_i =>
    exact sound.returned_of_mover rfl rfl (fun _ eq => by cases eq)
  | lands w n i f result at_i =>
    refine sound.returned_of_mover rfl rfl (fun token eq => ?_)
    cases eq
    obtain ⟨filled, o, at_f, -⟩ := sound.phase i _ at_i
    exact ⟨filled, o, at_f, sound.fresh f o at_f⟩
  | collects w n i f result at_i over_f =>
    refine sound.returned_of_mover rfl rfl (fun token eq => ?_)
    cases eq
    obtain ⟨filled, some_f⟩ := sound.results f token over_f
    obtain ⟨o, at_f⟩ := Option.isSome_iff_exists.mp some_f
    exact ⟨filled, o, at_f, sound.fresh f o at_f⟩
  | _ => exact sound.returned_of_riding rfl rfl

theorem Sound.step (sound : Sound s) (orderly : Orderly s.state) (move : Move kinds s s') :
    Sound s' where
  phase := sound.step_phase orderly move
  cached := sound.step_cached move
  fresh := sound.step_fresh orderly move
  known := sound.step_known orderly move
  open_led := sound.step_open_led orderly move
  results := sound.step_results orderly move
  returned := sound.step_returned move

end Soundness

end OAuth2Token
