import StacProxy.Chronicle
import StacProxy.SingleFlight

/-!
# The token of an OAuth2 provider

`getToken` hands out the cached token while more than half a minute of it is left, and else shares
a request to the token endpoint with the calls that come meanwhile; `Refresh` goes to the shared
request at once. The shared request looks at the cache again before it asks. Each section under
the lock is one step, the clock goes on between the steps, and notes are taken of where each
token comes from. Times are in nanoseconds.
-/

namespace OAuth2Token

open SingleFlight Chronicle

section Model

def second : Int := 1000000000
def hour : Int := 3600 * second
/-- A token is replaced when no more than this is left of it. -/
def margin : Int := 30 * second

/-- The fields of a decoded body; `expires_in` is missing or any 64-bit number. -/
structure TokenResponse where
  accessToken : String
  expiresIn : Option (BitVec 64)

/-- What comes back from the token endpoint. -/
inductive Reply where
  | failed (err : String)
  | answered (statusCode : Nat) (body : String) (decoded : Except String TokenResponse)

/-- The part of `fetchToken` up to the decoded response. -/
def Reply.tokenResp : Reply → Except String TokenResponse
  | .failed err => .error err
  | .answered statusCode body decoded =>
    if statusCode ≠ 200 then
      .error ("token request failed with status " ++ toString statusCode ++ ": " ++ body)
    else match decoded with
      | .error err => .error ("failed to parse token response: " ++ err)
      | .ok tokenResp => .ok tokenResp

/-- How long `fetchToken` keeps a token. A missing `expires_in` decodes to 0, and the product is
one of 64-bit numbers. -/
def TokenResponse.kept (r : TokenResponse) : Int :=
  let expiresIn := r.expiresIn.getD 0
  if 0 < expiresIn.toInt then (expiresIn * 1000000000#64).toInt else hour

structure Provider where
  token : String
  tokenExpiry : Int

/-- The test of `getToken`, which the shared request makes again. -/
def Provider.usable (p : Provider) (now : Int) : Bool :=
  p.token ≠ "" && now < p.tokenExpiry - margin

inductive Job where
  | checking
  | fetching
  | publishing (token : String) (expiry : Int)
deriving DecidableEq

abbrev Result := Except String String

/-- The function that `refreshOnce` shares, with `fetchToken` in its last two parts. -/
def refreshWork (now : Int) (reply : Reply) (p : Provider) : Job → Provider × (Job ⊕ Result)
  | .checking => if p.usable now then (p, .inr (.ok p.token)) else (p, .inl .fetching)
  | .fetching => match reply.tokenResp with
    | .error err => (p, .inr (.error err))
    | .ok r => (p, .inl (.publishing r.accessToken (now + r.kept)))
  | .publishing token expiry => (⟨token, expiry⟩, .inr (.ok token))

inductive Kind where
  | getToken
  | refresh
deriving DecidableEq

/-- `Refresh` drops the token of its result and keeps the error. -/
inductive Stage where
  | start
  | riding (ride : Ride Job Result)
  | returned (result : Result)
deriving DecidableEq

def Stage.ofStep : Ride Job Result ⊕ Result → Stage
  | .inl ride => .riding ride
  | .inr result => .returned result

structure World where
  provider : Provider
  now : Int
  group : Group Nat Result
  calls : Nat → Stage

/-- A step of a call, with the reply for it if it is one that waits for the endpoint, or time
that goes by. -/
inductive Event where
  | act (i : Nat) (reply : Reply)
  | tick (elapsed : Nat)

def initial (start : Int) : World := ⟨⟨"", 0⟩, start, .empty, fun _ => .start⟩

def World.usable (w : World) : Bool := w.provider.usable w.now

variable (kinds : Nat → Kind)

def World.step (w : World) : Event → World
  | .tick elapsed => { w with now := w.now + elapsed }
  | .act i reply => match w.calls i with
    | .start =>
      if kinds i = .getToken ∧ w.usable then
        { w with calls := Function.update w.calls i (.returned (.ok w.provider.token)) }
      else { w with calls := Function.update w.calls i (.riding .entering) }
    | .riding ride =>
      let after := ride.step .checking (refreshWork w.now reply) i w.group w.provider
      { w with
        provider := after.2.1
        group := after.1
        calls := Function.update w.calls i (.ofStep after.2.2) }
    | .returned _ => w

end Model

section Notes

/-- How long a token is good for by what it was issued with. -/
def TokenResponse.lifetime (r : TokenResponse) : Int :=
  match r.expiresIn with
  | none => hour
  | some seconds => seconds.toInt * second

/-- The flight that fetched a token, when the token runs out, and when it was read from the cache
if it has been. -/
structure Origin where
  flight : Nat
  lasts : Int
  readAt : Option Int
deriving DecidableEq

/-- Where the cached token, the token of each flight and that of each call come from, and which
flights were over when a call was made. -/
structure Ledger where
  cached : Option Origin
  origins : Nat → Option Origin
  got : Nat → Option Origin
  ended : Nat → Nat → Bool

def Ledger.blank : Ledger := ⟨none, fun _ => none, fun _ => none, fun _ _ => false⟩

def Ledger.read (n : Ledger) (now : Int) : Option Origin :=
  n.cached.map fun o => { o with readAt := some now }

def noteOrigin (w : World) (e : Event) (n : Ledger) : Ledger :=
  match e with
  | .tick _ => n
  | .act i reply => match w.calls i with
    | .start =>
      { n with
        ended := Function.update n.ended i fun f => (w.group.results f).isSome
        got := Function.update n.got i (n.read w.now) }
    | .riding (.working f .checking) =>
      if w.usable then { n with origins := Function.update n.origins f (n.read w.now) } else n
    | .riding (.working f .fetching) => match reply.tokenResp with
      | .error _ => n
      | .ok r =>
        { n with origins := Function.update n.origins f (some ⟨f, w.now + r.lifetime, none⟩) }
    | .riding (.working f (.publishing _ _)) => { n with cached := n.origins f }
    | .riding (.landing f _) => { n with got := Function.update n.got i (n.origins f) }
    | .riding (.waiting f) => { n with got := Function.update n.got i (n.origins f) }
    | _ => n

variable (kinds : Nat → Kind)

def run (start : Int) (events : List Event) : Noted World Ledger :=
  follow (World.step kinds) noteOrigin ⟨initial start, .blank⟩ events

/-- A response whose token is not empty and whose lifetime, if it is given, is positive. -/
def TokenResponse.proper (r : TokenResponse) : Bool :=
  r.accessToken ≠ "" && r.expiresIn.all fun seconds => 0 < seconds.toInt

/-- Where the leader of the flight under way is. -/
def World.leader (w : World) : Option (Ride Job Result) :=
  w.group.current.bind fun flight => match w.calls flight.leader with
    | .riding ride => some ride
    | _ => none

/-- No token from before is there to be had: none that is usable is cached, and a flight that is
about to land with a token has fetched it. -/
def nothingOld (s : Noted World Ledger) : Bool :=
  match s.state.leader with
  | some (.landing f (.ok _)) => (s.notes.origins f).any fun o => o.readAt.isNone
  | _ => !s.state.usable

/-- The endpoint issues proper tokens, and `Refresh` is called when no token from before is there. -/
def wellUsed (s : Noted World Ledger) (e : Event) : Bool :=
  match e with
  | .tick _ => true
  | .act i reply => match s.state.calls i with
    | .start => kinds i = .getToken || nothingOld s
    | .riding (.working _ .fetching) => match reply.tokenResp with
      | .error _ => true
      | .ok r => r.proper
    | _ => true

end Notes

section Moves
variable (kinds : Nat → Kind)

def World.put (w : World) (i : Nat) (stage : Stage) : World :=
  { w with calls := Function.update w.calls i stage }

/-- The notes after call `i` has been made. -/
def Ledger.called (n : Ledger) (w : World) (i : Nat) : Ledger :=
  { n with
    ended := Function.update n.ended i fun f => (w.group.results f).isSome
    got := Function.update n.got i (n.read w.now) }

def Ledger.take (n : Ledger) (i f : Nat) : Ledger :=
  { n with got := Function.update n.got i (n.origins f) }

theorem take_got (n : Ledger) (i f : Nat) : (n.take i f).got i = n.origins f :=
  Function.update_self ..

/-- The moves of the provider and of its calls when it is well used, with their notes. -/
inductive Move : Noted World Ledger → Noted World Ledger → Prop where
  | rests (s) : Move s s
  | ticks (w n) (elapsed : Nat) : Move ⟨w, n⟩ ⟨{ w with now := w.now + elapsed }, n⟩
  | reads (w n) (i : Nat) (at_i : w.calls i = .start) (getToken : kinds i = .getToken)
      (usable : w.usable = true) :
      Move ⟨w, n⟩ ⟨w.put i (.returned (.ok w.provider.token)), n.called w i⟩
  | begins (w n) (i : Nat) (at_i : w.calls i = .start)
      (old : kinds i = .refresh → nothingOld ⟨w, n⟩ = true) :
      Move ⟨w, n⟩ ⟨w.put i (.riding .entering), n.called w i⟩
  | joins (w n) (i : Nat) (flight) (at_i : w.calls i = .riding .entering)
      (busy : w.group.current = some flight) :
      Move ⟨w, n⟩ ⟨w.put i (.riding (.waiting flight.number)), n⟩
  | launches (w n) (i : Nat) (at_i : w.calls i = .riding .entering)
      (free : w.group.current = none) :
      Move ⟨w, n⟩ ⟨{ w.put i (.riding (.working w.group.launched .checking)) with
        group := { w.group with
          current := some ⟨w.group.launched, i⟩, launched := w.group.launched + 1 } }, n⟩
  | finds (w n) (i f : Nat) (at_i : w.calls i = .riding (.working f .checking))
      (usable : w.usable = true) :
      Move ⟨w, n⟩ ⟨w.put i (.riding (.landing f (.ok w.provider.token))),
        { n with origins := Function.update n.origins f (n.read w.now) }⟩
  | asks (w n) (i f : Nat) (at_i : w.calls i = .riding (.working f .checking))
      (unusable : w.usable = false) :
      Move ⟨w, n⟩ ⟨w.put i (.riding (.working f .fetching)), n⟩
  | fails (w n) (i f : Nat) (err : String) (at_i : w.calls i = .riding (.working f .fetching)) :
      Move ⟨w, n⟩ ⟨w.put i (.riding (.landing f (.error err))), n⟩
  | receives (w n) (i f : Nat) (r : TokenResponse)
      (at_i : w.calls i = .riding (.working f .fetching)) (proper : r.proper = true) :
      Move ⟨w, n⟩ ⟨w.put i (.riding (.working f (.publishing r.accessToken (w.now + r.kept)))),
        { n with origins := Function.update n.origins f (some ⟨f, w.now + r.lifetime, none⟩) }⟩
  | publishes (w n) (i f : Nat) (token : String) (expiry : Int)
      (at_i : w.calls i = .riding (.working f (.publishing token expiry))) :
      Move ⟨w, n⟩ ⟨{ w.put i (.riding (.landing f (.ok token))) with provider := ⟨token, expiry⟩ },
        { n with cached := n.origins f }⟩
  | lands (w n) (i f : Nat) (result : Result) (at_i : w.calls i = .riding (.landing f result)) :
      Move ⟨w, n⟩ ⟨{ w.put i (.returned result) with
        group := { w.group with
          current := none, results := Function.update w.group.results f (some result) } },
        n.take i f⟩
  | waits (w n) (i f : Nat) (at_i : w.calls i = .riding (.waiting f)) :
      Move ⟨w, n⟩ ⟨w.put i (.riding (.waiting f)), n.take i f⟩
  | collects (w n) (i f : Nat) (result : Result) (at_i : w.calls i = .riding (.waiting f))
      (over_f : w.group.results f = some result) :
      Move ⟨w, n⟩ ⟨w.put i (.returned result), n.take i f⟩

variable {kinds}

/-- Everything that a well-used provider can do. -/
theorem move_of_wellUsed (s : Noted World Ledger) (e : Event) (used : wellUsed kinds s e = true) :
    Move kinds s (advance (World.step kinds) noteOrigin s e) := by
  obtain ⟨w, n⟩ := s
  cases e with
  | tick elapsed => exact .ticks w n elapsed
  | act i reply =>
    cases at_i : w.calls i with
    | start =>
      by_cases direct : kinds i = .getToken ∧ w.usable
      · simpa [advance, World.step, noteOrigin, at_i, direct, World.put, Ledger.called]
          using Move.reads w n i at_i direct.1 direct.2
      · have old : kinds i = .refresh → nothingOld ⟨w, n⟩ = true := fun refresh => by
          simpa [wellUsed, at_i, refresh] using used
        simpa [advance, World.step, noteOrigin, at_i, direct, World.put, Ledger.called]
          using Move.begins w n i at_i old
    | returned result => simpa [advance, World.step, noteOrigin, at_i] using Move.rests ⟨w, n⟩
    | riding ride =>
      cases ride with
      | entering =>
        cases current : w.group.current with
        | none =>
          simpa [advance, World.step, noteOrigin, at_i, Ride.step, current, World.put,
            Stage.ofStep] using Move.launches w n i at_i current
        | some flight =>
          simpa [advance, World.step, noteOrigin, at_i, Ride.step, current, World.put,
            Stage.ofStep] using Move.joins w n i flight at_i current
      | working f job =>
        cases job with
        | checking =>
          cases usable : w.usable with
          | true =>
            have found : w.provider.usable w.now = true := usable
            simpa [advance, World.step, noteOrigin, at_i, Ride.step, refreshWork, usable, found,
              World.put, Stage.ofStep] using Move.finds w n i f at_i usable
          | false =>
            have missed : w.provider.usable w.now = false := usable
            simpa [advance, World.step, noteOrigin, at_i, Ride.step, refreshWork, usable, missed,
              World.put, Stage.ofStep] using Move.asks w n i f at_i usable
        | fetching =>
          cases answer : reply.tokenResp with
          | error err =>
            simpa [advance, World.step, noteOrigin, at_i, Ride.step, refreshWork, answer,
              World.put, Stage.ofStep] using Move.fails w n i f err at_i
          | ok r =>
            have proper : r.proper = true := by simpa [wellUsed, at_i, answer] using used
            simpa [advance, World.step, noteOrigin, at_i, Ride.step, refreshWork, answer,
              World.put, Stage.ofStep] using Move.receives w n i f r at_i proper
        | publishing token expiry =>
          simpa [advance, World.step, noteOrigin, at_i, Ride.step, refreshWork, World.put,
            Stage.ofStep] using Move.publishes w n i f token expiry at_i
      | landing f result =>
        simpa [advance, World.step, noteOrigin, at_i, Ride.step, World.put, Stage.ofStep,
          Ledger.take] using Move.lands w n i f result at_i
      | waiting f =>
        cases over_f : w.group.results f with
        | none =>
          simpa [advance, World.step, noteOrigin, at_i, Ride.step, over_f, World.put,
            Stage.ofStep, Ledger.take] using Move.waits w n i f at_i
        | some result =>
          simpa [advance, World.step, noteOrigin, at_i, Ride.step, over_f, World.put,
            Stage.ofStep, Ledger.take] using Move.collects w n i f result at_i over_f

end Moves

section Order

/-- A call that is somewhere after a move has been put there or was there before. -/
theorem eq_or_of_update {calls : Nat → Stage} {i j : Nat} {stage place : Stage}
    (at_i : Function.update calls j stage i = place) :
    (i = j ∧ stage = place) ∨ (i ≠ j ∧ calls i = place) := by
  by_cases eq : i = j
  · rw [eq, Function.update_self] at at_i
    exact .inl ⟨eq, at_i⟩
  · rw [Function.update_of_ne eq] at at_i
    exact .inr ⟨eq, at_i⟩

def Stage.ride : Stage → Option (Ride Job Result)
  | .riding ride => some ride
  | _ => none

def World.rides (w : World) (i : Nat) : Option (Ride Job Result) := (w.calls i).ride

theorem rides_eq_update {w w' : World} {i : Nat} {stage : Stage}
    (calls : w'.calls = Function.update w.calls i stage) :
    w'.rides = Function.update w.rides i stage.ride := by
  funext j
  by_cases eq : j = i
  · simp [World.rides, calls, eq]
  · simp [World.rides, calls, Function.update_of_ne eq]

theorem ride_ofStep (out : Ride Job Result ⊕ Result) : (Stage.ofStep out).ride = out.getLeft? := by
  cases out <;> rfl

def Orderly (w : World) : Prop := SingleFlight.Orderly w.group w.rides

theorem orderly_initial (start : Int) : Orderly (initial start) := orderly_empty

theorem Orderly.step {w : World} (orderly : Orderly w) (kinds : Nat → Kind) (e : Event) :
    Orderly (w.step kinds e) := by
  cases e with
  | tick elapsed => exact orderly
  | act i reply =>
    -- A call that is on no flight and leads none afterwards leaves the group in order.
    have outside : ∀ stage : Stage, w.rides i = none → stage.ride.bind Ride.leads = none →
        (∀ f, stage.ride ≠ some (.waiting f)) → Orderly (w.put i stage) := by
      intro stage apart idle unwaiting
      have kept := SingleFlight.Orderly.update orderly (idle.trans (by rw [apart]; rfl))
        fun f waits => absurd waits (unwaiting f)
      have rides : (w.put i stage).rides = Function.update w.rides i stage.ride :=
        rides_eq_update rfl
      rwa [← rides] at kept
    cases at_i : w.calls i with
    | start =>
      have apart : w.rides i = none := by simp [World.rides, at_i, Stage.ride]
      simp only [World.step, at_i]
      split
      · exact outside (.returned _) apart rfl nofun
      · exact outside (.riding .entering) apart rfl nofun
    | returned result => simpa [World.step, at_i] using orderly
    | riding ride =>
      have aboard : w.rides i = some ride := by simp [World.rides, at_i, Stage.ride]
      have kept := SingleFlight.Orderly.step .checking (refreshWork w.now reply) w.provider
        orderly aboard
      rw [← ride_ofStep] at kept
      simp only [World.step, at_i, Orderly]
      rw [rides_eq_update (w := w) rfl]
      exact kept

end Order

end OAuth2Token
