import Mathlib.Algebra.GroupWithZero.Nat
import Mathlib.Data.List.Perm.Basic
import StacProxy.CircuitBreaker

/-!
# The transport of an origin

A request to an origin passes the circuit breaker, is given the credentials of the origin and is
then attempted, more than once if the retry settings allow that. Health probes share the last two
layers and go around the breaker. Requests run side by side; every layer acts in steps of its own.

The loop over the attempts is that of a third-party client. It is a parameter, with what its
documentation says of the settings that it is given.
-/

namespace OriginTransport

open CircuitBreaker (Settings Outcome TransportError Note)

section Source

/-- What an attempt came to, and whether the context of the request had ended then. -/
structure Attempt where
  result : Outcome
  ctxErr : Option TransportError := none
deriving DecidableEq

/-- `retryablehttp.Client`, for its `RetryMax`, its `CheckRetry` and the handler that passes the
last result on: what it returns after some attempts, or `none` if it makes another one, and what it
returns if the context ends while it waits. -/
structure RetryClient where
  next : Int → (Option TransportError → Outcome → Bool × Option TransportError) → List Attempt →
    Option Outcome
  interrupted : List Attempt → TransportError → Outcome
  limited : ∀ {max check tries last}, next max check tries = none → tries.getLast? = some last →
    (tries.length : Int) ≤ max
  asks : ∀ {max check tries last}, next max check tries = none → tries.getLast? = some last →
    (check last.ctxErr last.result).1 = true
  stops : ∀ {max check tries result}, next max check tries = some result → ∃ last,
    tries.getLast? = some last ∧
      ((check last.ctxErr last.result).1 = false ∨ max < (tries.length : Int)) ∧
      (result = last.result ∨ ∃ err, (check last.ctxErr last.result).2 = some err ∧
        result.err = some err)
  interrupted_err : ∀ tries err, (interrupted tries err).err = some err

structure RetryConfig where
  maxRetries : Int
  retryOn : List Int := []
  retryNonIdempotent : Bool := false

structure OriginConfig where
  name : String
  retry : RetryConfig
  /-- The provider of credentials is the one that does nothing. -/
  noAuth : Bool := false
  /-- `none` if the breaker is disabled. -/
  breaker : Option Settings

/-- Whether a request goes through the loop, rather than straight to the network. -/
def RetryConfig.loops (cfg : RetryConfig) (method : String) : Bool :=
  0 < cfg.maxRetries && (cfg.retryNonIdempotent || (method != "POST" && method != "PATCH"))

/-- Whether to retry, and the error to report instead. -/
def checkRetry (retryOn : List Int) (ctxErr : Option TransportError) (result : Outcome) :
    Bool × Option TransportError :=
  if ctxErr.isSome then (false, ctxErr)
  else if result.err.isSome then (true, none)
  else if retryOn = [] then (result.status.any fun code => 500 ≤ code, none)
  else (result.status.any fun code => code ∈ retryOn, none)

/-- What a request is answered with after its attempts, or `none` if there is another one. -/
def RetryConfig.answer (lib : RetryClient) (cfg : RetryConfig) (method : String)
    (tries : List Attempt) : Option Outcome :=
  if cfg.loops method then lib.next cfg.maxRetries (checkRetry cfg.retryOn) tries
  else tries.getLast?.map Attempt.result

inductive Client where
  | httpClient
  | healthClient
  deriving DecidableEq

inductive Phase where
  | refused (text : String)
  | applyAuth
  | sending
  | waiting
  | returning (result : Outcome)
  | finished (result : Outcome)
  deriving DecidableEq

structure Request where
  client : Client
  method : String
  /-- The generation of the breaker that let the request through. -/
  pass : Option ℕ
  tries : List Attempt := []
  phase : Phase
  /-- How often the breaker was told how the request ended. -/
  records : ℕ := 0

inductive Action where
  | authApplied
  | authFailed (err : TransportError)
  | attempt (a : Attempt)
  | timer
  | ctxDone (err : TransportError)

/-- A step of the layers inside the breaker. -/
def Request.act (lib : RetryClient) (cfg : RetryConfig) (r : Request) : Action → Request
  | .authApplied => if r.phase = .applyAuth then { r with phase := .sending } else r
  | .authFailed err => if r.phase = .applyAuth then { r with phase := .returning ⟨none, some err⟩ } else r
  | .attempt a =>
    if r.phase = .sending then
      { r with
        tries := r.tries ++ [a]
        phase := ((cfg.answer lib r.method (r.tries ++ [a])).map Phase.returning).getD .waiting }
    else r
  | .timer => if r.phase = .waiting then { r with phase := .sending } else r
  | .ctxDone err =>
    if r.phase = .waiting then { r with phase := .returning (lib.interrupted r.tries err) } else r

structure World where
  breaker : CircuitBreaker.World
  requests : List Request

inductive Event where
  | arrive (client : Client) (method : String)
  | act (i : ℕ) (action : Action)
  | finish (i draw : ℕ)
  | advance (elapsed : ℕ)

variable (lib : RetryClient) (cfg : OriginConfig)

def OriginConfig.entry : Phase := if cfg.noAuth then .sending else .applyAuth

/-- The layer that a client of the origin calls. -/
def World.arrive (w : World) (client : Client) (method : String) : World :=
  match client, cfg.breaker with
  | .httpClient, some settings =>
    let admitted := (CircuitBreaker.World.step settings cfg.name w.breaker .tryAdmit).1
    match (CircuitBreaker.tryAdmit settings cfg.name w.breaker.breaker w.breaker.now).2 with
    | .ok gen => ⟨admitted, w.requests ++ [{ client, method, pass := some gen, phase := cfg.entry }]⟩
    | .error text => ⟨admitted, w.requests ++ [{ client, method, pass := none, phase := .refused text }]⟩
  | _, _ => { w with requests := w.requests ++ [{ client, method, pass := none, phase := cfg.entry }] }

/-- The inner transport has returned, and the breaker judges what it returned. -/
def World.finish (w : World) (i draw : ℕ) (r : Request) (result : Outcome) : World :=
  match r.pass, cfg.breaker with
  | some gen, some settings =>
    ⟨(CircuitBreaker.World.step settings cfg.name w.breaker (.record gen result draw)).1,
      w.requests.set i { r with phase := .finished result, records := r.records + 1 }⟩
  | _, _ => { w with requests := w.requests.set i { r with phase := .finished result } }

def World.step (w : World) : Event → World × Unit
  | .arrive client method => (w.arrive cfg client method, ())
  | .act i action => match w.requests[i]? with
    | some r => ({ w with requests := w.requests.set i (r.act lib cfg.retry action) }, ())
    | none => (w, ())
  | .finish i draw => match w.requests[i]? with
    | some r => match r.phase with
      | .returning result => (w.finish cfg i draw r result, ())
      | _ => (w, ())
    | none => (w, ())
  | .advance elapsed => ({ w with breaker := { w.breaker with now := w.breaker.now + elapsed } }, ())

def reached (start : Int) (events : List Event) : World :=
  Transcript.final (World.step lib cfg) ⟨⟨CircuitBreaker.initial, start, [], []⟩, []⟩ events

end Source

/-! ## One request -/

section Attempts
variable {lib : RetryClient} {cfg : RetryConfig} {r : Request}

/-- How many attempts a request may take. -/
def RetryConfig.attempts (cfg : RetryConfig) (method : String) : ℕ :=
  if cfg.loops method then cfg.maxRetries.toNat + 1 else 1

/-- An attempt after which another one is in order: the context goes on, and there was an error or
a status to retry on, which is any server error if none is listed. -/
def RetryConfig.Retryable (cfg : RetryConfig) (a : Attempt) : Prop :=
  a.ctxErr = none ∧ (a.result.err.isSome ∨ ∃ code, a.result.status = some code ∧
    if cfg.retryOn = [] then 500 ≤ code else code ∈ cfg.retryOn)

/-- What a request may be answered with after its attempts. -/
inductive Returned (cfg : RetryConfig) (method : String) (tries : List Attempt) : Outcome → Prop
  | unauthorized (none_made : tries = []) (err : TransportError) : Returned cfg method tries ⟨none, some err⟩
  | last {a : Attempt} (is_last : tries.getLast? = some a)
      (stops : cfg.loops method = false ∨ ¬ cfg.Retryable a ∨ tries.length = cfg.attempts method) :
      Returned cfg method tries a.result
  | overruled {a : Attempt} {result : Outcome} (is_last : tries.getLast? = some a)
      (ended : a.ctxErr.isSome) (same : result.err = a.ctxErr) : Returned cfg method tries result
  | interrupted {result : Outcome} (made : tries ≠ []) (failed : result.err.isSome) :
      Returned cfg method tries result

/-- What a phase says of the attempts. -/
def Request.Settled (cfg : RetryConfig) (r : Request) : Prop :=
  match r.phase with
  | .refused _ | .applyAuth => r.tries = []
  | .sending => r.tries.length < cfg.attempts r.method
  | .waiting => r.tries ≠ [] ∧ r.tries.length < cfg.attempts r.method
  | .returning result | .finished result =>
    r.tries.length ≤ cfg.attempts r.method ∧ Returned cfg r.method r.tries result

/-- Every attempt but the last was one to retry after. -/
structure Request.Sound (cfg : RetryConfig) (r : Request) : Prop where
  settled : r.Settled cfg
  asked : ∀ a ∈ r.tries.dropLast, cfg.Retryable a
  again : r.phase = .waiting ∨ r.phase = .sending → ∀ a ∈ r.tries, cfg.Retryable a

theorem checkRetry_iff (a : Attempt) :
    (checkRetry cfg.retryOn a.ctxErr a.result).1 = true ↔ cfg.Retryable a := by
  obtain ⟨⟨status, err⟩, ctxErr⟩ := a
  unfold checkRetry RetryConfig.Retryable
  cases ctxErr <;> cases err <;> by_cases listed : cfg.retryOn = [] <;> cases status <;> simp [listed]

theorem checkRetry_err {retryOn : List Int} {a : Attempt} {err : TransportError}
    (overrules : (checkRetry retryOn a.ctxErr a.result).2 = some err) : a.ctxErr = some err := by
  unfold checkRetry at overrules
  split_ifs at overrules
  exact overrules

theorem RetryConfig.attempts_pos (cfg : RetryConfig) (method : String) : 0 < cfg.attempts method := by
  unfold attempts
  split <;> omega

theorem RetryConfig.attempts_of_loops {method : String} (loops : cfg.loops method = true) :
    (cfg.attempts method : Int) = cfg.maxRetries + 1 := by
  have pos : 0 < cfg.maxRetries := by
    simp only [RetryConfig.loops, Bool.and_eq_true, decide_eq_true_eq] at loops
    exact loops.1
  rw [attempts, if_pos loops]
  omega

/-- How a request goes on after an attempt within its budget. -/
theorem RetryConfig.answer_cases {method : String} {tries : List Attempt} {a : Attempt}
    (fewer : tries.length < cfg.attempts method) :
    (∃ result, cfg.answer lib method (tries ++ [a]) = some result ∧
      Returned cfg method (tries ++ [a]) result) ∨
    (cfg.answer lib method (tries ++ [a]) = none ∧ cfg.Retryable a ∧
      (tries ++ [a]).length < cfg.attempts method) := by
  have is_last : (tries ++ [a]).getLast? = some a := List.getLast?_concat
  have length : (tries ++ [a]).length ≤ cfg.attempts method := by
    rw [List.length_append, List.length_singleton]
    omega
  cases loops : cfg.loops method with
  | false =>
    refine .inl ⟨a.result, ?_, .last is_last (.inl loops)⟩
    rw [RetryConfig.answer, if_neg (by simp [loops]), is_last, Option.map_some]
  | true =>
    have budget := RetryConfig.attempts_of_loops loops
    rw [RetryConfig.answer, if_pos loops]
    cases next : lib.next cfg.maxRetries (checkRetry cfg.retryOn) (tries ++ [a]) with
    | none =>
      have limited := lib.limited next is_last
      exact .inr ⟨rfl, (checkRetry_iff a).mp (lib.asks next is_last), by omega⟩
    | some result =>
      refine .inl ⟨result, rfl, ?_⟩
      obtain ⟨last, there, stops, passed⟩ := lib.stops next
      obtain rfl : a = last := Option.some.inj (is_last.symm.trans there)
      rcases passed with rfl | ⟨err, overrules, same⟩
      · refine .last is_last (.inr (stops.imp (fun refuses asks => ?_) fun spent => by omega))
        rw [(checkRetry_iff a).mpr asks] at refuses
        cases refuses
      · have ended := checkRetry_err overrules
        exact .overruled is_last (by simp [ended]) (same.trans ended.symm)

variable (lib cfg r) in
/-- What a step of a request can be. -/
inductive Acted : Request → Prop
  | idle : Acted r
  | authorized (applies : r.phase = .applyAuth) : Acted { r with phase := .sending }
  | unauthorized (applies : r.phase = .applyAuth) (err : TransportError) :
      Acted { r with phase := .returning ⟨none, some err⟩ }
  | attempted (sends : r.phase = .sending) (a : Attempt) :
      Acted { r with
        tries := r.tries ++ [a]
        phase := ((cfg.answer lib r.method (r.tries ++ [a])).map Phase.returning).getD .waiting }
  | resumed (waits : r.phase = .waiting) : Acted { r with phase := .sending }
  | interrupted (waits : r.phase = .waiting) (err : TransportError) :
      Acted { r with phase := .returning (lib.interrupted r.tries err) }

theorem acted (r : Request) (action : Action) : Acted lib cfg r (r.act lib cfg action) := by
  cases action with
  | timer =>
    rw [Request.act]
    split
    · exact .resumed (by assumption)
    · exact .idle
  | authApplied | authFailed err | attempt a | ctxDone err =>
    rw [Request.act]
    split
    · constructor
      assumption
    · exact .idle

/-- An attempt that is not the first follows others to retry after. -/
theorem Request.Sound.act (sound : r.Sound cfg) (action : Action) :
    (r.act lib cfg action).Sound cfg := by
  have settled := sound.settled
  have step := @acted lib cfg r action
  generalize r.act lib cfg action = next at step ⊢
  cases step with
  | idle => exact sound
  | authorized applies =>
    rw [Request.Settled, applies] at settled
    refine ⟨?_, sound.asked, ?_⟩
    · change r.tries.length < _
      rw [settled]
      exact cfg.attempts_pos r.method
    · intro _ result made
      rw [settled] at made
      cases made
  | unauthorized applies err =>
    rw [Request.Settled, applies] at settled
    exact ⟨⟨by simp [settled], .unauthorized settled err⟩, sound.asked, by simp⟩
  | attempted sends a =>
    rw [Request.Settled, sends] at settled
    have earlier : ∀ other ∈ (r.tries ++ [a]).dropLast, cfg.Retryable other := by
      rw [List.dropLast_concat]
      exact sound.again (.inr sends)
    rcases @RetryConfig.answer_cases lib cfg r.method r.tries a settled with
      ⟨result, answered, returned⟩ | ⟨unanswered, asks, more⟩
    · rw [answered]
      refine ⟨⟨?_, returned⟩, earlier, by simp⟩
      rw [List.length_append, List.length_singleton]
      exact settled
    · rw [unanswered]
      refine ⟨⟨List.concat_ne_nil _ _, more⟩, earlier, ?_⟩
      intro _ other made
      rcases List.mem_append.mp made with before | now
      · exact sound.again (.inr sends) other before
      · rw [List.mem_singleton.mp now]
        exact asks
  | resumed waits =>
    rw [Request.Settled, waits] at settled
    exact ⟨settled.2, sound.asked, fun _ => sound.again (.inl waits)⟩
  | interrupted waits err =>
    rw [Request.Settled, waits] at settled
    have failed := lib.interrupted_err r.tries err
    exact ⟨⟨le_of_lt settled.2, .interrupted settled.1 (by simp [failed])⟩, sound.asked, by simp⟩

theorem Request.Sound.length_le (sound : r.Sound cfg) : r.tries.length ≤ cfg.attempts r.method := by
  have settled := sound.settled
  unfold Request.Settled at settled
  split at settled
  · simp [settled]
  · simp [settled]
  · exact le_of_lt settled
  · exact le_of_lt settled.2
  · exact settled.1
  · exact settled.1

end Attempts

/-! ## All requests of an origin -/

section Runs
variable {lib : RetryClient} {cfg : OriginConfig} {settings : Settings} {w : World} {r : Request}

/-- The generation of a request that the breaker still waits for. -/
def Request.underway (r : Request) : Option ℕ :=
  match r.phase with
  | .finished _ => none
  | _ => r.pass

/-- The breaker let the request through and has been told how it ended. -/
def Request.reported (r : Request) : Bool :=
  match r.phase with
  | .finished _ => r.pass.isSome
  | _ => false

/-- A probe goes around the breaker, which is told once of every other request. -/
structure Request.Told (r : Request) : Prop where
  probe : r.client = .healthClient → r.pass = none
  counted : r.records = if r.reported then 1 else 0

/-- What concerns the breaker is not changed inside of it. -/
structure Untold (r new : Request) : Prop where
  underway : new.underway = r.underway
  reported : new.reported = r.reported
  client : new.client = r.client
  pass : new.pass = r.pass
  records : new.records = r.records

theorem untold_act (r : Request) (cfg : RetryConfig) (action : Action) :
    Untold r (r.act lib cfg action) := by
  have step := @acted lib cfg r action
  generalize r.act lib cfg action = next at step ⊢
  cases step with
  | idle => exact ⟨rfl, rfl, rfl, rfl, rfl⟩
  | attempted place a =>
    cases cfg.answer lib r.method (r.tries ++ [a]) <;>
      exact ⟨by simp [Request.underway, place], by simp [Request.reported, place], rfl, rfl, rfl⟩
  | authorized place | unauthorized place err | resumed place | interrupted place err =>
    exact ⟨by simp [Request.underway, place], by simp [Request.reported, place], rfl, rfl, rfl⟩

/-- The list around one of its entries. -/
theorem exists_split {α : Type*} {l : List α} {i : ℕ} {a : α} (there : l[i]? = some a) :
    ∃ front back, l = front ++ a :: back ∧ ∀ b, l.set i b = front ++ b :: back := by
  obtain ⟨bound, rfl⟩ := List.getElem?_eq_some_iff.mp there
  refine ⟨l.take i, l.drop (i + 1), ?_, ?_⟩
  · rw [← List.drop_eq_getElem_cons bound, List.take_append_drop]
  · intro b
    rw [List.set_eq_take_append_cons_drop, if_pos bound]

/-- The requests of a world, and what the breaker has been told of them. -/
structure Kept (cfg : OriginConfig) (settings : Settings) (start : Int) (w : World) : Prop where
  calls : ∃ calls, w.breaker = CircuitBreaker.reached settings cfg.name start calls
  underway : w.breaker.inFlight.Perm (w.requests.filterMap Request.underway)
  judged : w.breaker.log.countP (· ≠ Note.opening) ≤ (w.requests.map Request.records).sum
  told : ∀ r ∈ w.requests, r.Told

theorem sound_entry (client : Client) (method : String) (pass : Option ℕ) :
    Request.Sound cfg.retry { client, method, pass, phase := cfg.entry } := by
  refine ⟨?_, by simp, by simp⟩
  unfold OriginConfig.entry
  split
  · exact cfg.retry.attempts_pos method
  · rfl

/-- What holds of all requests holds after one is added or changed to one of which it holds. -/
theorem forall_add {P : Request → Prop} {new : Request} (all : ∀ r ∈ w.requests, P r) (holds : P new) :
    ∀ r ∈ w.requests ++ [new], P r := by
  intro r member
  rcases List.mem_append.mp member with old | is_new
  · exact all r old
  · rwa [List.mem_singleton.mp is_new]

theorem forall_set {P : Request → Prop} {new : Request} {i : ℕ} (all : ∀ r ∈ w.requests, P r)
    (holds : P new) : ∀ r ∈ w.requests.set i new, P r := by
  intro r member
  rcases List.mem_or_eq_of_mem_set member with old | rfl
  · exact all r old
  · exact holds

theorem sound_step (w : World) (e : Event) (sound : ∀ r ∈ w.requests, r.Sound cfg.retry) :
    ∀ r ∈ (World.step lib cfg w e).1.requests, r.Sound cfg.retry := by
  cases e with
  | advance elapsed => exact sound
  | arrive client method =>
    simp only [World.step, World.arrive]
    split
    · split
      · exact forall_add sound (sound_entry _ _ _)
      · exact forall_add sound ⟨rfl, by simp, by simp⟩
    · exact forall_add sound (sound_entry _ _ _)
  | act i action =>
    cases there : w.requests[i]? with
    | none => simpa only [World.step, there] using sound
    | some r =>
      simp only [World.step, there]
      exact forall_set sound ((sound r (List.mem_of_getElem? there)).act action)
  | finish i draw =>
    cases there : w.requests[i]? with
    | none => simpa only [World.step, there] using sound
    | some r =>
      simp only [World.step, there]
      split
      · rename_i result returns
        have before := sound r (List.mem_of_getElem? there)
        have settled := before.settled
        rw [Request.Settled, returns] at settled
        simp only [World.finish]
        split <;> exact forall_set sound ⟨settled, before.asked, by simp⟩
      · exact sound

/-- One more call of the breaker. -/
theorem calls_step {start : Int} {b : CircuitBreaker.World}
    (calls : ∃ calls, b = CircuitBreaker.reached settings cfg.name start calls)
    (call : CircuitBreaker.Event) : ∃ calls, (CircuitBreaker.World.step settings cfg.name b call).1 =
      CircuitBreaker.reached settings cfg.name start calls := by
  obtain ⟨calls, rfl⟩ := calls
  exact ⟨calls ++ [call], by rw [CircuitBreaker.reached, CircuitBreaker.reached, Transcript.final_append]; rfl⟩

/-- What a record of a request under way makes of the bookkeeping. -/
theorem record_books {b : CircuitBreaker.World} {gen : ℕ} (underway : gen ∈ b.inFlight)
    (result : Outcome) (draw : ℕ) (name : String) :
    (CircuitBreaker.World.step settings name b (.record gen result draw)).1.inFlight =
        b.inFlight.erase gen ∧
      (CircuitBreaker.World.step settings name b (.record gen result draw)).1.log.countP
        (· ≠ Note.opening) ≤ b.log.countP (· ≠ Note.opening) + 1 := by
  simp only [CircuitBreaker.World.step, underway, if_true]
  refine ⟨rfl, ?_⟩
  have opening : ∀ before after, (CircuitBreaker.World.opening before after).countP
      (· ≠ Note.opening) = 0 := by
    intro before after
    unfold CircuitBreaker.World.opening
    split <;> rfl
  have noted : (b.notes (.record gen result draw)).length ≤ 1 := by
    rw [CircuitBreaker.World.notes, if_pos underway]
    exact Option.length_toList_le
  have counted := List.countP_le_length (p := fun note => decide (note ≠ Note.opening))
    (l := b.notes (.record gen result draw))
  simp only [CircuitBreaker.World.settle, List.countP_append, opening]
  omega

theorem Kept.add {start : Int} {b : CircuitBreaker.World} {new : Request}
    (kept : Kept cfg settings start w)
    (calls : ∃ calls, b = CircuitBreaker.reached settings cfg.name start calls)
    (flights : b.inFlight = new.underway.toList ++ w.breaker.inFlight)
    (log : b.log = w.breaker.log) (told : new.Told) :
    Kept cfg settings start ⟨b, w.requests ++ [new]⟩ := by
  refine ⟨calls, ?_, ?_, forall_add kept.told told⟩
  · have one : [new].filterMap Request.underway = new.underway.toList := by
      cases is_underway : new.underway <;> simp [is_underway]
    rw [flights, List.filterMap_append, one]
    exact (List.perm_append_comm).trans (kept.underway.append_right _)
  · rw [log, List.map_append, List.sum_append]
    exact le_trans kept.judged (Nat.le_add_right _ _)

/-- A request that enters the layers inside the breaker. -/
theorem entered (client : Client) (method : String) (pass : Option ℕ)
    (probe : client = .healthClient → pass = none) :
    Request.underway { client, method, pass, phase := cfg.entry } = pass ∧
      Request.Told { client, method, pass, phase := cfg.entry } := by
  unfold OriginConfig.entry
  cases cfg.noAuth <;> exact ⟨rfl, probe, rfl⟩

theorem Kept.arrive {start : Int} (enabled : cfg.breaker = some settings)
    (kept : Kept cfg settings start w) (client : Client) (method : String) :
    Kept cfg settings start (w.arrive cfg client method) := by
  cases client with
  | healthClient =>
    obtain ⟨underway, told⟩ := @entered cfg .healthClient method none fun _ => rfl
    exact kept.add kept.calls (by rw [underway]; rfl) rfl told
  | httpClient =>
    have asked := calls_step kept.calls .tryAdmit
    simp only [World.arrive, enabled]
    cases answer : (CircuitBreaker.tryAdmit settings cfg.name w.breaker.breaker w.breaker.now).2 with
    | ok gen =>
      obtain ⟨underway, told⟩ := @entered cfg .httpClient method (some gen) (by simp)
      refine kept.add asked ?_ rfl told
      simp only [CircuitBreaker.World.step, answer, underway]
      rfl
    | error text =>
      refine kept.add asked ?_ rfl ⟨by simp, rfl⟩
      simp only [CircuitBreaker.World.step, answer]
      rfl

theorem Kept.replace {start : Int} {i : ℕ} {new : Request} (kept : Kept cfg settings start w)
    (there : w.requests[i]? = some r) (underway : new.underway = r.underway)
    (records : new.records = r.records) (told : new.Told) :
    Kept cfg settings start { w with requests := w.requests.set i new } := by
  obtain ⟨front, back, is_split, replaced⟩ := exists_split there
  refine ⟨kept.calls, ?_, ?_, forall_set kept.told told⟩
  · have before := kept.underway
    rw [is_split, List.filterMap_append, List.filterMap_cons, ← underway] at before
    rwa [replaced, List.filterMap_append, List.filterMap_cons]
  · have before := kept.judged
    rw [is_split, List.map_append, List.map_cons, ← records] at before
    rwa [replaced, List.map_append, List.map_cons]

theorem Kept.finish {start : Int} {i draw : ℕ} {result : Outcome} (enabled : cfg.breaker = some settings)
    (kept : Kept cfg settings start w) (there : w.requests[i]? = some r)
    (returns : r.phase = .returning result) :
    Kept cfg settings start (w.finish cfg i draw r result) := by
  have before := kept.told r (List.mem_of_getElem? there)
  have probe := before.probe
  have untold : r.records = 0 := by simpa [Request.reported, returns] using before.counted
  unfold World.finish
  cases pass : r.pass with
  | none =>
    apply kept.replace there
    · simp [Request.underway, returns, pass]
    · rfl
    · exact ⟨fun _ => rfl, by simp [Request.reported, untold]⟩
  | some gen =>
    obtain ⟨front, back, is_split, replaced⟩ := exists_split there
    have is_underway : r.underway = some gen := by rw [Request.underway, returns, pass]
    have flights := kept.underway
    rw [is_split, List.filterMap_append, List.filterMap_cons, is_underway] at flights
    have member : gen ∈ w.breaker.inFlight := by
      rw [flights.mem_iff]
      simp
    obtain ⟨erased, counted⟩ := @record_books settings w.breaker gen member result draw cfg.name
    simp only [enabled]
    refine ⟨calls_step kept.calls _, ?_, ?_, forall_set kept.told ⟨pass ▸ probe, ?_⟩⟩
    · rw [erased, replaced, List.filterMap_append, List.filterMap_cons]
      have rest := (flights.trans List.perm_middle).erase gen
      rwa [List.erase_cons_head] at rest
    · have judged := kept.judged
      rw [is_split, List.map_append, List.map_cons, List.sum_append, List.sum_cons] at judged
      rw [replaced, List.map_append, List.map_cons, List.sum_append, List.sum_cons]
      dsimp only
      omega
    · simp [Request.reported, untold]

theorem Kept.step (start : Int) (enabled : cfg.breaker = some settings) (w : World) (e : Event)
    (kept : Kept cfg settings start w) : Kept cfg settings start (World.step lib cfg w e).1 := by
  cases e with
  | arrive client method => exact kept.arrive enabled client method
  | advance elapsed =>
    exact ⟨calls_step kept.calls (.advance elapsed), kept.underway, kept.judged, kept.told⟩
  | act i action =>
    cases there : w.requests[i]? with
    | none => simpa only [World.step, there] using kept
    | some r =>
      simp only [World.step, there]
      have untold := @untold_act lib r cfg.retry action
      have told := kept.told r (List.mem_of_getElem? there)
      refine kept.replace there untold.underway untold.records ⟨?_, ?_⟩
      · rw [untold.client, untold.pass]
        exact told.probe
      · rw [untold.records, untold.reported]
        exact told.counted
  | finish i draw =>
    cases there : w.requests[i]? with
    | none => simpa only [World.step, there] using kept
    | some r =>
      simp only [World.step, there]
      split
      · rename_i result returns
        exact kept.finish enabled there returns
      · exact kept

theorem kept_reached (lib : RetryClient) (enabled : cfg.breaker = some settings) (start : Int)
    (events : List Event) : Kept cfg settings start (reached lib cfg start events) :=
  Transcript.invariant (Kept.step start enabled) ⟨⟨[], rfl⟩, List.Perm.nil, le_rfl, by simp⟩ events

theorem sound_reached (lib : RetryClient) (cfg : OriginConfig) (start : Int) (events : List Event) :
    ∀ r ∈ (reached lib cfg start events).requests, r.Sound cfg.retry :=
  Transcript.invariant sound_step (by simp) events

/-- How the breaker bounds what is on its way to the origin. Its own bookkeeping is that of the
requests. It is told of a request at most once, however many attempts it took, and its judgements
are of those that it was told of. Health probes go around it. -/
structure Guarded (settings : Settings) (w : World) : Prop where
  underway : w.breaker.inFlight.Perm (w.requests.filterMap Request.underway)
  opened : w.breaker.breaker.state = .stateOpen →
    ∀ r ∈ w.requests, r.underway ≠ some w.breaker.breaker.gen
  probing : w.breaker.breaker.state = .stateHalfOpen →
    w.requests.countP (fun r => r.underway = some w.breaker.breaker.gen) ≤ settings.halfOpenProbes
  judged : w.breaker.log.countP (· ≠ Note.opening) ≤ (w.requests.map Request.records).sum
  once : ∀ r ∈ w.requests, r.records ≤ 1
  around : ∀ r ∈ w.requests, r.client = .healthClient → r.pass = none ∧ r.records = 0

theorem Kept.guarded {start : Int} (kept : Kept cfg settings start w) : Guarded settings w := by
  have sound : CircuitBreaker.Sound settings w.breaker := by
    obtain ⟨calls, same⟩ := kept.calls
    rw [same]
    exact CircuitBreaker.sound_reached start calls
  refine ⟨kept.underway, ?_, ?_, kept.judged, ?_, ?_⟩
  · intro opened r member is_underway
    apply sound.opened opened
    rw [kept.underway.mem_iff, List.mem_filterMap]
    exact ⟨r, member, is_underway⟩
  · intro probing
    obtain ⟨counted, limited⟩ := sound.probing probing
    have same : w.requests.countP (fun r => r.underway = some w.breaker.breaker.gen) =
        w.breaker.inFlight.count w.breaker.breaker.gen := by
      rw [kept.underway.count_eq, List.count, List.countP_filterMap]
      apply List.countP_congr
      intro r _
      cases r.underway <;> simp
    rw [same, ← counted]
    exact limited
  · intro r member
    rw [(kept.told r member).counted]
    split <;> omega
  · intro r member probe
    have told := kept.told r member
    have around := told.probe probe
    refine ⟨around, told.counted.trans (if_neg ?_)⟩
    unfold Request.reported
    split <;> simp [around]

end Runs

section Samples

/-- A client that does what is documented. -/
def plainClient : RetryClient where
  next max check tries := tries.getLast?.bind fun last =>
    if (check last.ctxErr last.result).1 = false ∨ max < tries.length then
      some { last.result with err := (check last.ctxErr last.result).2.or last.result.err }
    else none
  interrupted _ err := ⟨none, some err⟩
  limited := by
    intro max check tries last goes_on is_last
    simp only [is_last, Option.bind_some, ite_eq_right_iff, reduceCtorEq, imp_false, not_or] at goes_on
    omega
  asks := by
    intro max check tries last goes_on is_last
    simp only [is_last, Option.bind_some, ite_eq_right_iff, reduceCtorEq, imp_false, not_or] at goes_on
    simpa using goes_on.1
  stops := by
    intro max check tries result returned
    obtain ⟨last, is_last, decided⟩ := Option.bind_eq_some_iff.mp returned
    split at decided
    · rename_i stops
      cases decided
      refine ⟨last, is_last, stops, ?_⟩
      cases (check last.ctxErr last.result).2 with
      | none => exact .inl rfl
      | some err => exact .inr ⟨err, rfl, rfl⟩
    · cases decided
  interrupted_err _ _ := rfl

def strict : Settings := CircuitBreaker.BreakerConfig.withDefaults ⟨1, 0, 0, 0⟩

def twice : OriginConfig where
  name := "alpha"
  retry := { maxRetries := 1 }
  noAuth := true
  breaker := some strict

def down : Outcome := ⟨some 503, none⟩

/-- A search fails while a record is fetched, and a further request is refused. -/
def outage : List Event :=
  [.arrive .httpClient "GET", .arrive .httpClient "POST", .act 0 (.attempt ⟨down, none⟩),
    .act 1 (.attempt ⟨down, none⟩), .finish 1 0, .act 0 .timer, .act 0 (.attempt ⟨down, none⟩),
    .arrive .httpClient "GET", .arrive .healthClient "GET"]

end Samples

section Results
variable {settings : Settings}

/-- However requests overlap, while the circuit is open nothing is under way that it let through
since it opened, and while it is half open no more than the number of probes. -/
theorem traffic_guarded (lib : RetryClient) (cfg : OriginConfig) (enabled : cfg.breaker = some settings)
    (start : Int) (events : List Event) :
    Guarded settings (reached lib cfg start events) ∧
      ∃ calls, (reached lib cfg start events).breaker =
        CircuitBreaker.reached settings cfg.name start calls :=
  ⟨(kept_reached lib enabled start events).guarded, (kept_reached lib enabled start events).calls⟩

theorem outage_guarded : Guarded strict (reached plainClient twice 0 outage) ∧
    (reached plainClient twice 0 outage).breaker.breaker.state = .stateOpen ∧
    (reached plainClient twice 0 outage).requests.map (fun r => (r.underway, r.records)) =
      [(some 0, 0), (none, 1), (none, 0), (none, 0)] :=
  ⟨(traffic_guarded plainClient twice rfl 0 outage).1, by decide, by decide⟩

end Results

end OriginTransport
