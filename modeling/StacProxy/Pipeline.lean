import StacProxy.ApiKeyRegistry
import StacProxy.CachedResponses
import StacProxy.RateLimit
import StacProxy.SearchEnforcement
import StacProxy.UnconstrainedDecision

/-!
# The middleware chain

A request goes through authentication, the rate limiter, the authorization middleware and the
response cache before it gets to the handler, and its response goes back through the last two.
Requests overlap: between the arrival of one and its completion, others arrive and complete.
The enforcer and the handler are free to answer every request in their own way.

The store names the bucket of a client by a digest; here every client has a bucket of its own.
-/

namespace Pipeline

open JsonValue Cql2Eval PolicyFilter AuthzMiddleware OutboundRequest RequestPath Authentication
open RateLimit (Quota Bucket allow absent)
open ResponseCache (Captured CacheEntry SameReply cacheKey hasConstraints writeCachedResponse
  principalClass keyText noStore lifetime)
open CachedResponses
open Geofence (given)
open UnconstrainedDecision (Unconstrained unconstrained_of_hasConstraints)

section Source

structure RateLimiter where
  quota : Quota
  failClosed : Bool := false

/-- How a call to the store of the limiter ends: with an answer, before the script ran, or after
it did. -/
inductive StoreCall where
  | answered
  | lost
  | unanswered
  deriving DecidableEq

/-- A chain, with the libraries that it is built with. -/
structure Deployment (φ σ G : Type) where
  lib : Library G
  cql2 : Cql2Library
  unmarshal : Bytes → Option Json
  auth : Option Authentication.Config := none
  rateLimit : Option RateLimiter := none
  authz : Option HTTPConfig := none
  cache : Option (Cache φ σ) := none

/-- A request as the chain receives it. -/
structure Arrival where
  now : Int
  method : Bytes := bytes "GET"
  url : Url
  inbound : InboundRequest := {}
  clientIP : Bytes
  /-- The shape of the request that the router attached. -/
  info : Option Info := none
  /-- What the enforcer answers to this request, by the principal. -/
  verdict : Option Principal → Except Unit AuthzDecision

/-- A request that was let through, with what the authorization middleware made of it. -/
structure Ticket where
  arrival : Arrival
  principal : Option Principal
  limits : Option RateLimit.Info := none
  info : Option Info
  decision : Option AuthzDecision

def Ticket.request (t : Ticket) : ResponseCache.Request where
  method := t.arrival.method
  url := t.arrival.url
  rawQuery := t.arrival.inbound.rawQuery
  header := t.arrival.inbound.header
  principal := t.principal
  requestType := t.info.map Info.requestType
  decision := t.decision

def Ticket.constraints (t : Ticket) : Option AuthzConstraints :=
  t.decision.bind AuthzDecision.constraints

/-- The response to the client, with the numbers in its rate limit headers. There is no response
of the chain's own after a panic. -/
structure Reply where
  limits : Option RateLimit.Info := none
  answer : Option Served

structure World (σ : Type) where
  buckets : Bytes → Bucket := fun _ => absent
  store : σ
  running : List Ticket := []
  completed : List (Ticket × Int × Captured) := []

inductive Event (φ : Type) where
  | arrive (fault : φ) (call : StoreCall) (a : Arrival)
  | finish (fault : φ) (now : Int) (index : ℕ) (response : Captured)

def defaultKeyFunc (principalID clientIP : Bytes) : Bytes :=
  if principalID ≠ [] ∧ principalID ≠ bytes "anonymous" then bytes "user:" ++ principalID
  else bytes "ip:" ++ clientIP

def rateLimitExceeded : ErrorReply := ⟨429, "RateLimitExceeded", "Rate limit exceeded"⟩

def rateLimiterUnavailable : ErrorReply :=
  ⟨503, "RateLimiterUnavailable",
    "Rate limiting backend unavailable; refusing request (failure_mode: closed)"⟩

/-- The rate limiter on the bucket of a client: what becomes of the bucket, the numbers for the
headers and whether the request goes on. A quota that admits nothing does not reach the store. -/
def RateLimiter.pass (limiter : RateLimiter) (call : StoreCall) (now : Int) (b : Bucket) :
    Bucket × Option RateLimit.Info × Except ErrorReply Unit :=
  let (spent, allowed, info) := allow limiter.quota now b
  let decided := (spent, some info, if allowed then .ok () else .error rateLimitExceeded)
  let failed (b : Bucket) : Bucket × Option RateLimit.Info × Except ErrorReply Unit :=
    (b, none, if limiter.failClosed then .error rateLimiterUnavailable else .ok ())
  if limiter.quota.requests ≤ 0 ∨ limiter.quota.window ≤ 0 then decided
  else match call with
    | .answered => decided
    | .lost => failed b
    | .unanswered => failed spent

namespace Deployment
variable {φ σ G : Type} (D : Deployment φ σ G)

/-- The principal in the context, or the answer to a request that is not authenticated. -/
def authenticate (a : Arrival) : Except (Option Served) (Option Principal) :=
  match D.auth with
  | none => .ok none
  | some cfg => match handle cfg a.inbound with
    | .refused reply => .error (some (.refused reply))
    | .aborted => .error none
    | .passed context => .ok (some context.principal)

def key (a : Arrival) (principal : Option Principal) : Bytes :=
  defaultKeyFunc (principal.elim [] Principal.id) a.clientIP

def charge (w : World σ) (call : StoreCall) (a : Arrival) (principal : Option Principal) :
    World σ × Option RateLimit.Info × Except ErrorReply Unit :=
  match D.rateLimit with
  | none => (w, none, .ok ())
  | some limiter =>
    let (b, info, passed) := limiter.pass call a.now (w.buckets (key a principal))
    ({ w with buckets := Function.update w.buckets (key a principal) b }, info, passed)

/-- Only what comes before the inner handler. The decision in the context has the constraints that
push-down left. -/
def authorize (a : Arrival) (principal : Option Principal) : Except ErrorReply Ticket :=
  match D.authz with
  | none => .ok { arrival := a, principal, info := a.info, decision := none }
  | some cfg =>
    if principal.isNone && !cfg.allowAnonymous then
      .error ⟨401, "Unauthorized", "authentication required"⟩
    else match a.verdict principal with
      | .error _ => .error ⟨500, "InternalError", "authorization check failed"⟩
      | .ok decision =>
        if !decision.allowed then
          .error ⟨403, "Forbidden", decision.reasons.head?.getD "access denied"⟩
        else match admitted D.cql2 cfg a.info decision.constraints with
          | .error reply => .error reply
          | .ok (info, constraints) =>
            .ok { arrival := a, principal, info, decision := some { decision with constraints } }

/-- What the authorization middleware makes of the response. -/
def answer (t : Ticket) (response : Response) : Served :=
  respond D.lib D.cql2 D.unmarshal t.constraints t.info response

def lookup (fault : φ) (s : σ) (t : Ticket) : σ × Option CacheEntry :=
  match D.cache with
  | none => (s, none)
  | some M => M.lookup fault s t.arrival.now t.request

def keep (fault : φ) (s : σ) (t : Ticket) (now : Int) (response : Captured) : σ :=
  match D.cache with
  | none => s
  | some M => M.keep fault s ⟨t.request, now, response⟩

/-- The response as the cache hands it back. -/
def miss (t : Ticket) (response : Captured) : Response :=
  if D.cache.isSome then forwardMiss t.request response else response.toResponse

/-- A request that was let through is answered from the cache, or enters the handler. -/
def enter (w : World σ) (fault : φ) (t : Ticket) : World σ × Option Reply :=
  let looked := D.lookup fault w.store t
  match looked.2 with
  | some entry => ({ w with store := looked.1 },
      some { limits := t.limits
             answer := some (D.answer t (writeCachedResponse entry)) })
  | none => ({ w with store := looked.1, running := w.running ++ [t] }, none)

def arrive (w : World σ) (fault : φ) (call : StoreCall) (a : Arrival) : World σ × Option Reply :=
  match D.authenticate a with
  | .error answer => (w, some { answer })
  | .ok principal =>
    let (w, limits, passed) := D.charge w call a principal
    match passed with
    | .error reply => (w, some { limits, answer := some (.refused reply) })
    | .ok _ => match D.authorize a principal with
      | .error reply => (w, some { limits, answer := some (.refused reply) })
      | .ok ticket => D.enter w fault { ticket with limits }

/-- The handler answers one of the requests in it. -/
def finish (w : World σ) (fault : φ) (now : Int) (index : ℕ) (response : Captured) :
    World σ × Option Reply :=
  match w.running[index]? with
  | none => (w, none)
  | some ticket =>
    ({ w with
        store := D.keep fault w.store ticket now response
        running := w.running.eraseIdx index
        completed := w.completed ++ [(ticket, now, response)] },
      some { limits := ticket.limits
             answer := some (D.answer ticket (D.miss ticket response)) })

def step (w : World σ) : Event φ → World σ × Option Reply
  | .arrive fault call a => D.arrive w fault call a
  | .finish fault now index response => D.finish w fault now index response

def run (start : σ) (events : List (Event φ)) : World σ :=
  Transcript.final D.step { store := start } events

end Deployment

end Source

/-- The two halves around the inner handler are the authorization middleware. -/
theorem serve_eq {φ σ G : Type} {D : Deployment φ σ G} {cfg : HTTPConfig}
    (gate : D.authz = some cfg) (a : Arrival) (principal : Option Principal)
    (next : Option Info → Response) :
    AuthzMiddleware.serve D.lib D.cql2 D.unmarshal cfg principal.isSome (a.verdict principal) a.info
        next = match D.authorize a principal with
      | .error reply => .refused reply
      | .ok t => D.answer t (next t.info) := by
  simp only [AuthzMiddleware.serve, Deployment.authorize, gate, Option.not_isSome]
  cases principal.isNone && !cfg.allowAnonymous with
  | true => rfl
  | false =>
    cases a.verdict principal with
    | error _ => rfl
    | ok decision =>
      cases allowed : decision.allowed with
      | false => simp [allowed]
      | true =>
        simp only [allowed, Bool.not_true, Bool.false_eq_true, if_false]
        cases admitted D.cql2 cfg a.info decision.constraints with
        | error reply | ok left => rfl

/-! ## Constraints on the way -/

section Constraints
variable {cql2 : Cql2Library} {cfg : HTTPConfig} {info sent : Option Info} {c after : AuthzConstraints}

theorem hasConstraints_eq_false {d : AuthzDecision} (constraints : d.constraints = some c)
    (free : Unconstrained c) : hasConstraints d = false := by
  have area : c.geofence.any (fun g => (given g.allowedArea).isSome) = false := by
    cases fenced : c.geofence with
    | none => rfl
    | some g => simp [free.allowedArea g fenced]
  simp [hasConstraints, constraints, free.allowedCollections, free.deniedCollections, area,
    free.maxResults, free.requiredFilters, free.cql2Filter, free.cql2FilterJSON]

theorem injected_eq_pushed {sr sent : SearchRequest.Request} {spatial : Bool}
    (ok : injectCQL2Filter cql2 sr c spatial = .ok (sent, after)) :
    ∃ pushed, maybePushDownGeofence cql2 c spatial = .ok (after, pushed) := by
  simp only [injectCQL2Filter, bind_eq_ok, mapError_eq_ok] at ok
  obtain ⟨⟨updated, pushed⟩, pushes, _, -, _, -, _, -, ok⟩ := ok
  refine ⟨pushed, ?_⟩
  split at ok
  · cases ok
    exact pushes
  · split at ok
    · cases ok
    · cases ok
      exact pushes

/-- Push-down puts a filter in the place of what it takes away. -/
theorem unconstrained_of_pushed (roundTrips : cql2.RoundTrips) {spatial pushed : Bool}
    (ok : maybePushDownGeofence cql2 c spatial = .ok (after, pushed)) (free : Unconstrained after) :
    Unconstrained c := by
  rcases maybePushDownGeofence_eq_ok ok with ⟨rfl, -, -⟩ |
    ⟨fence, policy, text, combined, built, kept, joined, encoded, -, rfl⟩
  · exact free
  · have read := parsePolicyCQL2_encoded roundTrips (pushed_makes kept built joined) encoded c
    rw [free.parsePolicyCQL2] at read
    cases read

theorem unconstrained_of_applied {sr constrained : SearchRequest.Request}
    (ok : applyConstraints sr c = some (constrained, after)) (free : Unconstrained after) :
    Unconstrained c := by
  obtain ⟨-, -, rfl⟩ := applyConstraints_eq_some ok
  refine { free with allowedArea := ?_ }
  intro g fenced
  have area := free.allowedArea (defaultFilterMode c.geofencePushedDown g) (by simp [fenced])
  unfold defaultFilterMode at area
  split at area <;> exact area

/-- Constraints that are gone when the request is handed on were never there. -/
theorem unconstrained_of_admitted (roundTrips : cql2.RoundTrips)
    (ok : admitted cql2 cfg info (some c) = .ok (sent, some after)) (free : Unconstrained after) :
    Unconstrained c := by
  unfold admitted at ok
  cases info with
  | none =>
    cases ok
    exact free
  | some i =>
    simp only at ok
    cases searches : i.searchReq with
    | none =>
      simp only [searches] at ok
      cases ok
      exact free
    | some sr =>
      simp only [searches, map_eq_ok] at ok
      obtain ⟨⟨sentInfo, final⟩, prepared, same⟩ := ok
      cases same
      obtain ⟨constrained, limited, applied, ⟨-, -, rfl⟩ | ⟨-, request, injected, -⟩⟩ :=
        prepare_eq_ok prepared
      · exact unconstrained_of_applied applied free
      · obtain ⟨pushed, pushes⟩ := injected_eq_pushed injected
        exact unconstrained_of_applied applied (unconstrained_of_pushed roundTrips pushes free)

end Constraints

/-! ## What is delivered -/

section Deliveries
variable {φ σ G : Type} {D : Deployment φ σ G}

/-- Authentication and authorization let the request through, where they are configured, and what
the handler sees of it is what the policy left. -/
structure Passes (D : Deployment φ σ G) (t : Ticket) : Prop where
  authenticated : ∀ cfg, D.auth = some cfg → ∃ context,
    handle cfg t.arrival.inbound = .passed context ∧ t.principal = some context.principal
  authorized : ∀ cfg, D.authz = some cfg → ∃ d, t.arrival.verdict t.principal = .ok d ∧
    d.allowed = true ∧ t.decision.isSome = true ∧
    admitted D.cql2 cfg t.arrival.info d.constraints = .ok (t.info, t.constraints)
  unknown : D.auth = none → t.principal = none

/-- Every gate that is configured let the request through. The limiter did so when the request
arrived, on the bucket that its key had then. -/
structure Admits (D : Deployment φ σ G) (start : σ) (events : List (Event φ)) (t : Ticket) : Prop
    extends Passes D t where
  limited : ∃ before fault call rest, events = before ++ .arrive fault call t.arrival :: rest ∧
    (D.charge (D.run start before) call t.arrival t.principal).2 = (t.limits, .ok ())

/-- `HasConstraints` is false of the decision on the request. -/
def Free (D : Deployment φ σ G) (t : Ticket) : Prop :=
  D.authz.isSome = true → ∀ d, t.arrival.verdict t.principal = .ok d → hasConstraints d = false

theorem Passes.of_arrival {a : Arrival} {principal : Option Principal} {t : Ticket}
    (authenticated : D.authenticate a = .ok principal)
    (authorized : D.authorize a principal = .ok t) (limits : Option RateLimit.Info) :
    t.arrival = a ∧ t.principal = principal ∧ Passes D { t with limits } := by
  have known : ∀ cfg, D.auth = some cfg → ∃ context,
      handle cfg a.inbound = .passed context ∧ principal = some context.principal := by
    intro cfg configured
    simp only [Deployment.authenticate, configured] at authenticated
    cases handled : handle cfg a.inbound with
    | refused reply | aborted => simp [handled] at authenticated
    | passed context =>
      simp only [handled, Except.ok.injEq] at authenticated
      exact ⟨context, rfl, authenticated.symm⟩
  have unknown : D.auth = none → principal = none := by
    intro unconfigured
    simp only [Deployment.authenticate, unconfigured, Except.ok.injEq] at authenticated
    exact authenticated.symm
  unfold Deployment.authorize at authorized
  cases gate : D.authz with
  | none =>
    simp only [gate, Except.ok.injEq] at authorized
    subst authorized
    exact ⟨rfl, rfl, known, by simp [gate], unknown⟩
  | some cfg =>
    simp only [gate] at authorized
    split at authorized
    · cases authorized
    · split at authorized
      · cases authorized
      · rename_i d verdict
        split at authorized
        · cases authorized
        · rename_i allowed
          split at authorized
          · cases authorized
          · rename_i info constraints left
            cases authorized
            refine ⟨rfl, rfl, known, ?_, unknown⟩
            intro other same
            cases gate.symm.trans same
            exact ⟨d, verdict, by simpa using allowed, rfl, left⟩

/-- A request that the cache serves was under no constraint when the decision was made. -/
theorem Passes.free_of_cacheable (roundTrips : D.cql2.RoundTrips) {t : Ticket}
    (passes : Passes D t) (cacheable : t.request.cacheable = true) : Free D t := by
  intro gated d verdict
  obtain ⟨cfg, configured⟩ := Option.isSome_iff_exists.mp gated
  obtain ⟨issued, issues, -, decided, left⟩ := passes.authorized cfg configured
  obtain rfl : issued = d := Except.ok.inj (issues.symm.trans verdict)
  obtain ⟨seen, sees⟩ := Option.isSome_iff_exists.mp decided
  have unconstrained : hasConstraints seen = false := by
    simp only [ResponseCache.Request.cacheable, Ticket.request, sees, Bool.and_eq_true] at cacheable
    simpa using cacheable.2
  have same : t.constraints = seen.constraints := by simp [Ticket.constraints, sees]
  rw [same] at left
  cases before : issued.constraints with
  | none => simp [hasConstraints, before]
  | some c =>
    rw [before] at left
    cases after : seen.constraints with
    | none =>
      -- The middleware never drops the constraints.
      rw [after] at left
      unfold admitted at left
      cases shape : t.arrival.info with
      | none => simp [shape] at left
      | some i =>
        simp only [shape] at left
        cases searches : i.searchReq with
        | none => simp [searches] at left
        | some sr => simp [searches, map_eq_ok] at left
    | some final =>
      rw [after] at left
      have free := unconstrained_of_admitted roundTrips left
        (unconstrained_of_hasConstraints after unconstrained)
      exact hasConstraints_eq_false before free

section Steps

/-- How an arrival can end. -/
inductive Arrived (D : Deployment φ σ G) (w : World σ) (fault : φ) (call : StoreCall) (a : Arrival) :
    World σ × Option Reply → Prop
  | turnedAway (buckets : Bytes → Bucket) (reply : Reply)
      (kept_back : ∀ status header payload, reply.answer ≠ some (.forwarded status header payload)) :
      Arrived D w fault call a ({ w with buckets }, some reply)
  | entered (buckets : Bytes → Bucket) (t : Ticket) (arrival : t.arrival = a)
      (passes : Passes D t) (charged : (D.charge w call a t.principal).2 = (t.limits, .ok ())) :
      Arrived D w fault call a (D.enter { w with buckets } fault t)

theorem charge_cases (D : Deployment φ σ G) (w : World σ) (call : StoreCall) (a : Arrival)
    (principal : Option Principal) :
    ∃ buckets, (D.charge w call a principal).1 = { w with buckets } := by
  unfold Deployment.charge
  cases D.rateLimit with
  | none => exact ⟨w.buckets, rfl⟩
  | some limiter => exact ⟨_, rfl⟩

theorem authenticate_error {a : Arrival} {answer : Option Served}
    (refused : D.authenticate a = .error answer) (status : ℕ) (header : Header) (payload : Payload) :
    answer ≠ some (.forwarded status header payload) := by
  unfold Deployment.authenticate at refused
  split at refused
  · cases refused
  · split at refused <;> cases refused <;> simp

theorem arrive_cases (w : World σ) (fault : φ) (call : StoreCall) (a : Arrival) :
    Arrived D w fault call a (D.arrive w fault call a) := by
  unfold Deployment.arrive
  cases authenticated : D.authenticate a with
  | error answer => exact .turnedAway w.buckets { answer } (authenticate_error authenticated)
  | ok principal =>
    obtain ⟨buckets, charged⟩ := charge_cases D w call a principal
    dsimp only
    cases outcome : D.charge w call a principal with
    | mk w' verdict =>
      rw [outcome] at charged
      obtain rfl : w' = { w with buckets } := charged
      obtain ⟨limits, reply | _⟩ := verdict
      · exact .turnedAway buckets { limits, answer := some (.refused reply) } nofun
      · cases authorized : D.authorize a principal with
        | error reply => exact .turnedAway buckets { limits, answer := some (.refused reply) } nofun
        | ok t =>
          obtain ⟨arrival, known, passes⟩ := Passes.of_arrival authenticated authorized limits
          refine .entered buckets { t with limits } arrival passes ?_
          rw [known, outcome]

variable {start : σ} {events : List (Event φ)}

theorem Admits.later {t : Ticket} (admits : Admits D start events t) (event : Event φ) :
    Admits D start (events ++ [event]) t := by
  obtain ⟨before, fault, call, rest, split, charged⟩ := admits.limited
  exact ⟨admits.toPasses, before, fault, call, rest ++ [event], by simp [split], charged⟩

/-- Whoever is in the handler or got its answer was let through, and the store shows only what the
handler answered. -/
structure Sound (D : Deployment φ σ G) (start : σ) (events : List (Event φ)) (w : World σ) : Prop where
  running : ∀ t ∈ w.running, Admits D start events t
  completed : ∀ done ∈ w.completed, Admits D start events done.1
  sourced : ∀ M, D.cache = some M →
    Sourced M (w.completed.map fun done => ⟨done.1.request, done.2.1, done.2.2⟩) w.store

theorem Sound.later {w : World σ} (sound : Sound D start events w) (event : Event φ)
    (buckets : Bytes → Bucket) : Sound D start (events ++ [event]) { w with buckets } :=
  ⟨fun t member => (sound.running t member).later event,
    fun done member => (sound.completed done member).later event, sound.sourced⟩

theorem Sound.lookup {w : World σ} (sound : Sound D start events w) (fault : φ) (t : Ticket)
    (M : Cache φ σ) (cached : D.cache = some M) :
    Sourced M (w.completed.map fun done => ⟨done.1.request, done.2.1, done.2.2⟩)
      (D.lookup fault w.store t).1 := by
  simp only [Deployment.lookup, cached]
  exact (sound.sourced M cached).lookup fault _ _

theorem Sound.enter {w : World σ} (sound : Sound D start events w) (fault : φ) {t : Ticket}
    (admits : Admits D start events t) : Sound D start events (D.enter w fault t).1 := by
  unfold Deployment.enter
  simp only
  split
  · exact ⟨sound.running, sound.completed, sound.lookup fault t⟩
  · refine ⟨?_, sound.completed, sound.lookup fault t⟩
    intro other member
    rcases List.mem_append.mp member with before | new
    · exact sound.running other before
    · rw [List.mem_singleton.mp new]
      exact admits

theorem Sound.finish {w : World σ} (sound : Sound D start events w) (fault : φ) (now : Int)
    (index : ℕ) (response : Captured) :
    Sound D start events (D.finish w fault now index response).1 := by
  unfold Deployment.finish
  cases entered : w.running[index]? with
  | none => exact sound
  | some t =>
    refine ⟨?_, ?_, ?_⟩
    · intro other member
      exact sound.running other (List.mem_of_mem_eraseIdx member)
    · intro done member
      rcases List.mem_append.mp member with before | new
      · exact sound.completed done before
      · rw [List.mem_singleton.mp new]
        exact sound.running t (List.mem_of_getElem? entered)
    · intro M cached
      simp only [Deployment.keep, cached, List.map_append]
      exact (sound.sourced M cached).keep fault _

theorem Sound.step (sound : Sound D start events (D.run start events)) (event : Event φ) :
    Sound D start (events ++ [event]) (D.step (D.run start events) event).1 := by
  cases event with
  | arrive fault call a =>
    have arrived := @arrive_cases _ _ _ D (D.run start events) fault call a
    change Sound D start _ (D.arrive _ fault call a).1
    generalize D.arrive _ fault call a = outcome at arrived ⊢
    cases arrived with
    | turnedAway buckets reply kept_back => exact sound.later _ buckets
    | entered buckets t arrival passes charged =>
      subst arrival
      exact (sound.later _ buckets).enter fault ⟨passes, events, fault, call, [], rfl, charged⟩
  | finish fault now index response => exact (sound.later _ _).finish fault now index response

theorem sound_run (fresh : ∀ M, D.cache = some M → ∀ key, M.store.shows start key = none)
    (events : List (Event φ)) : Sound D start events (D.run start events) := by
  induction events using List.reverseRecOn with
  | nil => exact ⟨by simp [Deployment.run], by simp [Deployment.run],
      fun M cached => sourced_fresh (fresh M cached)⟩
  | append_singleton events event ih =>
    have moved : D.run start (events ++ [event]) = (D.step (D.run start events) event).1 := by
      rw [Deployment.run, Transcript.final_append]
      rfl
    rw [moved]
    exact ih.step event

end Steps

section Keys

/-- No principal that a provider returns has a NUL in its ID. -/
def PlainIDs (D : Deployment φ σ G) : Prop :=
  ∀ cfg r p, D.auth = some cfg → handle cfg r = .passed (.provided p) → 0 ∉ p.id

theorem nul_notMem_principalClass {p : Principal} (plain : 0 ∉ p.id) :
    0 ∉ principalClass (some p) := by
  simp only [principalClass]
  split
  · decide
  · split
    · decide
    · intro member
      rcases List.mem_append.mp member with marker | named
      · exact absurd marker (by decide)
      · exact plain named

theorem Passes.nul_notMem (plain : PlainIDs D) {t : Ticket} (passes : Passes D t) :
    0 ∉ principalClass t.principal := by
  cases gate : D.auth with
  | none =>
    rw [passes.unknown gate]
    decide
  | some cfg =>
    obtain ⟨context, passed, known⟩ := passes.authenticated cfg gate
    rw [known]
    cases context with
    | anonymous => decide
    | provided p => exact nul_notMem_principalClass (plain cfg _ p gate passed)

/-- Keys are shared only by principals of one class. -/
theorem principalClass_eq_of_key {hash : Bytes → String} (injective : Function.Injective hash)
    (plain : PlainIDs D) {q t : Ticket} (passes_q : Passes D q) (passes_t : Passes D t)
    (keys : cacheKey hash q.request = cacheKey hash t.request) :
    principalClass q.principal = principalClass t.principal := by
  have texts : keyText q.request = keyText t.request := injective keys
  simp only [keyText, List.append_assoc, List.cons_append] at texts
  exact (CacheKeys.split_at_nul (passes_q.nul_notMem plain) (passes_t.nul_notMem plain) texts).1

end Keys

/-- The response is the handler's, to the request itself. -/
def Own (w : World σ) (event : Event φ) (t : Ticket) (response : Response) : Prop :=
  ∃ fault now index inner, event = .finish fault now index inner ∧ w.running[index]? = some t ∧
    SameReply response inner.toResponse

/-- The response is the handler's, to an earlier request with the same key by a principal of the
same class. `HasConstraints` is false of the decisions on both, and the response may still be
kept. -/
def Replayed (D : Deployment φ σ G) (start : σ) (events : List (Event φ)) (event : Event φ)
    (t : Ticket) (response : Response) : Prop :=
  (∃ fault call, event = .arrive fault call t.arrival) ∧ Free D t ∧
    ∃ M q time inner, D.cache = some M ∧ (q, time, inner) ∈ (D.run start events).completed ∧
      Admits D start events q ∧ Free D q ∧
      principalClass q.principal = principalClass t.principal ∧
      cacheKey M.hash q.request = cacheKey M.hash t.request ∧
      noStore inner.header = false ∧ inner.status ∈ M.cfg.statuses ∧
      (∃ type, q.request.requestType = some type ∧ 0 < lifetime M.cfg type inner.status ∧
        t.arrival.now ≤ time + lifetime M.cfg type inner.status) ∧
      SameReply response inner.toResponse

variable {start : σ} {events : List (Event φ)}

theorem Sound.replayed (roundTrips : D.cql2.RoundTrips) (plain : PlainIDs D)
    (injective : ∀ M, D.cache = some M → Function.Injective M.hash)
    (sound : Sound D start events (D.run start events)) {fault : φ} {call : StoreCall} {t : Ticket}
    (passes : Passes D t) {entry : CacheEntry}
    (found : (D.lookup fault (D.run start events).store t).2 = some entry) :
    Replayed D start events (.arrive fault call t.arrival) t (writeCachedResponse entry) := by
  cases cached : D.cache with
  | none =>
    simp only [Deployment.lookup, cached] at found
    cases found
  | some M =>
    simp only [Deployment.lookup, cached] at found
    obtain ⟨cacheable, done, member, expiry, made, live⟩ := (sound.sourced M cached).hit found
    obtain ⟨⟨q, time, inner⟩, completed, rfl⟩ := List.mem_map.mp member
    obtain ⟨storable, listed, ⟨type, typed, lasting, rfl⟩, same⟩ := made.replays
    have admits := sound.completed _ completed
    refine ⟨⟨fault, call, rfl⟩, passes.free_of_cacheable roundTrips cacheable, M, q, time, inner,
      cached, completed, admits, admits.free_of_cacheable roundTrips made.1, ?_, made.2.1,
      storable, listed, ⟨type, typed, lasting, live⟩, same⟩
    exact principalClass_eq_of_key (injective M cached) plain admits.toPasses passes made.2.1

theorem miss_sameReply (D : Deployment φ σ G) (t : Ticket) (inner : Captured) :
    SameReply (D.miss t inner) inner.toResponse := by
  unfold Deployment.miss
  split
  · exact sameReply_forwardMiss t.request inner
  · exact ⟨rfl, rfl, rfl⟩

end Deliveries

section Samples

/-- Tokens are those of one user. -/
def aliceTokens : BearerProvider where
  parse := fun _ => .ok [("sub", .str "alice")]

def twoPerSecond : RateLimiter where
  quota := { requests := 2, window := 1000000000, burst := 3 }

def guarded : Deployment Unit CacheStores.MemoryStore Geofence.Box where
  lib := Geofence.boxLibrary
  cql2 := SearchEnforcement.sampleCql2
  unmarshal _ := none
  auth := some { allowAnonymous := true, providers := [.bearer aliceTokens] }
  rateLimit := some twoPerSecond
  authz := some { allowAnonymous := true }
  cache := some bodyCache

def byAlice (now : Int) : Arrival where
  now
  url := ⟨bytes "/collections", []⟩
  inbound := { header := [("Authorization", "Bearer t")] }
  clientIP := bytes "10.0.0.1"
  info := some { requestType := .collections }
  verdict := fun _ => .ok { allowed := true }

def startsEmpty : CacheStores.MemoryStore := []

theorem guarded_plainIDs : PlainIDs guarded := by
  intro cfg r p configured passed
  cases configured
  simp only [handle, walk, Provider.authenticate, BearerProvider.authenticate, aliceTokens] at passed
  by_cases bearer : hasScheme "Bearer " r = true
  · by_cases empty : credentials "Bearer " r = ""
    · simp [bearer, empty, Provider.claimsCredential, BearerProvider.claimsCredential] at passed
    · simp only [bearer, empty] at passed
      cases passed
      change 0 ∉ (defaultClaimsFunc [("sub", .str "alice")]).id
      decide
  · simp [bearer] at passed

/-- One request enters the handler and is answered. -/
def firstVisit : List (Event Unit) :=
  [.arrive () .answered (byAlice 0), .finish () 1 0 (ResponseCache.ok (bytes "[]"))]

def secondVisit : Event Unit := .arrive () .answered (byAlice 2)

def afterFirst : World CacheStores.MemoryStore :=
  guarded.run startsEmpty firstVisit

def replyTo (event : Event Unit) : Option Reply :=
  (guarded.step afterFirst event).2

def Reply.forwards (status : ℕ) (header : Header) (body : Bytes) (reply : Reply) : Bool :=
  match reply.answer with
  | some (.forwarded s h (.raw b)) => s = status && h = header && b = body
  | _ => false

theorem Reply.answer_of_forwards {status : ℕ} {header : Header} {body : Bytes} {reply : Reply}
    (forwards : reply.forwards status header body = true) :
    reply.answer = some (.forwarded status header (.raw body)) := by
  unfold Reply.forwards at forwards
  split at forwards
  · rename_i s h b answered
    simp only [Bool.and_eq_true, decide_eq_true_eq] at forwards
    rw [answered, forwards.1.1, forwards.1.2, forwards.2]
  · cases forwards

end Samples

end Pipeline
