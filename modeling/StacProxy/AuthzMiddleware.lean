import StacProxy.PolicyFilter

/-!
# The authorization middleware

What `NewHTTPMiddleware` does with a decision: it constrains the parsed search request,
injects the policy's filter, hands the request on, and filters or refuses the response.
The inner handler is a function from the request's STAC shape to its response. A filtered
response stands for its decoded document, since it is marshalled from that.
-/

namespace AuthzMiddleware

open JsonValue SearchRequest Cql2Eval Geofence PolicyFilter

inductive RequestType where
  | unknown
  | landing
  | conformance
  | collections
  | collection
  | items
  | item
  | search
  | queryables
  | collectionQueryables
  | asset
  deriving DecidableEq, Repr

/-- `STACInfo`: the search request is nil for routes that are no searches. -/
structure Info where
  collection : String := ""
  itemID : String := ""
  requestType : RequestType
  searchReq : Option Request := none

structure AuthzDecision where
  allowed : Bool
  reasons : List String := []
  constraints : Option AuthzConstraints := none

structure HTTPConfig where
  allowAnonymous : Bool := false
  cql2InjectionEnabled : Bool := false
  filterExtensionCheck : Option (Info → Bool) := none
  spatialFilterCheck : Option (Info → Bool) := none

structure Response where
  status : Nat
  header : List (String × String) := []
  body : Bytes

def Response.succeeded (r : Response) : Bool := 200 ≤ r.status && r.status < 300

inductive Payload where
  | raw (body : Bytes)
  | document (fc : Members)

/-- The error response of `WriteJSONError`. -/
structure ErrorReply where
  status : Nat
  code : String
  description : String
  deriving DecidableEq, Repr

/-- What the client gets: an error the middleware writes, or the inner response. -/
inductive Served where
  | refused (reply : ErrorReply)
  | forwarded (status : Nat) (header : List (String × String)) (payload : Payload)

section Constraints

def clampLimit (maxResults limit : Int) : Int :=
  if 0 < maxResults ∧ (limit ≤ 0 ∨ maxResults < limit) then maxResults else limit

/-- The elements of the second list that are in the first, in its order. -/
def intersectStrings (a b : List String) : List String := b.filter (· ∈ a)

def removeStrings (a b : List String) : List String := a.filter (· ∉ b)

def nonempty (collections : List String) : Option (List String) :=
  if collections = [] then none else some collections

def restrictAllowed (allowed requested : List String) : Option (List String) :=
  if allowed = [] then some requested
  else if requested = [] then some allowed
  else nonempty (intersectStrings allowed requested)

def restrictDenied (denied requested : List String) : Option (List String) :=
  if denied = [] ∨ requested = [] then some requested
  else nonempty (removeStrings requested denied)

/-- A geofence with an allowed area always filters, unless it was pushed down. -/
def defaultFilterMode (pushedDown : Bool) (g : Constraint) : Constraint :=
  if (given g.allowedArea).isSome && !g.filterMode && !pushedDown then { g with filterMode := true }
  else g

/-- Fails if no requested collection is permitted. -/
def applyConstraints (sr : Request) (c : AuthzConstraints) :
    Option (Request × AuthzConstraints) := do
  let allowed ← restrictAllowed c.allowedCollections sr.collections
  let collections ← restrictDenied c.deniedCollections allowed
  pure ({ sr with limit := clampLimit c.maxResults sr.limit, collections := collections },
    { c with geofence := c.geofence.map (defaultFilterMode c.geofencePushedDown) })

end Constraints

section Flow
variable {G : Type} (lib : Library G) (cql2 : Cql2Library) (unmarshal : Bytes → Option Json)

def HTTPConfig.injects (cfg : HTTPConfig) (info : Info) : Bool :=
  cfg.cql2InjectionEnabled && cfg.filterExtensionCheck.all (· info)

def HTTPConfig.spatialOK (cfg : HTTPConfig) (info : Info) : Bool :=
  cfg.spatialFilterCheck.all (· info)

/-- The mutations before the upstream is asked. The text of the CQL2 parser's own error is
left out of the description. -/
def prepare (cfg : HTTPConfig) (info : Info) (sr : Request) (c : AuthzConstraints) :
    Except ErrorReply (Info × AuthzConstraints) :=
  match applyConstraints sr c with
  | none => .error ⟨403, "Forbidden", "no collections in request are permitted by policy"⟩
  | some (sr, c) =>
    let info := { info with searchReq := some sr }
    if cfg.injects info then
      match injectCQL2Filter cql2 sr c (cfg.spatialOK info) with
      | .error .userFilter =>
        .error ⟨400, "InvalidParameterValue", "invalid filter: cql2: parse user filter"⟩
      | .error (.policy _) => .error ⟨500, "InternalError", "cql2 injection failed"⟩
      | .ok (sr, c) => .ok ({ info with searchReq := some sr }, c)
    else .ok (info, c)

/-- The response body after the geofence, or nothing if that cannot be enforced. -/
def postFilter (c : AuthzConstraints) (r : Response) : Option Payload :=
  match c.geofence with
  | none => some (.raw r.body)
  | some g =>
    if g.filterMode && !c.geofencePushedDown && r.succeeded then
      match filterByGeofence lib unmarshal r.body g with
      | .filtered fc => some (.document fc)
      | .malformed => none
      | .notApplicable => some (.raw r.body)
    else some (.raw r.body)

def Payload.isEmpty : Payload → Bool
  | .raw body => body.isEmpty
  | .document _ => false

def Payload.decoded : Payload → Option Members
  | .raw body => decodeMap unmarshal body
  | .document fc => some fc

/-- The predicate a single record is held against. -/
def combinedPredicate (c : AuthzConstraints) : Except PolicyError (Option Node) := do
  let (updated, _) ← maybePushDownGeofence cql2 c true
  let policyExpr ← parsePolicyCQL2 cql2 updated
  let requiredExpr ← requiredFiltersToCQL2 cql2 updated.requiredFilters
  pure (andNonNil [policyExpr, requiredExpr])

/-- Only the match is modelled: the caller drops the error. -/
def validateSingleRecord (body : Payload) (c : AuthzConstraints) : Bool :=
  if body.isEmpty then true
  else match combinedPredicate cql2 c with
    | .error _ | .ok none => true
    | .ok (some expr) => match body.decoded unmarshal with
      | none => true
      | some item => match evalCQL2 lib item expr with
        | .error _ => false
        | .ok matched => matched

def respond (constraints : Option AuthzConstraints) (info : Option Info) (r : Response) :
    Served :=
  match constraints with
  | none => .forwarded r.status r.header (.raw r.body)
  | some c => match postFilter lib unmarshal c r with
    | none => .refused ⟨502, "BadGateway",
        "upstream returned malformed FeatureCollection; geofence cannot enforce"⟩
    | some payload =>
      if (info.map Info.requestType = some .item) && r.succeeded &&
          !validateSingleRecord lib cql2 unmarshal payload c then
        .refused ⟨404, "NotFound", "item not found"⟩
      else .forwarded r.status r.header payload

/-- The request as the inner handler sees it, with the constraints from there on. -/
def admitted (cfg : HTTPConfig) (info : Option Info) (constraints : Option AuthzConstraints) :
    Except ErrorReply (Option Info × Option AuthzConstraints) :=
  match info, constraints with
  | some i, some c => match i.searchReq with
    | some sr => (prepare cql2 cfg i sr c).map fun (i, c) => (some i, some c)
    | none => .ok (info, constraints)
  | _, _ => .ok (info, constraints)

/-- One request through the middleware. `decision` is the enforcer's answer. -/
def serve (cfg : HTTPConfig) (authenticated : Bool) (decision : Except Unit AuthzDecision)
    (info : Option Info) (next : Option Info → Response) : Served :=
  if !authenticated && !cfg.allowAnonymous then
    .refused ⟨401, "Unauthorized", "authentication required"⟩
  else match decision with
    | .error _ => .refused ⟨500, "InternalError", "authorization check failed"⟩
    | .ok decision =>
      if !decision.allowed then
        .refused ⟨403, "Forbidden", decision.reasons.head?.getD "access denied"⟩
      else match admitted cql2 cfg info decision.constraints with
        | .error reply => .refused reply
        | .ok (info, constraints) => respond lib cql2 unmarshal constraints info (next info)

end Flow

section Steps
variable {G : Type} {lib : Library G} {cql2 : Cql2Library} {unmarshal : Bytes → Option Json}
variable {cfg : HTTPConfig} {info : Info} {sr : Request} {c : AuthzConstraints}
variable {status : Nat} {header : List (String × String)} {payload : Payload}

theorem applyConstraints_eq_some {constrained : Request} {after : AuthzConstraints}
    (ok : applyConstraints sr c = some (constrained, after)) :
    constrained.filter = sr.filter ∧ constrained.filterLang = sr.filterLang ∧
      after = { c with geofence := c.geofence.map (defaultFilterMode c.geofencePushedDown) } := by
  simp only [applyConstraints, bind, Option.bind_eq_some_iff, pure, Option.some.injEq,
    Prod.mk.injEq] at ok
  obtain ⟨_, -, _, -, rfl, rfl⟩ := ok
  exact ⟨rfl, rfl, rfl⟩

/-- A search that is let through was constrained, and injected if the gate is open. -/
theorem prepare_eq_ok {sentInfo : Info} {after : AuthzConstraints}
    (ok : prepare cql2 cfg info sr c = .ok (sentInfo, after)) :
    ∃ constrained limited, applyConstraints sr c = some (constrained, limited) ∧
      ((cfg.injects { info with searchReq := some constrained } = false ∧
          sentInfo = { info with searchReq := some constrained } ∧ after = limited) ∨
        (cfg.injects { info with searchReq := some constrained } = true ∧
          ∃ sent, injectCQL2Filter cql2 constrained limited
              (cfg.spatialOK { info with searchReq := some constrained }) = .ok (sent, after) ∧
            sentInfo = { info with searchReq := some sent })) := by
  unfold prepare at ok
  split at ok
  · cases ok
  · rename_i constrained limited applied
    refine ⟨constrained, limited, applied, ?_⟩
    simp only at ok
    split at ok
    · rename_i opened
      split at ok
      · cases ok
      · cases ok
      · rename_i sent updated injected
        cases ok
        exact .inr ⟨opened, sent, injected, rfl⟩
    · rename_i closed
      cases ok
      exact .inl ⟨by simpa using closed, rfl, rfl⟩

theorem respond_eq_forwarded {shape : Option Info} {r : Response}
    (ok : respond lib cql2 unmarshal (some c) shape r = .forwarded status header payload) :
    status = r.status ∧ header = r.header ∧ postFilter lib unmarshal c r = some payload ∧
      (shape.map Info.requestType = some .item → r.succeeded = true →
        validateSingleRecord lib cql2 unmarshal payload c = true) := by
  simp only [respond] at ok
  split at ok
  · cases ok
  · split at ok
    · cases ok
    · rename_i kept unblocked
      cases ok
      refine ⟨rfl, rfl, kept, fun single succeeded => ?_⟩
      simpa [single, succeeded] using unblocked

/-- A constrained search that reaches the client went through every step. -/
theorem serve_search_eq_forwarded {authenticated : Bool} {decision : AuthzDecision}
    {next : Option Info → Response} (constrained : decision.constraints = some c)
    (searches : info.searchReq = some sr)
    (ok : serve lib cql2 unmarshal cfg authenticated (.ok decision) (some info) next =
      .forwarded status header payload) :
    ∃ sentInfo after, prepare cql2 cfg info sr c = .ok (sentInfo, after) ∧
      status = (next (some sentInfo)).status ∧
      postFilter lib unmarshal after (next (some sentInfo)) = some payload := by
  simp only [serve, admitted, constrained, searches] at ok
  split at ok
  · cases ok
  · split at ok
    · cases ok
    · cases prepared : prepare cql2 cfg info sr c with
      | error reply =>
        simp only [prepared, Except.map] at ok
        cases ok
      | ok result =>
        simp only [prepared, Except.map] at ok
        obtain ⟨same_status, -, filtered, -⟩ := respond_eq_forwarded ok
        exact ⟨result.1, result.2, rfl, same_status, filtered⟩

end Steps

end AuthzMiddleware
