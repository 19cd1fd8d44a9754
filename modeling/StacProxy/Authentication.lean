import Mathlib.Data.List.Basic
import StacProxy.OutboundRequest
import StacProxy.RequestPath

/-!
# Authentication

The built-in providers and the middleware that walks them. A provider says whether a request
carries its kind of credential, and authenticates it. Verifying tokens, certificates, password
hashes and digests is left to parameters, and so are custom mappings. Fields of a principal
that nothing here reads or passes on are left out.
-/

namespace Authentication

open JsonValue Cql2Eval AuthzMiddleware OutboundRequest PercentCoding RequestPath

section Requests

structure Certificate where
  commonName : String := ""
  organization : List String := []
  organizationalUnit : List String := []
  emailAddresses : List String := []
  dnsNames : List String := []
  ipAddresses : List String := []
  uris : List String := []
  /-- Subject, issuer and serial number as texts. -/
  subjectDN : String
  issuerDN : String
  serialNumber : String
  notBefore : String
  notAfter : String

/-- What providers look at. Without TLS there are no certificates. -/
structure InboundRequest where
  header : Header := []
  rawQuery : Bytes := []
  peerCertificates : List Certificate := []

structure Principal where
  id : Bytes := []
  type : String
  roles : List String := []
  groups : List String := []
  attributes : Std.ExtTreeMap String String := ∅
  collections : List String := []
  token : String := ""

def Principal.isAnonymous (p : Principal) : Bool := p.type == "anonymous"

def anonymousPrincipal : Principal where
  id := bytes "anonymous"
  type := "anonymous"

/-- What `Authenticate` does: return (nil, nil), a principal or an error, or panic. -/
inductive Outcome where
  | notApplicable
  | authenticated (p : Principal)
  | failed (message : String)
  | panicked

/-- A custom mapping may fail, or return nil. -/
abbrev Mapping (α : Type) := α → Except String (Option Principal)

end Requests

section ApiKeys

structure APIKeyEntry where
  name : String
  roles : List String := []
  groups : List String := []
  collections : List String := []
  enabled : Bool

structure APIKeyConfig where
  header : String := ""
  queryParam : String := ""
  allowQueryParam : Bool := false
  keys : List (Bytes × APIKeyEntry)
  /-- The keyed digest of an API key. -/
  digest : Bytes → String

structure APIKeyProvider where
  header : String
  queryParam : String
  allowQueryParam : Bool
  digest : Bytes → String
  keys : Std.ExtTreeMap String APIKeyEntry

/-- The default header is used only if no place is configured. -/
def newAPIKeyProvider (cfg : APIKeyConfig) : APIKeyProvider where
  header := if cfg.header = "" ∧ cfg.queryParam = "" then "X-API-Key" else cfg.header
  queryParam := cfg.queryParam
  allowQueryParam := cfg.allowQueryParam
  digest := cfg.digest
  keys := (cfg.keys.filter (·.2.enabled)).foldl
    (fun keys entry => keys.insert (cfg.digest entry.1) entry.2) ∅

namespace APIKeyProvider
variable (p : APIKeyProvider) (r : InboundRequest)

def headerKey : Bytes := if p.header ≠ "" then bytes (Header.get r.header p.header) else []

def queryKey : Bytes :=
  if p.allowQueryParam ∧ p.queryParam ≠ "" then queryGet (query r.rawQuery) (bytes p.queryParam)
  else []

/-- The key the request presents: the header's, else the query parameter's. -/
def presentedKey : Bytes := if p.headerKey r ≠ [] then p.headerKey r else p.queryKey r

def claimsCredential : Bool := p.headerKey r ≠ [] || p.queryKey r ≠ []

def authenticate : Outcome :=
  if p.presentedKey r = [] then .notApplicable
  else match p.keys[p.digest (p.presentedKey r)]? with
    | none => .failed "invalid API key"
    | some entry =>
      if entry.enabled then .authenticated
        { id := bytes ("apikey:" ++ entry.name)
          type := "service"
          roles := entry.roles
          groups := entry.groups
          collections := entry.collections
          attributes := ((∅ : Std.ExtTreeMap String String).insert "auth_method" "api_key").insert
            "key_name" entry.name }
      else .failed "invalid API key"

end APIKeyProvider

end ApiKeys

section Tokens

def authorization (r : InboundRequest) : String := Header.get r.header "Authorization"

def hasScheme (scheme : String) (r : InboundRequest) : Bool :=
  scheme.toList.isPrefixOf (authorization r).toList

/-- The Authorization header without the scheme. -/
def credentials (scheme : String) (r : InboundRequest) : String :=
  String.ofList ((authorization r).toList.drop scheme.length)

def claimString (claims : Members) (name : String) : String :=
  (member claims name).asString?.getD ""

/-- The strings of a claim that is a list. -/
def claimStrings (value : Json) : List String :=
  (value.asArray?.getD []).filterMap Json.asString?

structure BearerProvider where
  /-- `jwt.Parse` with the provider's keys and options. -/
  parse : String → Except String Members
  claimsFunc : Option (Mapping Members) := none

def defaultClaimsFunc (claims : Members) : Principal where
  type := "user"
  id := bytes (claimString claims "sub")
  roles := claimStrings (member claims "roles")
  groups := claimStrings (member claims "groups")

namespace BearerProvider
variable (p : BearerProvider) (r : InboundRequest)

def claimsCredential : Bool := hasScheme "Bearer " r

/-- The principal's token is set without a test for nil. -/
def authenticate : Outcome :=
  if !hasScheme "Bearer " r then .notApplicable
  else
    let token := credentials "Bearer " r
    if token = "" then .failed "empty bearer token"
    else match p.parse token with
      | .error reason => .failed ("invalid token: " ++ reason)
      | .ok claims =>
        match (p.claimsFunc.getD fun claims => .ok (some (defaultClaimsFunc claims))) claims with
        | .error reason => .failed ("failed to extract principal: " ++ reason)
        | .ok none => .panicked
        | .ok (some principal) => .authenticated { principal with token }

end BearerProvider

structure OIDCProvider where
  /-- The verifier, with the claims of the token it accepts. -/
  verify : String → Except String Members
  claimsFunc : Option (Mapping Members) := none
  attributeAllow : List String := ["email", "preferred_username", "name", "groups"]

def extractRoles (claims : Members) : List String :=
  claimStrings (member claims "roles") ++
    claimStrings (member (((member claims "realm_access").asObject?).getD []) "roles") ++
    claimStrings (member claims "groups")

namespace OIDCProvider
variable (p : OIDCProvider) (r : InboundRequest)

def claimsCredential : Bool := hasScheme "Bearer " r

/-- The principal made from the claims that are allowed as attributes. -/
def defaultPrincipal (claims : Members) : Principal where
  type := "user"
  id := bytes (claimString claims "sub")
  roles := extractRoles claims
  attributes := p.attributeAllow.foldl (fun attributes name =>
    match (member claims name).asString? with
    | some value => attributes.insert name value
    | none => attributes) ∅

/-- A custom mapping that returns nil leaves the principal made from the claims. -/
def authenticate : Outcome :=
  if !hasScheme "Bearer " r then .notApplicable
  else
    let token := credentials "Bearer " r
    if token = "" then .failed "empty bearer token"
    else match p.verify token with
      | .error reason => .failed ("token validation failed: " ++ reason)
      | .ok claims => match (p.claimsFunc.getD fun _ => .ok none) claims with
        | .error reason => .failed ("claims mapping failed: " ++ reason)
        | .ok custom =>
          let principal := custom.getD (p.defaultPrincipal claims)
          .authenticated { principal with
            attributes := principal.attributes.insert "auth_method" "oidc" }

end OIDCProvider

structure HashedUser where
  passwordHash : Bytes
  roles : List String := []
  /-- The attributes that are strings. -/
  attributes : Std.ExtTreeMap String String := ∅

structure BasicAuthProvider where
  users : Bytes → Option HashedUser
  /-- `base64.StdEncoding.DecodeString`. -/
  decodeBase64 : String → Option Bytes
  /-- `bcrypt.CompareHashAndPassword`. -/
  matchesHash : Bytes → Bytes → Bool

namespace BasicAuthProvider
variable (p : BasicAuthProvider) (r : InboundRequest)

def claimsCredential : Bool := hasScheme "Basic " r

/-- User name and password, separated by the first colon. -/
def parseBasicAuth (encoded : String) : Option (Bytes × Bytes) :=
  (p.decodeBase64 encoded).bind fun text => if 58 ∈ text then some (cut 58 text) else none

def authenticate : Outcome :=
  if !hasScheme "Basic " r then .notApplicable
  else match p.parseBasicAuth (credentials "Basic " r) with
    | none => .failed "invalid basic auth format"
    | some (username, password) => match p.users username with
      | none => .failed "invalid credentials"
      | some user =>
        if p.matchesHash user.passwordHash password then .authenticated
          { id := username, type := "user", roles := user.roles, attributes := user.attributes }
        else .failed "invalid credentials"

end BasicAuthProvider

end Tokens

section Certificates

structure MTLSProvider where
  /-- Verification against the trusted authorities. -/
  verifies : Certificate → Bool
  subjectMapper : Option (Mapping Certificate) := none

def defaultMapSubject (cert : Certificate) : Principal where
  type := "certificate"
  id := bytes (if cert.commonName ≠ "" then cert.commonName
    else (cert.emailAddresses ++ cert.dnsNames).head?.getD "")
  roles := cert.organization
  attributes :=
    let fixed := [("subject_dn", cert.subjectDN), ("issuer_dn", cert.issuerDN),
      ("serial_number", cert.serialNumber), ("not_before", cert.notBefore),
      ("not_after", cert.notAfter)]
    let email := cert.emailAddresses.head?.toList.map fun address => ("email", address)
    let joined (name : String) (values : List String) : List (String × String) :=
      if values = [] then [] else [(name, ",".intercalate values)]
    (fixed ++ email ++ joined "ou" cert.organizationalUnit ++
      joined "sans" (cert.dnsNames ++ cert.ipAddresses ++ cert.uris)).foldl
        (fun attributes entry => attributes.insert entry.1 entry.2) ∅

namespace MTLSProvider
variable (p : MTLSProvider) (r : InboundRequest)

def claimsCredential : Bool := r.peerCertificates ≠ []

def authenticate : Outcome :=
  match r.peerCertificates with
  | [] => .notApplicable
  | cert :: _ =>
    if !p.verifies cert then .failed "certificate verification failed"
    else match (p.subjectMapper.getD fun cert => .ok (some (defaultMapSubject cert))) cert with
      | .error reason => .failed reason
      | .ok none => .notApplicable
      | .ok (some principal) => .authenticated principal

end MTLSProvider

end Certificates

section Chain

inductive Provider where
  | bearer (p : BearerProvider)
  | oidc (p : OIDCProvider)
  | basic (p : BasicAuthProvider)
  | apiKey (p : APIKeyProvider)
  | mtls (p : MTLSProvider)

def Provider.claimsCredential (r : InboundRequest) : Provider → Bool
  | bearer _ => BearerProvider.claimsCredential r
  | oidc _ => OIDCProvider.claimsCredential r
  | basic _ => BasicAuthProvider.claimsCredential r
  | apiKey p => p.claimsCredential r
  | mtls _ => MTLSProvider.claimsCredential r

def Provider.authenticate (r : InboundRequest) : Provider → Outcome
  | bearer p => p.authenticate r
  | oidc p => p.authenticate r
  | basic p => p.authenticate r
  | apiKey p => p.authenticate r
  | mtls p => p.authenticate r

structure Config where
  allowAnonymous : Bool
  providers : List Provider

/-- How the walk over the providers ends. -/
inductive Walk where
  | exhausted
  | found (p : Principal)
  | rejected
  | aborted

/-- An error of a provider that claims the credential ends the walk. -/
def walk (r : InboundRequest) : List Provider → Walk
  | [] => .exhausted
  | provider :: rest => match provider.authenticate r with
    | .failed _ => if provider.claimsCredential r then .rejected else walk r rest
    | .authenticated p => .found p
    | .notApplicable => walk r rest
    | .panicked => .aborted

/-- The principal in the context of the inner handler: of a provider, or the middleware's own
anonymous one. -/
inductive Context where
  | anonymous
  | provided (p : Principal)

def Context.principal : Context → Principal
  | anonymous => anonymousPrincipal
  | provided p => p

/-- The middleware answers, hands on, or is torn down by a panic. -/
inductive Result where
  | refused (reply : ErrorReply)
  | passed (context : Context)
  | aborted

def authenticationRequired : ErrorReply := ⟨401, "Unauthorized", "authentication required"⟩

def handle (cfg : Config) (r : InboundRequest) : Result :=
  match walk r cfg.providers with
  | .rejected => .refused authenticationRequired
  | .found p => .passed (.provided p)
  | .aborted => .aborted
  | .exhausted => if cfg.allowAnonymous then .passed .anonymous else .refused authenticationRequired

end Chain

section Failures
variable {r : InboundRequest} {message : String}

theorem APIKeyProvider.claims_of_failed {p : APIKeyProvider}
    (failed : p.authenticate r = .failed message) : p.claimsCredential r = true := by
  by_contra unclaimed
  have nothing : p.presentedKey r = [] := by
    simp only [claimsCredential, Bool.or_eq_true, decide_eq_true_eq, not_or, not_not] at unclaimed
    simp [presentedKey, unclaimed]
  simp [authenticate, nothing] at failed

/-- A provider for a scheme of the Authorization header fails only on requests with it. -/
theorem hasScheme_of_failed {scheme : String} {verified : Outcome}
    (failed : (if !hasScheme scheme r then .notApplicable else verified) = .failed message) :
    hasScheme scheme r = true := by
  by_contra unclaimed
  simp only [Bool.not_eq_true] at unclaimed
  simp [unclaimed] at failed

theorem MTLSProvider.claims_of_failed {p : MTLSProvider}
    (failed : p.authenticate r = .failed message) : claimsCredential r = true := by
  by_contra unclaimed
  simp only [claimsCredential, ne_eq, decide_eq_true_eq, not_not] at unclaimed
  simp [authenticate, unclaimed] at failed

/-- No built-in provider fails on a request that it does not claim. -/
theorem Provider.claims_of_failed {provider : Provider}
    (failed : provider.authenticate r = .failed message) :
    provider.claimsCredential r = true := by
  cases provider with
  | bearer p | oidc p | basic p => exact hasScheme_of_failed failed
  | apiKey p => exact APIKeyProvider.claims_of_failed failed
  | mtls p => exact MTLSProvider.claims_of_failed failed

/-- Only a bearer provider with a custom mapping can panic. -/
theorem Provider.bearer_of_panicked {provider : Provider}
    (panicked : provider.authenticate r = .panicked) :
    ∃ p mapping, provider = .bearer p ∧ p.claimsFunc = some mapping := by
  cases provider with
  | bearer p =>
    refine ⟨p, ?_⟩
    cases custom : p.claimsFunc with
    | some mapping => exact ⟨mapping, rfl, rfl⟩
    | none =>
      simp only [authenticate, BearerProvider.authenticate, custom, Option.getD_none] at panicked
      split at panicked
      · cases panicked
      · split at panicked
        · cases panicked
        · split at panicked <;> cases panicked
  | oidc p =>
    simp only [authenticate, OIDCProvider.authenticate] at panicked
    repeat' split at panicked
    all_goals cases panicked
  | basic p =>
    simp only [authenticate, BasicAuthProvider.authenticate] at panicked
    repeat' split at panicked
    all_goals cases panicked
  | apiKey p =>
    simp only [authenticate, APIKeyProvider.authenticate] at panicked
    repeat' split at panicked
    all_goals cases panicked
  | mtls p =>
    simp only [authenticate, MTLSProvider.authenticate] at panicked
    repeat' split at panicked
    all_goals cases panicked

end Failures

section Walks
variable {r : InboundRequest} {cfg : Config}

/-- Providers that do not apply are passed over. -/
theorem walk_append {before : List Provider} (after : List Provider)
    (passed : ∀ q ∈ before, q.authenticate r = .notApplicable) :
    walk r (before ++ after) = walk r after := by
  induction before with
  | nil => rfl
  | cons q rest ih =>
    rw [List.forall_mem_cons] at passed
    simp only [List.cons_append, walk, passed.1]
    exact ih passed.2

/-- Either no provider applies, or there is a first one that does. -/
theorem applies_cases (r : InboundRequest) (providers : List Provider) :
    (∀ q ∈ providers, q.authenticate r = .notApplicable) ∨
      ∃ (before : List Provider) (provider : Provider) (after : List Provider),
        providers = before ++ provider :: after ∧
        (∀ q ∈ before, q.authenticate r = .notApplicable) ∧
        provider.authenticate r ≠ .notApplicable := by
  induction providers with
  | nil => exact .inl (by simp)
  | cons q rest ih =>
    by_cases applies : q.authenticate r = .notApplicable
    · rcases ih with none_applies | ⟨before, provider, after, rfl, passed, first⟩
      · exact .inl (List.forall_mem_cons.mpr ⟨applies, none_applies⟩)
      · exact .inr ⟨q :: before, provider, after, rfl,
          List.forall_mem_cons.mpr ⟨applies, passed⟩, first⟩
    · exact .inr ⟨[], q, rest, rfl, by simp, applies⟩

theorem walk_of_none_applies {providers : List Provider}
    (none_applies : ∀ q ∈ providers, q.authenticate r = .notApplicable) :
    walk r providers = .exhausted := by
  simpa [walk] using walk_append [] none_applies

/-- What the walk makes of the first provider that applies. -/
def verdict : Outcome → Walk
  | .notApplicable => .exhausted
  | .authenticated p => .found p
  | .failed _ => .rejected
  | .panicked => .aborted

/-- The first provider that applies decides. -/
theorem walk_of_first {before after : List Provider} {provider : Provider}
    (passed : ∀ q ∈ before, q.authenticate r = .notApplicable)
    (first : provider.authenticate r ≠ .notApplicable) :
    walk r (before ++ provider :: after) = verdict (provider.authenticate r) := by
  rw [walk_append _ passed]
  cases outcome : provider.authenticate r with
  | notApplicable => exact absurd outcome first
  | authenticated p => simp [walk, outcome, verdict]
  | failed message => simp [walk, outcome, verdict, Provider.claims_of_failed outcome]
  | panicked => simp [walk, outcome, verdict]

/-- The answer to a request whose first applicable provider is known. -/
theorem handle_of_first {before after : List Provider} {provider : Provider}
    (providers : cfg.providers = before ++ provider :: after)
    (passed : ∀ q ∈ before, q.authenticate r = .notApplicable)
    (first : provider.authenticate r ≠ .notApplicable) :
    handle cfg r = match provider.authenticate r with
      | .authenticated p => .passed (.provided p)
      | .panicked => .aborted
      | _ => .refused authenticationRequired := by
  rw [handle, providers, walk_of_first passed first]
  cases outcome : provider.authenticate r with
  | notApplicable => exact absurd outcome first
  | authenticated p | failed message | panicked => rfl

theorem handle_of_none_applies
    (none_applies : ∀ q ∈ cfg.providers, q.authenticate r = .notApplicable) :
    handle cfg r = if cfg.allowAnonymous then .passed .anonymous
      else .refused authenticationRequired := by
  rw [handle, walk_of_none_applies none_applies]

/-- Among providers that return without a principal, the first error comes before any other. -/
theorem first_failure {before : List Provider} {provider : Provider} {message : String}
    (unsuccessful : ∀ q ∈ before, q.authenticate r = .notApplicable ∨
      ∃ reason, q.authenticate r = .failed reason)
    (failed : provider.authenticate r = .failed message) (after : List Provider) :
    ∃ (front : List Provider) (failing : Provider) (back : List Provider) (reason : String),
      before ++ provider :: after = front ++ failing :: back ∧
      (∀ q ∈ front, q.authenticate r = .notApplicable) ∧
      failing.authenticate r = .failed reason := by
  rcases applies_cases r before with none_applies | ⟨front, failing, back, rfl, passed, first⟩
  · exact ⟨before, provider, after, message, rfl, none_applies, failed⟩
  · rcases unsuccessful failing (by simp) with skipped | ⟨reason, reported⟩
    · exact absurd skipped first
    · exact ⟨front, failing, back ++ provider :: after, reason, by simp, passed, reported⟩

/-- An error before any success ends in a 401. -/
theorem handle_of_failed {before after : List Provider} {provider : Provider} {message : String}
    (providers : cfg.providers = before ++ provider :: after)
    (unsuccessful : ∀ q ∈ before, q.authenticate r = .notApplicable ∨
      ∃ reason, q.authenticate r = .failed reason)
    (failed : provider.authenticate r = .failed message) :
    handle cfg r = .refused authenticationRequired := by
  obtain ⟨front, first, back, reason, split, passed, reported⟩ :=
    first_failure unsuccessful failed after
  rw [handle_of_first (providers.trans split) passed (by simp [reported]), reported]

theorem none_applies_of_anonymous (anonymous : handle cfg r = .passed .anonymous) :
    cfg.allowAnonymous = true ∧ ∀ q ∈ cfg.providers, q.authenticate r = .notApplicable := by
  rcases applies_cases r cfg.providers with
    none_applies | ⟨front, first, back, split, passed, applies⟩
  · refine ⟨?_, none_applies⟩
    by_contra forbidden
    simp [handle_of_none_applies none_applies, forbidden] at anonymous
  · rw [handle_of_first split passed applies] at anonymous
    split at anonymous <;> cases anonymous

/-- Answers other than a 401 and anonymous access are those of the first provider that applies. -/
theorem exists_first {result : Result} (answer : handle cfg r = result)
    (answered : result ≠ .refused authenticationRequired) (named : result ≠ .passed .anonymous) :
    ∃ (before : List Provider) (provider : Provider) (after : List Provider),
      cfg.providers = before ++ provider :: after ∧
      (∀ q ∈ before, q.authenticate r = .notApplicable) ∧
      ((∃ p, provider.authenticate r = .authenticated p ∧ result = .passed (.provided p)) ∨
        provider.authenticate r = .panicked ∧ result = .aborted) := by
  rcases applies_cases r cfg.providers with
    none_applies | ⟨front, first, back, split, passed, applies⟩
  · rw [handle_of_none_applies none_applies] at answer
    split at answer
    · exact absurd answer.symm named
    · exact absurd answer.symm answered
  · refine ⟨front, first, back, split, passed, ?_⟩
    rw [handle_of_first split passed applies] at answer
    cases outcome : first.authenticate r with
    | notApplicable => exact absurd outcome applies
    | authenticated p =>
      rw [outcome] at answer
      exact .inl ⟨p, rfl, answer.symm⟩
    | failed message =>
      rw [outcome] at answer
      exact absurd answer.symm answered
    | panicked =>
      rw [outcome] at answer
      exact .inr ⟨rfl, answer.symm⟩

/-- Nobody is downgraded: anonymous access needs the permission and no credential, an error
before any success ends in a 401, and the first success names the principal. A request is
aborted only by a provider that panics. -/
theorem no_downgrade (cfg : Config) (r : InboundRequest) :
    (handle cfg r = .passed .anonymous →
      cfg.allowAnonymous = true ∧ ∀ q ∈ cfg.providers, q.authenticate r = .notApplicable) ∧
    (∀ before provider after message, cfg.providers = before ++ provider :: after →
      (∀ q ∈ before, q.authenticate r = .notApplicable ∨
        ∃ reason, q.authenticate r = .failed reason) →
      provider.authenticate r = .failed message →
      handle cfg r = .refused authenticationRequired) ∧
    (∀ p, handle cfg r = .passed (.provided p) ↔
      ∃ before provider after, cfg.providers = before ++ provider :: after ∧
        (∀ q ∈ before, q.authenticate r = .notApplicable) ∧
        provider.authenticate r = .authenticated p) ∧
    (handle cfg r = .aborted →
      ∃ before provider after, cfg.providers = before ++ provider :: after ∧
        (∀ q ∈ before, q.authenticate r = .notApplicable) ∧
        provider.authenticate r = .panicked) := by
  refine ⟨none_applies_of_anonymous, fun _ _ _ _ => handle_of_failed, fun p => ⟨?_, ?_⟩, ?_⟩
  · intro found
    obtain ⟨before, provider, after, providers, passed, ⟨p', succeeded, same⟩ | ⟨-, aborted⟩⟩ :=
      exists_first found (by simp) (by simp)
    · cases same
      exact ⟨before, provider, after, providers, passed, succeeded⟩
    · cases aborted
  · rintro ⟨before, provider, after, providers, passed, succeeded⟩
    rw [handle_of_first providers passed (by simp [succeeded]), succeeded]
  · intro aborted
    obtain ⟨before, provider, after, providers, passed, ⟨p, -, same⟩ | ⟨panicked, -⟩⟩ :=
      exists_first aborted (by simp) (by simp)
    · cases same
    · exact ⟨before, provider, after, providers, passed, panicked⟩

end Walks

section Samples

def forgedToken : InboundRequest where
  header := [("Authorization", "Bearer forged")]

/-- A bearer provider that rejects every token, where anonymous access is allowed. -/
def strictBearer : Config where
  allowAnonymous := true
  providers := [.bearer { parse := fun _ => .error "signature is invalid" }]

end Samples

theorem forged_token_refused :
    handle strictBearer forgedToken = .refused authenticationRequired := by
  have claimed : hasScheme "Bearer " forgedToken = true := by decide +kernel
  have presented : credentials "Bearer " forgedToken ≠ "" := by decide +kernel
  refine (no_downgrade strictBearer forgedToken).2.1 [] _ []
    "invalid token: signature is invalid" rfl (by simp) ?_
  simp [Provider.authenticate, BearerProvider.authenticate, claimed, presented]

end Authentication
