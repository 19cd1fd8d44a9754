import Mathlib.Data.List.Basic
import Mathlib.Logic.Function.Basic
import StacProxy.Base64Url
import StacProxy.SingleFlight

/-!
# Verification keys of an issuer

The client keeps the keys of the issuer's document. A call for a key looks it up, and if it is
missing fetches the document: one fetch at a time, which every call that asks for one meanwhile
shares. Unknown keys are not to flood the issuer, so a call for a missing key is refused for a
while after the last attempt, and for a while after the key was found missing.

Calls take their steps in any order, one lock or one wait at a time; a call may be cancelled at
any moment. The issuer serves one document to every fetch that is not cancelled.
-/

namespace JwksClient

/-! ## The document -/

structure JWK where
  kty : String
  kid : String
  use : String
  alg : String
  n : String
  e : String
  crv : String
  x : String
  y : String

inductive Curve where
  | p256
  | p384
  | p521
deriving DecidableEq

/-- An exponent is a machine integer. -/
inductive PublicKey where
  | rsa (n : Nat) (e : BitVec 64)
  | ec (curve : Curve) (x y : Nat)
deriving DecidableEq

def setBytes (bytes : List UInt8) : Nat := bytes.foldl (fun value b => value * 256 + b.toNat) 0

def exponent (bytes : List UInt8) : BitVec 64 :=
  bytes.foldl (fun value b => value <<< 8 ||| BitVec.ofNat 64 b.toNat) 0

def parseRSAKey (jwk : JWK) : Option PublicKey := do
  guard (jwk.n ≠ "" ∧ jwk.e ≠ "")
  let n ← Base64Url.decode jwk.n.toList
  let e ← Base64Url.decode jwk.e.toList
  return .rsa (setBytes n) (exponent e)

def curve (crv : String) : Option Curve :=
  if crv = "P-256" then some .p256
  else if crv = "P-384" then some .p384
  else if crv = "P-521" then some .p521
  else none

def parseECKey (jwk : JWK) : Option PublicKey := do
  guard (jwk.x ≠ "" ∧ jwk.y ≠ "" ∧ jwk.crv ≠ "")
  let crv ← curve jwk.crv
  let x ← Base64Url.decode jwk.x.toList
  let y ← Base64Url.decode jwk.y.toList
  return .ec crv (setBytes x) (setBytes y)

def parseJWK (jwk : JWK) : Option PublicKey :=
  if jwk.kty = "RSA" then parseRSAKey jwk
  else if jwk.kty = "EC" then parseECKey jwk
  else none

structure CachedKey where
  key : PublicKey
  alg : String
deriving DecidableEq

/-- The keys of a document: keys that are not for signing and keys that do not parse are
skipped, and of two keys with one ID the later one stays. -/
def keysOf (doc : List JWK) : Std.ExtTreeMap String CachedKey :=
  doc.foldl (fun out jwk =>
    if jwk.use ≠ "" ∧ jwk.use ≠ "sig" then out
    else match parseJWK jwk with
      | none => out
      | some key => out.insert jwk.kid ⟨key, jwk.alg⟩) ∅

/-! ## The client -/

/-- Durations are in nanoseconds. -/
structure Settings where
  ttl : Int
  hard : Int
  minRefreshInterval : Int
  negCacheTTL : Int

/-- The settings of a configuration: defaults for what it leaves out, and a hard lifetime that
is no shorter than the soft one. -/
def settings (ttl hardTTL minRefreshInterval negativeCacheTTL : Int) : Settings :=
  let ttl := if ttl ≤ 0 then 3600000000000 else ttl
  let hard := if hardTTL ≤ 0 then 86400000000000 else hardTTL
  { ttl
    hard := if hard < ttl then ttl else hard
    minRefreshInterval := if minRefreshInterval ≤ 0 then 30000000000 else minRefreshInterval
    negCacheTTL := if negativeCacheTTL ≤ 0 then 60000000000 else negativeCacheTTL }

/-- A time that was never set is absent. -/
structure Client where
  keys : Std.ExtTreeMap String CachedKey
  softExpiry : Option Int
  hardExpiry : Option Int
  bgRefresh : Bool
  lastRefreshAttempt : Option Int
  negKids : Std.ExtTreeMap String Int

def newClient : Client := ⟨∅, none, none, false, none, ∅⟩

inductive Lookup where
  | miss
  | fresh (entry : CachedKey)
  | stale (entry : CachedKey)
deriving DecidableEq

def lookup (c : Client) (now : Int) (kid : String) : Lookup :=
  if c.hardExpiry.any (· < now) then .miss
  else match c.keys[kid]? with
    | none => .miss
    | some entry => if c.softExpiry.all (· < now) then .stale entry else .fresh entry

def shouldShortCircuit (cfg : Settings) (c : Client) (now : Int) (kid : String) : Bool :=
  (c.negKids[kid]?).any (now < ·) ||
    c.lastRefreshAttempt.any fun last => now - last < cfg.minRefreshInterval

def markNegative (cfg : Settings) (c : Client) (now : Int) (kid : String) : Client :=
  { c with negKids := c.negKids.insert kid (now + cfg.negCacheTTL) }

/-- A successful refresh replaces the keys and clears the negative cache. -/
def store (cfg : Settings) (doc : List JWK) (c : Client) (now : Int) : Client :=
  { c with
    keys := keysOf doc
    softExpiry := some (now + cfg.ttl)
    hardExpiry := some (now + cfg.hard)
    negKids := ∅ }

/-! ## Calls -/

inductive JwksError where
  | negativeCached (kid : String)
  | notPresentAfterRefresh (kid : String)
  | fetch
deriving DecidableEq

inductive Agent where
  | caller (i : Nat)
  | background
deriving DecidableEq

/-- Refreshes share their outcome: the first one to ask makes it, those that ask meanwhile wait
for it. A result is an error or none. -/
abbrev Group := SingleFlight.Group Agent (Option JwksError)

/-- The parts of a refresh that is made. -/
inductive Job where
  | recording
  | fetching
  | storing
deriving DecidableEq

abbrev Ride := SingleFlight.Ride Job (Option JwksError)

inductive Refresh where
  | riding (ride : Ride)
  | done (err : Option JwksError)
deriving DecidableEq

namespace Refresh

@[match_pattern] abbrev entering : Refresh := .riding .entering

@[match_pattern] abbrev recording (flight : Nat) : Refresh := .riding (.working flight .recording)

@[match_pattern] abbrev fetching (flight : Nat) : Refresh := .riding (.working flight .fetching)

@[match_pattern] abbrev storing (flight : Nat) : Refresh := .riding (.working flight .storing)

@[match_pattern] abbrev finishing (flight : Nat) (err : Option JwksError) : Refresh :=
  .riding (.landing flight err)

@[match_pattern] abbrev waiting (flight : Nat) : Refresh := .riding (.waiting flight)

/-- The places of a refresh. -/
@[cases_eliminator] theorem places {motive : Refresh → Prop} (entering : motive .entering)
    (recording : ∀ f, motive (.recording f)) (fetching : ∀ f, motive (.fetching f))
    (storing : ∀ f, motive (.storing f)) (finishing : ∀ f err, motive (.finishing f err))
    (waiting : ∀ f, motive (.waiting f)) (done : ∀ err, motive (.done err)) (r : Refresh) :
    motive r :=
  match r with
  | .entering => entering
  | .recording f => recording f
  | .fetching f => fetching f
  | .storing f => storing f
  | .finishing f err => finishing f err
  | .waiting f => waiting f
  | .done err => done err

end Refresh

inductive Stage where
  | first
  | kicking (entry : CachedKey)
  | checking
  | refreshing (r : Refresh)
  | second
  | marking
  | returned (result : Except JwksError CachedKey)

structure Caller where
  stage : Stage
  cancelled : Bool

/-- What calls share. At most one refresh runs in the background. -/
structure Shared where
  client : Client
  now : Int
  group : Group
  background : Option Refresh
  backgroundCancelled : Bool

structure World where
  shared : Shared
  callers : Nat → Caller

section Source
variable (cfg : Settings) (doc : List JWK)

/-- The function that `refresh` shares. The attempt is recorded before the fetch, and a fetch fails
if the context of the call that makes it is cancelled. -/
def refreshWork (cancelled : Bool) (now : Int) (c : Client) : Job → Client × (Job ⊕ Option JwksError)
  | .recording => ({ c with lastRefreshAttempt := some now }, .inl .fetching)
  | .fetching => (c, if cancelled then .inr (some .fetch) else .inl .storing)
  | .storing => (store cfg doc c now, .inr none)

/-- The steps of `refresh`. -/
def refreshStep (a : Agent) (cancelled : Bool) (sh : Shared) : Refresh → Shared × Refresh
  | .riding ride =>
    let after := ride.step .recording (refreshWork cfg doc cancelled sh.now) a sh.group sh.client
    ({ sh with group := after.1, client := after.2.1 }, after.2.2.elim .riding .done)
  | .done err => (sh, .done err)

def maybeKickBackgroundRefresh (sh : Shared) : Shared :=
  if sh.client.bgRefresh then sh
  else { sh with
    client := { sh.client with bgRefresh := true }
    background := some .entering
    backgroundCancelled := false }

/-- The steps of `KeyWithAlg`. -/
def callerStep (i : Nat) (kid : String) (cancelled : Bool) (sh : Shared) : Stage → Shared × Stage
  | .first => match lookup sh.client sh.now kid with
    | .miss => (sh, .checking)
    | .fresh entry => (sh, .returned (.ok entry))
    | .stale entry => (sh, .kicking entry)
  | .kicking entry => (maybeKickBackgroundRefresh sh, .returned (.ok entry))
  | .checking =>
    if shouldShortCircuit cfg sh.client sh.now kid then
      (sh, .returned (.error (.negativeCached kid)))
    else (sh, .refreshing .entering)
  | .refreshing (.done (some err)) => (sh, .returned (.error err))
  | .refreshing (.done none) => (sh, .second)
  | .refreshing r =>
    let (sh, r) := refreshStep cfg doc (.caller i) cancelled sh r
    (sh, .refreshing r)
  | .second => match lookup sh.client sh.now kid with
    | .miss => (sh, .marking)
    | .fresh entry => (sh, .returned (.ok entry))
    | .stale entry => (sh, .returned (.ok entry))
  | .marking =>
    ({ sh with client := markNegative cfg sh.client sh.now kid },
      .returned (.error (.notPresentAfterRefresh kid)))
  | .returned result => (sh, .returned result)

def backgroundStep (sh : Shared) : Shared := match sh.background with
  | none => sh
  | some (.done _) => { sh with background := none, client := { sh.client with bgRefresh := false } }
  | some r =>
    let (sh, r) := refreshStep cfg doc .background sh.backgroundCancelled sh r
    { sh with background := some r }

end Source

inductive Event where
  | act (a : Agent)
  | cancel (i : Nat)
  | cancelBackground
  | tick (elapsed : Nat)

section System
variable (cfg : Settings) (doc : List JWK) (kids : Nat → String)

def World.step (w : World) : Event → World
  | .act (.caller i) =>
    let (sh, stage) := callerStep cfg doc i (kids i) (w.callers i).cancelled w.shared
      (w.callers i).stage
    ⟨sh, Function.update w.callers i { w.callers i with stage }⟩
  | .act .background => { w with shared := backgroundStep cfg doc w.shared }
  | .cancel i => { w with callers := Function.update w.callers i { w.callers i with cancelled := true } }
  | .cancelBackground => { w with shared := { w.shared with backgroundCancelled := true } }
  | .tick elapsed => { w with shared := { w.shared with now := w.shared.now + elapsed } }

def initial (start : Int) : World where
  shared := ⟨newClient, start, .empty, none, false⟩
  callers _ := ⟨.first, false⟩

def run (w : World) (events : List Event) : World := events.foldl (World.step cfg doc kids) w

end System

end JwksClient
