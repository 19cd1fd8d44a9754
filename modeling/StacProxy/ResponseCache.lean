import Mathlib.Data.List.Infix
import StacProxy.Authentication

/-!
# The response cache

The cache middleware: which requests it serves, the key it puts together for them, what it
keeps of a response and what it makes of an entry. The digest of the key is a parameter. Times and
durations are in nanoseconds.
-/

namespace ResponseCache

open Geofence (given)
open PolicyFilter AuthzMiddleware OutboundRequest PercentCoding RequestPath Authentication

section Keys

structure Request where
  method : Bytes := bytes "GET"
  url : Url
  rawQuery : Bytes := []
  header : Header := []
  /-- The principal in the context. -/
  principal : Option Principal := none
  /-- The type in the STAC shape, unless the router attached none. -/
  requestType : Option RequestType
  decision : Option AuthzDecision := none

/-- Queries that cannot be parsed are kept as they are. -/
def normalizeQuery (raw : Bytes) : Bytes :=
  if raw = [] then []
  else if wellFormedQuery raw then encodeQuery (query raw)
  else raw

def principalClass : Option Principal → Bytes
  | none => bytes "anonymous"
  | some p =>
    if p.isAnonymous then bytes "anonymous"
    else if p.id = [] then bytes "principal:_unknown"
    else bytes "principal:" ++ p.id

/-- The text that is hashed: the components are separated by NUL bytes. -/
def keyText (r : Request) : Bytes :=
  principalClass r.principal ++ 0 :: r.method ++ 0 :: r.url.path ++ 0 :: normalizeQuery r.rawQuery

def hasConstraints (d : AuthzDecision) : Bool :=
  d.constraints.any fun c =>
    c.allowedCollections ≠ [] || c.deniedCollections ≠ [] ||
      c.geofence.any (fun g => (given g.allowedArea).isSome) || 0 < c.maxResults ||
      !c.requiredFilters.isEmpty || c.cql2Filter ≠ "" || (given c.cql2FilterJSON).isSome

/-- `ShouldCache`: GET requests, other than for assets. -/
def shouldCache (method : Bytes) (type : RequestType) : Bool :=
  method = bytes "GET" && type ≠ .asset

/-- The requests that get to the cache. -/
def Request.cacheable (r : Request) : Bool :=
  r.requestType.any (shouldCache r.method) && !r.decision.any hasConstraints

def cacheKey {κ : Type} (hash : Bytes → κ) (r : Request) : κ := hash (keyText r)

theorem method_of_cacheable {r : Request} (cacheable : r.cacheable = true) :
    r.method = bytes "GET" := by
  simp only [Request.cacheable, Bool.and_eq_true, Option.any_eq_true] at cacheable
  obtain ⟨⟨type, -, should⟩, -⟩ := cacheable
  simp only [shouldCache, Bool.and_eq_true, decide_eq_true_eq] at should
  exact should.1

end Keys

section Entries

/-- A response as `ResponseCapture` reports it: the status is 200 if none was written. -/
structure Captured extends Response where
  written : status ≠ 0

structure CacheEntry where
  status : Nat
  headers : Header
  body : Bytes

def second : Int := 1000000000

structure BasicStrategy where
  collectionTTL : Int := 300 * second
  itemTTL : Int := 60 * second
  searchTTL : Int := 30 * second

structure Config where
  strategy : BasicStrategy := {}
  cacheableStatuses : List Nat := []
  negativeCacheTTL : Int := 0

def defaultCacheableStatuses : List Nat := [200, 203, 204, 301, 308, 404, 410]

def Config.statuses (cfg : Config) : List Nat :=
  if cfg.cacheableStatuses = [] then defaultCacheableStatuses else cfg.cacheableStatuses

def Config.negTTL (cfg : Config) : Int :=
  if cfg.negativeCacheTTL ≤ 0 then 300 * second else cfg.negativeCacheTTL

def BasicStrategy.ttl (s : BasicStrategy) (type : RequestType) (status : Nat) : Int :=
  if status < 200 ∨ 400 ≤ status then 0
  else match type with
    | .collection | .collections => s.collectionTTL
    | .search => s.searchTTL
    | _ => s.itemTTL

def cacheableResponseHeaders : List String :=
  ["Content-Type", "Content-Encoding", "Content-Language", "Etag", "Last-Modified",
    "Cache-Control", "Expires", "Vary", "X-Cache-Status"]

def filterCacheableHeaders (h : Header) : Header :=
  (h.filter fun field => canonicalHeaderKey field.1 ∈ cacheableResponseHeaders).map
    fun field => (canonicalHeaderKey field.1, field.2)

/-- Cache-Control has no-store, in any case. -/
def noStore (h : Header) : Bool :=
  "no-store".toList <:+: (Header.get h "Cache-Control").toList.map Char.toLower

def lifetime (cfg : Config) (type : RequestType) (status : Nat) : Int :=
  if 400 ≤ status ∧ status < 500 then cfg.negTTL else cfg.strategy.ttl type status

/-- What is kept of a response, if anything. -/
def entryOf (cfg : Config) (type : RequestType) (response : Response) : Option (CacheEntry × Int) :=
  if response.status ∉ cfg.statuses ∨ noStore response.header then none
  else if lifetime cfg type response.status ≤ 0 then none
  else some (⟨response.status, filterCacheableHeaders response.header, response.body⟩,
    lifetime cfg type response.status)

def writeCachedResponse (entry : CacheEntry) : Response where
  status := if entry.status = 0 then 200 else entry.status
  header := Header.set entry.headers "X-Cache-Status" "HIT"
  body := entry.body

end Entries

section Replies

/-- The codings of a body. -/
def contentEncoding (h : Header) : List String :=
  (h.filter fun field => canonicalHeaderKey field.1 = "Content-Encoding").map Prod.snd

/-- The same status and the same body in the same coding. -/
def SameReply (served inner : Response) : Prop :=
  served.status = inner.status ∧ served.body = inner.body ∧
    contentEncoding served.header = contentEncoding inner.header

instance (served inner : Response) : Decidable (SameReply served inner) :=
  inferInstanceAs (Decidable (_ ∧ _ ∧ _))

theorem canonical_cacheable :
    ∀ name ∈ cacheableResponseHeaders, canonicalHeaderKey name = name := by
  decide

theorem contentEncoding_filterCacheableHeaders (h : Header) :
    contentEncoding (filterCacheableHeaders h) = contentEncoding h := by
  induction h with
  | nil => rfl
  | cons field rest ih =>
    simp only [contentEncoding, filterCacheableHeaders] at ih ⊢
    by_cases kept : canonicalHeaderKey field.1 ∈ cacheableResponseHeaders
    · have canonical := canonical_cacheable _ kept
      by_cases coding : canonicalHeaderKey field.1 = "Content-Encoding"
      · simp [coding, ih, show "Content-Encoding" ∈ cacheableResponseHeaders by decide,
          show canonicalHeaderKey "Content-Encoding" = "Content-Encoding" by decide]
      · simp [kept, canonical, coding, ih]
    · have coding : ¬ canonicalHeaderKey field.1 = "Content-Encoding" := by
        intro coding
        exact kept (coding ▸ by decide)
      simp [kept, coding, ih]

/-- The cache status is no coding. -/
theorem contentEncoding_set (h : Header) (status : String) :
    contentEncoding (Header.set h "X-Cache-Status" status) = contentEncoding h := by
  have name : canonicalHeaderKey "X-Cache-Status" = "X-Cache-Status" := by decide
  simp only [contentEncoding, Header.set, Header.del, name, List.filter_append, List.filter_filter,
    List.map_append]
  have other : ∀ field : String × String,
      (decide (canonicalHeaderKey field.1 = "Content-Encoding") &&
        decide (field.1 ≠ "X-Cache-Status")) =
      decide (canonicalHeaderKey field.1 = "Content-Encoding") := by
    intro field
    by_cases status_field : field.1 = "X-Cache-Status"
    · rw [status_field, name]
      decide
    · simp [status_field]
  simp only [other]
  simp [name]

theorem entryOf_eq_some {cfg : Config} {type : RequestType} {response : Response}
    {entry : CacheEntry} {ttl : Int} (kept : entryOf cfg type response = some (entry, ttl)) :
    entry = ⟨response.status, filterCacheableHeaders response.header, response.body⟩ := by
  simp only [entryOf] at kept
  split at kept
  · cases kept
  · split at kept
    · cases kept
    · cases kept
      rfl

/-- What is written from an entry is the response the entry was made of. -/
theorem sameReply_writeCachedResponse {cfg : Config} {type : RequestType} {entry : CacheEntry}
    {ttl : Int} (response : Captured)
    (kept : entryOf cfg type response.toResponse = some (entry, ttl)) :
    SameReply (writeCachedResponse entry) response.toResponse := by
  rw [entryOf_eq_some kept]
  refine ⟨if_neg response.written, rfl, ?_⟩
  rw [writeCachedResponse, contentEncoding_set, contentEncoding_filterCacheableHeaders]

end Replies

def ok (body : Bytes) (header : Header := []) : Captured where
  status := 200
  header := header
  body := body
  written := by decide

end ResponseCache
