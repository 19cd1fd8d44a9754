import StacProxy.ApiKeyRegistry
import StacProxy.CacheKeys
import StacProxy.CacheStores

/-!
# The response cache over a store that forgets

A request looks its key up when it arrives and stores its response when the handler has answered.
In between the store may change in any way that others cause, and it forgets, expires and fails as
it likes. What it shows is always the envelope of a response that was given. So the cache stands in
for the handler wherever the key tells apart what the handler does.
-/

namespace CachedResponses

open OutboundRequest RequestPath AuthzMiddleware ResponseCache LossyStore
open Authentication (Principal)

variable {φ σ : Type}

/-- The middleware: its settings, the envelope in which entries are stored, and the store. -/
structure Cache (φ σ : Type) where
  cfg : Config := {}
  hash : Bytes → String
  encodeEntry : CacheEntry → Option Bytes
  decodeEntry : Bytes → Option CacheEntry
  readsBack : ∀ {entry data}, encodeEntry entry = some data → decodeEntry data = some entry
  store : Store String Bytes φ σ

/-- A response that the handler gave, with the time at which it was stored. -/
structure Completed where
  request : Request
  time : Int
  response : Captured

section Source
variable (M : Cache φ σ)

/-- What a request finds. An envelope that cannot be read is a miss. -/
def Cache.lookup (fault : φ) (s : σ) (now : Int) (r : Request) : σ × Option CacheEntry :=
  if r.cacheable then
    let read := M.store.get fault s now (cacheKey M.hash r)
    (read.1, read.2.bind M.decodeEntry)
  else (s, none)

/-- What the response to a request leaves in the store. -/
def Cache.keep (fault : φ) (s : σ) (done : Completed) : σ :=
  let r := done.request
  if r.cacheable then
    match r.requestType.bind fun type => entryOf M.cfg type done.response.toResponse with
    | none => s
    | some (entry, ttl) => match M.encodeEntry entry with
      | none => s
      | some data => M.store.set fault s done.time (cacheKey M.hash r) data ttl
  else s

/-- The response to a request that the cache did not answer. -/
def forwardMiss (r : Request) (response : Captured) : Response :=
  if r.cacheable then
    { response.toResponse with header := Header.set response.header "X-Cache-Status" "MISS" }
  else response.toResponse

/-- The response to a request. -/
def Cache.serve (next : Request → Captured) (fault : φ) (s : σ) (now : Int) (r : Request) :
    Response :=
  match (M.lookup fault s now r).2 with
  | some entry => writeCachedResponse entry
  | none => forwardMiss r (next r)

/-- Requests are looked up and, where nothing is found, answered by the handler, in any order. -/
inductive Event (φ : Type) where
  | asked (fault : φ) (now : Int) (r : Request)
  | answered (fault : φ) (time : Int) (r : Request)

def Cache.step (next : Request → Captured) (s : σ) : Event φ → σ
  | .asked fault now r => (M.lookup fault s now r).1
  | .answered fault time r => M.keep fault s ⟨r, time, next r⟩

def Cache.run (next : Request → Captured) (start : σ) (events : List (Event φ)) : σ :=
  events.foldl (M.step next) start

end Source

theorem sameReply_forwardMiss (r : Request) (response : Captured) :
    SameReply (forwardMiss r response) response.toResponse := by
  unfold forwardMiss
  split
  · exact ⟨rfl, rfl, contentEncoding_set _ _⟩
  · exact ⟨rfl, rfl, rfl⟩

/-- The entry is made of the response, under the key of its request, and kept up to a time. -/
def MadeOf (M : Cache φ σ) (done : Completed) (key : String) (entry : CacheEntry) (expiry : Int) :
    Prop :=
  done.request.cacheable = true ∧ cacheKey M.hash done.request = key ∧
    ∃ type ttl, done.request.requestType = some type ∧
      entryOf M.cfg type done.response.toResponse = some (entry, ttl) ∧ expiry = done.time + ttl

/-- Whatever the store shows is the envelope of a response that was given. -/
def Sourced (M : Cache φ σ) (completed : List Completed) (s : σ) : Prop :=
  ∀ key data expiry, M.store.shows s key = some (data, expiry) →
    ∃ done ∈ completed, ∃ entry, M.encodeEntry entry = some data ∧ MadeOf M done key entry expiry

section Steps
variable {M : Cache φ σ} {completed : List Completed} {s : σ}

theorem sourced_fresh (fresh : ∀ key, M.store.shows s key = none) : Sourced M completed s := by
  intro key data expiry shown
  rw [fresh] at shown
  cases shown

theorem Sourced.mono (sourced : Sourced M completed s) (more : List Completed) :
    Sourced M (completed ++ more) s := by
  intro key data expiry shown
  obtain ⟨done, member, made⟩ := sourced key data expiry shown
  exact ⟨done, List.mem_append_left _ member, made⟩

theorem Sourced.lookup (sourced : Sourced M completed s) (fault : φ) (now : Int) (r : Request) :
    Sourced M completed (M.lookup fault s now r).1 := by
  unfold Cache.lookup
  split
  · intro key data expiry shown
    exact sourced key data expiry (M.store.get_shows shown)
  · exact sourced

theorem Sourced.keep (sourced : Sourced M completed s) (fault : φ) (done : Completed) :
    Sourced M (completed ++ [done]) (M.keep fault s done) := by
  have before := sourced.mono [done]
  unfold Cache.keep
  simp only
  split
  · rename_i cacheable
    cases kept : done.request.requestType.bind fun type =>
        entryOf M.cfg type done.response.toResponse with
    | none => exact before
    | some pair =>
      obtain ⟨entry, ttl⟩ := pair
      obtain ⟨type, typed, made⟩ := Option.bind_eq_some_iff.mp kept
      cases written : M.encodeEntry entry with
      | none =>
        simp only [written]
        exact before
      | some data =>
        simp only [written]
        intro key shown expiry found
        rcases M.store.set_shows found with ⟨rfl, new⟩ | old
        · cases new
          exact ⟨done, by simp, entry, written, cacheable, rfl, type, ttl, typed, made, rfl⟩
        · exact before key shown expiry old
  · exact before

/-- A hit is the entry of a response that was given to a request with the same key, and it has
time left. -/
theorem Sourced.hit (sourced : Sourced M completed s) {fault : φ} {now : Int} {r : Request}
    {entry : CacheEntry} (found : (M.lookup fault s now r).2 = some entry) :
    r.cacheable = true ∧ ∃ done ∈ completed, ∃ expiry,
      MadeOf M done (cacheKey M.hash r) entry expiry ∧ now ≤ expiry := by
  by_cases cacheable : r.cacheable = true
  · refine ⟨cacheable, ?_⟩
    rw [Cache.lookup, if_pos cacheable] at found
    obtain ⟨data, read, decoded⟩ := Option.bind_eq_some_iff.mp found
    obtain ⟨expiry, shown, live⟩ := M.store.get_found read
    obtain ⟨done, member, kept, written, made⟩ := sourced _ _ _ shown
    obtain rfl : kept = entry := by
      rw [M.readsBack written] at decoded
      exact Option.some.inj decoded
    exact ⟨done, member, expiry, made, live⟩
  · rw [Cache.lookup, if_neg cacheable] at found
    cases found

/-- What an entry says of the response it was made of: it may be kept, for as long as its type and
status say, and it is replayed as it was. -/
theorem MadeOf.replays {done : Completed} {key : String} {entry : CacheEntry} {expiry : Int}
    (made : MadeOf M done key entry expiry) :
    noStore done.response.header = false ∧ done.response.status ∈ M.cfg.statuses ∧
      (∃ type, done.request.requestType = some type ∧ 0 < lifetime M.cfg type done.response.status ∧
        expiry = done.time + lifetime M.cfg type done.response.status) ∧
      SameReply (writeCachedResponse entry) done.response.toResponse := by
  obtain ⟨-, -, type, ttl, typed, kept, rfl⟩ := made
  have replayed := sameReply_writeCachedResponse done.response kept
  unfold entryOf at kept
  split at kept
  · cases kept
  · rename_i allowed
    rw [not_or, not_not, Bool.not_eq_true] at allowed
    split at kept
    · cases kept
    · rename_i lasting
      cases kept
      exact ⟨allowed.2, allowed.1, ⟨type, typed, not_le.mp lasting, rfl⟩, replayed⟩

end Steps

section Transparency

/-- What the inner handler may look at. -/
structure Forwarded where
  method : Bytes
  escapedPath : Bytes
  rawQuery : Bytes
  header : Header
  principal : Option Principal

def forwarded (r : Request) : Forwarded where
  method := r.method
  escapedPath := escapedPath r.url
  rawQuery := r.rawQuery
  header := r.header
  principal := r.principal

/-- The fields that a handler reads. -/
def fieldsRead (reads : String → Bool) (h : Header) : Header := h.filter fun field => reads field.1

/-- Other than in the query, the handler sees no difference between the requests unless the key has
one. No decoded path is spelled in two ways, and the key has no header fields. -/
structure Discerned (reads : String → Bool) (q r : Request) : Prop where
  path : escapedPath q.url = escapedPath r.url ∨ q.url.path ≠ r.url.path
  header : fieldsRead reads q.header = fieldsRead reads r.header
  principal : q.principal = r.principal ∨ CacheKeys.ToldApart q.principal r.principal

/-- The handler does not tell queries with one normal form apart, or fields it does not read. -/
def Normalizes (reads : String → Bool) (inner : Forwarded → Captured) : Prop :=
  ∀ f g : Forwarded, f.method = g.method → f.escapedPath = g.escapedPath →
    normalizeQuery f.rawQuery = normalizeQuery g.rawQuery →
    fieldsRead reads f.header = fieldsRead reads g.header → f.principal = g.principal →
    inner f = inner g

/-- The responses that were given in a run. -/
def completed (next : Request → Captured) : List (Event φ) → List Completed :=
  List.filterMap fun
    | .asked _ _ _ => none
    | .answered _ time r => some ⟨r, time, next r⟩

theorem sourced_run {M : Cache φ σ} (next : Request → Captured) {start : σ}
    (fresh : ∀ key, M.store.shows start key = none) (events : List (Event φ)) :
    Sourced M (completed next events) (M.run next start events) := by
  induction events using List.reverseRecOn with
  | nil => exact sourced_fresh fresh
  | append_singleton events event ih =>
    rw [Cache.run, List.foldl_concat, completed, List.filterMap_append]
    cases event with
    | asked fault now r => simpa [completed, Cache.step, Cache.run] using ih.lookup fault now r
    | answered fault time r => exact ih.keep fault ⟨r, time, next r⟩

theorem inner_eq_of_key {hash : Bytes → String} (injective : Function.Injective hash)
    {reads : String → Bool} {inner : Forwarded → Captured} (normalizes : Normalizes reads inner)
    {q r : Request} (cacheable_q : q.cacheable = true) (cacheable_r : r.cacheable = true)
    (plain_q : 0 ∉ q.url.path) (plain_r : 0 ∉ r.url.path) (discerned : Discerned reads q r)
    (keys : cacheKey hash q = cacheKey hash r) : inner (forwarded q) = inner (forwarded r) := by
  obtain ⟨principal, path, query⟩ := CacheKeys.components_of_key injective cacheable_q cacheable_r
    plain_q plain_r discerned.principal keys
  have method : q.method = r.method := by
    rw [method_of_cacheable cacheable_q, method_of_cacheable cacheable_r]
  have spelled : escapedPath q.url = escapedPath r.url :=
    discerned.path.resolve_right fun differ => differ path
  exact normalizes _ _ method spelled query discerned.header principal

/-- The cache is transparent for a handler that does not tell queries with one normal form apart,
as long as the key tells the requests apart where the handler does and no path has a NUL. -/
theorem serve_sameReply {M : Cache φ σ} (injective : Function.Injective M.hash)
    (reads : String → Bool) {inner : Forwarded → Captured} (normalizes : Normalizes reads inner)
    {start : σ} (fresh : ∀ key, M.store.shows start key = none) (events : List (Event φ))
    (fault : φ) (now : Int) (r : Request) (plain : 0 ∉ r.url.path)
    (discerned : ∀ fault time q, .answered fault time q ∈ events → q.cacheable →
      0 ∉ q.url.path ∧ Discerned reads q r) :
    SameReply (M.serve (inner ∘ forwarded) fault (M.run (inner ∘ forwarded) start events) now r)
      (inner (forwarded r)).toResponse := by
  unfold Cache.serve
  cases found : (M.lookup fault (M.run (inner ∘ forwarded) start events) now r).2 with
  | none => exact sameReply_forwardMiss r _
  | some entry =>
    obtain ⟨cacheable_r, done, member, expiry, made, -⟩ := (sourced_run _ fresh events).hit found
    obtain ⟨event, earlier, answered⟩ := List.mem_filterMap.mp member
    cases event with
    | asked => cases answered
    | answered fault time q =>
      cases answered
      obtain ⟨plain_q, discerned⟩ := discerned fault time q earlier made.1
      have replayed := made.replays.2.2.2
      rwa [Function.comp_apply, inner_eq_of_key injective normalizes made.1 cacheable_r plain_q plain
        discerned made.2.1] at replayed

end Transparency

section Samples

/-- Entries with nothing but a body are stored, as that body. -/
def bodyCache : Cache Unit CacheStores.MemoryStore where
  hash := ApiKeyRegistry.sampleDigest
  encodeEntry := fun entry => if entry.status = 200 ∧ entry.headers = [] then some entry.body else none
  decodeEntry := fun body => some ⟨200, [], body⟩
  readsBack := by
    intro entry data written
    split at written
    · rename_i plain
      cases written
      rw [← plain.1, ← plain.2]
    · cases written
  store := CacheStores.memory 2

/-- A handler that answers with the path, and with nothing that depends on the query. -/
def echoPath (f : Forwarded) : Captured := ok f.escapedPath

def get (path : String) (rawQuery : String := "") : Request where
  url := ⟨bytes path, []⟩
  rawQuery := bytes rawQuery
  requestType := some .collections

def getAs (id : String) (rawQuery : String) : Request :=
  { get "/collections" rawQuery with principal := some (CacheKeys.user id) }

/-- Two users are answered. -/
def answeredBoth : List (Event Unit) :=
  [.answered () 1 (getAs "bob" ""), .asked () 2 (getAs "alice" "a=1&b=2"),
    .answered () 3 (getAs "alice" "a=1&b=2")]

end Samples

theorem permuted_query_served :
    (bodyCache.lookup () (bodyCache.run (echoPath ∘ forwarded) [] answeredBoth) 4
      (getAs "alice" "b=2&a=1")).2.isSome ∧
    SameReply (bodyCache.serve (echoPath ∘ forwarded) ()
        (bodyCache.run (echoPath ∘ forwarded) [] answeredBoth) 4 (getAs "alice" "b=2&a=1"))
      (echoPath (forwarded (getAs "alice" "b=2&a=1"))).toResponse := by
  refine ⟨by decide +kernel, serve_sameReply ApiKeyRegistry.sampleDigest_injective (fun _ => false) ?_
    (fun _ => rfl) answeredBoth () 4 _ (by decide) ?_⟩
  · intro f g _ path _ _ _
    rw [echoPath, echoPath, path]
  · intro fault time q earlier _
    simp only [answeredBoth, List.mem_cons, List.not_mem_nil, Event.answered.injEq, or_false,
      reduceCtorEq, false_or] at earlier
    rcases earlier with ⟨-, -, rfl⟩ | ⟨-, -, rfl⟩
    · refine ⟨by decide, .inl rfl, rfl, .inr (.inr ⟨_, _, rfl, rfl, rfl, rfl, ?_⟩)⟩
      exact ⟨by decide, by decide, by decide⟩
    · exact ⟨by decide, .inl rfl, rfl, .inl rfl⟩

/-- A handler that answers with all it may look at. -/
def echo (f : Forwarded) : Captured :=
  ok (f.escapedPath ++ f.rawQuery ++ f.principal.elim [] fun p => bytes p.type)
    (f.header.map fun field => ("Content-Encoding", field.2))

/-- Pairs of requests with one key: another order of the query, another coding asked for, an
escaped slash, and another kind of principal with the same ID. -/
def samePairs : List (Request × Request) :=
  [(get "/search" "a=1&b=2", get "/search" "b=2&a=1"),
   (get "/search", { get "/search" with header := [("Accept-Encoding", "gzip")] }),
   (get "/collections/a/items", { get "/collections/a/items" with
      url := ⟨bytes "/collections/a/items", bytes "/collections/a%2Fitems"⟩ }),
   ({ get "/search" with principal := some { id := bytes "alice", type := "user" } },
    { get "/search" with principal := some { id := bytes "alice", type := "certificate" } })]

theorem foreign_responses_served : samePairs.all fun pair =>
    ¬ SameReply (bodyCache.serve (echo ∘ forwarded) ()
        (bodyCache.run (echo ∘ forwarded) [] [.asked () 0 pair.1, .answered () 1 pair.1]) 2 pair.2)
      (echo (forwarded pair.2)).toResponse := by
  decide +kernel

end CachedResponses
