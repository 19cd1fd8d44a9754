import StacProxy.CursorWire
import StacProxy.PageMerge

/-!
# Paginated federated search

`PaginatedSearcher.Search`: decode or create the cursor, select and fetch the
origins that still have pages, merge, and mint the next cursor. A call depends on
its surroundings through a `Visit`: the clock, the replies of the origins and the
answer of the page cache. Concurrency of the fetches is not modelled; the results
are collected in input order.
-/

namespace PaginatedSearch

open StacItem SearchRequest FederatedCursor CursorWire PageMerge

structure Searcher where
  /-- Origin ID to base URL; each key has a `Searcher` behind it. -/
  origins : Std.ExtTreeMap String String
  pageSize : Nat
  maxPageSize : Nat
  cursorSecret : List UInt8
  pageSize_pos : 0 < pageSize
  secret_ne_nil : cursorSecret ≠ []

structure SearchConfig where
  origins : Std.ExtTreeMap String String
  defaultPageSize : Int
  maxPageSize : Int
  cursorSecret : List UInt8

def newPaginatedSearcher (cfg : SearchConfig) : Except String Searcher :=
  if keyed : cfg.cursorSecret = [] then
    .error "paginated searcher: CursorSecret is required"
  else .ok {
    origins := cfg.origins
    pageSize := if cfg.defaultPageSize ≤ 0 then 100 else cfg.defaultPageSize.toNat
    maxPageSize := if cfg.maxPageSize ≤ 0 then 1000 else cfg.maxPageSize.toNat
    cursorSecret := cfg.cursorSecret
    pageSize_pos := by split <;> omega
    secret_ne_nil := keyed }

structure OriginStatus where
  id : String
  returned : Nat
  exhausted : Bool
  error : Option OriginError

structure SearchContext where
  returned : Nat
  limit : Nat
  origins : List OriginStatus := []

structure SearchResult where
  items : List Item
  totalCount : Int64 := 0
  nextCursor : String := ""
  prevCursor : String := ""
  firstCursor : String := ""
  selfCursor : String := ""
  context : SearchContext

inductive SearchError where
  | cursor (error : CursorError)
  /-- A fetched page ended in a nil item: the merge panics. -/
  | nilItem

/-- What one call to `Search` meets outside the searcher. -/
structure Visit where
  now : Int64
  upstream : String → Request → SearchReply
  cached : Option SearchResult := none

def Searcher.pageLimit (s : Searcher) (req : Request) : Nat :=
  if 0 < req.limit ∧ req.limit ≤ s.maxPageSize then req.limit.toNat else s.pageSize

/-- The active origins that are fetched on this page: neither exhausted nor retired, and
with less than a page in their stash. -/
def toFetch (cursor : Cursor) (limit : Nat) : List String :=
  cursor.activeOrigins.filter fun id => (cursor.origins[id]?).any fun oc =>
    !oc.exhausted && !oc.retired && decide (oc.stash.length < limit)

def originRequest (req : Request) (cursor : Cursor) (limit : Nat) (id : String) : Request :=
  let originReq := { req with limit := limit }
  match cursor.origins[id]? with
  | none => originReq
  | some oc =>
    { originReq with
      token := if oc.nextToken ≠ "" then oc.nextToken else originReq.token
      overrideURL := if oc.nextURL ≠ "" then oc.nextURL else originReq.overrideURL
      overrideBody := if oc.nextBody ≠ "" then oc.nextBody else originReq.overrideBody
      adapterName := oc.adapterName }

def fetchOrigin (s : Searcher) (v : Visit) (req : Request) (cursor : Cursor) (limit : Nat)
    (id : String) : FetchResult :=
  if id ∈ s.origins then { v.upstream id (originRequest req cursor limit id) with originID := id }
  else { originID := id, error := some .fetchFailed }

def fetchFromOrigins (s : Searcher) (v : Visit) (req : Request) (cursor : Cursor) (limit : Nat) :
    List FetchResult :=
  (toFetch cursor limit).map (fetchOrigin s v req cursor limit)

/-- The cursor of the next page: a clone with the chain pointers set. -/
def chainCursor (cursor : Cursor) (cursorStr : String) : Cursor :=
  { cursor.clone with
    prevCursor := cursorStr
    firstCursor := if cursor.pageSeq = 0 then cursorStr else cursor.firstCursor
    pageSeq := cursor.pageSeq + 1 }

def errorKind (results : List FetchResult) (id : String) : Option OriginError :=
  (results.find? fun r => r.originID == id && r.error.isSome).bind (·.error)

/-- An origin that failed on an earlier page is reported as `fetch_failed`. -/
def originStatus (results : List FetchResult) (id : String) (oc : OriginCursor) : OriginStatus where
  id := id
  returned := oc.itemCount
  exhausted := oc.exhausted
  error := if oc.error then some ((errorKind results id).getD .fetchFailed) else none

/-- A rendered page and the cursor it mints, if any. -/
structure Page where
  result : SearchResult
  next : Option Cursor := none

/-- The cursor as it stands once the page is merged. -/
structure Merged where
  items : List Item
  cursor : Cursor

def mergePage (s : Searcher) (v : Visit) (req : Request) (cursor : Cursor) : Option Merged :=
  let limit := s.pageLimit req
  (mergeResults s.origins (fetchFromOrigins s v req cursor limit) cursor limit).map fun (items, c) =>
    ⟨items, { c with totalReturned := c.totalReturned + Int64.ofNat items.length }⟩

/-- The next cursor, minted only while some origin has more. -/
def nextCursorOf (merged : Merged) (cursorStr : String) : Option Cursor :=
  if merged.cursor.hasMore then some (chainCursor merged.cursor cursorStr) else none

/-- A cursor that cannot be encoded is silently dropped. -/
def tokenText (w : Wire) (secret : List UInt8) (next : Option Cursor) : String :=
  match next.map (encode w · secret) with
  | some (.ok token) => token
  | _ => ""

def pageOfMerge (s : Searcher) (w : Wire) (limit : Nat) (results : List FetchResult)
    (merged : Merged) (cursorStr : String) : Page where
  result := {
    items := merged.items
    totalCount := merged.cursor.totalReturned
    nextCursor := tokenText w s.cursorSecret (nextCursorOf merged cursorStr)
    prevCursor := merged.cursor.prevCursor
    firstCursor := merged.cursor.firstCursor
    selfCursor := cursorStr
    context := {
      returned := merged.items.length
      limit := limit
      origins := merged.cursor.origins.toList.map fun (id, oc) => originStatus results id oc } }
  next := nextCursorOf merged cursorStr

/-- `Search` once the cursor is in hand. -/
def renderPage (s : Searcher) (w : Wire) (v : Visit) (req : Request) (cursor : Cursor)
    (cursorStr : String) : Except SearchError Page :=
  let limit := s.pageLimit req
  if cursor.activeOrigins = [] then
    .ok { result := { items := [], context := { returned := 0, limit := limit } } }
  else match mergePage s v req cursor with
    | none => .error .nilItem
    | some merged =>
      .ok (pageOfMerge s w limit (fetchFromOrigins s v req cursor limit) merged cursorStr)

def search (s : Searcher) (w : Wire) (principalHash : String) (v : Visit) (req : Request)
    (cursorStr : String) : Except SearchError SearchResult :=
  if cursorStr = "" then
    let cursor := newFederatedCursor (w.hashSearchRequest req) principalHash s.origins.keys v.now
    (renderPage s w v req cursor cursorStr).map (·.result)
  else match decodeCursor w cursorStr s.cursorSecret s.origins principalHash v.now with
    | .error e => .error (.cursor e)
    | .ok cursor =>
      if cursor.queryHash ≠ w.hashSearchRequest req then
        .error (.cursor (.invalid "cursor does not match search parameters"))
      else match v.cached with
        | some page => .ok page
        | none => (renderPage s w v req cursor cursorStr).map (·.result)

section Fetching
variable {cursor : Cursor} {limit : Nat} {id : String}

theorem mem_toFetch : id ∈ toFetch cursor limit ↔ ∃ oc, cursor.origins[id]? = some oc ∧
    oc.exhausted = false ∧ oc.retired = false ∧ oc.stash.length < limit := by
  simp only [toFetch, List.mem_filter, mem_activeOrigins, Option.any_eq_true, Bool.and_eq_true,
    Bool.not_eq_true', decide_eq_true_eq]
  constructor
  · rintro ⟨_, oc, present, ⟨open_, alive⟩, room⟩
    exact ⟨oc, present, open_, alive, room⟩
  · rintro ⟨oc, present, open_, alive, room⟩
    exact ⟨⟨oc, present, by simp [OriginCursor.hasMore, open_, alive]⟩, oc, present,
      ⟨open_, alive⟩, room⟩

theorem toFetch_nodup : (toFetch cursor limit).Nodup :=
  activeOrigins_nodup.filter _

/-- The results handed to the merge belong to distinct origins that were to be fetched. -/
structure FetchedFor (cursor : Cursor) (limit : Nat) (results : List FetchResult) : Prop where
  onePerOrigin : OnePerOrigin results
  selected : ∀ r ∈ results, r.originID ∈ toFetch cursor limit

@[simp] theorem fetchOrigin_originID (s : Searcher) (v : Visit) (req : Request) :
    (fetchOrigin s v req cursor limit id).originID = id := by
  unfold fetchOrigin
  split <;> rfl

theorem fetchFromOrigins_fetchedFor (s : Searcher) (v : Visit) (req : Request) (cursor : Cursor)
    (limit : Nat) :
    FetchedFor cursor limit (fetchFromOrigins s v req cursor limit) := by
  have ids : (fetchFromOrigins s v req cursor limit).map (·.originID) = toFetch cursor limit := by
    simp [fetchFromOrigins, Function.comp_def]
  refine ⟨?_, fun r member => ?_⟩
  · rw [OnePerOrigin, ids]
    exact toFetch_nodup
  · rw [← ids]
    exact List.mem_map_of_mem member

theorem mem_fetchFromOrigins {s : Searcher} {v : Visit} {req : Request} {r : FetchResult} :
    r ∈ fetchFromOrigins s v req cursor limit ∧ r.originID = id ↔
      id ∈ toFetch cursor limit ∧ r = fetchOrigin s v req cursor limit id := by
  constructor
  · rintro ⟨member, rfl⟩
    obtain ⟨id', selected, rfl⟩ := List.mem_map.mp member
    rw [fetchOrigin_originID]
    exact ⟨selected, rfl⟩
  · rintro ⟨selected, rfl⟩
    exact ⟨List.mem_map_of_mem selected, fetchOrigin_originID s v req⟩

end Fetching

end PaginatedSearch
