import StacProxy.KeyedMap
import StacProxy.StacItem

/-!
# The federated cursor

Pagination state across origins and the operations `mergeResults` and `Search`
apply to it. A Go map keyed by origin ID is an extensional tree map, whose keys
are listed in ascending order. Counters that only report progress are natural
numbers; the totals and times that are printed into the cursor are 64-bit.
`LastSortValues` is written by nothing and left out.
-/

namespace FederatedCursor

open JsonValue StacItem

structure OriginCursor where
  id : String
  nextToken : String := ""
  nextURL : String := ""
  nextBody : String := ""
  offset : Int := 0
  adapterName : String := ""
  exhausted : Bool := false
  error : Bool := false
  errorCount : Nat := 0
  itemCount : Nat := 0
  /-- As it is serialized; nothing reads it back. -/
  lastSortValue : Option Json := none
  stash : List (Option Item) := []

/-- `map[string]*OriginCursor`; the proxy never stores a nil pointer in it. -/
abbrev OriginMap := Std.ExtTreeMap String OriginCursor

structure Cursor where
  version : Nat
  queryHash : String
  principalHash : String
  origins : OriginMap
  totalReturned : Int64 := 0
  createdAt : Int64
  expiresAt : Int64
  prevCursor : String := ""
  firstCursor : String := ""
  pageSeq : Nat := 0

def currentCursorVersion : Nat := 2

/-- `DefaultCursorConfig().DefaultTTL` in seconds. -/
def defaultTTL : Int64 := 3600

def newFederatedCursor (queryHash principalHash : String) (originIDs : List String)
    (now : Int64) : Cursor where
  version := currentCursorVersion
  queryHash := queryHash
  principalHash := principalHash
  origins := originIDs.foldl (fun m id => m.insert id { id := id }) ∅
  createdAt := now
  expiresAt := now + defaultTTL

def maxOriginErrorRetries : Nat := 3

/-- The origin failed on `maxOriginErrorRetries` pages. -/
def OriginCursor.retired (oc : OriginCursor) : Bool :=
  oc.error && decide (maxOriginErrorRetries ≤ oc.errorCount)

/-- A stash always counts; beyond it only origins that can still be fetched. -/
def OriginCursor.hasMore (oc : OriginCursor) : Bool :=
  !oc.stash.isEmpty || (!oc.retired && !oc.exhausted)

def Cursor.hasMore (c : Cursor) : Bool :=
  c.origins.toList.any (fun entry => entry.2.hasMore)

def Cursor.activeOrigins (c : Cursor) : List String :=
  (c.origins.toList.filter (fun entry => entry.2.hasMore)).map (·.1)

def OriginCursor.markError (oc : OriginCursor) : OriginCursor :=
  { oc with error := true, errorCount := oc.errorCount + 1 }

def Cursor.markError (c : Cursor) (originID : String) : Cursor :=
  { c with origins := c.origins.modify originID OriginCursor.markError }

structure OriginUpdate where
  itemCount : Nat
  nextToken : String
  nextURL : String
  nextBody : String
  offset : Int := 0
  adapterName : String
  lastSortValue : Option Json

/-- The writes of `UpdateOriginState` to one origin. -/
def OriginCursor.update (oc : OriginCursor) (u : OriginUpdate) : OriginCursor :=
  { oc with
    itemCount := oc.itemCount + u.itemCount
    nextToken := u.nextToken
    nextURL := u.nextURL
    nextBody := u.nextBody
    offset := u.offset
    lastSortValue := u.lastSortValue
    error := false
    errorCount := 0
    adapterName := if u.adapterName ≠ "" then u.adapterName else oc.adapterName
    exhausted := oc.exhausted ||
      decide (u.nextToken = "" ∧ u.nextURL = "" ∧ u.offset = 0 ∧ u.nextBody = "") }

def Cursor.updateOriginState (c : Cursor) (originID : String) (u : OriginUpdate) : Cursor :=
  { c with
    origins := c.origins.alter originID fun oc => some ((oc.getD { id := originID }).update u) }

def Cursor.setStash (c : Cursor) (originID : String) (stash : List (Option Item)) : Cursor :=
  { c with origins := c.origins.modify originID fun oc => { oc with stash := stash } }

/-- `Clone` builds every origin afresh and leaves `ErrorCount` at zero. -/
def OriginCursor.clone (oc : OriginCursor) : OriginCursor where
  id := oc.id
  nextToken := oc.nextToken
  nextURL := oc.nextURL
  nextBody := oc.nextBody
  offset := oc.offset
  adapterName := oc.adapterName
  exhausted := oc.exhausted
  error := oc.error
  itemCount := oc.itemCount
  lastSortValue := oc.lastSortValue
  stash := oc.stash

def Cursor.clone (c : Cursor) : Cursor :=
  { c with origins := c.origins.map fun _ oc => oc.clone }

section Lookups
variable (c : Cursor) (originID : String)

theorem origins_markError (id : String) :
    (c.markError originID).origins[id]? =
      if originID = id then (c.origins[id]?).map OriginCursor.markError else c.origins[id]? := by
  by_cases same : originID = id
  · simp [Cursor.markError, same]
  · simp [Cursor.markError, Std.ExtTreeMap.getElem?_modify, same]

theorem origins_clone (id : String) :
    c.clone.origins[id]? = (c.origins[id]?).map OriginCursor.clone := by
  simp [Cursor.clone]

theorem origins_newFederatedCursor (queryHash principalHash : String) (originIDs : List String)
    (now : Int64) (id : String) :
    (newFederatedCursor queryHash principalHash originIDs now).origins[id]? =
      if id ∈ originIDs then some { id := id } else none := by
  ext oc
  rw [newFederatedCursor, KeyedMap.getElem?_eq_some_iff (by rintro a - b - rfl; rfl)]
  by_cases listed : id ∈ originIDs
  · rw [if_pos listed, Option.some.injEq]
    constructor
    · rintro ⟨_, -, rfl, rfl⟩
      rfl
    · rintro rfl
      exact ⟨id, listed, rfl, rfl⟩
  · rw [if_neg listed]
    simp only [reduceCtorEq, iff_false]
    rintro ⟨_, member, rfl, -⟩
    exact listed member

variable {c originID}

theorem mem_activeOrigins :
    originID ∈ c.activeOrigins ↔ ∃ oc, c.origins[originID]? = some oc ∧ oc.hasMore := by
  simp only [Cursor.activeOrigins, List.mem_map, List.mem_filter, Prod.exists,
    exists_and_right, exists_eq_right, Std.ExtTreeMap.mem_toList_iff_getElem?_eq_some]

theorem activeOrigins_nodup : c.activeOrigins.Nodup := by
  have distinct : (c.origins.toList.map (·.1)).Nodup := by
    rw [Std.ExtTreeMap.map_fst_toList_eq_keys]
    exact Std.ExtTreeMap.nodup_keys
  exact distinct.sublist (List.filter_sublist.map _)

theorem activeOrigins_sorted : c.activeOrigins.Pairwise (· < ·) := by
  have sorted := KeyedMap.keys_sorted c.origins
  rw [← Std.ExtTreeMap.map_fst_toList_eq_keys] at sorted
  exact sorted.sublist (List.filter_sublist.map _)

theorem hasMore_iff :
    c.hasMore ↔ ∃ (id : String) (oc : OriginCursor), c.origins[id]? = some oc ∧ oc.hasMore := by
  simp only [Cursor.hasMore, List.any_eq_true, Prod.exists,
    Std.ExtTreeMap.mem_toList_iff_getElem?_eq_some]

theorem hasMore_iff_activeOrigins : c.hasMore ↔ c.activeOrigins ≠ [] := by
  rw [hasMore_iff]
  constructor
  · rintro ⟨id, oc, found, more⟩
    exact List.ne_nil_of_mem (mem_activeOrigins.mpr ⟨oc, found, more⟩)
  · intro nonempty
    obtain ⟨id, hid⟩ := List.exists_mem_of_ne_nil _ nonempty
    obtain ⟨oc, found, more⟩ := mem_activeOrigins.mp hid
    exact ⟨id, oc, found, more⟩

end Lookups

end FederatedCursor
