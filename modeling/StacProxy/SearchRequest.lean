import StacProxy.JsonValue

/-!
# STAC API search requests

`stac.SearchRequest` with every field the proxy forwards, hashes or uses to
carry pagination state. The last three fields are transport-private: they are
not serialized upstream. A nil slice, map or pointer is the empty list or `none`.
-/

namespace SearchRequest

open JsonValue

structure SortSpec where
  field : String
  direction : String
  deriving DecidableEq, Repr

structure FieldsSpec where
  includes : List String := []
  excludes : List String := []
  deriving DecidableEq, Repr

structure Request where
  collections : List String := []
  ids : List String := []
  bbox : List ℚ := []
  /-- A raw JSON geometry. -/
  intersects : Option Json := none
  datetime : String := ""
  limit : Int := 0
  cursor : String := ""
  token : String := ""
  next : String := ""
  sortby : List SortSpec := []
  filter : Option Json := none
  filterLang : String := ""
  filterCRS : String := ""
  query : Members := []
  fields : Option FieldsSpec := none
  overrideURL : String := ""
  overrideBody : String := ""
  adapterName : String := ""
  deriving Inhabited

/-- The data `hashSearchRequest` digests. Pagination fields are left out, and so
is `fields`. -/
structure HashedQuery where
  collections : List String
  ids : List String
  bbox : List ℚ
  intersects : Option Json
  datetime : String
  limit : Int
  filter : Option Json
  filterLang : String
  filterCRS : String
  query : Members
  sortby : List SortSpec

def hashedQuery (req : Request) : HashedQuery where
  collections := req.collections
  ids := req.ids
  bbox := req.bbox
  intersects := req.intersects
  datetime := req.datetime
  limit := req.limit
  filter := req.filter
  filterLang := req.filterLang
  filterCRS := req.filterCRS
  query := req.query
  sortby := req.sortby

end SearchRequest
