import StacProxy.PageAdapter
import StacProxy.QueryHash
import StacProxy.RequestPath
import StacProxy.Utf8Text

/-!
# Search requests of query strings

`parseSearchFromQuery` reads a search request from the parameters of a GET request. Values are
byte strings, as `URL.Query` has them: they need not be text. Malformed numbers and geometries
are errors that name their parameter; of the error below, only the call it came from is kept.

Floating-point numbers, JSON and geometries are read by functions that enter as parameters.
-/

namespace SearchQuery

open JsonValue PercentCoding RequestPath QueryHash

/-! ## Trimming -/

/-- The characters of `unicode.IsSpace` as they are encoded. -/
def spaces : List Bytes :=
  ([9, 10, 11, 12, 13, 32, 0x85, 0xA0, 0x1680] ++ List.range' 0x2000 11 ++
    [0x2028, 0x2029, 0x202F, 0x205F, 0x3000]).map fun code =>
      String.utf8EncodeChar (Char.ofNat code)

/-- Take marks off the front, at most as many as given. -/
def trimFront (marks : List Bytes) : Nat → Bytes → Bytes
  | 0, text => text
  | n + 1, text => match marks.find? (·.isPrefixOf text) with
    | some mark => trimFront marks n (text.drop mark.length)
    | none => text

/-- `strings.TrimSpace`. No mark is empty, so the length of a text bounds their number. -/
def trimSpace (text : Bytes) : Bytes :=
  let front := trimFront spaces text.length text
  (trimFront (spaces.map List.reverse) front.length front.reverse).reverse

/-! ## Requests -/

inductive Direction where
  | asc
  | desc
  deriving DecidableEq, Repr

structure SortKey where
  field : Bytes
  direction : Direction
  deriving DecidableEq, Repr

structure FieldNames where
  includes : List Bytes
  excludes : List Bytes
  deriving DecidableEq, Repr

/-- What a query can set of a search request. A nil slice, pointer or interface is `none`. -/
structure QueryRequest where
  collections : Option (List Bytes)
  ids : Option (List Bytes)
  bbox : Option (List Coordinate)
  datetime : Bytes
  limit : Int
  token : Bytes
  cursor : Bytes
  next : Bytes
  fields : Option FieldNames
  /-- The raw geometry; empty if there is none. -/
  intersects : Bytes
  filter : Option Bytes
  filterLang : Bytes
  sortby : Option (List SortKey)
  deriving DecidableEq

/-- Where an error came from. -/
inductive Cause where
  | float
  | components (n : Nat)
  | integer
  | json
  | geometry
  deriving DecidableEq, Repr

structure ParseError where
  param : String
  value : Bytes
  err : Cause
  deriving DecidableEq, Repr

structure Library where
  /-- `strconv.ParseFloat` -/
  parseFloat : Bytes → Option Coordinate
  /-- `json.Unmarshal` -/
  unmarshal : Bytes → Option Json
  /-- `geo.ParseGeoJSON` reports no error. -/
  parseGeoJSON : Bytes → Bool

/-! ## Parameters -/

section Parameters

/-- `strings.Split` at commas, of a parameter that is given. -/
def splitParameter (text : Bytes) : Option (List Bytes) :=
  if text = [] then none else some (text.splitOn 44)

/-- `strconv.Atoi`. A byte that is no digit or sign is an error, whatever it stands for. -/
def atoi (text : Bytes) : Option Int :=
  PageAdapter.atoi (String.ofList (text.map fun b => Char.ofNat b.toNat))

def parseLimit (text : Bytes) : Except ParseError Int :=
  if text = [] then .ok 0
  else match atoi (trimSpace text) with
    | some limit => .ok limit
    | none => .error ⟨"limit", text, .integer⟩

/-- A field to include on the left, one to exclude on the right. -/
def shorthandField (part : Bytes) : Option (Bytes ⊕ Bytes) :=
  match trimSpace part with
  | [] => none
  | sign :: rest =>
    if sign = 45 then if trimSpace rest = [] then none else some (.inr (trimSpace rest))
    else if sign = 43 then if trimSpace rest = [] then none else some (.inl (trimSpace rest))
    else some (.inl (sign :: rest))

def parseFieldsShorthand (raw : Bytes) : Option FieldNames :=
  let named := (raw.splitOn 44).filterMap shorthandField
  if named = [] then none
  else some ⟨named.filterMap Sum.getLeft?, named.filterMap Sum.getRight?⟩

def sortKey (text : Bytes) : SortKey :=
  match text with
  | 45 :: field => ⟨field, .desc⟩
  | 43 :: field => ⟨field, .asc⟩
  | field => ⟨field, .asc⟩

variable (lib : Library)

def parseCoordinate (text : Bytes) : Except ParseError Coordinate :=
  match lib.parseFloat (trimSpace text) with
  | some coordinate => .ok coordinate
  | none => .error ⟨"bbox", trimSpace text, .float⟩

def parseBBox (text : Bytes) : Except ParseError (Option (List Coordinate)) :=
  if text = [] then .ok none
  else do
    let coords ← (text.splitOn 44).mapM (parseCoordinate lib)
    if coords.length ≠ 4 ∧ coords.length ≠ 6 then
      .error ⟨"bbox", text, .components coords.length⟩
    else .ok (some coords)

/-- The probe is a map, which `null` can be read into. -/
def parseIntersects (text : Bytes) : Except ParseError Bytes :=
  if text = [] then .ok []
  else match lib.unmarshal text with
    | some (.obj _) | some .null =>
      if lib.parseGeoJSON text then .ok text else .error ⟨"intersects", text, .geometry⟩
    | _ => .error ⟨"intersects", text, .json⟩

/-- The language is read only along with a filter. -/
def filterLang (filter lang : Bytes) : Bytes :=
  if filter = [] then [] else if lang = [] then bytes "cql2-text" else lang

def parseSearchFromQuery (values : List (Bytes × Bytes)) : Except ParseError QueryRequest := do
  let get (name : String) := queryGet values (bytes name)
  let bbox ← parseBBox lib (get "bbox")
  let limit ← parseLimit (get "limit")
  let intersects ← parseIntersects lib (get "intersects")
  return {
    collections := splitParameter (get "collections")
    ids := splitParameter (get "ids")
    bbox := bbox
    datetime := get "datetime"
    limit := limit
    token := get "token"
    cursor := get "cursor"
    next := get "next"
    fields := if get "fields" = [] then none else parseFieldsShorthand (get "fields")
    intersects := intersects
    filter := if get "filter" = [] then none else some (get "filter")
    filterLang := filterLang (get "filter") (get "filter-lang")
    sortby := (splitParameter (get "sortby")).map (·.map sortKey) }

end Parameters

/-! ## The hash of a request -/

section Hash

/-- A byte string as JSON has it. -/
def text (value : Bytes) : String :=
  (String.fromUTF8? ⟨(Utf8Text.coerce value).toArray⟩).getD ""

def Direction.text : Direction → String
  | .asc => "asc"
  | .desc => "desc"

/-- The request as it is encoded. -/
def QueryRequest.raw (unmarshal : Bytes → Option Json) (req : QueryRequest) : RawRequest where
  collections := req.collections.map (·.map text)
  ids := req.ids.map (·.map text)
  bbox := req.bbox
  intersects := if req.intersects = [] then .absent else match unmarshal req.intersects with
    | some value => .json value
    | none => .malformed (text req.intersects)
  datetime := text req.datetime
  limit := req.limit
  cursor := text req.cursor
  token := text req.token
  next := text req.next
  sortby := req.sortby.map (·.map fun key => ⟨text key.field, key.direction.text⟩)
  filter := (req.filter.map fun filter => .str (text filter)).getD .null
  filterLang := text req.filterLang
  fields := req.fields.map fun names => ⟨names.includes.map text, names.excludes.map text⟩

/-- The page sizes of the handler. -/
structure PageSizes where
  defaultPageSize : Int
  maxPageSize : Int

/-- The limit is bounded before anything else reads it. -/
def PageSizes.limited (sizes : PageSizes) (req : QueryRequest) : QueryRequest :=
  let limit := if req.limit ≤ 0 then sizes.defaultPageSize else req.limit
  { req with limit := if sizes.maxPageSize < limit then sizes.maxPageSize else limit }

/-- What `handleSearch` gives to the searcher: the pagination fields are reset. -/
def PageSizes.hashReq (sizes : PageSizes) (req : QueryRequest) : QueryRequest :=
  { sizes.limited req with cursor := [], token := [] }

def QueryRequest.cursorStr (req : QueryRequest) : Bytes :=
  if req.cursor = [] then req.token else req.cursor

/-- How the searcher makes and reads the hashes of cursors. -/
structure Hashing (Digest : Type) where
  empty : Bytes
  marshal : Json → Bytes
  sum256 : Bytes → Digest
  /-- The hash in a cursor, if the cursor is accepted otherwise. -/
  cursorHash : Bytes → Option Digest

variable {Digest : Type} (lib : Library) (hashing : Hashing Digest) (sizes : PageSizes)

def queryHash (req : QueryRequest) : Digest :=
  hashSearchRequest hashing.empty hashing.marshal hashing.sum256
    ((sizes.hashReq req).raw lib.unmarshal)

/-- The hash does not depend on the pagination fields. -/
theorem queryHash_paged (req : QueryRequest) (token cursor : Bytes) :
    queryHash lib hashing sizes { req with token, cursor } = queryHash lib hashing sizes req := rfl

variable [DecidableEq Digest]

/-- The hash in the cursor of the next page: that of the request for a first page, and that of
the cursor presented for a later one, which has to be the same. -/
def mintedHash (req : QueryRequest) : Option Digest :=
  if req.cursorStr = [] then some (queryHash lib hashing sizes req)
  else (hashing.cursorHash req.cursorStr).filter (· = queryHash lib hashing sizes req)

theorem mintedHash_eq {req : QueryRequest} {digest : Digest}
    (minted : mintedHash lib hashing sizes req = some digest) :
    digest = queryHash lib hashing sizes req := by
  unfold mintedHash at minted
  split at minted
  · exact (Option.some.inj minted).symm
  · simpa using (Option.filter_eq_some_iff.mp minted).2

end Hash

/-- The parameters of pagination do not affect the rest of the request. -/
theorem parseSearchFromQuery_of_agree (lib : Library) {values values' : List (Bytes × Bytes)}
    (agree : ∀ name, name ≠ bytes "token" → name ≠ bytes "cursor" →
      queryGet values' name = queryGet values name) :
    parseSearchFromQuery lib values' = (parseSearchFromQuery lib values).map fun req =>
      { req with
        token := queryGet values' (bytes "token")
        cursor := queryGet values' (bytes "cursor") } := by
  have others : ∀ name ∈ ["bbox", "limit", "intersects", "collections", "ids", "datetime", "next",
      "fields", "filter", "filter-lang", "sortby"],
      bytes name ≠ bytes "token" ∧ bytes name ≠ bytes "cursor" := by
    decide +kernel
  have same : ∀ name ∈ ["bbox", "limit", "intersects", "collections", "ids", "datetime", "next",
      "fields", "filter", "filter-lang", "sortby"],
      queryGet values' (bytes name) = queryGet values (bytes name) :=
    fun name member => agree _ (others name member).1 (others name member).2
  simp only [List.forall_mem_cons, List.not_mem_nil, false_imp_iff, implies_true, and_true] at same
  obtain ⟨bbox, limit, intersects, collections, ids, datetime, next, fields, filter, lang,
    sortby⟩ := same
  simp only [parseSearchFromQuery, bbox, limit, intersects, collections, ids, datetime, next,
    fields, filter, lang, sortby]
  cases parseBBox lib (queryGet values (bytes "bbox")) with
  | error e => rfl
  | ok coords =>
    cases parseLimit (queryGet values (bytes "limit")) with
    | error e => rfl
    | ok bound =>
      cases parseIntersects lib (queryGet values (bytes "intersects")) with
      | error e | ok geometry => rfl

end SearchQuery
