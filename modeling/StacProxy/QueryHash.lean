import Mathlib.Data.Rat.Defs
import Mathlib.Data.List.Basic
import Mathlib.Logic.Function.Basic
import StacProxy.OriginClient

/-!
# The hash of a query

A cursor is bound to its query by `hashSearchRequest`: a digest of the JSON text of a record
that lists the fields of the request by hand. Requests are taken here as the source has them,
so that a nil slice differs from an empty one, a coordinate need not be a finite number and a
raw geometry need not be JSON. A request that JSON cannot encode has the digest of the empty
text, because the error is dropped; and the record leaves out `Fields` and `Next`, which are
sent to the origins.

Byte strings and digests enter as any types; a JSON text stands for its value.
-/

namespace QueryHash

open JsonValue SearchRequest

/-- A floating-point number. -/
inductive Coordinate where
  | finite (value : ℚ)
  | nan
  | inf (negative : Bool)
deriving DecidableEq

/-- Text of a request body that was kept as it is. -/
inductive RawMessage where
  | absent
  | json (value : Json)
  | malformed (text : String)

/-- A search request with its slices, maps and pointers: `none` is nil. A nil filter is
`null`. -/
structure RawRequest where
  collections : Option (List String) := none
  ids : Option (List String) := none
  bbox : Option (List Coordinate) := none
  intersects : RawMessage := .absent
  datetime : String := ""
  limit : Int := 0
  cursor : String := ""
  token : String := ""
  next : String := ""
  sortby : Option (List SortSpec) := none
  filter : Json := .null
  filterLang : String := ""
  filterCRS : String := ""
  query : Option Members := none
  fields : Option FieldsSpec := none

/-! ## Encoding -/

/-- What a raw message is encoded as: nil as `null`, and only JSON at all. -/
def RawMessage.value : RawMessage → Except String Json
  | .absent => .ok .null
  | .json value => .ok value
  | .malformed text => .error text

/-- The record that is hashed. -/
structure Hashed where
  collections : Option (List String)
  ids : Option (List String)
  bbox : Option (List Coordinate)
  intersects : Except String Json
  datetime : String
  limit : Int
  filter : Json
  filterLang : String
  filterCRS : String
  query : Option Members
  sortby : Option (List SortSpec)

def hashed (r : RawRequest) : Hashed where
  collections := r.collections
  ids := r.ids
  bbox := r.bbox
  intersects := r.intersects.value
  datetime := r.datetime
  limit := r.limit
  filter := r.filter
  filterLang := r.filterLang
  filterCRS := r.filterCRS
  query := r.query
  sortby := r.sortby

def Coordinate.encode : Coordinate → Option Json
  | .finite value => some (.num value)
  | _ => none

def encodeSlice {α : Type} (encode : α → Json) (slice : Option (List α)) : Json :=
  (slice.map fun elems => .arr (elems.map encode)).getD .null

def encodeBBox : Option (List Coordinate) → Option Json
  | none => some .null
  | some coords => (coords.mapM Coordinate.encode).map .arr

def Hashed.members (h : Hashed) (bbox intersects : Json) : Members := [
  ("collections", encodeSlice .str h.collections),
  ("ids", encodeSlice .str h.ids),
  ("bbox", bbox),
  ("intersects", intersects),
  ("datetime", .str h.datetime),
  ("limit", .num h.limit),
  ("filter", h.filter),
  ("filter_lang", .str h.filterLang),
  ("filter_crs", .str h.filterCRS),
  ("query", (h.query.map .obj).getD .null),
  ("sortby", encodeSlice OriginClient.sortSpecJson h.sortby)]

/-- `json.Marshal`. -/
def Hashed.marshal (h : Hashed) : Option Json :=
  (encodeBBox h.bbox).bind fun bbox =>
    h.intersects.toOption.map fun intersects => .obj (h.members bbox intersects)

section Hash
variable {Bytes Digest : Type} (empty : Bytes) (text : Json → Bytes) (sum256 : Bytes → Digest)

/-- The error of the encoder is dropped. -/
def hashSearchRequest (r : RawRequest) : Digest :=
  sum256 (((hashed r).marshal.map text).getD empty)

end Hash

/-- JSON can encode the record: its coordinates are finite and its geometry is JSON. -/
def Hashed.Encodable (h : Hashed) : Prop :=
  (∀ coords, h.bbox = some coords → ∀ c ∈ coords, ∃ value, c = .finite value) ∧
    ∃ geometry, h.intersects = .ok geometry

/-! ## What is sent -/

/-- The fields of the request that `fetchFromOrigins` sends to an origin, apart from `Limit`,
`Token` and `Cursor`; an absent field is an empty one. -/
structure Sent where
  collections : List String
  ids : List String
  bbox : List Coordinate
  intersects : Except String Json
  datetime : String
  next : String
  sortby : List SortSpec
  filter : Json
  filterLang : String
  filterCRS : String
  query : Members
  fields : FieldsSpec

def sent (r : RawRequest) : Sent where
  collections := r.collections.getD []
  ids := r.ids.getD []
  bbox := r.bbox.getD []
  intersects := r.intersects.value
  datetime := r.datetime
  next := r.next
  sortby := r.sortby.getD []
  filter := r.filter
  filterLang := r.filterLang
  filterCRS := r.filterCRS
  query := r.query.getD []
  fields := r.fields.getD {}

section Injectivity
variable {h h' : Hashed}

theorem encodeSlice_injective {α : Type} {encode : α → Json} (injective : Function.Injective encode) :
    Function.Injective (encodeSlice encode) := by
  intro a b same
  cases a <;> cases b <;> simp [encodeSlice] at same ⊢
  exact List.map_injective_iff.mpr injective same

theorem sortSpecJson_injective : Function.Injective OriginClient.sortSpecJson := by
  rintro ⟨field, direction⟩ ⟨field', direction'⟩ same
  simpa [OriginClient.sortSpecJson] using same

/-- What is encoded of a list of coordinates tells the list. -/
theorem mapM_encode_eq_some {coords : List Coordinate} {values : List Json}
    (encoded : coords.mapM Coordinate.encode = some values) :
    ∃ numbers : List ℚ, coords = numbers.map .finite ∧ values = numbers.map .num := by
  induction coords generalizing values with
  | nil =>
    obtain rfl : values = [] := by simpa using encoded.symm
    exact ⟨[], rfl, rfl⟩
  | cons c rest ih =>
    rw [List.mapM_cons] at encoded
    obtain ⟨first, head, others⟩ := Option.bind_eq_some_iff.mp encoded
    obtain ⟨later, tail, whole⟩ := Option.bind_eq_some_iff.mp others
    obtain ⟨numbers, rfl, rfl⟩ := ih tail
    cases c with
    | finite value =>
      cases head
      cases whole
      exact ⟨value :: numbers, rfl, rfl⟩
    | nan | inf negative => cases head

theorem mapM_encode_isSome {coords : List Coordinate} :
    (coords.mapM Coordinate.encode).isSome ↔ ∀ c ∈ coords, ∃ value, c = .finite value := by
  constructor
  · intro encoded
    obtain ⟨values, found⟩ := Option.isSome_iff_exists.mp encoded
    obtain ⟨numbers, rfl, -⟩ := mapM_encode_eq_some found
    simp
  · intro finite
    induction coords with
    | nil => rfl
    | cons c rest ih =>
      obtain ⟨value, rfl⟩ := finite c List.mem_cons_self
      have later := ih fun c member => finite c (List.mem_cons_of_mem _ member)
      obtain ⟨values, found⟩ := Option.isSome_iff_exists.mp later
      simp [List.mapM_cons, found, Coordinate.encode]

theorem encodeBBox_isSome {bbox : Option (List Coordinate)} :
    (encodeBBox bbox).isSome ↔
      ∀ coords, bbox = some coords → ∀ c ∈ coords, ∃ value, c = .finite value := by
  cases bbox with
  | none => simp [encodeBBox]
  | some coords => simp [encodeBBox, mapM_encode_isSome]

theorem encodeBBox_eq {bbox bbox' : Option (List Coordinate)} {json : Json}
    (first : encodeBBox bbox = some json) (second : encodeBBox bbox' = some json) :
    bbox = bbox' := by
  cases bbox <;> cases bbox' <;> simp only [encodeBBox, Option.map_eq_some_iff] at first second
  · rfl
  · obtain ⟨values, -, rfl⟩ := second
    cases first
  · obtain ⟨values, -, rfl⟩ := first
    cases second
  · obtain ⟨values, encoded, rfl⟩ := first
    obtain ⟨values', encoded', same⟩ := second
    cases same
    obtain ⟨numbers, rfl, rfl⟩ := mapM_encode_eq_some encoded
    obtain ⟨numbers', rfl, same⟩ := mapM_encode_eq_some encoded'
    have numbers_eq : numbers = numbers' :=
      List.map_injective_iff.mpr (fun a b => Json.num.inj) same
    rw [numbers_eq]

theorem marshal_eq_some_iff {json : Json} :
    h.marshal = some json ↔ ∃ bbox geometry, encodeBBox h.bbox = some bbox ∧
      h.intersects = .ok geometry ∧ json = .obj (h.members bbox geometry) := by
  unfold Hashed.marshal
  rw [Option.bind_eq_some_iff]
  cases h.intersects with
  | error message => simp [Except.toOption]
  | ok geometry => simp [Except.toOption, eq_comm]

theorem marshal_isSome : h.marshal.isSome ↔ h.Encodable := by
  unfold Hashed.Encodable
  rw [← encodeBBox_isSome, Option.isSome_iff_exists, Option.isSome_iff_exists]
  constructor
  · rintro ⟨json, encoded⟩
    obtain ⟨bbox, geometry, first, second, -⟩ := marshal_eq_some_iff.mp encoded
    exact ⟨⟨bbox, first⟩, geometry, second⟩
  · rintro ⟨⟨bbox, first⟩, geometry, second⟩
    exact ⟨_, marshal_eq_some_iff.mpr ⟨bbox, geometry, first, second, rfl⟩⟩

/-- The text of a record tells the record. -/
theorem eq_of_marshal_eq {json : Json} (first : h.marshal = some json)
    (second : h'.marshal = some json) : h = h' := by
  obtain ⟨bbox, geometry, encoded, valid, rfl⟩ := marshal_eq_some_iff.mp first
  obtain ⟨bbox', geometry', encoded', valid', same⟩ := marshal_eq_some_iff.mp second
  simp only [Hashed.members, Json.obj.injEq, List.cons.injEq, Prod.mk.injEq, true_and, and_true,
    Json.str.injEq, Json.num.injEq, Int.cast_inj] at same
  obtain ⟨collections, ids, rfl, rfl, datetime, limit, filter, filterLang, filterCRS, query,
    sortby⟩ := same
  have same_collections := encodeSlice_injective (fun a b => Json.str.inj) collections
  have same_ids := encodeSlice_injective (fun a b => Json.str.inj) ids
  have same_sortby := encodeSlice_injective sortSpecJson_injective sortby
  have same_bbox := encodeBBox_eq encoded encoded'
  have same_query : h.query = h'.query := by
    cases first : h.query <;> cases second : h'.query <;> simp_all
  cases h
  cases h'
  simp_all

end Injectivity

/-! ## Equal hashes -/

section Binding
variable {Bytes Digest : Type} {empty : Bytes} {text : Json → Bytes} {sum256 : Bytes → Digest}
  {r r' : RawRequest}

/-- Hashes are equal for equal records, and for all records that JSON cannot encode. -/
theorem hash_eq_iff (text_injective : Function.Injective text)
    (text_ne_empty : ∀ json, text json ≠ empty) (sum256_injective : Function.Injective sum256) :
    hashSearchRequest empty text sum256 r = hashSearchRequest empty text sum256 r' ↔
      ¬ (hashed r).Encodable ∧ ¬ (hashed r').Encodable ∨
        (hashed r).Encodable ∧ hashed r = hashed r' := by
  unfold hashSearchRequest
  rw [sum256_injective.eq_iff, ← marshal_isSome, ← marshal_isSome]
  cases first : (hashed r).marshal with
  | none =>
    cases second : (hashed r').marshal with
    | none => simp
    | some json => simp [(text_ne_empty json).symm]
  | some json =>
    cases second : (hashed r').marshal with
    | none =>
      have differ : hashed r ≠ hashed r' := by
        intro same
        rw [same, second] at first
        cases first
      simp [text_ne_empty json, differ]
    | some json' =>
      have encoded : json = json' ↔ hashed r = hashed r' := by
        constructor
        · rintro rfl
          exact eq_of_marshal_eq first second
        · intro same
          rw [same, second] at first
          exact (Option.some.inj first).symm
      simp [text_injective.eq_iff, encoded]

/-- Requests with one record differ in what is sent only by what the record leaves out. -/
theorem sent_eq_iff_of_hashed_eq (same : hashed r = hashed r') :
    sent r = sent r' ↔ r.next = r'.next ∧ r.fields.getD {} = r'.fields.getD {} := by
  obtain ⟨collections, ids, bbox, intersects, datetime, -, filter, filterLang, filterCRS, query,
    sortby⟩ : r.collections = r'.collections ∧ r.ids = r'.ids ∧ r.bbox = r'.bbox ∧
      r.intersects.value = r'.intersects.value ∧ r.datetime = r'.datetime ∧ r.limit = r'.limit ∧
      r.filter = r'.filter ∧ r.filterLang = r'.filterLang ∧ r.filterCRS = r'.filterCRS ∧
      r.query = r'.query ∧ r.sortby = r'.sortby := by simpa [hashed] using same
  simp [sent, collections, ids, bbox, intersects, datetime, filter, filterLang, filterCRS, query,
    sortby]

/-- Equal hashes mean that the same is sent exactly for these requests: if the records are
equal and can be encoded, `Next` and `Fields` have to agree; and if neither record can be
encoded, everything has to. -/
theorem hash_binds_iff (text_injective : Function.Injective text)
    (text_ne_empty : ∀ json, text json ≠ empty) (sum256_injective : Function.Injective sum256)
    (r r' : RawRequest) :
    (hashSearchRequest empty text sum256 r = hashSearchRequest empty text sum256 r' →
      sent r = sent r') ↔
      ((hashed r).Encodable → hashed r = hashed r' →
        r.next = r'.next ∧ r.fields.getD {} = r'.fields.getD {}) ∧
      (¬ (hashed r).Encodable → ¬ (hashed r').Encodable → sent r = sent r') := by
  rw [hash_eq_iff text_injective text_ne_empty sum256_injective]
  constructor
  · intro bound
    constructor
    · intro encodable same
      exact (sent_eq_iff_of_hashed_eq same).mp (bound (.inr ⟨encodable, same⟩))
    · intro first second
      exact bound (.inl ⟨first, second⟩)
  · rintro ⟨left_out, unencodable⟩ (⟨first, second⟩ | ⟨encodable, same⟩)
    · exact unencodable first second
    · exact (sent_eq_iff_of_hashed_eq same).mpr (left_out encodable same)

end Binding

/-- Two pages of one search. -/
theorem hash_binds_pages :
    hashSearchRequest none some id { collections := some ["a"], token := "t" } =
        hashSearchRequest none some id { collections := some ["a"], cursor := "c" } ∧
      sent { collections := some ["a"], token := "t" } =
        sent { collections := some ["a"], cursor := "c" } := by
  refine ⟨rfl, (hash_binds_iff (Option.some_injective Json) (fun _ => Option.some_ne_none _)
    Function.injective_id _ _).mpr ⟨fun _ _ => ⟨rfl, rfl⟩, fun lost => ?_⟩ rfl⟩
  exact absurd ⟨nofun, .null, rfl⟩ lost

def sampleHash : RawRequest → Option Json := hashSearchRequest none some id

def selected : RawRequest := { fields := some { includes := ["id"] } }

def pointed : RawRequest := { next := "p2" }

def boxed (collection : String) : RawRequest :=
  { collections := some [collection], bbox := some [.nan, .nan, .nan, .nan] }

/-- One hash, and different requests to the origins: with and without a selection of fields,
with and without an upstream's own page pointer, and for different collections where a
coordinate is not a number. -/
theorem hash_collisions :
    (sampleHash selected = sampleHash {} ∧ sent selected ≠ sent {}) ∧
    (sampleHash pointed = sampleHash {} ∧ sent pointed ≠ sent {}) ∧
    (sampleHash (boxed "a") = sampleHash (boxed "b") ∧ sent (boxed "a") ≠ sent (boxed "b")) := by
  refine ⟨⟨rfl, ?_⟩, ⟨rfl, ?_⟩, rfl, ?_⟩
  · intro same
    exact absurd (congrArg Sent.fields same) (by decide)
  · intro same
    exact absurd (congrArg Sent.next same) (by decide)
  · intro same
    exact absurd (congrArg Sent.collections same) (by decide)

/-! ## Requests with finite coordinates -/

/-- A request whose coordinates are numbers, with nil for what is empty. -/
def ofRequest (req : Request) : RawRequest where
  collections := if req.collections = [] then none else some req.collections
  ids := if req.ids = [] then none else some req.ids
  bbox := if req.bbox = [] then none else some (req.bbox.map .finite)
  intersects := match req.intersects with
    | none => .absent
    | some geometry => .json geometry
  datetime := req.datetime
  limit := req.limit
  cursor := req.cursor
  token := req.token
  next := req.next
  sortby := if req.sortby = [] then none else some req.sortby
  filter := req.filter.getD .null
  filterLang := req.filterLang
  filterCRS := req.filterCRS
  query := if req.query.isEmpty then none else some req.query
  fields := req.fields

/-- The hash of such a request is a digest of the query `hashedQuery` takes out of it. -/
theorem hash_ofRequest {Bytes Digest : Type} (empty : Bytes) (text : Json → Bytes)
    (sum256 : Bytes → Digest) :
    ∃ digest : HashedQuery → Digest, ∀ req : Request,
      hashSearchRequest empty text sum256 (ofRequest req) = digest (hashedQuery req) := by
  refine ⟨fun h => hashSearchRequest empty text sum256 (ofRequest
    { collections := h.collections, ids := h.ids, bbox := h.bbox, intersects := h.intersects,
      datetime := h.datetime, limit := h.limit, filter := h.filter, filterLang := h.filterLang,
      filterCRS := h.filterCRS, query := h.query, sortby := h.sortby }), ?_⟩
  intro req
  rfl

end QueryHash
