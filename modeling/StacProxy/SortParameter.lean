import StacProxy.SearchQuery

/-!
# Sort keys in a query

A GET request lists its sort keys in the parameter `sortby`, each with a sign for its direction or
without one. The query is decoded as a form before the parameter is read, so that a plus that
stands in it as it is has become a space by then.
-/

namespace SearchQuery

open PercentCoding RequestPath

section Writing

inductive Sign where
  | minus
  | plus
  | absent
deriving DecidableEq

def Sign.raw : Sign → Bytes
  | .minus => [45]
  | .plus => [43]
  | .absent => []

/-- What a sign is decoded to. -/
def Sign.decoded : Sign → Bytes
  | .plus => [32]
  | sign => sign.raw

/-- A field to sort by, whose name has no comma and does not start like a sign or with a space. -/
structure SortSpec where
  sign : Sign
  name : Bytes
  flat : 44 ∉ name
  bare : ∀ b ∈ name.head?, b ∉ [(43 : UInt8), 45, 32]

/-- The sort key that is meant. -/
def SortSpec.key (s : SortSpec) : SortKey := ⟨s.name, if s.sign = .minus then .desc else .asc⟩

/-- Percent-encoding, with a choice of the bytes that stay as they are: not the sign of an escape,
a separator of fields or a plus. -/
structure Encoding where
  keep : UInt8 → Bool
  escapes : ∀ b ∈ [percent, 38, 43, 59], keep b = false

variable (enc : Encoding)

def SortSpec.raw (s : SortSpec) : Bytes := s.sign.raw ++ escape enc.keep s.name

def SortSpec.decoded (s : SortSpec) : Bytes := s.sign.decoded ++ s.name

def rawSortby (specs : List SortSpec) : Bytes :=
  bytes "sortby" ++ 61 :: [44].intercalate (specs.map (SortSpec.raw enc))

/-- No sign is a plus, and the parameter is not empty. -/
def Readable (specs : List SortSpec) : Prop :=
  (∀ s ∈ specs, s.sign ≠ .plus) ∧ ∀ s, specs = [s] → s.sign = .absent → s.name ≠ []

end Writing

section Decoding
variable {enc : Encoding}

theorem notMem_escape {c : UInt8} (special : c ∈ [(38 : UInt8), 43, 59]) (text : Bytes) :
    c ∉ escape enc.keep text := by
  intro member
  obtain ⟨b, -, from_byte⟩ := List.mem_flatMap.mp member
  have listed : c ∈ [(38 : UInt8), 43, 59, 61] := by
    simp only [List.mem_cons] at special ⊢
    tauto
  exact notMem_escapeByte listed (enc.escapes c (List.mem_cons_of_mem _ special)) from_byte

/-- A spec is decoded on its own, whatever follows it. -/
theorem queryUnescape_raw_append (s : SortSpec) (rest : Bytes) :
    queryUnescape (s.raw enc ++ rest) = (queryUnescape rest).map fun more => s.decoded ++ more := by
  have kept : (escape enc.keep s.name).map (fun b => if b = 43 then 32 else b) =
      escape enc.keep s.name := by
    refine (List.map_congr_left fun b member => if_neg ?_).trans (List.map_id _)
    rintro rfl
    exact notMem_escape (by decide) s.name member
  have name := unescape_escape_append (enc.escapes percent (by decide)) s.name
    (rest.map fun b => if b = 43 then 32 else b)
  simp only [queryUnescape, SortSpec.raw, SortSpec.decoded, List.map_append, kept,
    List.append_assoc]
  cases s.sign with
  | absent => exact name
  | minus =>
    have sign : ([45] : Bytes).map (fun b => if b = 43 then 32 else b) = [45] := rfl
    rw [Sign.raw, sign, List.singleton_append, unescape_cons (by decide), name, Option.map_map]
    rfl
  | plus =>
    have sign : ([43] : Bytes).map (fun b => if b = 43 then 32 else b) = [32] := rfl
    rw [Sign.raw, sign, List.singleton_append, unescape_cons (by decide), name, Option.map_map]
    rfl

theorem queryUnescape_comma (rest : Bytes) :
    queryUnescape (44 :: rest) = (queryUnescape rest).map fun more => 44 :: more :=
  unescape_cons (by decide) _

theorem queryUnescape_tail (specs : List SortSpec) :
    queryUnescape ((specs.map (SortSpec.raw enc)).flatMap (44 :: ·)) =
      some ((specs.map SortSpec.decoded).flatMap (44 :: ·)) := by
  induction specs with
  | nil => rfl
  | cons s specs ih =>
    rw [List.map_cons, List.flatMap_cons, List.cons_append, queryUnescape_comma,
      queryUnescape_raw_append, ih]
    rfl

theorem queryUnescape_specs (specs : List SortSpec) :
    queryUnescape ([44].intercalate (specs.map (SortSpec.raw enc))) =
      some ([44].intercalate (specs.map SortSpec.decoded)) := by
  cases specs with
  | nil => rfl
  | cons s specs =>
    rw [List.map_cons, List.map_cons, intercalate_cons, intercalate_cons, queryUnescape_raw_append,
      queryUnescape_tail, Option.map_some]

/-- The parameter has no separator of fields. -/
theorem notMem_rawSortby {c : UInt8} (separator : c ∈ [(38 : UInt8), 59]) (specs : List SortSpec) :
    c ∉ rawSortby enc specs := by
  have special : c ∈ [(38 : UInt8), 43, 59] := by
    simp only [List.mem_cons] at separator ⊢
    tauto
  have signless : ∀ sign : Sign, c ∉ sign.raw := by
    have all : ∀ c ∈ [(38 : UInt8), 59], c ≠ 43 ∧ c ≠ 45 := by simp
    obtain ⟨plus, minus⟩ := all c separator
    intro sign
    cases sign <;> simp [Sign.raw, plus, minus]
  have named : ∀ c ∈ [(38 : UInt8), 59], c ∉ bytes "sortby" ∧ c ≠ 61 ∧ c ≠ 44 := by
    decide +kernel
  obtain ⟨name, equals, comma⟩ := named c separator
  rw [rawSortby, List.mem_append, List.mem_cons]
  rintro (member | member | member)
  · exact name member
  · exact equals member
  · obtain same | ⟨part, listed, inside⟩ := mem_of_mem_intercalate member
    · exact comma (List.mem_singleton.mp same)
    · obtain ⟨s, -, rfl⟩ := List.mem_map.mp listed
      rcases List.mem_append.mp inside with sign | text
      · exact signless s.sign sign
      · exact notMem_escape special s.name text

theorem query_rawSortby (specs : List SortSpec) : query (rawSortby enc specs) =
    [(bytes "sortby", [44].intercalate (specs.map SortSpec.decoded))] := by
  have name : queryUnescape (bytes "sortby") = some (bytes "sortby") := by decide +kernel
  have field : parseField (rawSortby enc specs) =
      some (bytes "sortby", [44].intercalate (specs.map SortSpec.decoded)) := by
    have clean : 59 ∉ rawSortby enc specs := notMem_rawSortby (by decide) specs
    rw [parseField, if_neg clean, rawSortby, cut_append (by decide +kernel), name,
      queryUnescape_specs]
    rfl
  have single : queryFields (rawSortby enc specs) = [rawSortby enc specs] := by
    have filled : rawSortby enc specs ≠ [] := by simp [rawSortby]
    rw [queryFields, List.splitOn_eq_singleton (notMem_rawSortby (by decide) specs)]
    simp [filled]
  rw [query, single, List.filterMap_cons, field]
  rfl

end Decoding

section Reading

theorem comma_notMem_decoded (s : SortSpec) : 44 ∉ s.decoded := by
  have signless : ∀ sign : Sign, 44 ∉ sign.decoded := by
    intro sign
    cases sign <;> decide
  rw [SortSpec.decoded, List.mem_append, not_or]
  exact ⟨signless s.sign, s.flat⟩

theorem sortKey_of_bare {text : Bytes} (bare : ∀ b ∈ text.head?, b ∉ [(43 : UInt8), 45, 32]) :
    sortKey text = ⟨text, .asc⟩ := by
  cases text with
  | nil => rfl
  | cons b rest =>
    have other := bare b rfl
    simp only [List.mem_cons, List.not_mem_nil, or_false, not_or] at other
    unfold sortKey
    split
    · next same => exact absurd (List.cons.inj same).1 other.2.1
    · next same => exact absurd (List.cons.inj same).1 other.1
    · rfl

/-- A plus is the one sign that is not read. -/
theorem sortKey_decoded_iff (s : SortSpec) : sortKey s.decoded = s.key ↔ s.sign ≠ .plus := by
  obtain ⟨sign, name, flat, bare⟩ := s
  cases sign with
  | minus => exact iff_of_true rfl (show Sign.minus ≠ .plus by decide)
  | absent => exact iff_of_true (sortKey_of_bare bare) (show Sign.absent ≠ .plus by decide)
  | plus =>
    refine iff_of_false (fun same => ?_) (fun ne => ne rfl)
    have longer : 32 :: name = name := congrArg SortKey.field same
    exact absurd (congrArg List.length longer) (by simp)

theorem intercalate_decoded_eq_nil_iff {specs : List SortSpec} (filled : specs ≠ []) :
    [44].intercalate (specs.map SortSpec.decoded) = [] ↔
      ∃ s, specs = [s] ∧ s.sign = .absent ∧ s.name = [] := by
  match specs with
  | [] => exact absurd rfl filled
  | [s] =>
    have single : s.decoded = [] ↔ s.sign = .absent ∧ s.name = [] := by
      rw [SortSpec.decoded, List.append_eq_nil_iff]
      refine and_congr_left fun _ => ?_
      cases s.sign <;> simp [Sign.decoded, Sign.raw]
    simpa using single
  | s :: t :: specs => simp

/-- The value of the parameter is read as it is meant exactly if it is readable. -/
theorem sortKeys_eq_iff {specs : List SortSpec} (filled : specs ≠ []) :
    (splitParameter ([44].intercalate (specs.map SortSpec.decoded))).map (·.map sortKey) =
      some (specs.map SortSpec.key) ↔ Readable specs := by
  have parts : ([44].intercalate (specs.map SortSpec.decoded)).splitOn 44 =
      specs.map SortSpec.decoded := by
    refine List.splitOn_intercalate _ (fun part member => ?_) (by simpa using filled)
    obtain ⟨s, -, rfl⟩ := List.mem_map.mp member
    exact comma_notMem_decoded s
  have signed : (specs.map SortSpec.decoded).map sortKey = specs.map SortSpec.key ↔
      ∀ s ∈ specs, s.sign ≠ .plus := by
    rw [List.map_map, List.map_inj_left]
    exact forall₂_congr fun s _ => sortKey_decoded_iff s
  rw [splitParameter, Readable]
  split
  · next empty =>
    obtain ⟨s, single, absent, unnamed⟩ := (intercalate_decoded_eq_nil_iff filled).mp empty
    exact iff_of_false (fun same => by cases same)
      fun readable => readable.2 s single absent unnamed
  · next given =>
    rw [Option.map_some, Option.some.injEq, parts, signed]
    refine (and_iff_left fun s single absent unnamed => ?_).symm
    exact given ((intercalate_decoded_eq_nil_iff filled).mpr ⟨s, single, absent, unnamed⟩)

variable {lib : Library} {values : List (Bytes × Bytes)}

/-- The sort keys of a request are those of the first parameter of that name. -/
theorem sortby_of_parse {req : QueryRequest} (parsed : parseSearchFromQuery lib values = .ok req) :
    req.sortby = (splitParameter (queryGet values (bytes "sortby"))).map (·.map sortKey) := by
  simp only [parseSearchFromQuery, bind, Except.bind, pure, Except.pure] at parsed
  split at parsed
  · cases parsed
  · split at parsed
    · cases parsed
    · split at parsed
      · cases parsed
      · cases parsed
        rfl

/-- A query that has nothing but sort keys is accepted. -/
theorem parse_of_sortby (lib : Library) (value : Bytes) :
    ∃ req, parseSearchFromQuery lib [(bytes "sortby", value)] = .ok req := by
  have absent : ∀ name ∈ ["bbox", "limit", "intersects"],
      queryGet [(bytes "sortby", value)] (bytes name) = [] := by
    have other : ∀ name ∈ ["bbox", "limit", "intersects"], bytes name ≠ bytes "sortby" := by
      decide +kernel
    intro name member
    rw [queryGet, List.lookup_cons, beq_false_of_ne (other name member)]
    rfl
  simp only [List.forall_mem_cons, List.not_mem_nil, false_imp_iff, implies_true, and_true] at absent
  obtain ⟨bbox, limit, intersects⟩ := absent
  simp only [parseSearchFromQuery, bbox, limit, intersects]
  exact ⟨_, rfl⟩

end Reading

/-- Sort keys that are written into a query are read as they are meant exactly if none has a plus
for its sign and the parameter is not empty: in a query of their own, which is accepted, and in
every query that is accepted and has no such parameter before. -/
theorem sortby_read_iff (lib : Library) (enc : Encoding) (specs : List SortSpec)
    (filled : specs ≠ []) :
    ((parseSearchFromQuery lib (query (rawSortby enc specs))).map QueryRequest.sortby =
      .ok (some (specs.map SortSpec.key)) ↔ Readable specs) ∧
    ∀ front back req, (∀ field ∈ query front, field.1 ≠ bytes "sortby") →
      parseSearchFromQuery lib (query (front ++ 38 :: (rawSortby enc specs ++ 38 :: back))) =
        .ok req →
      (req.sortby = some (specs.map SortSpec.key) ↔ Readable specs) := by
  constructor
  · obtain ⟨req, parsed⟩ := parse_of_sortby lib ([44].intercalate (specs.map SortSpec.decoded))
    have found := sortby_of_parse parsed
    rw [query_rawSortby, parsed, Except.map, found, Except.ok.injEq]
    simpa [queryGet] using sortKeys_eq_iff filled
  · intro front back req unnamed parsed
    have found := sortby_of_parse parsed
    have value : queryGet (query (front ++ 38 :: (rawSortby enc specs ++ 38 :: back)))
        (bytes "sortby") = [44].intercalate (specs.map SortSpec.decoded) := by
      have before : (query front).lookup (bytes "sortby") = none :=
        List.lookup_eq_none_iff.mpr fun field member => by
          simpa using Ne.symm (unnamed field member)
      rw [query_append, query_append, query_rawSortby, queryGet, List.lookup_append, before]
      simp
    rw [found, value, sortKeys_eq_iff filled]

section Samples

theorem created_bare : ∀ b ∈ (bytes "created").head?, b ∉ [(43 : UInt8), 45, 32] := by
  decide +kernel

theorem created_flat : 44 ∉ bytes "created" := by decide +kernel

def created (sign : Sign) : SortSpec := ⟨sign, bytes "created", created_flat, created_bare⟩

theorem unreserved_escapes : ∀ b ∈ [percent, 38, 43, 59], unreserved b = false := by
  decide +kernel

/-- The bytes that are not unreserved are escaped. -/
def standard : Encoding := ⟨unreserved, unreserved_escapes⟩

theorem empty_bare : ∀ b ∈ ([] : Bytes).head?, b ∉ [(43 : UInt8), 45, 32] := by simp

def unnamed : SortSpec := ⟨.absent, [], List.not_mem_nil, empty_bare⟩

def plainLibrary : Library := ⟨fun _ => none, fun _ => none, fun _ => false⟩

theorem limit_not_sortby : ∀ field ∈ query (bytes "limit=5"), field.1 ≠ bytes "sortby" := by
  decide +kernel

end Samples

/-- Descending and ascending without a sign, alone and between other parameters. -/
theorem signed_sortby_read :
    (parseSearchFromQuery plainLibrary (query (rawSortby standard
        [created .minus, created .absent]))).map QueryRequest.sortby =
      .ok (some [⟨bytes "created", .desc⟩, ⟨bytes "created", .asc⟩]) ∧
    ∃ req, parseSearchFromQuery plainLibrary (query (bytes "limit=5" ++ 38 ::
        (rawSortby standard [created .minus, created .absent] ++ 38 :: bytes "ids=a"))) = .ok req ∧
      req.sortby = some [⟨bytes "created", .desc⟩, ⟨bytes "created", .asc⟩] := by
  have readable : Readable [created .minus, created .absent] :=
    ⟨by simp [created], fun s single => by simp at single⟩
  obtain ⟨alone, among⟩ := sortby_read_iff plainLibrary standard
    [created .minus, created .absent] (by simp)
  obtain ⟨req, parsed⟩ : ∃ req, parseSearchFromQuery plainLibrary (query (bytes "limit=5" ++ 38 ::
      (rawSortby standard [created .minus, created .absent] ++ 38 :: bytes "ids=a"))) = .ok req :=
    ⟨_, rfl⟩
  exact ⟨alone.mpr readable, req, parsed, (among _ _ req limit_not_sortby parsed).mpr readable⟩

/-- A field with a plus is looked for by a name that starts with a space, and an empty parameter
counts for none. -/
theorem plus_read_as_space :
    rawSortby standard [created .plus] = bytes "sortby=+created" ∧
    (parseSearchFromQuery plainLibrary (query (rawSortby standard [created .plus]))).map
      QueryRequest.sortby = .ok (some [⟨bytes " created", .asc⟩]) ∧
    (created .plus).key = ⟨bytes "created", .asc⟩ ∧
    (parseSearchFromQuery plainLibrary (query (rawSortby standard [unnamed]))).map
      QueryRequest.sortby = .ok none := by
  decide +kernel

end SearchQuery
