import StacProxy.SearchQuery

/-!
# Following a pagination link

`cursorSearchLink` writes the address of the next page: the decoded path of the request, then
its query with the token replaced. A client reads the address out of the JSON response, parses
it and asks the proxy again. The public base address in front, which is configured without
query and fragment, tells where the proxy is and is left out.

The query always survives. The path does not: the router matched the escaped path if Go kept
one, the link has the decoded one, and it is written into the address without escaping.
-/

namespace CursorLink

open PercentCoding Utf8Text RequestPath SearchQuery AuthzMiddleware

/-! ## Requests -/

section Requests

/-- The routes of searches and below collections. -/
def route (path : Bytes) : Option Route :=
  if path = bytes "/search" then some { requestType := .search, collection := [] }
  else matchRoute path

/-- A search as it gets to the handler. -/
structure Shape where
  requestType : RequestType
  collection : Bytes
  searchReq : QueryRequest
  deriving DecidableEq

variable (lib : SearchQuery.Library)

/-- A GET request through classifier and search parser. On the items route the collection of
the path replaces the ones asked for, and the handler refuses to go without one. -/
def received (u : Url) (rawQuery : Bytes) : Option Shape :=
  (route (routePath u)).bind fun r => match r.requestType with
    | .search => (parseSearchFromQuery lib (query rawQuery)).toOption.map fun sr =>
        ⟨.search, r.collection, sr⟩
    | .items => if r.collection = [] then none
        else (parseSearchFromQuery lib (query rawQuery)).toOption.map fun sr =>
          ⟨.items, r.collection, { sr with collections := some [r.collection] }⟩
    | _ => none

end Requests

/-! ## Links -/

section Links

/-- The query of the link: the parameters of the request with the token swapped. -/
def linkQuery (rawQuery cursor : Bytes) : Bytes :=
  encodeQuery (queryDel (querySet (query rawQuery) (bytes "token") cursor) (bytes "cursor"))

/-- The GET link, after the base address. -/
def cursorSearchLink (u : Url) (rawQuery cursor : Bytes) : Bytes :=
  (if u.path = [] then bytes "/search" else u.path) ++ 63 :: linkQuery rawQuery cursor

def control (b : UInt8) : Bool := b < 0x20 || b = 0x7F

/-- `url.Parse` of what follows a base address: path and raw query. -/
def parseTarget (text : Bytes) : Option (Url × Bytes) :=
  let main := (cut 35 text).1
  if main.any control ∨ unescape (cut 35 text).2 = none then none
  else (setPath (cut 63 main).1).map fun u => (u, (cut 63 main).2)

variable (lib : SearchQuery.Library)

/-- What the proxy receives from a client that follows the link in the response. -/
def followed (u : Url) (rawQuery cursor : Bytes) : Option Shape :=
  (parseTarget (coerce (cursorSearchLink u rawQuery cursor))).bind fun target =>
    received lib target.1 target.2

/-- The decoded path can stand in an address and is read there as the router read the path of
the request: it is text without control characters, question marks and number signs; the
router did not match escapes; and if it looks escaped itself, then not as Go escapes paths. -/
structure LinkSafe (u : Url) : Prop where
  text : coerce u.path = u.path
  clean : ∀ b ∈ u.path, control b = false ∧ b ≠ 63 ∧ b ≠ 35
  unescaped : percent ∉ u.rawPath
  stable : percent ∈ u.path → ∃ path, unescape u.path = some path ∧ escape keeps path ≠ u.path

end Links

/-! ## The query -/

section Queries

theorem queryGet_linkQuery (rawQuery cursor name : Bytes) :
    queryGet (query (linkQuery rawQuery cursor)) name =
      if name = bytes "cursor" then [] else
        if name = bytes "token" then cursor else queryGet (query rawQuery) name := by
  rw [linkQuery, queryGet_encodeQuery, queryGet_queryDel, queryGet_querySet]

/-- The query of the link asks for the same, with the new token. -/
theorem parse_linkQuery (lib : SearchQuery.Library) (rawQuery cursor : Bytes) :
    parseSearchFromQuery lib (query (linkQuery rawQuery cursor)) =
      (parseSearchFromQuery lib (query rawQuery)).map fun sr =>
        { sr with token := cursor, cursor := [] } := by
  have token : queryGet (query (linkQuery rawQuery cursor)) (bytes "token") = cursor := by
    rw [queryGet_linkQuery, if_neg (by decide +kernel), if_pos rfl]
  have cleared : queryGet (query (linkQuery rawQuery cursor)) (bytes "cursor") = [] := by
    rw [queryGet_linkQuery, if_pos rfl]
  have agree : ∀ name, name ≠ bytes "token" → name ≠ bytes "cursor" →
      queryGet (query (linkQuery rawQuery cursor)) name = queryGet (query rawQuery) name := by
    intro name other other'
    rw [queryGet_linkQuery, if_neg other', if_neg other]
  rw [parseSearchFromQuery_of_agree lib agree, token, cleared]

/-- An encoded query is printable ASCII and holds no number sign. -/
theorem printable_linkQuery {rawQuery cursor : Bytes} {b : UInt8}
    (member : b ∈ linkQuery rawQuery cursor) : b < 0x80 ∧ control b = false ∧ b ≠ 35 := by
  have printable : ∀ b : UInt8, unreserved b = true ∨ b ∈ [(37 : UInt8), 38, 43, 61] →
      b < 0x80 ∧ control b = false ∧ b ≠ 35 :=
    forall_byte (by decide +kernel)
  exact printable b (mem_encodeQuery member)

end Queries

/-! ## The path -/

section Paths
variable {p text decoded : Bytes} {u v : Url}

theorem ascii_of_hexValue? {b : UInt8} {n : Nat} (digit : hexValue? b = some n) : b < 0x80 := by
  have digits : ∀ b : UInt8, (hexValue? b).isSome = true → b < 0x80 :=
    forall_byte (by decide +kernel)
  exact digits b (by simp [digit])

theorem asciiCount_unescape (decodes : unescape text = some decoded) :
    asciiCount decoded ≤ asciiCount text ∧
      (percent ∈ text → asciiCount decoded < asciiCount text) :=
  countP_unescape (by decide) (fun _ _ digit => by simpa using ascii_of_hexValue? digit) decodes

theorem eq_nil_of_unescape (decodes : unescape text = some []) : text = [] := by
  cases text with
  | nil => rfl
  | cons b rest =>
    unfold unescape at decodes
    split at decodes
    · split at decodes
      · simp only [Option.bind_eq_some_iff, Option.map_eq_some_iff] at decodes
        obtain ⟨_, -, _, -, _, -, nonempty⟩ := decodes
        cases nonempty
      · cases decodes
    · obtain ⟨_, -, nonempty⟩ := Option.map_eq_some_iff.mp decodes
      cases nonempty

/-- The router reads the decoded path, if Go would write the escaped path in the same way, and
the escaped one otherwise. -/
theorem routePath_cases (parsed : setPath p = some u) : unescape p = some u.path ∧
    (p = escape keeps u.path ∧ u.rawPath = [] ∧ routePath u = u.path ∨
      p ≠ escape keeps u.path ∧ u.rawPath = p ∧ routePath u = p) := by
  obtain ⟨path, decodes, rfl⟩ := Option.map_eq_some_iff.mp parsed
  refine ⟨decodes, ?_⟩
  by_cases default : p = escape keeps path
  · exact .inl ⟨default, if_pos default, by simp [routePath, default]⟩
  · have nonempty : p ≠ [] := by
      rintro rfl
      cases decodes
      exact default rfl
    exact .inr ⟨default, if_neg default, by simp [routePath, default, nonempty]⟩

/-- Seen from the decoded path: the router reads at least as many ASCII bytes, and more if it
matches escapes. -/
theorem asciiCount_path (parsed : setPath p = some u) :
    asciiCount u.path ≤ asciiCount (routePath u) ∧
      (percent ∈ u.rawPath → asciiCount u.path < asciiCount (routePath u)) := by
  obtain ⟨decodes, ⟨-, raw_eq, route_eq⟩ | ⟨-, raw_eq, route_eq⟩⟩ := routePath_cases parsed
  · rw [raw_eq, route_eq]
    simp
  · rw [raw_eq, route_eq]
    exact asciiCount_unescape decodes

/-- Seen from the escaped path: the router reads at most as many ASCII bytes, and fewer unless
it reads the path as it is. -/
theorem asciiCount_routePath (parsed : setPath p = some u) :
    asciiCount (routePath u) ≤ asciiCount p ∧
      (routePath u ≠ p → asciiCount (routePath u) < asciiCount p) := by
  obtain ⟨decodes, ⟨-, -, route_eq⟩ | ⟨-, -, route_eq⟩⟩ := routePath_cases parsed
  · rw [route_eq]
    obtain ⟨le, lt⟩ := asciiCount_unescape decodes
    refine ⟨le, fun changed => lt ?_⟩
    by_contra plain
    exact changed (Option.some.inj (decodes.symm.trans (unescape_of_plain plain)))
  · simp [route_eq]

/-- The path of an address ends at the first number sign or question mark. -/
theorem cut_target {path rest : Bytes} (unmarked : 35 ∉ rest) :
    (cut 63 (cut 35 (path ++ 63 :: rest)).1).1 = (cut 63 (cut 35 path).1).1 := by
  by_cases marked : 35 ∈ path
  · obtain ⟨front, back, rfl, absent, cuts⟩ := exists_cut_of_mem marked
    rw [cuts, List.append_assoc, List.cons_append, cut_append absent]
  · have whole : 35 ∉ path ++ 63 :: rest := by simp [marked, unmarked]
    rw [cut_of_notMem whole, cut_of_notMem marked]
    by_cases queried : 63 ∈ path
    · obtain ⟨front, back, rfl, absent, cuts⟩ := exists_cut_of_mem queried
      rw [cuts, List.append_assoc, List.cons_append, cut_append absent]
    · rw [cut_append queried, cut_of_notMem queried]

/-- A safe path is read back as the path the router read before, and the query after it. -/
theorem target_of_safe {query : Bytes} (parsed : setPath p = some u) (safe : LinkSafe u)
    (printable : ∀ b ∈ query, b < 0x80 ∧ control b = false ∧ b ≠ 35) :
    ∃ v, parseTarget (coerce (u.path ++ 63 :: query)) = some (v, query) ∧
      routePath v = routePath u := by
  have written : coerce (u.path ++ 63 :: query) = u.path ++ 63 :: query := by
    rw [coerce_append (by decide), safe.text, coerce_of_ascii fun b member => (printable b member).1]
  have marks : ∀ b ∈ u.path ++ 63 :: query, control b = false ∧ b ≠ 35 := by
    intro b member
    rcases List.mem_append.mp member with inside | after
    · exact ⟨(safe.clean b inside).1, (safe.clean b inside).2.2⟩
    · rcases List.mem_cons.mp after with rfl | after
      · decide
      · exact (printable b after).2
  have unmarked : 35 ∉ u.path ++ 63 :: query := fun member => (marks 35 member).2 rfl
  have unqueried : 63 ∉ u.path := fun member => (safe.clean 63 member).2.1 rfl
  have printed : ¬ (u.path ++ 63 :: query).any control = true := by
    rw [List.any_eq_true]
    rintro ⟨b, member, found⟩
    rw [(marks b member).1] at found
    cases found
  have target : parseTarget (u.path ++ 63 :: query) =
      (setPath u.path).map fun v => (v, query) := by
    have guard : ¬ ((u.path ++ 63 :: query).any control = true ∨ unescape [] = none) := by
      simpa [unescape] using printed
    simp only [parseTarget, cut_of_notMem unmarked, cut_append unqueried, if_neg guard]
  rw [written, target, routePath_eq parsed safe.unescaped]
  by_cases escaped : percent ∈ u.path
  · obtain ⟨path, decodes, other⟩ := safe.stable escaped
    refine ⟨⟨path, u.path⟩, ?_, ?_⟩
    · simp [setPath, decodes, Ne.symm other]
    · exact if_neg (List.ne_nil_of_mem escaped)
  · obtain ⟨v, read⟩ : ∃ v, setPath u.path = some v := by
      simp [setPath, unescape_of_plain escaped]
    refine ⟨v, by simp [read], ?_⟩
    obtain ⟨decodes, ⟨-, -, route_eq⟩ | ⟨-, -, route_eq⟩⟩ := routePath_cases read
    · rw [route_eq]
      exact Option.some.inj (decodes.symm.trans (unescape_of_plain escaped))
    · exact route_eq

theorem parseTarget_eq_some {rest : Bytes} (target : parseTarget text = some (v, rest)) :
    (∀ b ∈ (cut 35 text).1, control b = false) ∧ setPath (cut 63 (cut 35 text).1).1 = some v := by
  simp only [parseTarget] at target
  split at target
  · cases target
  · rename_i guard
    obtain ⟨v', read, pair⟩ := Option.map_eq_some_iff.mp target
    obtain ⟨rfl, -⟩ := Prod.mk.inj pair
    refine ⟨fun b member => ?_, read⟩
    by_contra found
    exact guard (.inl (List.any_eq_true.mpr ⟨b, member, by simpa using found⟩))

/-- If the router reads the path of the link as it read the path of the request, then nothing
was lost on the way: every step in between can only take ASCII bytes away. -/
theorem safe_of_target {query rest : Bytes} (parsed : setPath p = some u) (unmarked : 35 ∉ query)
    (target : parseTarget (coerce (u.path ++ 63 :: query)) = some (v, rest))
    (same : routePath v = routePath u) : LinkSafe u := by
  have ascii : (35 : UInt8) < 0x80 ∧ (63 : UInt8) < 0x80 := by decide
  obtain ⟨printed, read⟩ := parseTarget_eq_some target
  rw [cut_coerce ascii.1] at printed read
  rw [cut_coerce ascii.2] at read
  simp only [cut_target unmarked] at read
  obtain ⟨queried, queried_lt⟩ := asciiCount_cut ascii.2 (cut 35 u.path).1
  obtain ⟨marked, marked_lt⟩ := asciiCount_cut ascii.1 u.path
  obtain ⟨from_path, from_path_lt⟩ := asciiCount_path parsed
  obtain ⟨to_route, to_route_lt⟩ := asciiCount_routePath read
  rw [same, asciiCount_coerce] at to_route to_route_lt
  have no_mark : 35 ∉ u.path := fun found => by
    have := marked_lt found
    omega
  rw [cut_of_notMem no_mark] at queried queried_lt read to_route to_route_lt
  have no_query : 63 ∉ u.path := fun found => by
    have := queried_lt found
    simp only at *
    omega
  have unescaped : percent ∉ u.rawPath := fun found => by
    have := from_path_lt found
    simp only at *
    omega
  rw [cut_of_notMem no_query] at read to_route_lt
  have route_eq : routePath u = u.path := routePath_eq parsed unescaped
  have text : coerce u.path = u.path := by
    by_contra changed
    rw [route_eq] at to_route_lt
    exact Nat.lt_irrefl _ (to_route_lt (Ne.symm changed))
  refine ⟨text, fun b member => ⟨?_, ?_, ?_⟩, unescaped, fun escaped => ?_⟩
  · have whole : 35 ∉ u.path ++ 63 :: query := by simp [no_mark, unmarked]
    rw [cut_of_notMem whole, coerce_append ascii.2, text] at printed
    exact printed b (List.mem_append_left _ member)
  · rintro rfl
    exact no_query member
  · rintro rfl
    exact no_mark member
  · rw [text] at read
    obtain ⟨decodes, ⟨-, -, read_eq⟩ | ⟨other, -, -⟩⟩ := routePath_cases read
    · have fixed : unescape u.path = some u.path := by
        rw [decodes, ← read_eq, same, route_eq]
      exact absurd escaped (unescape_eq_self_iff.mp fixed)
    · exact ⟨v.path, decodes, Ne.symm other⟩

end Paths

/-! ## Following the link -/

section Following
variable {lib : SearchQuery.Library} {u v : Url} {rawQuery rawQuery' cursor : Bytes}
variable {shape again : Shape}

/-- A search is received at the path of its type and collection. -/
theorem path_of_received (answered : received lib u rawQuery = some shape) :
    (shape.requestType = .search ∧ routePath u = bytes "/search") ∨
    (shape.requestType = .items ∧ segments (routePath u) =
      [[], bytes "collections", shape.collection, bytes "items"]) := by
  obtain ⟨r, found, rest⟩ := Option.bind_eq_some_iff.mp answered
  unfold route at found
  split at found
  · rename_i here
    cases found
    obtain ⟨sr, -, rfl⟩ := Option.map_eq_some_iff.mp rest
    exact .inl ⟨rfl, here⟩
  · rcases path_of_match found with ⟨type_eq, -⟩ | ⟨type_eq, split_eq⟩ | ⟨type_eq, -⟩
    · simp [type_eq] at rest
    · simp only [type_eq] at rest
      split at rest
      · cases rest
      · obtain ⟨sr, -, rfl⟩ := Option.map_eq_some_iff.mp rest
        exact .inr ⟨rfl, split_eq⟩
    · simp [type_eq] at rest

/-- Type and collection tell the path. -/
theorem routePath_of_received (answered : received lib u rawQuery = some shape)
    (followed : received lib v rawQuery' = some again)
    (type_eq : again.requestType = shape.requestType)
    (collection_eq : again.collection = shape.collection) : routePath v = routePath u := by
  rcases path_of_received answered with ⟨search, here⟩ | ⟨items, here⟩ <;>
    rcases path_of_received followed with ⟨search', there⟩ | ⟨items', there⟩
  · rw [here, there]
  · simp [search, items'] at type_eq
  · simp [items, search'] at type_eq
  · exact segments_inj (by rw [here, there, collection_eq])

theorem path_ne_nil {p : Bytes} (parsed : setPath p = some u)
    (answered : received lib u rawQuery = some shape) : u.path ≠ [] := by
  intro empty
  have nothing : routePath u = [] := by
    obtain ⟨decodes, ⟨-, -, route_eq⟩ | ⟨-, -, route_eq⟩⟩ := routePath_cases parsed
    · rw [route_eq, empty]
    · rw [route_eq]
      exact eq_nil_of_unescape (empty ▸ decodes)
  rcases path_of_received answered with ⟨-, here⟩ | ⟨-, here⟩
  · exact absurd (nothing.symm.trans here) (by decide +kernel)
  · rw [nothing] at here
    simp [segments] at here

/-- At the same path the query of the link is received as the query of the request, with the
new token. -/
theorem received_linkQuery (same : routePath v = routePath u) :
    received lib v (linkQuery rawQuery cursor) = (received lib u rawQuery).map fun shape =>
      { shape with searchReq := { shape.searchReq with token := cursor, cursor := [] } } := by
  unfold received
  rw [same, parse_linkQuery]
  cases route (routePath u) with
  | none => rfl
  | some r =>
    obtain ⟨requestType, collection, itemID⟩ := r
    cases requestType
    case items =>
      by_cases unnamed : collection = []
      · simp [unnamed]
      · cases parseSearchFromQuery lib (query rawQuery) <;> simp [unnamed, Except.map, Except.toOption]
    case search => cases parseSearchFromQuery lib (query rawQuery) <;> rfl
    all_goals rfl

end Following

section Reproduction
variable {Digest : Type} [DecidableEq Digest]

/-- Following the next link asks for the next page of the same search, under the hash in the
cursor, exactly if the path of the request is safe to be written into an address decoded. -/
theorem next_link_reproduces_iff (lib : SearchQuery.Library) (hashing : Hashing Digest)
    (sizes : PageSizes) {p rawQuery cursor : Bytes} {u : Url} {shape : Shape} {digest : Digest}
    (parsed : setPath p = some u) (answered : received lib u rawQuery = some shape)
    (minted : mintedHash lib hashing sizes shape.searchReq = some digest) :
    (∃ again, followed lib u rawQuery cursor = some again ∧
      again.requestType = shape.requestType ∧ again.collection = shape.collection ∧
      again.searchReq = { shape.searchReq with token := cursor, cursor := [] } ∧
      queryHash lib hashing sizes again.searchReq = digest) ↔ LinkSafe u := by
  have written : cursorSearchLink u rawQuery cursor =
      u.path ++ 63 :: linkQuery rawQuery cursor := by
    rw [cursorSearchLink, if_neg (path_ne_nil parsed answered)]
  constructor
  · rintro ⟨again, arrived, type_eq, collection_eq, -, -⟩
    obtain ⟨⟨v, rest⟩, target, arrived⟩ := Option.bind_eq_some_iff.mp arrived
    rw [written] at target
    have unmarked : 35 ∉ linkQuery rawQuery cursor :=
      fun member => (printable_linkQuery member).2.2 rfl
    exact safe_of_target parsed unmarked target
      (routePath_of_received answered arrived type_eq collection_eq)
  · intro safe
    obtain ⟨v, target, same⟩ := @target_of_safe p u (linkQuery rawQuery cursor) parsed safe
      fun b member => printable_linkQuery member
    refine ⟨{ shape with searchReq := { shape.searchReq with token := cursor, cursor := [] } },
      ?_, rfl, rfl, rfl, ?_⟩
    · rw [followed, written, target, Option.bind_some, received_linkQuery same, answered]
      rfl
    · rw [queryHash_paged, mintedHash_eq lib hashing sizes minted]

/-- A proxy that is asked for neither boxes nor geometries. -/
def plainLibrary : SearchQuery.Library where
  parseFloat _ := none
  unmarshal _ := none
  parseGeoJSON _ := false

def plainHashing : Hashing Bytes where
  empty := []
  marshal _ := []
  sum256 := id
  cursorHash _ := none

def spacedItems : Url := ⟨bytes "/collections/a b/items", []⟩

def spacedQuery : Bytes := bytes "limit=10&ids=x%2Cy&sortby=-id"

def spacedShape : Shape where
  requestType := .items
  collection := bytes "a b"
  searchReq := {
    collections := some [bytes "a b"]
    ids := some [bytes "x", bytes "y"]
    bbox := none
    datetime := []
    limit := 10
    token := []
    cursor := []
    next := []
    fields := none
    intersects := []
    filter := none
    filterLang := []
    sortby := some [⟨bytes "id", .desc⟩] }

/-- A collection with a space in its name: its next link works. -/
theorem spaced_items_reproduced : setPath (bytes "/collections/a%20b/items") = some spacedItems ∧
    ∃ again, followed plainLibrary spacedItems spacedQuery (bytes "t.s") = some again ∧
      again.requestType = .items ∧ again.collection = bytes "a b" ∧
      again.searchReq = { spacedShape.searchReq with token := bytes "t.s", cursor := [] } ∧
      queryHash plainLibrary plainHashing ⟨10, 1000⟩ again.searchReq = [] := by
  have parsed : setPath (bytes "/collections/a%20b/items") = some spacedItems := by decide +kernel
  have answered : received plainLibrary spacedItems spacedQuery = some spacedShape := by
    decide +kernel
  have minted : mintedHash plainLibrary plainHashing ⟨10, 1000⟩ spacedShape.searchReq = some [] := by
    decide +kernel
  have safe : LinkSafe spacedItems :=
    ⟨by decide +kernel, by decide +kernel, by decide +kernel, fun escaped =>
      absurd escaped (by decide +kernel)⟩
  exact ⟨parsed, (next_link_reproduces_iff plainLibrary plainHashing ⟨10, 1000⟩ parsed answered
    minted).mpr safe⟩

/-- Whether the next link of an items request leads back to its collection, for the name of a
collection as it is written in the path of the request. -/
def leadsBack (name : String) : Option Bool :=
  (setPath (bytes ("/collections/" ++ name ++ "/items"))).bind fun u =>
    (received plainLibrary u []).map fun shape =>
      (followed plainLibrary u [] (bytes "t.s")).map (fun again =>
        (again.requestType, again.collection)) = some (shape.requestType, shape.collection)

/-- An escaped slash, question mark, number sign, percent sign, letter, control character or
byte that is not text, a space that is escaped twice, and a plain number sign. -/
theorem escaped_items_lost :
    (["a%2Fb", "a%3Fb", "a%23b", "a%25b", "%41", "a%0Ab", "a%FFb", "a%2520b", "a#b"].all fun name =>
      leadsBack name = some false) = true ∧
    cursorSearchLink ⟨bytes "/collections/a/b/items", bytes "/collections/a%2Fb/items"⟩ []
      (bytes "t.s") = bytes "/collections/a/b/items?token=t.s" := by
  decide +kernel

end Reproduction

end CursorLink
