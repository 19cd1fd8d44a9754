import StacProxy.SearchEnforcement

/-!
# Collection scope

Which collections a request ends up asking for. The search-body parser fills in the search
request of search-like routes, the authorization middleware narrows it to the collections of
the policy, and the federation handler takes the collections to ask for from the result.
Names that an origin knows a collection by are not applied yet.
-/

namespace CollectionScope

open JsonValue SearchRequest Cql2Eval Geofence PolicyFilter AuthzMiddleware

section Narrowing

/-- The policy lets a collection through. -/
def permits (c : AuthzConstraints) (name : String) : Bool :=
  (c.allowedCollections = [] ∨ name ∈ c.allowedCollections) ∧ name ∉ c.deniedCollections

/-- What a request asks for; all allowed collections if it names none. -/
def candidates (c : AuthzConstraints) (sr : Request) : List String :=
  if sr.collections = [] then c.allowedCollections else sr.collections

variable {sr : Request} {c : AuthzConstraints}

theorem restrictDenied_eq (denied requested : List String) :
    restrictDenied denied requested =
      if requested ≠ [] ∧ requested.filter (· ∉ denied) = [] then none
      else some (requested.filter (· ∉ denied)) := by
  unfold restrictDenied
  by_cases undenied : denied = []
  · have whole : requested.filter (· ∉ denied) = requested := by simp [undenied]
    simp only [undenied, true_or, if_true] at whole ⊢
    rw [whole, if_neg (fun both => both.1 both.2)]
  · by_cases unnamed : requested = []
    · simp [unnamed]
    · simp [undenied, unnamed, nonempty, removeStrings]

/-- The allow list alone keeps some candidates, and the deny list then leaves those that the
policy permits. -/
theorem exists_restrictAllowed (sr : Request) (c : AuthzConstraints) :
    ∃ allowed : List String, allowed ⊆ candidates c sr ∧
      restrictAllowed c.allowedCollections sr.collections =
        (if candidates c sr ≠ [] ∧ allowed = [] then none else some allowed) ∧
      allowed.filter (· ∉ c.deniedCollections) = (candidates c sr).filter (permits c) := by
  by_cases unrestricted : c.allowedCollections = []
  · have candidates_eq : candidates c sr = sr.collections := by
      by_cases unnamed : sr.collections = [] <;> simp [candidates, unrestricted, unnamed]
    refine ⟨sr.collections, by simp [candidates_eq], ?_, ?_⟩
    · rw [candidates_eq, if_neg (fun both => both.1 both.2)]
      simp [restrictAllowed, unrestricted]
    · rw [candidates_eq]
      apply List.filter_congr
      simp [permits, unrestricted]
  · by_cases unnamed : sr.collections = []
    · refine ⟨c.allowedCollections, by simp [candidates, unnamed],
        by simp [restrictAllowed, unrestricted, unnamed], ?_⟩
      simp only [candidates, unnamed, if_true]
      apply List.filter_congr
      intro name listed
      simp [permits, listed]
    · refine ⟨intersectStrings c.allowedCollections sr.collections, ?_, ?_, ?_⟩
      · simp only [candidates, unnamed, if_false]
        exact List.filter_sublist.subset
      · simp [restrictAllowed, nonempty, candidates, unrestricted, unnamed]
      · simp only [candidates, unnamed, if_false, intersectStrings, List.filter_filter]
        apply List.filter_congr
        intro name _
        simp [permits, unrestricted, Bool.and_comm]

/-- The constraints keep the candidates that the policy permits, and fail if none is left. -/
theorem applyConstraints_eq (sr : Request) (c : AuthzConstraints) :
    applyConstraints sr c =
      if candidates c sr ≠ [] ∧ (candidates c sr).filter (permits c) = [] then none
      else some ({ sr with
          limit := clampLimit c.maxResults sr.limit
          collections := (candidates c sr).filter (permits c) },
        { c with geofence := c.geofence.map (defaultFilterMode c.geofencePushedDown) }) := by
  obtain ⟨allowed, within, narrowed, left⟩ := exists_restrictAllowed sr c
  unfold applyConstraints
  rw [narrowed]
  by_cases empty : allowed = []
  · rw [← left, empty]
    by_cases asked : candidates c sr = [] <;> simp [asked, restrictDenied_eq, bind, pure]
  · have asked : candidates c sr ≠ [] := by
      intro none_asked
      rw [none_asked] at within
      exact empty (List.subset_nil.mp within)
    rw [if_neg (fun both => empty both.2)]
    simp only [bind, Option.bind_some, restrictDenied_eq, left, asked, empty, ne_eq,
      not_false_eq_true, true_and]
    split <;> rfl

/-- What a policy accepts is all it permits, and something if it was asked for something. -/
theorem applyConstraints_of_accepted {sent : Request} {after : AuthzConstraints}
    (ok : applyConstraints sr c = some (sent, after)) :
    sent.collections = (candidates c sr).filter (permits c) ∧
      sent.limit = clampLimit c.maxResults sr.limit ∧
      (candidates c sr ≠ [] → sent.collections ≠ []) := by
  rw [applyConstraints_eq] at ok
  split at ok
  · cases ok
  · rename_i survives
    cases ok
    exact ⟨rfl, rfl, fun asked none_left => survives ⟨asked, none_left⟩⟩

/-- Under an allow list the narrowed request names collections, all of them permitted. -/
theorem permits_of_applyConstraints {narrowed : Request} {after : AuthzConstraints}
    (listed : c.allowedCollections ≠ []) (ok : applyConstraints sr c = some (narrowed, after)) :
    narrowed.collections ≠ [] ∧ ∀ name ∈ narrowed.collections, name ∈ candidates c sr ∧
      name ∈ c.allowedCollections ∧ name ∉ c.deniedCollections := by
  have asked : candidates c sr ≠ [] := by
    unfold candidates
    split
    · exact listed
    · assumption
  obtain ⟨collections_eq, -, nonempty⟩ := applyConstraints_of_accepted ok
  refine ⟨nonempty asked, fun name kept => ?_⟩
  rw [collections_eq] at kept
  obtain ⟨candidate, permitted⟩ := List.mem_filter.mp kept
  simp only [permits, listed, false_or, decide_eq_true_eq] at permitted
  exact ⟨candidate, permitted⟩

end Narrowing

section Routes

/-- `searchParserMiddleware`. The argument is what the parser makes of the request's body or
query; no value means that the client gets an error. -/
def parseSearch (parsed : Option Request) (info : Info) : Option Info :=
  if info.searchReq.isSome then some info
  else match info.requestType with
    | .search => parsed.map fun sr => { info with searchReq := some sr }
    | .items => parsed.map fun sr => { info with
        searchReq := some (if info.collection ≠ "" then { sr with collections := [info.collection] }
          else sr) }
    | _ => some info

/-- The collections the federation handler asks origins for. It fails on items requests
without a collection, and if it has to parse a search request and cannot. -/
def asks (parsed : Option Request) (info : Info) : Option (List String) :=
  match info.requestType with
  | .search => (info.searchReq.or parsed).map (·.collections)
  | .items => if info.collection = "" then none
      else (info.searchReq.or parsed).map fun _ => [info.collection]
  | .collection | .item | .collectionQueryables => some [info.collection]
  | _ => some []

def errorText (text : String) : Response where
  status := 500
  body := text.toUTF8.data.toList

/-- The handler behind the middleware. What the origins answer is a parameter. -/
def handle (parsed : Option Request) (upstream : Info → List String → Response) :
    Option Info → Response
  | none => errorText "missing STAC info\n"
  | some info => match asks parsed info with
    | none => errorText "\x7b\"code\":\"InternalError\",\"description\":\"internal error\"\x7d\n"
    | some collections => upstream info collections

variable {G : Type} (lib : Library G) (cql2 : Cql2Library) (unmarshal : Bytes → Option Json)

/-- A classified request through search parser, middleware and handler. -/
def serveRoute (cfg : HTTPConfig) (authenticated : Bool) (decision : AuthzDecision)
    (parsed : Option Request) (upstream : Info → List String → Response) (info : Info) :
    Option Served :=
  (parseSearch parsed info).map fun shape =>
    serve lib cql2 unmarshal cfg authenticated (.ok decision) (some shape) (handle parsed upstream)

end Routes

section Postcondition

/-- The collections that a policy leaves of a request. -/
def scopeOf (c : AuthzConstraints) (requested : List String) : List String :=
  if requested = [] then c.allowedCollections.filter (· ∉ c.deniedCollections)
  else requested.filter fun name =>
    (c.allowedCollections = [] ∨ name ∈ c.allowedCollections) ∧ name ∉ c.deniedCollections

def narrow (c : AuthzConstraints) (sr : Request) : Request :=
  { sr with limit := clampLimit c.maxResults sr.limit, collections := scopeOf c sr.collections }

def settle (c : AuthzConstraints) : AuthzConstraints :=
  { c with geofence := c.geofence.map (defaultFilterMode c.geofencePushedDown) }

/-- Something of what the request asks for is left, if it asks for anything. -/
def Survives (c : AuthzConstraints) (requested : List String) : Prop :=
  requested ≠ [] ∨ c.allowedCollections ≠ [] → scopeOf c requested ≠ []

variable {sr sent : Request} {c after : AuthzConstraints} {requested : List String}

theorem filter_permits_candidates (c : AuthzConstraints) (sr : Request) :
    (candidates c sr).filter (permits c) = scopeOf c sr.collections := by
  unfold candidates scopeOf
  split
  · apply List.filter_congr
    intro name listed
    simp [permits, listed]
  · rfl

theorem candidates_ne_nil_iff :
    candidates c sr ≠ [] ↔ sr.collections ≠ [] ∨ c.allowedCollections ≠ [] := by
  unfold candidates
  split
  · rename_i unnamed
    simp [unnamed]
  · rename_i named
    simp [named]

theorem applyConstraints_eq_some_iff :
    applyConstraints sr c = some (sent, after) ↔
      Survives c sr.collections ∧ sent = narrow c sr ∧ after = settle c := by
  rw [applyConstraints_eq, filter_permits_candidates]
  split
  · rename_i denied
    have gone : ¬Survives c sr.collections := fun survives =>
      survives (candidates_ne_nil_iff.mp denied.1) denied.2
    simp [gone]
  · rename_i kept
    have survives : Survives c sr.collections := fun asked none_left =>
      kept ⟨candidates_ne_nil_iff.mpr asked, none_left⟩
    simp [survives, narrow, settle, eq_comm]

/-- Whatever the policy has left of a request, it leaves as it is. -/
theorem scopeOf_scopeOf (survives : Survives c requested) :
    scopeOf c (scopeOf c requested) = scopeOf c requested := by
  by_cases empty : scopeOf c requested = []
  · have unlisted : c.allowedCollections = [] := by
      by_contra listed
      exact survives (.inr listed) empty
    rw [empty]
    simp [scopeOf, unlisted]
  · conv_lhs => rw [scopeOf, if_neg empty]
    apply List.filter_eq_self.mpr
    intro name kept
    rw [scopeOf] at kept
    split at kept
    · have both := List.mem_filter.mp kept
      simpa [both.1] using both.2
    · exact (List.mem_filter.mp kept).2

theorem clampLimit_clampLimit (maxResults limit : Int) :
    clampLimit maxResults (clampLimit maxResults limit) = clampLimit maxResults limit := by
  unfold clampLimit
  grind

theorem clampLimit_le (maxResults limit : Int) :
    (0 < maxResults → clampLimit maxResults limit ≤ maxResults) ∧
      (0 < limit → clampLimit maxResults limit ≤ limit) := by
  unfold clampLimit
  grind

theorem defaultFilterMode_idem (pushedDown : Bool) (g : Constraint) :
    defaultFilterMode pushedDown (defaultFilterMode pushedDown g) =
      defaultFilterMode pushedDown g := by
  by_cases filters : (given g.allowedArea).isSome && !g.filterMode && !pushedDown
  · simp [defaultFilterMode, filters]
  · simp [defaultFilterMode, filters]

theorem settle_settle (c : AuthzConstraints) : settle (settle c) = settle c := by
  simp [settle, Function.comp_def, defaultFilterMode_idem]

theorem narrow_narrow (survives : Survives c sr.collections) :
    narrow (settle c) (narrow c sr) = narrow c sr := by
  have same_scope : scopeOf (settle c) (scopeOf c sr.collections) = scopeOf c sr.collections :=
    scopeOf_scopeOf survives
  have same_limit : clampLimit (settle c).maxResults (clampLimit c.maxResults sr.limit) =
      clampLimit c.maxResults sr.limit := clampLimit_clampLimit c.maxResults sr.limit
  simp [narrow, same_scope, same_limit]

theorem applyConstraints_again (ok : applyConstraints sr c = some (sent, after)) :
    applyConstraints sent after = some (sent, after) := by
  obtain ⟨survives, rfl, rfl⟩ := applyConstraints_eq_some_iff.mp ok
  refine applyConstraints_eq_some_iff.mpr
    ⟨?_, (narrow_narrow survives).symm, (settle_settle c).symm⟩
  intro asked
  have still : scopeOf (settle c) (narrow c sr).collections = scopeOf c sr.collections :=
    scopeOf_scopeOf survives
  rw [still]
  rcases asked with kept | listed
  · exact kept
  · exact survives (.inr listed)

/-- A constrained items request asks for the collection of its URL, if it is let through. -/
theorem items_scope {parsed later : Option Request} {info shape : Info}
    (classified : info.searchReq = none) (items : info.requestType = .items)
    (named : info.collection ≠ "") (parses : parseSearch parsed info = some shape)
    (searches : shape.searchReq = some sr) (ok : applyConstraints sr c = some (sent, after)) :
    asks later { shape with searchReq := some sent } = some sent.collections := by
  simp only [parseSearch, classified, items, named, Option.isSome_none, Bool.false_eq_true,
    if_false, ne_eq, not_false_eq_true, if_true, Option.map_eq_some_iff] at parses
  obtain ⟨read, -, rfl⟩ := parses
  obtain rfl : { read with collections := [info.collection] } = sr := by simpa using searches
  obtain ⟨survives, rfl, -⟩ := applyConstraints_eq_some_iff.mp ok
  have kept : scopeOf c [info.collection] ≠ [] := survives (.inl (by simp))
  have whole : scopeOf c [info.collection] = [info.collection] := by
    simp only [scopeOf, List.cons_ne_nil, if_false, List.filter_cons, List.filter_nil] at kept ⊢
    split at kept
    · rename_i permitted
      simp [permitted]
    · exact absurd rfl kept
  simp [asks, named, narrow, whole]

/-- What a policy makes of a search or items request. -/
theorem constrained_scope (sr : Request) (c : AuthzConstraints) :
    (applyConstraints sr c = none ↔
      (sr.collections ≠ [] ∨ c.allowedCollections ≠ []) ∧ scopeOf c sr.collections = []) ∧
    ∀ sent after, applyConstraints sr c = some (sent, after) →
      sent.collections = scopeOf c sr.collections ∧
      (sr.collections ≠ [] ∨ c.allowedCollections ≠ [] → sent.collections ≠ []) ∧
      (0 < c.maxResults → sent.limit ≤ c.maxResults) ∧
      (0 < sr.limit → sent.limit ≤ sr.limit) ∧
      applyConstraints sent after = some (sent, after) ∧
      ∀ parsed later info shape, info.searchReq = none → info.requestType = .items →
        info.collection ≠ "" → parseSearch parsed info = some shape → shape.searchReq = some sr →
          asks later { shape with searchReq := some sent } = some sent.collections := by
  refine ⟨?_, fun sent after ok => ?_⟩
  · rw [applyConstraints_eq, filter_permits_candidates, ← candidates_ne_nil_iff]
    split
    · rename_i denied
      simp [denied]
    · rename_i kept
      simp only [reduceCtorEq, false_iff]
      exact kept
  · obtain ⟨survives, sent_eq, -⟩ := applyConstraints_eq_some_iff.mp ok
    have limits := clampLimit_le c.maxResults sr.limit
    refine ⟨by rw [sent_eq, narrow], ?_, ?_, ?_, applyConstraints_again ok, ?_⟩
    · rw [sent_eq]
      exact survives
    · rw [sent_eq]
      exact limits.1
    · rw [sent_eq]
      exact limits.2
    · intro parsed later info shape classified items named parses searches
      exact items_scope classified items named parses searches ok

def twoAllowed : AuthzConstraints where
  allowedCollections := ["a", "b"]
  deniedCollections := ["b"]
  maxResults := 10

/-- An items request for a collection of which the policy leaves something. -/
theorem constrained_items : ∃ sent after,
    applyConstraints { collections := ["a"], limit := 50 } twoAllowed = some (sent, after) ∧
      sent.collections = ["a"] ∧ sent.limit ≤ 10 ∧
      applyConstraints sent after = some (sent, after) ∧
      asks none { collection := "a", requestType := .items, searchReq := some sent } =
        some sent.collections := by
  have ok : applyConstraints { collections := ["a"], limit := 50 } twoAllowed =
      some (narrow twoAllowed { collections := ["a"], limit := 50 }, settle twoAllowed) := rfl
  obtain ⟨scope, -, limit, -, again, items⟩ := (constrained_scope _ twoAllowed).2 _ _ ok
  refine ⟨_, _, ok, scope, limit (by decide), again, ?_⟩
  exact items (some { limit := 50 }) none { collection := "a", requestType := .items } _ rfl rfl
    (by decide) rfl rfl

end Postcondition

section Scope
variable {G : Type} {lib : Library G} {cql2 : Cql2Library} {unmarshal : Bytes → Option Json}
variable {cfg : HTTPConfig} {authenticated : Bool} {decision : AuthzDecision}
variable {c : AuthzConstraints} {sr : Request} {info : Info}
variable {parsed : Option Request} {upstream : Info → List String → Response}
variable {status : Nat} {header : List (String × String)} {payload : Payload}

theorem collections_of_inject {sent : Request} {updated : AuthzConstraints} {spatial : Bool}
    (ok : injectCQL2Filter cql2 sr c spatial = .ok (sent, updated)) :
    sent.collections = sr.collections := by
  simp only [injectCQL2Filter, bind_eq_ok, mapError_eq_ok] at ok
  obtain ⟨_, -, _, -, _, -, _, -, ok⟩ := ok
  split at ok
  · cases ok
    rfl
  · split at ok
    · cases ok
    · cases ok
      rfl

/-- What the middleware hands on is the narrowed request, with at most the filter changed. -/
theorem collections_of_prepare {sentInfo : Info} {after : AuthzConstraints}
    (ok : prepare cql2 cfg info sr c = .ok (sentInfo, after)) :
    ∃ narrowed limited sent, applyConstraints sr c = some (narrowed, limited) ∧
      sentInfo = { info with searchReq := some sent } ∧
      sent.collections = narrowed.collections := by
  obtain ⟨narrowed, limited, applied, gates⟩ := prepare_eq_ok ok
  rcases gates with ⟨-, rfl, -⟩ | ⟨-, sent, injected, rfl⟩
  · exact ⟨narrowed, limited, narrowed, applied, rfl, rfl⟩
  · exact ⟨narrowed, limited, sent, applied, rfl, collections_of_inject injected⟩

/-- A search-like request that is let through as a success: what it was parsed to, and what
the handler then saw. -/
theorem serveRoute_eq_forwarded (constrained : decision.constraints = some c) {shape : Info}
    (parses : parseSearch parsed info = some shape) (searches : shape.searchReq = some sr)
    (ok : serveRoute lib cql2 unmarshal cfg authenticated decision parsed upstream info =
      some (.forwarded status header payload)) :
    ∃ narrowed limited sent, applyConstraints sr c = some (narrowed, limited) ∧
      sent.collections = narrowed.collections ∧
      status = (handle parsed upstream (some { shape with searchReq := some sent })).status := by
  simp only [serveRoute, parses, Option.map_some, Option.some.injEq] at ok
  obtain ⟨sentInfo, after, prepared, same_status, -⟩ :=
    serve_search_eq_forwarded constrained searches ok
  obtain ⟨narrowed, limited, sent, applied, rfl, same⟩ := collections_of_prepare prepared
  exact ⟨narrowed, limited, sent, applied, same, same_status⟩

/-- A search or items request that succeeds has asked the origins for collections of the
allow list that are not denied, and for at least one. -/
theorem scope_enforced (constrained : decision.constraints = some c)
    (listed : c.allowedCollections ≠ []) (classified : info.searchReq = none)
    (searchLike : info.requestType = .search ∨ info.requestType = .items)
    (ok : serveRoute lib cql2 unmarshal cfg authenticated decision parsed upstream info =
      some (.forwarded status header payload)) (success : 200 ≤ status ∧ status < 300) :
    ∃ sentInfo collections, asks parsed sentInfo = some collections ∧
      sentInfo.requestType = info.requestType ∧ sentInfo.collection = info.collection ∧
      (upstream sentInfo collections).status = status ∧ collections ≠ [] ∧
      ∀ name ∈ collections, name ∈ c.allowedCollections ∧ name ∉ c.deniedCollections := by
  obtain ⟨shape, parses, -⟩ := Option.map_eq_some_iff.mp ok
  have parsed_as := parses
  rcases searchLike with search | items
  · simp only [parseSearch, classified, search, Option.isSome_none, Bool.false_eq_true, if_false,
      Option.map_eq_some_iff] at parses
    obtain ⟨sr, read, rfl⟩ := parses
    obtain ⟨narrowed, limited, sent, applied, same, status_eq⟩ := serveRoute_eq_forwarded
      constrained parsed_as rfl ok
    obtain ⟨nonempty, permitted⟩ := permits_of_applyConstraints listed applied
    refine ⟨{ info with searchReq := some sent }, sent.collections, ?_, rfl, rfl, ?_,
      same ▸ nonempty, fun name asked => ?_⟩
    · simp [asks, search]
    · simp [status_eq, handle, asks, search]
    · exact (permitted name (same ▸ asked)).2
  · simp only [parseSearch, classified, items, Option.isSome_none, Bool.false_eq_true, if_false,
      Option.map_eq_some_iff] at parses
    obtain ⟨sr, read, rfl⟩ := parses
    obtain ⟨narrowed, limited, sent, applied, same, status_eq⟩ := serveRoute_eq_forwarded
      constrained parsed_as rfl ok
    by_cases unnamed : info.collection = ""
    · simp only [handle, asks, unnamed, if_true, errorText] at status_eq
      omega
    · obtain ⟨nonempty, permitted⟩ := permits_of_applyConstraints listed applied
      obtain ⟨name, kept⟩ := List.exists_mem_of_ne_nil _ nonempty
      obtain ⟨candidate, allowed⟩ := permitted name kept
      obtain rfl : name = info.collection := by
        simpa [candidates, unnamed] using candidate
      refine ⟨{ info with searchReq := some sent }, [info.collection], ?_, rfl, rfl, ?_, by simp, ?_⟩
      · simp [asks, items, unnamed]
      · simp [status_eq, handle, asks, items, unnamed]
      · simpa using allowed

end Scope

section Sample

def scopedPolicy : AuthzDecision where
  allowed := true
  constraints := some { allowedCollections := ["a"] }

def scopedUpstream (_ : Info) (_ : List String) : Response where
  status := 200
  body := [123, 125]

/-- An items request for a collection of the allow list succeeds. -/
theorem allowed_items_served :
    serveRoute boxLibrary SearchEnforcement.sampleCql2 (fun _ => none) {} true scopedPolicy (some {})
      scopedUpstream { collection := "a", requestType := .items } =
        some (.forwarded 200 [] (.raw [123, 125])) ∧
    ∃ sentInfo collections, asks (some {}) sentInfo = some collections ∧ collections ≠ [] ∧
      ∀ name ∈ collections, name ∈ ["a"] := by
  have served : serveRoute boxLibrary SearchEnforcement.sampleCql2 (fun _ => none) {} true
      scopedPolicy (some {}) scopedUpstream { collection := "a", requestType := .items } =
        some (.forwarded 200 [] (.raw [123, 125])) := rfl
  obtain ⟨sentInfo, collections, asked, -, -, -, nonempty, allowed⟩ :=
    scope_enforced rfl (by simp) rfl (.inr rfl) served (by omega)
  exact ⟨served, sentInfo, collections, asked, nonempty, fun name listed => (allowed name listed).1⟩

/-- An item and a collection outside of the allow list are served. -/
theorem unlisted_collection_served :
    serveRoute boxLibrary SearchEnforcement.sampleCql2 (fun _ => none) {} true scopedPolicy none
      scopedUpstream { collection := "b", itemID := "i", requestType := .item } =
        some (.forwarded 200 [] (.raw [123, 125])) ∧
    serveRoute boxLibrary SearchEnforcement.sampleCql2 (fun _ => none) {} true scopedPolicy none
      scopedUpstream { collection := "b", requestType := .collection } =
        some (.forwarded 200 [] (.raw [123, 125])) ∧
    asks none { collection := "b", itemID := "i", requestType := .item } = some ["b"] ∧
    "b" ∉ ["a"] :=
  ⟨rfl, rfl, rfl, by decide⟩

end Sample

end CollectionScope
