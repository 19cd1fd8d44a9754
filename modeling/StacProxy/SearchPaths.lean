import StacProxy.FanOut
import StacProxy.PaginatedSearch

/-!
# The paths that serve a search

`handleSearch` answers a search from a single origin, from the paginated searcher or from
a plain fan-out, whichever the number of routed origins and the cursor secret call for. Here
a path is followed up to the searches it sends out for the first page: which origins are asked,
and for which collections. What the three paths ask is compared with the routing decision.
Timeouts and circuit breakers, which may keep a search from leaving, are left out.
-/

namespace SearchPaths

open CollectionRouting FanOut Interleaving SearchRequest FederatedCursor PaginatedSearch

structure HandlerConfig where
  origins : List Origin
  cursorSecret : List UInt8 := []
  defaultPageSize : Int := 0
  maxPageSize : Int := 0
  /-- Checked when the configuration is loaded. -/
  ids_nodup : (origins.map (·.id)).Nodup

/-- Disabled origins get neither a client nor a route. -/
def HandlerConfig.enabledOrigins (cfg : HandlerConfig) : List Origin :=
  cfg.origins.filter (·.enabled)

structure Handler where
  router : Router
  searcher : Option Searcher
  defaultPageSize : Int
  maxPageSize : Int

def originURLs (origins : List Origin) : Std.ExtTreeMap String String :=
  origins.foldl (fun m o => m.insert o.id o.baseURL) ∅

def newHandler (cfg : HandlerConfig) : Handler :=
  let defaultPageSize := if cfg.defaultPageSize ≤ 0 then 100 else cfg.defaultPageSize
  let maxPageSize := if cfg.maxPageSize ≤ 0 then 1000 else cfg.maxPageSize
  { router := routerOf cfg.enabledOrigins
    searcher :=
      if cfg.cursorSecret ≠ [] ∧ cfg.enabledOrigins ≠ [] then
        (newPaginatedSearcher
          { origins := originURLs cfg.enabledOrigins
            defaultPageSize := defaultPageSize
            maxPageSize := maxPageSize
            cursorSecret := cfg.cursorSecret }).toOption
      else none
    defaultPageSize := defaultPageSize
    maxPageSize := maxPageSize }

/-- The UTF-8 bytes of a string. -/
def bytes (text : String) : Name :=
  text.toList.flatMap String.utf8EncodeChar

/-- The collection names of a request as Go has them. -/
def names (req : Request) : List Name :=
  req.collections.map bytes

/-- The limit of a request once `handleSearch` has bounded it. -/
def Handler.limited (h : Handler) (req : Request) : Request :=
  let limit := if req.limit ≤ 0 then h.defaultPageSize else req.limit
  { req with limit := if h.maxPageSize < limit then h.maxPageSize else limit }

def Handler.routed (h : Handler) (req : Request) : List Origin :=
  route h.router (names req)

/-- The searches sent to origins: the origin's ID and the collection names in the body. -/
abbrev Sends := List (String × List Name)

/-- What `PaginatedSearcher.Search` sends when it is called without a cursor. -/
def firstPageSends (s : Searcher) (req : Request) (queryHash principalHash : String)
    (now : Int64) : Sends :=
  let cursor := newFederatedCursor queryHash principalHash s.origins.keys now
  let limit := s.pageLimit req
  (toFetch cursor limit).map fun id => (id, names (originRequest req cursor limit id))

/-- `handleSearch` may send these searches for the first page of a request. -/
inductive Serves (h : Handler) (req : Request) : Sends → Prop
  | empty : h.routed req = [] → Serves h req []
  /-- The body of the pass-through is the request itself. -/
  | passThrough {o : Origin} : h.routed req = [o] → Serves h req [(o.id, names (h.limited req))]
  | paginated {s : Searcher} (queryHash principalHash : String) (now : Int64) :
      2 ≤ (h.routed req).length → h.searcher = some s →
      (if req.cursor = "" then req.token else req.cursor) = "" →
      Serves h req (firstPageSends s { h.limited req with cursor := "", token := "" }
        queryHash principalHash now)
  | fanOut (schedule : List Origin) (collections : Origin → List Name) :
      2 ≤ (h.routed req).length → h.searcher = none →
      (∀ o ∈ schedule, o ∈ h.routed req) →
      (∀ o ∈ h.routed req, (run act (initial (names (h.limited req))) schedule).threads o =
        .sent (collections o)) →
      Serves h req ((h.routed req).map fun o => (o.id, collections o))

/-- What the routing decision asks for: every routed origin, for its own names. -/
def asked (h : Handler) (req : Request) : Sends :=
  (h.routed req).map fun o => (o.id, (names req).map (originName o))

/-- No mapping or prefix of the origin changes a requested name. -/
def SameNames (o : Origin) (collections : List Name) : Prop :=
  ∀ coll ∈ collections, originName o coll = coll

/-- The path that serves the request asks what the routing decision asks. A single origin and
the paginated searcher are right only about names that need no change; the searcher moreover
asks every enabled origin, and the fan-out rewrites names that its goroutines share. -/
def PathAgrees (cfg : HandlerConfig) (req : Request) : Prop :=
  match (newHandler cfg).routed req with
  | [] => True
  | [o] => SameNames o (names req)
  | routed =>
    if cfg.cursorSecret = [] then FanOutSafe routed (names req)
    else ∀ o ∈ cfg.origins, o.enabled → Answers o (names req) ∧ SameNames o (names req)

instance (o : Origin) (collections : List Name) : Decidable (SameNames o collections) := by
  unfold SameNames
  infer_instance

instance (cfg : HandlerConfig) (req : Request) : Decidable (PathAgrees cfg req) := by
  unfold PathAgrees
  split <;> infer_instance

section Routing
variable {cfg : HandlerConfig} {req : Request} {o : Origin}

theorem enabled_nodup : (cfg.enabledOrigins.map (·.id)).Nodup :=
  cfg.ids_nodup.sublist (List.filter_sublist.map _)

theorem mem_routed : o ∈ (newHandler cfg).routed req ↔
    o ∈ cfg.origins ∧ o.enabled ∧ Answers o (names req) := by
  have chosen : o ∈ (newHandler cfg).routed req ↔
      o ∈ cfg.enabledOrigins ∧ o.enabled ∧ Answers o (names req) := mem_route enabled_nodup
  rw [chosen, HandlerConfig.enabledOrigins, List.mem_filter]
  constructor
  · rintro ⟨⟨member, on⟩, _, answers⟩
    exact ⟨member, on, answers⟩
  · rintro ⟨member, on, answers⟩
    exact ⟨⟨member, on⟩, on, answers⟩

theorem routed_nodup : (((newHandler cfg).routed req).map (·.id)).Nodup :=
  route_nodup enabled_nodup (names req)

theorem eq_of_id {w : Origin} (ho : o ∈ (newHandler cfg).routed req)
    (hw : w ∈ (newHandler cfg).routed req) (same : o.id = w.id) : o = w :=
  List.inj_on_of_nodup_map routed_nodup ho hw same

theorem names_limited (h : Handler) : names (h.limited req) = names req := rfl

theorem mem_originURLs {origins : List Origin} {id : String} :
    id ∈ originURLs origins ↔ ∃ o ∈ origins, o.id = id :=
  KeyedMap.mem_foldl_insert

theorem searcher_none (unkeyed : cfg.cursorSecret = []) : (newHandler cfg).searcher = none := by
  simp [newHandler, unkeyed]

/-- With a secret and an enabled origin there is a searcher, over the enabled origins. -/
theorem searcher_some (keyed : cfg.cursorSecret ≠ []) (nonempty : cfg.enabledOrigins ≠ []) :
    ∃ s, (newHandler cfg).searcher = some s ∧ s.origins = originURLs cfg.enabledOrigins := by
  simp [newHandler, newPaginatedSearcher, keyed, nonempty, Except.toOption]

theorem origins_of_searcher {s : Searcher} (found : (newHandler cfg).searcher = some s) :
    cfg.cursorSecret ≠ [] ∧ s.origins = originURLs cfg.enabledOrigins := by
  have keyed : cfg.cursorSecret ≠ [] := by
    intro unkeyed
    rw [searcher_none unkeyed] at found
    cases found
  have nonempty : cfg.enabledOrigins ≠ [] := by
    intro none_enabled
    simp [newHandler, none_enabled] at found
  obtain ⟨s', built, origins⟩ := searcher_some keyed nonempty
  rw [found] at built
  cases built
  exact ⟨keyed, origins⟩

end Routing

section Paginated
variable {cfg : HandlerConfig} {req : Request} {s : Searcher}

theorem pageLimit_pos (s : Searcher) (req : Request) : 0 < s.pageLimit req := by
  have := s.pageSize_pos
  unfold Searcher.pageLimit
  split <;> omega

/-- The first page of the searcher asks every origin it knows. -/
theorem mem_toFetch_first {ids : List String} {queryHash principalHash : String} {now : Int64}
    {limit : Nat} (room : 0 < limit) {id : String} :
    id ∈ toFetch (newFederatedCursor queryHash principalHash ids now) limit ↔ id ∈ ids := by
  rw [mem_toFetch]
  simp only [origins_newFederatedCursor]
  constructor
  · rintro ⟨oc, found, _⟩
    by_contra missing
    simp [missing] at found
  · intro member
    exact ⟨{ id := id }, by simp [member], rfl,
      by simp [OriginCursor.retired, maxOriginErrorRetries], room⟩

@[simp] theorem collections_originRequest (req : Request) (c : Cursor) (limit : Nat) (id : String) :
    (originRequest req c limit id).collections = req.collections := by
  unfold originRequest
  split <;> rfl

theorem firstPageSends_eq (req : Request) (queryHash principalHash : String) (now : Int64) :
    firstPageSends s req queryHash principalHash now =
      (toFetch (newFederatedCursor queryHash principalHash s.origins.keys now)
        (s.pageLimit req)).map fun id => (id, names req) := by
  apply List.map_congr_left
  intro id _
  rw [names, collections_originRequest]
  rfl

end Paginated

section Agreement
variable {cfg : HandlerConfig} {req : Request}

theorem asked_eq_of_sameNames {routed : List Origin} {collections : List Name}
    (same : ∀ o ∈ routed, SameNames o collections) :
    (routed.map fun o => (o.id, collections.map (originName o))) =
      routed.map fun o => (o.id, collections) := by
  apply List.map_congr_left
  intro o member
  rw [List.map_congr_left (same o member)]
  simp

/-- Every origin asked, and nothing else, in a list without repetition. -/
theorem perm_asked {ids : List String} {collections : List Name} {routed : List Origin}
    (distinct : ids.Nodup) (once : (routed.map (·.id)).Nodup)
    (members : ∀ id, id ∈ ids ↔ ∃ o ∈ routed, o.id = id)
    (same : ∀ o ∈ routed, SameNames o collections) :
    (ids.map fun id => (id, collections)).Perm
      (routed.map fun o => (o.id, collections.map (originName o))) := by
  have ids_perm : ids.Perm (routed.map (·.id)) := by
    rw [List.perm_ext_iff_of_nodup distinct once]
    intro id
    rw [members, List.mem_map]
  rw [asked_eq_of_sameNames same]
  have := ids_perm.map fun id => (id, collections)
  rwa [List.map_map] at this

theorem sameNames_of_map_eq {o : Origin} {collections : List Name}
    (same : collections.map (originName o) = collections) : SameNames o collections := by
  have : ∀ coll ∈ collections, originName o coll = id coll := by
    apply List.map_inj_left.mp
    rw [same, List.map_id]
  exact this

/-- The names sent to a routed origin are settled by its ID. -/
theorem eq_of_mem_asked {o : Origin} {sent : List Name} (routed : o ∈ (newHandler cfg).routed req)
    (member : (o.id, sent) ∈ asked (newHandler cfg) req) :
    sent = (names req).map (originName o) := by
  obtain ⟨w, hw, same⟩ := List.mem_map.mp member
  obtain ⟨ids, sents⟩ := Prod.mk.injEq _ _ _ _ ▸ same
  rw [← sents, eq_of_id hw routed ids]

theorem two_le_length {α : Type} {l : List α} (nonempty : l ≠ []) (many : ∀ a, l ≠ [a]) :
    2 ≤ l.length := by
  match l with
  | [] => exact absurd rfl nonempty
  | [a] => exact absurd rfl (many a)
  | _ :: _ :: _ => simp

theorem pathAgrees_many (many : 2 ≤ ((newHandler cfg).routed req).length) :
    PathAgrees cfg req ↔ if cfg.cursorSecret = []
      then FanOutSafe ((newHandler cfg).routed req) (names req)
      else ∀ o ∈ cfg.origins, o.enabled → Answers o (names req) ∧ SameNames o (names req) := by
  unfold PathAgrees
  split
  · rename_i none_routed
    simp [none_routed] at many
  · rename_i single
    simp [single] at many
  · rfl

theorem enabled_ne_nil (many : 2 ≤ ((newHandler cfg).routed req).length) :
    cfg.enabledOrigins ≠ [] := by
  obtain ⟨o, routed⟩ := List.exists_mem_of_length_pos
    (l := (newHandler cfg).routed req) (by omega)
  obtain ⟨member, on, _⟩ := mem_routed.mp routed
  exact List.ne_nil_of_mem (List.mem_filter.mpr ⟨member, on⟩)

/-- Under the condition, whatever path serves the request asks as routed. -/
theorem perm_of_agrees (agrees : PathAgrees cfg req) {sends : Sends}
    (served : Serves (newHandler cfg) req sends) : sends.Perm (asked (newHandler cfg) req) := by
  cases served with
  | empty none_routed => simp [asked, none_routed]
  | @passThrough o single =>
    have same : SameNames o (names req) := by simpa [PathAgrees, single] using agrees
    have := asked_eq_of_sameNames (List.forall_mem_singleton.mpr same)
    rw [asked, single, this, names_limited]
    rfl
  | @paginated s queryHash principalHash now many found _ =>
    obtain ⟨keyed, origins⟩ := origins_of_searcher found
    rw [pathAgrees_many many, if_neg keyed] at agrees
    rw [firstPageSends_eq]
    apply perm_asked toFetch_nodup routed_nodup
    · intro id
      rw [mem_toFetch_first (pageLimit_pos _ _), Std.ExtTreeMap.mem_keys, origins, mem_originURLs]
      simp only [HandlerConfig.enabledOrigins, List.mem_filter, mem_routed]
      constructor
      · rintro ⟨o, ⟨member, on⟩, here⟩
        exact ⟨o, ⟨member, on, (agrees o member on).1⟩, here⟩
      · rintro ⟨o, ⟨member, on, _⟩, here⟩
        exact ⟨o, ⟨member, on⟩, here⟩
    · intro o routed
      obtain ⟨member, on, _⟩ := mem_routed.mp routed
      exact (agrees o member on).2
  | fanOut schedule collections many found within sent =>
    have unkeyed : cfg.cursorSecret = [] := by
      by_contra keyed
      obtain ⟨s, built, _⟩ := searcher_some keyed (enabled_ne_nil many)
      rw [found] at built
      cases built
    rw [pathAgrees_many many, if_pos unkeyed] at agrees
    rw [asked]
    apply List.Perm.of_eq
    apply List.map_congr_left
    intro o routed
    rw [sent_of_safe agrees within routed (sent o routed)]

section Needed
variable (always : ∀ sends, Serves (newHandler cfg) req sends →
  sends.Perm (asked (newHandler cfg) req))

include always in
/-- What a finished fan-out has sent to an origin is what the routing asks of it. -/
theorem sent_as_asked (many : 2 ≤ ((newHandler cfg).routed req).length)
    (unkeyed : cfg.cursorSecret = []) {o : Origin} (routed : o ∈ (newHandler cfg).routed req)
    {sent : List Name}
    (run_ : ∃ schedule : List Origin, (∀ w ∈ schedule, w ∈ (newHandler cfg).routed req) ∧
      (∀ w ∈ (newHandler cfg).routed req,
        ∃ names', (run act (initial (names req)) schedule).threads w = .sent names') ∧
      (run act (initial (names req)) schedule).threads o = .sent sent) :
    sent = (names req).map (originName o) := by
  obtain ⟨schedule, within, finished, here⟩ := run_
  choose! collections sends using finished
  have served := always _ (.fanOut schedule collections many (searcher_none unkeyed) within sends)
  have member : (o.id, collections o) ∈ asked (newHandler cfg) req :=
    served.mem_iff.mp (List.mem_map_of_mem routed)
  have same := here.symm.trans (sends o routed)
  cases same
  exact eq_of_mem_asked routed member

include always in
theorem fanOutSafe_of_perm (many : 2 ≤ ((newHandler cfg).routed req).length)
    (unkeyed : cfg.cursorSecret = []) :
    FanOutSafe ((newHandler cfg).routed req) (names req) := by
  intro coll requested o ho
  constructor
  · have same := sent_as_asked always many unkeyed ho (exists_run_alone_first ho)
    exact List.map_inj_left.mp same coll requested
  · intro w hw other plain
    have same := sent_as_asked always many unkeyed ho (exists_run_second ho hw other plain)
    exact List.map_inj_left.mp same coll requested

include always in
theorem searcher_agrees_of_perm (first : req.cursor = "" ∧ req.token = "")
    (many : 2 ≤ ((newHandler cfg).routed req).length) (keyed : cfg.cursorSecret ≠ [])
    {o : Origin} (member : o ∈ cfg.origins) (on : o.enabled) :
    Answers o (names req) ∧ SameNames o (names req) := by
  obtain ⟨s, built, origins⟩ := searcher_some keyed (enabled_ne_nil many)
  have served := always _ (.paginated "" "" 0 many built (by simp [first]))
  rw [firstPageSends_eq] at served
  have sent : (o.id, names req) ∈ asked (newHandler cfg) req := by
    apply served.mem_iff.mp
    refine List.mem_map.mpr ⟨o.id, ?_, rfl⟩
    rw [mem_toFetch_first (pageLimit_pos _ _), Std.ExtTreeMap.mem_keys, origins, mem_originURLs]
    exact ⟨o, List.mem_filter.mpr ⟨member, on⟩, rfl⟩
  obtain ⟨w, routed, same⟩ := List.mem_map.mp sent
  obtain ⟨ids, kept⟩ := Prod.mk.injEq _ _ _ _ ▸ same
  obtain ⟨member', _, answers⟩ := mem_routed.mp routed
  obtain rfl := List.inj_on_of_nodup_map cfg.ids_nodup member' member ids
  exact ⟨answers, sameNames_of_map_eq kept⟩

include always in
theorem agrees_of_perm (first : req.cursor = "" ∧ req.token = "") : PathAgrees cfg req := by
  by_cases nonempty : (newHandler cfg).routed req = []
  · simp [PathAgrees, nonempty]
  by_cases single : ∃ o, (newHandler cfg).routed req = [o]
  · obtain ⟨o, single⟩ := single
    have served := always _ (.passThrough single)
    rw [asked, single, List.map_singleton, List.perm_singleton] at served
    simp only [List.cons.injEq, Prod.mk.injEq, true_and, and_true] at served
    simpa [PathAgrees, single] using sameNames_of_map_eq served.symm
  have many := two_le_length nonempty fun o here => single ⟨o, here⟩
  rw [pathAgrees_many many]
  split
  · rename_i unkeyed
    exact fanOutSafe_of_perm always many unkeyed
  · rename_i keyed
    exact fun o member on => searcher_agrees_of_perm always first many keyed member on

end Needed

end Agreement

/-- Some path serves every first page. -/
theorem exists_serves (cfg : HandlerConfig) (req : Request)
    (first : req.cursor = "" ∧ req.token = "") : ∃ sends, Serves (newHandler cfg) req sends := by
  by_cases nonempty : (newHandler cfg).routed req = []
  · exact ⟨_, .empty nonempty⟩
  by_cases single : ∃ o, (newHandler cfg).routed req = [o]
  · obtain ⟨o, single⟩ := single
    exact ⟨_, .passThrough single⟩
  have many := two_le_length nonempty fun o here => single ⟨o, here⟩
  cases found : (newHandler cfg).searcher with
  | some s => exact ⟨_, .paginated "" "" 0 many found (by simp [first])⟩
  | none =>
    obtain ⟨schedule, within, finished, _⟩ := exists_finish ((newHandler cfg).routed req)
      (initial_settled (names ((newHandler cfg).limited req)))
    choose! collections sent using finished
    exact ⟨_, .fanOut schedule collections many found within sent⟩

/-- The path that serves a first page asks the routed origins, and each for its own names of the
requested collections, exactly under `PathAgrees`. -/
theorem serves_as_routed_iff (cfg : HandlerConfig) (req : Request)
    (first : req.cursor = "" ∧ req.token = "") :
    (∀ sends, Serves (newHandler cfg) req sends → sends.Perm (asked (newHandler cfg) req)) ↔
      PathAgrees cfg req := by
  constructor
  · exact fun always => agrees_of_perm always first
  · exact fun agrees sends served => perm_of_agrees agrees served

/-- An origin that serves its collection `x` as `a-x`. -/
def prefixed : Origin where
  id := "a"
  baseURL := "https://api.example.com"
  collections := [bytes "x"]
  collectionPrefix := bytes "a-"

def prefixedRequest : Request := { collections := ["a-x"] }

def twinConfig : HandlerConfig where
  origins := [prefixed, { prefixed with id := "c" }]
  ids_nodup := by decide

/-- Two origins with the same prefix are safe in a fan-out when nothing is left to cut from the
name that the first of them leaves. -/
theorem twins_served_as_routed :
    (newHandler twinConfig).searcher = none ∧ ∀ sends,
      Serves (newHandler twinConfig) prefixedRequest sends →
        sends.Perm [("a", [bytes "x"]), ("c", [bytes "x"])] := by
  refine ⟨rfl, fun sends served => ?_⟩
  have agrees : PathAgrees twinConfig prefixedRequest := by decide
  exact (serves_as_routed_iff twinConfig prefixedRequest ⟨rfl, rfl⟩).mpr agrees sends served

/-- An origin that may serve any collection. -/
def unlisted : Origin where
  id := "b"
  baseURL := "https://stac.example.com"
  searchable := true

def soleConfig : HandlerConfig where
  origins := [prefixed]
  ids_nodup := by decide

def pairConfig (secret : List UInt8) : HandlerConfig where
  origins := [prefixed, unlisted]
  cursorSecret := secret
  ids_nodup := by decide

theorem pair_routed (secret : List UInt8) :
    (newHandler (pairConfig secret)).routed prefixedRequest = [prefixed, unlisted] := by
  change (newHandler (pairConfig [])).routed prefixedRequest = _
  decide

/-- The pass-through and the searcher ask origin `a` for `a-x`, which it calls `x`; the fan-out
can ask origin `b`, which has no prefix, for `x`. -/
theorem served_under_wrong_names :
    (asked (newHandler soleConfig) prefixedRequest = [("a", [bytes "x"])] ∧
      Serves (newHandler soleConfig) prefixedRequest [("a", [bytes "a-x"])]) ∧
    (∀ secret, asked (newHandler (pairConfig secret)) prefixedRequest =
      [("a", [bytes "x"]), ("b", [bytes "a-x"])]) ∧
    Serves (newHandler (pairConfig [1])) prefixedRequest
      [("a", [bytes "a-x"]), ("b", [bytes "a-x"])] ∧
    Serves (newHandler (pairConfig [])) prefixedRequest
      [("a", [bytes "x"]), ("b", [bytes "x"])] := by
  refine ⟨⟨by decide, .passThrough (o := prefixed) (by decide)⟩, fun secret => ?_, ?_, ?_⟩
  · rw [asked, pair_routed]
    decide
  · exact .paginated "" "" 0 (by rw [pair_routed [1]]; decide) rfl rfl
  · -- Origin `a` runs to the end before origin `b` starts.
    have served := @Serves.fanOut (newHandler (pairConfig [])) prefixedRequest
      (List.replicate 5 prefixed ++ List.replicate 2 unlisted) (fun _ => [bytes "x"])
    rw [pair_routed] at served
    apply served (by decide) rfl (by decide)
    intro o member
    rcases List.mem_cons.mp member with rfl | member
    · rfl
    · obtain rfl := List.mem_singleton.mp member
      rfl

end SearchPaths
