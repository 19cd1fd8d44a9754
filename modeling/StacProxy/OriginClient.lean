import StacProxy.PageAdapter
import StacProxy.PageMerge
import StacProxy.SearchRequest

/-!
# Searching one origin

`OriginClient.Search` turns a search request into an HTTP request of the origin, and
`OriginClientSearcher` reads the next page from the response with the adapter that the
configuration or an earlier page has chosen. The body of a request to `/search` is given as
decoded JSON, a replayed body as the text that was captured.
-/

namespace OriginClient

open JsonValue StacItem SearchRequest PageMerge PageAdapter

def sortSpecJson (spec : SortSpec) : Json :=
  .obj [("field", .str spec.field), ("direction", .str spec.direction)]

def strings (texts : List String) : Json := .arr (texts.map .str)

/-- A member marked `omitempty`. -/
def optionalMember (name : String) (empty : Bool) (value : Json) : Members :=
  if empty then [] else [(name, value)]

def fieldsJson (spec : FieldsSpec) : Json :=
  .obj (optionalMember "include" spec.includes.isEmpty (strings spec.includes) ++
    optionalMember "exclude" spec.excludes.isEmpty (strings spec.excludes))

/-- The members of a request that say what is searched for. -/
def queryMembers (req : Request) : Members :=
  optionalMember "collections" req.collections.isEmpty (strings req.collections) ++
  optionalMember "ids" req.ids.isEmpty (strings req.ids) ++
  optionalMember "bbox" req.bbox.isEmpty (.arr (req.bbox.map .num)) ++
  optionalMember "intersects" req.intersects.isNone (req.intersects.getD .null) ++
  optionalMember "datetime" (req.datetime == "") (.str req.datetime) ++
  optionalMember "sortby" req.sortby.isEmpty (.arr (req.sortby.map sortSpecJson)) ++
  optionalMember "filter" req.filter.isNone (req.filter.getD .null) ++
  optionalMember "filter-lang" (req.filterLang == "") (.str req.filterLang) ++
  optionalMember "filter-crs" (req.filterCRS == "") (.str req.filterCRS) ++
  optionalMember "query" req.query.isEmpty (.obj req.query) ++
  optionalMember "fields" req.fields.isNone ((req.fields.map fieldsJson).getD .null)

/-- The members of a request that say which page of the results is wanted. -/
def pageMembers (req : Request) : Members :=
  optionalMember "limit" (req.limit == 0) (.num req.limit) ++
  optionalMember "cursor" (req.cursor == "") (.str req.cursor) ++
  optionalMember "token" (req.token == "") (.str req.token) ++
  optionalMember "next" (req.next == "") (.str req.next)

/-- `json.Marshal(req)`. -/
def requestBody (req : Request) : Json :=
  .obj (queryMembers req ++ pageMembers req)

inductive Outbound where
  /-- POST to the search endpoint of the origin. -/
  | search (body : Json)
  | post (url body : String)
  | get (url : String)

/-- A decoded response with status 200. -/
structure Answer where
  features : List (Option Item) := []
  links : List (Option Link) := []
  linkHeader : List String := []

/-- An origin client with the adapter that the origin is configured with. -/
structure Client (lib : Library) where
  baseURL : String
  base : Url
  adapter : Adapter := .auto
  config : Config := {}
  /-- The text of a parsed URL parses to that URL. -/
  parsed : lib.parseURL baseURL = some base

variable {lib : Library} (client : Client lib)

def Client.urlRootedAtBase (fullURL : String) : Bool :=
  fullURL != "" && (lib.parseURL fullURL).any fun u => rootedAt lib u client.base

/-- The HTTP request of a search, or `none` if its override URL is refused. -/
def Client.outbound (req : Request) : Option Outbound :=
  if req.overrideURL ≠ "" then
    if client.urlRootedAtBase req.overrideURL then
      some (if req.overrideBody ≠ "" then .post req.overrideURL req.overrideBody
        else .get req.overrideURL)
    else none
  else some (.search (requestBody req))

/-- The adapters an `auto` searcher can be locked into; a response that `auto` read with
`post_body` is read by `auto` again on the next page. -/
def registry : List Convention := [.token, .nextURL, .offset, .linkHeader]

def Client.pickAdapter (adapterName : String) : Adapter :=
  match client.adapter, registry.find? (·.name == adapterName) with
  | .auto, some convention => .named convention
  | adapter, _ => adapter

def Client.received (answer : Answer) : UpstreamResponse where
  features := answer.features
  links := answer.links
  linkHeader := answer.linkHeader
  baseURL := client.baseURL

/-- `OriginClientSearcher.Search` against an origin that answers HTTP requests as `server`. -/
def Client.search (server : Outbound → Except OriginError Answer) (req : Request) : SearchReply :=
  match client.outbound req with
  | none => { error := some .fetchFailed }
  | some out => match server out with
    | .error e => { error := some e }
    | .ok answer =>
      match (client.pickAdapter req.adapterName).capture lib client.config
          (client.received answer) with
      | .error _ => { items := answer.features, error := some .fetchFailed }
      | .ok st =>
        if st.done then { items := answer.features }
        else {
          items := answer.features
          nextToken := st.token
          nextURL := st.url
          nextBody := st.body
          adapterName := st.adapterName }

section Spec
variable {client} {server : Outbound → Except OriginError Answer} {req : Request} {out : Outbound}
  {answer : Answer} {link : Link} {body : Json}

/-- An address that passed the adapter's check passes the client's. -/
theorem urlRootedAtBase_of_sameOrigin {url : String} (nonempty : url ≠ "")
    (rooted : sameOrigin lib url client.baseURL) : client.urlRootedAtBase url := by
  simp only [sameOrigin, client.parsed, Bool.or_eq_true, beq_iff_eq, nonempty, false_or] at rooted
  cases parsed : lib.parseURL url with
  | none => simp [parsed] at rooted
  | some u =>
    rw [parsed] at rooted
    simp [Client.urlRootedAtBase, nonempty, parsed, rooted]

/-- A POST link is handed to the paginator as its address and the text of its body. -/
theorem search_postLink (sent : client.outbound req = some out) (answered : server out = .ok answer)
    (post : PostLink lib (client.received answer) link body)
    (understands : client.pickAdapter req.adapterName = .auto ∨
      client.pickAdapter req.adapterName = .named .postBody) :
    ∃ reply, client.search server req = reply ∧ reply.error = none ∧ reply.nextURL = link.href ∧
      reply.nextBody = lib.marshal body := by
  obtain ⟨st, captured, more, _, url, text⟩ := capture_postLink client.config post understands
  refine ⟨_, rfl, ?_⟩
  simp [Client.search, sent, answered, captured, more, url, text]

/-- All that a search can come to. -/
inductive Searched (client : Client lib) (server : Outbound → Except OriginError Answer)
    (req : Request) : SearchReply → Prop
  | unsent : client.outbound req = none → Searched client server req { error := some .fetchFailed }
  | unanswered {out : Outbound} {e : OriginError} : client.outbound req = some out →
      server out = .error e → Searched client server req { error := some e }
  | refused {out : Outbound} {answer : Answer} {e : CaptureError} :
      client.outbound req = some out → server out = .ok answer →
      (client.pickAdapter req.adapterName).capture lib client.config (client.received answer) =
        .error e →
      Searched client server req { items := answer.features, error := some .fetchFailed }
  | last {out : Outbound} {answer : Answer} : client.outbound req = some out →
      server out = .ok answer → Searched client server req { items := answer.features }
  | linked {out : Outbound} {answer : Answer} {st : NextState} : client.outbound req = some out →
      server out = .ok answer →
      (client.pickAdapter req.adapterName).capture lib client.config (client.received answer) =
        .ok st →
      Searched client server req {
        items := answer.features
        nextToken := st.token
        nextURL := st.url
        nextBody := st.body
        adapterName := st.adapterName }

theorem search_cases (client : Client lib) (server : Outbound → Except OriginError Answer)
    (req : Request) : Searched client server req (client.search server req) := by
  unfold Client.search
  split
  · rename_i unsent
    exact .unsent unsent
  · rename_i out sent
    split
    · rename_i e unanswered
      exact .unanswered sent unanswered
    · rename_i answer answered
      split
      · rename_i e refused
        exact .refused sent answered refused
      · rename_i st captured
        split
        · exact .last sent answered
        · exact .linked sent answered captured

/-- A next URL that the client is to follow is one the client accepts. -/
theorem urlRootedAtBase_of_search (linked : (client.search server req).nextURL ≠ "") :
    client.urlRootedAtBase (client.search server req).nextURL := by
  refine urlRootedAtBase_of_sameOrigin linked ?_
  have searched := search_cases client server req
  generalize client.search server req = reply at searched linked ⊢
  cases searched with
  | unsent _ | unanswered _ _ | refused _ _ _ | last _ _ => exact absurd rfl linked
  | linked _ _ captured => exact sameOrigin_of_capture captured

end Spec

end OriginClient
