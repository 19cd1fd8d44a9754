import StacProxy.OriginClient
import StacProxy.RecordedSession

/-!
# The body of a follow-up page

An origin may link to its next page with a POST of a body, and may ask with `merge` that
this body be combined with the one of the original request. The link passes through the
adapter, the cursor and the client before it is followed. What is posted in the end is the
body of the link, whatever `merge` says.
-/

namespace FollowUpBody

open JsonValue StacItem SearchRequest FederatedCursor CursorWire PageMerge PaginatedSearch
  SearchSession RecordedSession PageAdapter OriginClient

/-- A member of a decoded value, if it is an object that has one. -/
def field? (value : Json) (name : String) : Option Json :=
  value.asObject?.bind (·.get? name)

/-- The link asks for its body to be merged into the original one. -/
def asksMerge (link : Link) : Bool :=
  match link.additionalFields.get? "merge" with
  | some (.bool b) => b
  | _ => false

/-- Every member of the original is there unless the patch replaces it, and the patch is there
as a whole. -/
structure MergedInto (original : Members) (patch sent : Json) : Prop where
  patched : ∀ name value, field? patch name = some value → field? sent name = some value
  kept : ∀ name value, original.get? name = some value → field? patch name = none →
    field? sent name = some value

/-- The posted text is the body that the link asks for. -/
def FollowsLink (decode : String → Option Json) (req : Request) (link : Link) (body : Json)
    (posted : String) : Prop :=
  ∃ sent, decode posted = some sent ∧
    if asksMerge link then MergedInto (queryMembers req) body sent else sent = body

/-- Every member of the request that says what is searched for is in the body of the link. -/
def Restated (req : Request) (body : Json) : Prop :=
  ∀ name, ((queryMembers req).get? name).isSome → (field? body name).isSome

/-- Posting the body of the link alone honours a merge only if there is nothing to merge. -/
theorem followsLink_marshal_iff {decode : String → Option Json} {req : Request} {link : Link}
    {body : Json} {posted : String} (faithful : decode posted = some body) :
    FollowsLink decode req link body posted ↔ (asksMerge link → Restated req body) := by
  rw [FollowsLink, faithful]
  simp only [Option.some.injEq, exists_eq_left']
  split
  · rename_i asks
    constructor
    · intro merged _ name asked
      obtain ⟨value, found⟩ := Option.isSome_iff_exists.mp asked
      by_contra missing
      have absent : field? body name = none := by simpa using missing
      have kept := merged.kept name value found absent
      simp [absent] at kept
    · intro restated
      refine ⟨fun _ _ patched => patched, fun name value found absent => ?_⟩
      have := restated asks name (by simp [found])
      simp [absent] at this
  · rename_i alone
    simp [alone]

section Replay
variable {S : Session} {n : Nat} {c c' : Cursor} {token token' id href text : String}

/-- The cursor will have the origin fetched with a POST of `text` to `href`. -/
def Points (c : Cursor) (id href text : String) : Prop :=
  ∃ oc, c.origins[id]? = some oc ∧ oc.nextURL = href ∧ oc.nextBody = text

def ServedAt (S : Session) (n : Nat) (id : String) : Prop :=
  ∃ c token, S.cursorAt n = some (c, token) ∧ id ∈ toFetch c S.limit ∧
    (S.fetch n c id).error = none

/-- A served origin points to what its reply links to. -/
theorem points_of_served (before : S.cursorAt n = some (c, token))
    (after : S.cursorAt (n + 1) = some (c', token')) (fetched : id ∈ toFetch c S.limit)
    (fine : (S.fetch n c id).error = none) :
    Points c' id (S.fetch n c id).nextURL (S.fetch n c id).nextBody := by
  obtain ⟨oc, present, _⟩ := mem_toFetch.mp fetched
  obtain ⟨oc', present', progress⟩ := origin_after before after present
  refine ⟨oc'.clone, present', ?_⟩
  cases progress with
  | skipped _ unselected => exact absurd fetched unselected
  | failed _ _ failed => simp [fine] at failed
  | served stash lastSort _ _ => exact ⟨rfl, rfl⟩

/-- An origin that is not served keeps its pointer. -/
theorem points_of_unserved (before : S.cursorAt n = some (c, token))
    (after : S.cursorAt (n + 1) = some (c', token')) (unserved : ¬ ServedAt S n id)
    (points : Points c id href text) : Points c' id href text := by
  obtain ⟨oc, present, url, body⟩ := points
  obtain ⟨oc', present', progress⟩ := origin_after before after present
  refine ⟨oc'.clone, present', ?_⟩
  cases progress with
  | skipped _ _ | failed _ _ _ => exact ⟨url, body⟩
  | served _ _ fetched fine => exact absurd ⟨c, token, before, fetched, fine⟩ unserved

/-- The pointer of a served page lasts until the origin is served again. -/
theorem points_until_served (before : S.cursorAt n = some (c, token))
    (fetched : id ∈ toFetch c S.limit) (fine : (S.fetch n c id).error = none) {k : Nat}
    (waiting : ∀ j, n < j → j < n + 1 + k → ¬ ServedAt S j id)
    (after : S.cursorAt (n + 1 + k) = some (c', token')) :
    Points c' id (S.fetch n c id).nextURL (S.fetch n c id).nextBody := by
  induction k generalizing c' token' with
  | zero => exact points_of_served before after fetched fine
  | succ k ih =>
    obtain ⟨c₁, token₁, _, before₁, _⟩ := cursorAt_succ_iff.mp after
    have points := ih (fun j later early => waiting j later (by omega)) before₁
    exact points_of_unserved before₁ after (waiting (n + 1 + k) (by omega) (by omega)) points

/-- A pointer with a body is followed with a POST of that body. -/
theorem outbound_of_points {lib : Library} {client : Client lib} {limit : Nat} {req : Request}
    (points : Points c id href text) (linked : href ≠ "") (bodied : text ≠ "")
    (rooted : client.urlRootedAtBase href) :
    client.outbound (originRequest req c limit id) = some (.post href text) := by
  obtain ⟨oc, present, rfl, rfl⟩ := points
  simp [Client.outbound, originRequest, present, linked, bodied, rooted]

end Replay

/-- On page `n` the origin answered with a POST link, which an adapter that understands such links
has read. -/
structure Captured {lib : Library} (S : Session) (client : Client lib)
    (server : Outbound → Except OriginError Answer) (id : String) (n : Nat) (c : Cursor)
    (link : Link) (body : Json) : Prop where
  known : id ∈ S.searcher.origins
  current : ∃ token, S.cursorAt n = some (c, token)
  fetched : id ∈ toFetch c S.limit
  searched : (S.visit n).upstream id (originRequest S.request c S.limit id) =
    client.search server (originRequest S.request c S.limit id)
  answered : ∃ out answer, client.outbound (originRequest S.request c S.limit id) = some out ∧
    server out = .ok answer ∧ PostLink lib (client.received answer) link body
  understands :
    client.pickAdapter (originRequest S.request c S.limit id).adapterName = .auto ∨
      client.pickAdapter (originRequest S.request c S.limit id).adapterName = .named .postBody

section Captures
variable {lib : Library} {S : Session} {client : Client lib}
  {server : Outbound → Except OriginError Answer} {id : String} {n : Nat} {c : Cursor}
  {link : Link} {body : Json}

theorem Captured.fetch (captured : Captured S client server id n c link body) :
    (S.fetch n c id).error = none ∧ (S.fetch n c id).nextURL = link.href ∧
      (S.fetch n c id).nextBody = lib.marshal body := by
  obtain ⟨out, answer, sent, answered, post⟩ := captured.answered
  obtain ⟨reply, searched, fine, url, text⟩ :=
    search_postLink sent answered post captured.understands
  rw [← captured.searched] at searched
  simp only [Session.fetch, fetchOrigin, captured.known, if_true, searched]
  exact ⟨fine, url, text⟩

/-- The next time the origin is fetched, the body of the link is posted to its address. -/
theorem outbound_followUp (captured : Captured S client server id n c link body) {k : Nat}
    (later : n < k) (waiting : ∀ j, n < j → j < k → ¬ ServedAt S j id) {c' : Cursor}
    {token' : String} (after : S.cursorAt k = some (c', token')) :
    client.outbound (originRequest S.request c' S.limit id) =
      some (.post link.href (lib.marshal body)) := by
  obtain ⟨token, before⟩ := captured.current
  obtain ⟨fine, url, text⟩ := captured.fetch
  obtain ⟨d, rfl⟩ : ∃ d, k = n + 1 + d := ⟨k - (n + 1), by omega⟩
  have points := points_until_served before captured.fetched fine waiting after
  rw [url, text] at points
  obtain ⟨_, _, _, _, post⟩ := captured.answered
  exact outbound_of_points points post.href (lib.marshal_ne_empty body)
    (urlRootedAtBase_of_sameOrigin post.href post.rooted)

end Captures

/-- The follow-up of a POST link, presented with its token and sent to the origin, has the body
that the link asks for exactly if the link asks for no merge or leaves nothing to merge. -/
theorem followUp_body_iff {lib : Library} {S : Session} (coherent : S.Coherent)
    {client : Client lib} {server : Outbound → Except OriginError Answer} {id : String} {n : Nat}
    {c : Cursor} {link : Link} {body : Json}
    (captured : Captured S client server id n c link body)
    (decode : String → Option Json) (faithful : decode (lib.marshal body) = some body)
    {k : Nat} (later : n < k) (waiting : ∀ j, n < j → j < k → ¬ ServedAt S j id)
    {minted presented : Cursor} {token : String} (after : S.cursorAt k = some (minted, token))
    (accepted : decodeCursor S.wire token S.searcher.cursorSecret S.searcher.origins
      S.principalHash (S.visit k).now = .ok presented) :
    ∃ posted, client.outbound (originRequest S.request presented S.limit id) =
        some (.post link.href posted) ∧
      (FollowsLink decode S.request link body posted ↔
        (asksMerge link → Restated S.request body)) := by
  have same : presented = minted := by
    obtain ⟨k, rfl⟩ := Nat.exists_eq_add_of_lt (Nat.zero_lt_of_lt later)
    have decoded := coherent.roundTrips (0 + k) minted token after
    exact Except.ok.inj (accepted.symm.trans decoded)
  subst same
  exact ⟨lib.marshal body, outbound_followUp captured later waiting after,
    followsLink_marshal_iff faithful⟩

/-- The parts of the standard library, right about the texts that occur below. -/
def sampleLibrary : Library where
  parseURL url :=
    if url = "https://api.example.com" then
      some { scheme := "https", host := "api.example.com", path := "", queryGet := fun _ => "" }
    else if url = "https://api.example.com/search" then
      some { scheme := "https", host := "api.example.com", path := "/search", queryGet := fun _ => "" }
    else none
  equalFold a b := a.toList.map Char.toLower == b.toList.map Char.toLower
  marshal
    | .obj [("token", .str _)] => "\x7b\"token\":\"t\"\x7d"
    | _ => "\x7b\"collections\":[\"x\"],\"token\":\"t\"\x7d"
  marshal_ne_empty value := by split <;> decide

def sampleClient : Client sampleLibrary where
  baseURL := "https://api.example.com"
  base := { scheme := "https", host := "api.example.com", path := "", queryGet := fun _ => "" }
  adapter := .named .postBody
  parsed := rfl

def postLink (merge : Bool) (body : Json) : Link where
  href := "https://api.example.com/search"
  rel := "next"
  additionalFields := [("method", .str "POST"), ("body", body), ("merge", .bool merge)]

def postServer (merge : Bool) (body : Json) : Outbound → Except OriginError Answer :=
  fun _ => .ok { links := [some (postLink merge body)] }

def postSession (merge : Bool) (body : Json) : Session := recorded {
  searcher := {
    origins := Std.ExtTreeMap.ofList [("a", "https://api.example.com")]
    pageSize := 1
    maxPageSize := 10
    cursorSecret := [1]
    pageSize_pos := Nat.one_pos
    secret_ne_nil := sampleSecret_ne_nil }
  wire := sampleWire
  principalHash := ""
  request := { collections := ["x"] }
  visit := fun _ => { now := 0, upstream := fun _ => sampleClient.search (postServer merge body) }
  principalHash_short := noPrincipal_short }

def tokenBody : Json := .obj [("token", .str "t")]

def restatedBody : Json := .obj [("collections", .arr [.str "x"]), ("token", .str "t")]

/-- The addresses that a client hands out are those of the sample origin. -/
theorem sample_linked {client : Client sampleLibrary}
    {server : Outbound → Except OriginError Answer} {req : Request} {id url : String}
    (known : (Std.ExtTreeMap.ofList [("a", "https://api.example.com")] :
      Std.ExtTreeMap String String)[id]? = some url) : (client.search server req).nextURL = "" ∨
      url ≠ "" ∧ url.toList <+: (client.search server req).nextURL.toList := by
  by_cases unlinked : (client.search server req).nextURL = ""
  · exact Or.inl unlinked
  · have sole : url = "https://api.example.com" := by
      by_cases here : id = "a"
      · subst here
        exact (Option.some.inj known).symm
      · simp [Ne.symm here] at known
    have rooted := urlRootedAtBase_of_search unlinked
    subst sole
    refine Or.inr ⟨by decide, ?_⟩
    generalize (client.search server req).nextURL = next at rooted ⊢
    by_cases home : next = "https://api.example.com"
    · rw [home]
    · by_cases search : next = "https://api.example.com/search"
      · rw [search]
        decide
      · simp [Client.urlRootedAtBase, sampleLibrary, home, search] at rooted

section Sample
variable (merge : Bool) (body : Json)

theorem postSession_coherent : (postSession merge body).Coherent :=
  recorded_coherent ⟨fun _ _ _ _ known => sample_linked known, fun _ => rfl,
    fun _ => (by decide : ¬ (0 : Int64) + defaultTTL < 0)⟩

theorem postSession_start (id : String) : (postSession merge body).startCursor.origins[id]? =
    if id = "a" then some { id := id } else none := by
  rw [Session.startCursor, origins_newFederatedCursor]
  by_cases here : id = "a"
  · simp [postSession, recorded, here]
  · simp [postSession, recorded, here, Ne.symm here]

theorem postLink_post : PostLink sampleLibrary
    (sampleClient.received { links := [some (postLink merge body)] }) (postLink merge body) body where
  next := rfl
  post := (by decide : sampleLibrary.equalFold "POST" "POST" = true)
  href := (by decide : "https://api.example.com/search" ≠ "")
  rooted := (by decide : sameOrigin sampleLibrary "https://api.example.com/search"
    "https://api.example.com" = true)
  body := rfl

theorem postSession_captured : Captured (postSession merge body) sampleClient
    (postServer merge body) "a" 0 (postSession merge body).startCursor (postLink merge body) body where
  known := by simp [postSession, recorded]
  current := ⟨"", rfl⟩
  fetched := mem_toFetch.mpr ⟨{ id := "a" }, by simp [postSession_start], rfl, rfl, limit_pos _⟩
  searched := rfl
  answered := by
    have unpaged : (originRequest (postSession merge body).request
        (postSession merge body).startCursor (postSession merge body).limit "a").overrideURL = "" := by
      rw [originRequest, postSession_start, if_pos rfl]
      rfl
    exact ⟨_, _, if_neg (not_not.mpr unpaged), rfl, postLink_post merge body⟩
  understands := Or.inr rfl

end Sample

/-- The page after the first is presented with a token and asks the origin again. -/
theorem postSession_next (merge : Bool) (body : Json)
    (goes_on : ((postSession merge body).cursorAt 1).isSome) :
    ∃ c token, (postSession merge body).cursorAt 1 = some (c, token) ∧
      decodeCursor (postSession merge body).wire token (postSession merge body).searcher.cursorSecret
        (postSession merge body).searcher.origins (postSession merge body).principalHash
        ((postSession merge body).visit 1).now = .ok c := by
  obtain ⟨⟨c, token⟩, after⟩ := Option.isSome_iff_exists.mp goes_on
  exact ⟨c, token, after, (postSession_coherent merge body).roundTrips 0 c token after⟩

/-- What an upstream reads from the two bodies. -/
def sampleDecode (text : String) : Option Json :=
  if text = sampleLibrary.marshal tokenBody then some tokenBody
  else if text = sampleLibrary.marshal restatedBody then some restatedBody
  else none

theorem queryMembers_sample (name : String) :
    (queryMembers { collections := ["x"] }).get? name =
      if name = "collections" then some (.arr [.str "x"]) else none :=
  get?_cons name "collections" (.arr [.str "x"]) []

/-- The second page of a link that restates the query follows the link. -/
theorem restated_followed : ∃ c token posted,
    (postSession true restatedBody).cursorAt 1 = some (c, token) ∧
    sampleClient.outbound (originRequest { collections := ["x"] } c 1 "a") =
      some (.post "https://api.example.com/search" posted) ∧
    FollowsLink sampleDecode { collections := ["x"] } (postLink true restatedBody) restatedBody
      posted := by
  obtain ⟨c, token, after, accepted⟩ := postSession_next true restatedBody
    (by decide +kernel)
  obtain ⟨posted, sent, follows⟩ := followUp_body_iff (postSession_coherent true restatedBody)
    (postSession_captured true restatedBody) sampleDecode rfl Nat.zero_lt_one
    (fun j later early => absurd early (by omega)) after accepted
  refine ⟨c, token, posted, after, sent, follows.mpr fun _ name asked => ?_⟩
  have asked : name = "collections" := by
    by_contra other
    change ((queryMembers { collections := ["x"] }).get? name).isSome at asked
    simp [queryMembers_sample, other] at asked
  rw [asked]
  rfl

/-- The second page of a link that has only a token, and asks for a merge, searches for
everything. -/
theorem merge_drops_query : asksMerge (postLink true tokenBody) ∧ ∃ c token,
    (postSession true tokenBody).cursorAt 1 = some (c, token) ∧
    sampleClient.outbound (originRequest { collections := ["x"] } c 1 "a") =
      some (.post "https://api.example.com/search" "\x7b\"token\":\"t\"\x7d") ∧
    ¬ FollowsLink sampleDecode { collections := ["x"] } (postLink true tokenBody) tokenBody
      "\x7b\"token\":\"t\"\x7d" := by
  obtain ⟨c, token, after, _⟩ := postSession_next true tokenBody
    (by decide +kernel)
  have sent := outbound_followUp (postSession_captured true tokenBody) Nat.zero_lt_one
    (fun j later early => absurd early (by omega)) after
  refine ⟨rfl, c, token, after, sent, fun follows => ?_⟩
  have restated := (followsLink_marshal_iff rfl).mp follows rfl "collections" (by
    rw [queryMembers_sample]
    rfl)
  cases restated

end FollowUpBody
