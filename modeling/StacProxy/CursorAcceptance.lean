import StacProxy.FollowUpBody
import StacProxy.OriginContainment

/-!
# Accepting a minted cursor

A next URL is checked when an adapter captures it, when its cursor is decoded and when it is
fetched. The first and the last check compare parsed URLs, the one in between compares texts.
-/

namespace CursorAcceptance

open JsonValue StacItem FederatedCursor CursorWire PageMerge PaginatedSearch SearchSession
  RecordedSession PageAdapter OriginClient

/-- The origins of a session are searched by clients with the base URLs that cursors are
decoded with. -/
structure Federated (lib : Library) (S : Session) where
  client : String → Client lib
  configured : ∀ (id base : String), S.searcher.origins[id]? = some base →
    base = (client id).baseURL
  searches : ∀ n id req, id ∈ S.searcher.origins →
    ∃ server, (S.visit n).upstream id req = (client id).search server req

section Acceptance
variable {lib : Library} {S : Session}

/-- Presented at some time, the token decodes to its cursor, and every next URL in it is one
that the client of its origin follows. -/
def Accepted (F : Federated lib S) (c : Cursor) (token : String) (now : Int64) : Prop :=
  decodeCursor S.wire token S.searcher.cursorSecret S.searcher.origins S.principalHash now = .ok c ∧
    ∀ (id : String) oc, c.origins[id]? = some oc → oc.nextURL ≠ "" →
      (F.client id).urlRootedAtBase oc.nextURL

/-- Every next URL goes on from the text of its origin's base URL. -/
def ExtendsBases (F : Federated lib S) (c : Cursor) : Prop :=
  ∀ (id : String) oc, c.origins[id]? = some oc → oc.nextURL ≠ "" →
    (F.client id).baseURL ≠ "" ∧ (F.client id).baseURL.toList <+: oc.nextURL.toList

variable {n : Nat} {c : Cursor} {token : String}

/-- Every next URL in a cursor of the session was captured by the client of its origin. -/
theorem followed_of_cursorAt (F : Federated lib S) (before : S.cursorAt n = some (c, token))
    {id : String} {oc : OriginCursor} (present : c.origins[id]? = some oc) :
    oc.id = id ∧ (oc.nextURL = "" ∨
      id ∈ S.searcher.origins ∧ (F.client id).urlRootedAtBase oc.nextURL) := by
  refine @pointer_of_cursorAt S n c token (fun id url => url = "" ∨
    id ∈ S.searcher.origins ∧ (F.client id).urlRootedAtBase url)
    (fun _ => .inl rfl) (fun n c id fine => ?_) before id oc present
  obtain ⟨known, handed⟩ := fetch_of_fine fine
  obtain ⟨server, searched⟩ := F.searches n id (originRequest S.request c S.limit id) known
  rw [handed, searched]
  by_cases linked : ((F.client id).search server (originRequest S.request c S.limit id)).nextURL = ""
  · exact .inl linked
  · exact .inr ⟨known, urlRootedAtBase_of_search linked⟩

/-- The allowlist of the decoder lets exactly the extensions of base URLs through. -/
theorem urlAllowed_iff_extends (F : Federated lib S) (before : S.cursorAt n = some (c, token)) :
    (∀ (id : String) oc, c.origins[id]? = some oc → urlAllowed S.searcher.origins oc) ↔
      ExtendsBases F c := by
  constructor
  · intro allowed id oc present linked
    obtain ⟨named, -⟩ := followed_of_cursorAt F before present
    rcases urlAllowed_iff.mp (allowed id oc present) with empty | ⟨base, known, extends_base⟩
    · exact absurd empty linked
    · rw [named] at known
      rwa [← F.configured id base known]
  · intro extends_base id oc present
    obtain ⟨named, empty | ⟨known, -⟩⟩ := followed_of_cursorAt F before present
    · exact urlAllowed_iff.mpr (.inl empty)
    · rw [urlAllowed_iff, named]
      by_cases linked : oc.nextURL = ""
      · exact .inl linked
      · obtain ⟨base, base_eq⟩ := Option.isSome_iff_exists.mp
          (Std.ExtTreeMap.mem_iff_isSome_getElem?.mp known)
        rw [F.configured id base base_eq] at base_eq
        exact .inr ⟨_, base_eq, extends_base id oc present linked⟩

/-- A minted cursor is accepted before it expires exactly if the next URLs in it go on from the
texts of the base URLs. -/
theorem minted_accepted_iff (F : Federated lib S) (minted : S.cursorAt (n + 1) = some (c, token))
    (reads : ∀ payload, S.wire.marshal c = some payload → S.wire.unmarshal payload = some c)
    {now : Int64} (unexpired : ¬ c.expiresAt < now) :
    Accepted F c token now ↔ ExtendsBases F c := by
  obtain ⟨payload, written, rfl, -⟩ := exists_payload minted
  have decodes : decodeCursor S.wire (tokenOf S.wire S.searcher.cursorSecret payload)
      S.searcher.cursorSecret S.searcher.origins S.principalHash now = .ok c ↔ ExtendsBases F c := by
    rw [← urlAllowed_iff_extends F minted]
    exact decodeCursor_tokenOf_iff S.searcher.secret_ne_nil (marshal_ne_nil written)
      (reads payload written) unexpired (stamped_of_cursorAt minted).principalHash
  refine ⟨fun accepted => decodes.mp accepted.1, fun extends_base => ⟨decodes.mpr extends_base, ?_⟩⟩
  intro id oc present linked
  obtain ⟨-, empty | ⟨-, rooted⟩⟩ := followed_of_cursorAt F minted present
  · exact absurd empty linked
  · exact rooted

end Acceptance

section Samples
open OriginContainment

/-- Every page links to the same next URL. -/
def linkServer (href : String) : Outbound → Except OriginError Answer :=
  fun _ => .ok { links := [some { href, rel := "next" }] }

def linkSession (href : String) : Session := recorded {
  searcher := {
    origins := Std.ExtTreeMap.ofList [("a", "https://api.example.com/v1")]
    pageSize := 1
    maxPageSize := 10
    cursorSecret := [1]
    pageSize_pos := Nat.one_pos
    secret_ne_nil := sampleSecret_ne_nil }
  wire := sampleWire
  principalHash := ""
  request := {}
  visit := fun _ => { now := 0, upstream := fun _ => hostClient.search (linkServer href) }
  principalHash_short := noPrincipal_short }

def linkFederated (href : String) : Federated hostLibrary (linkSession href) where
  client _ := hostClient
  configured := by
    intro id base known
    by_cases here : id = "a"
    · subst here
      exact (Option.some.inj known).symm
    · simp [linkSession, recorded, Ne.symm here] at known
  searches _ _ _ _ := ⟨linkServer href, rfl⟩

variable {href : String} {c : Cursor} {token : String}

theorem linkSession_reads (minted : (linkSession href).cursorAt 1 = some (c, token)) :
    ∀ payload, (linkSession href).wire.marshal c = some payload →
      (linkSession href).wire.unmarshal payload = some c := by
  intro payload written
  rw [linkSession, cursorAt_recorded] at minted
  exact recallCursor_eq minted written

theorem linkSession_unexpired (minted : (linkSession href).cursorAt 1 = some (c, token)) :
    ¬ c.expiresAt < 1 := by
  rw [(stamped_of_cursorAt minted).expiresAt]
  exact (by decide : ¬ (0 : Int64) + defaultTTL < 1)

/-- The next URLs of the first cursor. -/
def linked (href : String) : Option (List String) :=
  ((linkSession href).cursorAt 1).map fun entry =>
    entry.1.origins.toList.map fun state => state.2.nextURL

theorem exists_linked (captured : linked href = some [href]) :
    ∃ c token, (linkSession href).cursorAt 1 = some (c, token) ∧
      (∃ (id : String) (oc : OriginCursor), c.origins[id]? = some oc ∧ oc.nextURL = href) ∧
      ∀ (id : String) oc, c.origins[id]? = some oc → oc.nextURL = href := by
  obtain ⟨⟨c, token⟩, minted, urls⟩ := Option.map_eq_some_iff.mp captured
  have member : ∀ (id : String) oc, c.origins[id]? = some oc → oc.nextURL ∈ [href] := by
    intro id oc present
    rw [← urls]
    exact List.mem_map_of_mem (Std.ExtTreeMap.mem_toList_iff_getElem?_eq_some.mpr present)
  have first : href ∈ c.origins.toList.map fun state => state.2.nextURL := by simp [urls]
  obtain ⟨⟨id, oc⟩, listed, linked⟩ := List.mem_map.mp first
  exact ⟨c, token, minted,
    ⟨id, oc, Std.ExtTreeMap.mem_toList_iff_getElem?_eq_some.mp listed, linked⟩,
    fun id oc present => List.mem_singleton.mp (member id oc present)⟩

end Samples

theorem extended_accepted : ∃ c token,
    (linkSession "https://api.example.com/v1/search").cursorAt 1 = some (c, token) ∧
      Accepted (linkFederated "https://api.example.com/v1/search") c token 1 := by
  obtain ⟨c, token, minted, -, urls⟩ := @exists_linked "https://api.example.com/v1/search"
    (by decide +kernel)
  refine ⟨c, token, minted, (minted_accepted_iff _ minted (linkSession_reads minted)
    (linkSession_unexpired minted)).mpr ?_⟩
  intro id oc present _
  rw [urls id oc present]
  exact (by decide : "https://api.example.com/v1" ≠ "" ∧
    "https://api.example.com/v1".toList <+: "https://api.example.com/v1/search".toList)

/-- A link that writes the host in another case is captured, and the cursor with it is
refused. -/
theorem other_case_refused :
    sameOrigin OriginContainment.hostLibrary "https://API.example.com/v1/search"
      OriginContainment.hostClient.baseURL ∧
    ∃ c token, (linkSession "https://API.example.com/v1/search").cursorAt 1 = some (c, token) ∧
      decodeCursor (linkSession "https://API.example.com/v1/search").wire token [1]
        (linkSession "https://API.example.com/v1/search").searcher.origins "" 1 ≠ .ok c := by
  obtain ⟨c, token, minted, ⟨id, oc, present, link⟩, -⟩ :=
    @exists_linked "https://API.example.com/v1/search" (by decide +kernel)
  refine ⟨by decide +kernel, c, token, minted, fun accepted => ?_⟩
  obtain ⟨payload, written, rfl, -⟩ := exists_payload minted
  have allowed := (decodeCursor_tokenOf_iff (by decide) (marshal_ne_nil written)
    (linkSession_reads minted payload written) (linkSession_unexpired minted)
    (stamped_of_cursorAt minted).principalHash).mp accepted
  have extended := (urlAllowed_iff_extends (linkFederated _) minted).mp allowed id oc present
  rw [link] at extended
  have literal : "https://api.example.com/v1".toList <+:
      "https://API.example.com/v1/search".toList := (extended (by decide)).2
  exact absurd literal (by decide)

end CursorAcceptance
