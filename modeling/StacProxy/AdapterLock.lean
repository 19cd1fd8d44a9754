import StacProxy.FollowUpBody
import StacProxy.OriginExhaustion

/-!
# The adapter an origin is locked into

The `auto` adapter reads the first response of an origin with the convention that it is most
sure of, and the cursor records the name of that convention for the pages to come. The
searcher looks recorded names up in a registry, which has every convention but the one for
links that are followed with a POST. A session keeps to a recorded name exactly if no answer
that `auto` has read as such a link is followed by another answer of the origin.
-/

namespace AdapterLock

open FederatedCursor CursorWire PageMerge PaginatedSearch SearchSession RecordedSession
  PageAdapter OriginClient

section Capture
variable {lib : Library} {cfg : Config} {r : UpstreamResponse}

/-- A named adapter leaves the recorded name to the cursor. -/
theorem adapterName_of_convention {convention : Convention} {st : NextState}
    (captured : convention.capture lib cfg r = .ok st) : st.adapterName = "" := by
  cases convention <;> simp only [Convention.capture, capturePostBody, captureToken, captureOffset,
    captureLinkHeader, captureNextURL] at captured <;> grind

/-- What is read so far is nothing, or what some convention is sure of to a degree. -/
def ReadBy (lib : Library) (cfg : Config) (r : UpstreamResponse) (best : Reading) : Prop :=
  best.confidence = 0 ∨ ∃ convention : Convention, best.name = convention.name ∧
    0 < (convention.probe lib cfg r).1

theorem readBy_considerAdapter {best : Reading} (convention : Convention)
    (read : ReadBy lib cfg r best) (positive : 0 ≤ best.confidence) :
    ReadBy lib cfg r (considerAdapter lib cfg r best convention) ∧
      0 ≤ (considerAdapter lib cfg r best convention).confidence := by
  unfold considerAdapter
  dsimp only
  split
  · rename_i surer
    have sure := lt_of_le_of_lt positive surer
    exact ⟨.inr ⟨convention, rfl, sure⟩, sure.le⟩
  · exact ⟨read, positive⟩

/-- A name that `auto` chooses is the name of a convention that is sure of the response to a
degree. -/
theorem exists_convention (chosen : (captureAuto lib cfg r).adapterName ≠ "") :
    ∃ convention : Convention, (captureAuto lib cfg r).adapterName = convention.name ∧
      0 < (convention.probe lib cfg r).1 := by
  have read : ∀ (inner : List Convention) (best : Reading), ReadBy lib cfg r best →
      0 ≤ best.confidence → ReadBy lib cfg r (inner.foldl (considerAdapter lib cfg r) best) := by
    intro inner
    induction inner with
    | nil => exact fun _ read _ => read
    | cons first rest ih =>
      intro best read positive
      obtain ⟨read', positive'⟩ := readBy_considerAdapter first read positive
      exact ih _ read' positive'
  have best := read [.postBody, .token, .offset, .linkHeader, .nextURL] {} (.inl rfl) le_rfl
  unfold captureAuto at chosen ⊢
  dsimp only at chosen ⊢
  split at chosen
  · exact absurd rfl chosen
  · rename_i sure
    rw [if_neg sure]
    exact best.resolve_left sure

/-- The adapter for POST links is sure of nothing else. -/
theorem exists_postLink (sure : 0 < (Convention.postBody.probe lib cfg r).1) :
    ∃ link body, PostLink lib r link body := by
  obtain ⟨⟨link, next, href, post, given⟩, home, -⟩ := (OriginExhaustion.probe_spec .postBody).1 sure
  obtain ⟨body, found⟩ := Option.isSome_iff_exists.mp given
  exact ⟨link, body, next, post, href, home link next, found⟩

/-- The convention that `auto` reads POST links with is the one for them, and it reads nothing
else with it. -/
theorem captureAuto_name_iff : (captureAuto lib cfg r).adapterName = "post_body" ↔
    ∃ link body, PostLink lib r link body := by
  constructor
  · intro named
    have chosen : (captureAuto lib cfg r).adapterName ≠ "" := by
      rw [named]
      decide
    obtain ⟨convention, chosen, sure⟩ := exists_convention chosen
    have same : convention = .postBody := by
      rw [named] at chosen
      cases convention <;> first | rfl | exact absurd chosen (by decide)
    rw [same] at sure
    exact exists_postLink sure
  · rintro ⟨link, body, post⟩
    rw [captureAuto_eq cfg post]

end Capture

section Lookup
variable {lib : Library} {client : Client lib} {name : String}

theorem pickAdapter_of_registered (auto : client.adapter = .auto) {convention : Convention}
    (registered : convention ∈ registry) : client.pickAdapter convention.name = .named convention := by
  have found : registry.find? (·.name == convention.name) = some convention := by
    cases convention <;> first | rfl | exact absurd registered (by decide)
  simp [Client.pickAdapter, auto, found]

theorem pickAdapter_of_postBody (auto : client.adapter = .auto) :
    client.pickAdapter "post_body" = .auto := by
  have missing : registry.find? (·.name == "post_body") = none := by decide
  simp [Client.pickAdapter, auto, missing]

theorem eq_postBody_of_unregistered {convention : Convention}
    (unregistered : convention ∉ registry) : convention = .postBody := by
  cases convention <;> first | rfl | exact absurd unregistered (by decide)

/-- A search tells the cursor a name only if `auto` has read the response. -/
theorem exists_read {server : Outbound → Except OriginError Answer} {req : SearchRequest.Request}
    (named : (client.search server req).adapterName ≠ "") :
    ∃ out answer, client.outbound req = some out ∧ server out = .ok answer ∧
      client.pickAdapter req.adapterName = .auto ∧ (client.search server req).adapterName =
        (captureAuto lib client.config (client.received answer)).adapterName := by
  have searched := search_cases client server req
  generalize client.search server req = reply at searched named ⊢
  cases searched with
  | unsent _ | unanswered _ _ | refused _ _ _ | last _ _ => exact absurd rfl named
  | linked sent answered captured =>
    refine ⟨_, _, sent, answered, ?_⟩
    cases picked : client.pickAdapter req.adapterName with
    | named convention =>
      rw [picked] at captured
      exact absurd (adapterName_of_convention captured) named
    | auto =>
      rw [picked] at captured
      exact ⟨rfl, congrArg NextState.adapterName (Except.ok.inj captured).symm⟩

end Lookup

section Run
variable {lib : Library} (S : Session) (client : Client lib)
  (server : Nat → Outbound → Except OriginError Answer) (id : String)

/-- An origin with the `auto` adapter, which answers what page `n` asks it as `server n`. -/
structure Negotiated : Prop where
  known : id ∈ S.searcher.origins
  auto : client.adapter = .auto
  searched : ∀ n req, (S.visit n).upstream id req = client.search (server n) req

/-- The adapter for the response to what a page with this cursor asks the origin. -/
def adapterFor (c : Cursor) : Adapter :=
  client.pickAdapter (originRequest S.request c S.limit id).adapterName

/-- Page `n`, with the cursor `c`, asks the origin and has an answer to read. -/
def ReadAt (n : Nat) (c : Cursor) (answer : Answer) : Prop :=
  (∃ token, S.cursorAt n = some (c, token)) ∧ id ∈ toFetch c S.limit ∧
    ∃ out, client.outbound (originRequest S.request c S.limit id) = some out ∧
      server n out = .ok answer

def recordedName (c : Cursor) (id : String) : String :=
  ((c.origins[id]?).map (·.adapterName)).getD ""

/-- A recorded name stays, and what the origin answers from then on is read by the adapter of
that name. -/
def Locked : Prop :=
  ∀ (k : Nat) (locked : Cursor) (token : String), S.cursorAt k = some (locked, token) →
    recordedName locked id ≠ "" → ∀ (n : Nat) (c : Cursor) (token' : String), k ≤ n →
      S.cursorAt n = some (c, token') → recordedName c id = recordedName locked id ∧
        ∀ answer, ReadAt S client server id n c answer →
          ∃ convention : Convention, convention.name = recordedName locked id ∧
            adapterFor S client id c = .named convention

/-- On page `n`, `auto` reads a link that is followed with a POST. -/
def PostsOn (n : Nat) : Prop :=
  ∃ c answer link body, ReadAt S client server id n c answer ∧ adapterFor S client id c = .auto ∧
    PostLink lib (client.received answer) link body

variable {S client server id} {n : Nat} {c c' : Cursor} {token token' : String}

theorem adapterFor_eq (fetched : id ∈ toFetch c S.limit) :
    adapterFor S client id c = client.pickAdapter (recordedName c id) := by
  obtain ⟨oc, present, _⟩ := mem_toFetch.mp fetched
  simp [adapterFor, originRequest, recordedName, present]

theorem recordedName_start (id : String) : recordedName S.startCursor id = "" := by
  rw [recordedName, Session.startCursor, origins_newFederatedCursor]
  split <;> rfl

theorem Negotiated.fetch (negotiated : Negotiated S client server id) (n : Nat) (c : Cursor) :
    (S.fetch n c id).adapterName =
      (client.search (server n) (originRequest S.request c S.limit id)).adapterName := by
  simp [Session.fetch, fetchOrigin, negotiated.known, negotiated.searched]

/-- A page keeps the recorded name, or records the one that `auto` has chosen. -/
theorem recorded_step (negotiated : Negotiated S client server id)
    (before : S.cursorAt n = some (c, token)) (after : S.cursorAt (n + 1) = some (c', token')) :
    recordedName c' id = recordedName c id ∨
      ∃ answer, ReadAt S client server id n c answer ∧ adapterFor S client id c = .auto ∧
        recordedName c' id ≠ "" ∧ recordedName c' id =
          (captureAuto lib client.config (client.received answer)).adapterName := by
  cases present : c.origins[id]? with
  | none =>
    have absent : c'.origins[id]? = none := by
      rw [Option.eq_none_iff_forall_ne_some]
      intro oc present'
      obtain ⟨c₀, token₀, _, oc₀, _, before₀, _, present₀, _⟩ := origin_before after present'
      obtain ⟨rfl, rfl⟩ := Prod.mk.inj (Option.some.inj (before.symm.trans before₀))
      simp [present] at present₀
    exact .inl (by simp [recordedName, present, absent])
  | some oc =>
    obtain ⟨oc', present', progress⟩ := origin_after before after present
    have name : recordedName c id = oc.adapterName := by simp [recordedName, present]
    have name' : recordedName c' id = oc'.adapterName := by
      rw [recordedName, present']
      rfl
    cases progress with
    | skipped _ _ | failed _ _ _ => exact .inl (name'.trans name.symm)
    | served stash lastSort fetched fine =>
      change recordedName c' id = if (S.fetch n c id).adapterName ≠ "" then
        (S.fetch n c id).adapterName else oc.adapterName at name'
      split at name'
      · rename_i told
        rw [negotiated.fetch] at told name'
        obtain ⟨out, answer, sent, answered, picked, chosen⟩ := exists_read told
        exact .inr ⟨answer, ⟨⟨token, before⟩, fetched, out, sent, answered⟩, picked,
          name' ▸ told, name'.trans chosen⟩
      · exact .inl (name'.trans name.symm)

/-- The name of the convention for POST links is recorded once `auto` has read such a link. -/
theorem recorded_of_postLink (negotiated : Negotiated S client server id) {answer : Answer}
    {link : StacItem.Link} {body : JsonValue.Json} (read : ReadAt S client server id n c answer)
    (auto : adapterFor S client id c = .auto) (post : PostLink lib (client.received answer) link body)
    (after : S.cursorAt (n + 1) = some (c', token')) : recordedName c' id = "post_body" := by
  obtain ⟨⟨token, before⟩, fetched, out, sent, answered⟩ := read
  obtain ⟨oc, present, _⟩ := mem_toFetch.mp fetched
  have reply : client.search (server n) (originRequest S.request c S.limit id) =
      { items := answer.features, nextURL := link.href, nextBody := lib.marshal body,
        adapterName := "post_body" } := by
    rw [adapterFor] at auto
    simp [Client.search, sent, answered, auto, Adapter.capture, captureAuto_eq client.config post]
  have fetch : S.fetch n c id = { client.search (server n) (originRequest S.request c S.limit id)
      with originID := id } := by
    simp [Session.fetch, fetchOrigin, negotiated.known, negotiated.searched]
  obtain ⟨oc', present', progress⟩ := origin_after before after present
  rw [recordedName, present']
  cases progress with
  | skipped _ unselected => exact absurd fetched unselected
  | failed _ _ failed => simp [fetch, reply] at failed
  | served stash lastSort _ _ =>
    simp [OriginCursor.clone, OriginCursor.update, FetchResult.originUpdate, fetch, reply]

/-- A recorded name is the name of a convention, and that of the convention for POST links goes
back to a page on which `auto` has read one. -/
theorem recorded_cases (negotiated : Negotiated S client server id)
    (before : S.cursorAt n = some (c, token)) : recordedName c id = "" ∨
      (∃ convention ∈ registry, recordedName c id = convention.name) ∨
        recordedName c id = "post_body" ∧ ∃ j < n, PostsOn S client server id j := by
  induction n generalizing c token with
  | zero =>
    obtain ⟨rfl, _⟩ := Prod.mk.inj (Option.some.inj before)
    exact .inl (recordedName_start id)
  | succ n ih =>
    obtain ⟨c₀, token₀, _, before₀, _⟩ := cursorAt_succ_iff.mp before
    rcases recorded_step negotiated before₀ before with kept | ⟨answer, read, auto, told, chosen⟩
    · rw [kept]
      rcases ih before₀ with unset | registered | ⟨posts, j, earlier, on⟩
      · exact .inl unset
      · exact .inr (.inl registered)
      · exact .inr (.inr ⟨posts, j, Nat.lt_succ_of_lt earlier, on⟩)
    · rw [chosen] at told ⊢
      obtain ⟨convention, named, _⟩ := exists_convention told
      by_cases registered : convention ∈ registry
      · exact .inr (.inl ⟨convention, registered, named⟩)
      · obtain rfl := eq_postBody_of_unregistered registered
        obtain ⟨link, body, post⟩ := captureAuto_name_iff.mp named
        exact .inr (.inr ⟨named, n, Nat.lt_succ_self n, c₀, answer, link, body, read, auto, post⟩)

/-- If no answer follows a POST link, an answer that is read under a recorded name is read by
the adapter of that name. -/
theorem adapter_of_recorded (negotiated : Negotiated S client server id)
    (last : ∀ j k, j < k → PostsOn S client server id j →
      ∀ c answer, ¬ ReadAt S client server id k c answer) {answer : Answer}
    (read : ReadAt S client server id n c answer) (recorded : recordedName c id ≠ "") :
    ∃ convention : Convention, convention.name = recordedName c id ∧
      adapterFor S client id c = .named convention := by
  have unread := fun j earlier on => last j n earlier on c answer read
  obtain ⟨⟨token, before⟩, fetched, _⟩ := read
  rw [adapterFor_eq fetched]
  rcases recorded_cases negotiated before with unset | ⟨convention, registered, named⟩ |
    ⟨_, j, earlier, on⟩
  · exact absurd unset recorded
  · rw [named]
    exact ⟨convention, rfl, pickAdapter_of_registered negotiated.auto registered⟩
  · exact (unread j earlier on).elim

end Run

def autoClient : Client FollowUpBody.sampleLibrary :=
  { FollowUpBody.sampleClient with adapter := .auto }

def getLink : StacItem.Link where
  href := "https://api.example.com/search"
  rel := "next"

/-- An origin whose first page links on with a POST, if it is to, and the others without. -/
def switchingServer (posts : Bool) (n : Nat) (_ : Outbound) : Except OriginError Answer :=
  .ok { links := [some (if posts ∧ n = 0 then FollowUpBody.postLink false FollowUpBody.tokenBody
    else getLink)] }

def switchingSession (posts : Bool) : Session := recorded {
  searcher := sampleSearcher [("a", "https://api.example.com")]
  wire := sampleWire
  principalHash := ""
  request := {}
  visit := fun n => { now := 0, upstream := fun _ => autoClient.search (switchingServer posts n) }
  principalHash_short := noPrincipal_short }

theorem switching_coherent (posts : Bool) : (switchingSession posts).Coherent :=
  recorded_coherent ⟨fun _ _ _ _ known => FollowUpBody.sample_linked known, fun _ => rfl,
    fun _ => (by decide : ¬ (0 : Int64) + defaultTTL < 0)⟩

theorem switching_negotiated (posts : Bool) :
    Negotiated (switchingSession posts) autoClient (switchingServer posts) "a" where
  known := by simp [switchingSession, recorded, sampleSearcher]
  auto := rfl
  searched _ _ := rfl

def switchingName (posts : Bool) (n : Nat) : Option String :=
  ((switchingSession posts).cursorAt n).map fun (c, _) => recordedName c "a"

theorem getLink_not_post {body : JsonValue.Json} {r : UpstreamResponse} :
    ¬ PostLink FollowUpBody.sampleLibrary r getLink body := by
  intro post
  exact absurd post.post (by decide)

/-- A session keeps to the adapter it has recorded for an origin exactly if no answer that `auto`
has read as a POST link is followed by another answer of the origin. -/
theorem locked_iff {lib : Library} {S : Session} {client : Client lib}
    {server : Nat → Outbound → Except OriginError Answer} {id : String}
    (negotiated : Negotiated S client server id) :
    Locked S client server id ↔ ∀ j k, j < k → PostsOn S client server id j →
      ∀ c answer, ¬ ReadAt S client server id k c answer := by
  constructor
  · rintro locked j k later ⟨c, answer, link, body, read, auto, post⟩ c' answer' read'
    obtain ⟨token', before'⟩ := read'.1
    obtain ⟨c₁, token₁, before₁⟩ := exists_cursorAt later before'
    have posts := recorded_of_postLink negotiated read auto post before₁
    obtain ⟨same, reads⟩ := locked (j + 1) c₁ token₁ before₁ (by rw [posts]; decide) k c' token'
      later before'
    obtain ⟨convention, _, picked⟩ := reads answer' read'
    rw [adapterFor_eq read'.2.1, same, posts, pickAdapter_of_postBody negotiated.auto] at picked
    cases picked
  · intro last k locked token recorded_at recorded n c token' later before
    have kept : recordedName c id = recordedName locked id := by
      induction n, later using Nat.le_induction generalizing c token' with
      | base =>
        obtain ⟨rfl, _⟩ := Prod.mk.inj (Option.some.inj (recorded_at.symm.trans before))
        rfl
      | succ n later ih =>
        obtain ⟨c₀, token₀, _, before₀, _⟩ := cursorAt_succ_iff.mp before
        rw [← ih c₀ token₀ before₀]
        refine (recorded_step negotiated before₀ before).resolve_right ?_
        rintro ⟨answer, read, auto, _⟩
        obtain ⟨convention, _, picked⟩ := adapter_of_recorded negotiated last read
          (by rwa [ih c₀ token₀ before₀])
        cases auto.symm.trans picked
    refine ⟨kept, fun answer read => ?_⟩
    rw [← kept]
    exact adapter_of_recorded negotiated last read (by rwa [kept])

theorem switching_locked : Locked (switchingSession false) autoClient (switchingServer false) "a" ∧
    switchingName false 1 = some "next_url" ∧ switchingName false 2 = some "next_url" := by
  refine ⟨(locked_iff (switching_negotiated false)).mpr ?_, by decide +kernel, by decide +kernel⟩
  rintro j k _ ⟨_, answer, link, body, ⟨_, _, _, _, answered⟩, _, post⟩
  obtain rfl := Except.ok.inj answered
  obtain rfl := Option.some.inj post.next
  exact absurd post getLink_not_post

/-- The second page is read by `auto` again, which records another name. -/
theorem recorded_name_changes : (switchingSession true).Coherent ∧
    Negotiated (switchingSession true) autoClient (switchingServer true) "a" ∧
    switchingName true 1 = some "post_body" ∧ switchingName true 2 = some "next_url" ∧
    ¬ Locked (switchingSession true) autoClient (switchingServer true) "a" := by
  have second : switchingName true 1 = some "post_body" := by decide +kernel
  have third : switchingName true 2 = some "next_url" := by decide +kernel
  refine ⟨switching_coherent true, switching_negotiated true, second, third, fun locked => ?_⟩
  obtain ⟨⟨c, token⟩, before, name⟩ := Option.map_eq_some_iff.mp second
  obtain ⟨⟨c', token'⟩, after, name'⟩ := Option.map_eq_some_iff.mp third
  change recordedName c "a" = "post_body" at name
  change recordedName c' "a" = "next_url" at name'
  have recorded : recordedName c "a" ≠ "" := by
    rw [name]
    decide
  have kept := (locked 1 c token before recorded 2 c' token' (by decide) after).1
  rw [name, name'] at kept
  exact absurd kept (by decide)

end AdapterLock
