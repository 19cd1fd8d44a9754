import StacProxy.LinkMisreadings
import StacProxy.OriginClient

/-!
# Next links that are followed

Each pagination adapter reads the links of its own convention. A response that links to a next
page in another one is read as the last page: the named adapters return a state without a
pointer, or say that they are done, and a cursor takes an origin without a pointer as
exhausted. `Fits` says for each convention which responses are of it, and `Reads` what its adapter
goes by. They differ for Link headers, which the parser can misread; the `auto` adapter reads what
some adapter goes by, if it leads to an address of the origin.
-/

namespace OriginExhaustion

open JsonValue StacItem SearchRequest FederatedCursor PageMerge PageAdapter OriginClient

section Conventions
variable (lib : Library) (cfg : Config) (r : UpstreamResponse)

/-- The link has the parameter, as a query parameter of its address or in its body. -/
def HasToken (link : Link) (param : String) : Prop :=
  (link.href ≠ "" ∧ ∃ u, lib.parseURL link.href = some u ∧ u.queryGet param ≠ "") ∨
    ∃ (members : Members) (value : String), link.additionalFields.get? "body" = some (.obj members) ∧
      members.get? param = some (.str value) ∧ value ≠ ""

/-- The values of the Link header are of the grammar, and up to the first next link with a target,
which there is, their parameters are harmless. -/
def HasNextHeader : Prop :=
  ∃ values : List (List LinkGrammar.Element),
    r.linkHeader = values.map (fun elements => String.ofList (LinkGrammar.valueText elements)) ∧
    LinkGrammar.Readable lib (LinkGrammar.links values) ∧
    ∃ l ∈ LinkGrammar.links values, l.isNext lib = true ∧ l.target.1 ≠ []

/-- What the adapter of the convention goes by: for Link headers, that its parser finds a target. -/
def Reads : Convention → Prop
  | .token => ∃ link, nextLinkOf r = some link ∧
      HasToken lib link (if cfg.tokenParam = "" then "token" else cfg.tokenParam)
  | .nextURL => ∃ link, nextLinkOf r = some link ∧ link.href ≠ "" ∧
      lib.equalFold (linkMethod link) "POST" = false
  | .postBody => ∃ link, nextLinkOf r = some link ∧ link.href ≠ "" ∧
      lib.equalFold (linkMethod link) "POST" = true ∧
      (link.additionalFields.get? "body").isSome
  | .offset => ∃ link u, nextLinkOf r = some link ∧ link.href ≠ "" ∧
      lib.parseURL link.href = some u ∧
      (atoi (u.queryGet (if cfg.offsetParam = "" then "offset" else cfg.offsetParam))).isSome ∧
      sameOrigin lib link.href r.baseURL = true
  | .linkHeader => parseNextFromLinkHeader lib r.linkHeader ≠ ""

/-- The response is one of the convention. -/
def Fits : Convention → Prop
  | .linkHeader => HasNextHeader lib r
  | convention => Reads lib cfg r convention

/-- The address that the convention would follow is one of the origin. -/
def LeadsHome : Convention → Prop
  | .nextURL => ∀ link, nextLinkOf r = some link → sameOrigin lib link.href r.baseURL = true
  | .postBody => ∀ link, nextLinkOf r = some link → sameOrigin lib link.href r.baseURL = true
  | .linkHeader => sameOrigin lib (parseNextFromLinkHeader lib r.linkHeader) r.baseURL = true
  | _ => True

end Conventions

/-- A state from which the next page can be fetched. -/
def Advancing (st : NextState) : Prop :=
  st.done = false ∧ (st.token ≠ "" ∨ st.url ≠ "" ∨ st.body ≠ "")

section Captures
variable {lib : Library} {cfg : Config} {r : UpstreamResponse}

/-- A string member of the body of a link. -/
theorem bodyString_ne_empty_iff {link : Link} (param : String) :
    ((((link.additionalFields.get? "body").bind Json.asObject?).bind
      (Members.get? · param)).bind Json.asString?).getD "" ≠ "" ↔
      ∃ (members : Members) (value : String),
        link.additionalFields.get? "body" = some (.obj members) ∧
        members.get? param = some (.str value) ∧ value ≠ "" := by
  constructor
  · intro nonempty
    cases found : ((((link.additionalFields.get? "body").bind Json.asObject?).bind
      (Members.get? · param)).bind Json.asString?) with
    | none => simp [found] at nonempty
    | some value =>
      obtain ⟨member, inside, text⟩ := Option.bind_eq_some_iff.mp found
      obtain ⟨members, object, has⟩ := Option.bind_eq_some_iff.mp inside
      obtain ⟨body, there, shape⟩ := Option.bind_eq_some_iff.mp object
      cases member <;> cases text
      cases body <;> cases shape
      exact ⟨_, value, there, has, by simpa [found] using nonempty⟩
  · rintro ⟨members, value, there, has, nonempty⟩
    simpa [there, has, Json.asObject?, Json.asString?] using nonempty

theorem extractToken_ne_empty_iff {link : Link} (next : nextLinkOf r = some link)
    (param : String) :
    extractTokenFromNextLink lib r param ≠ "" ↔ HasToken lib link param := by
  unfold HasToken
  rw [← bodyString_ne_empty_iff]
  simp only [extractTokenFromNextLink, next]
  by_cases bare : link.href = ""
  · simp [bare]
  · cases parsed : lib.parseURL link.href with
    | none => simp
    | some u => by_cases absent : u.queryGet param = "" <;> simp [bare, absent]

theorem HasNextHeader.read (has : HasNextHeader lib r) :
    parseNextFromLinkHeader lib r.linkHeader ≠ "" := by
  obtain ⟨values, text_eq, readable, l, member, next, targeted⟩ := has
  rw [text_eq, LinkGrammar.parseNextFromLinkHeader_readable readable]
  cases first : (LinkGrammar.links values).findSome? (LinkGrammar.Link.page lib) with
  | none =>
    have passed := List.findSome?_eq_none_iff.mp first l member
    exact absurd (LinkGrammar.Link.page_eq_none_iff.mp passed next) targeted
  | some target =>
    obtain ⟨l', -, chosen⟩ := List.exists_of_findSome?_eq_some first
    exact LinkGrammar.Link.page_ne_empty chosen

theorem Fits.reads {convention : Convention} (fits : Fits lib cfg r convention) :
    Reads lib cfg r convention := by
  cases convention with
  | linkHeader => exact fits.read
  | _ => exact fits

/-! ## One convention -/

/-- What the adapter of a convention goes by. -/
def pointer (st : NextState) : Convention → String
  | .token => st.token
  | .postBody => st.body
  | _ => st.url

/-- A state without a pointer, whether it says that it is done or not. -/
def Pointless (st : NextState) : Prop :=
  st.token = "" ∧ st.url = "" ∧ st.body = "" ∧ st.offset = 0

section Adapters
variable (lib cfg r)

/-- What the adapter of a convention can make of a response. -/
def Captures (convention : Convention) : Prop :=
  (Reads lib cfg r convention ∧ LeadsHome lib r convention ∧
    ∃ st, convention.capture lib cfg r = .ok st ∧ st.done = false ∧
      pointer st convention ≠ "") ∨
  (Reads lib cfg r convention ∧ ¬ LeadsHome lib r convention ∧
    ∃ e, convention.capture lib cfg r = .error e) ∨
  (¬ Reads lib cfg r convention ∧ ((∃ e, convention.capture lib cfg r = .error e) ∨
    ∃ st, convention.capture lib cfg r = .ok st ∧ Pointless st))

theorem captures_token : Captures lib cfg r .token := by
  cases next : nextLinkOf r with
  | none => simp [Captures, Convention.capture, captureToken, extractTokenFromNextLink, next,
      Pointless, Reads]
  | some link =>
    have extracted := @extractToken_ne_empty_iff lib r link next
      (if cfg.tokenParam = "" then "token" else cfg.tokenParam)
    simp only [Captures, Convention.capture, captureToken, Reads, LeadsHome, next, Option.some.injEq,
      exists_eq_left', Except.ok.injEq, ← extracted]
    generalize (if cfg.tokenParam = "" then "token" else cfg.tokenParam) = param
    by_cases found : extractTokenFromNextLink lib r param = "" <;>
      simp [found, pointer, Pointless]

theorem captures_nextURL : Captures lib cfg r .nextURL := by
  cases next : nextLinkOf r with
  | none => simp [Captures, Convention.capture, captureNextURL, next, Pointless, Reads]
  | some link =>
    by_cases href : link.href = ""
    · simp [Captures, Convention.capture, captureNextURL, next, href, Pointless, Reads]
    · cases post : lib.equalFold (linkMethod link) "POST" <;>
        cases home : sameOrigin lib link.href r.baseURL <;>
        simp [Captures, Convention.capture, captureNextURL, next, href, post, home, pointer,
          Pointless, Reads, LeadsHome]

theorem captures_postBody : Captures lib cfg r .postBody := by
  cases next : nextLinkOf r with
  | none => simp [Captures, Convention.capture, capturePostBody, next, Pointless, Reads]
  | some link =>
    by_cases href : link.href = ""
    · cases post : lib.equalFold (linkMethod link) "POST" <;>
        simp [Captures, Convention.capture, capturePostBody, next, href, post, Pointless, Reads]
    · cases post : lib.equalFold (linkMethod link) "POST" <;>
        cases home : sameOrigin lib link.href r.baseURL <;>
        cases body : link.additionalFields.get? "body" <;>
        simp [Captures, Convention.capture, capturePostBody, next, href, post, home, body, pointer,
          Pointless, Reads, LeadsHome, lib.marshal_ne_empty]

theorem captures_offset : Captures lib cfg r .offset := by
  cases next : nextLinkOf r with
  | none => simp [Captures, Convention.capture, captureOffset, next, Pointless, Reads]
  | some link =>
    by_cases href : link.href = ""
    · simp [Captures, Convention.capture, captureOffset, next, href, Pointless, Reads]
    · cases parsed : lib.parseURL link.href with
      | none => simp [Captures, Convention.capture, captureOffset, next, href, parsed, Pointless,
          Reads]
      | some u =>
        cases number : atoi (u.queryGet
            (if cfg.offsetParam = "" then "offset" else cfg.offsetParam)) <;>
          cases home : sameOrigin lib link.href r.baseURL <;>
          simp [Captures, Convention.capture, captureOffset, next, href, parsed, number, home,
            pointer, Pointless, Reads, LeadsHome]

theorem captures_linkHeader : Captures lib cfg r .linkHeader := by
  simp only [Captures, Convention.capture, captureLinkHeader, Reads, LeadsHome]
  by_cases bare : parseNextFromLinkHeader lib r.linkHeader = ""
  · simp [bare, Pointless]
  · cases home : sameOrigin lib (parseNextFromLinkHeader lib r.linkHeader) r.baseURL <;>
      simp [bare, pointer]

theorem captures (convention : Convention) : Captures lib cfg r convention := by
  cases convention with
  | token => exact captures_token lib cfg r
  | nextURL => exact captures_nextURL lib cfg r
  | postBody => exact captures_postBody lib cfg r
  | offset => exact captures_offset lib cfg r
  | linkHeader => exact captures_linkHeader lib cfg r

end Adapters

theorem advancing_of_pointer {convention : Convention} {st : NextState} (more : st.done = false)
    (points : pointer st convention ≠ "") : Advancing st := by
  refine ⟨more, ?_⟩
  cases convention with
  | token => exact .inl points
  | postBody => exact .inr (.inr points)
  | offset | linkHeader | nextURL => exact .inr (.inl points)

/-- An adapter that reads its own convention advances, or fails. -/
theorem capture_of_reads {convention : Convention} (reads : Reads lib cfg r convention) :
    (∃ e, convention.capture lib cfg r = .error e) ∨
      ∃ st, convention.capture lib cfg r = .ok st ∧ Advancing st := by
  rcases captures lib cfg r convention with
    ⟨-, -, st, captured, more, points⟩ | ⟨-, -, failed⟩ | ⟨unread, -⟩
  · exact .inr ⟨st, captured, advancing_of_pointer more points⟩
  · exact .inl failed
  · exact absurd reads unread

/-! ## All conventions -/

theorem probe_nonneg (convention : Convention) : 0 ≤ (convention.probe lib cfg r).1 := by
  cases convention <;> simp only [Convention.probe] <;> repeat' split
  all_goals norm_num

/-- The confidence an adapter has in what it captures. -/
theorem probe_of_capture {convention : Convention} {st : NextState}
    (captured : convention.capture lib cfg r = .ok st) :
    (st.done = false → pointer st convention ≠ "" →
      0 < (convention.probe lib cfg r).1 ∧ (convention.probe lib cfg r).2 = st) ∧
    (Pointless st → (convention.probe lib cfg r).1 = 0) := by
  cases convention with
  | postBody =>
    have captured : capturePostBody lib r = .ok st := captured
    norm_num +contextual [Convention.probe, captured, pointer, Pointless]
  | nextURL =>
    have captured : captureNextURL lib r = .ok st := captured
    norm_num +contextual [Convention.probe, captured, pointer, Pointless]
  | linkHeader =>
    have captured : captureLinkHeader lib r = .ok st := captured
    norm_num +contextual [Convention.probe, captured, pointer, Pointless]
  | token | offset =>
    cases captured
    norm_num +contextual [Convention.probe, pointer, Pointless]

theorem probe_of_error {convention : Convention} {e : CaptureError}
    (failed : convention.capture lib cfg r = .error e) : (convention.probe lib cfg r).1 = 0 := by
  cases convention with
  | postBody =>
    have failed : capturePostBody lib r = .error e := failed
    simp [Convention.probe, failed]
  | nextURL =>
    have failed : captureNextURL lib r = .error e := failed
    simp [Convention.probe, failed]
  | linkHeader =>
    have failed : captureLinkHeader lib r = .error e := failed
    simp [Convention.probe, failed]
  | token | offset => cases failed

/-- An adapter speaks up exactly for what it can follow. -/
theorem probe_spec (convention : Convention) :
    (0 < (convention.probe lib cfg r).1 →
      Reads lib cfg r convention ∧ LeadsHome lib r convention ∧
        Advancing (convention.probe lib cfg r).2) ∧
    (Reads lib cfg r convention → LeadsHome lib r convention →
      0 < (convention.probe lib cfg r).1) := by
  rcases captures lib cfg r convention with
    ⟨reads, home, st, captured, more, points⟩ | ⟨-, away, e, failed⟩ | ⟨unread, failed | pointless⟩
  · obtain ⟨sure, read⟩ := (probe_of_capture captured).1 more points
    refine ⟨fun _ => ⟨reads, home, ?_⟩, fun _ _ => sure⟩
    rw [read]
    exact advancing_of_pointer more points
  · refine ⟨fun sure => ?_, fun _ home => absurd home away⟩
    rw [probe_of_error failed] at sure
    exact absurd sure (lt_irrefl 0)
  · obtain ⟨e, failed⟩ := failed
    refine ⟨fun sure => ?_, fun reads => absurd reads unread⟩
    rw [probe_of_error failed] at sure
    exact absurd sure (lt_irrefl 0)
  · obtain ⟨st, captured, none⟩ := pointless
    refine ⟨fun sure => ?_, fun reads => absurd reads unread⟩
    rw [(probe_of_capture captured).2 none] at sure
    exact absurd sure (lt_irrefl 0)

/-- The best reading after some adapters were asked: the confidence never falls, reaches that of
every adapter asked, and comes with a state to go on from unless it is zero. -/
theorem foldl_considerAdapter (inner : List Convention) {best : Reading}
    (sound : best.confidence ≠ 0 → Advancing best.state) :
    let final := inner.foldl (considerAdapter lib cfg r) best
    best.confidence ≤ final.confidence ∧
      (∀ convention ∈ inner, (convention.probe lib cfg r).1 ≤ final.confidence) ∧
      (final.confidence = best.confidence ∨
        ∃ convention ∈ inner, final.confidence = (convention.probe lib cfg r).1) ∧
      (final.confidence ≠ 0 → Advancing final.state) := by
  induction inner generalizing best with
  | nil => simpa using sound
  | cons first rest ih =>
    simp only [List.foldl_cons]
    by_cases better : best.confidence < (first.probe lib cfg r).1
    · have chosen : considerAdapter lib cfg r best first =
          ⟨(first.probe lib cfg r).1, (first.probe lib cfg r).2, first.name⟩ := if_pos better
      have speaks : (first.probe lib cfg r).1 ≠ 0 → Advancing (first.probe lib cfg r).2 := by
        intro nonzero
        have sure := lt_of_le_of_ne (probe_nonneg first) (Ne.symm nonzero)
        exact ((probe_spec first).1 sure).2.2
      rw [chosen]
      obtain ⟨grows, reaches, from_, advancing⟩ := @ih ⟨_, _, first.name⟩ speaks
      refine ⟨better.le.trans grows, ?_, .inr ?_, advancing⟩
      · rintro convention (_ | ⟨_, later⟩)
        · exact grows
        · exact reaches convention later
      · rcases from_ with same | ⟨convention, later, same⟩
        · exact ⟨first, by simp, same⟩
        · exact ⟨convention, by simp [later], same⟩
    · have kept : considerAdapter lib cfg r best first = best := if_neg better
      rw [kept]
      obtain ⟨grows, reaches, from_, advancing⟩ := ih sound
      refine ⟨grows, ?_, ?_, advancing⟩
      · rintro convention (_ | ⟨_, later⟩)
        · exact (not_lt.mp better).trans grows
        · exact reaches convention later
      · rcases from_ with same | ⟨convention, later, same⟩
        · exact .inl same
        · exact .inr ⟨convention, by simp [later], same⟩

/-- The `auto` adapter advances exactly if some convention can be followed, and says that it is
done otherwise. -/
theorem captureAuto_spec :
    (Advancing (captureAuto lib cfg r) ↔
      ∃ convention, Reads lib cfg r convention ∧ LeadsHome lib r convention) ∧
    (¬ Advancing (captureAuto lib cfg r) → captureAuto lib cfg r = { done := true }) := by
  let asked : List Convention := [.postBody, .token, .offset, .linkHeader, .nextURL]
  let final := asked.foldl (considerAdapter lib cfg r) {}
  have all_asked : ∀ convention, convention ∈ asked := by
    intro convention
    cases convention <;> decide
  obtain ⟨-, reaches, chosen, advancing⟩ :=
    @foldl_considerAdapter lib cfg r asked {} fun nonzero => absurd rfl nonzero
  have captured : captureAuto lib cfg r =
      if final.confidence = 0 then { done := true }
      else { final.state with adapterName := final.name } := rfl
  by_cases silent : final.confidence = 0
  · rw [captured, if_pos silent]
    refine ⟨⟨fun more => Bool.noConfusion more.1, ?_⟩, fun _ => rfl⟩
    rintro ⟨convention, reads, home⟩
    have sure := (probe_spec convention).2 reads home
    have weak := reaches convention (all_asked convention)
    exact absurd (sure.trans_le (weak.trans_eq silent)) (lt_irrefl 0)
  · have goes_on : Advancing { final.state with adapterName := final.name } := advancing silent
    rw [captured, if_neg silent]
    refine ⟨⟨fun _ => ?_, fun _ => goes_on⟩, fun idle => absurd goes_on idle⟩
    rcases chosen with same | ⟨convention, -, same⟩
    · exact absurd same silent
    · have positive := lt_of_le_of_ne (probe_nonneg convention) (same ▸ Ne.symm silent)
      obtain ⟨reads, home, -⟩ := (probe_spec convention).1 positive
      exact ⟨convention, reads, home⟩

end Captures

/-! ## The searcher and the merge -/

/-- A reply with a pointer to the next page. -/
def Points (reply : SearchReply) : Prop :=
  reply.nextToken ≠ "" ∨ reply.nextURL ≠ "" ∨ reply.nextBody ≠ ""

instance (reply : SearchReply) : Decidable (Points reply) :=
  inferInstanceAs (Decidable (_ ∨ _ ∨ _))

section Replies
variable {lib : Library} {client : Client lib} {server : Outbound → Except OriginError Answer}
  {req : Request} {out : Outbound} {answer : Answer}

theorem search_of_error (sent : client.outbound req = some out) (answered : server out = .ok answer)
    {e : CaptureError} (failed : (client.pickAdapter req.adapterName).capture lib client.config
      (client.received answer) = .error e) : (client.search server req).error.isSome := by
  simp [Client.search, sent, answered, failed]

theorem search_of_state (sent : client.outbound req = some out) (answered : server out = .ok answer)
    {st : NextState} (captured : (client.pickAdapter req.adapterName).capture lib client.config
      (client.received answer) = .ok st) :
    (client.search server req).error = none ∧
      (Advancing st → Points (client.search server req)) ∧
      (st.done = true → ¬ Points (client.search server req)) := by
  simp only [Client.search, sent, answered, captured]
  split
  · rename_i last
    refine ⟨rfl, fun more => ?_, fun _ => by simp [Points]⟩
    rw [more.1] at last
    exact absurd last Bool.false_ne_true
  · rename_i more
    exact ⟨rfl, fun advancing => advancing.2, fun last => absurd last more⟩

/-- A named adapter does not lose the next page of a response of its convention. -/
theorem search_of_fits (sent : client.outbound req = some out) (answered : server out = .ok answer)
    {convention : Convention} (chosen : client.pickAdapter req.adapterName = .named convention)
    (fits : Fits lib client.config (client.received answer) convention) :
    (client.search server req).error.isSome ∨ Points (client.search server req) := by
  rcases capture_of_reads fits.reads with ⟨e, failed⟩ | ⟨st, captured, advancing⟩
  · refine .inl (search_of_error sent answered (e := e) ?_)
    rwa [chosen]
  · have read : (client.pickAdapter req.adapterName).capture lib client.config
        (client.received answer) = .ok st := by rwa [chosen]
    exact .inr ((search_of_state sent answered read).2.1 advancing)

/-- The `auto` adapter never fails, and finds the next page if some adapter does. -/
theorem search_auto (sent : client.outbound req = some out) (answered : server out = .ok answer)
    (chosen : client.pickAdapter req.adapterName = .auto) :
    (client.search server req).error = none ∧
      (Points (client.search server req) ↔ ∃ convention,
        Reads lib client.config (client.received answer) convention ∧
          LeadsHome lib (client.received answer) convention) := by
  let st := captureAuto lib client.config (client.received answer)
  have captured : (client.pickAdapter req.adapterName).capture lib client.config
      (client.received answer) = .ok st := by
    rw [chosen]
    rfl
  obtain ⟨fine, points, last⟩ := search_of_state sent answered captured
  obtain ⟨advancing_iff, idle⟩ := @captureAuto_spec lib client.config (client.received answer)
  refine ⟨fine, ?_⟩
  rw [← advancing_iff]
  refine ⟨fun found => ?_, points⟩
  by_contra stuck
  have ended : st.done = true := congrArg NextState.done (idle stuck)
  exact last ended found

end Replies

section Merging
variable {baseURLs : Std.ExtTreeMap String String} {results : List FetchResult}
  {cursor cursor' : Cursor} {limit : Nat} {emitted : List Item} {r : FetchResult}
  {oc : OriginCursor}

/-- The merge takes an origin that failed, or pointed to its next page, as still going on. -/
theorem open_after_merge (distinct : OnePerOrigin results) (member : r ∈ results)
    (goes_on : r.error.isSome ∨ Points r.toSearchReply)
    (run : mergeResults baseURLs results cursor limit = some (emitted, cursor'))
    (present : cursor.origins[r.originID]? = some oc) (open_ : oc.exhausted = false) :
    ∃ oc', cursor'.origins[r.originID]? = some oc' ∧ oc'.exhausted = false := by
  have spec := mergeResults_spec run
  obtain ⟨marked, before, still_open⟩ : ∃ marked,
      (markErrors results cursor).origins[r.originID]? = some marked ∧ marked.exhausted = false := by
    rw [origins_markErrors distinct, present]
    split
    · exact ⟨oc.markError, rfl, open_⟩
    · exact ⟨oc, rfl, open_⟩
  rw [spec.origins r.originID, before]
  split
  · rename_i active
    obtain ⟨oc', settles⟩ := Option.isSome_iff_exists.mp (spec.settles _ active marked before)
    refine ⟨oc', settles, ?_⟩
    unfold settled at settles
    split at settles
    · rw [← Option.some.inj settles]
      exact still_open
    · rename_i fetched fresh
      obtain ⟨fetched_member, fine, named⟩ := (freshByOrigin_get? distinct _ _).mp fresh
      obtain rfl : fetched = r :=
        List.inj_on_of_nodup_map distinct fetched_member member named
      obtain ⟨lastSort, -, rfl⟩ := Option.map_eq_some_iff.mp settles
      have points : Points fetched.toSearchReply := goes_on.resolve_left (by simp [fine])
      simp only [OriginCursor.update, FetchResult.originUpdate, still_open, Bool.false_or,
        decide_eq_false_iff_not]
      rintro ⟨token, url, -, body⟩
      rcases points with found | found | found
      · exact found token
      · exact found url
      · exact found body
  · exact ⟨marked, rfl, still_open⟩

end Merging

/-! ## An origin with one more page -/

/-- The address of a page of the origin. -/
def pageURL (param : String) : Url where
  scheme := "https"
  host := "api.example.com"
  path := "/search"
  queryGet name := if name = param then "2" else ""

theorem emptyObject_ne_empty : "\x7b\x7d" ≠ "" := by decide

def pageLibrary : Library where
  parseURL url :=
    if url = "https://api.example.com" then
      some { scheme := "https", host := "api.example.com", path := "", queryGet := fun _ => "" }
    else if url = "https://api.example.com/search?page=2" then some (pageURL "page")
    else if url = "https://api.example.com/search?token=2" then some (pageURL "token")
    else if url = "https://elsewhere.example.com/search?page=2" then
      some { pageURL "page" with host := "elsewhere.example.com" }
    else none
  equalFold a b := a.toList.map Char.toLower == b.toList.map Char.toLower
  marshal _ := "\x7b\x7d"
  marshal_ne_empty _ := emptyObject_ne_empty

def pageClient (adapter : Adapter) : Client pageLibrary where
  baseURL := "https://api.example.com"
  base := { scheme := "https", host := "api.example.com", path := "", queryGet := fun _ => "" }
  adapter := adapter
  parsed := rfl

/-- A page that links to the next one. -/
def linking (href : String) (additionalFields : Members) : Answer where
  links := [some { href := href, rel := "next", additionalFields := additionalFields }]

def tokenPage : Answer := linking "https://api.example.com/search?token=2" []

def headerPage : Answer where
  linkHeader := ["<https://api.example.com/search?page=2>;rel=next"]

/-- Responses with a next link of a form that the adapter does not expect. -/
def lostPages : List (Adapter × Answer) := [
  (.named .token, linking "https://api.example.com/search?page=2" []),
  (.named .nextURL, linking "https://api.example.com/search?page=2"
    [("method", .str "POST"), ("body", .obj [])]),
  (.named .postBody, linking "https://api.example.com/search?page=2" [("method", .str "POST")]),
  (.named .offset, linking "https://api.example.com/search?page=2" []),
  (.named .linkHeader, { linkHeader :=
    ["<https://api.example.com/search?page=2>; title=\"a, b\"; rel=\"next\""] }),
  (.auto, linking "https://elsewhere.example.com/search?page=2" [])]

/-- Whether a first page with this reply marks its only origin as exhausted. -/
def exhausts (reply : SearchReply) : Bool :=
  match mergeResults ∅ [{ reply with originID := "a" }] (newFederatedCursor "" "" ["a"] 0) 1 with
  | none => false
  | some (_, cursor) => (cursor.origins["a"]?).any (·.exhausted)

/-- A response of the adapter's convention is an error or points to the next page. The `auto`
adapter points to it exactly if some adapter finds what it goes by and that leads to an address of
the origin; otherwise it retires the origin. An origin that failed or was pointed to is not marked as
exhausted. -/
theorem next_page_kept {lib : Library} {client : Client lib}
    {server : Outbound → Except OriginError Answer} {req : Request} {out : Outbound}
    {answer : Answer} (sent : client.outbound req = some out)
    (answered : server out = .ok answer) :
    (∀ convention, client.pickAdapter req.adapterName = .named convention →
      Fits lib client.config (client.received answer) convention →
      (client.search server req).error.isSome ∨ Points (client.search server req)) ∧
    (client.pickAdapter req.adapterName = .auto →
      (client.search server req).error = none ∧
      (Points (client.search server req) ↔ ∃ convention,
        Reads lib client.config (client.received answer) convention ∧
          LeadsHome lib (client.received answer) convention)) ∧
    ((client.search server req).error.isSome ∨ Points (client.search server req) →
      ∀ (baseURLs : Std.ExtTreeMap String String) (results : List FetchResult)
        (cursor cursor' : Cursor) (limit : Nat) (emitted : List Item) (id : String)
        (oc : OriginCursor), OnePerOrigin results →
        { client.search server req with originID := id } ∈ results →
        mergeResults baseURLs results cursor limit = some (emitted, cursor') →
        cursor.origins[id]? = some oc → oc.exhausted = false →
        ∃ oc', cursor'.origins[id]? = some oc' ∧ oc'.exhausted = false) := by
  refine ⟨fun convention => search_of_fits sent answered, search_auto sent answered, ?_⟩
  intro goes_on baseURLs results cursor cursor' limit emitted id oc distinct member run
  exact open_after_merge distinct member goes_on run

theorem next_page_kept_token :
    Points ((pageClient (.named .token)).search (fun _ => .ok tokenPage) {}) ∧
    Points ((pageClient (.named .linkHeader)).search (fun _ => .ok headerPage) {}) ∧
    Points ((pageClient .auto).search (fun _ => .ok tokenPage) {}) := by
  have fits : ∀ adapter, Fits pageLibrary {} ((pageClient adapter).received tokenPage) .token := by
    intro adapter
    refine ⟨_, rfl, .inl ⟨?_, pageURL "token", ?_, ?_⟩⟩
    · exact (by decide : "https://api.example.com/search?token=2" ≠ "")
    · rfl
    · exact (by decide : "2" ≠ "")
  have header : Fits pageLibrary {} ((pageClient (.named .linkHeader)).received headerPage)
      .linkHeader := by
    let l : LinkGrammar.Link :=
      ⟨⟨"https://api.example.com/search?page=2".toList, by decide⟩, [LinkGrammar.nextRel]⟩
    refine ⟨[[LinkGrammar.linkElement l]], by decide, ⟨?_, .inl (by decide)⟩, l,
      by simp [LinkGrammar.links, LinkGrammar.linkElement], by decide⟩
    intro q member
    obtain rfl := List.mem_singleton.mp member
    exact LinkGrammar.nextRel_harmless
  refine ⟨?_, ?_, ?_⟩
  · exact ((next_page_kept rfl rfl).1 .token rfl (fits _)).resolve_left (by decide +kernel)
  · exact ((next_page_kept rfl rfl).1 .linkHeader rfl header).resolve_left (by decide +kernel)
  · exact (((next_page_kept rfl rfl).2.1 rfl).2.mpr ⟨.token, fits _, trivial⟩)

/-- Each of the responses is taken as the last page, without an error. -/
theorem next_page_lost : lostPages.all fun (adapter, answer) =>
    let reply := (pageClient adapter).search (fun _ => .ok answer) {}
    reply.error.isNone && !decide (Points reply) && exhausts reply := by
  decide +kernel

end OriginExhaustion
