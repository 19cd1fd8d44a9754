import StacProxy.OrderedPaging
import StacProxy.PaginatedSearch

/-!
# Paginated sessions

A session calls `Search` with no cursor and then with the `NextCursor` of the page
before. `cursorAt` follows the cursors themselves, `step` the calls a client makes
with their tokens. The two agree when every token the session mints decodes to its
cursor on presentation and a page-cache hit equals the page it replaces.
-/

namespace SearchSession

open StacItem SearchRequest FederatedCursor CursorWire PageMerge PaginatedSearch

structure Session where
  searcher : Searcher
  wire : Wire
  principalHash : String
  request : Request
  /-- What the call for page `n` meets. -/
  visit : Nat → Visit
  /-- `PrincipalHash` gives sixteen hex digits, or nothing for an anonymous client. -/
  principalHash_short : principalHash.length ≤ 16

namespace Session

variable (S : Session)

def limit : Nat := S.searcher.pageLimit S.request

def startCursor : Cursor :=
  newFederatedCursor (S.wire.hashSearchRequest S.request) S.principalHash S.searcher.origins.keys
    (S.visit 0).now

def merge (n : Nat) (c : Cursor) : Option Merged :=
  mergePage S.searcher (S.visit n) S.request c

def render (n : Nat) (c : Cursor) (token : String) : Except SearchError Page :=
  renderPage S.searcher S.wire (S.visit n) S.request c token

/-- The cursor that page `n` is rendered from, with the token it was minted as. -/
def cursorAt : Nat → Option (Cursor × String)
  | 0 => some (S.startCursor, "")
  | n + 1 => do
    let (c, token) ← cursorAt n
    let page ← (S.render n c token).toOption
    let next ← page.next
    let token' ← (encode S.wire next S.searcher.cursorSecret).toOption
    pure (next, token')

/-- The call for page `n`. -/
def page (n : Nat) (token : String) : Except SearchError SearchResult :=
  search S.searcher S.wire S.principalHash (S.visit n) S.request token

/-- One call of the client: the page, and what to present next. -/
def step (at_ : Nat × String) : Option (SearchResult × Option (Nat × String)) :=
  match S.page at_.1 at_.2 with
  | .error _ => none
  | .ok result => some (result,
      if result.nextCursor = "" then none else some (at_.1 + 1, result.nextCursor))

structure Coherent : Prop where
  /-- Encoding and decoding round-trips on the cursors of the session. -/
  roundTrips : ∀ n c token, S.cursorAt (n + 1) = some (c, token) →
    decodeCursor S.wire token S.searcher.cursorSecret S.searcher.origins S.principalHash
      (S.visit (n + 1)).now = .ok c
  /-- The page cache returns the page that would be rendered. -/
  transparent : ∀ n c token result, S.cursorAt (n + 1) = some (c, token) →
    (S.visit (n + 1)).cached = some result →
      ∃ page, S.render (n + 1) c token = .ok page ∧ page.result = result

/-- Every cursor the session would mint can be encoded. -/
def Encodable : Prop :=
  ∀ n c token m, S.cursorAt n = some (c, token) → S.merge n c = some m → m.cursor.hasMore →
    ∃ token', encode S.wire (chainCursor m.cursor token) S.searcher.cursorSecret = .ok token'

end Session

section Rendering
variable {S : Session} {n : Nat} {c c' : Cursor} {token token' : String} {m : Merged}

theorem limit_pos (S : Session) : 0 < S.limit := by
  have := S.searcher.pageSize_pos
  rw [Session.limit, Searcher.pageLimit]
  split <;> omega

/-- A merged page leaves everything outside the origins and the running total as it was. -/
theorem merge_spec (merged : S.merge n c = some m) :
    ∃ c', MergeSpec S.searcher.origins
        (fetchFromOrigins S.searcher (S.visit n) S.request c S.limit) c S.limit m.items c' ∧
      m.cursor = { c' with totalReturned := c'.totalReturned + Int64.ofNat m.items.length } := by
  obtain ⟨⟨items, c'⟩, run, rfl⟩ := Option.map_eq_some_iff.mp merged
  exact ⟨c', mergeResults_spec run, rfl⟩

theorem merge_frame (merged : S.merge n c = some m) :
    m.cursor = { c with
      origins := m.cursor.origins
      totalReturned := c.totalReturned + Int64.ofNat m.items.length } := by
  obtain ⟨c', spec, same⟩ := merge_spec merged
  rw [same, spec.frame]

/-- The fetch of one origin for page `n`. -/
abbrev Session.fetch (S : Session) (n : Nat) (c : Cursor) (id : String) : FetchResult :=
  fetchOrigin S.searcher (S.visit n) S.request c S.limit id

theorem Session.fetchedFor (S : Session) (n : Nat) (c : Cursor) :
    FetchedFor c S.limit (fetchFromOrigins S.searcher (S.visit n) S.request c S.limit) :=
  fetchFromOrigins_fetchedFor _ _ _ _ _

/-- All that a page can do to the state of one origin. -/
inductive Progress (S : Session) (n : Nat) (c : Cursor) (id : String) (oc : OriginCursor) :
    OriginCursor → Prop
  | skipped (stash : List (Option Item)) : id ∉ toFetch c S.limit →
      Progress S n c id oc { oc with stash := stash }
  | failed (stash : List (Option Item)) : id ∈ toFetch c S.limit → (S.fetch n c id).error.isSome →
      Progress S n c id oc { oc.markError with stash := stash }
  | served (stash : List (Option Item)) (lastSort : Option JsonValue.Json) :
      id ∈ toFetch c S.limit → (S.fetch n c id).error = none →
      Progress S n c id oc
        { oc.update ((S.fetch n c id).originUpdate lastSort) with stash := stash }

theorem failed_iff {id : String} :
    Failed (fetchFromOrigins S.searcher (S.visit n) S.request c S.limit) id ↔
      id ∈ toFetch c S.limit ∧ (S.fetch n c id).error.isSome := by
  constructor
  · rintro ⟨r, member, named, failed⟩
    obtain ⟨selected, rfl⟩ := mem_fetchFromOrigins.mp ⟨member, named⟩
    exact ⟨selected, failed⟩
  · rintro ⟨selected, failed⟩
    obtain ⟨member, named⟩ := mem_fetchFromOrigins.mpr ⟨selected, rfl⟩
    exact ⟨_, member, named, failed⟩

theorem fresh_iff {id : String} {r : FetchResult} :
    (freshByOrigin (fetchFromOrigins S.searcher (S.visit n) S.request c S.limit))[id]? = some r ↔
      id ∈ toFetch c S.limit ∧ r = S.fetch n c id ∧ r.error = none := by
  rw [freshByOrigin_get? (S.fetchedFor n c).onePerOrigin]
  constructor
  · rintro ⟨member, fine, named⟩
    obtain ⟨selected, same⟩ := mem_fetchFromOrigins.mp ⟨member, named⟩
    exact ⟨selected, same, fine⟩
  · rintro ⟨selected, same, fine⟩
    obtain ⟨member, named⟩ := mem_fetchFromOrigins.mpr ⟨selected, same⟩
    exact ⟨member, fine, named⟩

/-- There is nothing fresh from origins that were not asked or failed. -/
theorem fresh_eq_none {id : String}
    (stale : id ∈ toFetch c S.limit → (S.fetch n c id).error.isSome) :
    (freshByOrigin (fetchFromOrigins S.searcher (S.visit n) S.request c S.limit))[id]? = none := by
  rw [Option.eq_none_iff_forall_ne_some]
  intro r fresh
  obtain ⟨selected, rfl, fine⟩ := fresh_iff.mp fresh
  simpa [fine] using stale selected

theorem progress_of_merge {id : String} {oc oc' : OriginCursor} (merged : S.merge n c = some m)
    (present : c.origins[id]? = some oc) (after : m.cursor.origins[id]? = some oc') :
    Progress S n c id oc oc' := by
  obtain ⟨c', spec, same⟩ := merge_spec merged
  have distinct := (S.fetchedFor n c).onePerOrigin
  have marked := origins_markErrors distinct c id
  rw [same, spec.origins id] at after
  rw [present] at marked
  by_cases selected : id ∈ toFetch c S.limit
  · cases fetched : (S.fetch n c id).error with
    | some error =>
      have failed : (S.fetch n c id).error.isSome := by simp [fetched]
      rw [if_pos (failed_iff.mpr ⟨selected, failed⟩), Option.map_some] at marked
      split at after
      · rw [marked, Option.bind_some, settled, fresh_eq_none fun _ => failed] at after
        obtain rfl := Option.some.inj after
        exact .failed _ selected failed
      · obtain rfl := Option.some.inj (after.symm.trans marked)
        exact .failed oc.stash selected failed
    | none =>
      rw [if_neg fun failed => by simpa [fetched] using (failed_iff.mp failed).2] at marked
      have active : id ∈ (markErrors (fetchFromOrigins S.searcher (S.visit n) S.request c
          S.limit) c).activeOrigins := by
        obtain ⟨oc₀, present₀, more⟩ := mem_activeOrigins.mp (List.mem_of_mem_filter selected)
        obtain rfl := Option.some.inj (present.symm.trans present₀)
        exact mem_activeOrigins.mpr ⟨oc, marked, more⟩
      rw [if_pos active, marked, Option.bind_some, settled,
        fresh_iff.mpr ⟨selected, rfl, fetched⟩] at after
      obtain ⟨lastSort, _, rfl⟩ := Option.map_eq_some_iff.mp after
      exact .served _ lastSort selected fetched
  · rw [if_neg fun failed => selected (failed_iff.mp failed).1] at marked
    split at after
    · rw [marked, Option.bind_some, settled,
        fresh_eq_none fun asked => absurd asked selected] at after
      obtain rfl := Option.some.inj after
      exact .skipped _ selected
    · obtain rfl := Option.some.inj (after.symm.trans marked)
      exact .skipped oc'.stash selected

/-- A merge gives an origin the leftovers that name it, or nothing. -/
theorem stash_after_merge {id : String} {oc' : OriginCursor} (merged : S.merge n c = some m)
    (after : m.cursor.origins[id]? = some oc') : oc'.stash = [] ∨
      oc'.stash = newStash ((mergedPage S.searcher.origins
        (fetchFromOrigins S.searcher (S.visit n) S.request c S.limit) c).drop S.limit) id := by
  obtain ⟨c', spec, same⟩ := merge_spec merged
  rw [same, spec.origins id] at after
  split at after
  · obtain ⟨oc, _, settles⟩ := Option.bind_eq_some_iff.mp after
    exact .inr (stash_of_settled settles)
  · rename_i inactive
    exact .inl (stash_eq_nil_of_inactive after inactive)

/-- A merge returns unless some fetched page ends in a null feature. -/
theorem exists_merge (fine : ∀ id ∈ toFetch c S.limit, (S.fetch n c id).error = none →
    (S.fetch n c id).items.getLast? ≠ some none) : ∃ m, S.merge n c = some m := by
  have returns : (mergeResults S.searcher.origins
      (fetchFromOrigins S.searcher (S.visit n) S.request c S.limit) c S.limit).isSome := by
    rw [mergeResults_isSome]
    intro id _ r fresh
    obtain ⟨selected, rfl, succeeded⟩ := fresh_iff.mp fresh
    exact fine id selected succeeded
  obtain ⟨merged, run⟩ := Option.isSome_iff_exists.mp returns
  exact ⟨_, by rw [Session.merge, mergePage, ← Session.limit, run, Option.map_some]⟩

theorem isSome_after_merge (merged : S.merge n c = some m) (id : String) :
    (m.cursor.origins[id]?).isSome ↔ (c.origins[id]?).isSome := by
  obtain ⟨c', spec, same⟩ := merge_spec merged
  have distinct := (S.fetchedFor n c).onePerOrigin
  have marked : ((markErrors (fetchFromOrigins S.searcher (S.visit n) S.request c S.limit)
      c).origins[id]?).isSome ↔ (c.origins[id]?).isSome := by
    rw [origins_markErrors distinct]
    split <;> simp
  rw [same, ← marked, spec.origins id]
  split
  · rename_i active
    obtain ⟨oc, present, _⟩ := mem_activeOrigins.mp active
    simp [present, spec.settles id active oc present]
  · rfl

theorem origins_chainCursor (cursor : Cursor) (token id : String) :
    (chainCursor cursor token).origins[id]? = (cursor.origins[id]?).map OriginCursor.clone := by
  rw [chainCursor]
  exact origins_clone cursor id

theorem render_idle (idle : c.activeOrigins = []) : S.render n c token =
    .ok { result := { items := [], context := { returned := 0, limit := S.limit } } } := by
  simp [Session.render, renderPage, idle, Session.limit]

theorem render_active (active : c.activeOrigins ≠ []) (merged : S.merge n c = some m) :
    S.render n c token = .ok (pageOfMerge S.searcher S.wire S.limit
      (fetchFromOrigins S.searcher (S.visit n) S.request c S.limit) m token) := by
  rw [Session.merge] at merged
  simp [Session.render, renderPage, active, merged, Session.limit]

theorem nextCursorOf_eq_some {next : Cursor} : nextCursorOf m token = some next ↔
    m.cursor.hasMore ∧ next = chainCursor m.cursor token := by
  rw [nextCursorOf]
  split
  · rename_i more
    simp [more, eq_comm]
  · rename_i idle
    simp [idle]

/-- The cursor of a page is the clone, chained, of the cursor the page before left behind. -/
theorem cursorAt_succ_iff : S.cursorAt (n + 1) = some (c', token') ↔
    ∃ c token m, S.cursorAt n = some (c, token) ∧ c.activeOrigins ≠ [] ∧
      S.merge n c = some m ∧ m.cursor.hasMore ∧ c' = chainCursor m.cursor token ∧
      encode S.wire c' S.searcher.cursorSecret = .ok token' := by
  have toOption_ok : ∀ {ε α : Type} {x : Except ε α} {a : α}, x.toOption = some a ↔ x = .ok a := by
    intro ε α x a
    cases x <;> simp [Except.toOption]
  simp only [Session.cursorAt, Option.bind_eq_bind, Option.bind_eq_some_iff, Option.pure_def,
    Option.some.injEq, Prod.exists, toOption_ok, Prod.mk.injEq]
  constructor
  · rintro ⟨c, token, before, page, rendered, next, minted, token'', encoded, rfl, rfl⟩
    by_cases idle : c.activeOrigins = []
    · rw [render_idle idle] at rendered
      obtain rfl := Except.ok.inj rendered
      cases minted
    · cases merged : S.merge n c with
      | none =>
        rw [Session.merge] at merged
        simp [Session.render, renderPage, idle, merged] at rendered
      | some m =>
        rw [render_active idle merged] at rendered
        obtain rfl := Except.ok.inj rendered
        obtain ⟨more, rfl⟩ := nextCursorOf_eq_some.mp minted
        exact ⟨c, token, m, before, idle, merged, more, rfl, encoded⟩
  · rintro ⟨c, token, m, before, active, merged, more, rfl, encoded⟩
    exact ⟨c, token, before, _, render_active active merged, _,
      nextCursorOf_eq_some.mpr ⟨more, rfl⟩, _, encoded, rfl, rfl⟩

/-- An origin in the cursor of a page comes from the cursor of the page before. -/
theorem origin_before (after : S.cursorAt (n + 1) = some (c', token')) {id : String}
    {oc : OriginCursor} (present : c'.origins[id]? = some oc) :
    ∃ c token m oc₀ oc', S.cursorAt n = some (c, token) ∧ S.merge n c = some m ∧
      c.origins[id]? = some oc₀ ∧ m.cursor.origins[id]? = some oc' ∧ oc = oc'.clone := by
  obtain ⟨c, token, m, before, _, merged, _, rfl, _⟩ := cursorAt_succ_iff.mp after
  rw [origins_chainCursor] at present
  obtain ⟨oc', settled, rfl⟩ := Option.map_eq_some_iff.mp present
  obtain ⟨oc₀, present₀⟩ := Option.isSome_iff_exists.mp
    ((isSome_after_merge merged id).mp (by simp [settled]))
  exact ⟨c, token, m, oc₀, oc', before, merged, present₀, settled, rfl⟩

/-- An origin in the cursor of a page goes on into the cursor of the next page. -/
theorem origin_after (before : S.cursorAt n = some (c, token))
    (after : S.cursorAt (n + 1) = some (c', token')) {id : String} {oc : OriginCursor}
    (present : c.origins[id]? = some oc) :
    ∃ oc', c'.origins[id]? = some oc'.clone ∧ Progress S n c id oc oc' := by
  obtain ⟨c₀, token₀, m, before₀, _, merged, _, rfl, _⟩ := cursorAt_succ_iff.mp after
  obtain ⟨rfl, rfl⟩ := Prod.mk.inj (Option.some.inj (before.symm.trans before₀))
  obtain ⟨oc', settled⟩ := Option.isSome_iff_exists.mp
    ((isSome_after_merge merged id).mpr (by simp [present]))
  exact ⟨oc', by rw [origins_chainCursor, settled]; rfl, progress_of_merge merged present settled⟩

/-- A session has a cursor for every page up to one that it has a cursor for. -/
theorem exists_cursorAt {k : Nat} (earlier : n ≤ k) (after : S.cursorAt k = some (c, token)) :
    ∃ c₀ token₀, S.cursorAt n = some (c₀, token₀) := by
  induction k, earlier using Nat.le_induction generalizing c token with
  | base => exact ⟨c, token, after⟩
  | succ k _ ih =>
    obtain ⟨c₁, token₁, _, before, _⟩ := cursorAt_succ_iff.mp after
    exact ih before

theorem token_eq (before : S.cursorAt n = some (c, token)) :
    token = "" ↔ n = 0 := by
  cases n with
  | zero =>
    obtain ⟨_, rfl⟩ := Prod.mk.inj (Option.some.inj before)
    simp
  | succ n =>
    obtain ⟨_, _, _, _, _, _, _, _, encoded⟩ := cursorAt_succ_iff.mp before
    obtain ⟨_, payload, _, rfl⟩ := encode_ok_iff.mp encoded
    simp [tokenOf_ne_empty]

/-- What every cursor of a session carries unchanged from its start. -/
structure Stamped (S : Session) (n : Nat) (c : Cursor) : Prop where
  version : c.version = currentCursorVersion
  queryHash : c.queryHash = S.wire.hashSearchRequest S.request
  principalHash : c.principalHash = S.principalHash
  createdAt : c.createdAt = (S.visit 0).now
  expiresAt : c.expiresAt = (S.visit 0).now + defaultTTL
  pageSeq : c.pageSeq = n
  /-- Page 0 has no token, so no page ever learns a first one. -/
  firstCursor : c.firstCursor = ""

theorem stamped_chain (stamped : Stamped S n c) (merged : S.merge n c = some m)
    (begins : n = 0 → token = "") : Stamped S (n + 1) (chainCursor m.cursor token) := by
  have frame := merge_frame merged
  have pageSeq : m.cursor.pageSeq = n := by rw [frame]; exact stamped.pageSeq
  refine ⟨?_, ?_, ?_, ?_, ?_, ?_, ?_⟩
  · rw [chainCursor, frame]; exact stamped.version
  · rw [chainCursor, frame]; exact stamped.queryHash
  · rw [chainCursor, frame]; exact stamped.principalHash
  · rw [chainCursor, frame]; exact stamped.createdAt
  · rw [chainCursor, frame]; exact stamped.expiresAt
  · simp [chainCursor, pageSeq]
  · simp only [chainCursor, pageSeq]
    split
    · rename_i first
      exact begins first
    · rw [frame]; exact stamped.firstCursor

theorem stamped_of_cursorAt (before : S.cursorAt n = some (c, token)) : Stamped S n c := by
  induction n generalizing c token with
  | zero =>
    obtain ⟨rfl, _⟩ := Prod.mk.inj (Option.some.inj before)
    exact ⟨rfl, rfl, rfl, rfl, rfl, rfl, rfl⟩
  | succ n ih =>
    obtain ⟨c₀, token₀, m, before₀, _, merged, _, rfl, _⟩ := cursorAt_succ_iff.mp before
    exact stamped_chain (ih before₀) merged fun first => (token_eq before₀).mpr first

/-- The client's call for page `n` renders the page of the session's cursor. -/
theorem page_eq (coherent : S.Coherent) (before : S.cursorAt n = some (c, token)) :
    S.page n token = (S.render n c token).map (·.result) := by
  cases n with
  | zero =>
    obtain ⟨rfl, rfl⟩ := Prod.mk.inj (Option.some.inj before)
    simp [Session.page, search, Session.render, Session.startCursor]
  | succ n =>
    have presented : token ≠ "" := fun empty => absurd ((token_eq before).mp empty) (by omega)
    have hash : ¬ c.queryHash ≠ S.wire.hashSearchRequest S.request :=
      not_not.mpr (stamped_of_cursorAt before).queryHash
    simp only [Session.page, search, presented, if_false, coherent.roundTrips n c token before, hash]
    cases cached : (S.visit (n + 1)).cached with
    | none => rfl
    | some result =>
      obtain ⟨page, rendered, same⟩ := coherent.transparent n c token result before cached
      simp [rendered, Except.map, same]

theorem tokenText_eq (next : Option Cursor) (secret : List UInt8) (w : Wire) :
    tokenText w secret next =
      ((next.bind fun c => (encode w c secret).toOption).getD "") := by
  rw [tokenText]
  cases next with
  | none => rfl
  | some c =>
    cases encoded : encode w c secret with
    | error e | ok token => simp [encoded, Except.toOption]

/-- Following the tokens is following the cursors. -/
theorem step_eq (coherent : S.Coherent) (before : S.cursorAt n = some (c, token)) {page : Page}
    (rendered : S.render n c token = .ok page)
    (linked : page.result.nextCursor = tokenText S.wire S.searcher.cursorSecret page.next) :
    S.step (n, token) =
      some (page.result, (S.cursorAt (n + 1)).map fun after => (n + 1, after.2)) := by
  have call : S.page n token = .ok page.result := by
    rw [page_eq coherent before, rendered]
    rfl
  have after : S.cursorAt (n + 1) = page.next.bind fun next =>
      (encode S.wire next S.searcher.cursorSecret).toOption.map fun token => (next, token) := by
    simp [Session.cursorAt, before, rendered, Except.toOption, Option.map_eq_bind]
  have answer : S.step (n, token) = some (page.result,
      if page.result.nextCursor = "" then none else some (n + 1, page.result.nextCursor)) := by
    simp only [Session.step, call]
  rw [answer, linked, tokenText_eq, after]
  cases page.next with
  | none => simp
  | some next =>
    cases encoded : encode S.wire next S.searcher.cursorSecret with
    | error e => simp [encoded, Except.toOption]
    | ok token' =>
      obtain ⟨_, payload, _, rfl⟩ := encode_ok_iff.mp encoded
      simp [encoded, Except.toOption, tokenOf_ne_empty]

/-- A rendered page shows the token of the cursor it mints. -/
theorem linked_of_render {page : Page} (rendered : S.render n c token = .ok page) :
    page.result.nextCursor = tokenText S.wire S.searcher.cursorSecret page.next := by
  by_cases idle : c.activeOrigins = []
  · rw [render_idle idle] at rendered
    obtain rfl := Except.ok.inj rendered
    rfl
  · cases merged : S.merge n c with
    | none =>
      rw [Session.merge] at merged
      simp [Session.render, renderPage, idle, merged] at rendered
    | some m =>
      rw [render_active idle merged] at rendered
      obtain rfl := Except.ok.inj rendered
      rfl

/-- Page `n` of the session shows `next` as its next cursor. -/
def Shows (S : Session) (n : Nat) (next : String) : Prop :=
  ∃ c token result, S.cursorAt n = some (c, token) ∧ S.page n token = .ok result ∧
    result.nextCursor = next

/-- A page shows a token exactly when the session goes on with it. -/
theorem shows_iff (coherent : S.Coherent) {next : String} (nonempty : next ≠ "") :
    Shows S n next ↔ ∃ c', S.cursorAt (n + 1) = some (c', next) := by
  have follow : ∀ {c token result}, S.cursorAt n = some (c, token) → S.page n token = .ok result →
      (if result.nextCursor = "" then none else some (n + 1, result.nextCursor)) =
        (S.cursorAt (n + 1)).map fun after => (n + 1, after.2) := by
    intro c token result before call
    have rendered := call
    rw [page_eq coherent before] at rendered
    cases page : S.render n c token with
    | error e => simp [page, Except.map] at rendered
    | ok rendering =>
      have step := step_eq coherent before page (linked_of_render page)
      rw [Session.step, call] at step
      exact (Prod.mk.inj (Option.some.inj step)).2
  constructor
  · rintro ⟨c, token, result, before, call, rfl⟩
    have followed := follow before call
    rw [if_neg nonempty] at followed
    obtain ⟨⟨c', token'⟩, after, same⟩ := Option.map_eq_some_iff.mp followed.symm
    obtain rfl : token' = result.nextCursor := (Prod.mk.inj same).2
    exact ⟨c', after⟩
  · rintro ⟨c', after⟩
    obtain ⟨c, token, m, before, active, merged, _⟩ := cursorAt_succ_iff.mp after
    obtain ⟨result, call⟩ : ∃ result, S.page n token = .ok result := by
      rw [page_eq coherent before, render_active active merged]
      exact ⟨_, rfl⟩
    have followed := follow before call
    rw [after] at followed
    refine ⟨c, token, result, before, call, ?_⟩
    split at followed
    · cases followed
    · exact (Prod.mk.inj (Option.some.inj followed)).2

theorem step_idle (coherent : S.Coherent) (before : S.cursorAt n = some (c, token))
    (idle : c.activeOrigins = []) : ∃ result, result.items = [] ∧ result.nextCursor = "" ∧
      S.step (n, token) = some (result, none) := by
  refine ⟨{ items := [], context := { returned := 0, limit := S.limit } }, rfl, rfl, ?_⟩
  simp [Session.step, page_eq coherent before, render_idle idle, Except.map]

theorem step_active (coherent : S.Coherent) (before : S.cursorAt n = some (c, token))
    (active : c.activeOrigins ≠ []) (merged : S.merge n c = some m) :
    ∃ result, result.items = m.items ∧ S.step (n, token) =
      some (result, (S.cursorAt (n + 1)).map fun after => (n + 1, after.2)) :=
  ⟨_, rfl, step_eq coherent before (render_active active merged) rfl⟩

/-- Everything a call that answers can have done. -/
theorem step_cases (coherent : S.Coherent) (before : S.cursorAt n = some (c, token))
    {result : SearchResult} {next : Option (Nat × String)}
    (answer : S.step (n, token) = some (result, next)) :
    (c.activeOrigins = [] ∧ result.items = [] ∧ next = none) ∨
      ∃ m, c.activeOrigins ≠ [] ∧ S.merge n c = some m ∧ result.items = m.items ∧
        next = (S.cursorAt (n + 1)).map fun after => (n + 1, after.2) := by
  by_cases idle : c.activeOrigins = []
  · obtain ⟨result', bare, _, answer'⟩ := step_idle coherent before idle
    obtain ⟨rfl, rfl⟩ := Prod.mk.inj (Option.some.inj (answer.symm.trans answer'))
    exact .inl ⟨idle, bare, rfl⟩
  · cases merged : S.merge n c with
    | none =>
      rw [Session.merge] at merged
      simp [Session.step, page_eq coherent before, Session.render, renderPage, idle, merged,
        Except.map] at answer
    | some m =>
      obtain ⟨result', items, answer'⟩ := step_active coherent before idle merged
      obtain ⟨rfl, rfl⟩ := Prod.mk.inj (Option.some.inj (answer.symm.trans answer'))
      exact .inr ⟨m, idle, rfl, items, rfl⟩

end Rendering

end SearchSession
