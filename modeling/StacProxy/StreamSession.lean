import StacProxy.SearchSession
import StacProxy.StableOrder

/-!
# Sessions over finite streams

Every origin is a finite list of items that its upstream serves page by page. The
invariant ties each per-origin state to a position in the list: what lies before the
position has been fetched and was emitted or is stashed, what lies behind it is still
upstream. One page is analysed once, without assuming any order on the streams.
-/

namespace StreamSession

open StacItem FederatedCursor ItemMerge PageMerge PaginatedSearch SearchSession StableOrder

structure Pointer where
  token : String
  url : String
  body : String
  deriving DecidableEq

def Pointer.none : Pointer := ⟨"", "", ""⟩

def pointerOf (oc : OriginCursor) : Pointer := ⟨oc.nextToken, oc.nextURL, oc.nextBody⟩

def SearchReply.pointer (r : SearchReply) : Pointer := ⟨r.nextToken, r.nextURL, r.nextBody⟩

/-- An upstream that serves a list: asked at position `k` it returns the next items up to
the limit, and a pointer to the position after them exactly when items remain. -/
structure Serves (S : Session) (id : String) (stream : List Item) (points : Nat → Pointer → Prop) :
    Prop where
  start : points 0 Pointer.none
  marked : ∀ k p, points k p → 0 < k → p ≠ Pointer.none
  items : ∀ n k (c : Cursor) oc, c.origins[id]? = some oc → points k (pointerOf oc) →
    ((S.visit n).upstream id (originRequest S.request c S.limit id)).items =
      ((stream.drop k).take S.limit).map some
  succeeds : ∀ n k (c : Cursor) oc, c.origins[id]? = some oc → points k (pointerOf oc) →
    ((S.visit n).upstream id (originRequest S.request c S.limit id)).error = none
  advances : ∀ n k (c : Cursor) oc, c.origins[id]? = some oc → points k (pointerOf oc) →
    k + S.limit < stream.length → points (k + S.limit)
      (SearchReply.pointer ((S.visit n).upstream id (originRequest S.request c S.limit id)))
  ends : ∀ n k (c : Cursor) oc, c.origins[id]? = some oc → points k (pointerOf oc) →
    stream.length ≤ k + S.limit →
      SearchReply.pointer ((S.visit n).upstream id (originRequest S.request c S.limit id)) =
        Pointer.none

/-- What the streams of a session are assumed to be like. Origin IDs are non-empty because
the configuration is rejected otherwise. -/
structure Upstreams (S : Session) (streams : String → List Item)
    (points : String → Nat → Pointer → Prop) : Prop where
  named : ∀ id ∈ S.searcher.origins, id ≠ ""
  serves : ∀ id ∈ S.searcher.origins, Serves S id (streams id) (points id)
  distinct : ∀ id ∈ S.searcher.origins, ((streams id).map Item.identity).Nodup
  colonFree : ∀ id ∈ S.searcher.origins, ∀ x ∈ streams id, ':' ∉ x.collection.toList
  unlinked : ∀ id ∈ S.searcher.origins, ∀ x ∈ streams id, x.links.any Link.isOrigin = false
  copies : ∀ id ∈ S.searcher.origins, ∀ id' ∈ S.searcher.origins, ∀ x ∈ streams id,
    ∀ y ∈ streams id', x.identity = y.identity → getDatetime x = getDatetime y

/-- A stream item as the merge emits or stashes it. -/
def tag (S : Session) (id : String) (x : Item) : Item :=
  addItemOriginLink x id ((S.searcher.origins[id]?).getD "")

@[simp] theorem identity_tag (S : Session) (id : String) (x : Item) :
    (tag S id x).identity = x.identity := by
  simp [tag]

@[simp] theorem pageRank_tag (S : Session) (id : String) (x : Item) :
    pageRank (tag S id x) = pageRank x := by
  simp [tag, pageRank]

@[simp] theorem collection_tag (S : Session) (id : String) (x : Item) :
    (tag S id x).collection = x.collection := by
  simp [tag]

/-- One origin's state at position `k` of its stream. -/
structure Tracked (S : Session) (id : String) (stream : List Item)
    (points : Nat → Pointer → Prop) (k : Nat) (oc : OriginCursor) : Prop where
  errorFree : oc.error = false
  bounded : k ≤ stream.length
  done : oc.exhausted = true → k = stream.length
  position : oc.exhausted = false → points k (pointerOf oc) ∧ (k = 0 ∨ k < stream.length)
  stashed : ∀ y ∈ oc.stash, ∃ x ∈ stream.take k, y = some (tag S id x)
  unrepeated : (oc.stash.map (Option.map Item.identity)).Nodup

structure Tracks (S : Session) (streams : String → List Item)
    (points : String → Nat → Pointer → Prop) (c : Cursor) (taken : String → Nat) : Prop where
  domain : ∀ id, (c.origins[id]?).isSome ↔ id ∈ S.searcher.origins
  entry : ∀ id oc, c.origins[id]? = some oc →
    Tracked S id (streams id) (points id) (taken id) oc

/-- The position after a page. -/
def advance (S : Session) (streams : String → List Item) (c : Cursor) (taken : String → Nat)
    (id : String) : Nat :=
  if id ∈ toFetch c S.limit then min (taken id + S.limit) (streams id).length else taken id

/-- A stream item that is still to be emitted: stashed by its origin, or not yet fetched. -/
def Left (S : Session) (streams : String → List Item) (c : Cursor) (taken : String → Nat)
    (id : String) (x : Item) : Prop :=
  id ∈ S.searcher.origins ∧ x ∈ streams id ∧
    ((∃ oc, c.origins[id]? = some oc ∧ some (tag S id x) ∈ oc.stash) ∨
      x ∈ (streams id).drop (taken id))

theorem tracks_start {S : Session} {streams : String → List Item}
    {points : String → Nat → Pointer → Prop} (up : Upstreams S streams points) :
    Tracks S streams points S.startCursor (fun _ => 0) := by
  constructor
  · intro id
    rw [Session.startCursor, origins_newFederatedCursor]
    by_cases member : id ∈ S.searcher.origins
    · simp [member]
    · simp [member]
  · intro id oc present
    rw [Session.startCursor, origins_newFederatedCursor] at present
    split at present
    · rename_i member
      obtain rfl := Option.some.inj present
      have member' : id ∈ S.searcher.origins := by simpa using member
      exact ⟨rfl, Nat.zero_le _, by simp, fun _ => ⟨(up.serves id member').start, .inl rfl⟩,
        by simp, by simp⟩
    · cases present

section OnePage
variable {S : Session} {streams : String → List Item} {points : String → Nat → Pointer → Prop}
  {c : Cursor} {taken : String → Nat} {n : Nat} {id : String} {oc : OriginCursor}

/-- The fetch results of page `n`. -/
abbrev fetched (S : Session) (n : Nat) (c : Cursor) : List FetchResult :=
  fetchFromOrigins S.searcher (S.visit n) S.request c S.limit

/-- The items of one origin that arrive on a page. -/
def arrivals (S : Session) (streams : String → List Item) (c : Cursor) (taken : String → Nat)
    (id : String) : List Item :=
  if id ∈ toFetch c S.limit then ((streams id).drop (taken id)).take S.limit else []

theorem member_of_present (tracks : Tracks S streams points c taken)
    (present : c.origins[id]? = some oc) : id ∈ S.searcher.origins :=
  (tracks.domain id).mp (by simp [present])

/-- An origin that is fetched is asked at its position. -/
theorem fetched_at (tracks : Tracks S streams points c taken) (selected : id ∈ toFetch c S.limit) :
    id ∈ S.searcher.origins ∧ ∃ oc, c.origins[id]? = some oc ∧ oc.exhausted = false ∧
      points id (taken id) (pointerOf oc) := by
  obtain ⟨oc, present, unexhausted, _, _⟩ := mem_toFetch.mp selected
  exact ⟨member_of_present tracks present, oc, present, unexhausted,
    ((tracks.entry id oc present).position unexhausted).1⟩

theorem fetchOrigin_of_member (member : id ∈ S.searcher.origins) :
    fetchOrigin S.searcher (S.visit n) S.request c S.limit id =
      { (S.visit n).upstream id (originRequest S.request c S.limit id) with originID := id } := by
  rw [fetchOrigin, if_pos member]

theorem fetched_succeeds (up : Upstreams S streams points) (tracks : Tracks S streams points c taken) :
    ∀ r ∈ fetched S n c, r.error = none := by
  intro r member
  obtain ⟨id, selected, rfl⟩ := List.mem_map.mp member
  obtain ⟨known, oc, present, _, placed⟩ := fetched_at tracks selected
  rw [fetchOrigin_of_member known]
  exact (up.serves id known).succeeds n _ c oc present placed

theorem markErrors_eq_self {results : List FetchResult} (fine : ∀ r ∈ results, r.error = none) :
    markErrors results c = c := by
  induction results with
  | nil => rfl
  | cons r rest ih =>
    obtain ⟨head, tail⟩ := List.forall_mem_cons.mp fine
    rw [markErrors_cons, head]
    exact ih tail

theorem fresh_eq (up : Upstreams S streams points) (tracks : Tracks S streams points c taken)
    (id : String) : (freshByOrigin (fetched S n c))[id]? =
      if id ∈ toFetch c S.limit then
        some (fetchOrigin S.searcher (S.visit n) S.request c S.limit id)
      else none := by
  have distinct := (S.fetchedFor n c).onePerOrigin
  refine Option.ext fun r => ?_
  rw [freshByOrigin_get? distinct]
  constructor
  · rintro ⟨member, _, rfl⟩
    obtain ⟨id, selected, rfl⟩ := List.mem_map.mp member
    simp [selected]
  · intro found
    split at found
    · rename_i selected
      obtain rfl := Option.some.inj found
      have member : fetchOrigin S.searcher (S.visit n) S.request c S.limit id ∈ fetched S n c :=
        List.mem_map_of_mem selected
      exact ⟨member, fetched_succeeds up tracks _ member, fetchOrigin_originID _ _ _⟩
    · cases found

/-- What one origin brings to the merge. -/
theorem combined_eq (up : Upstreams S streams points) (tracks : Tracks S streams points c taken) :
    combined (freshByOrigin (fetched S n c)) id oc =
      oc.stash ++ (arrivals S streams c taken id).map some := by
  rw [combined, fresh_eq up tracks, arrivals]
  by_cases selected : id ∈ toFetch c S.limit
  · obtain ⟨known, oc', present, _, placed⟩ := fetched_at tracks selected
    simp only [selected, if_true, Option.map_some, Option.getD_some, fetchOrigin_of_member known]
    rw [(up.serves id known).items n _ c oc' present placed]
  · simp [selected]

theorem take_append_arrivals : (streams id).take (taken id) ++ arrivals S streams c taken id =
    (streams id).take (advance S streams c taken id) := by
  rw [arrivals, advance]
  split
  · rw [← List.take_add, List.take_eq_take_iff]
    simp
  · simp

/-- Everything an origin brings comes from its stream, up to the new position. -/
theorem mem_window (tracks : Tracks S streams points c taken)
    (present : c.origins[id]? = some oc) {y : Option Item}
    (brought : y ∈ oc.stash ++ (arrivals S streams c taken id).map some) :
    ∃ x ∈ (streams id).take (advance S streams c taken id), y = some (tag S id x) ∨ y = some x := by
  rw [← take_append_arrivals]
  rcases List.mem_append.mp brought with stashed | arrived
  · obtain ⟨x, early, rfl⟩ := (tracks.entry id oc present).stashed y stashed
    exact ⟨x, List.mem_append_left _ early, .inl rfl⟩
  · obtain ⟨x, late, rfl⟩ := List.mem_map.mp arrived
    exact ⟨x, List.mem_append_right _ late, .inr rfl⟩

theorem window_identities_nodup (up : Upstreams S streams points)
    (tracks : Tracks S streams points c taken) (present : c.origins[id]? = some oc) :
    ((oc.stash ++ (arrivals S streams c taken id).map some).map
      (Option.map Item.identity)).Nodup := by
  have known := member_of_present tracks present
  have whole : (((streams id).take (taken id) ++ arrivals S streams c taken id).map
      Item.identity).Nodup := by
    rw [take_append_arrivals]
    exact (up.distinct id known).sublist ((List.take_sublist _ _).map _)
  rw [List.map_append, List.nodup_append] at whole
  obtain ⟨_, arrivals_nodup, apart⟩ := whole
  rw [List.map_append, List.nodup_append]
  refine ⟨(tracks.entry id oc present).unrepeated, ?_, ?_⟩
  · rw [List.map_map]
    have := arrivals_nodup.map (Option.some_injective _)
    rwa [List.map_map] at this
  · intro a stashed b arrived same
    obtain ⟨y, inStash, rfl⟩ := List.mem_map.mp stashed
    obtain ⟨x, early, rfl⟩ := (tracks.entry id oc present).stashed y inStash
    obtain ⟨z, late, rfl⟩ := List.mem_map.mp arrived
    obtain ⟨x', late', rfl⟩ := List.mem_map.mp late
    have : x.identity = x'.identity := by simpa using same
    exact apart _ (List.mem_map_of_mem early) _ (List.mem_map_of_mem late') this

/-- An origin with unfetched items brings at least a page. -/
theorem window_full (tracks : Tracks S streams points c taken) (present : c.origins[id]? = some oc)
    (remains : advance S streams c taken id < (streams id).length) :
    S.limit ≤ (oc.stash ++ (arrivals S streams c taken id).map some).length := by
  have entry := tracks.entry id oc present
  rw [List.length_append, List.length_map, arrivals]
  rw [advance] at remains
  by_cases selected : id ∈ toFetch c S.limit
  · rw [if_pos selected] at remains
    rw [if_pos selected, List.length_take, List.length_drop]
    omega
  · rw [if_neg selected] at remains
    have unexhausted : oc.exhausted = false := by
      by_contra finished
      have := entry.done (by simpa using finished)
      omega
    have alive : oc.retired = false := by simp [OriginCursor.retired, entry.errorFree]
    have : ¬ oc.stash.length < S.limit := fun room =>
      selected (mem_toFetch.mpr ⟨oc, present, unexhausted, alive, room⟩)
    omega

/-- The page before it is trimmed. -/
abbrev wholePage (S : Session) (n : Nat) (c : Cursor) : List Item :=
  mergedPage S.searcher.origins (fetched S n c) c

theorem tag_tag (S : Session) (id : String) (x : Item) :
    addItemOriginLink (tag S id x) id ((S.searcher.origins[id]?).getD "") = tag S id x :=
  addItemOriginLink_of_named _ (addItemOriginLink_linked _)

theorem member_of_active (tracks : Tracks S streams points c taken) (active : id ∈ c.activeOrigins) :
    id ∈ S.searcher.origins := by
  obtain ⟨oc, present, _⟩ := mem_activeOrigins.mp active
  exact member_of_present tracks present

theorem candidate_source (up : Upstreams S streams points) (tracks : Tracks S streams points c taken)
    {k : Candidate} (member : k ∈ candidates (pageSources S.searcher.origins (fetched S n c) c)) :
    k.originID ∈ c.activeOrigins ∧
      ∃ x ∈ (streams k.originID).take (advance S streams c taken k.originID),
        k.item.identity = x.identity ∧ k.item.collection = x.collection ∧
          k.tagged = tag S k.originID x := by
  obtain ⟨url, oc, present, more, brought⟩ := mem_pageCandidates.mp member
  rw [markErrors_eq_self (fetched_succeeds up tracks)] at present
  rw [combined_eq up tracks] at brought
  have active := mem_activeOrigins.mpr ⟨oc, present, more⟩
  obtain ⟨x, early, same | same⟩ := mem_window tracks present brought
  · rw [Option.some.injEq] at same
    refine ⟨active, x, early, by simp [same], by simp [same], ?_⟩
    rw [Candidate.tagged, same, url, tag_tag]
  · rw [Option.some.injEq] at same
    refine ⟨active, x, early, by rw [same], by rw [same], ?_⟩
    rw [Candidate.tagged, same, url, tag]

/-- Every item of the page is a tagged stream item of some origin. -/
theorem mem_wholePage_source (up : Upstreams S streams points)
    (tracks : Tracks S streams points c taken) {y : Item} (member : y ∈ wholePage S n c) :
    ∃ id ∈ c.activeOrigins, ∃ x ∈ (streams id).take (advance S streams c taken id),
      y = tag S id x := by
  obtain ⟨k, first, rfl⟩ := mem_mergedPage.mp member
  obtain ⟨active, x, early, _, _, tagged⟩ :=
    candidate_source up tracks (mem_candidates_of_firstCopies first)
  exact ⟨k.originID, active, x, early, tagged⟩

/-- Every item an origin brings is on the page, possibly as another origin's copy. -/
theorem exists_mem_wholePage (up : Upstreams S streams points)
    (tracks : Tracks S streams points c taken) (present : c.origins[id]? = some oc) {y : Item}
    (brought : some y ∈ oc.stash ++ (arrivals S streams c taken id).map some) :
    ∃ z ∈ wholePage S n c, z.identity = y.identity := by
  have more : oc.hasMore := by
    rcases List.mem_append.mp brought with stashed | arrived
    · have : oc.stash ≠ [] := List.ne_nil_of_mem stashed
      simp [OriginCursor.hasMore, this]
    · have selected : id ∈ toFetch c S.limit := by
        by_contra skipped
        simp [arrivals, skipped] at arrived
      obtain ⟨oc', present', unexhausted, alive, _⟩ := mem_toFetch.mp selected
      obtain rfl := Option.some.inj (present.symm.trans present')
      simp [OriginCursor.hasMore, unexhausted, alive]
  have candidate : (⟨id, (S.searcher.origins[id]?).getD "", y⟩ : Candidate) ∈
      candidates (pageSources S.searcher.origins (fetched S n c) c) := by
    refine mem_pageCandidates.mpr ⟨rfl, oc, ?_, more, ?_⟩
    · rw [markErrors_eq_self (fetched_succeeds up tracks), present]
    · rw [combined_eq up tracks]
      exact brought
  obtain ⟨k, first, same⟩ := exists_firstCopy candidate
  refine ⟨k.tagged, mem_mergedPage.mpr ⟨k, first, rfl⟩, ?_⟩
  rw [identity_tagged]
  have colonFree : ∀ k ∈ candidates (pageSources S.searcher.origins (fetched S n c) c),
      ':' ∉ k.item.collection.toList := by
    intro k member
    obtain ⟨active, x, early, _, collection, _⟩ := candidate_source up tracks member
    rw [collection]
    exact up.colonFree _ (member_of_active tracks active) x (List.mem_of_mem_take early)
  exact identity_of_dedupKey (colonFree k (mem_candidates_of_firstCopies first))
    (colonFree _ candidate) same

theorem wholePage_unique {x y : Item} (hx : x ∈ wholePage S n c) (hy : y ∈ wholePage S n c)
    (same : x.identity = y.identity) : x = y :=
  mergedPage_unique hx hy (dedupKey_of_identity same)

theorem itemOriginID_tag (up : Upstreams S streams points) (known : id ∈ S.searcher.origins)
    {x : Item} (member : x ∈ streams id) : itemOriginID (tag S id x) = id :=
  itemOriginID_add_of_unlinked _ (up.unlinked id known x member)

theorem merge_returns (up : Upstreams S streams points) (tracks : Tracks S streams points c taken)
    (n : Nat) : ∃ m, S.merge n c = some m := by
  refine exists_merge fun id selected _ => ?_
  obtain ⟨known, oc, present, _, placed⟩ := fetched_at tracks selected
  have items := (up.serves id known).items n _ c oc present placed
  rw [Session.fetch, fetchOrigin_of_member known]
  simp only [items, List.getLast?_map]
  intro ends
  obtain ⟨_, _, impossible⟩ := Option.map_eq_some_iff.mp ends
  cases impossible

variable {m : Merged}

theorem items_eq (merged : S.merge n c = some m) : m.items = (wholePage S n c).take S.limit := by
  obtain ⟨c', spec, _⟩ := merge_spec merged
  exact spec.emitted_eq

/-- What the merge leaves of one origin's state. -/
theorem entry_after (up : Upstreams S streams points) (tracks : Tracks S streams points c taken)
    (merged : S.merge n c = some m) (id : String) : m.cursor.origins[id]? =
      if id ∈ c.activeOrigins then (c.origins[id]?).bind
        (settled (freshByOrigin (fetched S n c)) ((wholePage S n c).drop S.limit) id)
      else c.origins[id]? := by
  obtain ⟨c', spec, same⟩ := merge_spec merged
  have origins := spec.origins id
  rw [markErrors_eq_self (fetched_succeeds up tracks)] at origins
  rw [same, ← origins]

/-- Origins that are not active bring nothing and get nothing back. -/
theorem newStash_inactive (up : Upstreams S streams points)
    (tracks : Tracks S streams points c taken) (inactive : id ∉ c.activeOrigins) :
    newStash ((wholePage S n c).drop S.limit) id = [] := by
  rw [newStash, List.map_eq_nil_iff, List.filter_eq_nil_iff]
  intro y left_over named
  obtain ⟨id', active, x, early, rfl⟩ :=
    mem_wholePage_source up tracks (List.mem_of_mem_drop left_over)
  rw [itemOriginID_tag up (member_of_active tracks active) (List.mem_of_mem_take early)] at named
  have : id' = id := by simp_all
  exact inactive (this ▸ active)

theorem stash_after (up : Upstreams S streams points) (tracks : Tracks S streams points c taken)
    (merged : S.merge n c = some m) {oc' : OriginCursor}
    (after : m.cursor.origins[id]? = some oc') :
    oc'.stash = newStash ((wholePage S n c).drop S.limit) id := by
  rw [entry_after up tracks merged] at after
  split at after
  · obtain ⟨oc, _, settles⟩ := Option.bind_eq_some_iff.mp after
    exact stash_of_settled settles
  · rename_i inactive
    rw [newStash_inactive up tracks inactive]
    exact stash_eq_nil_of_inactive after inactive

theorem pointer_after_skip (up : Upstreams S streams points)
    (tracks : Tracks S streams points c taken) (merged : S.merge n c = some m)
    (present : c.origins[id]? = some oc) (skipped : id ∉ toFetch c S.limit) {oc' : OriginCursor}
    (after : m.cursor.origins[id]? = some oc') :
    oc'.error = oc.error ∧ oc'.exhausted = oc.exhausted ∧ pointerOf oc' = pointerOf oc := by
  rw [entry_after up tracks merged, present] at after
  split at after
  · rw [Option.bind_some, settled, fresh_eq up tracks, if_neg skipped] at after
    obtain rfl := Option.some.inj after
    exact ⟨rfl, rfl, rfl⟩
  · obtain rfl := Option.some.inj after
    exact ⟨rfl, rfl, rfl⟩

theorem pointer_after_fetch (up : Upstreams S streams points)
    (tracks : Tracks S streams points c taken) (merged : S.merge n c = some m)
    (present : c.origins[id]? = some oc) (selected : id ∈ toFetch c S.limit) {oc' : OriginCursor}
    (after : m.cursor.origins[id]? = some oc') : oc'.error = false ∧
      pointerOf oc' = SearchReply.pointer
        ((S.visit n).upstream id (originRequest S.request c S.limit id)) ∧
      (oc'.exhausted ↔ pointerOf oc' = Pointer.none) := by
  obtain ⟨known, oc₀, present₀, unexhausted, _⟩ := fetched_at tracks selected
  obtain rfl := Option.some.inj (present.symm.trans present₀)
  have active : id ∈ c.activeOrigins := List.mem_of_mem_filter selected
  rw [entry_after up tracks merged, present, if_pos active, Option.bind_some, settled,
    fresh_eq up tracks, if_pos selected, fetchOrigin_of_member known] at after
  obtain ⟨lastSort, _, rfl⟩ := Option.map_eq_some_iff.mp after
  refine ⟨rfl, rfl, ?_⟩
  simp only [OriginCursor.update, FetchResult.originUpdate, unexhausted, Bool.false_or,
    decide_eq_true_eq, pointerOf, Pointer.none, Pointer.mk.injEq]
  tauto

/-- What an origin gets back was in its stream before the new position. -/
theorem stashed_after (up : Upstreams S streams points) (tracks : Tracks S streams points c taken)
    (merged : S.merge n c = some m) {oc' : OriginCursor}
    (after : m.cursor.origins[id]? = some oc') :
    ∀ y ∈ oc'.stash, ∃ x ∈ (streams id).take (advance S streams c taken id),
      y = some (tag S id x) := by
  rw [stash_after up tracks merged after]
  intro y filed
  obtain ⟨z, _, rfl⟩ := List.mem_map.mp filed
  obtain ⟨left_over, named, _⟩ := mem_newStash.mp filed
  obtain ⟨id', active, x, early, rfl⟩ :=
    mem_wholePage_source up tracks (List.mem_of_mem_drop left_over)
  rw [itemOriginID_tag up (member_of_active tracks active) (List.mem_of_mem_take early)] at named
  subst named
  exact ⟨x, early, rfl⟩

theorem unrepeated_after (up : Upstreams S streams points)
    (tracks : Tracks S streams points c taken) (merged : S.merge n c = some m)
    {oc' : OriginCursor} (after : m.cursor.origins[id]? = some oc') :
    (oc'.stash.map (Option.map Item.identity)).Nodup := by
  rw [stash_after up tracks merged after, newStash, List.map_map]
  refine List.Nodup.map_on ?_
    (((mergedPage_nodup _ _ _).sublist (List.drop_sublist _ _)).filter _)
  intro x hx y hy same
  exact wholePage_unique (List.mem_of_mem_drop (List.mem_of_mem_filter hx))
    (List.mem_of_mem_drop (List.mem_of_mem_filter hy)) (Option.some.inj same)

theorem tracked_after (up : Upstreams S streams points) (tracks : Tracks S streams points c taken)
    (merged : S.merge n c = some m) (present : c.origins[id]? = some oc) {oc' : OriginCursor}
    (after : m.cursor.origins[id]? = some oc') :
    Tracked S id (streams id) (points id) (advance S streams c taken id) oc' := by
  have entry := tracks.entry id oc present
  have stashed := stashed_after up tracks merged after
  have unrepeated := unrepeated_after up tracks merged after
  by_cases selected : id ∈ toFetch c S.limit
  · obtain ⟨errorFree, pointer, exhausted⟩ :=
      pointer_after_fetch up tracks merged present selected after
    obtain ⟨_, oc₀, present₀, unexhausted, placed⟩ := fetched_at tracks selected
    have serves := up.serves id (member_of_present tracks present)
    have advanced : advance S streams c taken id = min (taken id + S.limit) (streams id).length :=
      if_pos selected
    have positive := limit_pos S
    by_cases remains : taken id + S.limit < (streams id).length
    · have points' := serves.advances n _ c oc₀ present₀ placed remains
      rw [← pointer] at points'
      have open_ : ¬ oc'.exhausted := fun finished =>
        serves.marked _ _ points' (by omega) (exhausted.mp finished)
      rw [advanced, Nat.min_eq_left remains.le] at stashed ⊢
      exact ⟨errorFree, remains.le, fun finished => absurd finished open_,
        fun _ => ⟨points', .inr remains⟩, stashed, unrepeated⟩
    · have pointer' := serves.ends n _ c oc₀ present₀ placed (not_lt.mp remains)
      rw [← pointer] at pointer'
      have finished : oc'.exhausted := exhausted.mpr pointer'
      rw [advanced, Nat.min_eq_right (not_lt.mp remains)] at stashed ⊢
      exact ⟨errorFree, le_rfl, fun _ => rfl, fun open_ => by simp [finished] at open_, stashed,
        unrepeated⟩
  · obtain ⟨error, exhausted, pointer⟩ := pointer_after_skip up tracks merged present selected after
    have stays : advance S streams c taken id = taken id := if_neg selected
    rw [stays] at stashed ⊢
    refine ⟨error.trans entry.errorFree, entry.bounded, ?_, ?_, stashed, unrepeated⟩
    · rw [exhausted]
      exact entry.done
    · rw [exhausted, pointer]
      exact entry.position

/-- The invariant survives the page, the clone and the chaining. -/
theorem tracks_after (up : Upstreams S streams points) (tracks : Tracks S streams points c taken)
    (merged : S.merge n c = some m) (token : String) :
    Tracks S streams points (chainCursor m.cursor token) (advance S streams c taken) := by
  have domain := isSome_after_merge merged
  refine ⟨fun id => ?_, fun id oc' after => ?_⟩
  · rw [origins_chainCursor, Option.isSome_map, domain, tracks.domain]
  · rw [origins_chainCursor] at after
    obtain ⟨oc₁, after₁, rfl⟩ := Option.map_eq_some_iff.mp after
    obtain ⟨oc, present⟩ := Option.isSome_iff_exists.mp ((domain id).mp (by simp [after₁]))
    obtain ⟨errorFree, bounded, done, position, stashed, unrepeated⟩ :=
      tracked_after up tracks merged present after₁
    exact ⟨errorFree, bounded, done, position, stashed, unrepeated⟩

theorem mem_drop_taken_iff (id : String) (x : Item) : x ∈ (streams id).drop (taken id) ↔
    x ∈ arrivals S streams c taken id ∨
      x ∈ (streams id).drop (advance S streams c taken id) := by
  have pieces : (streams id).drop (taken id) = arrivals S streams c taken id ++
      (streams id).drop (advance S streams c taken id) := by
    rw [arrivals, advance]
    split
    · rw [← List.take_append_drop S.limit ((streams id).drop (taken id)), List.drop_drop]
      congr 1
      · simp
      · rcases le_total (taken id + S.limit) (streams id).length with inside | beyond
        · rw [Nat.min_eq_left inside]
        · rw [Nat.min_eq_right beyond, List.drop_eq_nil_of_le beyond, List.drop_length]
    · simp
  rw [pieces, List.mem_append]

/-- Whatever is on the page was left before it. -/
theorem mem_wholePage_left (up : Upstreams S streams points)
    (tracks : Tracks S streams points c taken) {y : Item} (member : y ∈ wholePage S n c) :
    ∃ id x, Left S streams c taken id x ∧ y = tag S id x := by
  obtain ⟨k, first, rfl⟩ := mem_mergedPage.mp member
  obtain ⟨url, oc, present, _, brought⟩ :=
    mem_pageCandidates.mp (mem_candidates_of_firstCopies first)
  rw [markErrors_eq_self (fetched_succeeds up tracks)] at present
  rw [combined_eq up tracks] at brought
  have known := member_of_present tracks present
  rcases List.mem_append.mp brought with stashed | arrived
  · obtain ⟨x, early, same⟩ := (tracks.entry _ oc present).stashed _ stashed
    refine ⟨k.originID, x, ⟨known, List.mem_of_mem_take early, .inl ⟨oc, present, same ▸ stashed⟩⟩, ?_⟩
    rw [Candidate.tagged, Option.some.inj same, url, tag_tag]
  · obtain ⟨x, late, same⟩ := List.mem_map.mp arrived
    have behind := (mem_drop_taken_iff k.originID x).mpr (.inl late)
    refine ⟨k.originID, x, ⟨known, List.mem_of_mem_drop behind, .inr behind⟩, ?_⟩
    rw [Candidate.tagged, ← Option.some.inj same, url, tag]

/-- A leftover of the page is left to its own origin. -/
theorem left_of_leftover (up : Upstreams S streams points)
    (tracks : Tracks S streams points c taken) (merged : S.merge n c = some m) (token : String)
    {y : Item} (left_over : y ∈ (wholePage S n c).drop S.limit) :
    ∃ id x, Left S streams (chainCursor m.cursor token) (advance S streams c taken) id x ∧
      y = tag S id x := by
  obtain ⟨id, active, x, early, rfl⟩ :=
    mem_wholePage_source up tracks (List.mem_of_mem_drop left_over)
  have known := member_of_active tracks active
  have member := List.mem_of_mem_take early
  obtain ⟨oc'', after⟩ := Option.isSome_iff_exists.mp
    (((tracks_after up tracks merged token).domain id).mpr known)
  rw [origins_chainCursor] at after
  obtain ⟨oc', after', rfl⟩ := Option.map_eq_some_iff.mp after
  refine ⟨id, x, ⟨known, member, .inl ⟨_, by rw [origins_chainCursor, after']; rfl, ?_⟩⟩, rfl⟩
  change some (tag S id x) ∈ oc'.stash
  rw [stash_after up tracks merged after', mem_newStash]
  exact ⟨left_over, itemOriginID_tag up known member, up.named id known⟩

/-- Everything left before a page is on it or left after it, up to copies. -/
theorem left_covered (up : Upstreams S streams points) (tracks : Tracks S streams points c taken)
    (merged : S.merge n c = some m) (token : String) {x : Item}
    (left : Left S streams c taken id x) : (∃ e ∈ m.items, e.identity = x.identity) ∨
      ∃ id' x', Left S streams (chainCursor m.cursor token) (advance S streams c taken) id' x' ∧
        x'.identity = x.identity := by
  have covered : ∀ y : Item, y.identity = x.identity →
      (∃ oc, c.origins[id]? = some oc ∧
        some y ∈ oc.stash ++ (arrivals S streams c taken id).map some) →
      (∃ e ∈ m.items, e.identity = x.identity) ∨
      ∃ id' x', Left S streams (chainCursor m.cursor token) (advance S streams c taken) id' x' ∧
        x'.identity = x.identity := by
    rintro y same ⟨oc, present, brought⟩
    obtain ⟨z, onPage, copy⟩ := exists_mem_wholePage up tracks present brought
    rw [← List.take_append_drop S.limit (wholePage S n c), List.mem_append] at onPage
    rcases onPage with emitted | left_over
    · exact .inl ⟨z, items_eq merged ▸ emitted, copy.trans same⟩
    · obtain ⟨id', x', left', rfl⟩ := left_of_leftover up tracks merged token left_over
      exact .inr ⟨id', x', left', by rw [← same, ← copy, identity_tag]⟩
  obtain ⟨known, member, ⟨oc, present, stashed⟩ | behind⟩ := left
  · exact covered (tag S id x) (identity_tag S id x) ⟨oc, present, List.mem_append_left _ stashed⟩
  · obtain ⟨oc, present⟩ := Option.isSome_iff_exists.mp ((tracks.domain id).mpr known)
    rcases (mem_drop_taken_iff id x).mp behind with arrived | further
    · exact covered x rfl
        ⟨oc, present, List.mem_append_right _ (List.mem_map_of_mem arrived)⟩
    · exact .inr ⟨id, x, ⟨known, member, .inr further⟩, rfl⟩

theorem eq_of_identity (up : Upstreams S streams points) (known : id ∈ S.searcher.origins)
    {x y : Item} (hx : x ∈ streams id) (hy : y ∈ streams id) (same : x.identity = y.identity) :
    x = y :=
  List.inj_on_of_nodup_map (up.distinct id known) hx hy same

/-- Nothing new appears among what is left. -/
theorem left_before (up : Upstreams S streams points) (tracks : Tracks S streams points c taken)
    (merged : S.merge n c = some m) {token : String} {x : Item}
    (left : Left S streams (chainCursor m.cursor token) (advance S streams c taken) id x) :
    Left S streams c taken id x := by
  obtain ⟨known, member, ⟨oc'', after, stashed⟩ | behind⟩ := left
  · rw [origins_chainCursor] at after
    obtain ⟨oc', after', rfl⟩ := Option.map_eq_some_iff.mp after
    change some (tag S id x) ∈ oc'.stash at stashed
    rw [stash_after up tracks merged after', mem_newStash] at stashed
    obtain ⟨id₀, x₀, left₀, same⟩ :=
      mem_wholePage_left up tracks (List.mem_of_mem_drop stashed.1)
    have ids : id = id₀ := by
      have := congrArg itemOriginID same
      rwa [itemOriginID_tag up known member, itemOriginID_tag up left₀.1 left₀.2.1] at this
    subst ids
    have : x = x₀ := eq_of_identity up known member left₀.2.1 (by
      have := congrArg Item.identity same
      simpa using this)
    exact this ▸ left₀
  · exact ⟨known, member, .inr ((mem_drop_taken_iff id x).mpr (.inr behind))⟩

end OnePage

end StreamSession
