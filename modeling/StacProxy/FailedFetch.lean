import StacProxy.MergeSurvival
import StacProxy.RecordedSession

/-!
# Where a failed fetch leaves its origin

The pointers of an origin whose fetch fails go unchanged into the next cursor, and the origin is
asked for the same page again. Its stash takes part in the merge. What it held may live on as a
copy that another origin delivered, in that origin's stash.
-/

namespace FailedFetch

open StacItem FederatedCursor CursorWire ItemMerge PageMerge PaginatedSearch SearchSession
open MergeSurvival RecordedSession

section Assumptions
variable (S : Session) (n : Nat) (c : Cursor)

/-- Every stashed item carries, as its first origin link, the one naming the origin of the
stash. -/
def HomedStashes : Prop :=
  ∀ (id : String) (oc : OriginCursor) (item : Item), c.origins[id]? = some oc →
    some item ∈ oc.stash → id ≠ "" ∧ itemOriginID item = id

/-- No collection or ID in the merge contains a colon. -/
def ColonFree : Prop :=
  ∀ item, Held c (fetchFromOrigins S.searcher (S.visit n) S.request c S.limit) item →
    ':' ∉ item.collection.toList ∧ ':' ∉ item.id.toList

/-- Origins that deliver have a name, and an item that comes with an origin link names the
origin it is fetched from. -/
def OwnLinks : Prop :=
  ∀ id ∈ toFetch c S.limit, (S.fetch n c id).error = none →
    ∀ item, some item ∈ (S.fetch n c id).items →
      id ≠ "" ∧ (item.links.any Link.isOrigin → itemOriginID item = id)

end Assumptions

section Homes
variable {S : Session} {n : Nat} {c : Cursor}

/-- What the merge starts from is stashed or fetched. -/
theorem candidate_cases {k : Candidate}
    (member : k ∈ candidates (pageSources S.searcher.origins
      (fetchFromOrigins S.searcher (S.visit n) S.request c S.limit) c)) :
    (∃ oc, c.origins[k.originID]? = some oc ∧ some k.item ∈ oc.stash) ∨
      k.originID ∈ toFetch c S.limit ∧ (S.fetch n c k.originID).error = none ∧
        some k.item ∈ (S.fetch n c k.originID).items := by
  have distinct := (S.fetchedFor n c).onePerOrigin
  refine (candidate_source distinct member).imp_right ?_
  rintro ⟨r, listed, fine, named, delivered⟩
  obtain ⟨selected, rfl⟩ := mem_fetchFromOrigins.mp ⟨listed, named⟩
  exact ⟨selected, fine, delivered⟩

theorem linked_of_itemOriginID {item : Item} {id : String} (named : id ≠ "")
    (home : itemOriginID item = id) : item.links.any (Link.namesOrigin id) := by
  unfold itemOriginID at home
  split at home
  · rename_i link found
    have origin := List.find?_some found
    refine List.any_eq_true.mpr ⟨some link, List.mem_of_find?_eq_some found, ?_⟩
    simp only [Link.isOrigin, Option.any_some, beq_iff_eq] at origin
    simp [Link.namesOrigin, origin, home]
  · exact absurd home.symm named

/-- Under the assumptions, every candidate goes home to the origin that brings it. -/
theorem home_eq {k : Candidate} (homed : HomedStashes c) (own : OwnLinks S n c)
    (member : k ∈ candidates (pageSources S.searcher.origins
      (fetchFromOrigins S.searcher (S.visit n) S.request c S.limit) c)) :
    k.originID ≠ "" ∧ k.home = k.originID := by
  unfold Candidate.home
  rcases candidate_cases member with ⟨oc, present, stashed⟩ | ⟨selected, fine, delivered⟩
  · obtain ⟨named, home⟩ := homed k.originID oc k.item present stashed
    refine ⟨named, ?_⟩
    split
    · exact home
    · rfl
  · obtain ⟨named, home⟩ := own k.originID selected fine k.item delivered
    refine ⟨named, ?_⟩
    split
    · rename_i linked
      exact home linked
    · rfl

end Homes

section Failure
variable {S : Session} {n : Nat} {c next : Cursor} {m : Merged} {o token : String}

/-- The pointers of the origin, its state and its count of items are those of another cursor. -/
structure SamePlace (oc oc' : OriginCursor) : Prop where
  nextToken : oc'.nextToken = oc.nextToken
  nextURL : oc'.nextURL = oc.nextURL
  nextBody : oc'.nextBody = oc.nextBody
  adapterName : oc'.adapterName = oc.adapterName
  exhausted : oc'.exhausted = oc.exhausted
  itemCount : oc'.itemCount = oc.itemCount

theorem samePlace_trans {oc oc' oc'' : OriginCursor} (first : SamePlace oc oc')
    (second : SamePlace oc' oc'') : SamePlace oc oc'' where
  nextToken := second.nextToken.trans first.nextToken
  nextURL := second.nextURL.trans first.nextURL
  nextBody := second.nextBody.trans first.nextBody
  adapterName := second.adapterName.trans first.adapterName
  exhausted := second.exhausted.trans first.exhausted
  itemCount := second.itemCount.trans first.itemCount

/-- A page that is not served by the origin leaves it where it is. -/
theorem samePlace_of_progress {oc oc' : OriginCursor} (progress : Progress S n c o oc oc')
    (unserved : o ∈ toFetch c S.limit → (S.fetch n c o).error.isSome) :
    SamePlace oc oc'.clone := by
  cases progress with
  | skipped _ _ | failed _ _ _ => exact ⟨rfl, rfl, rfl, rfl, rfl, rfl⟩
  | served _ _ fetched fine => simpa [fine] using unserved fetched

/-- The state of the origin in the next cursor. -/
theorem exists_next {oc : OriginCursor} (merged : S.merge n c = some m)
    (emitted : nextCursorOf m token = some next) (present : c.origins[o]? = some oc) :
    ∃ oc', m.cursor.origins[o]? = some oc' ∧ next.origins[o]? = some oc'.clone ∧
      Progress S n c o oc oc' := by
  obtain ⟨-, rfl⟩ := nextCursorOf_eq_some.mp emitted
  obtain ⟨oc', settled⟩ := Option.isSome_iff_exists.mp
    ((isSome_after_merge merged o).mpr (by simp [present]))
  exact ⟨oc', settled, by rw [origins_chainCursor, settled]; rfl,
    progress_of_merge merged present settled⟩

/-- The request depends on the place of the origin only. -/
theorem originRequest_samePlace {oc oc' : OriginCursor} (same : SamePlace oc oc')
    (present : c.origins[o]? = some oc) (after : next.origins[o]? = some oc') :
    originRequest S.request next S.limit o = originRequest S.request c S.limit o := by
  simp only [originRequest, present, after, same.nextToken, same.nextURL, same.nextBody,
    same.adapterName]

/-- The new stash holds nothing that the old one did not. -/
theorem stash_subset {oc oc' : OriginCursor} (merged : S.merge n c = some m) (homed : HomedStashes c)
    (own : OwnLinks S n c) (failed : (S.fetch n c o).error.isSome)
    (present : c.origins[o]? = some oc) (after : m.cursor.origins[o]? = some oc') :
    oc'.stash ⊆ oc.stash ∧ oc'.stash.Nodup := by
  rcases stash_after_merge merged after with empty | filled
  · simp [empty]
  · have distinct := mergedPage_nodup S.searcher.origins
      (fetchFromOrigins S.searcher (S.visit n) S.request c S.limit) c
    rw [filled]
    refine ⟨fun entry stashed => ?_, ?_⟩
    · obtain ⟨item, -, rfl⟩ := List.mem_map.mp stashed
      obtain ⟨left_over, home, named⟩ := mem_newStash.mp stashed
      obtain ⟨k, first, rfl⟩ := mem_mergedPage.mp (List.mem_of_mem_drop left_over)
      have candidate := mem_candidates_of_firstCopies first
      obtain ⟨-, own_home⟩ := home_eq homed own candidate
      rw [itemOriginID_tagged, own_home] at home
      rcases candidate_cases candidate with ⟨oc₀, present₀, stashed₀⟩ | ⟨-, fine, -⟩
      · rw [home, present] at present₀
        cases present₀
        have link := linked_of_itemOriginID named (homed o oc k.item present stashed₀).2
        rw [Candidate.tagged, home, addItemOriginLink_of_named k.originURL link]
        exact stashed₀
      · rw [home] at fine
        simp [fine] at failed
    · exact ((distinct.sublist (List.drop_sublist _ _)).filter _).map (Option.some_injective _)

/-- What was in a stash is on the page or in a stash afterwards, itself or as a copy. -/
theorem survives_of_stash {oc : OriginCursor} {x : Item} (merged : S.merge n c = some m)
    (emitted : nextCursorOf m token = some next) (homed : HomedStashes c) (own : OwnLinks S n c)
    (colonFree : ColonFree S n c) (present : c.origins[o]? = some oc) (stashed : some x ∈ oc.stash) :
    Survives m.items next x := by
  obtain ⟨c', spec, same⟩ := merge_spec merged
  obtain ⟨-, rfl⟩ := nextCursorOf_eq_some.mp emitted
  have fetched := S.fetchedFor n c
  have held : Held c (fetchFromOrigins S.searcher (S.visit n) S.request c S.limit) x :=
    .inl ⟨o, mem_activeOrigins.mpr ⟨oc, present, hasMore_of_stash stashed⟩, oc, present, stashed⟩
  obtain ⟨k, candidate, rfl⟩ := (held_iff S.searcher.origins fetched x).mp held
  obtain ⟨f, first, key⟩ := exists_firstCopy candidate
  have brought := mem_candidates_of_firstCopies first
  have held_first := (held_iff S.searcher.origins fetched f.item).mpr ⟨f, brought, rfl⟩
  have identity := identity_of_dedupKey (colonFree _ held_first).1 (colonFree _ held).1 key
  obtain ⟨named, home⟩ := home_eq homed own brought
  obtain ⟨-, oc₀, present₀, more, -⟩ := mem_pageCandidates.mp brought
  have survives : Survives m.items c' k.item := by
    refine (survives_iff spec k.item).mpr ⟨f.tagged, mem_mergedPage.mpr ⟨f, first, rfl⟩, ?_, fun _ => ?_⟩
    · rw [identity_tagged, identity]
    · rw [itemOriginID_tagged, home]
      exact ⟨named, mem_activeOrigins.mpr ⟨oc₀, present₀, more⟩⟩
  refine survives.imp_right ?_
  rintro ⟨id, oc', after, y, in_stash, alike⟩
  refine ⟨id, oc'.clone, ?_, y, in_stash, alike⟩
  rw [origins_chainCursor, same]
  exact congrArg (Option.map OriginCursor.clone) after

/-- An origin whose fetch fails stays where it was: the next cursor has its pointers, what it
held is on the page or in a stash, itself or as a copy, and the next page asks it for the same
again. -/
theorem failed_fetch_keeps_place (merged : S.merge n c = some m)
    (emitted : nextCursorOf m token = some next) (asked : o ∈ toFetch c S.limit)
    (failed : (S.fetch n c o).error.isSome) (homed : HomedStashes c) (colonFree : ColonFree S n c)
    (own : OwnLinks S n c) :
    ∃ oc oc', c.origins[o]? = some oc ∧ next.origins[o]? = some oc' ∧ SamePlace oc oc' ∧
      (∀ x, some x ∈ oc.stash → Survives m.items next x) ∧ o ∈ toFetch next S.limit ∧
      originRequest S.request next S.limit o = originRequest S.request c S.limit o := by
  obtain ⟨oc, present, unexhausted, -, room⟩ := mem_toFetch.mp asked
  obtain ⟨oc', settled, after, progress⟩ := exists_next merged emitted present
  have place := samePlace_of_progress progress fun _ => failed
  obtain ⟨subset, distinct⟩ := stash_subset merged homed own failed present settled
  refine ⟨oc, _, present, after, place, fun x stashed =>
    survives_of_stash merged emitted homed own colonFree present stashed, ?_,
    originRequest_samePlace place present after⟩
  have shorter : oc'.stash.length ≤ oc.stash.length :=
    (List.subperm_of_subset distinct subset).length_le
  -- A clone starts its count of errors anew.
  have alive : oc'.clone.retired = false := by
    simp [OriginCursor.retired, OriginCursor.clone, maxOriginErrorRetries]
  exact mem_toFetch.mpr ⟨_, after, place.exhausted.trans unexhausted, alive,
    lt_of_le_of_lt shorter room⟩

end Failure

section Samples

/-- One origin delivers two new items and one that the other origin, out of reach, holds. -/
def splitSession : Session where
  searcher := {
    origins := Std.ExtTreeMap.ofList
      [("a", "https://a.example.com"), ("b", "https://b.example.com")]
    pageSize := 2
    maxPageSize := 10
    cursorSecret := [1]
    pageSize_pos := Nat.two_pos
    secret_ne_nil := sampleSecret_ne_nil }
  wire := sampleWire
  principalHash := ""
  request := default
  visit _ := {
    now := 0
    upstream := fun id _ =>
      if id = "a" then {
        items := [some (dated "new" "2024-05-03T00:00:00Z" []),
          some (dated "newer" "2024-05-04T00:00:00Z" []),
          some (dated "old" "2024-05-01T00:00:00Z" [])]
        nextToken := "a2" }
      else { error := some .fetchFailed } }
  principalHash_short := noPrincipal_short

def holdingOrigin : OriginCursor where
  id := "b"
  nextToken := "b2"
  stash := [some (dated "old" "2024-05-01T00:00:00Z"
    [some (originLink "b" "https://b.example.com")])]

def holdingCursor : Cursor :=
  { freshCursor ["a"] with
    origins := (freshCursor ["a"]).origins.insert "b" holdingOrigin }

theorem holdingCursor_homed : HomedStashes holdingCursor := by
  have listed : ∀ entry ∈ holdingCursor.origins.toList, ∀ item ∈ entry.2.stash,
      item.all fun item => entry.1 ≠ "" ∧ itemOriginID item = entry.1 := by
    decide +kernel
  intro id oc item present stashed
  have home := listed (id, oc) (Std.ExtTreeMap.mem_toList_iff_getElem?_eq_some.mpr present)
    (some item) stashed
  simpa using home

theorem splitSession_colonFree : ColonFree splitSession 1 holdingCursor := by
  have plain : ∀ k ∈ candidates (pageSources splitSession.searcher.origins
      (fetchFromOrigins splitSession.searcher (splitSession.visit 1) splitSession.request
        holdingCursor splitSession.limit) holdingCursor),
      ':' ∉ k.item.collection.toList ∧ ':' ∉ k.item.id.toList := by
    decide +kernel
  intro item held
  obtain ⟨k, member, rfl⟩ := (held_iff splitSession.searcher.origins
    (splitSession.fetchedFor 1 holdingCursor) item).mp held
  exact plain k member

theorem splitSession_ownLinks : OwnLinks splitSession 1 holdingCursor := by
  have listed : ∀ id ∈ toFetch holdingCursor splitSession.limit,
      (splitSession.fetch 1 holdingCursor id).error = none →
        ∀ item ∈ (splitSession.fetch 1 holdingCursor id).items,
          item.all fun item => id ≠ "" ∧ (item.links.any Link.isOrigin → itemOriginID item = id) := by
    decide +kernel
  intro id selected fine item delivered
  have own := listed id selected fine (some item) delivered
  simpa using own

def stashIdentities (c : Cursor) (id : String) : List (String × String) :=
  ((c.origins[id]?).map fun oc => oc.stash.reduceOption.map Item.identity).getD []

theorem splitSession_merges :
    ∃ m next, splitSession.merge 1 holdingCursor = some m ∧ nextCursorOf m "t" = some next := by
  have merges : ((splitSession.merge 1 holdingCursor).bind fun m => nextCursorOf m "t").isSome := by
    decide +kernel
  obtain ⟨next, found⟩ := Option.isSome_iff_exists.mp merges
  obtain ⟨m, merged, emitted⟩ := Option.bind_eq_some_iff.mp found
  exact ⟨m, next, merged, emitted⟩

theorem splitSession_keeps_place :
    ∃ m next, splitSession.merge 1 holdingCursor = some m ∧ nextCursorOf m "t" = some next ∧
      ∃ oc oc', holdingCursor.origins["b"]? = some oc ∧ next.origins["b"]? = some oc' ∧
        SamePlace oc oc' ∧ "b" ∈ toFetch next splitSession.limit := by
  obtain ⟨m, next, merged, emitted⟩ := splitSession_merges
  obtain ⟨oc, oc', present, after, place, -, asked, -⟩ := failed_fetch_keeps_place merged emitted
    (by decide +kernel : "b" ∈ toFetch holdingCursor splitSession.limit) (by decide +kernel)
    holdingCursor_homed splitSession_colonFree splitSession_ownLinks
  exact ⟨m, next, merged, emitted, oc, oc', present, after, place, asked⟩

/-- The copy of the other origin is kept, in its stash and not in the one of the origin that
failed. -/
theorem copy_in_other_stash :
    HomedStashes holdingCursor ∧ ColonFree splitSession 1 holdingCursor ∧
    "b" ∈ toFetch holdingCursor splitSession.limit ∧
    (splitSession.fetch 1 holdingCursor "b").error.isSome ∧
    ∃ m next, splitSession.merge 1 holdingCursor = some m ∧ nextCursorOf m "t" = some next ∧
      stashIdentities holdingCursor "b" = [("scenes", "old")] ∧
      m.items.map Item.identity = [("scenes", "newer"), ("scenes", "new")] ∧
      stashIdentities next "b" = [] ∧ stashIdentities next "a" = [("scenes", "old")] := by
  refine ⟨holdingCursor_homed, splitSession_colonFree, by decide +kernel, by decide +kernel, ?_⟩
  obtain ⟨m, next, merged, emitted⟩ := splitSession_merges
  have seen : ((splitSession.merge 1 holdingCursor).bind fun m => (nextCursorOf m "t").map fun next =>
      (m.items.map Item.identity, stashIdentities next "b", stashIdentities next "a")) =
      some ([("scenes", "newer"), ("scenes", "new")], [], [("scenes", "old")]) := by
    decide +kernel
  rw [merged, Option.bind_some, emitted, Option.map_some, Option.some_inj, Prod.mk.injEq,
    Prod.mk.injEq] at seen
  exact ⟨m, next, merged, emitted, by decide +kernel, seen⟩

end Samples

end FailedFetch
