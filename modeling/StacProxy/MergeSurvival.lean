import StacProxy.PaginatedSearch
import StacProxy.StableOrder

/-!
# What a merge loses

An item survives a merge when an item with its collection and ID is on the page or
in some stash afterwards. The leftovers of a page are filed by the origin link they
carry, so survival depends on links that were on the items before the proxy saw
them. The condition under which nothing is lost is stated on the cursor, the fetch
results and the limit.
-/

namespace MergeSurvival

open StacItem FederatedCursor ItemMerge PageMerge PaginatedSearch StableOrder

/-- The non-nil items a merge starts from. -/
def Held (c : Cursor) (results : List FetchResult) (item : Item) : Prop :=
  (∃ id ∈ c.activeOrigins, ∃ oc, c.origins[id]? = some oc ∧ some item ∈ oc.stash) ∨
    ∃ r ∈ results, r.error = none ∧ some item ∈ r.items

/-- An item with the same collection and ID is on the page or in a stash. An item that is
itself emitted or stashed survives in particular, since tagging keeps its identity. -/
def Survives (emitted : List Item) (c' : Cursor) (item : Item) : Prop :=
  (∃ y ∈ emitted, y.identity = item.identity) ∨
    ∃ (id : String) (oc : OriginCursor), c'.origins[id]? = some oc ∧
      ∃ y, some y ∈ oc.stash ∧ y.identity = item.identity

def NothingLost (baseURLs : Std.ExtTreeMap String String) (results : List FetchResult)
    (c : Cursor) (limit : Nat) : Prop :=
  ∃ emitted c', mergeResults baseURLs results c limit = some (emitted, c') ∧
    ∀ item, Held c results item → Survives emitted c' item

def candidateLE (a b : Candidate) : Prop := pageLE a.item b.item

instance : DecidableRel candidateLE := fun a b => inferInstanceAs (Decidable (pageLE a.item b.item))

structure Keepable (baseURLs : Std.ExtTreeMap String String) (results : List FetchResult)
    (c : Cursor) (limit : Nat) : Prop where
  /-- No successful page ends in a nil item. -/
  lastItem : ∀ r ∈ results, r.error = none → r.items.getLast? ≠ some none
  /-- The joined key tells apart the items that are merged. -/
  keys : ∀ x y, Held c results x → Held c results y → dedupKey x = dedupKey y →
    x.identity = y.identity
  /-- A first copy that at least `limit` others precede in page order names, by the origin
  link it came with or else by its source, an origin that is active on this page. -/
  homes : ∀ pre k post, firstCopies (pageSources baseURLs results c) = pre ++ k :: post →
    limit ≤ place candidateLE pre k post →
      k.home ≠ "" ∧ k.home ∈ (markErrors results c).activeOrigins

/-- Fewer than `limit` first copies precede this one in page order. -/
def Within (baseURLs : Std.ExtTreeMap String String) (results : List FetchResult) (c : Cursor)
    (limit : Nat) (k : Candidate) : Prop :=
  ∃ pre post, firstCopies (pageSources baseURLs results c) = pre ++ k :: post ∧
    place candidateLE pre k post < limit

section Inputs
variable {baseURLs : Std.ExtTreeMap String String} {results : List FetchResult} {c : Cursor}
  {limit : Nat}

theorem hasMore_of_stash {oc : OriginCursor} {item : Option Item} (member : item ∈ oc.stash) :
    oc.hasMore := by
  have : oc.stash ≠ [] := List.ne_nil_of_mem member
  simp [OriginCursor.hasMore, this]

/-- Marking errors keeps every stash. -/
theorem markErrors_stash (distinct : OnePerOrigin results) (id : String) :
    ((markErrors results c).origins[id]?).map (·.stash) = (c.origins[id]?).map (·.stash) := by
  rw [origins_markErrors distinct]
  split
  · rw [Option.map_map]
    rfl
  · rfl

/-- A candidate is stashed for its origin, or its origin has delivered it. -/
theorem candidate_source (distinct : OnePerOrigin results) {k : Candidate}
    (member : k ∈ candidates (pageSources baseURLs results c)) :
    (∃ oc, c.origins[k.originID]? = some oc ∧ some k.item ∈ oc.stash) ∨
      ∃ r ∈ results, r.error = none ∧ r.originID = k.originID ∧ some k.item ∈ r.items := by
  obtain ⟨-, oc, present, -, brought⟩ := mem_pageCandidates.mp member
  rcases List.mem_append.mp brought with stashed | delivered
  · have stash := markErrors_stash (c := c) distinct k.originID
    rw [present, Option.map_some, eq_comm] at stash
    obtain ⟨oc', present', same⟩ := Option.map_eq_some_iff.mp stash
    exact .inl ⟨oc', present', same ▸ stashed⟩
  · cases fresh : (freshByOrigin results)[k.originID]? with
    | none => simp [fresh] at delivered
    | some r =>
      obtain ⟨listed, fine, named⟩ := (freshByOrigin_get? distinct _ r).mp fresh
      exact .inr ⟨r, listed, fine, named, by simpa [fresh] using delivered⟩

/-- The merge looks at exactly the held items. -/
theorem held_iff (baseURLs : Std.ExtTreeMap String String) (fetched : FetchedFor c limit results)
    (item : Item) :
    Held c results item ↔
      ∃ k ∈ candidates (pageSources baseURLs results c), k.item = item := by
  constructor
  · rintro (⟨id, _, oc, present, member⟩ | ⟨r, hr, succeeded, member⟩)
    · have stash := markErrors_stash (c := c) fetched.onePerOrigin id
      rw [present, Option.map_some] at stash
      obtain ⟨oc', present', same⟩ := Option.map_eq_some_iff.mp stash
      rw [← same] at member
      exact ⟨⟨id, (baseURLs[id]?).getD "", item⟩, mem_pageCandidates.mpr ⟨rfl, oc', present',
        hasMore_of_stash member, List.mem_append_left _ member⟩, rfl⟩
    · obtain ⟨oc, present, unexhausted, alive, _⟩ := mem_toFetch.mp (fetched.selected r hr)
      have fine : ¬ Failed results r.originID := by
        rintro ⟨r', hr', same, failed⟩
        have : r' = r := List.inj_on_of_nodup_map fetched.onePerOrigin hr' hr same
        simp [this, succeeded] at failed
      have present' : (markErrors results c).origins[r.originID]? = some oc := by
        rw [origins_markErrors fetched.onePerOrigin, if_neg fine, present]
      have fresh := (freshByOrigin_get? fetched.onePerOrigin r.originID r).mpr ⟨hr, succeeded, rfl⟩
      refine ⟨⟨r.originID, (baseURLs[r.originID]?).getD "", item⟩, mem_pageCandidates.mpr ⟨rfl, oc,
        present', by simp [OriginCursor.hasMore, unexhausted, alive], ?_⟩, rfl⟩
      exact List.mem_append_right _ (by simpa [fresh] using member)
  · rintro ⟨k, member, rfl⟩
    rcases candidate_source fetched.onePerOrigin member with ⟨oc, present, stashed⟩ |
      ⟨r, listed, succeeded, -, delivered⟩
    · exact .inl ⟨k.originID, mem_activeOrigins.mpr ⟨oc, present, hasMore_of_stash stashed⟩, oc,
        present, stashed⟩
    · exact .inr ⟨r, listed, succeeded, delivered⟩

/-- The panic of a merge, read off the fetch results. -/
theorem mergeResults_isSome_iff (baseURLs : Std.ExtTreeMap String String)
    (fetched : FetchedFor c limit results) :
    (mergeResults baseURLs results c limit).isSome ↔
      ∀ r ∈ results, r.error = none → r.items.getLast? ≠ some none := by
  rw [mergeResults_isSome]
  constructor
  · intro fine r hr succeeded
    have fresh := (freshByOrigin_get? fetched.onePerOrigin r.originID r).mpr ⟨hr, succeeded, rfl⟩
    refine fine r.originID ?_ r fresh
    obtain ⟨oc, present, unexhausted, alive, _⟩ := mem_toFetch.mp (fetched.selected r hr)
    refine mem_activeOrigins.mpr ⟨oc, ?_, by simp [OriginCursor.hasMore, unexhausted, alive]⟩
    rw [origins_markErrors fetched.onePerOrigin, if_neg, present]
    rintro ⟨r', hr', same, failed⟩
    have : r' = r := List.inj_on_of_nodup_map fetched.onePerOrigin hr' hr same
    simp [this, succeeded] at failed
  · intro fine id _ r fresh
    obtain ⟨hr, succeeded, _⟩ := (freshByOrigin_get? fetched.onePerOrigin id r).mp fresh
    exact fine r hr succeeded

end Inputs

section Leftovers
variable {baseURLs : Std.ExtTreeMap String String} {results : List FetchResult} {c : Cursor}
  {limit : Nat}

/-- The leftovers are the first copies with at least `limit` others before them. -/
theorem tagged_mem_drop_iff {pre post : List Candidate} {k : Candidate}
    (split : firstCopies (pageSources baseURLs results c) = pre ++ k :: post) :
    k.tagged ∈ (mergedPage baseURLs results c).drop limit ↔
      limit ≤ place candidateLE pre k post := by
  have split' : mergeItemsFirstWins (pageSources baseURLs results c) =
      pre.map Candidate.tagged ++ k.tagged :: post.map Candidate.tagged := by
    rw [mergeItemsFirstWins, split, List.map_append, List.map_cons]
  have same_place : place pageLE (pre.map Candidate.tagged) k.tagged (post.map Candidate.tagged) =
      place candidateLE pre k post := by
    simp [place, List.countP_map, Function.comp_def, candidateLE, pageLE_iff]
  rw [mergedPage, sortPage,
    mem_drop_insertionSort_iff pageLE split' (mergeItemsFirstWins_nodup _), same_place]

theorem within_iff {k : Candidate} (first : k ∈ firstCopies (pageSources baseURLs results c)) :
    Within baseURLs results c limit k ↔ k.tagged ∈ (mergedPage baseURLs results c).take limit := by
  have merged : k.tagged ∈ mergedPage baseURLs results c := mem_mergedPage.mpr ⟨k, first, rfl⟩
  have disjoint := List.disjoint_take_drop (mergedPage_nodup baseURLs results c) (le_refl limit)
  have either := merged
  rw [← List.take_append_drop limit (mergedPage baseURLs results c), List.mem_append] at either
  constructor
  · rintro ⟨pre, post, split, early⟩
    refine either.resolve_right fun late => ?_
    have := (tagged_mem_drop_iff split).mp late
    omega
  · intro early
    obtain ⟨pre, post, split⟩ := List.append_of_mem first
    refine ⟨pre, post, split, ?_⟩
    by_contra many
    exact disjoint early ((tagged_mem_drop_iff split).mpr (not_lt.mp many))

/-- The page consists of the first copies within the limit. -/
theorem mem_emitted_iff {emitted : List Item} {c' : Cursor}
    (spec : MergeSpec baseURLs results c limit emitted c') {y : Item} : y ∈ emitted ↔
      ∃ k ∈ firstCopies (pageSources baseURLs results c), k.tagged = y ∧
        Within baseURLs results c limit k := by
  rw [spec.emitted_eq]
  constructor
  · intro shown
    obtain ⟨k, first, rfl⟩ := mem_mergedPage.mp (List.mem_of_mem_take shown)
    exact ⟨k, first, rfl, (within_iff first).mpr shown⟩
  · rintro ⟨k, first, rfl, within⟩
    exact (within_iff first).mp within

/-- A stash consists of the first copies beyond the limit that name its origin. -/
theorem mem_filed_iff {emitted : List Item} {c' : Cursor}
    (spec : MergeSpec baseURLs results c limit emitted c') {y : Item} {id : String} :
    (∃ oc, c'.origins[id]? = some oc ∧ some y ∈ oc.stash) ↔
      ∃ k ∈ firstCopies (pageSources baseURLs results c), k.tagged = y ∧
        ¬ Within baseURLs results c limit k ∧ k.home = id ∧ id ≠ "" ∧
          id ∈ (markErrors results c).activeOrigins := by
  have disjoint := List.disjoint_take_drop (mergedPage_nodup baseURLs results c) (le_refl limit)
  rw [mem_stash_iff spec]
  constructor
  · rintro ⟨left_over, home, named, active⟩
    obtain ⟨k, first, rfl⟩ := mem_mergedPage.mp (List.mem_of_mem_drop left_over)
    rw [itemOriginID_tagged] at home
    exact ⟨k, first, rfl, fun within => disjoint ((within_iff first).mp within) left_over, home,
      named, active⟩
  · rintro ⟨k, first, rfl, beyond, home, named, active⟩
    have merged : k.tagged ∈ mergedPage baseURLs results c := mem_mergedPage.mpr ⟨k, first, rfl⟩
    rw [← List.take_append_drop limit (mergedPage baseURLs results c), List.mem_append] at merged
    refine ⟨merged.resolve_left (mt (within_iff first).mpr beyond), ?_, named, active⟩
    rw [itemOriginID_tagged, home]

/-- Survival, in terms of the page before it is trimmed. -/
theorem survives_iff {emitted : List Item} {c' : Cursor}
    (spec : MergeSpec baseURLs results c limit emitted c') (item : Item) :
    Survives emitted c' item ↔ ∃ y ∈ mergedPage baseURLs results c,
      y.identity = item.identity ∧ (y ∈ (mergedPage baseURLs results c).drop limit →
        itemOriginID y ≠ "" ∧ itemOriginID y ∈ (markErrors results c).activeOrigins) := by
  have disjoint := List.disjoint_take_drop (mergedPage_nodup baseURLs results c) (le_refl limit)
  constructor
  · rintro (⟨y, onPage, same⟩ | ⟨id, oc, present, y, stashed, same⟩)
    · rw [spec.emitted_eq] at onPage
      exact ⟨y, List.mem_of_mem_take onPage, same, fun left_over => absurd left_over (disjoint onPage)⟩
    · obtain ⟨left_over, rfl, named, active⟩ := (mem_stash_iff spec y id).mp ⟨oc, present, stashed⟩
      exact ⟨y, List.mem_of_mem_drop left_over, same, fun _ => ⟨named, active⟩⟩
  · rintro ⟨y, merged, same, filed⟩
    rw [← List.take_append_drop limit (mergedPage baseURLs results c), List.mem_append] at merged
    rcases merged with onPage | left_over
    · exact .inl ⟨y, spec.emitted_eq ▸ onPage, same⟩
    · obtain ⟨named, active⟩ := filed left_over
      obtain ⟨oc, present, stashed⟩ :=
        (mem_stash_iff spec y (itemOriginID y)).mpr ⟨left_over, rfl, named, active⟩
      exact .inr ⟨_, oc, present, y, stashed, same⟩

end Leftovers

def dated (id datetime : String) (links : List (Option Link)) : Item where
  id := id
  collection := "scenes"
  properties := [("datetime", .str datetime)]
  links := links

def freshCursor (ids : List String) : Cursor := newFederatedCursor "" "" ids 0

def exampleURLs : Std.ExtTreeMap String String := Std.ExtTreeMap.ofList [("a", "https://api.example.com")]

/-- A merge loses nothing exactly when no successful page ends in a nil item, the joined key
tells the merged items apart, and every item left over names an active origin. -/
theorem nothingLost_iff_keepable (baseURLs : Std.ExtTreeMap String String)
    (results : List FetchResult) (c : Cursor) (limit : Nat)
    (fetched : FetchedFor c limit results) :
    NothingLost baseURLs results c limit ↔ Keepable baseURLs results c limit := by
  constructor
  · rintro ⟨emitted, c', run, kept⟩
    have spec := mergeResults_spec run
    have survivor : ∀ k ∈ candidates (pageSources baseURLs results c),
        ∃ y ∈ mergedPage baseURLs results c, y.identity = k.item.identity ∧
          (y ∈ (mergedPage baseURLs results c).drop limit →
            itemOriginID y ≠ "" ∧ itemOriginID y ∈ (markErrors results c).activeOrigins) :=
      fun k member => (survives_iff spec k.item).mp
        (kept k.item ((held_iff baseURLs fetched k.item).mpr ⟨k, member, rfl⟩))
    refine ⟨(mergeResults_isSome_iff baseURLs fetched).mp (Option.isSome_of_eq_some run), ?_, ?_⟩
    · intro x y hx hy same
      obtain ⟨kx, candx, rfl⟩ := (held_iff baseURLs fetched x).mp hx
      obtain ⟨ky, candy, rfl⟩ := (held_iff baseURLs fetched y).mp hy
      obtain ⟨x', mergedx, samex, _⟩ := survivor kx candx
      obtain ⟨y', mergedy, samey, _⟩ := survivor ky candy
      have : x' = y' := mergedPage_unique mergedx mergedy
        ((dedupKey_of_identity samex).trans (same.trans (dedupKey_of_identity samey).symm))
      rw [← samex, ← samey, this]
    · intro pre k post split late
      have first : k ∈ firstCopies (pageSources baseURLs results c) := by simp [split]
      obtain ⟨y, merged, same, filed⟩ := survivor k (mem_candidates_of_firstCopies first)
      have own : y = k.tagged := mergedPage_unique merged (mem_mergedPage.mpr ⟨k, first, rfl⟩)
        (by rw [dedupKey_tagged]; exact dedupKey_of_identity same)
      rw [own, itemOriginID_tagged] at filed
      exact filed ((tagged_mem_drop_iff split).mpr late)
  · rintro ⟨lastItem, keys, homes⟩
    obtain ⟨⟨emitted, c'⟩, run⟩ :=
      Option.isSome_iff_exists.mp ((mergeResults_isSome_iff baseURLs fetched).mpr lastItem)
    refine ⟨emitted, c', run, fun item held => (survives_iff (mergeResults_spec run) item).mpr ?_⟩
    obtain ⟨k, member, rfl⟩ := (held_iff baseURLs fetched item).mp held
    obtain ⟨first, hfirst, same⟩ := exists_firstCopy member
    have heldFirst := (held_iff baseURLs fetched first.item).mpr
      ⟨first, mem_candidates_of_firstCopies hfirst, rfl⟩
    refine ⟨first.tagged, mem_mergedPage.mpr ⟨first, hfirst, rfl⟩, ?_, fun left_over => ?_⟩
    · rw [identity_tagged]
      exact keys _ _ heldFirst held same
    · obtain ⟨pre, post, split⟩ := List.append_of_mem hfirst
      rw [itemOriginID_tagged]
      exact homes pre first post split ((tagged_mem_drop_iff split).mp left_over)

/-- Two items without origin links: one is emitted and one is stashed under its source. -/
def plainPage : FetchResult where
  originID := "a"
  items := [some (dated "new" "2024-05-02T00:00:00Z" []),
    some (dated "old" "2024-05-01T00:00:00Z" [])]
  nextToken := "2"

theorem plainPage_nothingLost : FetchedFor (freshCursor ["a"]) 1 [plainPage] ∧
    NothingLost exampleURLs [plainPage] (freshCursor ["a"]) 1 := by
  have fetched : FetchedFor (freshCursor ["a"]) 1 [plainPage] :=
    ⟨List.nodup_singleton _, by simp only [List.mem_singleton, forall_eq]; decide⟩
  refine ⟨fetched, (nothingLost_iff_keepable _ _ _ _ fetched).mpr ⟨by simp [plainPage], ?_, ?_⟩⟩
  · intro x y hx hy same
    obtain ⟨kx, candx, rfl⟩ := (held_iff exampleURLs fetched x).mp hx
    obtain ⟨ky, candy, rfl⟩ := (held_iff exampleURLs fetched y).mp hy
    have faithful : ∀ k ∈ candidates (pageSources exampleURLs [plainPage] (freshCursor ["a"])),
        ∀ k' ∈ candidates (pageSources exampleURLs [plainPage] (freshCursor ["a"])),
          dedupKey k.item = dedupKey k'.item → k.item.identity = k'.item.identity := by decide
    exact faithful kx candx ky candy same
  · intro pre k post split _
    have homes : ∀ k ∈ firstCopies (pageSources exampleURLs [plainPage] (freshCursor ["a"])),
        k.home ≠ "" ∧ k.home ∈ (markErrors [plainPage] (freshCursor ["a"])).activeOrigins := by
      decide
    exact homes k (by simp [split])

/-- A page of an origin that is itself a proxy: its older item names an upstream of its own. -/
def chainedPage : FetchResult where
  originID := "a"
  items := [some (dated "new" "2024-05-02T00:00:00Z" []),
    some (dated "old" "2024-05-01T00:00:00Z" [some (originLink "upstream" "https://upstream.example.com")])]
  nextToken := "2"

theorem chainedPage_fetchedFor : FetchedFor (freshCursor ["a"]) 1 [chainedPage] := by
  refine ⟨List.nodup_singleton _, ?_⟩
  simp only [List.mem_singleton, forall_eq]
  decide

/-- The leftover names an origin this proxy does not know, so no stash takes it. -/
theorem chainedPage_loses_item : FetchedFor (freshCursor ["a"]) 1 [chainedPage] ∧
    ¬ NothingLost exampleURLs [chainedPage] (freshCursor ["a"]) 1 := by
  refine ⟨chainedPage_fetchedFor, ?_⟩
  rintro ⟨emitted, c', run, kept⟩
  have held : Held (freshCursor ["a"]) [chainedPage]
      (dated "old" "2024-05-01T00:00:00Z" [some (originLink "upstream" "https://upstream.example.com")]) :=
    .inr ⟨chainedPage, List.mem_singleton_self _, rfl, by simp [chainedPage]⟩
  obtain ⟨y, merged, same, filed⟩ := (survives_iff (mergeResults_spec run) _).mp (kept _ held)
  have onPage : ∀ y ∈ (mergedPage exampleURLs [chainedPage] (freshCursor ["a"])).take 1,
      y.identity ≠ ("scenes", "old") := by decide
  have leftOver : ∀ y ∈ (mergedPage exampleURLs [chainedPage] (freshCursor ["a"])).drop 1,
      itemOriginID y ∉ (markErrors [chainedPage] (freshCursor ["a"])).activeOrigins := by decide
  rw [← List.take_append_drop 1 (mergedPage exampleURLs [chainedPage] (freshCursor ["a"])),
    List.mem_append] at merged
  rcases merged with early | late
  · exact onPage y early same
  · exact leftOver y late (filed late).2

end MergeSurvival
