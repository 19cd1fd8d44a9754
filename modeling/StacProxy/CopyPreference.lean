import StacProxy.SearchMerge

/-!
# Which copy of a duplicate is kept

Both ways to merge a search hand their sources to `mergeItemsFirstWins`, which keeps the copy of
the first source that has one. The paginated searcher lists its sources by origin ID, the fan-out
by priority and then ID. So the two keep the same copy where one origin comes first in both
orders.
-/

namespace CopyPreference

open StacItem ItemMerge FederatedCursor PageMerge SearchMerge

/-- An origin and what it answers to the first page of a search. -/
structure OriginAnswer where
  originID : String
  originURL : String
  priority : Int
  reply : SearchReply

def OriginAnswer.fetchResult (a : OriginAnswer) : FetchResult :=
  { a.reply with originID := a.originID }

def OriginAnswer.searchResult (a : OriginAnswer) : OriginSearchResult where
  originID := a.originID
  originURL := a.originURL
  priority := a.priority
  items := a.reply.items
  error := a.reply.error

/-- What a new cursor is made from, apart from the origins. -/
structure Opening where
  queryHash : String
  principalHash : String
  now : Int64

section Paths
variable (opening : Opening) (answers : List OriginAnswer)

def originURLs : Std.ExtTreeMap String String :=
  answers.foldl (fun m a => m.insert a.originID a.originURL) ∅

def firstCursor : Cursor :=
  newFederatedCursor opening.queryHash opening.principalHash (answers.map (·.originID)) opening.now

/-- The sources that the paginated `mergeResults` merges on the first page. -/
def paginatedSources : List ItemSource :=
  pageSources (originURLs answers) (answers.map OriginAnswer.fetchResult) (firstCursor opening answers)

/-- The sources that `MergeSearchResults` merges. -/
def fanOutSources : List ItemSource :=
  (succeeded ((answers.map OriginAnswer.searchResult).insertionSort precedes)).map
    OriginSearchResult.source

/-- The origin returned an item under the key. -/
def OriginAnswer.holds (key : String) (a : OriginAnswer) : Prop :=
  a.reply.error = none ∧ ∃ item, some item ∈ a.reply.items ∧ dedupKey item = key

/-- Several origins returned an item with this collection and ID. -/
def Shared (identity : String × String) : Prop :=
  ∃ a ∈ answers, ∃ b ∈ answers, a ≠ b ∧
    (a.reply.error = none ∧ ∃ item, some item ∈ a.reply.items ∧ item.identity = identity) ∧
    (b.reply.error = none ∧ ∃ item, some item ∈ b.reply.items ∧ item.identity = identity)

/-- Of the origins with a copy of a shared item, one comes first by ID and by priority. -/
def OrdersAgree : Prop :=
  ∀ identity, Shared answers identity → ∃ best ∈ answers,
    best.holds (identity.1 ++ ":" ++ identity.2) ∧
    ∀ other ∈ answers, other.holds (identity.1 ++ ":" ++ identity.2) →
      best.originID ≤ other.originID ∧ best.priority ≤ other.priority

end Paths

section Orders
variable {opening : Opening} {answers : List OriginAnswer} {key : String}

theorem has_iff {src : ItemSource} :
    src.has key ↔ ∃ item, some item ∈ src.items ∧ dedupKey item = key := by
  simp [ItemSource.has, List.reduceOption_mem_iff]

/-- The first of a sorted list that passes a test comes before all others that do. -/
theorem find?_sorted {α : Type*} {r : α → α → Prop} [Std.Refl r] {l : List α} {p : α → Bool} {a : α}
    (sorted : l.Pairwise r) (found : l.find? p = some a) : ∀ b ∈ l, p b → r a b := by
  obtain ⟨-, pre, post, rfl, before⟩ := List.find?_eq_some_iff_append.mp found
  intro b member passes
  rcases List.mem_append.mp member with earlier | later
  · have fails := before b earlier
    simp [passes] at fails
  · rcases List.mem_cons.mp later with rfl | later
    · exact Std.Refl.refl b
    · exact (List.pairwise_cons.mp (List.pairwise_append.mp sorted).2.1).1 b later

/-- The fan-out keeps the copy of the holder that comes first by priority and ID. -/
theorem fanOut_keeps {id : String} (kept : keptFrom (fanOutSources answers) key = some id) :
    ∃ a ∈ answers, a.originID = id ∧ a.holds key ∧
      ∀ b ∈ answers, b.holds key → precedes a.searchResult b.searchResult := by
  rw [keptFrom_eq, fanOutSources, List.find?_map, Option.map_map, Option.map_eq_some_iff] at kept
  obtain ⟨first, found, rfl⟩ := kept
  have listed : ∀ result, result ∈ succeeded ((answers.map OriginAnswer.searchResult).insertionSort
      precedes) ↔ ∃ a ∈ answers, a.searchResult = result ∧ a.reply.error = none := by
    intro result
    simp only [succeeded, List.mem_filter, List.mem_insertionSort, List.mem_map,
      Option.isNone_iff_eq_none]
    constructor
    · rintro ⟨⟨a, member, rfl⟩, fine⟩
      exact ⟨a, member, rfl, fine⟩
    · rintro ⟨a, member, rfl, fine⟩
      exact ⟨⟨a, member, rfl⟩, fine⟩
  obtain ⟨a, member, rfl, fine⟩ := (listed first).mp (List.mem_of_find?_eq_some found)
  have sorted : (succeeded ((answers.map OriginAnswer.searchResult).insertionSort
      precedes)).Pairwise precedes := (List.pairwise_insertionSort precedes _).filter _
  have : Std.Refl precedes := ⟨fun result => le_refl (rank result)⟩
  have passes := List.find?_some found
  have own : a.searchResult.source.has key := passes
  refine ⟨a, member, rfl, ⟨fine, has_iff.mp own⟩, fun b known holds => ?_⟩
  exact find?_sorted sorted found b.searchResult ((listed _).mpr ⟨b, known, rfl, holds.1⟩)
    (has_iff.mpr holds.2)

variable (distinct : (answers.map (·.originID)).Nodup)
include distinct

theorem onePerOrigin : OnePerOrigin (answers.map OriginAnswer.fetchResult) := by
  rw [OnePerOrigin, List.map_map]
  exact distinct

/-- On the first page every origin takes part, also one that failed. -/
theorem marked_active (id : String) :
    (∃ oc, (markErrors (answers.map OriginAnswer.fetchResult)
      (firstCursor opening answers)).origins[id]? = some oc ∧ oc.hasMore ∧ oc.stash = []) ↔
      id ∈ answers.map (·.originID) := by
  rw [origins_markErrors (onePerOrigin distinct), firstCursor, origins_newFederatedCursor]
  by_cases known : id ∈ answers.map (·.originID)
  · rw [if_pos known]
    refine iff_of_true ?_ known
    split
    · exact ⟨_, rfl, rfl, rfl⟩
    · exact ⟨_, rfl, rfl, rfl⟩
  · rw [if_neg known]
    simp [known]

theorem fresh_items {a : OriginAnswer} (member : a ∈ answers) (fine : a.reply.error = none) :
    (freshByOrigin (answers.map OriginAnswer.fetchResult))[a.originID]? = some a.fetchResult :=
  (freshByOrigin_get? (onePerOrigin distinct) _ _).mpr
    ⟨List.mem_map_of_mem member, fine, rfl⟩

theorem fresh_none {a : OriginAnswer} (member : a ∈ answers) (failed : a.reply.error ≠ none) :
    (freshByOrigin (answers.map OriginAnswer.fetchResult))[a.originID]? = none := by
  rw [Option.eq_none_iff_forall_ne_some]
  intro r fresh
  obtain ⟨listed, fine, named⟩ := (freshByOrigin_get? (onePerOrigin distinct) _ r).mp fresh
  obtain ⟨b, known, rfl⟩ := List.mem_map.mp listed
  obtain rfl := List.inj_on_of_nodup_map distinct known member named
  exact failed fine

/-- The sources of the paginated merge: each origin that returned items, by ID. -/
theorem mem_paginatedSources {src : ItemSource} : src ∈ paginatedSources opening answers ↔
    src.items ≠ [] ∧ ∃ a ∈ answers, a.reply.error = none ∧
      src = ⟨a.originID, ((originURLs answers)[a.originID]?).getD "", a.reply.items⟩ := by
  simp only [paginatedSources, pageSources, itemSources, List.mem_filterMap]
  constructor
  · rintro ⟨id, active, built⟩
    obtain ⟨oc, present, more⟩ := mem_activeOrigins.mp active
    have known : id ∈ answers.map (·.originID) := by
      by_contra unknown
      rw [origins_markErrors (onePerOrigin distinct), firstCursor, origins_newFederatedCursor,
        if_neg unknown] at present
      simp at present
    obtain ⟨oc', present', -, bare⟩ := (marked_active distinct id).mpr known
    obtain rfl := Option.some.inj (present.symm.trans present')
    obtain ⟨a, member, rfl⟩ := List.mem_map.mp known
    rw [present, Option.bind_some] at built
    split at built
    · cases built
    · rename_i nonempty
      obtain rfl := Option.some.inj built
      by_cases fine : a.reply.error = none
      · simp only [combined, bare, fresh_items distinct member fine] at nonempty ⊢
        exact ⟨by simpa using nonempty, a, member, fine, rfl⟩
      · simp [combined, bare, fresh_none distinct member fine] at nonempty
  · rintro ⟨nonempty, a, member, fine, rfl⟩
    obtain ⟨oc, present, more, bare⟩ :=
      (marked_active distinct a.originID).mpr (List.mem_map_of_mem member)
    refine ⟨a.originID, mem_activeOrigins.mpr ⟨oc, present, more⟩, ?_⟩
    have items : combined (freshByOrigin (answers.map OriginAnswer.fetchResult)) a.originID oc =
        a.reply.items := by
      simp [combined, bare, fresh_items distinct member fine, OriginAnswer.fetchResult]
    rw [present, Option.bind_some, items]
    simpa using nonempty

/-- The paginated merge keeps the copy of the holder with the first ID. -/
theorem paginated_keeps {id : String} (kept : keptFrom (paginatedSources opening answers) key = some id) :
    ∃ a ∈ answers, a.originID = id ∧ a.holds key ∧
      ∀ b ∈ answers, b.holds key → a.originID ≤ b.originID := by
  rw [keptFrom_eq, Option.map_eq_some_iff] at kept
  obtain ⟨first, found, rfl⟩ := kept
  obtain ⟨-, a, member, fine, rfl⟩ :=
    (mem_paginatedSources distinct).mp (List.mem_of_find?_eq_some found)
  have : Std.Refl fun a b : ItemSource => a.originID ≤ b.originID := ⟨fun a => le_refl a.originID⟩
  have sorted : (paginatedSources opening answers).Pairwise fun a b => a.originID ≤ b.originID :=
    itemSources_sorted.imp le_of_lt
  refine ⟨a, member, rfl, ⟨fine, has_iff.mp (List.find?_some found)⟩, fun b known holds => ?_⟩
  obtain ⟨item, inside, same⟩ := holds.2
  exact find?_sorted sorted found
    ⟨b.originID, ((originURLs answers)[b.originID]?).getD "", b.reply.items⟩
    ((mem_paginatedSources distinct).mpr ⟨List.ne_nil_of_mem inside, b, known, holds.1, rfl⟩)
    (has_iff.mpr ⟨item, inside, same⟩)

theorem exists_kept_of_holds {a : OriginAnswer} (member : a ∈ answers) (holds : a.holds key) :
    (∃ id, keptFrom (paginatedSources opening answers) key = some id) ∧
      ∃ id, keptFrom (fanOutSources answers) key = some id := by
  have some_kept : ∀ {sources : List ItemSource} {src : ItemSource}, src ∈ sources →
      src.has key → ∃ id, keptFrom sources key = some id := by
    intro sources src listed has
    obtain ⟨first, found⟩ := Option.isSome_iff_exists.mp (List.find?_isSome.mpr ⟨src, listed, has⟩)
    exact ⟨first.originID, by rw [keptFrom_eq, found, Option.map_some]⟩
  obtain ⟨fine, item, inside, same⟩ := holds
  constructor
  · exact some_kept ((mem_paginatedSources distinct).mpr
      ⟨List.ne_nil_of_mem inside, a, member, fine, rfl⟩) (has_iff.mpr ⟨item, inside, same⟩)
  · refine @some_kept _ a.searchResult.source (List.mem_map_of_mem ?_)
      (has_iff.mpr ⟨item, inside, same⟩)
    simp only [succeeded, List.mem_filter, List.mem_insertionSort, Option.isNone_iff_eq_none]
    exact ⟨List.mem_map_of_mem member, fine⟩

/-- The merges agree on a key exactly if one of its holders is first in both orders. -/
theorem keptFrom_eq_iff (priorities : (answers.map (·.priority)).Nodup) {a : OriginAnswer}
    (member : a ∈ answers) (holds : a.holds key) :
    keptFrom (paginatedSources opening answers) key = keptFrom (fanOutSources answers) key ↔
      ∃ best ∈ answers, best.holds key ∧ ∀ other ∈ answers, other.holds key →
        best.originID ≤ other.originID ∧ best.priority ≤ other.priority := by
  obtain ⟨⟨left, paginated⟩, right, fanned⟩ := exists_kept_of_holds distinct member holds
  obtain ⟨p, known_p, named_p, holds_p, first_p⟩ := paginated_keeps distinct paginated
  obtain ⟨f, known_f, named_f, holds_f, first_f⟩ := fanOut_keeps fanned
  have priority_le : ∀ b ∈ answers, b.holds key → f.priority ≤ b.priority := by
    intro b known holds
    have before := first_f b known holds
    rw [precedes, rank, rank, Prod.Lex.toLex_le_toLex] at before
    rcases before with lower | ⟨same, -⟩
    · exact le_of_lt lower
    · exact le_of_eq same
  rw [paginated, fanned, Option.some.injEq, ← named_p, ← named_f]
  constructor
  · intro same
    obtain rfl := List.inj_on_of_nodup_map distinct known_p known_f same
    exact ⟨p, known_p, holds_p, fun b known holds =>
      ⟨first_p b known holds, priority_le b known holds⟩⟩
  · rintro ⟨best, known, holds_best, first⟩
    have same_p : p = best := List.inj_on_of_nodup_map distinct known_p known
      (le_antisymm (first_p best known holds_best) (first p known_p holds_p).1)
    have same_f : f = best := List.inj_on_of_nodup_map priorities known_f known
      (le_antisymm (priority_le best known holds_best) (first f known_f holds_f).2)
    rw [same_p, same_f]

/-- Both merges keep the same copy of every shared item exactly if the order of the IDs and the
order of the priorities agree on which of its holders comes first. -/
theorem same_copy_iff (priorities : (answers.map (·.priority)).Nodup) :
    (∀ identity, Shared answers identity →
      keptFrom (paginatedSources opening answers) (identity.1 ++ ":" ++ identity.2) =
        keptFrom (fanOutSources answers) (identity.1 ++ ":" ++ identity.2)) ↔
      OrdersAgree answers := by
  refine forall₂_congr fun identity shared => ?_
  obtain ⟨a, member, -, -, -, ⟨fine, item, inside, rfl⟩, -⟩ := shared
  exact keptFrom_eq_iff distinct priorities member ⟨fine, item, inside, rfl⟩

end Orders

section Samples

def today : Opening := ⟨"", "", 0⟩

def scene : Item where
  id := "s1"
  collection := "c"

def answering (id : String) (priority : Int) : OriginAnswer where
  originID := id
  originURL := "https://" ++ id ++ ".example.com"
  priority := priority
  reply := { items := [some scene] }

/-- With priorities in the order of the IDs both merges keep the copy of `a`. -/
theorem first_in_both_kept :
    keptFrom (paginatedSources today [answering "b" 2, answering "a" 1]) "c:s1" =
      keptFrom (fanOutSources [answering "b" 2, answering "a" 1]) "c:s1" := by
  refine (same_copy_iff (by decide) (by decide)).mpr ?_ ("c", "s1") ?_
  · rintro identity ⟨a, member, -, -, -, ⟨-, item, inside, rfl⟩, -⟩
    have only : item = scene := by
      simp only [List.mem_cons, List.not_mem_nil, or_false] at member
      rcases member with rfl | rfl <;> simpa [answering] using inside
    subst only
    refine ⟨answering "a" 1, by simp, ⟨rfl, scene, by simp [answering], rfl⟩, ?_⟩
    intro other listed _
    simp only [List.mem_cons, List.not_mem_nil, or_false] at listed
    rcases listed with rfl | rfl <;> decide
  · have apart : answering "b" 2 ≠ answering "a" 1 :=
      fun same => absurd (congrArg OriginAnswer.originID same) (by decide)
    exact ⟨answering "b" 2, by simp, answering "a" 1, by simp, apart,
      ⟨rfl, scene, by simp [answering], rfl⟩, rfl, scene, by simp [answering], rfl⟩

/-- The preferred origin is the one whose copy the paginated merge drops. -/
theorem preferred_copy_dropped :
    keptFrom (fanOutSources [answering "a" 2, answering "b" 1]) "c:s1" = some "b" ∧
      keptFrom (paginatedSources today [answering "a" 2, answering "b" 1]) "c:s1" = some "a" := by
  decide +kernel

end Samples

end CopyPreference
