import Mathlib.Algebra.Ring.Int.Defs
import Mathlib.Data.Prod.Lex
import Mathlib.Data.String.Basic
import StacProxy.PageMerge
import StacProxy.SearchRequest
import StacProxy.StableOrder

/-!
# Merging the results of a plain fan-out

`MergeSearchResults` puts the results of the origins in the order of priority and ID, merges the
items of those that succeeded, first come first kept, and cuts the page at the limit. An origin
that failed has an entry in the status block and no items.
-/

namespace SearchMerge

open KeepFirst StacItem ItemMerge PageMerge SearchRequest

structure OriginSearchResult where
  originID : String
  originURL : String
  priority : Int
  items : List (Option Item) := []
  /-- The number of matches in the origin's context, if it sent one. -/
  matched : Option Int := none
  error : Option OriginError := none

structure OriginStatus where
  id : String
  matched : Int := 0
  returned : Nat := 0
  exhausted : Bool := false
  error : Option OriginError := none

structure SearchContext where
  returned : Nat
  matched : Int
  limit : Int := 0
  origins : List OriginStatus

structure FeatureCollection where
  features : List Item
  context : SearchContext

section Merge

/-- Priority first, then the ID. -/
def rank (result : OriginSearchResult) : Int ×ₗ String := toLex (result.priority, result.originID)

def precedes (a b : OriginSearchResult) : Prop := rank a ≤ rank b

instance : DecidableRel precedes := fun a b => inferInstanceAs (Decidable (rank a ≤ rank b))

instance : IsTrans OriginSearchResult precedes := ⟨fun _ _ _ => le_trans⟩

instance : Std.Total precedes := ⟨fun a b => le_total (rank a) (rank b)⟩

def OriginSearchResult.status (result : OriginSearchResult) : OriginStatus :=
  match result.error with
  | some e => { id := result.originID, error := some e }
  | none =>
    { id := result.originID
      matched := result.matched.getD 0
      returned := result.items.length }

def OriginSearchResult.source (result : OriginSearchResult) : ItemSource where
  originID := result.originID
  originURL := result.originURL
  items := result.items

/-- The results that contribute items. -/
def succeeded (results : List OriginSearchResult) : List OriginSearchResult :=
  results.filter (·.error.isNone)

def truncate (limit : Int) (items : List Item) : List Item :=
  if 0 < limit ∧ limit < items.length then items.take limit.toNat else items

def mergeSearchResults (results : List OriginSearchResult) (req : Request) : FeatureCollection :=
  let sorted := results.insertionSort precedes
  let items := truncate req.limit
    (mergeItemsFirstWins ((succeeded sorted).map OriginSearchResult.source))
  { features := items
    context :=
      { returned := items.length
        matched := ((succeeded sorted).map fun result => result.matched.getD 0).sum
        limit := if 0 < req.limit then req.limit else 0
        origins := sorted.map OriginSearchResult.status } }

end Merge

section Results
variable {results arrived : List OriginSearchResult} {req : Request}

/-- All items of the merge, before the limit cuts them. -/
def untruncated (results : List OriginSearchResult) : List Item :=
  mergeItemsFirstWins ((succeeded (results.insertionSort precedes)).map OriginSearchResult.source)

theorem features_eq : (mergeSearchResults results req).features =
    if 0 < req.limit then (untruncated results).take req.limit.toNat else untruncated results := by
  have cut : (mergeSearchResults results req).features = truncate req.limit (untruncated results) :=
    rfl
  rw [cut, truncate]
  by_cases limited : 0 < req.limit
  · rw [if_pos limited]
    split
    · rfl
    · rename_i short
      rw [List.take_of_length_le (by omega)]
  · rw [if_neg limited, if_neg (fun both => limited both.1)]

theorem features_sublist :
    (mergeSearchResults results req).features.Sublist (untruncated results) := by
  rw [features_eq]
  split
  · exact List.take_sublist _ _
  · exact List.Sublist.refl _

theorem sorted_eq_of_perm (unique : (results.map (·.originID)).Nodup) (perm : arrived.Perm results) :
    arrived.insertionSort precedes = results.insertionSort precedes := by
  refine StableOrder.insertionSort_eq_of_perm precedes perm fun a ha b hb left right => ?_
  have same : rank a = rank b := le_antisymm left right
  exact List.inj_on_of_nodup_map unique ha hb (congrArg (fun r => (ofLex r).2) same)

/-- A merged item is the tagged copy of an item of the first successful result with its key. -/
theorem exists_source {item : Item} (merged : item ∈ untruncated results) :
    ∃ result ∈ results, result.error = none ∧
      (∃ original, some original ∈ result.items ∧
        item = addItemOriginLink original result.originID result.originURL) ∧
      ∀ other ∈ results, other.error = none →
        (∃ copy, some copy ∈ other.items ∧ dedupKey copy = dedupKey item) → precedes result other := by
  obtain ⟨k, kept, rfl⟩ := List.mem_map.mp merged
  rw [firstCopies, candidates, List.flatMap_map] at kept
  obtain ⟨pre, result, post, split, own, before⟩ := exists_block_of_mem_keepFirst _ kept
  have listed : ∀ other, other ∈ succeeded (results.insertionSort precedes) ↔
      other ∈ results ∧ other.error = none := by
    intro other
    simp [succeeded, List.mem_insertionSort]
  obtain ⟨member, ok⟩ := (listed result).mp (split ▸ by simp)
  obtain ⟨original, inside, rfl⟩ := List.mem_map.mp own
  rw [List.reduceOption_mem_iff] at inside
  refine ⟨result, member, ok, ⟨original, inside, rfl⟩, fun other known fine has_copy => ?_⟩
  obtain ⟨copy, there, same⟩ := has_copy
  -- The other result is not before this one, since the key does not occur there.
  have place : other ∈ pre ++ result :: post := split ▸ (listed other).mpr ⟨known, fine⟩
  have sorted : (pre ++ result :: post).Pairwise precedes :=
    split ▸ (List.pairwise_insertionSort precedes results).filter _
  rcases List.mem_append.mp place with earlier | later
  · have absent := before other earlier ⟨other.originID, other.originURL, copy⟩
      (List.mem_map.mpr ⟨copy, List.reduceOption_mem_iff.mpr there, rfl⟩)
    exact absurd (by simpa using same) absent
  · rcases List.mem_cons.mp later with rfl | later
    · exact le_refl (rank other)
    · exact (List.pairwise_cons.mp (List.pairwise_append.mp sorted).2.1).1 other later

theorem untruncated_pairwise :
    (untruncated results).Pairwise fun a b => a.identity ≠ b.identity :=
  (mergeItemsFirstWins_pairwise _).imp fun different same => different (dedupKey_of_identity same)

/-- The merged page depends on what the origins answered, not on the order of the answers. -/
theorem merge_of_arrivals (results arrived : List OriginSearchResult) (req : Request)
    (unique : (results.map (·.originID)).Nodup) (perm : arrived.Perm results) :
    mergeSearchResults arrived req = mergeSearchResults results req ∧
      (mergeSearchResults results req).features.Pairwise (fun a b => a.identity ≠ b.identity) ∧
      (∀ item ∈ (mergeSearchResults results req).features, ∃ result ∈ results,
        result.error = none ∧
        (∃ original, some original ∈ result.items ∧
          item = addItemOriginLink original result.originID result.originURL) ∧
        ∀ other ∈ results, other.error = none →
          (∃ copy, some copy ∈ other.items ∧ dedupKey copy = dedupKey item) →
            precedes result other) ∧
      (0 < req.limit → ((mergeSearchResults results req).features.length : Int) ≤ req.limit) ∧
      (mergeSearchResults results req).features =
        if 0 < req.limit
        then (mergeSearchResults results { req with limit := 0 }).features.take req.limit.toNat
        else (mergeSearchResults results { req with limit := 0 }).features := by
  have whole : (mergeSearchResults results { req with limit := 0 }).features =
      untruncated results := by
    rw [features_eq]
    rfl
  refine ⟨?_, ?_, ?_, ?_, ?_⟩
  · unfold mergeSearchResults
    rw [sorted_eq_of_perm unique perm]
  · exact untruncated_pairwise.sublist features_sublist
  · intro item member
    exact exists_source (features_sublist.subset member)
  · intro limited
    rw [features_eq, if_pos limited, List.length_take]
    omega
  · rw [whole, features_eq]

end Results

section Sample

def scene : Item where
  id := "s1"
  collection := "c"

def archive : OriginSearchResult where
  originID := "b"
  originURL := "https://archive.example.com"
  priority := 1
  items := [some scene, none]

def mirror : OriginSearchResult where
  originID := "a"
  originURL := "https://mirror.example.com"
  priority := 2
  items := [some scene]

def down : OriginSearchResult where
  originID := "c"
  originURL := "https://down.example.com"
  priority := 0
  error := some .fetchFailed

/-- The copy of the preferred origin is kept, whichever answer comes first. -/
theorem archive_copy_kept :
    mergeSearchResults [mirror, down, archive] {} = mergeSearchResults [archive, mirror, down] {} ∧
      (mergeSearchResults [archive, mirror, down] {}).features.map itemOriginID = ["b"] ∧
      (mergeSearchResults [archive, mirror, down] {}).context.origins.map (·.id) = ["c", "b", "a"] := by
  refine ⟨(merge_of_arrivals [archive, mirror, down] [mirror, down, archive] {} (by decide) ?_).1,
    by decide +kernel, by decide +kernel⟩
  exact @List.perm_append_comm _ [mirror, down] [archive]

end Sample

end SearchMerge
