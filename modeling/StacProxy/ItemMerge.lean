import StacProxy.KeepFirst
import StacProxy.StacItem
import Mathlib.Data.List.ReduceOption

/-!
# First-wins merging of item sources

`mergeItemsFirstWins` walks the sources in order, skips nil items and items whose
key `collection + ":" + id` was seen before, and tags a copy of each item it keeps
with the origin of its source.
-/

namespace ItemMerge

open KeepFirst StacItem

structure ItemSource where
  originID : String
  originURL : String
  items : List (Option Item)

/-- One non-nil item as the merge loop meets it. -/
structure Candidate where
  originID : String
  originURL : String
  item : Item

def dedupKey (item : Item) : String := item.collection ++ ":" ++ item.id

def Candidate.tagged (c : Candidate) : Item :=
  addItemOriginLink c.item c.originID c.originURL

def ItemSource.candidates (src : ItemSource) : List Candidate :=
  src.items.reduceOption.map fun item => ⟨src.originID, src.originURL, item⟩

def candidates (sources : List ItemSource) : List Candidate :=
  sources.flatMap ItemSource.candidates

/-- The first candidate of every key. -/
def firstCopies (sources : List ItemSource) : List Candidate :=
  keepFirst (fun c => dedupKey c.item) [] (candidates sources)

def mergeItemsFirstWins (sources : List ItemSource) : List Item :=
  (firstCopies sources).map Candidate.tagged

@[simp] theorem dedupKey_tagged (c : Candidate) : dedupKey c.tagged = dedupKey c.item := by
  simp [dedupKey, Candidate.tagged]

@[simp] theorem identity_tagged (c : Candidate) : c.tagged.identity = c.item.identity := by
  simp [Candidate.tagged]

@[simp] theorem getDatetime_tagged (c : Candidate) :
    getDatetime c.tagged = getDatetime c.item := by
  simp [Candidate.tagged]

@[simp] theorem id_tagged (c : Candidate) : c.tagged.id = c.item.id := by
  simp [Candidate.tagged]

theorem dedupKey_of_identity {x y : Item} (same : x.identity = y.identity) :
    dedupKey x = dedupKey y := by
  obtain ⟨hcoll, hid⟩ := Prod.mk.inj same
  rw [dedupKey, dedupKey, hcoll, hid]

/-- Without a colon in the collections the joined key determines the item. -/
theorem identity_of_dedupKey {x y : Item} (hx : ':' ∉ x.collection.toList)
    (hy : ':' ∉ y.collection.toList) (same : dedupKey x = dedupKey y) :
    x.identity = y.identity := by
  have chars : x.collection.toList ++ ':' :: x.id.toList =
      y.collection.toList ++ ':' :: y.id.toList := by
    simpa [dedupKey] using congrArg String.toList same
  have pieces := congrArg (List.splitOn ':') chars
  rw [List.splitOn_append_cons_self, List.splitOn_append_cons_self, List.splitOn_eq_singleton hx,
    List.splitOn_eq_singleton hy, List.singleton_append, List.singleton_append] at pieces
  have collections := (List.cons.inj pieces).1
  rw [collections] at chars
  have ids := (List.cons.inj (List.append_cancel_left chars)).2
  rw [Item.identity, Item.identity, String.toList_inj.mp collections, String.toList_inj.mp ids]

theorem mem_candidates {sources : List ItemSource} {c : Candidate} :
    c ∈ candidates sources ↔ ∃ src ∈ sources, some c.item ∈ src.items ∧
      c.originID = src.originID ∧ c.originURL = src.originURL := by
  simp only [candidates, ItemSource.candidates, List.mem_flatMap, List.mem_map,
    List.reduceOption_mem_iff]
  constructor
  · rintro ⟨src, hsrc, item, hitem, rfl⟩
    exact ⟨src, hsrc, hitem, rfl, rfl⟩
  · rintro ⟨src, hsrc, hitem, hid, hurl⟩
    exact ⟨src, hsrc, c.item, hitem, by rw [← hid, ← hurl]⟩

theorem mem_candidates_of_firstCopies {sources : List ItemSource} {c : Candidate}
    (first : c ∈ firstCopies sources) : c ∈ candidates sources :=
  mem_of_mem_keepFirst _ first

theorem firstCopies_pairwise (sources : List ItemSource) :
    (firstCopies sources).Pairwise (fun a b => dedupKey a.item ≠ dedupKey b.item) :=
  keepFirst_pairwise _ _ _

/-- The merged page never holds two items with one key. -/
theorem mergeItemsFirstWins_pairwise (sources : List ItemSource) :
    (mergeItemsFirstWins sources).Pairwise (fun a b => dedupKey a ≠ dedupKey b) := by
  refine List.pairwise_map.mpr ((firstCopies_pairwise sources).imp ?_)
  intro a b different
  simpa using different

theorem mergeItemsFirstWins_nodup (sources : List ItemSource) :
    (mergeItemsFirstWins sources).Nodup :=
  (mergeItemsFirstWins_pairwise sources).imp fun different same => different (by rw [same])

/-- Every candidate's key survives on the first candidate that has it. -/
theorem exists_firstCopy {sources : List ItemSource} {c : Candidate}
    (member : c ∈ candidates sources) :
    ∃ k ∈ firstCopies sources, dedupKey k.item = dedupKey c.item :=
  exists_key_eq (fun c : Candidate => dedupKey c.item) member

theorem firstCopy_unique {sources : List ItemSource} {a b : Candidate}
    (ha : a ∈ firstCopies sources) (hb : b ∈ firstCopies sources)
    (same : dedupKey a.item = dedupKey b.item) : a = b :=
  eq_of_key_eq (fun c : Candidate => dedupKey c.item) ha hb same

section Provenance
variable {sources : List ItemSource} {key : String}

/-- The source has an item under the key. -/
def ItemSource.has (key : String) (src : ItemSource) : Bool :=
  src.items.reduceOption.any fun item => dedupKey item = key

/-- The origin whose copy of a key is kept. -/
def keptFrom (sources : List ItemSource) (key : String) : Option String :=
  ((firstCopies sources).find? fun c => dedupKey c.item = key).map (·.originID)

/-- The first source that has a copy provides it. -/
theorem keptFrom_eq : keptFrom sources key = (sources.find? (·.has key)).map (·.originID) := by
  rw [keptFrom, firstCopies, find?_keepFirst]
  induction sources with
  | nil => rfl
  | cons src rest ih =>
    have split : candidates (src :: rest) = src.candidates ++ candidates rest := rfl
    rw [split, List.find?_append, List.find?_cons]
    cases found : src.candidates.find? fun c => dedupKey c.item = key with
    | none =>
      have absent : src.has key = false := by
        simpa [ItemSource.has, ItemSource.candidates] using found
      rw [absent]
      exact ih
    | some c =>
      obtain ⟨item, member, rfl⟩ := List.mem_map.mp (List.mem_of_find?_eq_some found)
      have here := List.find?_some found
      have present : src.has key = true := List.any_eq_true.mpr ⟨item, member, here⟩
      rw [present]
      rfl

end Provenance

section Exactness
variable {sources : List ItemSource}

/-- The first candidate of every collection and ID. -/
def firstOccurrences (sources : List ItemSource) : List Candidate :=
  keepFirst (fun c => c.item.identity) [] (candidates sources)

/-- The joined key tells the candidates apart. -/
def KeysTell (sources : List ItemSource) : Prop :=
  ∀ a ∈ candidates sources, ∀ b ∈ candidates sources,
    dedupKey a.item = dedupKey b.item → a.item.identity = b.item.identity

/-- The merge drops duplicates and nothing else. -/
structure DropsDuplicatesOnly (sources : List ItemSource) : Prop where
  kept : mergeItemsFirstWins sources = (firstOccurrences sources).map Candidate.tagged
  /-- Before an item that is left out comes a kept one with its collection and ID. -/
  omitted : ∀ before c after, candidates sources = before ++ c :: after →
    c.tagged ∉ mergeItemsFirstWins sources →
      ∃ k ∈ before, k.item.identity = c.item.identity ∧ k.tagged ∈ mergeItemsFirstWins sources
  unchanged : ∀ item ∈ mergeItemsFirstWins sources, ∃ c ∈ candidates sources,
    item = c.item ∨
      item = { c.item with links := c.item.links ++ [some (originLink c.originID c.originURL)] }

theorem tagged_cases (c : Candidate) : c.tagged = c.item ∨
    c.tagged = { c.item with links := c.item.links ++ [some (originLink c.originID c.originURL)] } := by
  unfold Candidate.tagged addItemOriginLink
  split
  · exact .inl rfl
  · exact .inr rfl

/-- Items with one key are one item of the merge. -/
theorem mergeItemsFirstWins_unique {x y : Item} (hx : x ∈ mergeItemsFirstWins sources)
    (hy : y ∈ mergeItemsFirstWins sources) (same : dedupKey x = dedupKey y) : x = y := by
  obtain ⟨a, first_a, rfl⟩ := List.mem_map.mp hx
  obtain ⟨b, first_b, rfl⟩ := List.mem_map.mp hy
  rw [dedupKey_tagged, dedupKey_tagged] at same
  rw [firstCopy_unique first_a first_b same]

theorem keysTell_of_kept
    (kept : mergeItemsFirstWins sources = (firstOccurrences sources).map Candidate.tagged) :
    KeysTell sources := by
  intro a ha b hb same
  obtain ⟨a', first_a, same_a⟩ := exists_key_eq (fun c : Candidate => c.item.identity) ha
  obtain ⟨b', first_b, same_b⟩ := exists_key_eq (fun c : Candidate => c.item.identity) hb
  have kept_a : a'.tagged ∈ mergeItemsFirstWins sources := kept ▸ List.mem_map_of_mem first_a
  have kept_b : b'.tagged ∈ mergeItemsFirstWins sources := kept ▸ List.mem_map_of_mem first_b
  have one : a'.tagged = b'.tagged := by
    apply mergeItemsFirstWins_unique kept_a kept_b
    rw [dedupKey_tagged, dedupKey_tagged, dedupKey_of_identity same_a, same,
      dedupKey_of_identity same_b]
  rw [← same_a, ← same_b, ← identity_tagged a', one, identity_tagged]

theorem firstCopies_eq (tell : KeysTell sources) : firstCopies sources = firstOccurrences sources :=
  keepFirst_congr _ fun a ha b hb => ⟨tell a ha b hb, dedupKey_of_identity⟩

/-- The merge keeps exactly the first item of every collection and ID if and only if no two of
the items have the same joined key without having the same collection and ID. -/
theorem dropsDuplicatesOnly_iff (sources : List ItemSource) :
    DropsDuplicatesOnly sources ↔ KeysTell sources := by
  refine ⟨fun exact_ => keysTell_of_kept exact_.kept, fun tell => ⟨?_, ?_, ?_⟩⟩
  · rw [mergeItemsFirstWins, firstCopies_eq tell]
  · intro before c after split left_out
    have member : c ∈ candidates sources := by simp [split]
    obtain ⟨pre, k, post, split', same, first, kept⟩ :=
      exists_kept (fun c : Candidate => dedupKey c.item) [] member List.not_mem_nil
    have k_kept : k.tagged ∈ mergeItemsFirstWins sources := List.mem_map_of_mem kept
    -- The kept copy is not behind the omitted one, since that would then be the first.
    have earlier : k ∈ before := by
      rcases List.append_eq_append_iff.mp (split.symm.trans split') with
        ⟨mid, rfl, shifted⟩ | ⟨mid, rfl, shifted⟩
      · cases mid with
        | nil =>
          obtain rfl : c = k := (List.cons.inj shifted).1
          exact absurd k_kept left_out
        | cons c' mid =>
          obtain rfl : c = c' := (List.cons.inj shifted).1
          exact absurd rfl (first c (by simp))
      · cases mid with
        | nil =>
          obtain rfl : k = c := (List.cons.inj shifted).1
          exact absurd k_kept left_out
        | cons k' mid =>
          obtain rfl : k = k' := (List.cons.inj shifted).1
          simp
    exact ⟨k, earlier, tell k (by simp [split']) c member same, k_kept⟩
  · intro item merged
    obtain ⟨c, first, rfl⟩ := List.mem_map.mp merged
    exact ⟨c, mem_candidates_of_firstCopies first, tagged_cases c⟩

/-- Two items of different collections whose keys are both `a:b:c`. -/
def colliding : ItemSource where
  originID := "o"
  originURL := "https://api.example.com"
  items := [some { collection := "a", id := "b:c" }, some { collection := "a:b", id := "c" }]

theorem colliding_item_dropped :
    (candidates [colliding]).map (·.item.identity) = [("a", "b:c"), ("a:b", "c")] ∧
      (mergeItemsFirstWins [colliding]).map (·.identity) = [("a", "b:c")] := by
  decide

end Exactness

/-- Where a leftover is filed: the first origin link it came with, or else its source. -/
def Candidate.home (k : Candidate) : String :=
  if k.item.links.any Link.isOrigin then itemOriginID k.item else k.originID

theorem itemOriginID_tagged (k : Candidate) : itemOriginID k.tagged = k.home := by
  unfold Candidate.home
  split
  · rename_i linked
    exact itemOriginID_add_of_linked k.originURL linked
  · rename_i unlinked
    exact itemOriginID_add_of_unlinked k.originURL (by simpa using unlinked)

end ItemMerge
