import StacProxy.FederatedCursor
import StacProxy.ItemMerge
import Mathlib.Data.List.Sort
import Mathlib.Data.Prod.Lex
import Mathlib.Data.String.Basic

/-!
# Merging one page

`mergeResults` of the paginated searcher: it records fetch errors, merges every
active origin's stash with its fresh page, sorts and trims the result, files what
is left over into per-origin stashes by reading back the origin link, and advances
the pointers of the origins that were fetched. `none` is the run-time panic of
reading the properties of a nil last item.
-/

namespace PageMerge

open JsonValue Rfc3339 StacItem FederatedCursor ItemMerge

/-- What went wrong with an origin's fetch, as far as `classifyOriginError` tells. -/
inductive OriginError where
  | circuitOpen
  | fetchFailed
  deriving DecidableEq, Repr

/-- What `Searcher.Search` returns for one origin. -/
structure SearchReply where
  items : List (Option Item) := []
  nextToken : String := ""
  nextURL : String := ""
  nextBody : String := ""
  adapterName : String := ""
  error : Option OriginError := none

structure FetchResult extends SearchReply where
  originID : String

abbrev FreshMap := Std.ExtTreeMap String FetchResult

def markErrors (results : List FetchResult) (cursor : Cursor) : Cursor :=
  results.foldl (fun c r => if r.error.isSome then c.markError r.originID else c) cursor

def freshByOrigin (results : List FetchResult) : FreshMap :=
  results.foldl (fun m r => if r.error.isSome then m else m.insert r.originID r) ∅

/-- The items one active origin brings to the merge: its stash, then its fresh page. -/
def combined (fresh : FreshMap) (originID : String) (oc : OriginCursor) : List (Option Item) :=
  oc.stash ++ ((fresh[originID]?).map (·.items)).getD []

def itemSources (baseURLs : Std.ExtTreeMap String String) (fresh : FreshMap) (cursor : Cursor) :
    List ItemSource :=
  cursor.activeOrigins.filterMap fun originID =>
    (cursor.origins[originID]?).bind fun oc =>
      if (combined fresh originID oc).isEmpty then none
      else some ⟨originID, (baseURLs[originID]?).getD "", combined fresh originID oc⟩

/-- The comparison handed to `sort.SliceStable`: newest first, then by ID. -/
def pageLess (a b : Item) : Bool :=
  if getDatetime a ≠ getDatetime b then decide (getDatetime b < getDatetime a)
  else decide (a.id < b.id)

def pageLE (a b : Item) : Prop := pageLess b a = false

instance : DecidableRel pageLE := fun a b => inferInstanceAs (Decidable (pageLess b a = false))

def sortPage (items : List Item) : List Item := items.insertionSort pageLE

/-- `newStash[originID]`: leftovers are grouped by the origin link they carry, and an
item with no origin is skipped. -/
def newStash (remainder : List Item) (originID : String) : List (Option Item) :=
  (remainder.filter fun item => itemOriginID item != "" && itemOriginID item == originID).map some

/-- The sort value recorded for a fetched page. `none` is the nil dereference. -/
def lastSortValue (items : List (Option Item)) : Option (Option Json) :=
  match items.getLast? with
  | none => some none
  | some none => none
  | some (some item) => some (match itemDatetime item with
    | some t => some (.str (formatRfc3339Nano t))
    | none => item.properties.get? "datetime")

def FetchResult.originUpdate (r : FetchResult) (lastSort : Option Json) : OriginUpdate where
  itemCount := r.items.length
  nextToken := r.nextToken
  nextURL := r.nextURL
  nextBody := r.nextBody
  adapterName := r.adapterName
  lastSortValue := lastSort

/-- Phase 5 for one active origin. -/
def settleOrigin (fresh : FreshMap) (remainder : List Item) (cursor : Cursor) (originID : String) :
    Option Cursor :=
  match cursor.origins[originID]? with
  | none => some cursor
  | some _ =>
    let stash := newStash remainder originID
    match fresh[originID]? with
    | none => some (cursor.setStash originID stash)
    | some r => (lastSortValue r.items).map fun lastSort =>
        (cursor.updateOriginState originID (r.originUpdate lastSort)).setStash originID stash

def mergeResults (baseURLs : Std.ExtTreeMap String String) (results : List FetchResult)
    (cursor : Cursor) (limit : Nat) : Option (List Item × Cursor) :=
  let fresh := freshByOrigin results
  let cursor := markErrors results cursor
  let merged := sortPage (mergeItemsFirstWins (itemSources baseURLs fresh cursor))
  let emitted := merged.take limit
  let remainder := merged.drop limit
  (cursor.activeOrigins.foldlM (settleOrigin fresh remainder) cursor).map (emitted, ·)

section PageOrder

/-- The sort key of an item: newest datetime text first, then ID. -/
def pageRank (item : Item) : Stringᵒᵈ ×ₗ String :=
  toLex (OrderDual.toDual (getDatetime item), item.id)

theorem pageLess_iff {a b : Item} : pageLess a b ↔ pageRank a < pageRank b := by
  unfold pageLess
  split
  · rename_i different
    simp [pageRank, Prod.Lex.toLex_lt_toLex, different]
  · rename_i same
    simp [pageRank, Prod.Lex.toLex_lt_toLex, not_not.mp same]

theorem pageLE_iff {a b : Item} : pageLE a b ↔ pageRank a ≤ pageRank b := by
  rw [pageLE, ← Bool.not_eq_true, pageLess_iff, not_lt]

instance : IsTrans Item pageLE :=
  ⟨fun _ _ _ hab hbc => pageLE_iff.mpr ((pageLE_iff.mp hab).trans (pageLE_iff.mp hbc))⟩

instance : Std.Total pageLE :=
  ⟨fun a b => (le_total (pageRank a) (pageRank b)).imp pageLE_iff.mpr pageLE_iff.mpr⟩

instance : Std.Refl pageLE := ⟨fun _ => pageLE_iff.mpr le_rfl⟩

@[simp] theorem pageRank_tagged (c : Candidate) : pageRank c.tagged = pageRank c.item := by
  simp [pageRank]

theorem sortPage_sorted (items : List Item) : (sortPage items).Pairwise pageLE :=
  List.pairwise_insertionSort pageLE items

@[simp] theorem mem_sortPage {items : List Item} {item : Item} :
    item ∈ sortPage items ↔ item ∈ items :=
  List.mem_insertionSort pageLE

end PageOrder

section FetchedOrigins
variable {results : List FetchResult}

/-- Each origin is fetched at most once a page. -/
def OnePerOrigin (results : List FetchResult) : Prop := (results.map (·.originID)).Nodup

theorem markErrors_frame (results : List FetchResult) (c : Cursor) :
    markErrors results c = { c with origins := (markErrors results c).origins } := by
  induction results generalizing c with
  | nil => rfl
  | cons r rest ih =>
    rw [markErrors, List.foldl_cons]
    split
    · exact ih (c.markError r.originID)
    · exact ih c

theorem markErrors_cons (r : FetchResult) (rest : List FetchResult) (c : Cursor) :
    markErrors (r :: rest) c =
      markErrors rest (if r.error.isSome then c.markError r.originID else c) := rfl

def Failed (results : List FetchResult) (id : String) : Prop :=
  ∃ r ∈ results, r.originID = id ∧ r.error.isSome

instance (id : String) : Decidable (Failed results id) :=
  inferInstanceAs (Decidable (∃ r ∈ results, r.originID = id ∧ r.error.isSome))

/-- An origin whose fetch failed is marked once; the others are left alone. -/
theorem origins_markErrors (distinct : OnePerOrigin results) (c : Cursor) (id : String) :
    (markErrors results c).origins[id]? =
      if Failed results id then (c.origins[id]?).map OriginCursor.markError
      else c.origins[id]? := by
  induction results generalizing c with
  | nil => simp [markErrors, Failed]
  | cons r rest ih =>
    obtain ⟨notAgain, distinct'⟩ := List.nodup_cons.mp distinct
    have failed_cons : Failed (r :: rest) id ↔
        (r.originID = id ∧ r.error.isSome) ∨ Failed rest id := by
      simp [Failed]
    rw [markErrors_cons, ih distinct']
    by_cases here : r.originID = id ∧ r.error.isSome
    · have not_rest : ¬ Failed rest id := fun ⟨r', member, same, _⟩ =>
        notAgain (List.mem_map.mpr ⟨r', member, same.trans here.1.symm⟩)
      rw [if_neg not_rest, if_pos (failed_cons.mpr (.inl here)), if_pos here.2,
        origins_markError, if_pos here.1]
    · have unchanged : (if r.error.isSome then c.markError r.originID else c).origins[id]? =
          c.origins[id]? := by
        split
        · rename_i failed
          rw [origins_markError, if_neg fun same => here ⟨same, failed⟩]
        · rfl
      rw [unchanged]
      simp only [failed_cons, here, false_or]

/-- The results without an error, filed under their origins. -/
theorem freshByOrigin_eq : freshByOrigin results =
    (results.filter (·.error.isNone)).foldl (fun m r => m.insert r.originID r) ∅ := by
  rw [freshByOrigin, List.foldl_filter]
  congr 1
  funext m r
  cases r.error <;> rfl

theorem freshByOrigin_get? (distinct : OnePerOrigin results) (id : String) (r : FetchResult) :
    (freshByOrigin results)[id]? = some r ↔ r ∈ results ∧ r.error = none ∧ r.originID = id := by
  have single : ∀ a ∈ results.filter (·.error.isNone), ∀ b ∈ results.filter (·.error.isNone),
      a.originID = b.originID → a = b := fun a ha b hb same =>
    List.inj_on_of_nodup_map distinct (List.mem_of_mem_filter ha) (List.mem_of_mem_filter hb) same
  rw [freshByOrigin_eq, KeyedMap.getElem?_eq_some_iff single]
  constructor
  · rintro ⟨a, kept, named, rfl⟩
    obtain ⟨member, fine⟩ := List.mem_filter.mp kept
    exact ⟨member, Option.isNone_iff_eq_none.mp fine, named⟩
  · rintro ⟨member, fine, named⟩
    exact ⟨r, List.mem_filter.mpr ⟨member, Option.isNone_iff_eq_none.mpr fine⟩, named, rfl⟩

end FetchedOrigins

section Settling
variable (fresh : FreshMap) (remainder : List Item)

/-- What phase 5 makes of one active origin's state. -/
def settled (originID : String) (oc : OriginCursor) : Option OriginCursor :=
  match fresh[originID]? with
  | none => some { oc with stash := newStash remainder originID }
  | some r => (lastSortValue r.items).map fun lastSort =>
      { oc.update (r.originUpdate lastSort) with stash := newStash remainder originID }

theorem settleOrigin_absent {c : Cursor} {originID : String}
    (absent : c.origins[originID]? = none) :
    settleOrigin fresh remainder c originID = some c := by
  simp [settleOrigin, absent]

theorem settleOrigin_present {c : Cursor} {originID : String} {oc : OriginCursor}
    (present : c.origins[originID]? = some oc) :
    settleOrigin fresh remainder c originID =
      (settled fresh remainder originID oc).map fun oc' =>
        { c with origins := c.origins.insert originID oc' } := by
  simp only [settleOrigin, settled, present]
  cases fresh[originID]? with
  | none =>
    simp only [Option.map_some, Option.some.injEq, Cursor.setStash, Cursor.mk.injEq, true_and,
      and_true]
    refine Std.ExtTreeMap.ext_getElem? fun id => ?_
    rw [Std.ExtTreeMap.getElem?_insert, Std.ExtTreeMap.getElem?_modify]
    simp [present]
  | some r =>
    simp only [Option.map_map]
    congr 1
    funext lastSort
    simp only [Function.comp, Cursor.setStash, Cursor.updateOriginState, Cursor.mk.injEq, true_and,
      and_true]
    refine Std.ExtTreeMap.ext_getElem? fun id => ?_
    rw [Std.ExtTreeMap.getElem?_insert, Std.ExtTreeMap.getElem?_modify]
    by_cases same : originID = id
    · subst same
      simp [present]
    · simp [same, Std.ExtTreeMap.getElem?_alter]

/-- The loop of phase 5 rewrites exactly the entries of the listed origins. -/
theorem foldlM_settleOrigin {ids : List String} (distinct : ids.Nodup) {c c' : Cursor}
    (run : ids.foldlM (settleOrigin fresh remainder) c = some c') :
    c' = { c with origins := c'.origins } ∧ ∀ id, c'.origins[id]? =
      if id ∈ ids then (c.origins[id]?).bind (settled fresh remainder id)
      else c.origins[id]? := by
  induction ids generalizing c with
  | nil =>
    obtain rfl : c = c' := by simpa using run
    exact ⟨rfl, by simp⟩
  | cons a rest ih =>
    obtain ⟨notAgain, distinct'⟩ := List.nodup_cons.mp distinct
    rw [List.foldlM_cons] at run
    cases present : c.origins[a]? with
    | none =>
      rw [settleOrigin_absent fresh remainder present] at run
      obtain ⟨frame, entries⟩ := ih distinct' (by simpa using run)
      refine ⟨frame, fun id => ?_⟩
      rw [entries]
      by_cases same : id = a
      · subst same
        simp [notAgain, present]
      · simp [same]
    | some oc =>
      rw [settleOrigin_present fresh remainder present] at run
      cases step : settled fresh remainder a oc with
      | none => simp [step] at run
      | some oc' =>
        obtain ⟨frame, entries⟩ := ih distinct' (by simpa [step] using run)
        refine ⟨frame, fun id => ?_⟩
        rw [entries, Std.ExtTreeMap.getElem?_insert]
        by_cases same : id = a
        · subst same
          simp [notAgain, present, step]
        · simp [same, Ne.symm same]

/-- The loop panics exactly when some listed origin's fresh page ends in a nil item. -/
theorem foldlM_settleOrigin_isSome {ids : List String} (distinct : ids.Nodup) (c : Cursor) :
    (ids.foldlM (settleOrigin fresh remainder) c).isSome ↔
      ∀ id ∈ ids, ∀ oc, c.origins[id]? = some oc → (settled fresh remainder id oc).isSome := by
  induction ids generalizing c with
  | nil => simp
  | cons a rest ih =>
    obtain ⟨notAgain, distinct'⟩ := List.nodup_cons.mp distinct
    rw [List.foldlM_cons, List.forall_mem_cons]
    cases present : c.origins[a]? with
    | none =>
      rw [settleOrigin_absent fresh remainder present]
      simpa using ih distinct' c
    | some oc =>
      rw [settleOrigin_present fresh remainder present]
      cases step : settled fresh remainder a oc with
      | none => simp [step]
      | some oc' =>
        have others : ∀ id ∈ rest, ({ c with origins := c.origins.insert a oc' } : Cursor).origins[id]? =
            c.origins[id]? := by
          intro id member
          have different : a ≠ id := fun same => notAgain (same ▸ member)
          rw [Std.ExtTreeMap.getElem?_insert]
          simp [different]
        simp only [Option.map_some, Option.bind_eq_bind, Option.bind_some, ih distinct',
          Option.some.injEq, forall_eq', step, Option.isSome_some, true_and]
        refine forall₂_congr fun id member => ?_
        rw [others id member]

end Settling

section Spec
variable (baseURLs : Std.ExtTreeMap String String) (results : List FetchResult) (c : Cursor)
  (limit : Nat)

/-- The sources of a page: what every active origin holds or has just delivered. -/
def pageSources : List ItemSource :=
  itemSources baseURLs (freshByOrigin results) (markErrors results c)

/-- The whole page before it is trimmed. -/
def mergedPage : List Item := sortPage (mergeItemsFirstWins (pageSources baseURLs results c))

/-- What a merge that returns has done. -/
structure MergeSpec (emitted : List Item) (c' : Cursor) : Prop where
  emitted_eq : emitted = (mergedPage baseURLs results c).take limit
  frame : c' = { c with origins := c'.origins }
  origins : ∀ id, c'.origins[id]? =
    if id ∈ (markErrors results c).activeOrigins then
      ((markErrors results c).origins[id]?).bind
        (settled (freshByOrigin results) ((mergedPage baseURLs results c).drop limit) id)
    else (markErrors results c).origins[id]?
  settles : ∀ id ∈ (markErrors results c).activeOrigins, ∀ oc,
    (markErrors results c).origins[id]? = some oc →
      (settled (freshByOrigin results) ((mergedPage baseURLs results c).drop limit) id oc).isSome

theorem lastSortValue_isSome {items : List (Option Item)} :
    (lastSortValue items).isSome ↔ items.getLast? ≠ some none := by
  unfold lastSortValue
  split <;> simp_all

variable {baseURLs results c limit}

/-- Sources are listed by the ID of their origin. -/
theorem itemSources_sorted {fresh : FreshMap} :
    (itemSources baseURLs fresh c).Pairwise fun a b => a.originID < b.originID := by
  rw [itemSources, List.pairwise_filterMap]
  refine activeOrigins_sorted.imp ?_
  intro x y before a ha b hb
  have named : ∀ {id src}, ((c.origins[id]?).bind fun oc =>
      if (combined fresh id oc).isEmpty then none
      else some (ItemSource.mk id ((baseURLs[id]?).getD "") (combined fresh id oc))) = some src →
      src.originID = id := by
    intro id src built
    obtain ⟨oc, -, shape⟩ := Option.bind_eq_some_iff.mp built
    split at shape
    · cases shape
    · rw [← Option.some.inj shape]
  rw [named ha, named hb]
  exact before

theorem mem_pageCandidates {k : Candidate} :
    k ∈ candidates (pageSources baseURLs results c) ↔
      k.originURL = (baseURLs[k.originID]?).getD "" ∧
      ∃ oc, (markErrors results c).origins[k.originID]? = some oc ∧ oc.hasMore ∧
        some k.item ∈ combined (freshByOrigin results) k.originID oc := by
  simp only [mem_candidates, pageSources, itemSources, List.mem_filterMap, mem_activeOrigins]
  constructor
  · rintro ⟨src, ⟨id, ⟨oc, present, more⟩, built⟩, member, hid, hurl⟩
    rw [present, Option.bind_some] at built
    split at built
    · cases built
    · obtain rfl := Option.some.inj built
      subst hid
      exact ⟨hurl, oc, present, more, member⟩
  · rintro ⟨hurl, oc, present, more, member⟩
    have nonempty : (combined (freshByOrigin results) k.originID oc).isEmpty = false := by
      rw [List.isEmpty_eq_false_iff]
      exact List.ne_nil_of_mem member
    refine ⟨⟨k.originID, k.originURL, combined (freshByOrigin results) k.originID oc⟩,
      ⟨k.originID, ⟨oc, present, more⟩, ?_⟩, member, rfl, rfl⟩
    rw [present, Option.bind_some, nonempty, hurl]
    rfl

theorem mem_mergedPage {item : Item} : item ∈ mergedPage baseURLs results c ↔
    ∃ k ∈ firstCopies (pageSources baseURLs results c), k.tagged = item := by
  simp [mergedPage, mergeItemsFirstWins]

/-- Merged items with one key are one item. -/
theorem mergedPage_unique {x y : Item} (hx : x ∈ mergedPage baseURLs results c)
    (hy : y ∈ mergedPage baseURLs results c) (same : dedupKey x = dedupKey y) : x = y :=
  mergeItemsFirstWins_unique (mem_sortPage.mp hx) (mem_sortPage.mp hy) same

theorem mergedPage_nodup (baseURLs : Std.ExtTreeMap String String) (results : List FetchResult)
    (c : Cursor) : (mergedPage baseURLs results c).Nodup :=
  (List.perm_insertionSort pageLE _).nodup_iff.mpr (mergeItemsFirstWins_nodup _)

theorem settled_isSome {fresh : FreshMap} {remainder : List Item} {id : String}
    {oc : OriginCursor} :
    (settled fresh remainder id oc).isSome ↔
      ∀ r, fresh[id]? = some r → r.items.getLast? ≠ some none := by
  unfold settled
  cases fresh[id]? with
  | none => simp
  | some r => simp [lastSortValue_isSome]

theorem stash_of_settled {fresh : FreshMap} {remainder : List Item} {id : String}
    {oc oc' : OriginCursor} (step : settled fresh remainder id oc = some oc') :
    oc'.stash = newStash remainder id := by
  unfold settled at step
  split at step
  · rw [← Option.some.inj step]
  · obtain ⟨lastSort, _, rfl⟩ := Option.map_eq_some_iff.mp step
    rfl

theorem mergeResults_isSome : (mergeResults baseURLs results c limit).isSome ↔
    ∀ id ∈ (markErrors results c).activeOrigins, ∀ r, (freshByOrigin results)[id]? = some r →
      r.items.getLast? ≠ some none := by
  simp only [mergeResults, Option.isSome_map, foldlM_settleOrigin_isSome _ _ activeOrigins_nodup,
    settled_isSome]
  refine forall₂_congr fun id active => ?_
  obtain ⟨oc, present, _⟩ := mem_activeOrigins.mp active
  exact ⟨fun h => h oc present, fun h _ _ => h⟩

theorem mergeResults_spec {emitted : List Item} {c' : Cursor}
    (run : mergeResults baseURLs results c limit = some (emitted, c')) :
    MergeSpec baseURLs results c limit emitted c' := by
  obtain ⟨c'', loop, same⟩ := Option.map_eq_some_iff.mp run
  obtain ⟨rfl, rfl⟩ := Prod.mk.inj same
  obtain ⟨frame, origins⟩ := foldlM_settleOrigin _ _ activeOrigins_nodup loop
  have returned := Option.isSome_of_eq_some loop
  rw [foldlM_settleOrigin_isSome _ _ activeOrigins_nodup] at returned
  refine ⟨rfl, ?_, origins, returned⟩
  rw [frame, markErrors_frame]

theorem mem_newStash {remainder : List Item} {id : String} {item : Item} :
    some item ∈ newStash remainder id ↔
      item ∈ remainder ∧ itemOriginID item = id ∧ id ≠ "" := by
  simp only [newStash, List.mem_map, List.mem_filter, Bool.and_eq_true, bne_iff_ne, ne_eq,
    beq_iff_eq, Option.some.injEq, exists_eq_right]
  constructor
  · rintro ⟨left_over, named, rfl⟩
    exact ⟨left_over, rfl, named⟩
  · rintro ⟨left_over, rfl, named⟩
    exact ⟨left_over, named, rfl⟩

theorem stash_eq_nil_of_inactive {c : Cursor} {id : String} {oc : OriginCursor}
    (present : c.origins[id]? = some oc) (inactive : id ∉ c.activeOrigins) : oc.stash = [] := by
  have idle : ¬ oc.hasMore := fun more => inactive (mem_activeOrigins.mpr ⟨oc, present, more⟩)
  simp only [OriginCursor.hasMore, Bool.or_eq_true, not_or, Bool.not_eq_true, Bool.not_eq_false',
    List.isEmpty_iff] at idle
  exact idle.1

/-- After the merge the stashes hold exactly the leftovers that name an active origin. -/
theorem mem_stash_iff {emitted : List Item} {c' : Cursor}
    (spec : MergeSpec baseURLs results c limit emitted c') (item : Item) (id : String) :
    (∃ oc, c'.origins[id]? = some oc ∧ some item ∈ oc.stash) ↔
      item ∈ (mergedPage baseURLs results c).drop limit ∧ itemOriginID item = id ∧ id ≠ "" ∧
        id ∈ (markErrors results c).activeOrigins := by
  rw [spec.origins id]
  by_cases active : id ∈ (markErrors results c).activeOrigins
  · obtain ⟨oc, present, _⟩ := mem_activeOrigins.mp active
    obtain ⟨oc', settles⟩ := Option.isSome_iff_exists.mp (spec.settles id active oc present)
    simp only [active, if_true, present, Option.bind_some, settles, Option.some.injEq,
      exists_eq_left', stash_of_settled settles, mem_newStash, and_true]
  · simp only [active, if_false, and_false, iff_false]
    rintro ⟨oc, present, member⟩
    rw [stash_eq_nil_of_inactive present active] at member
    exact List.not_mem_nil member

end Spec

end PageMerge
