import Mathlib.Algebra.Order.Ring.Rat
import StacProxy.StreamPaging

/-!
# The order of pages and the requested order

`sortby` is forwarded to the origins and bound into the cursor, but the merge compares by
datetime and ID whatever was requested. Pages are in page order, and in the requested
order where page order refines it.
-/

namespace SortOrder

open JsonValue StacItem SearchRequest FederatedCursor PageMerge PaginatedSearch SearchSession
open StreamSession OffsetStreams StreamPaging OrderedPaging

section Requested

/-- Numbers sort before texts; values of other kinds do not tell items apart. -/
def sortKey : Option Json → Nat ×ₗ (ℚ ×ₗ String)
  | some (.num q) => toLex (1, toLex (q, ""))
  | some (.str s) => toLex (2, toLex (0, s))
  | _ => toLex (0, toLex (0, ""))

def sortProperty (field : String) : String :=
  if "properties.".toList.isPrefixOf field.toList then
    String.ofList (field.toList.drop "properties.".length)
  else field

/-- What an item has in a sort field. -/
def sortValue (field : String) (item : Item) : Option Json :=
  if field = "id" then some (.str item.id)
  else if field = "collection" then some (.str item.collection)
  else item.properties.get? (sortProperty field)

/-- `a` does not come after `b` in the requested order. -/
def sortbyLE : List SortSpec → Item → Item → Prop
  | [], _, _ => True
  | spec :: rest, a, b =>
    let ka := sortKey (sortValue spec.field a)
    let kb := sortKey (sortValue spec.field b)
    (if spec.direction = "desc" then kb < ka else ka < kb) ∨ ka = kb ∧ sortbyLE rest a b

instance sortbyLE.decidable : ∀ sortby, DecidableRel (sortbyLE sortby)
  | [], _, _ => .isTrue trivial
  | _ :: rest, a, b =>
    let _ := sortbyLE.decidable rest a b
    inferInstanceAs (Decidable (_ ∨ _ ∧ sortbyLE rest a b))

theorem sortbyLE_trans (sortby : List SortSpec) (a b c : Item) (hab : sortbyLE sortby a b)
    (hbc : sortbyLE sortby b c) : sortbyLE sortby a c := by
  induction sortby with
  | nil => trivial
  | cons spec rest ih =>
    simp only [sortbyLE] at *
    by_cases descending : spec.direction = "desc"
    · simp only [descending, if_true] at *
      rcases hab with ab | ⟨ab, restAB⟩ <;> rcases hbc with bc | ⟨bc, restBC⟩
      · exact .inl (bc.trans ab)
      · exact .inl (bc ▸ ab)
      · exact .inl (ab ▸ bc)
      · exact .inr ⟨ab.trans bc, ih restAB restBC⟩
    · simp only [descending, if_false] at *
      rcases hab with ab | ⟨ab, restAB⟩ <;> rcases hbc with bc | ⟨bc, restBC⟩
      · exact .inl (ab.trans bc)
      · exact .inl (bc ▸ ab)
      · exact .inl (ab ▸ bc)
      · exact .inr ⟨ab.trans bc, ih restAB restBC⟩

/-- The requested order does not look at links. -/
theorem sortbyLE_tag (S : Session) (sortby : List SortSpec) (id id' : String) (x y : Item) :
    sortbyLE sortby (tag S id x) (tag S id' y) ↔ sortbyLE sortby x y := by
  have value : ∀ field id (x : Item), sortValue field (tag S id x) = sortValue field x := by
    intro field id x
    simp [sortValue, tag]
  induction sortby with
  | nil => simp [sortbyLE]
  | cons spec rest ih => simp only [sortbyLE, value, ih]

end Requested

section Pages
variable {S : Session} {streams : String → List Item} {points : String → Nat → Pointer → Prop}
  {n : Nat} {c : Cursor} {token : String} {result : SearchResult} {next : Option (Nat × String)}

/-- Every page is in page order. -/
theorem page_sorted (coherent : S.Coherent) (before : S.cursorAt n = some (c, token))
    (answer : S.step (n, token) = some (result, next)) : result.items.Pairwise pageLE := by
  rcases step_cases coherent before answer with ⟨_, bare, _⟩ | ⟨m, _, merged, items, _⟩
  · simp [bare]
  · rw [items, items_eq merged]
    exact wholePage_sorted.sublist (List.take_sublist _ _)

/-- Page order on stream items is at least as fine as the requested order. -/
def Agrees (S : Session) (streams : String → List Item) : Prop :=
  ∀ id ∈ S.searcher.origins, ∀ id' ∈ S.searcher.origins, ∀ x ∈ streams id, ∀ y ∈ streams id',
    pageLE x y → sortbyLE S.request.sortby x y

theorem orderedBy_sortby (agrees : Agrees S streams)
    (sorted : ∀ id ∈ S.searcher.origins, (streams id).Pairwise (sortbyLE S.request.sortby)) :
    OrderedBy S streams (sortbyLE S.request.sortby) :=
  ⟨sortbyLE_trans _, fun id known id' known' x hx y hy ordered =>
    agrees id known id' known' x hx y hy (pageLE_iff.mpr ordered), sorted⟩

/-- Over a whole session the requested order survives if page order refines it. -/
theorem listing_sorted (up : Upstreams S streams points) (coherent : S.Coherent)
    (encodable : S.Encodable) (agrees : Agrees S streams)
    (sorted : ∀ id ∈ S.searcher.origins, (streams id).Pairwise (sortbyLE S.request.sortby))
    {pages : List SearchResult} (walk : Walk S.step (0, "") pages) :
    (pages.flatMap (·.items)).Pairwise (sortbyLE S.request.sortby) := by
  refine (Walk.pairwise_flatMap (Presents S) (fun result : SearchResult => result.items)
    (fun at_ e => ∃ id x, LeftAt S streams at_ id x ∧ e = tag S id x)
    (presents_next up coherent encodable) ?_ ?_ ?_ ?_ walk ⟨S.startCursor, rfl⟩).1
  · rintro ⟨n, token⟩ result next ⟨c, before⟩ answer
    refine (page_sorted coherent before answer).imp_of_mem ?_
    intro a b ha hb ordered
    obtain ⟨id, x, left, rfl⟩ := items_left up coherent encodable before answer a ha
    obtain ⟨id', y, left', rfl⟩ := items_left up coherent encodable before answer b hb
    rw [pageLE_iff, pageRank_tag, pageRank_tag, ← pageLE_iff] at ordered
    exact (sortbyLE_tag S _ id id' x y).mpr
      (agrees id left.1 id' left'.1 x left.2.1 y left'.2.1 ordered)
  · rintro ⟨n, token⟩ result next ⟨c, before⟩ answer e emitted
    obtain ⟨id, x, left, same⟩ := items_left up coherent encodable before answer e emitted
    exact ⟨id, x, ⟨c, before, left⟩, same⟩
  · rintro ⟨n, token⟩ result ⟨n', token'⟩ ⟨c, before⟩ answer e ⟨id, x, left, same⟩
    cases served_of_step up coherent encodable before answer with
    | more m token' merged items after _ =>
      have left' := (leftAt_iff after).mp left
      rw [takenAt_succ before] at left'
      exact ⟨id, x, ⟨c, before, left_before up (tracks_at up before) merged left'⟩, same⟩
  · rintro ⟨n, token⟩ result ⟨n', token'⟩ ⟨c, before⟩ answer e emitted y ⟨id, x, left, rfl⟩
    obtain ⟨id₀, x₀, left₀, rfl⟩ := items_left up coherent encodable before answer e emitted
    cases served_of_step up coherent encodable before answer with
    | more m token' merged items after _ =>
      have left' := (leftAt_iff after).mp left
      rw [takenAt_succ before] at left'
      exact (sortbyLE_tag S _ id₀ id x₀ x).mpr
        (emitted_precedes up (orderedBy_sortby agrees sorted) (tracks_at up before) merged
          (items ▸ emitted) left₀.1 left₀.2.1 left')

/-- All pages of a session are in page order. They are in the requested order, each and all
together, when the streams are and page order refines it. -/
theorem session_order (coherent : S.Coherent) :
    (∀ at_ result next, Presents S at_ → S.step at_ = some (result, next) →
      result.items.Pairwise pageLE) ∧
    ∀ streams points, Upstreams S streams points → S.Encodable →
      (∀ id ∈ S.searcher.origins, (streams id).Pairwise (sortbyLE S.request.sortby)) →
      Agrees S streams →
      ∃ pages, Walk S.step (0, "") pages ∧
        (∀ page ∈ pages, page.items.Pairwise (sortbyLE S.request.sortby)) ∧
        (pages.flatMap (·.items)).Pairwise (sortbyLE S.request.sortby) := by
  refine ⟨?_, fun streams points up encodable sorted agrees => ?_⟩
  · rintro ⟨n, token⟩ result next ⟨c, before⟩ answer
    exact page_sorted coherent before answer
  · obtain ⟨pages, walk⟩ := session_ends up coherent encodable
    have whole := listing_sorted up coherent encodable agrees sorted walk
    exact ⟨pages, walk, (List.pairwise_flatMap.mp whole).1, whole⟩

end Pages

section TwoScenes

def twoOrigins : Std.ExtTreeMap String String :=
  Std.ExtTreeMap.ofList [("a", "https://api.example.com"), ("b", "https://stac.example.com")]

/-- One origin has the older scene, the other the newer one. -/
def oneScene (id : String) : List Item :=
  if id = "a" then [scene "s1" "2024-05-01T00:00:00Z"] else [scene "s2" "2024-05-02T00:00:00Z"]

/-- Both scenes, in two pages or one, in the given order of their datetimes. -/
def byDatetime (pageSize : Nat) (positive : 0 < pageSize) (direction : String) : Session :=
  offsetSession twoOrigins oneScene pageSize positive
    { sortby := [⟨"properties.datetime", direction⟩] }

variable {pageSize : Nat} {positive : 0 < pageSize} {direction : String}

theorem mem_twoOrigins {id : String} :
    id ∈ (byDatetime pageSize positive direction).searcher.origins ↔ id ∈ ["a", "b"] := by
  simp [byDatetime, twoOrigins, offsetSession, RecordedSession.recorded]

theorem oneScene_upstreams :
    Upstreams (byDatetime pageSize positive direction) oneScene fun _ => offsetPoints where
  named := by
    simp only [mem_twoOrigins]
    decide
  serves := fun id _ => offset_serves rfl id
  distinct := by
    simp only [mem_twoOrigins]
    decide
  colonFree := by
    simp only [mem_twoOrigins]
    decide
  unlinked := by
    simp only [mem_twoOrigins]
    decide
  copies := by
    simp only [mem_twoOrigins]
    decide

theorem oneScene_sorted : ∀ id ∈ (byDatetime pageSize positive direction).searcher.origins,
    (oneScene id).Pairwise (sortbyLE (byDatetime pageSize positive direction).request.sortby) := by
  intro id _
  rw [oneScene]
  split <;> exact List.pairwise_singleton _ _

def newestFirst : Session := byDatetime 1 Nat.one_pos "desc"

def oldestFirst : Session := byDatetime 2 (by decide) "asc"

/-- Newest first is page order. -/
theorem newestFirst_agrees : Agrees newestFirst oneScene := by
  simp only [Agrees, newestFirst, mem_twoOrigins]
  decide

theorem newestFirst_order : ∃ pages, Walk newestFirst.step (0, "") pages ∧
    (∀ page ∈ pages, page.items.Pairwise (sortbyLE newestFirst.request.sortby)) ∧
    (pages.flatMap (·.items)).Pairwise (sortbyLE newestFirst.request.sortby) := by
  have up : Upstreams newestFirst oneScene fun _ => offsetPoints := oneScene_upstreams
  have coherent : newestFirst.Coherent := offset_coherent
  exact (session_order coherent).2 _ _ up offset_encodable oneScene_sorted newestFirst_agrees

/-- Asked for oldest first, the proxy answers newest first. -/
theorem oldestFirst_unsorted : oldestFirst.request.sortby ≠ [] ∧
    (∀ id ∈ oldestFirst.searcher.origins,
      (oneScene id).Pairwise (sortbyLE oldestFirst.request.sortby)) ∧
    ∃ pages, Walk oldestFirst.step (0, "") pages ∧
      ∃ page ∈ pages, ¬ page.items.Pairwise (sortbyLE oldestFirst.request.sortby) := by
  refine ⟨by decide, oneScene_sorted, ?_⟩
  have up : Upstreams oldestFirst oneScene fun _ => offsetPoints := oneScene_upstreams
  have coherent : oldestFirst.Coherent := offset_coherent
  obtain ⟨pages, walk⟩ := session_ends up coherent offset_encodable
  have active : oldestFirst.startCursor.activeOrigins ≠ [] := by decide
  have unsorted : (oldestFirst.merge 0 oldestFirst.startCursor).map (fun m =>
      decide (m.items.Pairwise (sortbyLE oldestFirst.request.sortby))) = some false := by decide
  obtain ⟨m, merged, disorder⟩ := Option.map_eq_some_iff.mp unsorted
  obtain ⟨result, items, answer⟩ := step_active coherent rfl active merged
  refine ⟨pages, walk, result, ?_, items ▸ of_decide_eq_false disorder⟩
  cases walk with
  | last answer' | more answer' _ =>
    obtain ⟨rfl, _⟩ := Prod.mk.inj (Option.some.inj (answer.symm.trans answer'))
    exact List.mem_cons_self

end TwoScenes

end SortOrder
