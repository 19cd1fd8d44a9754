import Mathlib.Data.List.ReduceOption
import Mathlib.Data.String.Basic
import StacProxy.AuthzMiddleware
import StacProxy.KeepFirst
import StacProxy.StableOrder
import StacProxy.StacItem

/-!
# The federated list of collections

`GET /collections` asks every origin, prefixes the IDs of what each returns, and merges the
lists: collections are tagged with their origin, the first of every ID is kept, and the result
is sorted by ID. The origins are taken from a Go map, so they are asked and merged in any order.
-/

namespace CollectionMerge

open JsonValue StacItem KeepFirst AuthzMiddleware

structure Collection where
  id : String
  links : List (Option Link) := []
  otherMembers : Members := []

def addCollectionOriginLink (coll : Collection) (originID originURL : String) : Collection :=
  if coll.links.any (Link.namesOrigin originID) then coll
  else { coll with links := coll.links ++ [some (originLink originID originURL)] }

/-- Collections of one origin, or none if it failed. -/
structure OriginCollectionsResult where
  originID : String
  originURL : String
  collections : List (Option Collection) := []
  failed : Bool := false

section Merging

def byID (a b : Collection) : Prop := a.id ≤ b.id

instance : DecidableRel byID := fun a b => inferInstanceAs (Decidable (a.id ≤ b.id))

instance : IsTrans Collection byID := ⟨fun _ _ _ => le_trans⟩

instance : Std.Total byID := ⟨fun a b => le_total a.id b.id⟩

/-- The IDs that are left are distinct, so how the sort treats equal ones does not matter. -/
def deduplicateCollections (collections : List (Option Collection)) : List Collection :=
  (keepFirst (·.id) [] collections.reduceOption).insertionSort byID

/-- What an origin contributes: nothing if it failed. -/
def OriginCollectionsResult.tagged (result : OriginCollectionsResult) : List Collection :=
  if result.failed then []
  else result.collections.reduceOption.map
    (addCollectionOriginLink · result.originID result.originURL)

def mergeCollections (results : List OriginCollectionsResult) : List Collection :=
  deduplicateCollections ((results.flatMap OriginCollectionsResult.tagged).map some)

end Merging

section Handler

/-- An origin's client, as far as the list of collections needs it. -/
structure Client where
  id : String
  baseURL : String
  collectionPrefix : String := ""

def Client.prefixed (client : Client) (coll : Collection) : Collection :=
  if client.collectionPrefix = "" then coll else { coll with id := client.collectionPrefix ++ coll.id }

/-- The result of asking one origin. A panic while asking counts as an error. -/
def Client.result (client : Client) (reply : Option (List (Option Collection))) :
    OriginCollectionsResult :=
  match reply with
  | none => { originID := client.id, originURL := client.baseURL, failed := true }
  | some collections =>
    { originID := client.id
      originURL := client.baseURL
      collections := collections.map (Option.map client.prefixed) }

def originFailures (results : List OriginCollectionsResult) : List String :=
  ((results.filter (·.failed)).map (·.originID)).insertionSort (· ≤ ·)

/-- The origins that failed are named in the headers of the last two. -/
inductive Reply (R : Type) where
  | upstream (response : R)
  | failure (error : ErrorReply) (failed : List String)
  | merged (collections : List Collection) (failed : List String)

variable {R : Type}

def respondIfAllFailed (failed : List String) (total : Nat) : Option (Reply R) :=
  if total = 0 ∨ failed.length ≠ total then none
  else some (.failure ⟨502, "UpstreamFederationFailure",
    "all routed origins failed: " ++ ",".intercalate failed⟩ failed)

/-- `clients` is the map of origins in the order of an iteration, `forwarded` what the only
origin answers to the forwarded request. -/
def handleGetCollections (forwarded : R) (reply : Client → Option (List (Option Collection)))
    (clients : List Client) : Reply R :=
  if clients.length = 1 then .upstream forwarded
  else
    let results := clients.map fun client => client.result (reply client)
    let failed := originFailures results
    (respondIfAllFailed failed results.length).getD (.merged (mergeCollections results) failed)

/-- The response body, up to its encoding. -/
inductive Body (R : Type) where
  | upstream (response : R)
  | error (error : ErrorReply)
  | collections (collections : List Collection)

def Reply.body : Reply R → Body R
  | .upstream response => .upstream response
  | .failure error _ => .error error
  | .merged collections _ => .collections collections

end Handler

section Order
variable {results arrived : List OriginCollectionsResult} {coll : Collection}

/-- What an origin has under an ID: the first of its collections, tagged. -/
def OriginCollectionsResult.copy (result : OriginCollectionsResult) (id : String) :
    Option Collection :=
  result.tagged.find? (·.id = id)

/-- Origins that have a collection under one ID have the same one, with the same links. -/
def Agree (results : List OriginCollectionsResult) : Prop :=
  ∀ a ∈ results, ∀ b ∈ results, ∀ id left right,
    a.copy id = some left → b.copy id = some right → left = right

theorem mergeCollections_eq : mergeCollections results =
    (keepFirst (·.id) [] (results.flatMap OriginCollectionsResult.tagged)).insertionSort byID := by
  rw [mergeCollections, deduplicateCollections, List.reduceOption, List.filterMap_map]
  simp

theorem mem_mergeCollections : coll ∈ mergeCollections results ↔
    results.findSome? (·.copy coll.id) = some coll := by
  rw [mergeCollections_eq, List.mem_insertionSort, mem_keepFirst_iff, List.find?_flatMap]
  rfl

theorem ids_pairwise : (mergeCollections results).Pairwise fun a b => a.id ≠ b.id := by
  have kept := keepFirst_pairwise (·.id) [] (results.flatMap OriginCollectionsResult.tagged)
  rw [mergeCollections_eq]
  exact kept.perm (List.perm_insertionSort _ _).symm fun different => different.symm

theorem eq_of_id_eq {other : Collection} (left : coll ∈ mergeCollections results)
    (right : other ∈ mergeCollections results) (same : coll.id = other.id) : coll = other :=
  List.inj_on_of_nodup_map (List.pairwise_map.mpr ids_pairwise) left right same

/-- Under the condition, the collections that are kept are the copies of any origins. -/
theorem Agree.mem_mergeCollections (agree : Agree results) (perm : arrived.Perm results) :
    coll ∈ mergeCollections arrived ↔ ∃ result ∈ results, result.copy coll.id = some coll := by
  rw [CollectionMerge.mem_mergeCollections]
  constructor
  · intro found
    obtain ⟨result, member, copy⟩ := List.exists_of_findSome?_eq_some found
    exact ⟨result, perm.mem_iff.mp member, copy⟩
  · rintro ⟨result, member, copy⟩
    cases found : arrived.findSome? (·.copy coll.id) with
    | none =>
      have absent := List.findSome?_eq_none_iff.mp found result (perm.mem_iff.mpr member)
      rw [copy] at absent
      cases absent
    | some other =>
      obtain ⟨first, listed, first_copy⟩ := List.exists_of_findSome?_eq_some found
      rw [agree first (perm.mem_iff.mp listed) result member _ _ _ first_copy copy]

theorem mergeCollections_eq_of_agree (agree : Agree results) (perm : arrived.Perm results) :
    mergeCollections arrived = mergeCollections results := by
  have nodup : ∀ l, (mergeCollections l).Nodup := fun l =>
    ids_pairwise.imp fun different same => different (congrArg Collection.id same)
  have same : (mergeCollections arrived).Perm (mergeCollections results) := by
    rw [List.perm_ext_iff_of_nodup (nodup _) (nodup _)]
    intro coll
    rw [agree.mem_mergeCollections perm, agree.mem_mergeCollections (List.Perm.refl results)]
  have sorted : ∀ l, (mergeCollections l).Pairwise byID := fun l => by
    rw [mergeCollections_eq]
    exact List.pairwise_insertionSort byID _
  refine List.Perm.eq_of_pairwise (fun a b ha hb before after => ?_) (sorted _) (sorted _) same
  exact eq_of_id_eq ha (same.mem_iff.mpr hb) (le_antisymm before after)

/-- An origin's copy is kept if the origin comes first. -/
theorem mem_mergeCollections_cons {result : OriginCollectionsResult} {id : String}
    (copy : result.copy id = some coll) : coll ∈ mergeCollections (result :: results) := by
  have named : coll.id = id := by simpa using List.find?_some copy
  rw [mem_mergeCollections, named, List.findSome?_cons, copy]

/-- The merge favours whichever origin comes first, so it must not matter who does. -/
theorem agree_of_fronts (fronts : ∀ result ∈ results, ∃ rest,
    mergeCollections (result :: rest) = mergeCollections results) : Agree results := by
  intro a ha b hb id left right left_copy right_copy
  have kept : ∀ {result coll}, result ∈ results → result.copy id = some coll →
      coll ∈ mergeCollections results := by
    intro result coll member copy
    obtain ⟨rest, same⟩ := fronts result member
    rw [← same]
    exact mem_mergeCollections_cons copy
  have named : left.id = right.id := by
    have left_id : left.id = id := by simpa using List.find?_some left_copy
    have right_id : right.id = id := by simpa using List.find?_some right_copy
    rw [left_id, right_id]
  exact eq_of_id_eq (kept ha left_copy) (kept hb right_copy) named

theorem originFailures_eq_of_perm (perm : arrived.Perm results) :
    originFailures arrived = originFailures results :=
  StableOrder.insertionSort_eq_of_perm (· ≤ ·) ((perm.filter _).map _)
    fun _ _ _ _ before after => le_antisymm before after

variable {R : Type} {forwarded : R} {reply : Client → Option (List (Option Collection))}
variable {clients order : List Client}

/-- Asking the origins, in the order of an iteration. -/
def resultsOf (reply : Client → Option (List (Option Collection))) (clients : List Client) :
    List OriginCollectionsResult :=
  clients.map fun client => client.result (reply client)

theorem handleGetCollections_of_several (several : clients.length ≠ 1) :
    handleGetCollections forwarded reply clients =
      (respondIfAllFailed (originFailures (resultsOf reply clients))
        (resultsOf reply clients).length).getD
          (.merged (mergeCollections (resultsOf reply clients))
            (originFailures (resultsOf reply clients))) :=
  if_neg several

theorem handleGetCollections_eq_of_agree (agree : Agree (resultsOf reply clients))
    (perm : order.Perm clients) :
    handleGetCollections forwarded reply order = handleGetCollections forwarded reply clients := by
  have results_perm : (resultsOf reply order).Perm (resultsOf reply clients) := perm.map _
  by_cases single : clients.length = 1
  · rw [handleGetCollections, handleGetCollections, perm.length_eq, if_pos single, if_pos single]
  · rw [handleGetCollections_of_several single,
      handleGetCollections_of_several (perm.length_eq ▸ single),
      mergeCollections_eq_of_agree agree results_perm, originFailures_eq_of_perm results_perm,
      results_perm.length_eq]

theorem agree_of_all_failed (down : ∀ client ∈ clients, reply client = none) :
    Agree (resultsOf reply clients) := by
  intro a ha b _ id left right left_copy _
  obtain ⟨client, member, rfl⟩ := List.mem_map.mp ha
  simp [OriginCollectionsResult.copy, OriginCollectionsResult.tagged, Client.result,
    down client member] at left_copy

theorem agree_of_single (single : clients.length = 1) : Agree (resultsOf reply clients) := by
  obtain ⟨client, rfl⟩ := List.length_eq_one_iff.mp single
  intro a ha b hb id left right left_copy right_copy
  have sole : ∀ result ∈ resultsOf reply [client], result = client.result (reply client) := by
    simp [resultsOf]
  rw [sole a ha] at left_copy
  rw [sole b hb, left_copy] at right_copy
  exact Option.some.inj right_copy

/-- With several origins, one of which answers, the body is what is merged. -/
theorem body_eq_merged (several : clients.length ≠ 1)
    (up : ¬ ∀ client ∈ clients, reply client = none) (perm : order.Perm clients) :
    (handleGetCollections forwarded reply order).body =
      .collections (mergeCollections (resultsOf reply order)) := by
  have some_up : (originFailures (resultsOf reply order)).length ≠
      (resultsOf reply order).length := by
    rw [originFailures, List.length_insertionSort, List.length_map, ne_eq,
      List.length_filter_eq_length_iff]
    intro all_failed
    refine up fun client member => ?_
    have failed := all_failed _ (List.mem_map_of_mem (perm.mem_iff.mpr member))
    cases answered : reply client with
    | none => rfl
    | some collections => simp [Client.result, answered] at failed
  have proceeds : respondIfAllFailed (R := R) (originFailures (resultsOf reply order))
      (resultsOf reply order).length = none := by
    simp [respondIfAllFailed, some_up]
  rw [handleGetCollections_of_several (perm.length_eq ▸ several), proceeds]
  rfl

theorem agree_of_body_eq
    (always : ∀ order, order.Perm clients → (handleGetCollections forwarded reply order).body =
      (handleGetCollections forwarded reply clients).body) :
    Agree (resultsOf reply clients) := by
  by_cases single : clients.length = 1
  · exact agree_of_single single
  by_cases down : ∀ client ∈ clients, reply client = none
  · exact agree_of_all_failed down
  apply agree_of_fronts
  intro result member
  obtain ⟨client, listed, rfl⟩ := List.mem_map.mp member
  obtain ⟨before, after, rfl⟩ := List.append_of_mem listed
  have same := always (client :: (before ++ after)) List.perm_middle.symm
  rw [body_eq_merged single down List.perm_middle.symm, body_eq_merged single down (List.Perm.refl _)]
    at same
  exact ⟨resultsOf reply (before ++ after), Body.collections.inj same⟩

/-- The merge gives one list for every order of its input, and the body of the response is the
same for every order of the origins, exactly if origins that share an ID have the same
collection under it. -/
theorem collections_order_iff {R : Type} (results : List OriginCollectionsResult) (forwarded : R)
    (reply : Client → Option (List (Option Collection))) (clients : List Client) :
    ((∀ arrived, arrived.Perm results →
      mergeCollections arrived = mergeCollections results) ↔ Agree results) ∧
    ((∀ order, order.Perm clients → (handleGetCollections forwarded reply order).body =
      (handleGetCollections forwarded reply clients).body) ↔ Agree (resultsOf reply clients)) := by
  constructor
  · constructor
    · intro always
      apply agree_of_fronts
      intro result member
      obtain ⟨before, after, rfl⟩ := List.append_of_mem member
      exact ⟨before ++ after, always _ List.perm_middle.symm⟩
    · intro agree arrived perm
      exact mergeCollections_eq_of_agree agree perm
  · constructor
    · exact agree_of_body_eq
    · intro agree order perm
      rw [handleGetCollections_eq_of_agree agree perm]

end Order

section Sample

def resultOf (origin id : String) : OriginCollectionsResult where
  originID := origin
  originURL := "https://" ++ origin ++ ".example.com"
  collections := [some ⟨id, [], []⟩, none]

/-- Origins without a collection in common are merged into one list in either order. -/
theorem disjoint_merged :
    mergeCollections [resultOf "b" "y", resultOf "a" "x"] =
      mergeCollections [resultOf "a" "x", resultOf "b" "y"] := by
  refine (collections_order_iff _ () (fun _ => none) []).1.mpr ?_ _ (List.Perm.swap ..)
  have copy_id : ∀ {origin own id left}, (resultOf origin own).copy id = some left →
      own = id := by
    intro origin own id left copy
    have found := List.find?_some copy
    have member := List.mem_of_find?_eq_some copy
    simp [OriginCollectionsResult.tagged, resultOf, addCollectionOriginLink] at member
    simpa [member] using found
  intro a ha b hb id left right left_copy right_copy
  simp only [List.mem_cons, List.not_mem_nil, or_false] at ha hb
  rcases ha with rfl | rfl <;> rcases hb with rfl | rfl
  · exact Option.some.inj (left_copy.symm.trans right_copy)
  · exact absurd ((copy_id left_copy).trans (copy_id right_copy).symm) (by decide)
  · exact absurd ((copy_id left_copy).trans (copy_id right_copy).symm) (by decide)
  · exact Option.some.inj (left_copy.symm.trans right_copy)

/-- The origins that the merged collections are linked to. -/
def homes (collections : List Collection) : List (String × List String) :=
  collections.map fun coll => (coll.id, coll.links.reduceOption.map (·.title))

def Body.homes : Body Unit → List (String × List String)
  | .collections listed => CollectionMerge.homes listed
  | _ => []

def sharing (id : String) : Client where
  id := id
  baseURL := "https://" ++ id ++ ".example.com"

/-- Of two origins with a collection of one ID, the one that happens to come first is listed. -/
theorem first_origin_listed :
    [resultOf "b" "x", resultOf "a" "x"].Perm [resultOf "a" "x", resultOf "b" "x"] ∧
    homes (mergeCollections [resultOf "a" "x", resultOf "b" "x"]) = [("x", ["a"])] ∧
    homes (mergeCollections [resultOf "b" "x", resultOf "a" "x"]) = [("x", ["b"])] ∧
    (handleGetCollections () (fun _ => some [some ⟨"x", [], []⟩])
      [sharing "a", sharing "b"]).body.homes = [("x", ["a"])] ∧
    (handleGetCollections () (fun _ => some [some ⟨"x", [], []⟩])
      [sharing "b", sharing "a"]).body.homes = [("x", ["b"])] :=
  ⟨List.Perm.swap .., by decide +kernel, by decide +kernel, by decide +kernel, by decide +kernel⟩

end Sample

end CollectionMerge
