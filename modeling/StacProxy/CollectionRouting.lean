import Mathlib.Data.List.Induction
import Mathlib.Data.List.Nodup
import Mathlib.Data.List.Perm.Basic
import Mathlib.Logic.Function.Basic
import StacProxy.KeyedMap

/-!
# Routing a request to origins

The part of an origin's configuration that says which collections it serves and under
which names, and the `CollectionRouter` built from it. A Go string is a list of bytes:
prefixes are cut off by length in bytes.
-/

namespace CollectionRouting

abbrev Name := List UInt8

structure Origin where
  id : String
  baseURL : String
  enabled : Bool := true
  searchable : Bool := false
  collections : List Name := []
  excludeCollections : List Name := []
  /-- Lower is preferred. -/
  priority : Int := 0
  collectionPrefix : Name := []
  /-- A Go map as the list of its entries. -/
  collectionMapping : List (Name × Name) := []
  deriving DecidableEq, Repr

/-- The name an origin's mapping gives to a collection. -/
def mappedName (o : Origin) (coll : Name) : Name :=
  (o.collectionMapping.lookup coll).getD coll

/-- A name without the prefix, if it has the prefix and something after it. -/
def stripPrefix (pre name : Name) : Name :=
  if pre <+: name ∧ pre.length < name.length then name.drop pre.length else name

/-- The name an origin knows a federated collection by. -/
def originName (o : Origin) (coll : Name) : Name :=
  stripPrefix o.collectionPrefix (mappedName o coll)

structure Router where
  collectionToOrigins : Name → List Origin
  allOrigins : List Origin
  implicitAllOrigins : List Origin

def newCollectionRouter : Router where
  collectionToOrigins := fun _ => []
  allOrigins := []
  implicitAllOrigins := []

def registerCollection (o : Origin) (table : Name → List Origin) (collID : Name) :
    Name → List Origin :=
  let fullID := o.collectionPrefix ++ collID
  Function.update table fullID (table fullID ++ [o])

def register (r : Router) (o : Origin) : Router :=
  let all := if o.searchable ∨ o.collections ≠ [] then r.allOrigins ++ [o] else r.allOrigins
  { allOrigins := all
    collectionToOrigins := o.collections.foldl (registerCollection o) r.collectionToOrigins
    implicitAllOrigins := all.filter fun o => o.collections = [] }

/-- The origins found for each requested collection in turn. -/
def candidates (r : Router) (collections : List Name) : List Origin :=
  collections.flatMap fun collID =>
    (r.collectionToOrigins collID).filter (·.enabled) ++
      r.implicitAllOrigins.filter fun o => o.enabled ∧ collID ∉ o.excludeCollections

/-- `Route`; a Go map of origins is listed in an unspecified order, here by ID. -/
def route (r : Router) (collections : List Name) : List Origin :=
  if collections = [] then r.allOrigins.filter fun o => o.enabled ∧ o.searchable
  else
    let originSet : Std.ExtTreeMap String Origin :=
      (candidates r collections).foldl (fun m o => m.insert o.id o) ∅
    originSet.toList.map (·.2)

section Registered
variable {origins : List Origin} {o : Origin}

def routerOf (origins : List Origin) : Router :=
  origins.foldl register newCollectionRouter

theorem routerOf_concat (origins : List Origin) (last : Origin) :
    routerOf (origins ++ [last]) = register (routerOf origins) last := by
  simp [routerOf]

theorem mem_foldl_registerCollection {collections : List Name} {table : Name → List Origin}
    {w : Origin} {coll : Name} :
    o ∈ collections.foldl (registerCollection w) table coll ↔
      o ∈ table coll ∨ o = w ∧ ∃ collID ∈ collections, w.collectionPrefix ++ collID = coll := by
  induction collections generalizing table with
  | nil => simp
  | cons first rest ih =>
    rw [List.foldl_cons, ih, registerCollection]
    by_cases here : w.collectionPrefix ++ first = coll
    · simp only [here, Function.update_self, List.mem_append, List.mem_singleton]
      constructor
      · rintro ((old | same) | ⟨same, _⟩)
        · exact Or.inl old
        · exact Or.inr ⟨same, first, List.mem_cons_self, here⟩
        · exact Or.inr ⟨same, first, List.mem_cons_self, here⟩
      · rintro (old | ⟨same, _⟩)
        · exact Or.inl (Or.inl old)
        · exact Or.inl (Or.inr same)
    · simp [Function.update_of_ne (Ne.symm here), here]

theorem mem_allOrigins :
    o ∈ (routerOf origins).allOrigins ↔ o ∈ origins ∧ (o.searchable ∨ o.collections ≠ []) := by
  induction origins using List.reverseRecOn with
  | nil => simp [routerOf, newCollectionRouter]
  | append_singleton front last ih =>
    rw [routerOf_concat, register]
    split
    · rename_i listed
      simp only [List.mem_append, List.mem_singleton, ih]
      constructor
      · rintro (⟨old, served⟩ | rfl)
        · exact ⟨Or.inl old, served⟩
        · exact ⟨Or.inr rfl, listed⟩
      · rintro ⟨old | rfl, served⟩
        · exact Or.inl ⟨old, served⟩
        · exact Or.inr rfl
    · rename_i unlisted
      simp only [List.mem_append, List.mem_singleton, ih]
      constructor
      · rintro ⟨old, served⟩
        exact ⟨Or.inl old, served⟩
      · rintro ⟨old | rfl, served⟩
        · exact ⟨old, served⟩
        · exact absurd served unlisted

theorem mem_collectionToOrigins {coll : Name} :
    o ∈ (routerOf origins).collectionToOrigins coll ↔
      o ∈ origins ∧ ∃ collID ∈ o.collections, o.collectionPrefix ++ collID = coll := by
  induction origins using List.reverseRecOn with
  | nil => simp [routerOf, newCollectionRouter]
  | append_singleton front last ih =>
    rw [routerOf_concat, register, mem_foldl_registerCollection, ih]
    constructor
    · rintro (⟨old, listed⟩ | ⟨rfl, listed⟩)
      · exact ⟨List.mem_append_left _ old, listed⟩
      · exact ⟨List.mem_append_right _ (List.mem_singleton_self o), listed⟩
    · rintro ⟨member, listed⟩
      rcases List.mem_append.mp member with old | here
      · exact Or.inl ⟨old, listed⟩
      · obtain rfl := List.mem_singleton.mp here
        exact Or.inr ⟨rfl, listed⟩

theorem implicitAllOrigins_eq :
    (routerOf origins).implicitAllOrigins =
      (routerOf origins).allOrigins.filter fun o => o.collections = [] := by
  induction origins using List.reverseRecOn with
  | nil => rfl
  | append_singleton front last _ => rw [routerOf_concat, register]

theorem allOrigins_sublist : (routerOf origins).allOrigins.Sublist origins := by
  induction origins using List.reverseRecOn with
  | nil => exact List.Sublist.slnil
  | append_singleton front last ih =>
    rw [routerOf_concat, register]
    split
    · exact ih.append_right [last]
    · exact ih.trans (List.sublist_append_left front [last])

end Registered

/-- An origin is to be asked for a request: it lists a requested collection, or lists none and
does not exclude one of those requested. A request without collections goes to every
searchable origin. -/
def Answers (o : Origin) (collections : List Name) : Prop :=
  if collections = [] then o.searchable
  else ∃ coll ∈ collections,
    (∃ collID ∈ o.collections, o.collectionPrefix ++ collID = coll) ∨
      o.collections = [] ∧ o.searchable ∧ coll ∉ o.excludeCollections

instance (o : Origin) (collections : List Name) : Decidable (Answers o collections) := by
  unfold Answers
  infer_instance

theorem mem_candidates {origins : List Origin} {o : Origin} {collections : List Name}
    (asked : collections ≠ []) :
    o ∈ candidates (routerOf origins) collections ↔
      o ∈ origins ∧ o.enabled ∧ Answers o collections := by
  simp only [candidates, List.mem_flatMap, List.mem_append, List.mem_filter,
    mem_collectionToOrigins, implicitAllOrigins_eq, mem_allOrigins, Answers, if_neg asked,
    decide_eq_true_eq]
  constructor
  · rintro ⟨coll, requested, ⟨⟨member, listed⟩, on⟩ | ⟨⟨⟨member, served⟩, unlisted⟩, on, open_⟩⟩
    · exact ⟨member, on, coll, requested, Or.inl listed⟩
    · exact ⟨member, on, coll, requested,
        Or.inr ⟨unlisted, served.resolve_right (absurd unlisted), open_⟩⟩
  · rintro ⟨member, on, coll, requested, listed | ⟨unlisted, searchable, open_⟩⟩
    · exact ⟨coll, requested, Or.inl ⟨⟨member, listed⟩, on⟩⟩
    · exact ⟨coll, requested, Or.inr ⟨⟨⟨member, Or.inl searchable⟩, unlisted⟩, on, open_⟩⟩

section ById
variable {listed : List Origin} {o : Origin}

/-- With one origin per ID, collecting origins by ID keeps each of them. -/
theorem mem_map_foldl_insert (distinct : ∀ a ∈ listed, ∀ b ∈ listed, a.id = b.id → a = b) :
    o ∈ (listed.foldl (fun (m : Std.ExtTreeMap String Origin) o => m.insert o.id o) ∅).toList.map
      (·.2) ↔ o ∈ listed := by
  simp only [List.mem_map, Prod.exists, exists_eq_right,
    Std.ExtTreeMap.mem_toList_iff_getElem?_eq_some, KeyedMap.getElem?_eq_some_iff distinct]
  constructor
  · rintro ⟨id, a, member, -, rfl⟩
    exact member
  · intro member
    exact ⟨o.id, o, member, rfl, rfl⟩

theorem map_foldl_insert_nodup :
    (((listed.foldl (fun (m : Std.ExtTreeMap String Origin) o => m.insert o.id o) ∅).toList.map
      (·.2)).map (·.id)).Nodup := by
  rw [List.map_map]
  generalize collected :
    listed.foldl (fun (m : Std.ExtTreeMap String Origin) o => m.insert o.id o) ∅ = m
  have keyed : m.toList.map ((·.id) ∘ Prod.snd) = m.toList.map Prod.fst := by
    apply List.map_congr_left
    rintro ⟨id, o⟩ entry
    have found := Std.ExtTreeMap.mem_toList_iff_getElem?_eq_some.mp entry
    rw [← collected, KeyedMap.getElem?_foldl_insert] at found
    have found : listed.reverse.find? (·.id = id) = some o := by simpa using found
    simpa using List.find?_some found
  rw [keyed, Std.ExtTreeMap.map_fst_toList_eq_keys]
  exact Std.ExtTreeMap.nodup_keys

end ById

section Routed
variable {origins : List Origin} (unique : (origins.map (·.id)).Nodup)

include unique in
theorem mem_route {o : Origin} {collections : List Name} :
    o ∈ route (routerOf origins) collections ↔
      o ∈ origins ∧ o.enabled ∧ Answers o collections := by
  rw [route]
  split
  · rename_i all
    simp only [List.mem_filter, mem_allOrigins, Answers, if_pos all, decide_eq_true_eq]
    constructor
    · rintro ⟨⟨member, _⟩, on, searchable⟩
      exact ⟨member, on, searchable⟩
    · rintro ⟨member, on, searchable⟩
      exact ⟨⟨member, Or.inl searchable⟩, on, searchable⟩
  · rename_i asked
    rw [mem_map_foldl_insert, mem_candidates asked]
    intro a ha b hb same
    exact List.inj_on_of_nodup_map unique ((mem_candidates asked).mp ha).1
      ((mem_candidates asked).mp hb).1 same

include unique in
theorem route_nodup (collections : List Name) :
    ((route (routerOf origins) collections).map (·.id)).Nodup := by
  rw [route]
  split
  · exact unique.sublist ((List.filter_sublist.trans allOrigins_sublist).map _)
  · exact map_foldl_insert_nodup

end Routed

end CollectionRouting
