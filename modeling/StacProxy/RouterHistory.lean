import StacProxy.CollectionRouting

/-!
# The router over its history

Origins are registered, and discovery replaces the collections a registered origin is listed
under. What the router holds after any sequence of these calls is told from the sequence:
which origins it knows, and which list of collections of an origin is the current one.
-/

namespace RouterHistory

open CollectionRouting

/-- Only origins that the router knows are updated, and an origin without a configured list
stays among those that may serve any collection. -/
def updateFromDiscovery (r : Router) (originID : String) (collections : List Name) : Router :=
  match r.allOrigins.find? (·.id = originID) with
  | none => r
  | some origin =>
    { r with
      collectionToOrigins := collections.foldl (registerCollection origin)
        fun collID => (r.collectionToOrigins collID).filter (·.id ≠ originID) }

inductive Call where
  | register (origin : Origin)
  | updateFromDiscovery (originID : String) (collections : List Name)
  deriving DecidableEq

def step (r : Router) : Call → Router
  | .register origin => register r origin
  | .updateFromDiscovery originID collections => updateFromDiscovery r originID collections

def routerAfter (calls : List Call) : Router := calls.foldl step newCollectionRouter

theorem routerAfter_concat (calls : List Call) (last : Call) :
    routerAfter (calls ++ [last]) = step (routerAfter calls) last := by
  simp [routerAfter]

section History

def Call.registered? : Call → Option Origin
  | .register origin => some origin
  | .updateFromDiscovery _ _ => none

def Call.discovered? (id : String) : Call → Option (List Name)
  | .register _ => none
  | .updateFromDiscovery originID collections => if originID = id then some collections else none

/-- The registered origins, in the order of their registration. -/
def registered (calls : List Call) : List Origin := calls.filterMap Call.registered?

/-- The calls after the registration of an origin. -/
def since (o : Origin) (calls : List Call) : List Call :=
  (calls.dropWhile (· ≠ .register o)).tail

def lastDiscovered (id : String) (calls : List Call) : Option (List Name) :=
  calls.reverse.findSome? (Call.discovered? id)

/-- The last list discovered for an origin since its registration, or else its configured one. -/
def currentList (calls : List Call) (o : Origin) : List Name :=
  (lastDiscovered o.id (since o calls)).getD o.collections

/-- The router takes an origin up if it can be searched or has a configured list. -/
def Routable (o : Origin) : Prop := o.searchable ∨ o.collections ≠ []

instance (o : Origin) : Decidable (Routable o) := inferInstanceAs (Decidable (_ ∨ _))

variable {calls : List Call} {o : Origin}

theorem mem_registered : o ∈ registered calls ↔ Call.register o ∈ calls := by
  simp only [registered, List.mem_filterMap]
  constructor
  · rintro ⟨call, member, taken⟩
    cases call with
    | register w =>
      obtain rfl : w = o := by simpa [Call.registered?] using taken
      exact member
    | updateFromDiscovery id collections => cases taken
  · intro member
    exact ⟨.register o, member, rfl⟩

theorem registered_concat (calls : List Call) (last : Call) :
    registered (calls ++ [last]) = registered calls ++ last.registered?.toList := by
  cases last <;> simp [registered, Call.registered?]

theorem registered_discovery (calls : List Call) (id : String) (collections : List Name) :
    registered (calls ++ [.updateFromDiscovery id collections]) = registered calls := by
  rw [registered_concat]
  exact List.append_nil _

theorem since_concat (known : o ∈ registered calls) (last : Call) :
    since o (calls ++ [last]) = since o calls ++ [last] := by
  obtain ⟨before, after, rfl, absent⟩ :=
    List.eq_append_cons_of_mem (mem_registered.mp known)
  have skipped : ∀ call ∈ before, decide (call ≠ .register o) = true := by
    intro call member
    have other : call ≠ .register o := by
      rintro rfl
      exact absent member
    simpa using other
  rw [since, since, List.append_assoc, List.dropWhile_append_of_pos skipped,
    List.dropWhile_append_of_pos skipped]
  simp

theorem since_register (fresh : o ∉ registered calls) :
    since o (calls ++ [.register o]) = [] := by
  have skipped : ∀ call ∈ calls, decide (call ≠ .register o) = true := by
    intro call member
    have other : call ≠ .register o := by
      rintro rfl
      exact fresh (mem_registered.mpr member)
    simpa using other
  rw [since, List.dropWhile_append_of_pos skipped]
  simp

theorem lastDiscovered_concat (id : String) (calls : List Call) (last : Call) :
    lastDiscovered id (calls ++ [last]) =
      (last.discovered? id).or (lastDiscovered id calls) := by
  simp only [lastDiscovered, List.reverse_append, List.reverse_singleton, List.singleton_append,
    List.findSome?_cons]
  cases last.discovered? id <;> rfl

/-- A call changes the current list of a registered origin only by discovering another. -/
theorem currentList_concat (known : o ∈ registered calls) (last : Call) :
    currentList (calls ++ [last]) o = (last.discovered? o.id).getD (currentList calls o) := by
  rw [currentList, since_concat known, lastDiscovered_concat, currentList]
  cases last.discovered? o.id <;> rfl

theorem currentList_register (fresh : o ∉ registered calls) :
    currentList (calls ++ [.register o]) o = o.collections := by
  rw [currentList, since_register fresh]
  rfl

end History

section Invariant

/-- What the tables of a router are after a sequence of calls. -/
structure Tracks (calls : List Call) (r : Router) : Prop where
  all : r.allOrigins = (registered calls).filter fun o => Routable o
  implicit : r.implicitAllOrigins = r.allOrigins.filter fun o => o.collections = []
  table : ∀ (o : Origin) (coll : Name), o ∈ r.collectionToOrigins coll ↔
    o ∈ r.allOrigins ∧ ∃ collID ∈ currentList calls o, o.collectionPrefix ++ collID = coll

variable {calls : List Call} {r : Router}

theorem tracks_nil : Tracks [] newCollectionRouter where
  all := rfl
  implicit := rfl
  table := by simp [newCollectionRouter]

theorem Tracks.mem_all (tracks : Tracks calls r) {o : Origin} :
    o ∈ r.allOrigins ↔ o ∈ registered calls ∧ Routable o := by
  rw [tracks.all, List.mem_filter, decide_eq_true_eq]

theorem Tracks.register (tracks : Tracks calls r) {w : Origin} (fresh : w ∉ registered calls) :
    Tracks (calls ++ [.register w]) (register r w) where
  all := by
    rw [registered_concat, List.filter_append, ← tracks.all]
    by_cases routable : Routable w
    · have listed : w.searchable ∨ w.collections ≠ [] := routable
      simp [CollectionRouting.register, Call.registered?, routable, listed]
    · have unlisted : ¬ (w.searchable ∨ w.collections ≠ []) := routable
      simp only [CollectionRouting.register, if_neg unlisted]
      simp [Call.registered?, routable]
  implicit := rfl
  table := by
    intro o coll
    have all_eq : o ∈ (CollectionRouting.register r w).allOrigins ↔
        o ∈ r.allOrigins ∨ o = w ∧ Routable w := by
      by_cases routable : w.searchable ∨ w.collections ≠ []
      · simp [CollectionRouting.register, routable, Routable]
      · simp [CollectionRouting.register, routable, Routable]
    have old : o ∈ r.allOrigins → currentList (calls ++ [.register w]) o = currentList calls o :=
      fun member => currentList_concat (tracks.mem_all.mp member).1 _
    rw [all_eq, CollectionRouting.register, mem_foldl_registerCollection, tracks.table]
    constructor
    · rintro (⟨member, collID, current, named⟩ | ⟨rfl, collID, listed, named⟩)
      · exact ⟨.inl member, collID, (old member).symm ▸ current, named⟩
      · refine ⟨.inr ⟨rfl, .inr (List.ne_nil_of_mem listed)⟩, collID, ?_, named⟩
        rw [currentList_register fresh]
        exact listed
    · rintro ⟨member | ⟨rfl, -⟩, collID, current, named⟩
      · exact .inl ⟨member, collID, old member ▸ current, named⟩
      · rw [currentList_register fresh] at current
        exact .inr ⟨rfl, collID, current, named⟩

/-- Discovery for an origin that the router does not know changes no list. -/
theorem Tracks.ignore (tracks : Tracks calls r) {id : String} (collections : List Name)
    (unknown : ∀ o ∈ r.allOrigins, o.id ≠ id) :
    Tracks (calls ++ [.updateFromDiscovery id collections]) r where
  all := by
    rw [registered_discovery, tracks.all]
  implicit := tracks.implicit
  table := by
    intro o coll
    rw [tracks.table]
    refine and_congr_right fun member => ?_
    have other : id ≠ o.id := fun same => unknown o member same.symm
    rw [currentList_concat (tracks.mem_all.mp member).1, Call.discovered?, if_neg other]
    rfl

/-- Ids are unique, so discovery replaces the list of the one origin that has the id. -/
theorem currentList_discovery (unique : ((registered calls).map (·.id)).Nodup) {o w : Origin}
    (member : o ∈ registered calls) (known : w ∈ registered calls) (collections : List Name) :
    currentList (calls ++ [.updateFromDiscovery w.id collections]) o =
      if o = w then collections else currentList calls o := by
  rw [currentList_concat member, Call.discovered?]
  by_cases mine : o = w
  · simp [mine]
  · have apart : w.id ≠ o.id :=
      fun same => mine (List.inj_on_of_nodup_map unique member known same.symm)
    rw [if_neg apart, if_neg mine]
    rfl

theorem Tracks.discover (tracks : Tracks calls r) (unique : ((registered calls).map (·.id)).Nodup)
    {w : Origin} (known : w ∈ r.allOrigins) (collections : List Name) :
    Tracks (calls ++ [.updateFromDiscovery w.id collections])
      { r with
        collectionToOrigins := collections.foldl (registerCollection w)
          fun collID => (r.collectionToOrigins collID).filter (·.id ≠ w.id) } where
  all := by
    rw [registered_discovery, tracks.all]
  implicit := tracks.implicit
  table := by
    intro o coll
    simp only [mem_foldl_registerCollection, List.mem_filter, decide_eq_true_eq, tracks.table]
    have current : o ∈ r.allOrigins →
        currentList (calls ++ [.updateFromDiscovery w.id collections]) o =
          if o = w then collections else currentList calls o :=
      fun member => currentList_discovery unique (tracks.mem_all.mp member).1
        (tracks.mem_all.mp known).1 collections
    constructor
    · rintro (⟨⟨member, listed⟩, other⟩ | ⟨rfl, listed⟩)
      · have apart : o ≠ w := by
          rintro rfl
          exact other rfl
        refine ⟨member, ?_⟩
        rwa [current member, if_neg apart]
      · refine ⟨known, ?_⟩
        rwa [current known, if_pos rfl]
    · rintro ⟨member, listed⟩
      rw [current member] at listed
      split at listed
      · rename_i mine
        exact .inr ⟨mine, mine ▸ listed⟩
      · rename_i other
        have apart : o.id ≠ w.id := fun same => other (List.inj_on_of_nodup_map unique
          (tracks.mem_all.mp member).1 (tracks.mem_all.mp known).1 same)
        exact .inl ⟨⟨member, listed⟩, apart⟩

theorem nodup_of_concat {last : Call}
    (unique : ((registered (calls ++ [last])).map (·.id)).Nodup) :
    ((registered calls).map (·.id)).Nodup := by
  rw [registered_concat, List.map_append] at unique
  exact (List.nodup_append.mp unique).1

theorem Tracks.step (tracks : Tracks calls r) {last : Call}
    (unique : ((registered (calls ++ [last])).map (·.id)).Nodup) :
    Tracks (calls ++ [last]) (step r last) := by
  cases last with
  | register w =>
    apply tracks.register
    intro again
    rw [registered_concat, List.map_append] at unique
    exact (List.nodup_append.mp unique).2.2 w.id (List.mem_map_of_mem again) w.id
      (by simp [Call.registered?]) rfl
  | updateFromDiscovery id collections =>
    simp only [RouterHistory.step, updateFromDiscovery]
    split
    · rename_i missing
      apply tracks.ignore
      intro o member
      simpa using List.find?_eq_none.mp missing o member
    · rename_i w found
      obtain rfl : w.id = id := by simpa using List.find?_some found
      exact tracks.discover (nodup_of_concat unique) (List.mem_of_find?_eq_some found) collections

theorem tracks_routerAfter (unique : ((registered calls).map (·.id)).Nodup) :
    Tracks calls (routerAfter calls) := by
  induction calls using List.reverseRecOn with
  | nil => exact tracks_nil
  | append_singleton front last ih =>
    rw [routerAfter_concat]
    exact (ih (nodup_of_concat unique)).step unique

end Invariant

section Routing
variable {calls : List Call} {o : Origin} {collections : List Name}

/-- An origin is asked for one of the collections: its current list has the collection, or it
has no configured list and does not exclude the collection. -/
def Serves (calls : List Call) (o : Origin) (collections : List Name) : Prop :=
  ∃ coll ∈ collections,
    (∃ collID ∈ currentList calls o, o.collectionPrefix ++ collID = coll) ∨
      o.collections = [] ∧ coll ∉ o.excludeCollections

instance (calls : List Call) (o : Origin) (collections : List Name) :
    Decidable (Serves calls o collections) :=
  decidable_of_iff (∃ coll ∈ collections,
    (∃ collID ∈ currentList calls o, o.collectionPrefix ++ collID = coll) ∨
      o.collections = [] ∧ ∀ excluded ∈ o.excludeCollections, ¬ coll = excluded) <| by
    simp only [Serves, List.forall_mem_ne]

section Unique
variable (unique : ((registered calls).map (·.id)).Nodup)

include unique in
theorem mem_candidates_after :
    o ∈ candidates (routerAfter calls) collections ↔
      o ∈ registered calls ∧ Routable o ∧ o.enabled ∧ Serves calls o collections := by
  have tracks := tracks_routerAfter unique
  simp only [candidates, List.mem_flatMap, List.mem_append, List.mem_filter, tracks.table,
    tracks.implicit, tracks.mem_all, Serves, decide_eq_true_eq]
  constructor
  · rintro ⟨coll, asked, ⟨⟨known, listed⟩, on⟩ | ⟨⟨known, unlisted⟩, on, open_⟩⟩
    · exact ⟨known.1, known.2, on, coll, asked, .inl listed⟩
    · exact ⟨known.1, known.2, on, coll, asked, .inr ⟨unlisted, open_⟩⟩
  · rintro ⟨known, routable, on, coll, asked, listed | ⟨unlisted, open_⟩⟩
    · exact ⟨coll, asked, .inl ⟨⟨⟨known, routable⟩, listed⟩, on⟩⟩
    · exact ⟨coll, asked, .inr ⟨⟨⟨known, routable⟩, unlisted⟩, on, open_⟩⟩

include unique in
theorem mem_route_after : o ∈ route (routerAfter calls) collections ↔
    if collections = [] then o ∈ registered calls ∧ o.enabled ∧ o.searchable
    else o ∈ registered calls ∧ Routable o ∧ o.enabled ∧ Serves calls o collections := by
  rw [route]
  split
  · simp only [List.mem_filter, (tracks_routerAfter unique).mem_all, decide_eq_true_eq]
    constructor
    · rintro ⟨⟨known, -⟩, on, searchable⟩
      exact ⟨known, on, searchable⟩
    · rintro ⟨known, on, searchable⟩
      exact ⟨⟨known, .inl searchable⟩, on, searchable⟩
  · rw [mem_map_foldl_insert, mem_candidates_after unique]
    intro a ha b hb same
    exact List.inj_on_of_nodup_map unique ((mem_candidates_after unique).mp ha).1
      ((mem_candidates_after unique).mp hb).1 same

include unique in
theorem route_after_nodup (collections : List Name) :
    ((route (routerAfter calls) collections).map (·.id)).Nodup := by
  rw [route]
  split
  · rw [(tracks_routerAfter unique).all]
    exact unique.sublist ((List.filter_sublist.trans List.filter_sublist).map _)
  · exact map_foldl_insert_nodup

include unique in
theorem implicitAllOrigins_after : (routerAfter calls).implicitAllOrigins =
    (registered calls).filter fun o => Routable o ∧ o.collections = [] := by
  have tracks := tracks_routerAfter unique
  rw [tracks.implicit, tracks.all, List.filter_filter]
  apply List.filter_congr
  intro o _
  simp [Bool.and_comm]

end Unique

/-- After any sequence of calls that registers origins with distinct IDs, a request is routed to
each of the origins that its collections call for once, and to no other. -/
theorem route_after_calls (calls : List Call) (unique : ((registered calls).map (·.id)).Nodup)
    (collections : List Name) :
    ((route (routerAfter calls) collections).map (·.id)).Nodup ∧
      (∀ o, o ∈ route (routerAfter calls) collections ↔
        if collections = [] then o ∈ registered calls ∧ o.enabled ∧ o.searchable
        else o ∈ registered calls ∧ Routable o ∧ o.enabled ∧ Serves calls o collections) ∧
      (routerAfter calls).implicitAllOrigins =
        (registered calls).filter fun o => Routable o ∧ o.collections = [] :=
  ⟨route_after_nodup unique collections, fun _ => mem_route_after unique,
    implicitAllOrigins_after unique⟩

/-- An origin with a list, and one that is searched for everything but one collection. -/
def listing : Origin where
  id := "a"
  baseURL := "https://api.example.com"
  collections := [[120]]
  collectionPrefix := [97, 45]

def searched : Origin where
  id := "b"
  baseURL := "https://stac.example.com"
  searchable := true
  excludeCollections := [[97, 45, 120]]

def discovering : List Call :=
  [.register listing, .updateFromDiscovery "a" [[121]], .register searched]

/-- Discovery takes the place of the configured list, and an origin without one stays open to
what it does not exclude. -/
theorem discovered_route : ((registered discovering).map (·.id)).Nodup ∧
    listing ∈ route (routerAfter discovering) [[97, 45, 121]] ∧
    searched ∈ route (routerAfter discovering) [[97, 45, 121]] ∧
    listing ∉ route (routerAfter discovering) [[97, 45, 120]] ∧
    searched ∉ route (routerAfter discovering) [[97, 45, 120]] := by
  have unique : ((registered discovering).map (·.id)).Nodup := by decide
  obtain ⟨-, found, -⟩ := route_after_calls discovering unique [[97, 45, 121]]
  obtain ⟨-, missed, -⟩ := route_after_calls discovering unique [[97, 45, 120]]
  exact ⟨unique, (found _).mpr (by decide), (found _).mpr (by decide),
    fun routed => absurd ((missed _).mp routed) (by decide),
    fun routed => absurd ((missed _).mp routed) (by decide)⟩

end Routing

section Excluded
variable {calls : List Call} {o : Origin} {r : Router} {collections : List Name} {coll : Name}

/-- Every name that an origin was ever to be listed under, without its prefix. -/
def namesFor (calls : List Call) (o : Origin) : List Name :=
  o.collections ++ (calls.filterMap (Call.discovered? o.id)).flatten

theorem namesFor_concat (calls : List Call) (last : Call) (o : Origin) :
    namesFor (calls ++ [last]) o = namesFor calls o ++ (last.discovered? o.id).getD [] := by
  cases found : last.discovered? o.id <;> simp [namesFor, found]

/-- Whatever IDs are registered, the table lists an origin only under its names. -/
theorem named_of_mem_table (listed : o ∈ (routerAfter calls).collectionToOrigins coll) :
    ∃ collID ∈ namesFor calls o, o.collectionPrefix ++ collID = coll := by
  induction calls using List.reverseRecOn with
  | nil => simp [routerAfter, newCollectionRouter] at listed
  | append_singleton front last ih =>
    rw [routerAfter_concat] at listed
    simp only [namesFor_concat, List.mem_append]
    have old : o ∈ (routerAfter front).collectionToOrigins coll →
        ∃ collID, (collID ∈ namesFor front o ∨ collID ∈ (last.discovered? o.id).getD []) ∧
          o.collectionPrefix ++ collID = coll := by
      intro before
      obtain ⟨collID, named, full⟩ := ih before
      exact ⟨collID, .inl named, full⟩
    cases last with
    | register w =>
      rw [step, register, mem_foldl_registerCollection] at listed
      rcases listed with before | ⟨rfl, collID, configured, full⟩
      · exact old before
      · exact ⟨collID, .inl (List.mem_append_left _ configured), full⟩
    | updateFromDiscovery id discovered =>
      simp only [step, updateFromDiscovery] at listed
      split at listed
      · exact old listed
      · rename_i w found
        have mine : w.id = id := by simpa using List.find?_some found
        rw [mem_foldl_registerCollection, List.mem_filter] at listed
        rcases listed with ⟨before, -⟩ | ⟨rfl, collID, member, full⟩
        · exact old before
        · exact ⟨collID, .inr (by simpa [Call.discovered?, mine] using member), full⟩

theorem mem_candidates_of_mem_route (asked : collections ≠ []) (routed : o ∈ route r collections) :
    o ∈ candidates r collections := by
  rw [route, if_neg asked] at routed
  obtain ⟨⟨id, w⟩, entry, rfl⟩ := List.mem_map.mp routed
  have found := Std.ExtTreeMap.mem_toList_iff_getElem?_eq_some.mp entry
  rw [KeyedMap.getElem?_foldl_insert, Std.ExtTreeMap.getElem?_empty, Option.or_none,
    Option.map_eq_some_iff] at found
  obtain ⟨last, found, rfl⟩ := found
  exact List.mem_reverse.mp (List.mem_of_find?_eq_some found)

/-- The way to be routed for excluded collections is to be listed under one of them. -/
theorem mem_table_of_mem_candidates (excluded : ∀ coll ∈ collections, coll ∈ o.excludeCollections)
    (candidate : o ∈ candidates r collections) :
    ∃ coll ∈ collections, o ∈ r.collectionToOrigins coll := by
  obtain ⟨coll, asked, found⟩ := List.mem_flatMap.mp candidate
  rcases List.mem_append.mp found with explicit | implicit
  · exact ⟨coll, asked, List.mem_of_mem_filter explicit⟩
  · have open_ := (List.mem_filter.mp implicit).2
    simp [excluded coll asked] at open_

/-- An origin is not routed for collections that it excludes unless it was listed under one of
them. A configured list, as long as no discovery replaces it, does count for more than the
exclusion. -/
theorem excluded_unless_listed (calls : List Call) (o : Origin) (collections : List Name)
    (asked : collections ≠ []) (excluded : ∀ coll ∈ collections, coll ∈ o.excludeCollections) :
    ((∀ coll ∈ collections, ∀ collID ∈ namesFor calls o, o.collectionPrefix ++ collID ≠ coll) →
      o ∉ route (routerAfter calls) collections) ∧
    (((registered calls).map (·.id)).Nodup → o ∈ registered calls → o.enabled →
      lastDiscovered o.id (since o calls) = none →
      (o ∈ route (routerAfter calls) collections ↔
        ∃ coll ∈ collections, ∃ collID ∈ o.collections, o.collectionPrefix ++ collID = coll)) := by
  constructor
  · intro unlisted routed
    obtain ⟨coll, member, listed⟩ := mem_table_of_mem_candidates excluded
      (mem_candidates_of_mem_route asked routed)
    obtain ⟨collID, named, full⟩ := named_of_mem_table listed
    exact unlisted coll member collID named full
  · intro unique known on undiscovered
    have configured : currentList calls o = o.collections := by
      rw [currentList, undiscovered]
      rfl
    rw [mem_route_after unique, if_neg asked, Serves, configured]
    constructor
    · rintro ⟨-, -, -, coll, member, listed | ⟨-, open_⟩⟩
      · exact ⟨coll, member, listed⟩
      · exact absurd (excluded coll member) open_
    · rintro ⟨coll, member, collID, listed, full⟩
      exact ⟨known, .inr (List.ne_nil_of_mem listed), on, coll, member, .inl ⟨collID, listed, full⟩⟩

def restricted : Origin where
  id := "c"
  baseURL := "https://data.example.com"
  collections := [[120]]
  excludeCollections := [[120], [121]]

/-- The configured list of an origin is asked first, its exclusions are not. -/
theorem configured_list_wins :
    restricted ∉ route (routerAfter [.register restricted]) [[121]] ∧
    restricted ∈ route (routerAfter [.register restricted]) [[121], [120]] :=
  ⟨(excluded_unless_listed [.register restricted] restricted [[121]] (by decide) (by decide)).1
      (by decide),
    ((excluded_unless_listed [.register restricted] restricted [[121], [120]] (by decide)
      (by decide)).2 (by decide) (by decide) rfl (by decide)).mpr (by decide)⟩

/-- An excluded collection is routed to an origin whose configured list has it, and to one for
which it is discovered. -/
theorem excluded_routed :
    [120] ∈ restricted.excludeCollections ∧
    restricted ∈ route (routerAfter [.register restricted]) [[120]] ∧
    [97, 45, 120] ∈ searched.excludeCollections ∧
    searched ∉ route (routerAfter [.register searched]) [[97, 45, 120]] ∧
    searched ∈ route (routerAfter [.register searched,
      .updateFromDiscovery "b" [[97, 45, 120]]]) [[97, 45, 120]] := by
  decide

end Excluded

end RouterHistory
