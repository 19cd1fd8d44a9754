import StacProxy.KeyedMap
import StacProxy.PolicyFilter
import StacProxy.StableOrder

/-!
# A constrained search narrows the search

The filter that is installed on a search asks for what the client, the policy, the geofence and
the required filters each ask for. The required filters are a Go map, which is visited in any
order; their keys are sorted first. Push-down marks the constraints that it returns, so that a
geofence goes into the filter once.
-/

namespace SearchNarrowing

open JsonValue SearchRequest Cql2Eval Geofence PolicyFilter

section Visiting
variable (cql2 : Cql2Library)

/-- `requiredFiltersToCQL2` on the keys in the order of an iteration over the map. A key that the
map does not have reads as nil. -/
def requiredFiltersVisiting (rf : Std.ExtTreeMap String Json) (keys : List String) :
    Except PolicyError (Option Node) :=
  (requiredClauses cql2 ((keys.insertionSort (· ≤ ·)).map fun key => (key, rf.getD key .null))).map
    fun parts => andNonNil (parts.map some)

variable {cql2} {rf : Std.ExtTreeMap String Json} {keys : List String}

theorem toList_eq_map_keys (rf : Std.ExtTreeMap String Json) :
    rf.toList = rf.keys.map fun key => (key, rf.getD key .null) := by
  rw [← Std.ExtTreeMap.map_fst_toList_eq_keys, List.map_map]
  conv_lhs => rw [← List.map_id rf.toList]
  apply List.map_congr_left
  rintro ⟨key, value⟩ entry
  have found := Std.ExtTreeMap.mem_toList_iff_getElem?_eq_some.mp entry
  simp [Std.ExtTreeMap.getD_eq_getD_getElem?, found]

theorem requiredFiltersVisiting_eq (visits : keys.Perm rf.keys) :
    requiredFiltersVisiting cql2 rf keys = requiredFiltersToCQL2 cql2 rf := by
  have sorted : keys.insertionSort (· ≤ ·) = rf.keys := by
    rw [StableOrder.insertionSort_eq_of_perm _ visits fun _ _ _ _ => le_antisymm]
    exact ((KeyedMap.keys_sorted rf).imp le_of_lt).insertionSort_eq
  rw [requiredFiltersVisiting, sorted, ← toList_eq_map_keys, requiredFiltersToCQL2]

end Visiting

section PushDown

/-- The predicate of the geofence, whether or not it is pushed down. -/
def geofencePredicate (cql2 : Cql2Library) (c : AuthzConstraints) :
    Except AreaError (Option Node) :=
  match c.geofence with
  | none => .ok none
  | some g => geofenceToCQL2 cql2.parseGeometry g

/-- The mark is set by push-down only. -/
def Marked (cql2 : Cql2Library) (c : AuthzConstraints) : Prop :=
  c.geofencePushedDown = true →
    ∃ before spatialSupported, maybePushDownGeofence cql2 before spatialSupported = .ok (c, true)

/-- What push-down puts into the filter: nothing without spatial support or a second time. -/
def pushable (c : AuthzConstraints) (spatialSupported : Bool) (fence : Option Node) : Option Node :=
  if c.geofencePushedDown || !spatialSupported then none else fence

/-- The encoder takes the expression, if there is one. -/
def Encodes (cql2 : Cql2Library) (lang : String) (expr : Option Node) : Prop :=
  ∀ e ∈ expr, (encodeForLang cql2 e lang).isSome

variable {cql2 : Cql2Library} {c updated : AuthzConstraints} {spatial : Bool}
variable {policy fence : Option Node}

theorem fenceToPush_of_predicate (built : geofencePredicate cql2 c = .ok fence) :
    fenceToPush cql2 c spatial = .ok (pushable c spatial fence) := by
  unfold fenceToPush pushable
  unfold geofencePredicate at built
  cases fenced : c.geofence with
  | none =>
    simp only [fenced] at built
    cases built
    simp only [ite_self]
  | some g =>
    simp only [fenced] at built
    simp only [built]
    split <;> rfl

theorem andNonNil_pair_none (expr : Option Node) : andNonNil [expr, none] = expr := by
  cases expr <;> rfl

/-- If the parts parse and the result can be encoded, push-down succeeds, and the policy filter
then is the original one and the fence. -/
theorem exists_pushDown (roundTrips : cql2.RoundTrips)
    (policy_ok : parsePolicyCQL2 cql2 c = .ok policy)
    (fence_ok : fenceToPush cql2 c spatial = .ok fence)
    (encodes : Encodes cql2 "cql2-text" (andNonNil [policy, fence])) :
    ∃ updated, maybePushDownGeofence cql2 c spatial = .ok (updated, fence.isSome) ∧
      parsePolicyCQL2 cql2 updated = .ok (andNonNil [policy, fence]) := by
  cases fence with
  | none =>
    refine ⟨c, maybePushDownGeofence_of_none fence_ok, ?_⟩
    rw [andNonNil_pair_none, policy_ok]
  | some fence =>
    cases joined : andNonNil [policy, some fence] with
    | none => simpa using andNonNil_eq_none.mp joined (some fence) (by simp)
    | some combined =>
      have makes := pushed_makes policy_ok fence_ok joined
      have accepted : (cql2.encodeText combined).isSome := by
        simpa [encodeForLang] using encodes combined joined
      obtain ⟨text, encoded⟩ := Option.isSome_iff_exists.mp accepted
      exact ⟨_, maybePushDownGeofence_of_some fence_ok policy_ok joined encoded,
        parsePolicyCQL2_encoded roundTrips makes encoded c⟩

theorem maybePushDownGeofence_of_marked (marked : c.geofencePushedDown = true) (spatial : Bool) :
    maybePushDownGeofence cql2 c spatial = .ok (c, false) := by
  apply maybePushDownGeofence_of_none
  unfold fenceToPush
  cases c.geofence with
  | none => rfl
  | some g => simp [marked]

/-- Push-down does nothing on constraints that it has returned. -/
theorem maybePushDownGeofence_again {pushed : Bool}
    (ok : maybePushDownGeofence cql2 c spatial = .ok (updated, pushed)) :
    maybePushDownGeofence cql2 updated spatial = .ok (updated, false) := by
  rcases maybePushDownGeofence_eq_ok ok with ⟨rfl, rfl, -⟩ | ⟨_, _, _, _, -, -, -, -, -, rfl⟩
  · exact ok
  · exact maybePushDownGeofence_of_marked rfl spatial

/-- The policy filter of marked constraints asks for the fence. -/
theorem satisfies_fence_of_marked {G : Type} {lib : Library G} {item : Members}
    (roundTrips : cql2.RoundTrips) (origin : Marked cql2 c)
    (marked : c.geofencePushedDown = true) (policy_ok : parsePolicyCQL2 cql2 c = .ok policy)
    (fence_ok : geofencePredicate cql2 c = .ok fence) (satisfied : Satisfies lib item policy) :
    Satisfies lib item fence := by
  obtain ⟨before, supported, pushes⟩ := origin marked
  obtain ⟨original, pushed, -, pushed_ok, some_pushed, both⟩ :=
    parsePolicyCQL2_pushed roundTrips pushes policy_ok
  have same_fence : geofencePredicate cql2 before = .ok fence := by
    rw [← fence_ok, geofencePredicate, geofencePredicate, (maybePushDownGeofence_frame pushes).1]
  rw [fenceToPush_of_predicate same_fence] at pushed_ok
  have pushed_eq : pushed = fence := by
    rw [← Except.ok.inj pushed_ok] at some_pushed ⊢
    unfold pushable at some_pushed ⊢
    split at some_pushed
    · cases some_pushed
    · rename_i tried
      rw [if_neg tried]
  rw [← pushed_eq]
  exact ((both lib item).mp satisfied).2

end PushDown

section Injection
variable {cql2 : Cql2Library} {sr : Request} {c : AuthzConstraints} {spatial : Bool}
variable {user policy fence required : Option Node}

theorem exists_inject (roundTrips : cql2.RoundTrips)
    (user_ok : parseUserCQL2 cql2 sr.filter = .ok user)
    (policy_ok : parsePolicyCQL2 cql2 c = .ok policy)
    (fence_ok : fenceToPush cql2 c spatial = .ok fence)
    (required_ok : requiredFiltersToCQL2 cql2 c.requiredFilters = .ok required)
    (policy_encodes : Encodes cql2 "cql2-text" (andNonNil [policy, fence]))
    (merged_encodes :
      Encodes cql2 (langOf sr) (andNonNil [user, andNonNil [policy, fence], required])) :
    ∃ sent updated, injectCQL2Filter cql2 sr c spatial = .ok (sent, updated) ∧
      maybePushDownGeofence cql2 c spatial = .ok (updated, fence.isSome) := by
  obtain ⟨updated, pushes, parses⟩ := exists_pushDown roundTrips policy_ok fence_ok policy_encodes
  have required_same := (maybePushDownGeofence_frame pushes).2.1
  cases joined : andNonNil [user, andNonNil [policy, fence], required] with
  | none =>
    refine ⟨sr, updated, ?_, pushes⟩
    simp [injectCQL2Filter, pushes, parses, required_same, required_ok, user_ok, joined,
      Except.mapError, bind, Except.bind, pure, Except.pure]
  | some merged =>
    obtain ⟨encoded, encodes⟩ := Option.isSome_iff_exists.mp (merged_encodes merged joined)
    rw [langOf] at encodes
    refine ⟨{ sr with filter := some encoded, filterLang := langOf sr }, updated, ?_, pushes⟩
    simp [injectCQL2Filter, pushes, parses, required_same, required_ok, user_ok, joined, encodes,
      langOf, Except.mapError, bind, Except.bind, pure, Except.pure]

/-- What the installed filter asks for. -/
theorem satisfies_installed {sent : Request} {updated : AuthzConstraints}
    (roundTrips : cql2.RoundTrips) (origin : Marked cql2 c)
    (user_ok : parseUserCQL2 cql2 sr.filter = .ok user)
    (policy_ok : parsePolicyCQL2 cql2 c = .ok policy)
    (fence_ok : geofencePredicate cql2 c = .ok fence)
    (ok : injectCQL2Filter cql2 sr c spatial = .ok (sent, updated)) {G : Type} (lib : Library G)
    (item : Members) :
    Satisfies lib item (sentFilter cql2 sent) ↔ Satisfies lib item user ∧
      Satisfies lib item policy ∧ (spatial = true → Satisfies lib item fence) ∧
      MeetsRequired lib item cql2 c.requiredFilters := by
  obtain ⟨user', policy', required, pushed, user_ok', policy_ok', required_ok, pushed_ok, -, -,
    sent_iff⟩ := satisfies_sentFilter roundTrips ok
  obtain rfl : user = user' := Except.ok.inj (user_ok ▸ user_ok')
  obtain rfl : policy = policy' := Except.ok.inj (policy_ok ▸ policy_ok')
  obtain rfl : pushable c spatial fence = pushed :=
    Except.ok.inj (fenceToPush_of_predicate fence_ok ▸ pushed_ok)
  rw [sent_iff, satisfies_required required_ok]
  have fence_iff : Satisfies lib item policy → (Satisfies lib item (pushable c spatial fence) ↔
      (spatial = true → Satisfies lib item fence)) := by
    intro satisfied
    cases supported : spatial with
    | false => simp [pushable]
    | true =>
      cases marked : c.geofencePushedDown with
      | false => simp [pushable, marked]
      | true =>
        simp [pushable, marked,
          satisfies_fence_of_marked roundTrips origin marked policy_ok fence_ok satisfied]
  constructor
  · rintro ⟨of_user, of_policy, of_required, of_fence⟩
    exact ⟨of_user, of_policy, (fence_iff of_policy).mp of_fence, of_required⟩
  · rintro ⟨of_user, of_policy, of_fence, of_required⟩
    exact ⟨of_user, of_policy, of_required, (fence_iff of_policy).mpr of_fence⟩

/-- Parts that parse are all in the filter that is installed. Neither the order in which the
required filters are visited nor another push-down changes anything. -/
theorem search_narrowed (roundTrips : cql2.RoundTrips) (origin : Marked cql2 c)
    (user_ok : parseUserCQL2 cql2 sr.filter = .ok user)
    (policy_ok : parsePolicyCQL2 cql2 c = .ok policy)
    (fence_ok : geofencePredicate cql2 c = .ok fence)
    (required_ok : requiredFiltersToCQL2 cql2 c.requiredFilters = .ok required)
    (policy_encodes :
      Encodes cql2 "cql2-text" (andNonNil [policy, pushable c spatial fence]))
    (merged_encodes : Encodes cql2 (langOf sr)
      (andNonNil [user, andNonNil [policy, pushable c spatial fence], required])) :
    ∃ sent updated, injectCQL2Filter cql2 sr c spatial = .ok (sent, updated) ∧
      (∀ {G : Type} (lib : Library G) (item : Members),
        Satisfies lib item (sentFilter cql2 sent) ↔ Satisfies lib item user ∧
          Satisfies lib item policy ∧ (spatial = true → Satisfies lib item fence) ∧
          MeetsRequired lib item cql2 c.requiredFilters) ∧
      (∀ keys, keys.Perm c.requiredFilters.keys →
        requiredFiltersVisiting cql2 c.requiredFilters keys =
          requiredFiltersToCQL2 cql2 c.requiredFilters) ∧
      maybePushDownGeofence cql2 updated spatial = .ok (updated, false) ∧
      (updated.geofencePushedDown = true → ∀ again,
        maybePushDownGeofence cql2 updated again = .ok (updated, false)) := by
  obtain ⟨sent, updated, ok, pushes⟩ := exists_inject roundTrips user_ok policy_ok
    (fenceToPush_of_predicate fence_ok) required_ok policy_encodes merged_encodes
  refine ⟨sent, updated, ok, fun lib item => ?_, fun keys visits => ?_, ?_, fun marked again => ?_⟩
  · exact satisfies_installed roundTrips origin user_ok policy_ok fence_ok ok lib item
  · exact requiredFiltersVisiting_eq visits
  · exact maybePushDownGeofence_again pushes
  · exact maybePushDownGeofence_of_marked marked again

end Injection

section Sample

def asked : Node := .op .eq [.prop "a", .str "b"]

def fenced : Node := sIntersects "geometry" []

def unowned : Node := .op .isNull [.prop "owner"]

/-- A library that knows three expressions. -/
def threeCql2 : Cql2Library where
  parseGeometry := Json.asObject?
  parseText text :=
    [("asked", asked), ("fenced", fenced), ("all", .op .and [asked, fenced, unowned])].lookup text
  parseJson _ := none
  encodeText
    | .op .eq [.prop "a", .str "b"] => some "asked"
    | .op .sIntersects [.prop "geometry", .geom []] => some "fenced"
    | .op .and [.op .eq [.prop "a", .str "b"], .op .sIntersects [.prop "geometry", .geom []],
        .op .isNull [.prop "owner"]] => some "all"
    | _ => none
  encodeJson _ := none
  literal _ := .null

theorem threeCql2_roundTrips : threeCql2.RoundTrips where
  text {expr text} _ encoded := by
    simp only [threeCql2] at encoded ⊢
    split at encoded
    · cases encoded
      exact ⟨rfl, rfl⟩
    · cases encoded
      exact ⟨rfl, rfl⟩
    · cases encoded
      exact ⟨rfl, rfl⟩
    · cases encoded
  json _ encoded := nomatch encoded

def fencedPolicy : AuthzConstraints where
  geofence := some { allowedArea := .obj [] }
  requiredFilters := (∅ : Std.ExtTreeMap String Json).insert "owner" .null

/-- Every object is a geometry, and all geometries meet. -/
def unitLibrary : Library Unit where
  parseFloat _ := none
  parseObject _ := some ()
  intersects _ _ := true
  contains _ _ := true

/-- The filter of the client, the fence and a required filter are joined, and an item that meets
all three satisfies the result. -/
theorem fenced_search_narrowed : ∃ sent updated,
    injectCQL2Filter threeCql2 { filter := some (.str "asked") } fencedPolicy true =
      .ok (sent, updated) ∧
    Satisfies unitLibrary [("a", .str "b"), ("geometry", .obj [])] (sentFilter threeCql2 sent) ∧
    maybePushDownGeofence threeCql2 updated true = .ok (updated, false) := by
  have required_ok : requiredFiltersToCQL2 threeCql2 fencedPolicy.requiredFilters =
      .ok (some unowned) := rfl
  have unmarked : Marked threeCql2 fencedPolicy := nofun
  have policy_encodes : Encodes threeCql2 "cql2-text" (some fenced) := by
    rintro _ ⟨⟩
    rfl
  have merged_encodes : Encodes threeCql2 "cql2-text"
      (some (.op .and [asked, fenced, unowned])) := by
    rintro _ ⟨⟩
    rfl
  obtain ⟨sent, updated, ok, narrowed, -, again, -⟩ := @search_narrowed threeCql2
    { filter := some (.str "asked") } fencedPolicy true (some asked) none (some fenced)
    (some unowned) threeCql2_roundTrips unmarked rfl rfl rfl required_ok policy_encodes
    merged_encodes
  refine ⟨sent, updated, ok, (narrowed unitLibrary _).mpr ⟨?_, ?_, ?_, ?_⟩, again⟩
  · decide +kernel
  · decide +kernel
  · decide +kernel
  · rw [← satisfies_required required_ok]
    decide +kernel

end Sample

end SearchNarrowing
