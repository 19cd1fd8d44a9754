import StacProxy.AuthzMiddleware

/-!
# Row-level constraints on searches

The upstream is assumed to honour the filter it is sent and to answer with a plain
FeatureCollection. What the client then gets depends on the two gates of the middleware:
whether the filter is injected, and whether the geofence is part of it.
-/

namespace SearchEnforcement

open JsonValue SearchRequest Cql2Eval Geofence PolicyFilter AuthzMiddleware

section Upstream
variable {G : Type} (lib : Library G) (cql2 : Cql2Library) (unmarshal : Bytes → Option Json)

/-- Every search is answered with features that satisfy the filter that was sent. -/
def HonoursFilters (next : Option Info → Response) : Prop :=
  ∀ (info : Info) (sent : Request), info.searchReq = some sent →
    (next (some info)).succeeded = true ∧
    ∃ fc items, Collects unmarshal (next (some info)).body fc items ∧
      ∀ item ∈ items, Satisfies lib item (sentFilter cql2 sent)

/-- The client gets a FeatureCollection with these features. -/
def Delivers : Payload → List Members → Prop
  | .raw body, items => ∃ fc, Collects unmarshal body fc items
  | .document fc, items => Members.get? fc "features" = some (.arr (items.map .obj))

/-- The geometry of the item is readable and meets the allowed area. -/
def MeetsAllowed (g : Constraint) (item : Members) : Prop :=
  ∃ area shape, parseGeoJSON lib g.allowedArea = some area ∧
    parseGeoJSON lib (member item g.geometryName) = some shape ∧ lib.intersects area shape = true

/-- What the proxy's own filter leaves of the geofence: the item has a readable geometry that meets
the allowed area and is not covered by the denied one. An area that is not set or cannot be read
does not count, and if the allowed area is set and cannot be read, neither does the other. -/
structure MeetsAreas (g : Constraint) (item : Members) : Prop where
  allowed : parseGeoJSON lib g.allowedArea ≠ none → MeetsAllowed lib g item
  denied : given g.allowedArea = none ∨ parseGeoJSON lib g.allowedArea ≠ none →
    ∀ area, parseGeoJSON lib g.deniedArea = some area →
      ∃ shape, parseGeoJSON lib (member item g.geometryName) = some shape ∧
        lib.contains area shape = false

/-- The item satisfies the predicate the geofence stands for. -/
def MeetsGeofence (g : Constraint) (item : Members) : Prop :=
  ∃ fence, geofenceToCQL2 cql2.parseGeometry g = .ok fence ∧ Satisfies lib item fence

/-- The item satisfies the policy filter, which parses. -/
def MeetsPolicy (c : AuthzConstraints) (item : Members) : Prop :=
  ∃ policy, parsePolicyCQL2 cql2 c = .ok policy ∧ Satisfies lib item policy

end Upstream

section PostFiltering
variable {G : Type} {lib : Library G} {unmarshal : Bytes → Option Json}
variable {c : AuthzConstraints} {r : Response} {fc : Members} {items : List Members}
variable {payload : Payload}

theorem meetsAreas_of_kept {g : Constraint} {item : Members}
    (kept : keepsFeature lib (parseGeoJSON lib g.allowedArea) (parseGeoJSON lib g.deniedArea)
      g.geometryName item) : MeetsAreas lib g item := by
  unfold keepsFeature at kept
  cases located : parseGeoJSON lib (member item g.geometryName) with
  | none => simp [located] at kept
  | some shape =>
    simp only [located, Bool.and_eq_true] at kept
    refine ⟨fun read => ?_, fun _ area denied => ⟨shape, located, ?_⟩⟩
    · obtain ⟨area, read⟩ := Option.ne_none_iff_exists'.mp read
      exact ⟨area, shape, read, located, by simpa [read] using kept.1⟩
    · simpa [denied] using kept.2

theorem delivers_withFeatures (collects : Collects unmarshal r.body fc items)
    (kept : List Members) : Delivers unmarshal (.document (withFeatures fc (kept.map .obj))) kept := by
  simp [Delivers, get?_features, collects.listed]

/-- Whatever the geofence, the filter delivers some of the features, and only those it leaves. -/
theorem filtered_delivers (collects : Collects unmarshal r.body fc items) (g : Constraint)
    (ok : (match filterByGeofence lib unmarshal r.body g with
      | .filtered fc => some (Payload.document fc)
      | .malformed => none
      | .notApplicable => some (.raw r.body)) = some payload) :
    ∃ delivered : List Members, Delivers unmarshal payload delivered ∧ delivered.Sublist items ∧
      ∀ item ∈ delivered, MeetsAreas lib g item := by
  have whole : Delivers unmarshal (.raw r.body) items := ⟨fc, collects⟩
  by_cases formed : given g.allowedArea ≠ none → parseGeoJSON lib g.allowedArea ≠ none
  · by_cases fenced : parseGeoJSON lib g.allowedArea ≠ none ∨ parseGeoJSON lib g.deniedArea ≠ none
    · rw [filterByGeofence_collects collects formed fenced] at ok
      obtain rfl := Option.some.inj ok
      exact ⟨_, delivers_withFeatures collects _, List.filter_sublist,
        fun item delivered => meetsAreas_of_kept (List.mem_filter.mp delivered).2⟩
    · rw [not_or, not_not, not_not] at fenced
      rw [filterByGeofence_eq collects, parseGeofenceAreas_eq formed, fenced.1, fenced.2] at ok
      obtain rfl := Option.some.inj ok
      refine ⟨items, whole, List.Sublist.refl _, fun item _ => ⟨absurd fenced.1, ?_⟩⟩
      intro _ area denied
      rw [fenced.2] at denied
      cases denied
  · rw [Classical.not_imp, not_not] at formed
    have unread : parseGeofenceAreas lib g = none := by
      obtain ⟨area, set⟩ := Option.ne_none_iff_exists'.mp formed.1
      simp [parseGeofenceAreas, set, ← eq_of_given set, formed.2]
    rw [filterByGeofence_eq collects, unread] at ok
    obtain rfl := Option.some.inj ok
    exact ⟨items, whole, List.Sublist.refl _, fun item _ => ⟨absurd formed.2,
      fun either => either.elim (absurd · formed.1) (absurd formed.2)⟩⟩

/-- The filter delivers some of the features, and where it applies, only those it leaves. -/
theorem postFilter_delivers (collects : Collects unmarshal r.body fc items)
    (ok : postFilter lib unmarshal c r = some payload) :
    ∃ delivered : List Members, Delivers unmarshal payload delivered ∧ delivered.Sublist items ∧
      ∀ g, c.geofence = some g → g.filterMode = true → c.geofencePushedDown = false →
        r.succeeded = true → ∀ item ∈ delivered, MeetsAreas lib g item := by
  have whole : Delivers unmarshal (.raw r.body) items := ⟨fc, collects⟩
  unfold postFilter at ok
  cases fenced : c.geofence with
  | none =>
    rw [fenced] at ok
    obtain rfl := Option.some.inj ok
    exact ⟨items, whole, List.Sublist.refl _, by simp⟩
  | some g =>
    simp only [fenced] at ok
    split at ok
    · obtain ⟨delivered, delivers, sublist, meets⟩ := filtered_delivers collects g ok
      refine ⟨delivered, delivers, sublist, ?_⟩
      rintro _ ⟨⟩ - - -
      exact meets
    · rename_i skipped
      obtain rfl := Option.some.inj ok
      refine ⟨items, whole, List.Sublist.refl _, ?_⟩
      rintro _ ⟨⟩ filters unpushed succeeded
      simp [filters, unpushed, succeeded] at skipped

end PostFiltering

section Enforcement
variable {G : Type} {lib : Library G} {cql2 : Cql2Library} {unmarshal : Bytes → Option Json}
variable {cfg : HTTPConfig} {c : AuthzConstraints} {sr : Request}

/-- The default mode changes neither the areas nor the property. -/
theorem geofenceToCQL2_defaultFilterMode (pushed : Bool) (g : Constraint) :
    geofenceToCQL2 cql2.parseGeometry (defaultFilterMode pushed g) =
      geofenceToCQL2 cql2.parseGeometry g := by
  unfold defaultFilterMode
  split <;> rfl

theorem meetsAreas_defaultFilterMode {pushed : Bool} {g : Constraint} {item : Members}
    (meets : MeetsAreas lib (defaultFilterMode pushed g) item) : MeetsAreas lib g item := by
  obtain ⟨allowed, denied⟩ := meets
  unfold defaultFilterMode at allowed denied
  split at allowed
  · rename_i defaults
    rw [if_pos defaults] at denied
    exact ⟨allowed, denied⟩
  · rename_i kept
    rw [if_neg kept] at denied
    exact ⟨allowed, denied⟩

theorem filterMode_defaultFilterMode {g : Constraint}
    (applies : given g.allowedArea ≠ none ∨ g.filterMode = true) :
    (defaultFilterMode false g).filterMode = true := by
  unfold defaultFilterMode
  cases mode : g.filterMode with
  | true => simp [mode]
  | false =>
    obtain ⟨area, set⟩ := Option.ne_none_iff_exists'.mp (applies.resolve_right (by simp [mode]))
    simp [set]

theorem fenceToPush_limited {g : Constraint} {spatial : Bool} (fenced : c.geofence = some g)
    (unpushed : c.geofencePushedDown = false) :
    fenceToPush cql2 { c with geofence := c.geofence.map (defaultFilterMode c.geofencePushedDown) }
      spatial = if spatial then geofenceToCQL2 cql2.parseGeometry g else .ok none := by
  cases spatial <;> simp [fenceToPush, fenced, unpushed, geofenceToCQL2_defaultFilterMode]

/-- The constraints after the request was prepared still filter by the areas, unless the geofence
was pushed down. -/
theorem meetsAreas_of_postFilter {after : AuthzConstraints} {r : Response} {g : Constraint}
    {delivered : List Members} (fenced : c.geofence = some g)
    (kept : after.geofence = c.geofence.map (defaultFilterMode false))
    (unpushed : after.geofencePushedDown = false) (succeeded : r.succeeded = true)
    (applies : given g.allowedArea ≠ none ∨ g.filterMode = true)
    (meets : ∀ g, after.geofence = some g → g.filterMode = true → after.geofencePushedDown = false →
      r.succeeded = true → ∀ item ∈ delivered, MeetsAreas lib g item) :
    ∀ item ∈ delivered, MeetsAreas lib g item := by
  intro item member
  apply @meetsAreas_defaultFilterMode _ lib false
  exact meets _ (by rw [kept, fenced]; rfl) (filterMode_defaultFilterMode applies) unpushed succeeded
    item member

theorem given_of_read {area : Json} (read : parseGeoJSON lib area ≠ none) : given area ≠ none :=
  fun absent => read (parseGeoJSON_of_absent absent)

/-- A search is refused, or what the client gets satisfies the policy filter and the required
filters if the filter is injected, the geofence if that is part of the filter, and otherwise
the allowed area if it can be read. -/
theorem search_enforced (roundTrips : cql2.RoundTrips) {authenticated : Bool}
    {decision : AuthzDecision} {info : Info} {next : Option Info → Response} {status : Nat}
    {header : List (String × String)} {payload : Payload}
    (constrained : decision.constraints = some c) (unpushed : c.geofencePushedDown = false)
    (searches : info.searchReq = some sr) (honours : HonoursFilters lib cql2 unmarshal next)
    (ok : serve lib cql2 unmarshal cfg authenticated (.ok decision) (some info) next =
      .forwarded status header payload) :
    ∃ narrowed limited, applyConstraints sr c = some (narrowed, limited) ∧
      ∃ delivered : List Members, Delivers unmarshal payload delivered ∧
        (cfg.injects { info with searchReq := some narrowed } = true → ∀ item ∈ delivered,
          MeetsPolicy lib cql2 c item ∧ MeetsRequired lib item cql2 c.requiredFilters) ∧
        ∀ g, c.geofence = some g →
          if cfg.injects { info with searchReq := some narrowed } &&
              cfg.spatialOK { info with searchReq := some narrowed } then
            ∀ item ∈ delivered, MeetsGeofence lib cql2 g item
          else parseGeoJSON lib g.allowedArea ≠ none →
            ∀ item ∈ delivered, MeetsAllowed lib g item := by
  obtain ⟨sentInfo, after, prepared, -, filtered⟩ :=
    serve_search_eq_forwarded constrained searches ok
  obtain ⟨narrowed, limited, applied, gates⟩ := prepare_eq_ok prepared
  obtain ⟨-, -, limited_eq⟩ := applyConstraints_eq_some applied
  refine ⟨narrowed, limited, applied, ?_⟩
  rcases gates with ⟨closed, rfl, rfl⟩ | ⟨opened, sent, injected, rfl⟩
  · obtain ⟨succeeded, fc, items, collects, -⟩ :=
      honours { info with searchReq := some narrowed } narrowed rfl
    obtain ⟨delivered, delivers, -, meets⟩ := postFilter_delivers collects filtered
    refine ⟨delivered, delivers, by simp [closed], fun g fenced => ?_⟩
    simp only [closed, Bool.false_and, Bool.false_eq_true, if_false]
    intro read item member
    exact (meetsAreas_of_postFilter fenced (by rw [limited_eq, unpushed])
      (by rw [limited_eq, unpushed]) succeeded (.inl (given_of_read read)) meets item member).allowed
      read
  · obtain ⟨succeeded, fc, items, collects, satisfied⟩ :=
      honours { info with searchReq := some sent } sent rfl
    obtain ⟨delivered, delivers, sublist, meets⟩ := postFilter_delivers collects filtered
    obtain ⟨user, policy, required, fence, -, policy_ok, required_ok, fence_ok, same_fence, marked,
      parts⟩ := satisfies_sentFilter roundTrips injected
    have each : ∀ item ∈ delivered, Satisfies lib item policy ∧ Satisfies lib item required ∧
        Satisfies lib item fence := fun item member =>
      ((parts lib item).mp (satisfied item (sublist.subset member))).2
    rw [limited_eq] at policy_ok required_ok fence_ok
    refine ⟨delivered, delivers, fun _ item member => ⟨⟨policy, policy_ok, (each item member).1⟩,
      (satisfies_required required_ok).mp (each item member).2.1⟩, fun g fenced => ?_⟩
    rw [fenceToPush_limited fenced unpushed] at fence_ok
    simp only [opened, Bool.true_and]
    split
    · rename_i spatial
      rw [if_pos spatial] at fence_ok
      exact fun item member => ⟨fence, fence_ok, (each item member).2.2⟩
    · rename_i nonspatial
      rw [if_neg nonspatial] at fence_ok
      obtain rfl : none = fence := Except.ok.inj fence_ok
      intro read item member
      exact (meetsAreas_of_postFilter fenced (by rw [same_fence, limited_eq, unpushed])
        (by rw [marked, limited_eq, unpushed]; rfl) succeeded (.inl (given_of_read read)) meets item
        member).allowed read

end Enforcement

section Sample

/-- A library that knows one expression. -/
def sampleCql2 : Cql2Library where
  parseGeometry := Json.asObject?
  parseText text := if text = "a = 'b'" then some (.op .eq [.prop "a", .str "b"]) else none
  parseJson _ := none
  encodeText
    | .op .eq [.prop "a", .str "b"] => some "a = 'b'"
    | _ => none
  encodeJson _ := none
  literal _ := .null

theorem sampleCql2_roundTrips : sampleCql2.RoundTrips where
  text {expr text} _ encoded := by
    simp only [sampleCql2] at encoded ⊢
    split at encoded
    · cases encoded
      exact ⟨rfl, rfl⟩
    · cases encoded
  json _ encoded := nomatch encoded

def sampleItem (value : String) : Members := [("a", .str value)]

def sampleCollection (value : String) : Members :=
  [("type", .str "FeatureCollection"), ("features", .arr [.obj (sampleItem value)])]

def sampleBody (value : String) : Bytes :=
  ("\x7b\"type\":\"FeatureCollection\",\"features\":[\x7b\"a\":\"" ++ value ++
    "\"\x7d]\x7d").toUTF8.data.toList

def sampleUnmarshal (body : Bytes) : Option Json :=
  if body = sampleBody "b" then some (.obj (sampleCollection "b"))
  else if body = sampleBody "c" then some (.obj (sampleCollection "c"))
  else none

/-- The upstream holds both items and applies the filter if there is one. -/
def sampleNext (info : Option Info) : Response :=
  match (info.bind Info.searchReq).bind (sentFilter sampleCql2) with
  | some _ => { status := 200, body := sampleBody "b" }
  | none => { status := 200, body := sampleBody "c" }

def samplePolicy : AuthzConstraints where
  cql2Filter := "a = 'b'"

def sampleDecision : AuthzDecision where
  allowed := true
  constraints := some samplePolicy

theorem sample_collects {value : String} (known : value = "b" ∨ value = "c") :
    Collects sampleUnmarshal (sampleBody value) (sampleCollection value) [sampleItem value] where
  nonempty := by rcases known with rfl | rfl <;> decide
  decodes := by
    rcases known with rfl | rfl
    · exact if_pos rfl
    · exact (if_neg (by decide)).trans (if_pos rfl)
  typed := rfl
  listed := rfl

/-- The one filter that the library of the sample knows. -/
theorem sentFilter_sample {sent : Request} {expr : Node} (read : sentFilter sampleCql2 sent = some expr) :
    expr = .op .eq [.prop "a", .str "b"] := by
  have parses : ∀ {text : String}, sampleCql2.parseText text = some expr →
      expr = .op .eq [.prop "a", .str "b"] := by
    intro text parsed
    simp only [sampleCql2] at parsed
    split at parsed
    · exact (Option.some.inj parsed).symm
    · cases parsed
  unfold sentFilter at read
  split at read
  · cases read
  · split at read
    · cases read
    · split at read
      · exact parses read
      · cases read

theorem sampleNext_honours : HonoursFilters boxLibrary sampleCql2 sampleUnmarshal sampleNext := by
  intro info sent searches
  cases read : sentFilter sampleCql2 sent with
  | none =>
    simp only [sampleNext, searches, read, Option.bind_some]
    exact ⟨rfl, _, _, sample_collects (.inr rfl), by simp [Satisfies]⟩
  | some expr =>
    simp only [sampleNext, searches, read, Option.bind_some]
    refine ⟨rfl, _, _, sample_collects (.inl rfl), ?_⟩
    intro item member
    obtain rfl := List.mem_singleton.mp member
    obtain rfl := sentFilter_sample read
    decide +kernel

/-- With the filter injected, the client gets the item that satisfies it. -/
theorem injected_policy_enforced :
    serve boxLibrary sampleCql2 sampleUnmarshal { cql2InjectionEnabled := true } true
      (.ok sampleDecision) (some { requestType := .search, searchReq := some {} }) sampleNext =
        .forwarded 200 [] (.raw (sampleBody "b")) ∧
    ∃ delivered : List Members, Delivers sampleUnmarshal (.raw (sampleBody "b")) delivered ∧
      ∀ item ∈ delivered, MeetsPolicy boxLibrary sampleCql2 samplePolicy item := by
  have served : serve boxLibrary sampleCql2 sampleUnmarshal { cql2InjectionEnabled := true } true
      (.ok sampleDecision) (some { requestType := .search, searchReq := some {} }) sampleNext =
        .forwarded 200 [] (.raw (sampleBody "b")) := rfl
  obtain ⟨_, _, _, delivered, delivers, meets, -⟩ := search_enforced sampleCql2_roundTrips rfl rfl
    rfl sampleNext_honours served
  exact ⟨served, delivered, delivers, fun item member => (meets rfl item member).1⟩

/-- With injection switched off, the client gets an item that the policy filter excludes. -/
theorem policy_ignored_without_injection :
    HonoursFilters boxLibrary sampleCql2 sampleUnmarshal sampleNext ∧
    serve boxLibrary sampleCql2 sampleUnmarshal { cql2InjectionEnabled := false } true
      (.ok sampleDecision) (some { requestType := .search, searchReq := some {} }) sampleNext =
        .forwarded 200 [] (.raw (sampleBody "c")) ∧
    Delivers sampleUnmarshal (.raw (sampleBody "c")) [sampleItem "c"] ∧
    ¬ MeetsPolicy boxLibrary sampleCql2 samplePolicy (sampleItem "c") := by
  refine ⟨sampleNext_honours, rfl, ⟨_, sample_collects (.inr rfl)⟩, ?_⟩
  rintro ⟨policy, parsed, satisfied⟩
  obtain rfl : some (.op .eq [.prop "a", .str "b"]) = policy := Except.ok.inj parsed
  exact absurd (satisfied _ rfl) (by decide +kernel)

end Sample

end SearchEnforcement
