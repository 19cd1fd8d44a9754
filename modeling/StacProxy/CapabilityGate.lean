import StacProxy.KeyedMap
import StacProxy.SearchEnforcement

/-!
# What the origins can do

At boot the proxy learns which origins implement the filter extension and its spatial functions:
from the configuration, or from the conformance classes an origin publishes. Filters are sent to
the origins only if all of them implement the extension, and the geofence is part of the filter
only if all of them know the spatial functions; otherwise the proxy filters by it itself. The
proxy publishes the classes that it and every origin that answers have in common.
-/

namespace CapabilityGate

open JsonValue SearchRequest Cql2Eval Geofence PolicyFilter AuthzMiddleware SearchEnforcement

section Classes

def filterExtensionConformance : List String :=
  ["https://api.stacspec.org/v1.0.0/item-search#filter",
    "https://api.stacspec.org/v1.0.0-rc.1/item-search#filter",
    "https://api.stacspec.org/v1.0.0-rc.2/item-search#filter",
    "http://www.opengis.net/spec/cql2/1.0/conf/cql2-text",
    "http://www.opengis.net/spec/cql2/1.0/conf/cql2-json",
    "http://www.opengis.net/spec/ogcapi-features-3/1.0/conf/filter",
    "https://api.stacspec.org/v1.0.0/collection-search#filter"]

def spatialFilterConformance : List String :=
  ["http://www.opengis.net/spec/cql2/1.0/conf/basic-spatial-functions",
    "http://www.opengis.net/spec/cql2/1.0/conf/basic-spatial-functions-plus",
    "http://www.opengis.net/spec/cql2/1.0/conf/spatial-functions",
    "http://www.opengis.net/spec/cql2/1.0/conf/basic-spatial-operators",
    "http://www.opengis.net/spec/cql2/1.0/conf/spatial-operators"]

def proxyConformanceCore : List String :=
  ["https://api.stacspec.org/v1.0.0/core",
    "https://api.stacspec.org/v1.0.0/collections",
    "https://api.stacspec.org/v1.0.0/ogcapi-features",
    "https://api.stacspec.org/v1.0.0/item-search",
    "http://www.opengis.net/spec/ogcapi-common-1/1.0/conf/core",
    "http://www.opengis.net/spec/ogcapi-common-2/1.0/conf/collections",
    "http://www.opengis.net/spec/ogcapi-features-1/1.0/conf/core",
    "http://www.opengis.net/spec/ogcapi-features-1/1.0/conf/geojson"]

def hasAny (classes wanted : List String) : Bool := classes.any fun c => wanted.any fun w => c == w

def hasFilterExtension (classes : List String) : Bool := hasAny classes filterExtensionConformance

def hasSpatialFunctions (classes : List String) : Bool := hasAny classes spatialFilterConformance

structure Capabilities where
  filter : Bool
  spatial : Bool
  deriving DecidableEq

/-- The configuration may assert a capability; `none` is a probe that failed. -/
def resolveOriginCapabilities (cfg : Capabilities) (probed : Option (List String)) : Capabilities :=
  if cfg.filter && cfg.spatial then ⟨true, true⟩
  else match probed with
    | none => cfg
    | some classes =>
      let filter := cfg.filter || hasFilterExtension classes
      ⟨filter, cfg.spatial || (filter && hasSpatialFunctions classes)⟩

/-- Whether all origins have a capability. Of no origins it is not assumed. -/
def all (origins : List Capabilities) (has : Capabilities → Bool) : Bool :=
  origins != [] && origins.all has

/-- What `buildAuthzHTTPMiddleware` configures for the enabled origins. -/
def buildAuthzHTTPMiddleware (cql2Enabled : Bool) (origins : List Capabilities) : HTTPConfig where
  allowAnonymous := true
  cql2InjectionEnabled := cql2Enabled
  filterExtensionCheck := some fun _ => all origins Capabilities.filter
  spatialFilterCheck := some fun _ => all origins Capabilities.spatial

structure ConformanceCaps where
  cql2InjectionEnabled : Bool
  allOriginsSupportFilter : Bool

def computeConformanceCaps (cql2Enabled : Bool) (origins : List Capabilities) : ConformanceCaps where
  cql2InjectionEnabled := cql2Enabled
  allOriginsSupportFilter := all origins Capabilities.filter

def proxyConformanceFor (caps : ConformanceCaps) : List String :=
  proxyConformanceCore ++
    if caps.cql2InjectionEnabled && caps.allOriginsSupportFilter then filterExtensionConformance else []

def sortStrings (classes : List String) : List String := classes.mergeSort fun a b => a ≤ b

/-- `stac.Intersect`: the maps of the source are sets of classes. -/
def intersect (proxy : List String) (origins : List (List String)) : List String :=
  if origins = [] then sortStrings proxy
  else
    let keep : Std.ExtTreeMap String Unit := proxy.foldl (fun keep c => keep.insert c ()) ∅
    (origins.foldl (fun keep set => keep.filter fun c _ => set.contains c) keep).keys

/-- What the landing page and `/conformance` say, from what the origins answered; `none` is an
origin that did not. -/
def advertisedConformance (caps : ConformanceCaps) (results : List (Option (List String))) :
    List String :=
  intersect (proxyConformanceFor caps) (results.filterMap id)

end Classes

/-! ## Enforcement from boot to the client -/

section Enforcement
variable {G : Type}

/-- An origin with what is known of it at boot. It reads filters in its own way, and answers a
search with items, as the handler passes them on. -/
structure Origin (G : Type) where
  asserted : Capabilities
  probed : Option (List String)
  reading : Library G
  answer : Request → List Members

def Origin.capabilities (o : Origin G) : Capabilities := resolveOriginCapabilities o.asserted o.probed

/-- What is asserted of the origin and what it publishes is true: it applies filters in its way of
reading them, and it reads spatial functions as the proxy does. -/
structure Origin.Truthful (lib : Library G) (cql2 : Cql2Library) (o : Origin G) : Prop where
  filters : o.asserted.filter = true ∨ o.probed.any hasFilterExtension = true →
    ∀ sent, ∀ item ∈ o.answer sent, Satisfies o.reading item (sentFilter cql2 sent)
  spatial : o.asserted.spatial = true ∨ o.probed.any hasSpatialFunctions = true → o.reading = lib

/-- The handler answers a search with items of the origins. -/
def Federates (unmarshal : Bytes → Option Json) (origins : List (Origin G))
    (next : Option Info → Response) : Prop :=
  ∀ info sent, info.searchReq = some sent → (next (some info)).succeeded = true ∧
    ∃ fc items, Collects unmarshal (next (some info)).body fc items ∧
      ∀ item ∈ items, ∃ o ∈ origins, item ∈ o.answer sent

/-- Where a capability comes from. -/
theorem Origin.capabilities_from (o : Origin G) :
    (o.capabilities.filter = true → o.asserted.filter = true ∨ o.probed.any hasFilterExtension = true) ∧
      (o.capabilities.spatial = true →
        o.asserted.spatial = true ∨ o.probed.any hasSpatialFunctions = true) := by
  unfold Origin.capabilities resolveOriginCapabilities
  split
  · rename_i both
    obtain ⟨filter, spatial⟩ := Bool.and_eq_true_iff.mp both
    exact ⟨fun _ => .inl filter, fun _ => .inl spatial⟩
  · cases o.probed with
    | none => exact ⟨.inl, .inl⟩
    | some classes =>
      refine ⟨Bool.or_eq_true_iff.mp, ?_⟩
      intro spatial
      exact (Bool.or_eq_true_iff.mp spatial).imp_right fun advertised =>
        (Bool.and_eq_true_iff.mp advertised).2

theorem of_all {origins : List (Origin G)} {has : Capabilities → Bool}
    (passes : all (origins.map Origin.capabilities) has = true) :
    ∀ o ∈ origins, has o.capabilities = true := by
  intro o member
  have each := (Bool.and_eq_true_iff.mp passes).2
  exact List.all_eq_true.mp each _ (List.mem_map_of_mem member)

/-- The items a client gets: where filters are sent, they satisfy the policy and the required
filters as their origin reads them. The geofence is met as the proxy reads it: by the filter if
every origin knows the spatial functions, and otherwise by its areas, as far as the proxy's own
filter goes; with a denied area only, that has to be switched on. -/
structure Enforced (lib : Library G) (cql2 : Cql2Library) (origins : List (Origin G)) (injected : Bool)
    (c : AuthzConstraints) (delivered : List Members) : Prop where
  policy : injected = true → all (origins.map Origin.capabilities) Capabilities.filter = true →
    ∀ item ∈ delivered, ∃ o ∈ origins, MeetsPolicy o.reading cql2 c item ∧
      MeetsRequired o.reading item cql2 c.requiredFilters
  geofence : ∀ g, c.geofence = some g →
    (given g.allowedArea ≠ none ∨ g.filterMode = true → ∀ item ∈ delivered, MeetsAreas lib g item) ∨
      ((∀ o ∈ origins, o.capabilities = ⟨true, true⟩) ∧
        ∀ item ∈ delivered, MeetsGeofence lib cql2 g item)

end Enforcement

/-! ## What is published -/

section Advertised
variable {proxy : List String}

theorem nodup_proxyConformanceFor (caps : ConformanceCaps) : (proxyConformanceFor caps).Nodup := by
  have longest : (proxyConformanceCore ++ filterExtensionConformance).Nodup := by decide +kernel
  unfold proxyConformanceFor
  split
  · exact longest
  · rw [List.append_nil]
    exact (List.nodup_append.mp longest).1

theorem sorted_sortStrings {classes : List String} (distinct : classes.Nodup) :
    (sortStrings classes).Pairwise (· < ·) := by
  have ordered : (sortStrings classes).Pairwise (fun a b => decide (a ≤ b) = true) :=
    List.pairwise_mergeSort (fun a b c ab bc => by simpa using le_trans (by simpa using ab) (by simpa using bc))
      (fun a b => by simpa using le_total a b) classes
  have apart : (sortStrings classes).Pairwise (· ≠ ·) :=
    (List.mergeSort_perm classes _).nodup_iff.mpr distinct
  exact (ordered.and apart).imp fun {a b} both => lt_of_le_of_ne (by simpa using both.1) both.2

/-- The loop over the origins leaves the classes that all of them have. -/
theorem mem_foldl_filter (keep : Std.ExtTreeMap String Unit) (origins : List (List String)) (c : String) :
    c ∈ origins.foldl (fun keep set => keep.filter fun c _ => set.contains c) keep ↔
      c ∈ keep ∧ ∀ set ∈ origins, c ∈ set := by
  induction origins generalizing keep with
  | nil => simp
  | cons first rest ih =>
    rw [List.foldl_cons, ih, Std.ExtTreeMap.mem_filter]
    simp [and_assoc]

theorem sorted_intersect (distinct : proxy.Nodup) (origins : List (List String)) :
    (intersect proxy origins).Pairwise (· < ·) := by
  unfold intersect
  split
  · exact sorted_sortStrings distinct
  · exact KeyedMap.keys_sorted _

theorem mem_intersect (proxy : List String) (origins : List (List String)) (c : String) :
    c ∈ intersect proxy origins ↔ c ∈ proxy ∧ ∀ set ∈ origins, c ∈ set := by
  unfold intersect
  split
  · rename_i none_answered
    rw [sortStrings, List.mem_mergeSort, none_answered]
    simp
  · rw [Std.ExtTreeMap.mem_keys, mem_foldl_filter, KeyedMap.mem_foldl_insert]
    simp

/-- Two ascending lists with the same members are the same. -/
theorem eq_of_sorted_of_mem {l l' : List String} (sorted : l.Pairwise (· < ·))
    (sorted' : l'.Pairwise (· < ·)) (same : ∀ c, c ∈ l ↔ c ∈ l') : l = l' := by
  have distinct : l.Nodup := sorted.imp ne_of_lt
  have distinct' : l'.Nodup := sorted'.imp ne_of_lt
  exact ((List.perm_ext_iff_of_nodup distinct distinct').mpr same).eq_of_pairwise
    (fun a b _ _ ab ba => absurd ab (lt_asymm ba)) sorted sorted'

end Advertised

section Samples

/-- An origin that publishes the filter extension and applies filters. -/
def publishing : Origin Box where
  asserted := ⟨false, false⟩
  probed := some ["http://www.opengis.net/spec/cql2/1.0/conf/cql2-text"]
  reading := boxLibrary
  answer sent := match sentFilter sampleCql2 sent with
    | some _ => [sampleItem "b"]
    | none => [sampleItem "c"]

theorem publishing_truthful : publishing.Truthful boxLibrary sampleCql2 where
  spatial _ := rfl
  filters _ sent item answered := by
    cases read : sentFilter sampleCql2 sent with
    | none => exact satisfies_none
    | some expr =>
      simp only [publishing, read, List.mem_singleton] at answered
      obtain rfl := sentFilter_sample read
      subst answered
      decide +kernel

theorem sampleNext_federates : Federates sampleUnmarshal [publishing] sampleNext := by
  intro info sent searches
  cases read : sentFilter sampleCql2 sent with
  | none =>
    simp only [sampleNext, searches, read, Option.bind_some]
    refine ⟨rfl, _, _, sample_collects (.inr rfl), ?_⟩
    intro item member
    exact ⟨publishing, List.mem_singleton.mpr rfl, by simpa [publishing, read] using member⟩
  | some expr =>
    simp only [sampleNext, searches, read, Option.bind_some]
    refine ⟨rfl, _, _, sample_collects (.inl rfl), ?_⟩
    intro item member
    exact ⟨publishing, List.mem_singleton.mpr rfl, by simpa [publishing, read] using member⟩

end Samples

section Results
variable {G : Type} {lib : Library G} {cql2 : Cql2Library} {unmarshal : Bytes → Option Json}

/-- The published classes are those of the proxy that every origin that answered publishes, in
ascending order, whatever the order of the origins; the more origins answer, the fewer. A class of
the filter extension is among them only if filters are injected and every origin that is enabled
was found to implement the extension. -/
theorem advertised_honest (injected : Bool) (origins : List Capabilities)
    (results : List (Option (List String))) :
    let caps := computeConformanceCaps injected origins
    (advertisedConformance caps results).Pairwise (· < ·) ∧
      (∀ c, c ∈ advertisedConformance caps results ↔
        c ∈ proxyConformanceFor caps ∧ ∀ set, some set ∈ results → c ∈ set) ∧
      (∀ other, results.Perm other →
        advertisedConformance caps other = advertisedConformance caps results) ∧
      (∀ more, advertisedConformance caps (results ++ more) ⊆ advertisedConformance caps results) ∧
      ∀ c ∈ filterExtensionConformance, c ∈ advertisedConformance caps results →
        injected = true ∧ origins ≠ [] ∧ ∀ o ∈ origins, o.filter = true := by
  intro caps
  have member : ∀ (results : List (Option (List String))) c, c ∈ advertisedConformance caps results ↔
      c ∈ proxyConformanceFor caps ∧ ∀ set, some set ∈ results → c ∈ set := by
    intro results c
    rw [advertisedConformance, mem_intersect]
    simp
  have sorted : ∀ results, (advertisedConformance caps results).Pairwise (· < ·) := fun results =>
    sorted_intersect (nodup_proxyConformanceFor caps) _
  refine ⟨sorted results, member results, ?_, ?_, ?_⟩
  · intro other reordered
    apply eq_of_sorted_of_mem (sorted other) (sorted results)
    intro c
    rw [member, member]
    simp only [reordered.mem_iff]
  · intro more c listed
    rw [member] at listed ⊢
    exact ⟨listed.1, fun set answered => listed.2 set (List.mem_append_left more answered)⟩
  · intro c filters listed
    obtain ⟨offered, -⟩ := (member results c).mp listed
    have apart : ∀ c ∈ filterExtensionConformance, c ∉ proxyConformanceCore := by decide +kernel
    rw [proxyConformanceFor] at offered
    split at offered
    · rename_i capable
      obtain ⟨enabled, supported⟩ := Bool.and_eq_true_iff.mp capable
      obtain ⟨some_origin, each⟩ := Bool.and_eq_true_iff.mp supported
      exact ⟨enabled, by simpa using some_origin, List.all_eq_true.mp each⟩
    · rw [List.append_nil] at offered
      exact absurd offered (apart c filters)

end Results

end CapabilityGate
