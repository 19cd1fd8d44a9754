import Mathlib.Data.List.Infix
import StacProxy.Cql2Eval

/-!
# Geofences

A geofence is enforced in one of two ways: pushed down as a CQL2 predicate, or by filtering
the features of the response. The filter works on the response body; decoding a body and
parsing a CQL2 geometry literal are parameters.
-/

namespace Geofence

open JsonValue Cql2Eval

abbrev Bytes := List UInt8

/-- `GeofenceConstraint`. An area that is not set is null. -/
structure Constraint where
  allowedArea : Json := .null
  deniedArea : Json := .null
  filterMode : Bool := false
  geometryProperty : String := ""

/-- The item member that holds the geometry. -/
def Constraint.geometryName (g : Constraint) : String :=
  if g.geometryProperty = "" then "geometry" else g.geometryProperty

/-- The value, unless it is nil. -/
def given : Json → Option Json
  | .null => none
  | value => some value

section PushDown

def andNonNil (exprs : List (Option Node)) : Option Node :=
  match exprs.filterMap id with
  | [] => none
  | [expr] => some expr
  | several => some (.op .and several)

/-- The area that does not parse as GeoJSON. -/
inductive AreaError where
  | allowedArea
  | deniedArea
  deriving DecidableEq, Repr

variable (parseGeometry : Json → Option Members)

/-- The predicate for one area, if the area is set. -/
def areaPredicate (build : Members → Node) (ill : AreaError) (area : Json) :
    Except AreaError (Option Node) :=
  match given area with
  | none => .ok none
  | some value => match parseGeometry value with
    | none => .error ill
    | some literal => .ok (some (build literal))

def sIntersects (name : String) (literal : Members) : Node :=
  .op .sIntersects [.prop name, .geom literal]

def geofenceToCQL2 (g : Constraint) : Except AreaError (Option Node) := do
  let allowed ← areaPredicate parseGeometry (sIntersects g.geometryName) .allowedArea g.allowedArea
  let denied ← areaPredicate parseGeometry
    (fun literal => .op .not [sIntersects g.geometryName literal]) .deniedArea g.deniedArea
  pure (andNonNil [allowed, denied])

end PushDown

section PostFilter
variable {G : Type} (lib : Library G) (unmarshal : Bytes → Option Json)

/-- Both areas, nil where not set. Only an ill-formed allowed area is an error. -/
def parseGeofenceAreas (g : Constraint) : Option (Option G × Option G) :=
  let denied := (given g.deniedArea).bind (parseGeoJSON lib)
  match given g.allowedArea with
  | none => some (none, denied)
  | some area => match parseGeoJSON lib area with
    | none => none
    | some allowed => some (some allowed, denied)

def keepsFeature (allowed denied : Option G) (name : String) (item : Members) : Bool :=
  match parseGeoJSON lib (member item name) with
  | none => false
  | some itemGeom => allowed.all (fun area => lib.intersects area itemGeom) &&
      !denied.any (fun area => lib.contains area itemGeom)

/-- Features that are no objects are dropped. -/
def keptFeatures (allowed denied : Option G) (name : String) (features : List Json) : List Json :=
  features.filter fun feature => match feature with
    | .obj item => keepsFeature lib allowed denied name item
    | _ => false

/-- Assign a member that is there. -/
def update (m : Members) (name : String) (value : Json) : Members :=
  m.map fun entry => if entry.1 = name then (entry.1, value) else entry

def withFeatures (fc : Members) (kept : List Json) : Members :=
  update (update (update fc "features" (.arr kept)) "numberReturned" (.num kept.length))
    "numberMatched" (.num kept.length)

/-- Decoding into a Go map: null leaves the map nil, other values do not fit. -/
def decodeMap (body : Bytes) : Option Members :=
  match unmarshal body with
  | some (.obj m) => some m
  | some .null => some []
  | _ => none

def bodyClaimsFeatureCollection (body : Bytes) : Bool :=
  decide ("\"FeatureCollection\"".toUTF8.data.toList <:+: body.take 2048)

inductive FilterOutcome where
  | notApplicable
  | filtered (fc : Members)
  | malformed

/-- The filtered collection is marshalled again, which cannot fail for decoded JSON. -/
def filterByGeofence (body : Bytes) (g : Constraint) : FilterOutcome :=
  if body = [] then .notApplicable
  else match parseGeofenceAreas lib g with
    | none | some (none, none) => .notApplicable
    | some (allowed, denied) => match decodeMap unmarshal body with
      | none => if bodyClaimsFeatureCollection body then .malformed else .notApplicable
      | some fc =>
        if (member fc "type").asString? ≠ some "FeatureCollection" then .notApplicable
        else match member fc "features" with
          | .arr features =>
            .filtered (withFeatures fc (keptFeatures lib allowed denied g.geometryName features))
          | _ => .malformed

end PostFilter

section Areas
variable {G : Type} (lib : Library G) (parseGeometry : Json → Option Members)

/-- Both libraries read the area, and they read the same shape. -/
def ReadsArea (area : Json) : Prop :=
  ∃ literal shape, parseGeometry area = some literal ∧ lib.parseObject literal = some shape ∧
    parseGeoJSON lib area = some shape

/-- At least one area is set, and the areas that are set are well formed. -/
structure WellFormed (g : Constraint) : Prop where
  allowed : given g.allowedArea ≠ none → ReadsArea lib parseGeometry g.allowedArea
  denied : given g.deniedArea ≠ none → ReadsArea lib parseGeometry g.deniedArea
  fenced : given g.allowedArea ≠ none ∨ given g.deniedArea ≠ none

/-- Where an item stands with respect to the areas. -/
inductive Standing where
  /-- There is no geometry to judge. -/
  | nowhere
  /-- It misses the allowed area. -/
  | outside
  /-- The denied area covers it. -/
  | inside
  /-- It meets the denied area and reaches beyond it. -/
  | touching
  | clear
  deriving DecidableEq, Repr

def standing (meets : G → G → Bool) (allowed denied : Option G) : Option G → Standing
  | none => .nowhere
  | some shape =>
    if allowed.any (fun area => !meets area shape) then .outside
    else if denied.any (fun area => lib.contains area shape) then .inside
    else if denied.any (fun area => meets area shape) then .touching
    else .clear

/-- The filter looks at the top-level member only, and asks the areas about the item. -/
def topStanding (g : Constraint) (item : Members) : Standing :=
  standing lib lib.intersects (parseGeoJSON lib g.allowedArea) (parseGeoJSON lib g.deniedArea)
    (parseGeoJSON lib (member item g.geometryName))

/-- The predicate resolves the name as a CQL2 property, and asks the item about the areas. -/
def propertyStanding (g : Constraint) (item : Members) : Standing :=
  standing lib (fun area shape => lib.intersects shape area) (parseGeoJSON lib g.allowedArea)
    (parseGeoJSON lib g.deniedArea) (parseGeoJSON lib (lookupProperty item g.geometryName))

/-- The filter lets through what is clear of the denied area or merely touches it; the
predicate lets through what is clear of it, and items without a geometry if no area has to
be met. -/
def StandingsAgree (g : Constraint) (item : Members) : Prop :=
  (topStanding lib g item = .clear ∨ topStanding lib g item = .touching) ↔
    (propertyStanding lib g item = .clear ∨
      (propertyStanding lib g item = .nowhere ∧ given g.allowedArea = none))

instance (area : Json) : Decidable (given area = none) :=
  decidable_of_iff ((given area).isNone) Option.isNone_iff_eq_none

instance (g : Constraint) (item : Members) : Decidable (StandingsAgree lib g item) :=
  inferInstanceAs (Decidable (_ ↔ _))

end Areas

section Updates

theorem get?_update (m : Members) (name other : String) (value : Json) :
    (update m name value).get? other =
      if other = name then (m.get? name).map fun _ => value else m.get? other := by
  induction m with
  | nil => simp [update]
  | cons entry rest ih =>
    obtain ⟨key, old⟩ := entry
    by_cases same : key = name
    · subst same
      simp only [update, List.map_cons, if_true, get?_cons] at ih ⊢
      split <;> simp_all
    · simp only [update, List.map_cons, same, if_false, get?_cons] at ih ⊢
      by_cases found : other = key
      · simp [found, same]
      · simp [found, ih, Ne.symm same]

theorem get?_features (fc : Members) (kept : List Json) :
    (withFeatures fc kept).get? "features" = (fc.get? "features").map fun _ => .arr kept := by
  simp [withFeatures, get?_update]

end Updates

section Conjunction
variable {G : Type} {lib : Library G} {item : Members} {exprs : List (Option Node)}

theorem mem_present_iff {e : Node} : e ∈ exprs.filterMap id ↔ some e ∈ exprs := by
  simp only [List.mem_filterMap, id, exists_eq_right]

theorem andNonNil_eq_none : andNonNil exprs = none ↔ ∀ e ∈ exprs, e = none := by
  unfold andNonNil
  split
  · rename_i empty
    exact iff_of_true rfl (List.filterMap_eq_nil_iff.mp empty)
  · rename_i expr single
    have member : some expr ∈ exprs := mem_present_iff.mp (single ▸ List.mem_singleton_self expr)
    simp only [reduceCtorEq, false_iff]
    exact fun all => nomatch all _ member
  · rename_i none_empty _
    simp only [reduceCtorEq, false_iff]
    intro all
    exact none_empty (List.filterMap_eq_nil_iff.mpr all)

/-- The conjunction of what is there holds if and only if every part does. -/
theorem holds_andNonNil {expr : Node} (combined : andNonNil exprs = some expr) :
    Holds lib item expr ↔ ∀ e, some e ∈ exprs → Holds lib item e := by
  simp only [← mem_present_iff]
  unfold andNonNil at combined
  split at combined
  · cases combined
  · rename_i single
    obtain rfl := Option.some.inj combined
    simp only [single, List.mem_singleton, forall_eq]
  · obtain rfl := Option.some.inj combined
    exact holds_and_iff

end Conjunction

section Decisions
variable {G : Type} {lib : Library G} {parseGeometry : Json → Option Members}
variable {g : Constraint} {item : Members}

theorem eq_of_given {area value : Json} (set : given area = some value) : area = value := by
  cases area with
  | null => cases set
  | _ => exact Option.some.inj set

theorem parseGeoJSON_of_absent {area : Json} (absent : given area = none) :
    parseGeoJSON lib area = none := by
  cases area with
  | null => rfl
  | _ => cases absent

theorem parseGeoJSON_bind (area : Json) :
    (given area).bind (parseGeoJSON lib) = parseGeoJSON lib area := by
  cases area <;> rfl

theorem standing_eq_nowhere {meets : G → G → Bool} {allowed denied shape : Option G} :
    standing lib meets allowed denied shape = .nowhere ↔ shape = none := by
  cases shape with
  | none => simp [standing]
  | some shape =>
    simp only [standing, reduceCtorEq, iff_false]
    split_ifs <;> simp

theorem standing_eq_clear {meets : G → G → Bool} {allowed denied : Option G} {shape : G} :
    standing lib meets allowed denied (some shape) = .clear ↔
      (∀ area ∈ allowed, meets area shape) ∧
        ∀ area ∈ denied, lib.contains area shape = false ∧ meets area shape = false := by
  simp only [standing]
  cases allowed <;> cases denied <;> simp <;> split_ifs <;> simp_all

theorem standing_kept {meets : G → G → Bool} {allowed denied : Option G} {shape : G} :
    (standing lib meets allowed denied (some shape) = .clear ∨
        standing lib meets allowed denied (some shape) = .touching) ↔
      (∀ area ∈ allowed, meets area shape) ∧ ∀ area ∈ denied, lib.contains area shape = false := by
  simp only [standing]
  cases allowed <;> cases denied <;> simp <;> split_ifs <;> simp_all

theorem keepsFeature_iff : keepsFeature lib (parseGeoJSON lib g.allowedArea)
      (parseGeoJSON lib g.deniedArea) g.geometryName item ↔
    (topStanding lib g item = .clear ∨ topStanding lib g item = .touching) := by
  unfold keepsFeature topStanding
  cases parseGeoJSON lib (member item g.geometryName) with
  | none => simp [standing]
  | some shape =>
    rw [standing_kept]
    simp [Option.all_eq_true, Option.any_eq_false]

/-- Whether the property of the item meets a shape. -/
def meetsProperty (lib : Library G) (g : Constraint) (item : Members) (area : G) : Bool :=
  (parseGeoJSON lib (lookupProperty item g.geometryName)).any fun shape => lib.intersects shape area

theorem eval_sIntersects_eq {literal : Members} {area : G}
    (reads : lib.parseObject literal = some area) :
    eval lib item (sIntersects g.geometryName literal) =
      .ok (.bool (meetsProperty lib g item area)) := by
  rw [sIntersects, eval_sIntersects, reads, meetsProperty]
  cases parseGeoJSON lib (lookupProperty item g.geometryName) <;> rfl

theorem propertyStanding_iff (covered : ∀ a b, lib.contains a b → lib.intersects b a) :
    ((∀ area ∈ parseGeoJSON lib g.allowedArea, meetsProperty lib g item area) ∧
        ∀ area ∈ parseGeoJSON lib g.deniedArea, meetsProperty lib g item area = false) ↔
      (propertyStanding lib g item = .clear ∨
        (propertyStanding lib g item = .nowhere ∧ parseGeoJSON lib g.allowedArea = none)) := by
  unfold propertyStanding meetsProperty
  cases parseGeoJSON lib (lookupProperty item g.geometryName) with
  | none => simp [standing, Option.eq_none_iff_forall_not_mem]
  | some shape =>
    simp only [standing_eq_nowhere, standing_eq_clear, reduceCtorEq, false_and, or_false,
      Option.any_some]
    -- What the denied area covers also meets it.
    have uncovered : ∀ area, lib.intersects shape area = false →
        lib.contains area shape = false := fun area misses =>
      Bool.eq_false_iff.mpr fun contained => by simp [covered area shape contained] at misses
    constructor
    · rintro ⟨meets, misses⟩
      exact ⟨meets, fun area set => ⟨uncovered area (misses area set), misses area set⟩⟩
    · rintro ⟨meets, misses⟩
      exact ⟨meets, fun area set => (misses area set).2⟩

/-- The predicate for an area that both libraries read is about the shape they read. -/
theorem exists_areaPredicate {area : Json} (build : Members → Node) (ill : AreaError)
    (reads : given area ≠ none → ReadsArea lib parseGeometry area) :
    ∃ predicate, areaPredicate parseGeometry build ill area = .ok predicate ∧
      (predicate = none → given area = none) ∧
      ∀ {P : Node → Prop} {Q : G → Prop},
        (∀ literal shape, lib.parseObject literal = some shape → (P (build literal) ↔ Q shape)) →
        ((∀ expr ∈ predicate, P expr) ↔ ∀ shape ∈ parseGeoJSON lib area, Q shape) := by
  unfold areaPredicate
  cases present : given area with
  | none => exact ⟨none, rfl, fun _ => rfl, by simp [parseGeoJSON_of_absent present]⟩
  | some value =>
    obtain rfl := eq_of_given present
    obtain ⟨literal, shape, parsed, drawn, read⟩ := reads (by simp [present])
    refine ⟨some (build literal), by simp [parsed], by simp, fun about => ?_⟩
    simpa [read] using about literal shape drawn

/-- A well-formed geofence has a predicate, and it holds for the items that meet the allowed
area and miss the denied one. -/
theorem exists_geofenceToCQL2 (formed : WellFormed lib parseGeometry g) :
    ∃ expr, geofenceToCQL2 parseGeometry g = .ok (some expr) ∧ ∀ item, Holds lib item expr ↔
      (∀ area ∈ parseGeoJSON lib g.allowedArea, meetsProperty lib g item area) ∧
        ∀ area ∈ parseGeoJSON lib g.deniedArea, meetsProperty lib g item area = false := by
  obtain ⟨allowed, allowed_ok, allowed_set, allowed_iff⟩ := exists_areaPredicate
    (sIntersects g.geometryName) .allowedArea formed.allowed
  obtain ⟨denied, denied_ok, denied_set, denied_iff⟩ := exists_areaPredicate
    (fun literal => .op .not [sIntersects g.geometryName literal]) .deniedArea formed.denied
  have combined : andNonNil [allowed, denied] ≠ none := by
    intro none_set
    rw [andNonNil_eq_none] at none_set
    rcases formed.fenced with set | set
    · exact set (allowed_set (none_set _ (by simp)))
    · exact set (denied_set (none_set _ (by simp)))
  obtain ⟨expr, combined⟩ := Option.ne_none_iff_exists'.mp combined
  refine ⟨expr, ?_, fun item => ?_⟩
  · simp [geofenceToCQL2, allowed_ok, denied_ok, combined, bind, Except.bind, pure, Except.pure]
  · rw [← allowed_iff (P := Holds lib item) fun literal shape drawn => ?_,
      ← denied_iff (P := Holds lib item) fun literal shape drawn => ?_, holds_andNonNil combined]
    · simp only [List.mem_cons, List.not_mem_nil, or_false, Option.mem_def]
      grind
    · simp [holds_not_iff, eval_sIntersects_eq drawn]
    · simp [holds_iff, eval_sIntersects_eq drawn]

end Decisions

section Collections
variable {G : Type} {lib : Library G} {unmarshal : Bytes → Option Json}
variable {parseGeometry : Json → Option Members} {g : Constraint}

/-- The body is a FeatureCollection whose features are these objects. -/
structure Collects (unmarshal : Bytes → Option Json) (body : Bytes) (fc : Members)
    (items : List Members) : Prop where
  nonempty : body ≠ []
  decodes : unmarshal body = some (.obj fc)
  typed : fc.get? "type" = some (.str "FeatureCollection")
  listed : fc.get? "features" = some (.arr (items.map .obj))

theorem parseGeofenceAreas_eq
    (formed : given g.allowedArea ≠ none → parseGeoJSON lib g.allowedArea ≠ none) :
    parseGeofenceAreas lib g =
      some (parseGeoJSON lib g.allowedArea, parseGeoJSON lib g.deniedArea) := by
  rw [parseGeofenceAreas, parseGeoJSON_bind]
  cases present : given g.allowedArea with
  | none => simp [parseGeoJSON_of_absent present]
  | some value =>
    obtain ⟨shape, read⟩ := Option.ne_none_iff_exists'.mp (formed (by simp [present]))
    simp [← eq_of_given present, read]

theorem keptFeatures_map (allowed denied : Option G) (name : String) (items : List Members) :
    keptFeatures lib allowed denied name (items.map .obj) =
      (items.filter (keepsFeature lib allowed denied name)).map .obj := by
  simp only [keptFeatures, List.filter_map]
  rfl

theorem filterByGeofence_eq {body : Bytes} {fc : Members} {items : List Members}
    (collects : Collects unmarshal body fc items) (g : Constraint) :
    filterByGeofence lib unmarshal body g = match parseGeofenceAreas lib g with
      | none | some (none, none) => .notApplicable
      | some (allowed, denied) => .filtered (withFeatures fc
          ((items.filter (keepsFeature lib allowed denied g.geometryName)).map .obj)) := by
  have decodes : decodeMap unmarshal body = some fc := by simp [decodeMap, collects.decodes]
  have typed : (member fc "type").asString? = some "FeatureCollection" := by
    simp [member, collects.typed, Json.asString?]
  have listed : member fc "features" = .arr (items.map .obj) := by simp [member, collects.listed]
  simp only [filterByGeofence, collects.nonempty, if_false, decodes, typed, listed, ne_eq,
    not_true_eq_false, keptFeatures_map]

theorem filterByGeofence_collects {body : Bytes} {fc : Members} {items : List Members}
    (collects : Collects unmarshal body fc items)
    (formed : given g.allowedArea ≠ none → parseGeoJSON lib g.allowedArea ≠ none)
    (fenced : parseGeoJSON lib g.allowedArea ≠ none ∨ parseGeoJSON lib g.deniedArea ≠ none) :
    filterByGeofence lib unmarshal body g = .filtered (withFeatures fc ((items.filter
      (keepsFeature lib (parseGeoJSON lib g.allowedArea) (parseGeoJSON lib g.deniedArea)
        g.geometryName)).map .obj)) := by
  rw [filterByGeofence_eq collects, parseGeofenceAreas_eq formed]
  cases allowed : parseGeoJSON lib g.allowedArea <;>
    cases denied : parseGeoJSON lib g.deniedArea <;> simp_all

theorem fenced_of_wellFormed (formed : WellFormed lib parseGeometry g) :
    (given g.allowedArea ≠ none → parseGeoJSON lib g.allowedArea ≠ none) ∧
      (parseGeoJSON lib g.allowedArea ≠ none ∨ parseGeoJSON lib g.deniedArea ≠ none) := by
  have read : ∀ area, ReadsArea lib parseGeometry area → parseGeoJSON lib area ≠ none := by
    rintro area ⟨literal, shape, -, -, read⟩
    simp [read]
  refine ⟨fun set => read _ (formed.allowed set), ?_⟩
  rcases formed.fenced with set | set
  · exact .inl (read _ (formed.allowed set))
  · exact .inr (read _ (formed.denied set))

/-- On every feature the filter and the predicate agree exactly if the two standings do. -/
theorem postFilter_agrees_iff (covered : ∀ a b, lib.contains a b → lib.intersects b a)
    (formed : WellFormed lib parseGeometry g) {body : Bytes} {fc : Members} {items : List Members}
    (collects : Collects unmarshal body fc items) :
    ∃ expr out, ∃ kept : List Members, geofenceToCQL2 parseGeometry g = .ok (some expr) ∧
      filterByGeofence lib unmarshal body g = .filtered out ∧
      out.get? "features" = some (.arr (kept.map .obj)) ∧ kept.Sublist items ∧
      ∀ item ∈ items, (item ∈ kept ↔ Holds lib item expr) ↔ StandingsAgree lib g item := by
  obtain ⟨expr, pushed, holds⟩ := exists_geofenceToCQL2 formed
  obtain ⟨allowed_read, fenced⟩ := fenced_of_wellFormed formed
  refine ⟨expr, _, items.filter (keepsFeature lib (parseGeoJSON lib g.allowedArea)
      (parseGeoJSON lib g.deniedArea) g.geometryName), pushed,
    filterByGeofence_collects collects allowed_read fenced,
    by simp [get?_features, collects.listed], List.filter_sublist, fun item listed => ?_⟩
  have absent : parseGeoJSON lib g.allowedArea = none ↔ given g.allowedArea = none :=
    ⟨fun unread => by_contra fun set => allowed_read set unread, parseGeoJSON_of_absent⟩
  rw [List.mem_filter, and_iff_right listed, keepsFeature_iff, holds item,
    propertyStanding_iff covered, absent, StandingsAgree]

/-- Where both look at the same geometry, and it does not matter who is asked, they differ on
items that merely touch the denied area, and on items without a geometry if there is no
allowed area. -/
theorem standingsAgree_iff_of_same {item : Members}
    (comm : ∀ a b, lib.intersects a b = lib.intersects b a)
    (same : lookupProperty item g.geometryName = member item g.geometryName) :
    StandingsAgree lib g item ↔ topStanding lib g item ≠ .touching ∧
      (topStanding lib g item = .nowhere → given g.allowedArea ≠ none) := by
  have equal : propertyStanding lib g item = topStanding lib g item := by
    simp only [propertyStanding, topStanding, same, comm]
  rw [StandingsAgree, equal]
  cases topStanding lib g item <;> simp

end Collections

section Boxes

/-- Geometries that are axis-aligned boxes. -/
structure Box where
  minX : ℚ
  minY : ℚ
  maxX : ℚ
  maxY : ℚ
  width : minX ≤ maxX
  height : minY ≤ maxY

def Box.contains (a b : Box) : Bool :=
  decide (a.minX ≤ b.minX ∧ b.maxX ≤ a.maxX ∧ a.minY ≤ b.minY ∧ b.maxY ≤ a.maxY)

def Box.intersects (a b : Box) : Bool :=
  decide (a.minX ≤ b.maxX ∧ b.minX ≤ a.maxX ∧ a.minY ≤ b.maxY ∧ b.minY ≤ a.maxY)

theorem Box.intersects_of_contains (a b : Box) (contained : a.contains b) : b.intersects a := by
  simp only [Box.contains, decide_eq_true_eq] at contained
  obtain ⟨left, right, bottom, top⟩ := contained
  simp only [Box.intersects, decide_eq_true_eq]
  exact ⟨b.width.trans right, left.trans b.width, b.height.trans top, bottom.trans b.height⟩

def boxLibrary : Library Box where
  parseFloat _ := none
  parseObject m := match member m "coordinates" with
    | .arr [.arr [.arr [.num minX, .num minY], _, .arr [.num maxX, .num maxY], _, _]] =>
      if proper : minX ≤ maxX ∧ minY ≤ maxY then
        some ⟨minX, minY, maxX, maxY, proper.1, proper.2⟩
      else none
    | _ => none
  intersects := Box.intersects
  contains := Box.contains

def squareItem : Members :=
  [("type", .str "Feature"), ("geometry", .obj (boxPolygon 0 0 2 2))]

def squareCollection : Members :=
  [("type", .str "FeatureCollection"), ("features", .arr [.obj squareItem])]

def squareText : Bytes :=
  ("\x7b\"type\":\"FeatureCollection\",\"features\":[\x7b\"type\":\"Feature\"," ++
    "\"geometry\":\x7b\"type\":\"Polygon\",\"coordinates\":" ++
    "[[[0,0],[2,0],[2,2],[0,2],[0,0]]]\x7d\x7d]\x7d").toUTF8.data.toList

def squareUnmarshal (body : Bytes) : Option Json :=
  if body = squareText then some (.obj squareCollection) else none

def denying (minX minY maxX maxY : ℚ) : Constraint where
  deniedArea := .obj (boxPolygon minX minY maxX maxY)
  filterMode := true

theorem square_collects : Collects squareUnmarshal squareText squareCollection [squareItem] where
  nonempty := by decide
  decodes := if_pos rfl
  typed := rfl
  listed := rfl

theorem denying_wellFormed (minX minY maxX maxY : ℚ) (width : minX ≤ maxX)
    (height : minY ≤ maxY) :
    WellFormed boxLibrary Json.asObject? (denying minX minY maxX maxY) where
  allowed set := absurd rfl set
  denied _ := ⟨_, ⟨minX, minY, maxX, maxY, width, height⟩, rfl, dif_pos ⟨width, height⟩,
    dif_pos ⟨width, height⟩⟩
  fenced := .inr (by simp [denying, given])

/-- A feature away from the denied area passes both. -/
theorem distant_feature_agrees : ∃ expr out, ∃ kept : List Members,
    geofenceToCQL2 Json.asObject? (denying 5 5 6 6) = .ok (some expr) ∧
    filterByGeofence boxLibrary squareUnmarshal squareText (denying 5 5 6 6) = .filtered out ∧
    out.get? "features" = some (.arr (kept.map .obj)) ∧
    (squareItem ∈ kept ↔ Holds boxLibrary squareItem expr) := by
  obtain ⟨expr, out, kept, pushed, filtered, listed, -, agrees⟩ := postFilter_agrees_iff
    Box.intersects_of_contains (denying_wellFormed 5 5 6 6 (by decide) (by decide)) square_collects
  exact ⟨expr, out, kept, pushed, filtered, listed,
    (agrees squareItem (by simp)).mpr (by decide +kernel)⟩

/-- A feature that reaches into the denied area passes the filter only. -/
theorem overlapping_feature_kept :
    WellFormed boxLibrary Json.asObject? (denying 1 1 3 3) ∧
    Collects squareUnmarshal squareText squareCollection [squareItem] ∧
    ∃ expr, geofenceToCQL2 Json.asObject? (denying 1 1 3 3) = .ok (some expr) ∧
      evalCQL2 boxLibrary squareItem expr = .ok false ∧
      filterByGeofence boxLibrary squareUnmarshal squareText (denying 1 1 3 3) =
        .filtered (withFeatures squareCollection [.obj squareItem]) := by
  have formed := denying_wellFormed 1 1 3 3 (by decide) (by decide)
  refine ⟨formed, square_collects, _, rfl, by decide +kernel, ?_⟩
  obtain ⟨allowed_read, fenced⟩ := fenced_of_wellFormed formed
  rw [filterByGeofence_collects square_collects allowed_read fenced]
  rfl

end Boxes

end Geofence
