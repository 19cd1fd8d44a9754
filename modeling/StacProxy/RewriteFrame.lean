import StacProxy.JsonPath
import StacProxy.LinkRewriting

/-!
# What a rewriting leaves alone

`rewriteLinks` changes a document in place. At the end of a path it acts by the kind of the
place: inside a linked object that is visited, inside its list of links or its assets, at an
`href`, or anywhere else. An `href` that is a text is rewritten once, and everything else stays
as it was: the scalars, the keys and their order, the lengths of arrays.
-/

namespace LinkRewriting

open JsonValue PageAdapter OriginClient

section Places

/-- The kinds of places in a document. A linked object is visited if levels are left. -/
inductive Place where
  | object (levels : Nat)
  | links
  | link
  | linkHref
  | assets
  | asset
  | assetHref
  | elsewhere
  deriving DecidableEq

def Place.enter : Place → Step → Place
  | object (levels + 1), .key name =>
    if name = "links" then links
    else if name = "assets" then assets
    else if name ∈ rewriteLinksRecurseKeys then object levels
    else elsewhere
  | object (levels + 1), .index _ => object levels
  | links, .index _ => link
  | assets, .key _ => asset
  | link, .key name => if name = "href" then linkHref else elsewhere
  | asset, .key name => if name = "href" then assetHref else elsewhere
  | _, _ => elsewhere

/-- Where a path leads from the root. -/
def placeOf (path : List Step) : Place := path.foldl Place.enter (.object (rewriteLinksMaxDepth + 1))

def rewriteText (rewrite : String → String) : Json → Json
  | .str text => .str (rewrite text)
  | value => value

variable {lib : Library} (h : Rewriter lib)

/-- How a value is rewritten that stands at a place. -/
def Rewriter.rewriteAt : Place → Json → Json
  | .object levels => h.rewriteLinksDepth levels
  | .links => rewriteLinkList h.rewriteURL
  | .link => rewriteHref h.rewriteURL
  | .linkHref => rewriteText h.rewriteURL
  | .assets => rewriteAssetMap h.rewriteAssetHref
  | .asset => rewriteHref h.rewriteAssetHref
  | .assetHref => rewriteText h.rewriteAssetHref
  | .elsewhere => id

end Places

section Steps
variable {lib : Library} {h : Rewriter lib}

theorem rewriteHref_child (rewrite : String → String) (value : Json) (step : Step) :
    (rewriteHref rewrite value).child step = (value.child step).map
      (if step = .key "href" then rewriteText rewrite else id) := by
  cases value with
  | obj members =>
    cases step with
    | index i => rfl
    | key name =>
      have treated : rewriteHref rewrite (.obj members) = .obj (members.map fun entry =>
          (entry.1, (if entry.1 = "href" then rewriteText rewrite else id) entry.2)) := by
        simp only [rewriteHref, Json.obj.injEq, List.map_inj_left]
        intro entry _
        obtain ⟨key, value⟩ := entry
        dsimp only
        split
        · simp [rewriteText]
        · rename_i other
          split
          · cases value <;> simp_all [rewriteText]
          · rfl
      rw [treated]
      simp only [Step.key.injEq]
      exact get?_map (fun key => if key = "href" then rewriteText rewrite else id) members name
  | arr elems => cases step <;> simp [rewriteHref, Json.child]
  | _ => rfl

/-- One step into a rewritten value is the rewriting of one step into the value. -/
theorem rewriteAt_child (place : Place) (value : Json) (step : Step) :
    (h.rewriteAt place value).child step =
      (value.child step).map (h.rewriteAt (place.enter step)) := by
  cases place with
  | object levels =>
    cases levels with
    | zero => cases step <;> simp [Rewriter.rewriteAt, Rewriter.rewriteLinksDepth, Place.enter]
    | succ levels =>
      cases value with
      | obj members =>
        cases step with
        | index i => rfl
        | key name =>
          have treated : h.rewriteAt (.object (levels + 1)) (.obj members) =
              .obj (members.map fun entry => (entry.1,
                h.rewriteAt (Place.enter (.object (levels + 1)) (.key entry.1)) entry.2)) := by
            simp only [Rewriter.rewriteAt, Rewriter.rewriteLinksDepth, Json.obj.injEq,
              List.map_inj_left]
            intro entry _
            simp only [Place.enter]
            split_ifs <;> rfl
          rw [treated]
          exact get?_map (fun key => h.rewriteAt (Place.enter (.object (levels + 1)) (.key key)))
            members name
      | arr elems =>
        cases step with
        | key name => rfl
        | index i => simp [Rewriter.rewriteAt, Rewriter.rewriteLinksDepth, Json.child, Place.enter]
      | _ => rfl
  | links =>
    cases value <;> cases step <;>
      simp [Rewriter.rewriteAt, rewriteLinkList, Json.child, Place.enter]
  | assets =>
    cases value with
    | obj assets =>
      cases step with
      | index i => rfl
      | key name => exact get?_map (fun _ => rewriteHref h.rewriteAssetHref) assets name
    | _ => cases step <;> simp [Rewriter.rewriteAt, rewriteAssetMap, Json.child, Place.enter]
  | link =>
    refine (rewriteHref_child h.rewriteURL value step).trans ?_
    cases step with
    | index i => rfl
    | key name => simp only [Step.key.injEq, Place.enter]; split_ifs <;> rfl
  | asset =>
    refine (rewriteHref_child h.rewriteAssetHref value step).trans ?_
    cases step with
    | index i => rfl
    | key name => simp only [Step.key.injEq, Place.enter]; split_ifs <;> rfl
  | linkHref | assetHref =>
    cases value <;> cases step <;> simp [Rewriter.rewriteAt, rewriteText, Json.child, Place.enter]
  | elsewhere => cases step <;> simp [Rewriter.rewriteAt, Place.enter]

/-- At the end of a path a document is rewritten by the place the path leads to. -/
theorem rewriteLinks_at? (data : Json) (path : List Step) :
    (h.rewriteLinks data).at? path = (data.at? path).map (h.rewriteAt (placeOf path)) :=
  at?_act rewriteAt_child (.object (rewriteLinksMaxDepth + 1)) data path

end Steps

section Paths

/-- Steps that lead from one linked object to the next. -/
def Nests : Step → Prop
  | .key name => name ∈ rewriteLinksRecurseKeys
  | .index _ => True

/-- The paths to the objects that are visited. -/
def Visited (path : List Step) : Prop :=
  path.length ≤ rewriteLinksMaxDepth ∧ ∀ step ∈ path, Nests step

def IsLinkHref (path : List Step) : Prop :=
  ∃ p i, Visited p ∧ path = p ++ [.key "links", .index i, .key "href"]

def IsAssetHref (path : List Step) : Prop :=
  ∃ p name, Visited p ∧ path = p ++ [.key "assets", .key name, .key "href"]

theorem enter_object {place : Place} {step : Step} {levels : Nat} :
    place.enter step = .object levels ↔ place = .object (levels + 1) ∧ Nests step := by
  cases place with
  | object n =>
    cases n with
    | zero => simp [Place.enter]
    | succ n =>
      cases step with
      | index i => simp [Place.enter, Nests]
      | key name =>
        simp only [Place.enter, Nests, Place.object.injEq, Nat.add_right_cancel_iff]
        split_ifs with links assets nested
        · simp [links, rewriteLinksRecurseKeys]
        · simp [assets, rewriteLinksRecurseKeys]
        · simp [nested]
        · simp [nested]
  | _ => cases step <;> simp [Place.enter] <;> split_ifs <;> simp

theorem enter_links {place : Place} {step : Step} :
    place.enter step = .links ↔ (∃ levels, place = .object (levels + 1)) ∧ step = .key "links" := by
  fun_cases Place.enter place step <;> simp_all

theorem enter_link {place : Place} {step : Step} :
    place.enter step = .link ↔ place = .links ∧ ∃ i, step = .index i := by
  fun_cases Place.enter place step <;> simp_all

theorem enter_linkHref {place : Place} {step : Step} :
    place.enter step = .linkHref ↔ place = .link ∧ step = .key "href" := by
  fun_cases Place.enter place step <;> simp_all

theorem enter_assets {place : Place} {step : Step} :
    place.enter step = .assets ↔ (∃ levels, place = .object (levels + 1)) ∧ step = .key "assets" := by
  fun_cases Place.enter place step <;> simp_all

theorem enter_asset {place : Place} {step : Step} :
    place.enter step = .asset ↔ place = .assets ∧ ∃ name, step = .key name := by
  fun_cases Place.enter place step <;> simp_all

theorem enter_assetHref {place : Place} {step : Step} :
    place.enter step = .assetHref ↔ place = .asset ∧ step = .key "href" := by
  fun_cases Place.enter place step <;> simp_all

theorem placeOf_concat (path : List Step) (step : Step) :
    placeOf (path ++ [step]) = (placeOf path).enter step := List.foldl_concat ..

theorem placeOf_object {path : List Step} {levels : Nat} : placeOf path = .object levels ↔
    path.length + levels = rewriteLinksMaxDepth + 1 ∧ ∀ step ∈ path, Nests step := by
  induction path using List.reverseRecOn generalizing levels with
  | nil => simp [placeOf, eq_comm]
  | append_singleton path step ih =>
    rw [placeOf_concat, enter_object, ih]
    simp only [List.length_append, List.length_singleton, List.mem_append, List.mem_singleton]
    constructor
    · rintro ⟨⟨count, nests⟩, last⟩
      refine ⟨by omega, fun s member => ?_⟩
      rcases member with member | rfl
      · exact nests s member
      · exact last
    · rintro ⟨count, nests⟩
      exact ⟨⟨by omega, fun s member => nests s (.inl member)⟩, nests step (.inr rfl)⟩

theorem exists_object_iff_visited {path : List Step} :
    (∃ levels, placeOf path = .object (levels + 1)) ↔ Visited path := by
  simp only [placeOf_object, Visited]
  constructor
  · rintro ⟨levels, count, nests⟩
    exact ⟨by omega, nests⟩
  · rintro ⟨short, nests⟩
    exact ⟨rewriteLinksMaxDepth - path.length, by omega, nests⟩

/-- The last step into a place that is no linked object. -/
theorem placeOf_eq_iff {path : List Step} {place : Place} (inner : place ≠ placeOf []) :
    placeOf path = place ↔ ∃ p step, path = p ++ [step] ∧ (placeOf p).enter step = place := by
  constructor
  · intro reached
    rcases List.eq_nil_or_concat path with rfl | ⟨p, step, rfl⟩
    · exact absurd reached.symm inner
    · rw [List.concat_eq_append] at *
      exact ⟨p, step, rfl, by rwa [placeOf_concat] at reached⟩
  · rintro ⟨p, step, rfl, entered⟩
    rw [placeOf_concat, entered]

theorem placeOf_linkHref {path : List Step} : placeOf path = .linkHref ↔ IsLinkHref path := by
  constructor
  · intro reached
    obtain ⟨path, step, rfl, at_href⟩ := (placeOf_eq_iff (by decide)).mp reached
    obtain ⟨in_link, rfl⟩ := enter_linkHref.mp at_href
    obtain ⟨path, step, rfl, at_link⟩ := (placeOf_eq_iff (by decide)).mp in_link
    obtain ⟨in_links, i, rfl⟩ := enter_link.mp at_link
    obtain ⟨path, step, rfl, at_links⟩ := (placeOf_eq_iff (by decide)).mp in_links
    obtain ⟨in_object, rfl⟩ := enter_links.mp at_links
    exact ⟨path, i, exists_object_iff_visited.mp in_object, by simp⟩
  · rintro ⟨p, i, visited, rfl⟩
    obtain ⟨levels, in_object⟩ := exists_object_iff_visited.mpr visited
    rw [placeOf] at in_object ⊢
    rw [List.foldl_append, in_object]
    rfl

theorem placeOf_assetHref {path : List Step} : placeOf path = .assetHref ↔ IsAssetHref path := by
  constructor
  · intro reached
    obtain ⟨path, step, rfl, at_href⟩ := (placeOf_eq_iff (by decide)).mp reached
    obtain ⟨in_asset, rfl⟩ := enter_assetHref.mp at_href
    obtain ⟨path, step, rfl, at_asset⟩ := (placeOf_eq_iff (by decide)).mp in_asset
    obtain ⟨in_assets, name, rfl⟩ := enter_asset.mp at_asset
    obtain ⟨path, step, rfl, at_assets⟩ := (placeOf_eq_iff (by decide)).mp in_assets
    obtain ⟨in_object, rfl⟩ := enter_assets.mp at_assets
    exact ⟨path, name, exists_object_iff_visited.mp in_object, by simp⟩
  · rintro ⟨p, name, visited, rfl⟩
    obtain ⟨levels, in_object⟩ := exists_object_iff_visited.mpr visited
    rw [placeOf] at in_object ⊢
    rw [List.foldl_append, in_object]
    rfl

end Paths

section Frame
variable {lib : Library} (h : Rewriter lib)

theorem rewriteText_head {rewrite : String → String} {value : Json}
    (no_text : ∀ text, value ≠ .str text) : rewriteText rewrite value = value := by
  cases value with
  | str text => exact absurd rfl (no_text text)
  | _ => rfl

theorem rewriteHref_head (rewrite : String → String) (value : Json) :
    (rewriteHref rewrite value).head = value.head := by
  cases value with
  | obj members =>
    simp only [rewriteHref, Json.head, List.map_map, Json.Head.obj.injEq, List.map_inj_left,
      Function.comp_apply]
    intro entry _
    split <;> rfl
  | _ => rfl

/-- Apart from texts at an `href`, the head of a value is not changed. -/
theorem rewriteAt_head {place : Place} {value : Json}
    (kept : place = .linkHref ∨ place = .assetHref → ∀ text, value ≠ .str text) :
    (h.rewriteAt place value).head = value.head := by
  cases place with
  | object levels =>
    cases levels with
    | zero => rfl
    | succ levels =>
      cases value with
      | obj members =>
        simp only [Rewriter.rewriteAt, Rewriter.rewriteLinksDepth, Json.head, List.map_map,
          Json.Head.obj.injEq, List.map_inj_left, Function.comp_apply]
        intro entry _
        split_ifs <;> rfl
      | arr elems => simp [Rewriter.rewriteAt, Rewriter.rewriteLinksDepth, Json.head]
      | _ => rfl
  | links => cases value <;> simp [Rewriter.rewriteAt, rewriteLinkList, Json.head]
  | assets => cases value <;> simp [Rewriter.rewriteAt, rewriteAssetMap, Json.head]
  | link | asset => exact rewriteHref_head _ value
  | linkHref =>
    have same : h.rewriteAt .linkHref value = value := rewriteText_head (kept (.inl rfl))
    rw [same]
  | assetHref =>
    have same : h.rewriteAt .assetHref value = value := rewriteText_head (kept (.inr rfl))
    rw [same]
  | elsewhere => rfl

/-- Every text at the `href` of a link or of an asset of a visited object is rewritten once, and
at every other path a document stays as it was. -/
theorem rewriteLinks_frame (data : Json) (path : List Step) :
    (IsLinkHref path → ∀ href, data.at? path = some (.str href) →
      (h.rewriteLinks data).at? path = some (.str (h.rewriteURL href))) ∧
    (IsAssetHref path → ∀ href, data.at? path = some (.str href) →
      (h.rewriteLinks data).at? path = some (.str (h.rewriteAssetHref href))) ∧
    (¬ ((IsLinkHref path ∨ IsAssetHref path) ∧ ∃ href, data.at? path = some (.str href)) →
      ((h.rewriteLinks data).at? path).map Json.head = (data.at? path).map Json.head) := by
  rw [rewriteLinks_at?]
  refine ⟨?_, ?_, ?_⟩
  · intro link href found
    rw [found, placeOf_linkHref.mpr link]
    rfl
  · intro asset href found
    rw [found, placeOf_assetHref.mpr asset]
    rfl
  · intro other
    cases found : data.at? path with
    | none => rfl
    | some value =>
      refine congrArg some (rewriteAt_head h fun place text same => other ⟨?_, text, ?_⟩)
      · exact place.imp placeOf_linkHref.mp placeOf_assetHref.mp
      · rw [found, same]

end Frame

end LinkRewriting
