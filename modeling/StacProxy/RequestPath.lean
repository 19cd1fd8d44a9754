import StacProxy.PercentCoding
import StacProxy.AuthzMiddleware

/-!
# The path of a request

A request path is read three times: the router matches it, the policy gets the matched
parameters, and the federation handler forwards it. The router works on the escaped path if
Go keeps one (`RawPath`) and on the decoded path otherwise, and binds parameters to
substrings as they are.
-/

namespace RequestPath

open PercentCoding AuthzMiddleware

abbrev Bytes := List UInt8

def bytes (text : String) : Bytes := text.toUTF8.data.toList

section Urls

/-- The path of a `url.URL`. -/
structure Url where
  path : Bytes
  rawPath : Bytes := []
  deriving DecidableEq, Repr

/-- `shouldEscape` for paths. -/
def shouldEscape (b : UInt8) : Bool :=
  !(97 ≤ b && b ≤ 122 || 65 ≤ b && b ≤ 90 || 48 ≤ b && b ≤ 57) &&
    b ∉ bytes "-_.~$&+,/:;=@"

def keeps (b : UInt8) : Bool := !shouldEscape b

/-- The escaped path is kept only where escaping the decoded one gives something else. -/
def setPath (p : Bytes) : Option Url :=
  (unescape p).map fun path => { path, rawPath := if p = escape keeps path then [] else p }

def validEncoded (s : Bytes) : Bool :=
  s.all fun b => b ∈ bytes "!$&'()*+,;=:@[]%" || !shouldEscape b

def escapedPath (u : Url) : Bytes :=
  if u.rawPath ≠ [] ∧ validEncoded u.rawPath ∧ unescape u.rawPath = some u.path then u.rawPath
  else if u.path = bytes "*" then bytes "*"
  else escape keeps u.path

end Urls

section Routing

/-- The part of `STACInfo` that comes from the path. -/
structure Route where
  requestType : RequestType
  collection : Bytes
  itemID : Bytes := []

def routePath (u : Url) : Bytes := if u.rawPath = [] then u.path else u.rawPath

/-- The routes below a collection. A parameter at the end of a pattern is not empty. -/
def matchRoute (path : Bytes) : Option Route :=
  match segments path with
  | [root, collections, collection] =>
    if root = [] ∧ collections = bytes "collections" ∧ collection ≠ [] then
      some { requestType := .collection, collection }
    else none
  | [root, collections, collection, items] =>
    if root = [] ∧ collections = bytes "collections" ∧ items = bytes "items" then
      some { requestType := .items, collection }
    else none
  | [root, collections, collection, items, itemID] =>
    if root = [] ∧ collections = bytes "collections" ∧ items = bytes "items" ∧ itemID ≠ [] then
      some { requestType := .item, collection, itemID }
    else none
  | _ => none

/-- What the policy gets to see of the resource. -/
structure AuthzInput where
  path : Bytes
  collection : Bytes
  itemID : Bytes

def buildAuthzInput (u : Url) (route : Route) : AuthzInput where
  path := u.path
  collection := route.collection
  itemID := route.itemID

end Routing

section Forwarding

/-- `strings.TrimPrefix`. -/
def trimPrefix (pre name : Bytes) : Bytes :=
  if pre.isPrefixOf name then name.drop pre.length else name

/-- `strings.Replace` of the first occurrence. -/
def replaceFirst (old new : Bytes) : Bytes → Bytes
  | [] => if old = [] then new else []
  | b :: rest =>
    if old.isPrefixOf (b :: rest) then new ++ (b :: rest).drop old.length
    else b :: replaceFirst old new rest

/-- Only the decoded path is changed. -/
def adaptRequestStripCollectionPrefix (pre : Bytes) (u : Url) (route : Route) : Url :=
  { u with
    path := replaceFirst (bytes "/collections/" ++ route.collection)
      (bytes "/collections/" ++ trimPrefix pre route.collection) u.path }

/-- What an origin is asked: a resource at an escaped path below its base URL, or a search
for collections. -/
inductive Forwarded where
  | get (path : Bytes)
  | search (collections : List Bytes)
  deriving DecidableEq, Repr

/-- Items are searched for; collections and items are fetched at the path of the request, the
origin's collection prefix taken off. -/
def forward (pre : Bytes) (u : Url) (route : Route) : Forwarded :=
  match route.requestType with
  | .items => .search [route.collection]
  | _ => .get (escapedPath (if pre ≠ [] ∧ pre.isPrefixOf route.collection then
      adaptRequestStripCollectionPrefix pre u route else u))

end Forwarding

section Paths
variable {p : Bytes} {u : Url}

theorem keeps_percent : keeps percent = false := by decide

theorem keeps_slash : keeps slash = true := by decide

/-- Where no escaped path with escapes in it is kept, what is forwarded decodes to the path. -/
theorem decodedSegments_escapedPath (plain : percent ∉ u.rawPath) :
    decodedSegments (escapedPath u) = some (segments u.path) := by
  unfold escapedPath
  split
  · rename_i kept
    have same : u.path = u.rawPath :=
      Option.some.inj (kept.2.2.symm.trans (unescape_of_plain plain))
    rw [same]
    exact decodedSegments_eq_self_iff.mpr plain
  · split
    · rename_i star
      rw [star]
      exact decodedSegments_eq_self_iff.mpr (by decide)
    · exact decodedSegments_escape keeps_percent keeps_slash u.path

theorem routePath_eq (parsed : setPath p = some u) (plain : percent ∉ u.rawPath) :
    routePath u = u.path := by
  obtain ⟨path, decodes, rfl⟩ := Option.map_eq_some_iff.mp parsed
  by_cases default : p = escape keeps path
  · simp [routePath, default]
  · have same : path = p := by
      rw [if_neg default] at plain
      exact Option.some.inj (decodes.symm.trans (unescape_of_plain plain))
    by_cases empty : p = [] <;> simp [routePath, empty, same]

/-- What is forwarded decodes to what the router matched, segment by segment, exactly if the
router did not match escapes. -/
theorem decodedSegments_escapedPath_iff (parsed : setPath p = some u) :
    decodedSegments (escapedPath u) = some (segments (routePath u)) ↔ percent ∉ u.rawPath := by
  constructor
  · intro agrees escaped
    obtain ⟨path, decodes, rfl⟩ := Option.map_eq_some_iff.mp parsed
    have kept : ¬ p = escape keeps path := by
      intro default
      simp [default] at escaped
    rw [if_neg kept] at escaped agrees
    have matched : routePath { path, rawPath := p } = p := if_neg (List.ne_nil_of_mem escaped)
    rw [matched] at agrees
    -- Either the path is forwarded as it came, or it is escaped anew from the decoded one.
    unfold escapedPath at agrees
    split at agrees
    · exact decodedSegments_eq_self_iff.mp agrees escaped
    · have decoded : decodedSegments (if path = bytes "*" then bytes "*" else escape keeps path) =
          some (segments path) := by
        split
        · rename_i star
          rw [star]
          exact decodedSegments_eq_self_iff.mpr (by decide)
        · exact decodedSegments_escape keeps_percent keeps_slash path
      obtain rfl : path = p := segments_inj (Option.some.inj (decoded.symm.trans agrees))
      exact unescape_eq_self_iff.mp decodes escaped
  · intro plain
    rw [decodedSegments_escapedPath plain, routePath_eq parsed plain]

/-- A matched path is made of the parameters. -/
theorem path_of_match {path : Bytes} {route : Route} (matched : matchRoute path = some route) :
    (route.requestType = .collection ∧ segments path = [[], bytes "collections", route.collection]) ∨
    (route.requestType = .items ∧
      segments path = [[], bytes "collections", route.collection, bytes "items"]) ∨
    (route.requestType = .item ∧ segments path =
      [[], bytes "collections", route.collection, bytes "items", route.itemID]) := by
  unfold matchRoute at matched
  split at matched
  · split at matched
    · rename_i split_eq fits
      cases matched
      simp [split_eq, fits]
    · cases matched
  · split at matched
    · rename_i split_eq fits
      cases matched
      simp [split_eq, fits]
    · cases matched
  · split at matched
    · rename_i split_eq fits
      cases matched
      simp [split_eq, fits]
    · cases matched
  · cases matched

theorem collections_path (name : Bytes) (rest : List Bytes) :
    [slash].intercalate ([] :: bytes "collections" :: name :: rest) =
      bytes "/collections/" ++ name ++ rest.flatMap (slash :: ·) := by
  have leading : bytes "/collections/" = slash :: bytes "collections" ++ [slash] := by decide
  rw [intercalate_cons, leading]
  simp

theorem replaceFirst_append {old : Bytes} (nonempty : old ≠ []) (new rest : Bytes) :
    replaceFirst old new (old ++ rest) = new ++ rest := by
  cases old with
  | nil => exact absurd rfl nonempty
  | cons b more =>
    have found : (b :: more).isPrefixOf (b :: (more ++ rest)) = true := by
      rw [List.isPrefixOf_iff_prefix, ← List.cons_append]
      exact List.prefix_append _ _
    rw [List.cons_append, replaceFirst, if_pos found]
    simp

/-- Taking off the prefix changes the collection and nothing else of the path. -/
theorem segments_stripped {route : Route} {rest : List Bytes} (pre : Bytes)
    (split : segments u.path = [] :: bytes "collections" :: route.collection :: rest) :
    segments (adaptRequestStripCollectionPrefix pre u route).path =
      [] :: bytes "collections" :: trimPrefix pre route.collection :: rest := by
  have flat : ∀ part ∈ [] :: bytes "collections" :: route.collection :: rest, slash ∉ part :=
    fun part member => slash_notMem_segment (split ▸ member)
  have path_eq : u.path = bytes "/collections/" ++ route.collection ++ rest.flatMap (slash :: ·) := by
    rw [← collections_path, ← split, intercalate_segments]
  have stripped_eq : (adaptRequestStripCollectionPrefix pre u route).path =
      [slash].intercalate ([] :: bytes "collections" :: trimPrefix pre route.collection :: rest) := by
    rw [collections_path, adaptRequestStripCollectionPrefix, path_eq]
    have nonempty : bytes "/collections/" ≠ [] := by decide
    exact replaceFirst_append (by simp [nonempty]) _ _
  have trimmed : slash ∉ trimPrefix pre route.collection := by
    have whole := flat route.collection (by simp)
    unfold trimPrefix
    split
    · exact fun found => whole (List.mem_of_mem_drop found)
    · exact whole
  rw [stripped_eq]
  apply segments_intercalate
  · intro part member
    simp only [List.mem_cons] at member flat
    rcases member with rfl | rfl | rfl | later
    · simp
    · decide
    · exact trimmed
    · exact flat part (.inr (.inr (.inr later)))
  · simp

/-- The segments an origin reads, if the router did not match escapes. -/
theorem decodedSegments_forwarded {route : Route} {rest : List Bytes} (pre : Bytes)
    (parsed : setPath p = some u) (plain : percent ∉ u.rawPath)
    (split : segments (routePath u) = [] :: bytes "collections" :: route.collection :: rest) :
    decodedSegments (escapedPath (if pre ≠ [] ∧ pre.isPrefixOf route.collection then
        adaptRequestStripCollectionPrefix pre u route else u)) =
      some ([] :: bytes "collections" :: trimPrefix pre route.collection :: rest) := by
  rw [routePath_eq parsed plain] at split
  split
  · have kept : percent ∉ (adaptRequestStripCollectionPrefix pre u route).rawPath := plain
    rw [decodedSegments_escapedPath kept, segments_stripped pre split]
  · rename_i unstripped
    have same : trimPrefix pre route.collection = route.collection := by
      unfold trimPrefix
      split
      · rename_i found
        have none_set : pre = [] := by
          by_contra set
          exact unstripped ⟨set, found⟩
        simp [none_set]
      · rfl
    rw [decodedSegments_escapedPath plain, split, same]

end Paths

section Resources

/-- The policy and the origin see the same resource, where the router did not match escapes:
the origin's name for a collection leaves off its prefix, and items are searched for. -/
theorem resource_agrees {p : Bytes} {u : Url} {route : Route} (pre : Bytes)
    (parsed : setPath p = some u) (plain : percent ∉ u.rawPath)
    (matched : matchRoute (routePath u) = some route) :
    match route.requestType with
    | .items => forward pre u route = .search [(buildAuthzInput u route).collection]
    | .item => ∃ path, forward pre u route = .get path ∧ decodedSegments path =
        some [[], bytes "collections", trimPrefix pre (buildAuthzInput u route).collection,
          bytes "items", (buildAuthzInput u route).itemID]
    | _ => ∃ path, forward pre u route = .get path ∧ decodedSegments path =
        some [[], bytes "collections", trimPrefix pre (buildAuthzInput u route).collection] := by
  rcases path_of_match matched with ⟨type_eq, split⟩ | ⟨type_eq, split⟩ | ⟨type_eq, split⟩
  · simp only [type_eq, forward]
    exact ⟨_, rfl, decodedSegments_forwarded pre parsed plain split⟩
  · simp only [type_eq, forward]
    rfl
  · simp only [type_eq, forward]
    exact ⟨_, rfl, decodedSegments_forwarded pre parsed plain split⟩

/-- A name with an escape that Go decodes and encodes alike. -/
theorem spaced_collection_agrees :
    setPath (bytes "/collections/a%20b") = some ⟨bytes "/collections/a b", []⟩ ∧
    ∃ path, forward [] ⟨bytes "/collections/a b", []⟩ ⟨.collection, bytes "a b", []⟩ = .get path ∧
      decodedSegments path = some [[], bytes "collections", bytes "a b"] := by
  have parsed : setPath (bytes "/collections/a%20b") = some ⟨bytes "/collections/a b", []⟩ := by
    decide +kernel
  exact ⟨parsed, @resource_agrees _ _ ⟨.collection, bytes "a b", []⟩ [] parsed (by simp) rfl⟩

/-- An escaped slash: the policy is asked about another collection than the origin. Items are
searched for, and a prefix is taken off. -/
theorem escaped_slash_disagrees :
    (setPath (bytes "/collections/a%2Fb") =
        some ⟨bytes "/collections/a/b", bytes "/collections/a%2Fb"⟩ ∧
      (matchRoute (bytes "/collections/a%2Fb")).map (·.collection) = some (bytes "a%2Fb") ∧
      forward [] ⟨bytes "/collections/a/b", bytes "/collections/a%2Fb"⟩
        ⟨.collection, bytes "a%2Fb", []⟩ = .get (bytes "/collections/a%2Fb") ∧
      decodedSegments (bytes "/collections/a%2Fb") =
        some [[], bytes "collections", bytes "a/b"]) ∧
    forward [] ⟨bytes "/collections/a/items", []⟩ ⟨.items, bytes "a", []⟩ = .search [bytes "a"] ∧
    forward (bytes "x-") ⟨bytes "/collections/x-a", []⟩ ⟨.collection, bytes "x-a", []⟩ =
      .get (bytes "/collections/a") := by
  decide +kernel

end Resources

end RequestPath
