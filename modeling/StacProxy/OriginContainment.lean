import StacProxy.DotSegments
import StacProxy.OriginClient

/-!
# Addresses inside of an origin

The checks on addresses that are fetched with an origin's credentials compare decoded paths as
texts, and those on next pages do so without a boundary. A server that removes dot segments
reads such a path as another one.
-/

namespace OriginContainment

open PageAdapter OriginClient DotSegments

section Guards
variable (lib : Library)

/-- The guard of the asset endpoint. -/
def assetHrefUnderOrigin (href originBase : String) : Bool :=
  match lib.parseURL href, lib.parseURL originBase with
  | some hu, some ou =>
    lib.equalFold hu.scheme ou.scheme && lib.equalFold hu.host ou.host &&
      (let basePath := trimSlash ou.path.toList
       basePath == [] || hu.path.toList == basePath ||
        (basePath ++ ['/']).isPrefixOf hu.path.toList)
  | _, _ => false

variable {lib}

/-- The guards on next pages and on assets. -/
def Accepted (client : Client lib) (href : String) : Prop :=
  (sameOrigin lib href client.baseURL ∧ client.urlRootedAtBase href) ∨
    assetHrefUnderOrigin lib href client.baseURL

/-- The scheme and host of the base, and a path under its path once dot segments are
removed. -/
def Contained (lib : Library) (u base : Url) : Prop :=
  lib.equalFold u.scheme base.scheme ∧ lib.equalFold u.host base.host ∧
    Under '/' (trimSlash base.path.toList) (removeDotSegments '/' '.' u.path.toList)

instance (lib : Library) (u base : Url) : Decidable (Contained lib u base) :=
  inferInstanceAs (Decidable (_ ∧ _ ∧ _))

/-- What is used about parsing: the path of an absolute URL is empty or starts with a slash. -/
def RootsPaths (lib : Library) : Prop :=
  ∀ text u, lib.parseURL text = some u → u.scheme ≠ "" →
    u.path.toList = [] ∨ u.path.toList.head? = some '/'

end Guards

section Containment
variable {lib : Library} {client : Client lib} {href : String} {u : Url}

/-- Every guard compares scheme and host. -/
theorem schemeHost_of_accepted (accepted : Accepted client href)
    (parsed : lib.parseURL href = some u) :
    lib.equalFold u.scheme client.base.scheme ∧ lib.equalFold u.host client.base.host := by
  rcases accepted with ⟨-, rooted⟩ | under
  · simp only [Client.urlRootedAtBase, parsed, Option.any_some, rootedAt, Bool.and_eq_true] at rooted
    exact ⟨rooted.2.1.1.2, rooted.2.1.2⟩
  · simp only [assetHrefUnderOrigin, parsed, client.parsed, Bool.and_eq_true] at under
    exact under.1

theorem trimSlash_rooted {path : List Char} (rooted : path = [] ∨ path.head? = some '/') :
    trimSlash path = [] ∨ (trimSlash path).head? = some '/' := by
  unfold trimSlash
  split
  · match path with
    | [] => exact .inl rfl
    | [_] => exact .inl rfl
    | first :: second :: rest => exact .inr (by simpa using rooted)
  · exact rooted

/-- What the guard of the asset endpoint does establish: without dot segments, an address is
inside of the origin. -/
theorem contained_of_plain_asset (roots : RootsPaths lib) (absolute : u.scheme ≠ "")
    (under : assetHrefUnderOrigin lib href client.baseURL) (parsed : lib.parseURL href = some u)
    (plain : ∀ segment ∈ segmentsOf '/' u.path.toList, segment ≠ ['.'] ∧ segment ≠ ['.', '.']) :
    Contained lib u client.base := by
  obtain ⟨scheme, host⟩ := schemeHost_of_accepted (.inr under) parsed
  have rooted := roots href u parsed absolute
  refine ⟨scheme, host, ?_⟩
  rw [removeDotSegments_of_plain rooted plain]
  simp only [assetHrefUnderOrigin, parsed, client.parsed, Bool.and_eq_true, Bool.or_eq_true,
    beq_iff_eq, List.isPrefixOf_iff_prefix] at under
  rcases under.2 with (no_path | same) | below
  · rw [no_path]
    rcases rooted with empty | head
    · exact .inl empty
    · obtain ⟨rest, path_eq⟩ : ∃ rest, u.path.toList = '/' :: rest := List.head?_eq_some_iff.mp head
      exact .inr ⟨rest, by rw [path_eq]; rfl⟩
  · exact .inl same
  · exact .inr below

/-- An accepted address is inside of the origin exactly if the walk along its path ends inside
of the base path. -/
theorem contained_iff (roots : RootsPaths lib) (absolute : client.base.scheme ≠ "")
    (accepted : Accepted client href) (parsed : lib.parseURL href = some u) :
    Contained lib u client.base ↔
      EndsInside '/' '.' (trimSlash client.base.path.toList) u.path.toList := by
  obtain ⟨scheme, host⟩ := schemeHost_of_accepted accepted parsed
  have rooted := trimSlash_rooted (roots client.baseURL client.base client.parsed absolute)
  rw [Contained, under_removeDotSegments_iff rooted]
  exact ⟨fun contained => contained.2.2, fun ends => ⟨scheme, host, ends⟩⟩

end Containment

section Samples

/-- Reads addresses of one host, in upper or lower case. The query is part of the path. -/
def hostLibrary : Library where
  parseURL text :=
    let front := "https://api.example.com".toList
    let (scheme, path) := (text.toList.take front.length, text.toList.drop front.length)
    if scheme.map Char.toLower = front ∧ (path = [] ∨ path.head? = some '/') then
      some {
        scheme := "https", host := String.ofList (scheme.drop 8), path := String.ofList path
        queryGet := fun _ => "" }
    else none
  equalFold a b := a.toList.map Char.toLower == b.toList.map Char.toLower
  marshal _ := "null"
  marshal_ne_empty _ := by decide

theorem hostLibrary_roots : RootsPaths hostLibrary := by
  intro text u parsed _
  simp only [hostLibrary] at parsed
  split at parsed
  · rename_i reads
    cases parsed
    simpa using reads.2
  · cases parsed

def hostClient : Client hostLibrary where
  baseURL := "https://api.example.com/v1"
  base := { scheme := "https", host := "api.example.com", path := "/v1", queryGet := fun _ => "" }
  parsed := rfl

def hostUrl (path : String) : Url where
  scheme := "https"
  host := "api.example.com"
  path := path
  queryGet _ := ""

end Samples

theorem detour_contained : Contained hostLibrary (hostUrl "/v1/x/../a.tif") hostClient.base :=
  (contained_iff hostLibrary_roots (by decide)
    (.inr (by decide +kernel : assetHrefUnderOrigin hostLibrary
      "https://api.example.com/v1/x/../a.tif" hostClient.baseURL = true)) rfl).mpr (by decide +kernel)

/-- A sibling passes the guards on next pages, and a path that leads out passes all. -/
theorem outside_accepted :
    (∃ u, hostLibrary.parseURL "https://api.example.com/v1-other/search" = some u ∧
      Accepted hostClient "https://api.example.com/v1-other/search" ∧
      ¬ Contained hostLibrary u hostClient.base) ∧
    ∃ u, hostLibrary.parseURL "https://api.example.com/v1/../v2/a.tif" = some u ∧
      assetHrefUnderOrigin hostLibrary "https://api.example.com/v1/../v2/a.tif" hostClient.baseURL ∧
      (sameOrigin hostLibrary "https://api.example.com/v1/../v2/a.tif" hostClient.baseURL ∧
        hostClient.urlRootedAtBase "https://api.example.com/v1/../v2/a.tif") ∧
      ¬ Contained hostLibrary u hostClient.base := by
  refine ⟨⟨hostUrl "/v1-other/search", rfl, .inl ?_, ?_⟩, hostUrl "/v1/../v2/a.tif", rfl, ?_, ?_, ?_⟩
  all_goals decide +kernel

end OriginContainment
