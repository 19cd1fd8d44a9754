import Mathlib.Data.List.DropRight
import StacProxy.Base64Url
import StacProxy.JsonValue
import StacProxy.OriginContainment

/-!
# Rewriting the links of an origin's answers

The links of an origin's document that lead into the origin are rebased onto the proxy, and its
assets are treated by the mode of the origin. Only members known to hold further linked objects
are visited, down to a fixed depth. The rebasing exchanges a prefix of the text, so it is exact
only if the two bases end alike and no text but a separator follows the origin's.
-/

namespace LinkRewriting

open JsonValue PageAdapter OriginClient OriginContainment

section Hrefs

/-- The modes of `rewrite_assets`; an empty text is `never`. -/
inductive AssetMode where
  | never
  | sign
  | proxy
  deriving DecidableEq

/-- What a handler reads about itself and about one origin. Durations are in nanoseconds. -/
structure Rewriter (lib : Library) where
  proxyBaseURL : String
  client : Client lib
  originID : String := ""
  rewriteAssets : AssetMode := .never
  assetSigner : Option (String → Int → String) := none
  assetSignTTL : Int := 0

/-- `strings.TrimRight(text, "/")`. -/
def trimSlashes (text : List Char) : List Char := text.rdropWhile (· == '/')

def rewriteURL (proxyBaseURL upstreamBase href : String) : String :=
  if upstreamBase.toList.isPrefixOf href.toList then
    String.ofList (proxyBaseURL.toList ++ href.toList.drop upstreamBase.toList.length)
  else href

variable {lib : Library} (h : Rewriter lib)

def Rewriter.rewriteURL (href : String) : String :=
  LinkRewriting.rewriteURL h.proxyBaseURL h.client.baseURL href

def Rewriter.rewriteAssetHref (href : String) : String :=
  match h.rewriteAssets with
  | .sign => match h.assetSigner with
    | none => href
    | some signer => signer href (if h.assetSignTTL ≤ 0 then 15 * 60 * 1000000000 else h.assetSignTTL)
  | .proxy =>
    if h.proxyBaseURL == "" then href
    else if !assetHrefUnderOrigin lib href h.client.baseURL then href
    else
      let ref := String.ofList (Base64Url.encode href.toUTF8.toList)
      String.ofList (trimSlashes h.proxyBaseURL.toList) ++ "/assets/" ++ h.originID ++ "/" ++ ref
  | .never => href

end Hrefs

section Documents

def rewriteLinksMaxDepth : Nat := 16

def rewriteLinksRecurseKeys : List String :=
  ["features", "collections", "included", "items", "children"]

/-- Rewrites the member `href` of an object, if it is a text. -/
def rewriteHref (rewrite : String → String) : Json → Json
  | .obj members => .obj (members.map fun (key, value) => match key, value with
    | "href", .str href => (key, .str (rewrite href))
    | _, _ => (key, value))
  | value => value

def rewriteLinkList (rewrite : String → String) : Json → Json
  | .arr links => .arr (links.map (rewriteHref rewrite))
  | value => value

def rewriteAssetMap (rewrite : String → String) : Json → Json
  | .obj assets => .obj (assets.map fun (key, value) => (key, rewriteHref rewrite value))
  | value => value

variable {lib : Library} (h : Rewriter lib)

/-- The first argument is the number of levels that are still visited. -/
def Rewriter.rewriteLinksDepth : Nat → Json → Json
  | 0, data => data
  | levels + 1, .obj members => .obj (members.map fun (key, value) =>
      if key = "links" then (key, rewriteLinkList h.rewriteURL value)
      else if key = "assets" then (key, rewriteAssetMap h.rewriteAssetHref value)
      else if key ∈ rewriteLinksRecurseKeys then (key, rewriteLinksDepth levels value)
      else (key, value))
  | levels + 1, .arr elems => .arr (elems.map (rewriteLinksDepth levels))
  | _ + 1, data => data

def Rewriter.rewriteLinks (data : Json) : Json :=
  h.rewriteLinksDepth (rewriteLinksMaxDepth + 1) data

end Documents

section Exactness

/-- The end of a base: nothing follows, or a separator. -/
def Bounded (rest : List Char) : Prop :=
  rest = [] ∨ rest.head? ∈ [some '/', some '?', some '#']

instance (rest : List Char) : Decidable (Bounded rest) := inferInstanceAs (Decidable (_ ∨ _))

/-- Exact rebasing: what follows the origin's base is joined to the proxy's by the same
separator, and every other address stays. -/
def exactURL (proxyBaseURL upstreamBase href : String) : String :=
  let base := trimSlash upstreamBase.toList
  let rest := href.toList.drop base.length
  if base <+: href.toList ∧ Bounded rest then
    String.ofList (trimSlashes proxyBaseURL.toList ++ rest)
  else href

/-- The ends of both bases fit each other at this address. -/
def EndsFit (proxyBaseURL upstreamBase href : String) : Prop :=
  let proxy := proxyBaseURL.toList
  let base := upstreamBase.toList
  let rest := href.toList.drop (trimSlash base).length
  if base.getLast? = some '/' then
    if base <+: href.toList then proxy = trimSlashes proxy ++ ['/']
    else trimSlash base <+: href.toList → Bounded rest → trimSlashes proxy = trimSlash base
  else
    base <+: href.toList → if Bounded rest then trimSlashes proxy = proxy else proxy = base

variable {proxyBaseURL upstreamBase href : String}

theorem rewriteURL_append {rest : List Char} (follows : href.toList = upstreamBase.toList ++ rest) :
    rewriteURL proxyBaseURL upstreamBase href = String.ofList (proxyBaseURL.toList ++ rest) := by
  have found : upstreamBase.toList <+: href.toList := ⟨rest, follows.symm⟩
  rw [rewriteURL, if_pos (List.isPrefixOf_iff_prefix.mpr found), follows, List.drop_left]

theorem rewriteURL_other (outside : ¬ upstreamBase.toList <+: href.toList) :
    rewriteURL proxyBaseURL upstreamBase href = href :=
  if_neg fun found => outside (List.isPrefixOf_iff_prefix.mp found)

theorem exactURL_append {rest : List Char}
    (follows : href.toList = trimSlash upstreamBase.toList ++ rest) :
    exactURL proxyBaseURL upstreamBase href =
      if Bounded rest then String.ofList (trimSlashes proxyBaseURL.toList ++ rest) else href := by
  have found : trimSlash upstreamBase.toList <+: href.toList := ⟨rest, follows.symm⟩
  have after : href.toList.drop (trimSlash upstreamBase.toList).length = rest := by
    rw [follows, List.drop_left]
  simp only [exactURL, found, after, true_and]

theorem exactURL_other (outside : ¬ trimSlash upstreamBase.toList <+: href.toList) :
    exactURL proxyBaseURL upstreamBase href = href :=
  if_neg fun found => outside found.1

theorem trimSlash_append_slash {text : List Char} (ends : text.getLast? = some '/') :
    trimSlash text ++ ['/'] = text := by
  rw [trimSlash, if_pos ends]
  exact List.dropLast_append_getLast? '/' ends

/-- Two addresses with one end are the same exactly if their fronts are. -/
theorem ofList_append_inj {front other rest : List Char} :
    String.ofList (front ++ rest) = String.ofList (other ++ rest) ↔ front = other := by
  rw [String.ofList_inj, List.append_left_inj]

theorem ofList_append_eq_href {front other rest : List Char}
    (follows : href.toList = other ++ rest) : String.ofList (front ++ rest) = href ↔ front = other := by
  have whole : href = String.ofList (other ++ rest) := by rw [← follows, String.ofList_toList]
  rw [whole, ofList_append_inj]

/-- Rebasing is exact at an address exactly if the ends of the bases fit each other there. -/
theorem rewriteURL_exact_iff (proxyBaseURL upstreamBase href : String) :
    rewriteURL proxyBaseURL upstreamBase href = exactURL proxyBaseURL upstreamBase href ↔
      EndsFit proxyBaseURL upstreamBase href := by
  unfold EndsFit
  by_cases slash : upstreamBase.toList.getLast? = some '/'
  · have whole := trimSlash_append_slash slash
    rw [if_pos slash]
    by_cases inside : upstreamBase.toList <+: href.toList
    · obtain ⟨rest, follows⟩ := inside
      have bare : href.toList = trimSlash upstreamBase.toList ++ '/' :: rest := by
        rw [← follows, ← whole, List.append_assoc, List.singleton_append, whole]
      have bounded : Bounded ('/' :: rest) := .inr (by simp)
      rw [if_pos ⟨rest, follows⟩, rewriteURL_append follows.symm, exactURL_append bare,
        if_pos bounded, ← List.singleton_append, ← List.append_assoc, ofList_append_inj]
    · rw [if_neg inside, rewriteURL_other inside]
      by_cases under : trimSlash upstreamBase.toList <+: href.toList
      · obtain ⟨rest, follows⟩ := under
        rw [exactURL_append follows.symm, ← follows, List.drop_left]
        by_cases bounded : Bounded rest
        · rw [if_pos bounded, eq_comm, ofList_append_eq_href follows.symm]
          simp [bounded]
        · simp [bounded]
      · rw [exactURL_other under]
        simp [under]
  · have same : trimSlash upstreamBase.toList = upstreamBase.toList := if_neg slash
    rw [if_neg slash, same]
    by_cases inside : upstreamBase.toList <+: href.toList
    · obtain ⟨rest, follows⟩ := inside
      have bare : href.toList = trimSlash upstreamBase.toList ++ rest := by rw [same, follows]
      rw [rewriteURL_append follows.symm, exactURL_append bare, ← follows, List.drop_left]
      by_cases bounded : Bounded rest
      · rw [if_pos bounded, if_pos bounded, ofList_append_inj]
        simp [eq_comm]
      · rw [if_neg bounded, if_neg bounded, ofList_append_eq_href follows.symm]
        simp
    · rw [rewriteURL_other inside, exactURL_other (by rwa [same])]
      simp [inside]

/-- A sibling of the origin's base is rebased, a slash of the proxy's base is doubled, and one
of the origin's base is lost. -/
theorem rebased_inexactly :
    rewriteURL "https://p.example.com" "https://o.example.com/api"
        "https://o.example.com/api-v2/items" = "https://p.example.com-v2/items" ∧
    exactURL "https://p.example.com" "https://o.example.com/api"
        "https://o.example.com/api-v2/items" = "https://o.example.com/api-v2/items" ∧
    rewriteURL "https://p.example.com/" "https://o.example.com" "https://o.example.com/items" =
      "https://p.example.com//items" ∧
    exactURL "https://p.example.com/" "https://o.example.com" "https://o.example.com/items" =
      "https://p.example.com/items" ∧
    rewriteURL "https://p.example.com" "https://o.example.com/" "https://o.example.com/items" =
      "https://p.example.comitems" ∧
    exactURL "https://p.example.com" "https://o.example.com/" "https://o.example.com/items" =
      "https://p.example.com/items" := by
  decide +kernel

end Exactness

end LinkRewriting
