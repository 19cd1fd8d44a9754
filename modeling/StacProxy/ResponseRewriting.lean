import Mathlib.Data.List.Infix
import StacProxy.AuthzMiddleware
import StacProxy.JsonRoundTrip
import StacProxy.LinkRewriting
import StacProxy.OutboundRequest

/-!
# Rewriting responses

The links of a response are rewritten after a scan of its bytes for the names `links` and
`assets`. The scan looks for one spelling of each name, a JSON text may use others. What passes
the scan is decoded as an object, so documents of other kinds are not rewritten either.
-/

namespace ResponseRewriting

open JsonValue JsonText Utf8Characters LinkRewriting OutboundRequest AuthzMiddleware
open PageAdapter (Library)

section Transformation

def bodyMayContainRewritableKeys (body : List UInt8) : Bool :=
  decide ("\"links\"".toUTF8.data.toList <:+: body) ||
    decide ("\"assets\"".toUTF8.data.toList <:+: body)

variable (numbers : Numbers) {lib : Library} (h : Rewriter lib)

def transformResponse (resp : Response) : Response :=
  if h.proxyBaseURL == "" then resp
  else if !decide ("json".toList <:+: (Header.get resp.header "Content-Type").toList) then resp
  else if !bodyMayContainRewritableKeys resp.body then resp
  else match unmarshal numbers resp.body with
    | some (.obj data) => { resp with body := marshal numbers (h.rewriteLinks (.obj data)) }
    -- null decodes into a nil map
    | some .null => { resp with body := marshal numbers .null }
    | _ => resp

end Transformation

section Entries

def hasHref : Json → Bool
  | .obj members => members.any fun (key, value) => key == "href" && value.asString?.isSome
  | _ => false

def linksHref : Json → Bool
  | .arr links => links.any hasHref
  | _ => false

def assetsHref : Json → Bool
  | .obj assets => assets.any fun asset => hasHref asset.2
  | _ => false

/-- An object that is visited has a link or an asset with an address. -/
def hasEntry : Nat → Json → Bool
  | levels + 1, .obj members => members.any fun (key, value) =>
      if key = "links" then linksHref value
      else if key = "assets" then assetsHref value
      else key ∈ rewriteLinksRecurseKeys && hasEntry levels value
  | levels + 1, .arr elems => elems.any (hasEntry levels)
  | _, _ => false

theorem map_fixed {α : Type} {f : α → α} {l : List α} (fixed : ∀ x ∈ l, f x = x) : l.map f = l :=
  (List.map_congr_left fixed).trans (List.map_id l)

section Unchanged
variable {rewrite : String → String} {value : Json}

theorem rewriteHref_of_none (absent : hasHref value = false) :
    rewriteHref rewrite value = value := by
  cases value with
  | obj members =>
    simp only [hasHref, List.any_eq_false, Bool.and_eq_true, beq_iff_eq, not_and] at absent
    refine congrArg Json.obj (map_fixed fun member found => ?_)
    dsimp only
    split
    · rename_i href same
      exact absurd (by rw [same]; rfl) (absent member found (by assumption))
    · rfl
  | _ => rfl

theorem rewriteLinkList_of_none (absent : linksHref value = false) :
    rewriteLinkList rewrite value = value := by
  cases value with
  | arr links =>
    simp only [linksHref, List.any_eq_false, Bool.not_eq_true] at absent
    exact congrArg Json.arr (map_fixed fun link found => rewriteHref_of_none (absent link found))
  | _ => rfl

theorem rewriteAssetMap_of_none (absent : assetsHref value = false) :
    rewriteAssetMap rewrite value = value := by
  cases value with
  | obj assets =>
    simp only [assetsHref, List.any_eq_false, Bool.not_eq_true] at absent
    refine congrArg Json.obj (map_fixed fun asset found => ?_)
    dsimp only
    rw [rewriteHref_of_none (absent asset found)]
  | _ => rfl

end Unchanged

variable {lib : Library} (h : Rewriter lib)

/-- Without an entry, nothing is rewritten. -/
theorem rewriteLinksDepth_of_none {levels : Nat} {value : Json}
    (absent : hasEntry levels value = false) : h.rewriteLinksDepth levels value = value := by
  induction levels generalizing value with
  | zero => rw [Rewriter.rewriteLinksDepth]
  | succ levels ih =>
    cases value with
    | obj members =>
      simp only [hasEntry, List.any_eq_false] at absent
      rw [Rewriter.rewriteLinksDepth]
      refine congrArg Json.obj (map_fixed fun member found => ?_)
      have none_here := absent member found
      dsimp only at none_here ⊢
      split
      · rename_i links
        rw [if_pos links, Bool.not_eq_true] at none_here
        rw [rewriteLinkList_of_none none_here]
      · rename_i links
        rw [if_neg links] at none_here
        split
        · rename_i assets
          rw [if_pos assets, Bool.not_eq_true] at none_here
          rw [rewriteAssetMap_of_none none_here]
        · rename_i assets
          rw [if_neg assets] at none_here
          split
          · rename_i visited
            simp only [visited, decide_true, Bool.true_and, Bool.not_eq_true] at none_here
            rw [ih none_here]
          · rfl
    | arr elems =>
      simp only [hasEntry, List.any_eq_false, Bool.not_eq_true] at absent
      rw [Rewriter.rewriteLinksDepth]
      exact congrArg Json.arr (map_fixed fun elem found => ih (absent elem found))
    | _ => rfl

end Entries

section Fitting
variable {numbers : Numbers} {rewrite : String → String}

/-- Rewriting members one by one keeps an object fitting. -/
theorem fits_mapMembers {depth : Nat} {members : Members} {f : String × Json → String × Json}
    (fits : Fits numbers (depth + 1) (.obj members)) (names : ∀ member ∈ members, (f member).1 = member.1)
    (values : ∀ member ∈ members, Fits numbers depth member.2 → Fits numbers depth (f member).2) :
    Fits numbers (depth + 1) (.obj (members.map f)) := by
  obtain ⟨sorted, each⟩ := fits
  refine ⟨?_, fun member found => ?_⟩
  · rw [List.map_map]
    exact (List.map_congr_left names).symm ▸ sorted
  · obtain ⟨old, at_old, rfl⟩ := List.mem_map.mp found
    exact values old at_old (each old at_old)

theorem fits_mapElems {depth : Nat} {elems : List Json} {f : Json → Json}
    (fits : Fits numbers (depth + 1) (.arr elems))
    (values : ∀ value, Fits numbers depth value → Fits numbers depth (f value)) :
    Fits numbers (depth + 1) (.arr (elems.map f)) := by
  intro value found
  obtain ⟨old, at_old, rfl⟩ := List.mem_map.mp found
  exact values old (fits old at_old)

theorem fits_rewriteHref {depth : Nat} {value : Json} (fits : Fits numbers depth value) :
    Fits numbers depth (rewriteHref rewrite value) := by
  match depth, value with
  | 0, .obj _ => exact fits.elim
  | depth + 1, .obj members =>
    refine fits_mapMembers fits (fun member _ => ?_) fun member _ value_fits => ?_
    · dsimp only
      split <;> rfl
    · dsimp only
      split
      · cases depth <;> trivial
      · exact value_fits
  | _, .null | _, .bool _ | _, .num _ | _, .str _ | _, .arr _ => exact fits

theorem fits_rewriteLinkList {depth : Nat} {value : Json} (fits : Fits numbers depth value) :
    Fits numbers depth (rewriteLinkList rewrite value) := by
  match depth, value with
  | 0, .arr _ => exact fits.elim
  | depth + 1, .arr links => exact fits_mapElems fits fun _ => fits_rewriteHref
  | _, .null | _, .bool _ | _, .num _ | _, .str _ | _, .obj _ => exact fits

theorem fits_rewriteAssetMap {depth : Nat} {value : Json} (fits : Fits numbers depth value) :
    Fits numbers depth (rewriteAssetMap rewrite value) := by
  match depth, value with
  | 0, .obj _ => exact fits.elim
  | depth + 1, .obj assets =>
    exact fits_mapMembers fits (fun _ _ => rfl) fun _ _ => fits_rewriteHref
  | _, .null | _, .bool _ | _, .num _ | _, .str _ | _, .arr _ => exact fits

/-- A document that could be read can still be written and read after the rewriting. -/
theorem fits_rewriteLinksDepth {lib : Library} (h : Rewriter lib) {levels depth : Nat} {value : Json}
    (fits : Fits numbers depth value) : Fits numbers depth (h.rewriteLinksDepth levels value) := by
  induction levels generalizing depth value with
  | zero => exact fits
  | succ levels ih =>
    match depth, value with
    | 0, .obj _ => exact fits.elim
    | 0, .arr _ => exact fits.elim
    | depth + 1, .obj members =>
      refine fits_mapMembers fits (fun member _ => ?_) fun member _ value_fits => ?_
      · dsimp only
        split_ifs <;> rfl
      · dsimp only
        split_ifs
        · exact fits_rewriteLinkList value_fits
        · exact fits_rewriteAssetMap value_fits
        · exact ih value_fits
        · exact value_fits
    | depth + 1, .arr elems => exact fits_mapElems fits fun _ => ih
    | _, .null => exact fits
    | _, .bool _ => exact fits
    | _, .num _ => exact fits
    | _, .str _ => exact fits

end Fitting

section FastPath
variable (numbers : Numbers) {lib : Library} (h : Rewriter lib)

/-- The response decodes as after decoding, rewriting and encoding, and the scan skips no
document with an entry. -/
structure FastPathInvisible (resp : Response) (value : Json) : Prop where
  same : unmarshal numbers (transformResponse numbers h resp).body =
    unmarshal numbers (marshal numbers (h.rewriteLinks value))
  scanned : hasEntry (rewriteLinksMaxDepth + 1) value → bodyMayContainRewritableKeys resp.body

def quoted (key : String) : List Char := '"' :: (key.toList ++ ['"'])

/-- One of the names stands between quotes somewhere in the text. -/
def Spelled (body : List UInt8) : Prop :=
  ∃ key ∈ ["links", "assets"], quoted key <:+: characters body

theorem bodyMayContainRewritableKeys_iff (body : List UInt8) :
    bodyMayContainRewritableKeys body ↔ Spelled body := by
  have ascii : ∀ key ∈ ["links", "assets"], (quoted key).all (·.toNat < 128) := by decide
  have links : quoted "links" <:+: characters body ↔ asciiBytes (quoted "links") <:+: body :=
    infix_characters_iff (by simpa using ascii "links" (by decide))
  have assets : quoted "assets" <:+: characters body ↔ asciiBytes (quoted "assets") <:+: body :=
    infix_characters_iff (by simpa using ascii "assets" (by decide))
  have links_bytes : "\"links\"".toUTF8.data.toList = asciiBytes (quoted "links") := by
    decide +kernel
  have assets_bytes : "\"assets\"".toUTF8.data.toList = asciiBytes (quoted "assets") := by
    decide +kernel
  simp only [bodyMayContainRewritableKeys, links_bytes, assets_bytes, Bool.or_eq_true,
    decide_eq_true_eq, ← links, ← assets]
  simp [Spelled]

variable {numbers h} {resp : Response} {value : Json}

theorem unmarshal_rewritten (decoded : unmarshal numbers resp.body = some value) :
    unmarshal numbers (marshal numbers (h.rewriteLinks value)) = some (h.rewriteLinks value) :=
  unmarshal_marshal (fits_rewriteLinksDepth h (decode_fits decoded))

theorem transformResponse_json (enabled : h.proxyBaseURL ≠ "")
    (json : "json".toList <:+: (Header.get resp.header "Content-Type").toList) :
    unmarshal numbers resp.body = some value →
      transformResponse numbers h resp = if bodyMayContainRewritableKeys resp.body then
        match value with
        | .obj _ => { resp with body := marshal numbers (h.rewriteLinks value) }
        | .null => { resp with body := marshal numbers .null }
        | _ => resp
      else resp := by
  intro decoded
  rw [transformResponse, if_neg (by simpa using enabled), if_neg (by simpa using json), decoded]
  by_cases seen : bodyMayContainRewritableKeys resp.body
  · rw [if_neg (by simpa using seen), if_pos seen]
    cases value <;> rfl
  · rw [if_pos (by simpa using seen), if_neg seen]

/-- The fast path is invisible exactly if every entry is spelled somewhere in the text, and
nothing changes in a document that is not an object. -/
theorem fastPathInvisible_iff (enabled : h.proxyBaseURL ≠ "")
    (json : "json".toList <:+: (Header.get resp.header "Content-Type").toList)
    (decoded : unmarshal numbers resp.body = some value) :
    FastPathInvisible numbers h resp value ↔
      (hasEntry (rewriteLinksMaxDepth + 1) value → Spelled resp.body) ∧
        (value.asObject?.isSome ∨ h.rewriteLinks value = value) := by
  have shape := transformResponse_json enabled json decoded
  have slow := unmarshal_rewritten (h := h) decoded
  have kept : (transformResponse numbers h resp).body = resp.body →
      (unmarshal numbers (transformResponse numbers h resp).body =
        unmarshal numbers (marshal numbers (h.rewriteLinks value)) ↔
          h.rewriteLinks value = value) := by
    intro unchanged
    rw [unchanged, decoded, slow, Option.some_inj, eq_comm]
  constructor
  · rintro ⟨same, scanned⟩
    refine ⟨fun entry => (bodyMayContainRewritableKeys_iff _).mp (scanned entry), ?_⟩
    cases value with
    | obj members => exact .inl rfl
    | null | bool _ | num _ | str _ => exact .inr rfl
    | arr elems =>
      refine .inr ((kept ?_).mp same)
      rw [shape]
      split <;> rfl
  · rintro ⟨spelled, settled⟩
    refine ⟨?_, fun entry => (bodyMayContainRewritableKeys_iff _).mpr (spelled entry)⟩
    by_cases seen : bodyMayContainRewritableKeys resp.body
    · rw [if_pos seen] at shape
      cases value with
      | obj members => rw [shape]
      | null => rw [shape]; rfl
      | bool _ | num _ | str _ => exact (kept (by rw [shape])).mpr rfl
      | arr elems =>
        refine (kept (by rw [shape])).mpr (settled.resolve_left ?_)
        simp [Json.asObject?]
    · have no_entry : hasEntry (rewriteLinksMaxDepth + 1) value = false := by
        rw [← Bool.not_eq_true]
        exact fun entry => seen ((bodyMayContainRewritableKeys_iff _).mpr (spelled entry))
      rw [if_neg seen] at shape
      exact (kept (by rw [shape])).mpr (rewriteLinksDepth_of_none h no_entry)

end FastPath

section Samples

def parseDigit : List Char → Option ℚ
  | [c] => if c.isDigit then some (c.toNat - 48 : Nat) else none
  | _ => none

def formatDigit (q : ℚ) : List Char := [Char.ofNat (48 + q.num.toNat)]

theorem formatDigit_of_parseDigit {lexeme : List Char} {q : ℚ}
    (parsed : parseDigit lexeme = some q) : formatDigit q = lexeme := by
  unfold parseDigit at parsed
  split at parsed
  · rename_i c
    split at parsed
    · rename_i digit
      cases parsed
      have low : 48 ≤ c.toNat := by
        simp only [Char.isDigit, Bool.and_eq_true, decide_eq_true_eq] at digit
        exact digit.1
      have same : 48 + (c.toNat - 48) = c.toNat := by omega
      simp [formatDigit, same]
    · cases parsed
  · cases parsed

/-- Reads the numbers of one digit. -/
def digitNumbers : Numbers where
  parse := parseDigit
  format := formatDigit
  readable lexeme q number parsed := by
    rw [formatDigit_of_parseDigit parsed]
    exact ⟨number, parsed⟩

def sampleRewriter : Rewriter OriginContainment.hostLibrary where
  proxyBaseURL := "https://p.example.com"
  client := OriginContainment.hostClient

def jsonResponse (text : String) : Response where
  status := 200
  header := [("Content-Type", "application/json")]
  body := text.toUTF8.data.toList

def linkedDocument : Json :=
  .obj [("links", .arr [.obj [("href", .str "https://api.example.com/v1/a")]])]

/-- The address of the first link. -/
def firstHref (value : Json) : Option String := do
  let links ← (← value.asObject?).get? "links"
  let link ← (← links.asArray?).head?
  let href ← (← link.asObject?).get? "href"
  href.asString?

theorem plain_spelling_rewritten :
    FastPathInvisible digitNumbers sampleRewriter
      (jsonResponse "\x7b\"links\":[\x7b\"href\":\"https://api.example.com/v1/a\"\x7d]\x7d")
      linkedDocument :=
  (fastPathInvisible_iff (by decide) (by decide +kernel) rfl).mpr
    ⟨fun _ => ⟨"links", by simp, by decide +kernel⟩, .inl rfl⟩

def escapedResponse : Response :=
  jsonResponse "\x7b\"l\\u0069nks\":[\x7b\"href\":\"https://api.example.com/v1/a\"\x7d]\x7d"

/-- Nothing is rewritten if the name is written with an escape. -/
theorem escaped_spelling_skipped :
    unmarshal digitNumbers escapedResponse.body = some linkedDocument ∧
      hasEntry (rewriteLinksMaxDepth + 1) linkedDocument = true ∧
      bodyMayContainRewritableKeys escapedResponse.body = false ∧
      (transformResponse digitNumbers sampleRewriter escapedResponse).body = escapedResponse.body ∧
      firstHref linkedDocument = some "https://api.example.com/v1/a" ∧
      firstHref (sampleRewriter.rewriteLinks linkedDocument) = some "https://p.example.com/a" :=
  ⟨rfl, by decide +kernel, by decide +kernel, by decide +kernel, by decide +kernel, by decide +kernel⟩

end Samples

end ResponseRewriting
