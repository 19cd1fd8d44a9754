import StacProxy.StacItem
import Mathlib.Algebra.Order.Field.Rat
import Mathlib.Tactic.NormNum

/-!
# Pagination adapters

How the next page of an origin is read from its response: from a POST link with a body,
from a token, an offset or a next URL in the link, or from a `Link` header. The `auto`
adapter asks all of them and takes the most confident answer.
-/

namespace PageAdapter

open JsonValue StacItem

structure Url where
  scheme : String
  host : String
  path : String
  /-- `u.Query().Get`. -/
  queryGet : String → String

/-- The standard library functions that are not spelled out here. -/
structure Library where
  /-- `url.Parse`. -/
  parseURL : String → Option Url
  /-- `strings.EqualFold`. -/
  equalFold : String → String → Bool
  /-- `json.Marshal` of a decoded value, which has an encoding and not an empty one. -/
  marshal : Json → String
  marshal_ne_empty : ∀ value, marshal value ≠ ""

structure UpstreamResponse where
  features : List (Option Item) := []
  links : List (Option Link) := []
  /-- The values of the `Link` header. -/
  linkHeader : List String := []
  baseURL : String

structure NextState where
  token : String := ""
  url : String := ""
  body : String := ""
  offset : Int := 0
  done : Bool := false
  adapterName : String := ""

inductive CaptureError where
  /-- The link of the next page leads away from the origin. -/
  | notRooted (adapter href baseURL : String)
  deriving DecidableEq, Repr

/-- `strings.TrimSuffix(path, "/")`. -/
def trimSlash (path : List Char) : List Char :=
  if path.getLast? = some '/' then path.dropLast else path

variable (lib : Library)

/-- Same scheme and host, and a path under the path of the base. -/
def rootedAt (u base : Url) : Bool :=
  u.scheme != "" && lib.equalFold u.scheme base.scheme && lib.equalFold u.host base.host &&
    (trimSlash base.path.toList).isPrefixOf u.path.toList

def sameOrigin (rawURL baseURL : String) : Bool :=
  rawURL == "" || match lib.parseURL rawURL, lib.parseURL baseURL with
    | some u, some b => rootedAt lib u b
    | _, _ => false

section NextLink

def nextLinkOf (r : UpstreamResponse) : Option Link :=
  (r.links.find? fun link => link.any (·.rel == "next")).join

def hasNextLink (r : UpstreamResponse) : Bool :=
  (nextLinkOf r).isSome

/-- The `method` member of a link, if it is a string. -/
def linkMethod (link : Link) : String :=
  ((link.additionalFields.get? "method").bind Json.asString?).getD ""

end NextLink

def capturePostBody (r : UpstreamResponse) : Except CaptureError NextState :=
  match nextLinkOf r with
  | none => .ok { done := true }
  | some link =>
    if lib.equalFold (linkMethod link) "POST" = false then .ok { done := !hasNextLink r }
    else if link.href = "" then .ok { done := true }
    else if sameOrigin lib link.href r.baseURL = false then
      .error (.notRooted "post_body" link.href r.baseURL)
    else match link.additionalFields.get? "body" with
      | none => .ok { done := !hasNextLink r }
      | some rawBody => .ok { url := link.href, body := lib.marshal rawBody }

def extractTokenFromNextLink (r : UpstreamResponse) (paramName : String) : String :=
  match nextLinkOf r with
  | none => ""
  | some link =>
    let inHref := if link.href = "" then ""
      else ((lib.parseURL link.href).map (·.queryGet paramName)).getD ""
    if inHref ≠ "" then inHref
    else ((((link.additionalFields.get? "body").bind Json.asObject?).bind
      (·.get? paramName)).bind Json.asString?).getD ""

def captureToken (tokenParam : String) (r : UpstreamResponse) : NextState :=
  let tok := extractTokenFromNextLink lib r (if tokenParam = "" then "token" else tokenParam)
  if tok = "" then { done := !hasNextLink r } else { token := tok }

def captureNextURL (r : UpstreamResponse) : Except CaptureError NextState :=
  match nextLinkOf r with
  | none => .ok { done := true }
  | some link =>
    if link.href = "" then .ok { done := true }
    -- A POST link is left to the adapter that replays its body.
    else if lib.equalFold (linkMethod link) "POST" then .ok { done := !hasNextLink r }
    else if sameOrigin lib link.href r.baseURL = false then
      .error (.notRooted "next_url" link.href r.baseURL)
    else .ok { url := link.href }

/-- `strconv.Atoi`. -/
def atoi (text : String) : Option Int :=
  let digits (cs : List Char) : Option Nat :=
    if cs ≠ [] ∧ cs.all Char.isDigit then
      some (cs.foldl (fun n c => 10 * n + (c.toNat - '0'.toNat)) 0)
    else none
  match text.toList with
  | '-' :: cs => (digits cs).bind fun n => if n ≤ 2 ^ 63 then some (-n) else none
  | '+' :: cs => (digits cs).bind fun n => if n < 2 ^ 63 then some n else none
  | cs => (digits cs).bind fun n => if n < 2 ^ 63 then some n else none

def captureOffset (offsetParam : String) (r : UpstreamResponse) : NextState :=
  match nextLinkOf r with
  | none => { done := true }
  | some link =>
    if link.href = "" then { done := true }
    else match lib.parseURL link.href with
      | none => { done := true }
      | some u => match atoi (u.queryGet (if offsetParam = "" then "offset" else offsetParam)) with
        | none => { done := true }
        | some off =>
          if sameOrigin lib link.href r.baseURL = false then { done := true }
          else { url := link.href, offset := off }

section LinkHeader

/-- `unicode.IsSpace`. -/
def isSpace (c : Char) : Bool :=
  [9, 10, 11, 12, 13, 32, 0x85, 0xA0, 0x1680, 0x2028, 0x2029, 0x202F, 0x205F, 0x3000].contains
    c.toNat || (0x2000 ≤ c.toNat && c.toNat ≤ 0x200A)

def trimBoth (drop : Char → Bool) (text : List Char) : List Char :=
  ((text.dropWhile drop).reverse.dropWhile drop).reverse

/-- Split at the commas that are not inside angle brackets. The last piece is kept unless it
is empty. -/
def splitLinkValues : Nat → List Char → List Char → List (List Char)
  | _, buf, [] => if buf = [] then [] else [trimBoth isSpace buf]
  | depth, buf, c :: rest =>
    if c = '<' then splitLinkValues (depth + 1) (buf ++ [c]) rest
    else if c = '>' then splitLinkValues (depth - 1) (buf ++ [c]) rest
    else if c = ',' ∧ depth = 0 then trimBoth isSpace buf :: splitLinkValues depth [] rest
    else splitLinkValues depth (buf ++ [c]) rest

/-- The value of a `rel` parameter. -/
def relParameter (part : List Char) : Option (List Char) :=
  let part := trimBoth isSpace part
  if "rel".toList.isPrefixOf part ∧ '=' ∈ part then
    some (trimBoth (· == '"') (trimBoth isSpace ((part.dropWhile (· ≠ '=')).drop 1)))
  else none

/-- The target and the relation of one link. -/
def parseLinkValue (link : List Char) : List Char × List Char :=
  match trimBoth isSpace link with
  | '<' :: rest =>
    if '>' ∈ rest then
      (rest.takeWhile (· ≠ '>'),
        ((((rest.dropWhile (· ≠ '>')).drop 1).splitOn ';').findSome? relParameter).getD [])
    else ([], [])
  | _ => ([], [])

/-- `strings.Fields`. -/
def fields (text : List Char) : List (List Char) :=
  (text.splitOnP isSpace).filter (· ≠ [])

def containsRel (relValue : List Char) (target : String) : Bool :=
  (fields relValue).any fun tok => lib.equalFold (String.ofList tok) target

def parseNextFromLinkHeader (values : List String) : String :=
  (values.findSome? fun header => (splitLinkValues 0 [] header.toList).findSome? fun link =>
    let (href, rel) := parseLinkValue link
    if href ≠ [] ∧ containsRel lib rel "next" then some (String.ofList href) else none).getD ""

end LinkHeader

def captureLinkHeader (r : UpstreamResponse) : Except CaptureError NextState :=
  let href := parseNextFromLinkHeader lib r.linkHeader
  if href = "" then .ok { done := true }
  else if sameOrigin lib href r.baseURL = false then
    .error (.notRooted "link_header" href r.baseURL)
  else .ok { url := href }

structure Config where
  offsetParam : String := ""
  tokenParam : String := ""

/-- The adapters for one convention each. -/
inductive Convention where
  | postBody
  | token
  | offset
  | linkHeader
  | nextURL
  deriving DecidableEq, Repr

def Convention.name : Convention → String
  | postBody => "post_body"
  | token => "token"
  | offset => "offset"
  | linkHeader => "link_header"
  | nextURL => "next_url"

variable (cfg : Config)

def Convention.capture (r : UpstreamResponse) : Convention → Except CaptureError NextState
  | postBody => capturePostBody lib r
  | token => .ok (captureToken lib cfg.tokenParam r)
  | offset => .ok (captureOffset lib cfg.offsetParam r)
  | linkHeader => captureLinkHeader lib r
  | nextURL => captureNextURL lib r

/-- The confidence of an adapter in its own reading of a response. -/
def Convention.probe (r : UpstreamResponse) : Convention → ℚ × NextState
  | postBody => match capturePostBody lib r with
    | .error _ => (0, {})
    | .ok st => if st.body = "" then (0, {}) else (95 / 100, st)
  | token =>
    let st := captureToken lib cfg.tokenParam r
    (if st.token ≠ "" then 9 / 10 else 0, st)
  | offset =>
    let st := captureOffset lib cfg.offsetParam r
    (if 0 < st.offset ∨ st.url ≠ "" ∧ st.done = false then 7 / 10 else 0, st)
  | linkHeader => match captureLinkHeader lib r with
    | .error _ => (0, {})
    | .ok st => (if st.url = "" then 0 else 5 / 10, st)
  | nextURL => match captureNextURL lib r with
    | .error _ => (0, {})
    | .ok st => (if st.url = "" then 0 else 6 / 10, st)

/-- The best reading so far. -/
structure Reading where
  confidence : ℚ := 0
  state : NextState := {}
  name : String := ""

def considerAdapter (r : UpstreamResponse) (best : Reading) (inner : Convention) : Reading :=
  let probed := inner.probe lib cfg r
  if best.confidence < probed.1 then ⟨probed.1, probed.2, inner.name⟩ else best

def captureAuto (r : UpstreamResponse) : NextState :=
  let best := [Convention.postBody, .token, .offset, .linkHeader, .nextURL].foldl
    (considerAdapter lib cfg r) {}
  if best.confidence = 0 then { done := true } else { best.state with adapterName := best.name }

inductive Adapter where
  | auto
  | named (convention : Convention)
  deriving DecidableEq, Repr

def Adapter.capture (r : UpstreamResponse) : Adapter → Except CaptureError NextState
  | auto => .ok (captureAuto lib cfg r)
  | named convention => convention.capture lib cfg r

/-- The response links to its next page with a POST of `body` to an address of the origin. -/
structure PostLink (r : UpstreamResponse) (link : Link) (body : Json) : Prop where
  next : nextLinkOf r = some link
  post : lib.equalFold (linkMethod link) "POST" = true
  href : link.href ≠ ""
  rooted : sameOrigin lib link.href r.baseURL = true
  body : link.additionalFields.get? "body" = some body

section PostLinks
variable {lib} {r : UpstreamResponse} {link : Link} {body : Json}

theorem capturePostBody_eq (post : PostLink lib r link body) :
    capturePostBody lib r = .ok { url := link.href, body := lib.marshal body } := by
  simp [capturePostBody, post.next, post.post, post.href, post.rooted, post.body]

theorem probe_lt {convention : Convention} (other : convention ≠ .postBody) :
    (convention.probe lib cfg r).1 < 95 / 100 := by
  cases convention with
  | postBody => exact absurd rfl other
  | token | offset =>
    simp only [Convention.probe]
    split <;> norm_num
  | linkHeader | nextURL =>
    simp only [Convention.probe]
    split
    · norm_num
    · split <;> norm_num

/-- No other adapter is as sure of a POST link as the one that replays its body. -/
theorem considerAdapter_of_sure {best : Reading} {convention : Convention}
    (other : convention ≠ .postBody) (sure : best.confidence = 95 / 100) :
    considerAdapter lib cfg r best convention = best := by
  have weaker : (convention.probe lib cfg r).1 < 95 / 100 := probe_lt cfg other
  apply if_neg
  rw [sure]
  exact not_lt.mpr weaker.le

theorem captureAuto_eq (post : PostLink lib r link body) : captureAuto lib cfg r =
    { url := link.href, body := lib.marshal body, adapterName := "post_body" } := by
  have first : considerAdapter lib cfg r {} .postBody =
      ⟨95 / 100, { url := link.href, body := lib.marshal body }, "post_body"⟩ := by
    have positive : (0 : ℚ) < 95 / 100 := by norm_num
    simp [considerAdapter, Convention.probe, capturePostBody_eq post, lib.marshal_ne_empty,
      Convention.name, positive]
  have later : ∀ convention, convention ≠ .postBody → ∀ {best : Reading},
      best.confidence = 95 / 100 → considerAdapter lib cfg r best convention = best :=
    fun _ other _ sure => considerAdapter_of_sure cfg other sure
  simp [captureAuto, first, later]

/-- Both adapters that understand POST links capture the address and the body. -/
theorem capture_postLink (post : PostLink lib r link body) {adapter : Adapter}
    (understands : adapter = .auto ∨ adapter = .named .postBody) :
    ∃ st, adapter.capture lib cfg r = .ok st ∧ st.done = false ∧ st.token = "" ∧
      st.url = link.href ∧ st.body = lib.marshal body := by
  rcases understands with rfl | rfl
  · exact ⟨_, congrArg Except.ok (captureAuto_eq cfg post), rfl, rfl, rfl, rfl⟩
  · exact ⟨_, capturePostBody_eq post, rfl, rfl, rfl, rfl⟩

end PostLinks

section Rooted
variable {lib cfg} {r : UpstreamResponse}

@[simp] theorem sameOrigin_empty (baseURL : String) : sameOrigin lib "" baseURL := rfl

theorem sameOrigin_of_convention {convention : Convention} {st : NextState}
    (captured : convention.capture lib cfg r = .ok st) : sameOrigin lib st.url r.baseURL := by
  cases convention <;> simp only [Convention.capture, capturePostBody, captureToken, captureOffset,
    captureLinkHeader, captureNextURL] at captured <;> grind [sameOrigin_empty]

theorem sameOrigin_of_probe (convention : Convention) :
    sameOrigin lib (convention.probe lib cfg r).2.url r.baseURL := by
  have captured : ∀ st, convention.capture lib cfg r = .ok st → sameOrigin lib st.url r.baseURL :=
    fun _ => sameOrigin_of_convention
  cases convention <;> simp only [Convention.probe, Convention.capture] at captured ⊢ <;>
    grind [sameOrigin_empty]

/-- Whatever the adapter, a captured next URL belongs to the origin. -/
theorem sameOrigin_of_capture {adapter : Adapter} {st : NextState}
    (captured : adapter.capture lib cfg r = .ok st) : sameOrigin lib st.url r.baseURL := by
  cases adapter with
  | named convention => exact sameOrigin_of_convention captured
  | auto =>
    have kept : ∀ (inner : List Convention) (best : Reading), sameOrigin lib best.state.url r.baseURL →
        sameOrigin lib (inner.foldl (considerAdapter lib cfg r) best).state.url r.baseURL := by
      intro inner
      induction inner with
      | nil => exact fun _ rooted => rooted
      | cons first rest ih =>
        intro best rooted
        apply ih
        rw [considerAdapter]
        split
        · exact sameOrigin_of_probe first
        · exact rooted
    simp only [Adapter.capture, captureAuto, Except.ok.injEq] at captured
    subst captured
    split
    · rfl
    · exact kept _ {} rfl

end Rooted

end PageAdapter
