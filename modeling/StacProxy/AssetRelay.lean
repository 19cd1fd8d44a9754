import StacProxy.CursorGrowth
import StacProxy.OutboundRequest
import StacProxy.PageCache
import StacProxy.RewriteFrame
import StacProxy.SignedUrl
import StacProxy.Utf8Characters

/-!
# Assets through the proxy

An origin in the mode `proxy` has the links of its assets replaced by links into the proxy that
carry the original address, and the proxy serves them from the origin. The rewriter and the
endpoint ask the same guard, so every link that is made leads back to its asset, and the endpoint
fetches nothing but addresses under the base of an origin in that mode.
-/

namespace AssetRelay

open JsonValue PercentCoding PageAdapter OriginClient OriginContainment OutboundRequest LinkRewriting
open RequestPath hiding Url
open AuthzMiddleware (Response)

section Source

def idChar (c : Char) : Bool := c.isAlphanum || c == '-'

/-- Letters, digits and hyphens, the first a letter. -/
def isValidID (id : String) : Bool :=
  match id.toList with
  | [] => false
  | first :: rest => first.isAlpha && rest.all idChar

/-- A handler for origins that the validator let through. -/
structure Handler (lib : Library) where
  proxyBaseURL : String
  origins : List (Rewriter lib)
  shared : ∀ o ∈ origins, o.proxyBaseURL = proxyBaseURL
  valid : ∀ o ∈ origins, isValidID o.originID = true
  distinct : (origins.map Rewriter.originID).Nodup

/-- The route `/assets/{originId}/{ref}`. -/
def matchAsset (path : Bytes) : Option (Bytes × Bytes) :=
  match segments path with
  | [root, assets, originID, ref] =>
    if root = [] ∧ assets = bytes "assets" ∧ ref ≠ [] then some (originID, ref) else none
  | _ => none

def assetRequestPassthroughHeaders : List String :=
  ["Range", "If-Match", "If-None-Match", "If-Modified-Since", "If-Unmodified-Since", "Accept",
    "Accept-Encoding", "User-Agent"]

def assetResponsePassthroughHeaders : List String :=
  ["Content-Type", "Content-Length", "Content-Range", "Content-Encoding", "Content-Disposition",
    "Accept-Ranges", "ETag", "Last-Modified", "Cache-Control", "Expires", "Vary"]

/-- The fields of the list that are there and not empty. -/
def passthrough (names : List String) (h : Header) : Header :=
  names.foldl (fun out name =>
    if Header.get h name = "" then out else Header.set out name (Header.get h name)) []

structure AssetRequest where
  method : Bytes
  header : Header := []
  requestID : String := ""

structure Fetch where
  method : Bytes
  url : String
  header : Header

/-- `http.Error`. -/
structure Refusal where
  status : ℕ
  text : String
  deriving DecidableEq

/-- `url.Parse` of a Go string, which need not be a text. -/
structure ByteParser (lib : Library) where
  parse : Bytes → Option Url
  parse_bytes : ∀ text, parse (bytes text) = lib.parseURL text

/-- The guard on parsed addresses. -/
def urlUnder (lib : Library) (hu ou : Url) : Bool :=
  lib.equalFold hu.scheme ou.scheme && lib.equalFold hu.host ou.host &&
    (let basePath := trimSlash ou.path.toList
     basePath == [] || hu.path.toList == basePath || (basePath ++ ['/']).isPrefixOf hu.path.toList)

variable {lib : Library} (h : Handler lib) (parser : ByteParser lib)

def Handler.origin (id : Bytes) : Option (Rewriter lib) :=
  h.origins.find? fun o => bytes o.originID = id

def decodeRef (ref : Bytes) : Option Bytes :=
  Base64Url.decode (ref.map fun b => Char.ofNat b.toNat)

def forwardRequestID (requestID : String) (header : Header) : Header :=
  if requestID = "" then header else Header.set header "X-Request-ID" requestID

/-- The request that the endpoint makes for an address. -/
def upstreamRequest (urlString : Url → String) (r : AssetRequest) (u : Url) : Fetch where
  method := r.method
  url := urlString u
  header := forwardRequestID r.requestID (passthrough assetRequestPassthroughHeaders r.header)

/-- What the endpoint asks of which origin. -/
def assetFetch (urlString : Url → String) (r : AssetRequest) (originID ref : Bytes) :
    Except Refusal (Rewriter lib × Fetch) :=
  if r.method ≠ bytes "GET" ∧ r.method ≠ bytes "HEAD" then .error ⟨405, "method not allowed"⟩
  else match h.origin originID with
    | none => .error ⟨404, "unknown origin"⟩
    | some o =>
      if o.rewriteAssets ≠ .proxy then .error ⟨404, "asset proxying not enabled for this origin"⟩
      else match decodeRef ref with
        | none => .error ⟨400, "invalid asset reference"⟩
        | some href =>
          if !(parser.parse href).any fun hu =>
              (lib.parseURL o.client.baseURL).any fun ou => urlUnder lib hu ou then
            .error ⟨400, "asset reference does not belong to origin"⟩
          else match parser.parse href with
            | none => .error ⟨400, "invalid asset url"⟩
            | some u => .ok (o, upstreamRequest urlString r u)

def errorText (refusal : Refusal) : Response where
  status := refusal.status
  header := [("Content-Type", "text/plain; charset=utf-8"), ("X-Content-Type-Options", "nosniff")]
  body := bytes (refusal.text ++ "\n")

inductive FetchError where
  | canceled
  | failed

/-- `ServeAssetHTTP`: nothing is written for a client that went away. -/
def serveAssetHTTP (urlString : Url → String)
    (roundTrip : Rewriter lib → Fetch → Except FetchError Response) (r : AssetRequest)
    (originID ref : Bytes) : Option Response :=
  match assetFetch h parser urlString r originID ref with
  | .error refusal => some (errorText refusal)
  | .ok (o, fetch) => match roundTrip o fetch with
    | .error .canceled => none
    | .error .failed => some (errorText ⟨502, "upstream asset fetch failed"⟩)
    | .ok resp => some { resp with header := passthrough assetResponsePassthroughHeaders resp.header }

/-- The path of a link to an asset, below the base URL of the proxy. -/
def assetTarget (originID href : String) : String :=
  "/assets/" ++ originID ++ "/" ++ String.ofList (Base64Url.encode href.toUTF8.toList)

end Source

/-! ## Links -/

section Links
variable {lib : Library} {o : Rewriter lib} {href : String}

theorem assetHrefUnderOrigin_eq (href base : String) : assetHrefUnderOrigin lib href base =
    (lib.parseURL href).any fun hu => (lib.parseURL base).any fun ou => urlUnder lib hu ou := by
  unfold assetHrefUnderOrigin
  cases lib.parseURL href with
  | none => rfl
  | some hu => cases lib.parseURL base <;> rfl

/-- The mode `proxy` makes a link below the proxy of every address that the guard lets through,
and leaves the others. -/
theorem rewriteAssetHref_proxy (mode : o.rewriteAssets = .proxy) (based : o.proxyBaseURL ≠ "") :
    o.rewriteAssetHref href = if assetHrefUnderOrigin lib href o.client.baseURL then
      String.ofList (trimSlashes o.proxyBaseURL.toList) ++ assetTarget o.originID href else href := by
  simp only [Rewriter.rewriteAssetHref, mode]
  rw [if_neg (by simpa using based)]
  cases assetHrefUnderOrigin lib href o.client.baseURL with
  | false => rfl
  | true => simp [assetTarget, String.append_assoc]

theorem toList_loop (data : ByteArray) (i : ℕ) (front : List UInt8) :
    ByteArray.toList.loop data i front = front.reverse ++ data.data.toList.drop i := by
  fun_induction ByteArray.toList.loop data i front with
  | case1 i front more ih =>
    have there : i < data.data.toList.length := more
    have byte : data.get! i = data.data.toList[i] := getElem!_pos data.data i more
    rw [ih, List.reverse_cons, List.append_assoc, List.drop_eq_getElem_cons there, byte]
    rfl
  | case2 i front done =>
    have past : data.data.toList.length ≤ i := not_lt.mp done
    rw [List.drop_eq_nil_of_le past, List.append_nil]

theorem toUTF8_toList (text : String) : text.toUTF8.toList = bytes text := by
  rw [ByteArray.toList, toList_loop, List.drop_zero]
  rfl

/-- A byte that stands for itself in a path and does not separate. -/
def inSegment (b : UInt8) : Bool := keeps b && b != slash

theorem bytes_append (front back : String) : bytes (front ++ back) = bytes front ++ bytes back := by
  have split : front ++ back = String.ofList (front.toList ++ back.toList) := by simp
  rw [split, PageCache.bytes_ofList, List.flatMap_append, ← PageCache.bytes_ofList,
    ← PageCache.bytes_ofList, String.ofList_toList, String.ofList_toList]

theorem bytes_of_ascii {text : List Char} (ascii : ∀ c ∈ text, c.toNat < 128) :
    bytes (String.ofList text) = text.map fun c => UInt8.ofNat c.toNat := by
  rw [PageCache.bytes_ofList]
  induction text with
  | nil => rfl
  | cons c rest ih =>
    rw [List.flatMap_cons, Utf8Characters.utf8EncodeChar_ascii (ascii c (by simp)),
      ih fun other member => ascii other (List.mem_cons_of_mem _ member)]
    rfl

theorem ascii_of_plain {c : Char} (plain : Base64Url.plain c = true) : c.toNat < 128 := by
  have range := CursorGrowth.plain_toNat (.inl plain)
  omega

theorem inSegment_of_plain {c : Char} (plain : Base64Url.plain c = true) :
    inSegment (UInt8.ofNat c.toNat) = true := by
  have all : ∀ n < 128, Base64Url.plain (Char.ofNat n) = true → inSegment (UInt8.ofNat n) = true := by
    decide +kernel
  apply all c.toNat (ascii_of_plain plain)
  rwa [Char.ofNat_toNat]

/-- A text whose bytes stand for themselves in a segment. -/
def Plain (text : List Char) : Prop := ∀ c ∈ text, Base64Url.plain c = true

theorem plain_of_isValidID {id : String} (valid : isValidID id = true) :
    id.toList ≠ [] ∧ Plain id.toList := by
  unfold isValidID at valid
  cases split : id.toList with
  | nil => simp [split] at valid
  | cons first rest =>
    rw [split] at valid
    simp only [Bool.and_eq_true, List.all_eq_true, idChar] at valid
    refine ⟨List.cons_ne_nil _ _, ?_⟩
    intro c member
    rcases List.mem_cons.mp member with rfl | later
    · simp [Base64Url.plain, Char.isAlphanum, valid.1]
    · have listed := valid.2 c later
      simp only [Bool.or_eq_true] at listed
      rcases listed with letter | dash
      · simp [Base64Url.plain, letter]
      · simp [Base64Url.plain, dash]

theorem bytes_of_plain {text : List Char} (plain : Plain text) :
    bytes (String.ofList text) = text.map fun c => UInt8.ofNat c.toNat :=
  bytes_of_ascii fun c member => ascii_of_plain (plain c member)

theorem inSegment_bytes {text : List Char} (plain : Plain text) :
    ∀ b ∈ bytes (String.ofList text), inSegment b = true := by
  rw [bytes_of_plain plain]
  intro b member
  obtain ⟨c, listed, rfl⟩ := List.mem_map.mp member
  exact inSegment_of_plain (plain c listed)

theorem escape_of_kept {path : Bytes} (kept : ∀ b ∈ path, keeps b = true) :
    escape keeps path = path := by
  induction path with
  | nil => rfl
  | cons b rest ih =>
    have tail := ih fun other member => kept other (List.mem_cons_of_mem _ member)
    simp only [escape] at tail
    rw [escape, List.flatMap_cons, tail, escapeByte, if_pos (kept b (by simp))]
    rfl

/-- A path whose bytes stand for themselves is routed as it is. -/
theorem routed_of_kept {path : Bytes} (kept : ∀ b ∈ path, keeps b = true) :
    ∃ u, setPath path = some u ∧ routePath u = path := by
  have unescaped : unescape path = some path := by
    apply unescape_of_plain
    intro member
    have same := kept percent member
    rw [keeps_percent] at same
    cases same
  refine ⟨⟨path, []⟩, ?_, rfl⟩
  rw [setPath, unescaped, Option.map_some, escape_of_kept kept, if_pos rfl]

/-- The parameters of a route of plain segments. -/
theorem matchAsset_of_segments {originID ref : Bytes} (plain_id : ∀ b ∈ originID, inSegment b = true)
    (plain_ref : ∀ b ∈ ref, inSegment b = true) (nonempty : ref ≠ []) :
    matchAsset (bytes "/assets/" ++ originID ++ bytes "/" ++ ref) = some (originID, ref) := by
  have flat : ∀ {part : Bytes}, (∀ b ∈ part, inSegment b = true) → slash ∉ part := by
    intro part plain member
    have impossible := plain slash member
    revert impossible
    decide
  have joined : bytes "/assets/" ++ originID ++ bytes "/" ++ ref =
      [slash].intercalate [[], bytes "assets", originID, ref] := by
    have front : bytes "/assets/" = slash :: bytes "assets" ++ [slash] := by decide
    have mid : bytes "/" = [slash] := by decide
    rw [front, mid, intercalate_cons]
    simp
  have split : segments (bytes "/assets/" ++ originID ++ bytes "/" ++ ref) =
      [[], bytes "assets", originID, ref] := by
    rw [joined]
    apply segments_intercalate _ (List.cons_ne_nil _ _)
    intro part member
    simp only [List.mem_cons, List.not_mem_nil, or_false] at member
    rcases member with rfl | rfl | rfl | rfl
    · exact List.not_mem_nil
    · decide
    · exact flat plain_id
    · exact flat plain_ref
  rw [matchAsset, split]
  exact if_pos ⟨rfl, rfl, nonempty⟩

end Links

/-! ## Headers -/

section Headers
variable {h : Header} {name other value : String}

theorem get_congr (same : canonicalHeaderKey name = canonicalHeaderKey other) :
    Header.get h name = Header.get h other := by
  rw [Header.get, Header.get, same]

theorem lookup_del (h : Header) (name key : String) :
    (Header.del h name).lookup key = if key = canonicalHeaderKey name then none else h.lookup key := by
  induction h with
  | nil => simp [Header.del]
  | cons field rest ih =>
    obtain ⟨field_key, field_value⟩ := field
    rw [Header.del] at ih ⊢
    by_cases removed : field_key = canonicalHeaderKey name
    · rw [List.filter_cons_of_neg (by simpa using removed), ih]
      by_cases asked : key = canonicalHeaderKey name
      · rw [if_pos asked, if_pos asked]
      · have differs : (key == field_key) = false := by simpa [removed] using asked
        rw [if_neg asked, if_neg asked, List.lookup_cons, differs]
    · rw [List.filter_cons_of_pos (by simpa using removed), List.lookup_cons, ih, List.lookup_cons]
      cases asked : key == field_key with
      | false => rfl
      | true =>
        have kept : key ≠ canonicalHeaderKey name := by
          rw [eq_of_beq asked]
          exact removed
        simp only [if_neg kept]

theorem get_set (h : Header) (name value other : String) : Header.get (Header.set h name value) other =
    if canonicalHeaderKey other = canonicalHeaderKey name then value else Header.get h other := by
  rw [Header.get, Header.set, List.lookup_append, lookup_del]
  split
  · rename_i same
    simp [same]
  · rename_i differs
    have unequal : (canonicalHeaderKey other == canonicalHeaderKey name) = false := by simpa using differs
    simp [List.lookup_cons, unequal, Header.get]

/-- The fields of the list are the client's, and there are no others. -/
theorem get_passthrough (names : List String) (h : Header) (name : String) :
    Header.get (passthrough names h) name =
      if canonicalHeaderKey name ∈ names.map canonicalHeaderKey then Header.get h name else "" := by
  -- What the loop adds to what it was given.
  have loop : ∀ (names : List String) (out : Header), Header.get (names.foldl (fun out name =>
        if Header.get h name = "" then out else Header.set out name (Header.get h name)) out) name =
      if canonicalHeaderKey name ∈ names.map canonicalHeaderKey ∧ Header.get h name ≠ "" then
        Header.get h name else Header.get out name := by
    intro names
    induction names with
    | nil => simp
    | cons first rest ih =>
      intro out
      rw [List.foldl_cons, ih]
      simp only [List.map_cons, List.mem_cons]
      by_cases same : canonicalHeaderKey name = canonicalHeaderKey first
      · have value := get_congr same (h := h)
        by_cases empty : Header.get h name = ""
        · simp [empty, ← value]
        · rw [← value, if_neg empty, get_set]
          simp [same, empty]
      · by_cases empty : Header.get h first = ""
        · simp [same, empty]
        · simp [same, empty, get_set]
  rw [passthrough, loop]
  split
  · rename_i listed
    rw [if_pos listed.1]
  · rename_i unlisted
    split
    · rename_i listed
      have empty : Header.get h name = "" := by
        by_contra set
        exact unlisted ⟨listed, set⟩
      rw [empty]
      rfl
    · rfl

end Headers

/-! ## The endpoint -/

section Endpoint
variable {lib : Library} {h : Handler lib} {parser : ByteParser lib} {urlString : Url → String}
variable {o : Rewriter lib} {href : String} {r : AssetRequest}

/-- The bytes of a reference. -/
def refOf (href : String) : Bytes := bytes (String.ofList (Base64Url.encode (bytes href)))

theorem plain_encode (data : Bytes) : Plain (Base64Url.encode data) := Base64Url.encode_plain data

theorem decodeRef_refOf (href : String) : decodeRef (refOf href) = some (bytes href) := by
  have plain := plain_encode (bytes href)
  rw [refOf, decodeRef, bytes_of_plain plain,
    SignedUrl.chars_of_ascii fun c member => ascii_of_plain (plain c member), Base64Url.decode_encode]

theorem bytes_assetTarget (originID href : String) : bytes (assetTarget originID href) =
    bytes "/assets/" ++ bytes originID ++ bytes "/" ++ refOf href := by
  simp only [assetTarget, bytes_append, toUTF8_toList, refOf]

theorem Handler.origin_eq_some {id : Bytes} (found : h.origin id = some o) :
    o ∈ h.origins ∧ bytes o.originID = id := by
  refine ⟨List.mem_of_find?_eq_some found, ?_⟩
  simpa using List.find?_some found

theorem Handler.origin_of_mem (member : o ∈ h.origins) : h.origin (bytes o.originID) = some o := by
  have found : (h.origin (bytes o.originID)).isSome = true := by
    rw [Handler.origin, List.find?_isSome]
    exact ⟨o, member, decide_eq_true rfl⟩
  obtain ⟨other, is_other⟩ := Option.isSome_iff_exists.mp found
  obtain ⟨listed, same_bytes⟩ := Handler.origin_eq_some is_other
  have same_id : other.originID = o.originID := PageCache.bytes_injective same_bytes
  rw [is_other, List.inj_on_of_nodup_map h.distinct listed member same_id]

/-- The address of a link that is made is not empty, so neither is its reference. -/
theorem refOf_ne_nil (nonempty : href ≠ "") : refOf href ≠ [] := by
  intro none
  have decoded := decodeRef_refOf href
  rw [none] at decoded
  have empty : bytes href = [] := (Option.some.inj decoded).symm
  exact nonempty (PageCache.bytes_injective empty)

theorem assetFetch_refOf (member : o ∈ h.origins) (mode : o.rewriteAssets = .proxy)
    (under : assetHrefUnderOrigin lib href o.client.baseURL = true)
    (read : r.method = bytes "GET" ∨ r.method = bytes "HEAD") :
    ∃ u, lib.parseURL href = some u ∧
      assetFetch h parser urlString r (bytes o.originID) (refOf href) =
        .ok (o, upstreamRequest urlString r u) := by
  rw [assetHrefUnderOrigin_eq] at under
  obtain ⟨u, parsed, inside⟩ := (Option.any_eq_true _ _).mp under
  refine ⟨u, parsed, ?_⟩
  have allowed : ¬ (r.method ≠ bytes "GET" ∧ r.method ≠ bytes "HEAD") := by tauto
  rw [assetFetch, if_neg allowed, Handler.origin_of_mem member]
  simp only [mode, ne_eq, not_true_eq_false, if_false, decodeRef_refOf, parser.parse_bytes, parsed,
    Option.any_some, inside, Bool.not_true, Bool.false_eq_true]

/-- Everything a request went through that is forwarded. -/
theorem assetFetch_ok {originID ref : Bytes} {fetch : Fetch}
    (fetches : assetFetch h parser urlString r originID ref = .ok (o, fetch)) :
    (r.method = bytes "GET" ∨ r.method = bytes "HEAD") ∧ h.origin originID = some o ∧
      o.rewriteAssets = .proxy ∧
      ∃ u, urlUnder lib u o.client.base = true ∧ fetch = upstreamRequest urlString r u := by
  unfold assetFetch at fetches
  split at fetches
  · cases fetches
  · rename_i allowed
    cases known : h.origin originID with
    | none => simp [known] at fetches
    | some other =>
      simp only [known] at fetches
      split at fetches
      · cases fetches
      · rename_i mode
        cases decoded : decodeRef ref with
        | none => simp [decoded] at fetches
        | some address =>
          simp only [decoded] at fetches
          split at fetches
          · cases fetches
          · rename_i inside
            cases parsed : parser.parse address with
            | none => simp [parsed] at fetches
            | some u =>
              simp only [parsed] at fetches
              cases fetches
              refine ⟨by tauto, rfl, not_not.mp mode, u, ?_, rfl⟩
              simpa [parsed, o.client.parsed] using inside

/-- The path below the proxy that a link was given is routed to the endpoint, which fetches the
address the link was made of, from its origin. -/
structure LeadsBack (h : Handler lib) (parser : ByteParser lib) (urlString : Url → String)
    (r : AssetRequest) (o : Rewriter lib) (href target : String) : Prop where
  routed : ∃ path originID ref u, setPath (bytes target) = some path ∧
    matchAsset (routePath path) = some (originID, ref) ∧ lib.parseURL href = some u ∧
    assetFetch h parser urlString r originID ref = .ok (o, upstreamRequest urlString r u)

theorem leadsBack (member : o ∈ h.origins) (mode : o.rewriteAssets = .proxy) (nonempty : href ≠ "")
    (under : assetHrefUnderOrigin lib href o.client.baseURL = true)
    (read : r.method = bytes "GET" ∨ r.method = bytes "HEAD") :
    LeadsBack h parser urlString r o href (assetTarget o.originID href) := by
  obtain ⟨-, plain_id⟩ := plain_of_isValidID (h.valid o member)
  have id_segment : ∀ b ∈ bytes o.originID, inSegment b = true := by
    have listed := inSegment_bytes plain_id
    rwa [String.ofList_toList] at listed
  have ref_segment : ∀ b ∈ refOf href, inSegment b = true := inSegment_bytes (plain_encode _)
  have kept : ∀ b ∈ bytes (assetTarget o.originID href), keeps b = true := by
    have front : ∀ b ∈ bytes "/assets/" ++ bytes "/", keeps b = true := by decide +kernel
    rw [bytes_assetTarget]
    intro b listed
    simp only [List.mem_append] at listed
    rcases listed with ((marker | named) | separator) | referred
    · exact front b (List.mem_append_left _ marker)
    · exact (Bool.and_eq_true_iff.mp (id_segment b named)).1
    · exact front b (List.mem_append_right _ separator)
    · exact (Bool.and_eq_true_iff.mp (ref_segment b referred)).1
  obtain ⟨path, parsed, same⟩ := routed_of_kept kept
  obtain ⟨u, address, fetches⟩ :=
    @assetFetch_refOf lib h parser urlString o href r member mode under read
  refine ⟨path, bytes o.originID, refOf href, u, parsed, ?_, address, fetches⟩
  rw [same, bytes_assetTarget]
  exact matchAsset_of_segments id_segment ref_segment (refOf_ne_nil nonempty)

/-- What the endpoint hands to the transport of an origin: a request to an address under the base of
an origin that has its assets proxied, with the listed fields of the client and the request ID, and
no other. The transport adds the credentials of the origin. -/
structure ContainedFetch (h : Handler lib) (urlString : Url → String) (r : AssetRequest)
    (o : Rewriter lib) (fetch : Fetch) : Prop where
  listed : o ∈ h.origins
  mode : o.rewriteAssets = .proxy
  method : fetch.method = bytes "GET" ∨ fetch.method = bytes "HEAD"
  address : ∃ u, fetch.url = urlString u ∧ urlUnder lib u o.client.base = true
  fields : ∀ name, Header.get fetch.header name ≠ "" →
    (canonicalHeaderKey name ∈ assetRequestPassthroughHeaders.map canonicalHeaderKey ∧
        Header.get fetch.header name = Header.get r.header name) ∨
      (canonicalHeaderKey name = "X-Request-Id" ∧ Header.get fetch.header name = r.requestID)

theorem get_forwardRequestID (requestID : String) (header : Header) (name : String) :
    Header.get (forwardRequestID requestID header) name = Header.get header name ∨
      (canonicalHeaderKey name = "X-Request-Id" ∧
        Header.get (forwardRequestID requestID header) name = requestID) := by
  rw [forwardRequestID]
  split
  · exact .inl rfl
  · have canonical : canonicalHeaderKey "X-Request-ID" = "X-Request-Id" := by decide
    rw [get_set, canonical]
    split
    · rename_i same
      exact .inr ⟨same, rfl⟩
    · exact .inl rfl

theorem containedFetch {originID ref : Bytes} {fetch : Fetch}
    (fetches : assetFetch h parser urlString r originID ref = .ok (o, fetch)) :
    ContainedFetch h urlString r o fetch := by
  obtain ⟨method, known, mode, u, under, rfl⟩ := assetFetch_ok fetches
  refine ⟨(Handler.origin_eq_some known).1, mode, method, ⟨u, rfl, under⟩, ?_⟩
  intro name there
  simp only [upstreamRequest] at there ⊢
  rcases get_forwardRequestID r.requestID (passthrough assetRequestPassthroughHeaders r.header) name
    with passed | added
  · rw [passed, get_passthrough] at there ⊢
    split at there
    · rename_i listed
      rw [if_pos listed]
      exact .inl ⟨listed, rfl⟩
    · exact absurd rfl there
  · exact .inr added

end Endpoint

section Samples

/-- A parser of bytes for a parser of texts, that reads the characters. -/
def textParser (lib : Library) : ByteParser lib where
  parse data := lib.parseURL (String.ofList (Utf8Characters.characters data))
  parse_bytes text := by
    have read : Utf8Characters.characters (bytes text) = text.toList := by
      rw [← @String.ofList_toList text, PageCache.bytes_ofList, String.ofList_toList]
      exact Utf8Characters.characters_utf8 text.toList
    rw [read, String.ofList_toList]

def alpha : Rewriter hostLibrary where
  proxyBaseURL := "https://proxy.example/"
  client := hostClient
  originID := "alpha"
  rewriteAssets := .proxy

def onlyAlpha : Handler hostLibrary where
  proxyBaseURL := "https://proxy.example/"
  origins := [alpha]
  shared := by simp [alpha]
  valid := by simp only [List.mem_singleton, forall_eq]; decide
  distinct := List.nodup_singleton _

def tile : String := "https://api.example.com/v1/a.tif"

def scene : Json := .obj [("assets", .obj [("data", .obj [("href", .str tile)])])]

def tileStep : List Step := [.key "assets", .key "data", .key "href"]

theorem isAssetHref_tileStep : IsAssetHref tileStep := placeOf_assetHref.mp rfl

def byRange : AssetRequest where
  method := bytes "GET"
  header := [("Range", "bytes=0-7"), ("Authorization", "Bearer t")]

end Samples

section Results
variable {lib : Library} {o : Rewriter lib} {href : String} {r : AssetRequest}

end Results

end AssetRelay
