import StacProxy.Authentication

/-!
# Credentials in the request to an origin

What an origin gets of the credential a client authenticated with. The providers read it from
configurable places; `reverseProxyOnce` strips a fixed set of fields and hands the query on.
-/

namespace OutboundCredentials

open OutboundRequest PercentCoding RequestPath Authentication

section Outbound

/-- The settings of an origin that decide what it is sent. -/
structure Target where
  auth : OriginAuth := {}
  dispatch : Dispatch
  /-- The query of the base URL. -/
  baseQuery : Bytes := []
  /-- Name and value of an API key the origin wants in the query. -/
  queryKey : Option (Bytes × Bytes) := none

/-- A request on its way to an origin. Searches are posted to a path without a query. -/
structure Passage where
  inbound : InboundRequest
  searchLike : Bool
  hasBody : Bool := true
  requestID : String := ""

structure Outbound where
  header : Header
  rawQuery : Bytes

/-- Parsing the path and query again cuts off what is after a number sign, then the reverse
proxy cleans the query. -/
def inboundQuery (p : Passage) : Bytes :=
  if p.searchLike then [] else cleanQueryParams (cut 35 p.inbound.rawQuery).1

/-- `SetURL` puts the query of the base URL in front. -/
def joinQuery (base inbound : Bytes) : Bytes :=
  if base = [] ∨ inbound = [] then base ++ inbound else base ++ 38 :: inbound

def outboundQuery (t : Target) (p : Passage) : Bytes :=
  let joined := joinQuery t.baseQuery (inboundQuery p)
  match t.queryKey with
  | none => joined
  | some (name, value) => encodeQuery (querySet (query joined) name value)

/-- What `reverseProxyOnce` sends. Nothing is sent if a fragment cannot be parsed. -/
def outbound (t : Target) (p : Passage) : Option Outbound :=
  if p.searchLike || (unescape (cut 35 p.inbound.rawQuery).2).isSome then
    some {
      header := outboundHeader t.auth t.dispatch p.hasBody p.requestID p.inbound.header
      rawQuery := outboundQuery t p }
  else none

/-- The header values and query values. -/
def Outbound.values (out : Outbound) : List Bytes :=
  out.header.map (fun field => bytes field.2) ++ (query out.rawQuery).map Prod.snd

end Outbound

section Credentials

/-- The texts that are the credential a request authenticated with: an Authorization field
counts with and without its scheme. -/
def credentialTexts (provider : Provider) (r : InboundRequest) : List Bytes :=
  match provider.authenticate r with
  | .authenticated _ => match provider with
    | .bearer _ | .oidc _ => [bytes (credentials "Bearer " r), bytes (authorization r)]
    | .basic _ => [bytes (credentials "Basic " r), bytes (authorization r)]
    | .apiKey p => [p.presentedKey r]
    | .mtls _ => []
  | _ => []

def identityFields (p : Passage) : Header :=
  if p.requestID = "" then [] else [("X-Request-ID", p.requestID)]

def dispatchFields (t : Target) : Header :=
  [("X-Forwarded-For", t.dispatch.forwardedFor), ("X-Forwarded-Host", t.dispatch.forwardedHost),
    ("X-Forwarded-Proto", t.dispatch.forwardedProto),
    ("Accept", "application/geo+json, application/json")] ++ t.dispatch.credentials

/-- The fields the proxy sets, in that order. -/
def ownFields (t : Target) (p : Passage) : Header := identityFields p ++ dispatchFields t

/-- Field names of which no inbound value is left. -/
def replaced (t : Target) (p : Passage) : List String :=
  "Forwarded" :: (ownFields t p).map fun field => canonicalHeaderKey field.1

/-- What is left of fields that are set one after another. -/
def settled : Header → Header
  | [] => []
  | field :: rest =>
    if canonicalHeaderKey field.1 ∈ rest.map (fun later => canonicalHeaderKey later.1) then
      settled rest
    else (canonicalHeaderKey field.1, field.2) :: settled rest

/-- No place that is handed on holds the text, and nothing the proxy adds is the text. -/
structure Withheld (t : Target) (p : Passage) (text : Bytes) : Prop where
  inbound_fields : ∀ field ∈ p.inbound.header, bytes field.2 = text →
    isHopByHop field.1 ∨ isInboundAuthHeader field.1 ∨
      (canonicalHeaderKey t.auth.apiKeyHeader ≠ "" ∧
        canonicalHeaderKey field.1 = canonicalHeaderKey t.auth.apiKeyHeader) ∨
      canonicalHeaderKey field.1 ∈ replaced t p
  inbound_query : p.searchLike = false → ∀ field ∈ query (cut 35 p.inbound.rawQuery).1,
    field.2 = text → t.queryKey.map Prod.fst = some field.1
  content_type : p.hasBody → bytes "application/json" = text → "Content-Type" ∈ replaced t p
  own_fields : ∀ field ∈ settled (ownFields t p), bytes field.2 ≠ text
  base_query : ∀ field ∈ query t.baseQuery, field.2 = text → t.queryKey.map Prod.fst = some field.1
  query_key : t.queryKey.map Prod.snd ≠ some text

end Credentials

section Fields
variable {h : Header} {field : String × String}

theorem foldl_del (names : List String) : names.foldl Header.del h =
    h.filter fun field => field.1 ∉ names.map canonicalHeaderKey := by
  induction names generalizing h with
  | nil => simp
  | cons name rest ih =>
    rw [List.foldl_cons, ih, Header.del, List.filter_filter]
    exact List.filter_congr fun field _ => by simp [Bool.and_comm]

/-- After fields have been set, the others and the settled ones are there. -/
theorem foldl_set (fields : Header) :
    fields.foldl (fun h own => Header.set h own.1 own.2) h =
      (h.filter fun field => field.1 ∉ fields.map fun own => canonicalHeaderKey own.1) ++
        settled fields := by
  induction fields generalizing h with
  | nil => simp [settled]
  | cons own rest ih =>
    have merged : (h.filter fun field => field.1 ≠ canonicalHeaderKey own.1).filter
        (fun field => field.1 ∉ rest.map fun later => canonicalHeaderKey later.1) =
        h.filter fun field => field.1 ∉ (own :: rest).map fun own => canonicalHeaderKey own.1 := by
      rw [List.filter_filter]
      exact List.filter_congr fun field _ => by
        rw [← Bool.decide_and, decide_eq_decide, List.map_cons, List.mem_cons, not_or, and_comm]
    rw [List.foldl_cons, ih, Header.set, Header.del, List.filter_append, merged, settled]
    by_cases again : canonicalHeaderKey own.1 ∈ rest.map fun later => canonicalHeaderKey later.1
    · rw [if_pos again, List.filter_cons_of_neg (by simpa using again), List.filter_nil,
        List.append_nil]
    · rw [if_neg again, List.filter_cons_of_pos (by simpa using again), List.filter_nil,
        List.append_assoc, List.singleton_append]

theorem mem_foldl_set (fields : Header) :
    field ∈ fields.foldl (fun h own => Header.set h own.1 own.2) h ↔
      (field ∈ h ∧ field.1 ∉ fields.map fun own => canonicalHeaderKey own.1) ∨
        field ∈ settled fields := by
  rw [foldl_set, List.mem_append, List.mem_filter, decide_eq_true_iff]

theorem settled_append (front back : Header) : settled (front ++ back) =
    ((settled front).filter fun field => field.1 ∉ back.map fun own => canonicalHeaderKey own.1) ++
      settled back := by
  have together := @foldl_set [] (front ++ back)
  rw [List.foldl_append, foldl_set, foldl_set] at together
  simpa using together.symm

end Fields

section Headers
variable {t : Target} {p : Passage} {field : String × String}

/-- The fields of the outbound request before the proxy sets its own. -/
def inherited (t : Target) (p : Passage) : Header :=
  (if p.hasBody then [("Content-Type", "application/json")] else []) ++
    (p.inbound.header.filter fun field => copies t.auth field.1).map
      fun field => (canonicalHeaderKey field.1, field.2)

theorem mem_inherited : field ∈ inherited t p ↔
    (p.hasBody = true ∧ field = ("Content-Type", "application/json")) ∨
      ∃ given ∈ p.inbound.header, copies t.auth given.1 = true ∧
        field = (canonicalHeaderKey given.1, given.2) := by
  have copied : field ∈ (p.inbound.header.filter fun given => copies t.auth given.1).map
      (fun given => (canonicalHeaderKey given.1, given.2)) ↔
      ∃ given ∈ p.inbound.header, copies t.auth given.1 = true ∧
        field = (canonicalHeaderKey given.1, given.2) := by
    simp only [List.mem_map, List.mem_filter, and_assoc]
    exact exists_congr fun given => by rw [@eq_comm _ field]
  cases body : p.hasBody <;> simp only [inherited, body, List.mem_append, copied] <;> simp

theorem buildHeader_eq : buildHeader t.auth p.hasBody p.requestID p.inbound.header =
    (identityFields p).foldl (fun h own => Header.set h own.1 own.2) (inherited t p) := by
  by_cases unset : p.requestID = "" <;> simp [buildHeader, identityFields, inherited, unset]

theorem mem_identityFields (member : field ∈ settled (identityFields p)) :
    field.1 = "X-Request-Id" := by
  have name : canonicalHeaderKey "X-Request-ID" = "X-Request-Id" := by decide
  unfold identityFields at member
  split at member
  · cases member
  · obtain rfl : field = (canonicalHeaderKey "X-Request-ID", p.requestID) := by
      simpa [settled] using member
    exact name

theorem outboundHeader_eq :
    outboundHeader t.auth t.dispatch p.hasBody p.requestID p.inbound.header =
      (dispatchFields t).foldl (fun h own => Header.set h own.1 own.2)
        (["Forwarded", "X-Forwarded-For", "X-Forwarded-Host", "X-Forwarded-Proto"].foldl Header.del
          (buildHeader t.auth p.hasBody p.requestID p.inbound.header)) := by
  simp only [outboundHeader, dispatchHeader, dispatchFields, List.foldl_append, List.foldl_cons,
    List.foldl_nil]

/-- The outbound request has what is inherited and not replaced, then the proxy's own fields. -/
theorem outboundHeader_eq_append :
    outboundHeader t.auth t.dispatch p.hasBody p.requestID p.inbound.header =
      ((inherited t p).filter fun field => field.1 ∉ replaced t p) ++ settled (ownFields t p) := by
  have names : ∀ name ∈ ["X-Forwarded-For", "X-Forwarded-Host", "X-Forwarded-Proto"],
      canonicalHeaderKey name ∈ (dispatchFields t).map fun own => canonicalHeaderKey own.1 := by
    simp [dispatchFields]
  have forwarded : canonicalHeaderKey "Forwarded" = "Forwarded" := by decide
  have dropped : ∀ name, (name ∉ (dispatchFields t).map (fun own => canonicalHeaderKey own.1) ∧
      name ∉ ["Forwarded", "X-Forwarded-For", "X-Forwarded-Host",
        "X-Forwarded-Proto"].map canonicalHeaderKey) ↔
      name ∉ (dispatchFields t).map (fun own => canonicalHeaderKey own.1) ∧ name ≠ "Forwarded" := by
    intro name
    refine and_congr_right fun kept => ?_
    rw [List.map_cons, List.mem_cons, forwarded, not_or]
    refine and_iff_left fun later => ?_
    obtain ⟨listed_name, listed, rfl⟩ := List.mem_map.mp later
    exact kept (names listed_name listed)
  have identity : ∀ field ∈ settled (identityFields p), field.1 ≠ "Forwarded" := by
    intro field member
    rw [mem_identityFields member]
    decide
  rw [outboundHeader_eq, foldl_set, foldl_del, buildHeader_eq, foldl_set, ownFields,
    settled_append, List.filter_append, List.filter_append, List.filter_filter, List.filter_filter,
    List.filter_filter, ← List.append_assoc]
  congr 2
  · refine List.filter_congr fun field _ => ?_
    rw [← Bool.decide_and, ← Bool.decide_and, decide_eq_decide, dropped, replaced,
      ownFields, List.map_append, List.mem_cons, List.mem_append, not_or, not_or]
    tauto
  · refine List.filter_congr fun field member => ?_
    rw [← Bool.decide_and, decide_eq_decide, dropped, and_iff_left (identity field member)]

/-- A field of the outbound request is inherited and not replaced, or the proxy's own. -/
theorem mem_outboundHeader :
    field ∈ outboundHeader t.auth t.dispatch p.hasBody p.requestID p.inbound.header ↔
      (field ∈ inherited t p ∧ field.1 ∉ replaced t p) ∨ field ∈ settled (ownFields t p) := by
  rw [outboundHeader_eq_append, List.mem_append, List.mem_filter, decide_eq_true_iff]

end Headers

section QueryValues
variable {t : Target} {p : Passage} {field : Bytes × Bytes}

theorem mem_query_joinQuery {base inbound : Bytes} : field ∈ query (joinQuery base inbound) ↔
    field ∈ query base ∨ field ∈ query inbound := by
  have empty : query [] = [] := rfl
  unfold joinQuery
  split
  · rename_i one_empty
    rcases one_empty with rfl | rfl <;> simp [empty]
  · rw [query_append, List.mem_append]

theorem mem_query_inboundQuery : field ∈ query (inboundQuery p) ↔
    p.searchLike = false ∧ field ∈ query (cut 35 p.inbound.rawQuery).1 := by
  have empty : query [] = [] := rfl
  cases searching : p.searchLike with
  | true => simp [inboundQuery, searching, empty]
  | false => simp [inboundQuery, searching, mem_query_cleanQueryParams]

/-- A readable field of the outbound query is the origin's key, or from the base URL or the
request under another name. -/
theorem mem_outboundQuery : field ∈ query (outboundQuery t p) ↔
    ((field ∈ query t.baseQuery ∨
        p.searchLike = false ∧ field ∈ query (cut 35 p.inbound.rawQuery).1) ∧
      t.queryKey.map Prod.fst ≠ some field.1) ∨ t.queryKey = some field := by
  have joined := @mem_query_joinQuery field t.baseQuery (inboundQuery p)
  rw [mem_query_inboundQuery] at joined
  cases keyed : t.queryKey with
  | none => simp [outboundQuery, keyed, joined]
  | some key =>
    obtain ⟨name, value⟩ := key
    simp only [outboundQuery, keyed, mem_query_encodeQuery, querySet, List.mem_append,
      List.mem_filter, List.mem_singleton, joined, Option.map_some, ne_eq, Option.some.injEq,
      decide_eq_true_eq]
    rw [@eq_comm _ name field.1, @eq_comm _ (name, value) field]

end QueryValues

section Leaks
variable {t : Target} {p : Passage} {out : Outbound} {text : Bytes}

theorem mem_values : text ∈ out.values ↔
    (∃ field ∈ out.header, bytes field.2 = text) ∨ ∃ field ∈ query out.rawQuery, field.2 = text := by
  simp [Outbound.values]

theorem outbound_eq_some (sent : outbound t p = some out) :
    out.header = outboundHeader t.auth t.dispatch p.hasBody p.requestID p.inbound.header ∧
      out.rawQuery = outboundQuery t p := by
  unfold outbound at sent
  split at sent
  · cases sent
    exact ⟨rfl, rfl⟩
  · cases sent

/-- Where identities are not forwarded, a field is left out by the copying loop or replaced. -/
theorem stripped_iff {name : String} (confined : t.auth.forwardUserIdentity = false) :
    (isHopByHop name ∨ isInboundAuthHeader name ∨
      (canonicalHeaderKey t.auth.apiKeyHeader ≠ "" ∧
        canonicalHeaderKey name = canonicalHeaderKey t.auth.apiKeyHeader) ∨
      canonicalHeaderKey name ∈ replaced t p) ↔
    (copies t.auth name = false ∨ canonicalHeaderKey name ∈ replaced t p) := by
  simp only [copies, confined, Bool.not_false, Bool.true_and, Bool.and_eq_false_iff,
    Bool.not_eq_false', Bool.and_eq_true, decide_eq_true_eq, or_assoc]

theorem withheld_of_absent (confined : t.auth.forwardUserIdentity = false)
    (sent : outbound t p = some out) (absent : text ∉ out.values) : Withheld t p text := by
  obtain ⟨header_eq, query_eq⟩ := outbound_eq_some sent
  rw [mem_values, header_eq, query_eq] at absent
  have unsent : ∀ field, field ∈ inherited t p → bytes field.2 = text →
      field.1 ∈ replaced t p := by
    intro field member same
    by_contra kept
    exact absent (.inl ⟨field, mem_outboundHeader.mpr (.inl ⟨member, kept⟩), same⟩)
  have unasked : ∀ field, (field ∈ query t.baseQuery ∨
      p.searchLike = false ∧ field ∈ query (cut 35 p.inbound.rawQuery).1) → field.2 = text →
      t.queryKey.map Prod.fst = some field.1 := by
    intro field member same
    by_contra kept
    exact absent (.inr ⟨field, mem_outboundQuery.mpr (.inl ⟨member, kept⟩), same⟩)
  constructor
  · intro field member same
    rw [stripped_iff confined]
    cases copied : copies t.auth field.1 with
    | true =>
      exact .inr (unsent _ (mem_inherited.mpr (.inr ⟨field, member, copied, rfl⟩)) same)
    | false => exact .inl rfl
  · exact fun searching field member same => unasked field (.inr ⟨searching, member⟩) same
  · intro body same
    exact unsent _ (mem_inherited.mpr (.inl ⟨body, rfl⟩)) same
  · exact fun field member same =>
      absent (.inl ⟨field, mem_outboundHeader.mpr (.inr member), same⟩)
  · exact fun field member same => unasked field (.inl member) same
  · intro key_text
    obtain ⟨key, keyed, same⟩ := Option.map_eq_some_iff.mp key_text
    exact absent (.inr ⟨key, mem_outboundQuery.mpr (.inr keyed), same⟩)

theorem absent_of_withheld (confined : t.auth.forwardUserIdentity = false)
    (sent : outbound t p = some out) (withheld : Withheld t p text) : text ∉ out.values := by
  obtain ⟨header_eq, query_eq⟩ := outbound_eq_some sent
  rw [mem_values, header_eq, query_eq]
  rintro (⟨field, member, same⟩ | ⟨field, member, same⟩)
  · rcases mem_outboundHeader.mp member with ⟨passed_on, kept⟩ | own
    · rcases mem_inherited.mp passed_on with ⟨body, rfl⟩ | ⟨given, inbound, copied, rfl⟩
      · exact kept (withheld.content_type body same)
      · have stripped := withheld.inbound_fields given inbound same
        rcases (stripped_iff confined).mp stripped with left_out | listed
        · rw [left_out] at copied
          cases copied
        · exact kept listed
    · exact withheld.own_fields field own same
  · rcases mem_outboundQuery.mp member with ⟨base | ⟨searching, asked⟩, other⟩ | keyed
    · exact other (withheld.base_query field base same)
    · exact other (withheld.inbound_query searching field asked same)
    · exact withheld.query_key (by simp [keyed, same])

theorem absent_iff_withheld (confined : t.auth.forwardUserIdentity = false)
    (sent : outbound t p = some out) : text ∉ out.values ↔ Withheld t p text :=
  ⟨withheld_of_absent confined sent, absent_of_withheld confined sent⟩

/-- The credential a request authenticated with stays with the proxy exactly if it is
withheld in each form. -/
theorem credentials_kept_iff (provider : Provider) (confined : t.auth.forwardUserIdentity = false)
    (sent : outbound t p = some out) :
    (∀ text ∈ credentialTexts provider p.inbound, text ∉ out.values) ↔
      ∀ text ∈ credentialTexts provider p.inbound, Withheld t p text := by
  simp only [absent_iff_withheld confined sent]

end Leaks

section Samples

def plainTarget : Target where
  dispatch := ⟨"192.0.2.1", "proxy.example.com", "https", []⟩

/-- A token in the Authorization field. -/
def tokenPassage : Passage where
  inbound := { header := [("Authorization", "Bearer tok"), ("User-Agent", "curl")] }
  searchLike := false

def anyToken : Provider := .bearer { parse := fun _ => .ok [("sub", .str "alice")] }

end Samples

theorem token_kept : credentialTexts anyToken tokenPassage.inbound = [bytes "tok", bytes "Bearer tok"] ∧
    ∃ out, outbound plainTarget tokenPassage = some out ∧
      ∀ text ∈ credentialTexts anyToken tokenPassage.inbound, text ∉ out.values := by
  have forms : credentialTexts anyToken tokenPassage.inbound =
      [bytes "tok", bytes "Bearer tok"] := by decide +kernel
  refine ⟨forms, _, rfl, (credentials_kept_iff anyToken rfl rfl).mpr ?_⟩
  rw [forms]
  intro text form
  simp only [List.mem_cons, List.not_mem_nil, or_false] at form
  rcases form with rfl | rfl
  · constructor <;> decide +kernel
  · constructor <;> decide +kernel

section Samples

/-- An API key that is read from another field than the usual one, or from the query. -/
def secretKey : Provider := .apiKey (newAPIKeyProvider {
  header := "X-Token"
  queryParam := "api_key"
  allowQueryParam := true
  keys := [(bytes "s3cret", { name := "ci", enabled := true })]
  digest := fun key => String.ofList (key.map fun b => Char.ofNat b.toNat) })

def keyPassage (header : Header) (rawQuery : String) : Passage where
  inbound := { header, rawQuery := bytes rawQuery }
  searchLike := false

end Samples

theorem api_key_forwarded :
    [keyPassage [("X-Token", "s3cret")] "", keyPassage [] "limit=1&api_key=s3cret"].all fun p =>
      credentialTexts secretKey p.inbound = [bytes "s3cret"] ∧
        (outbound plainTarget p).any fun out => out.values.contains (bytes "s3cret") := by
  decide +kernel

end OutboundCredentials
