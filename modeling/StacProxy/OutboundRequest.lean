import Mathlib.Data.List.Basic

/-!
# Headers of the request to an origin

What `reverseProxyOnce` makes of the inbound headers: `buildOutboundRequest` copies all but a
fixed set, and the reverse proxy replaces those it owns. A header is the list of its fields;
a field name that occurs twice has two values, and the first one counts.
-/

namespace OutboundRequest

abbrev Header := List (String × String)

section Names

def validFieldChar (c : Char) : Bool :=
  c.isAlphanum || "!#$%&'*+-.^_`|~".toList.contains c

def titleCase : Bool → List Char → List Char
  | _, [] => []
  | upper, c :: rest => (if upper then c.toUpper else c.toLower) :: titleCase (c == '-') rest

/-- `http.CanonicalHeaderKey`: names with other characters are left alone. -/
def canonicalHeaderKey (name : String) : String :=
  if name.toList.all validFieldChar then String.ofList (titleCase true name.toList) else name

end Names

section Fields

/-- `Header.Get`: a field that is not there reads as empty. -/
def Header.get (h : Header) (name : String) : String :=
  (h.lookup (canonicalHeaderKey name)).getD ""

def Header.del (h : Header) (name : String) : Header :=
  h.filter fun field => field.1 ≠ canonicalHeaderKey name

def Header.set (h : Header) (name value : String) : Header :=
  Header.del h name ++ [(canonicalHeaderKey name, value)]

end Fields

section Build

/-- The settings of an origin that decide about headers. -/
structure OriginAuth where
  forwardUserIdentity : Bool := false
  apiKeyHeader : String := ""

def isHopByHop (name : String) : Bool :=
  canonicalHeaderKey name ∈ ["Connection", "Proxy-Connection", "Keep-Alive", "Proxy-Authenticate",
    "Proxy-Authorization", "Te", "Trailer", "Transfer-Encoding", "Upgrade"]

def isInboundAuthHeader (name : String) : Bool :=
  canonicalHeaderKey name ∈ ["Authorization", "Cookie", "Set-Cookie", "Proxy-Authorization",
    "X-Api-Key"]

/-- Whether the copying loop lets a field through. -/
def copies (o : OriginAuth) (name : String) : Bool :=
  !isHopByHop name && !(!o.forwardUserIdentity && isInboundAuthHeader name) &&
    !(canonicalHeaderKey o.apiKeyHeader ≠ "" &&
      canonicalHeaderKey name = canonicalHeaderKey o.apiKeyHeader)

/-- `buildOutboundRequest`: the content type is set if there is a body, the request ID if the
context has one. -/
def buildHeader (o : OriginAuth) (hasBody : Bool) (requestID : String) (inbound : Header) : Header :=
  let start : Header := if hasBody then [("Content-Type", "application/json")] else []
  let copied := start ++ (inbound.filter fun field => copies o field.1).map
    fun field => (canonicalHeaderKey field.1, field.2)
  if requestID = "" then copied else Header.set copied "X-Request-ID" requestID

/-- Values the proxy sets itself when it dispatches a request. -/
structure Dispatch where
  forwardedFor : String
  forwardedHost : String
  forwardedProto : String
  /-- What the origin's own authentication adds, such as its bearer token. -/
  credentials : Header := []

/-- The reverse proxy drops forwarding headers of the client and sets its own, then the
transport applies the credentials of the origin. -/
def dispatchHeader (d : Dispatch) (h : Header) : Header :=
  let cleaned := ["Forwarded", "X-Forwarded-For", "X-Forwarded-Host", "X-Forwarded-Proto"].foldl
    Header.del h
  let forwarded := Header.set (Header.set (Header.set cleaned "X-Forwarded-For" d.forwardedFor)
    "X-Forwarded-Host" d.forwardedHost) "X-Forwarded-Proto" d.forwardedProto
  let accepting := Header.set forwarded "Accept" "application/geo+json, application/json"
  d.credentials.foldl (fun h field => Header.set h field.1 field.2) accepting

def outboundHeader (o : OriginAuth) (d : Dispatch) (hasBody : Bool) (requestID : String)
    (inbound : Header) : Header :=
  dispatchHeader d (buildHeader o hasBody requestID inbound)

end Build

end OutboundRequest
