import StacProxy.Base64Url
import StacProxy.FederatedCursor
import StacProxy.SearchRequest

/-!
# Signed cursor tokens

`Encode` and `DecodeCursor`: a token is the base64url payload, a period and the
base64url MAC of the payload. The payload is the JSON text of the cursor. What is
not spelled out here is a parameter: the JSON text of the per-origin states, which
needs the third-party item codec, the JSON decoder, the MAC and the query digest.
-/

namespace CursorWire

open FederatedCursor SearchRequest

/-- The parts of the token format that are not defined in this development. -/
structure Wire where
  /-- `json.Marshal` of the `o` member, or `none` when an item cannot be encoded. -/
  marshalOrigins : OriginMap → Option String
  /-- `json.Unmarshal` of a payload into a cursor. -/
  unmarshal : List UInt8 → Option Cursor
  hmac : List UInt8 → List UInt8 → List UInt8
  /-- Hex SHA-256 of the JSON of the hashed query. -/
  digest : HashedQuery → String
  hmac_length : ∀ secret data, (hmac secret data).length = 32
  digest_length : ∀ query, (digest query).length = 64

inductive CursorError where
  | invalid (detail : String)
  | tampered
  | expired
  | principalMismatch
  | originURLNotAllowed (originID url : String)
  | secretMissing
  | marshal
  deriving DecidableEq, Repr

/-- The errors a caller distinguishes with `errors.Is`, as texts. -/
def CursorError.message : CursorError → String
  | invalid detail => "cursor: invalid: " ++ detail
  | tampered => "cursor: signature mismatch"
  | expired => "cursor: expired"
  | principalMismatch => "cursor: principal mismatch"
  | originURLNotAllowed originID url =>
    "cursor: origin NextURL not allowed: origin=" ++ originID ++ " url=" ++ url
  | secretMissing => "cursor: secret required"
  | marshal => "cursor: marshal"

section JsonText

def hexDigit (n : Nat) : Char := if n < 10 then Char.ofNat (48 + n) else Char.ofNat (87 + n)

/-- The `\uXXXX` form of a code point below `0x10000`. -/
def unicodeEscape (n : Nat) : List Char :=
  ['\\', 'u', hexDigit (n / 4096 % 16), hexDigit (n / 256 % 16), hexDigit (n / 16 % 16),
    hexDigit (n % 16)]

/-- Escaping of `encoding/json`, with its default escaping of HTML characters. -/
def escapeChar (c : Char) : List Char :=
  if c = '"' then ['\\', '"']
  else if c = '\\' then ['\\', '\\']
  else if c.toNat = 8 then ['\\', 'b']
  else if c.toNat = 12 then ['\\', 'f']
  else if c = '\n' then ['\\', 'n']
  else if c = '\r' then ['\\', 'r']
  else if c = '\t' then ['\\', 't']
  else if c.toNat < 32 ∨ c = '<' ∨ c = '>' ∨ c = '&' ∨ c.toNat = 8232 ∨ c.toNat = 8233 then
    unicodeEscape c.toNat
  else [c]

def quote (s : String) : List Char := '"' :: s.toList.flatMap escapeChar ++ ['"']

def int64Text (n : Int64) : List Char := (toString n.toInt).toList

def memberText (name : String) (value : List Char) : List Char :=
  ",\"".toList ++ name.toList ++ "\":".toList ++ value

/-- A string member marked `omitempty`. -/
def optionalText (name value : String) : List Char :=
  if value = "" then [] else memberText name (quote value)

/-- The JSON text of a cursor whose `o` member has the given text. -/
def cursorText (originsText : String) (c : Cursor) : List Char :=
  "\x7b\"v\":".toList ++ (toString c.version).toList ++
    memberText "q" (quote c.queryHash) ++
    optionalText "ph" c.principalHash ++
    memberText "o" originsText.toList ++
    memberText "tr" (int64Text c.totalReturned) ++
    memberText "ca" (int64Text c.createdAt) ++
    memberText "ea" (int64Text c.expiresAt) ++
    optionalText "pc" c.prevCursor ++
    optionalText "fc" c.firstCursor ++
    (if c.pageSeq = 0 then [] else memberText "ps" (toString c.pageSeq).toList) ++
    "\x7d".toList

end JsonText

def Wire.marshal (w : Wire) (c : Cursor) : Option (List UInt8) :=
  (w.marshalOrigins c.origins).map fun originsText =>
    (cursorText originsText c).flatMap String.utf8EncodeChar

def Wire.hashSearchRequest (w : Wire) (req : Request) : String :=
  w.digest (hashedQuery req)

def encode (w : Wire) (c : Cursor) (secret : List UInt8) : Except CursorError String :=
  if secret = [] then .error .secretMissing
  else match w.marshal c with
    | none => .error .marshal
    | some data =>
      .ok (String.ofList (Base64Url.encode data ++ '.' :: Base64Url.encode (w.hmac secret data)))

def urlAllowed (allowed : Std.ExtTreeMap String String) (oc : OriginCursor) : Bool :=
  oc.nextURL == "" || (allowed[oc.id]?).any fun base =>
    base != "" && base.toList.isPrefixOf oc.nextURL.toList

def decodeCursor (w : Wire) (encoded : String) (secret : List UInt8)
    (allowed : Std.ExtTreeMap String String) (principalHash : String) (now : Int64) :
    Except CursorError Cursor :=
  if encoded = "" then .error (.invalid "empty cursor")
  else if secret = [] then .error .secretMissing
  else match encoded.toList.splitOn '.' with
    | [payloadText, signatureText] =>
      if payloadText = [] ∨ signatureText = [] then
        .error (.invalid "token must have payload and signature")
      else match Base64Url.decode payloadText, Base64Url.decode signatureText with
        | none, _ => .error (.invalid "payload base64")
        | some _, none => .error (.invalid "signature base64")
        | some payload, some signature =>
          if w.hmac secret payload ≠ signature then .error .tampered
          else match w.unmarshal payload with
            | none => .error (.invalid "payload JSON")
            | some cursor =>
              if cursor.expiresAt < now then .error .expired
              else if cursor.principalHash ≠ principalHash then .error .principalMismatch
              else match cursor.origins.toList.find? (fun entry => !urlAllowed allowed entry.2) with
                | some (_, oc) => .error (.originURLNotAllowed oc.id oc.nextURL)
                | none => .ok cursor
    | _ => .error (.invalid "token must have payload and signature")

section Tokens
variable {w : Wire} {c : Cursor} {secret payload : List UInt8} {token : String}

/-- The token of a payload. -/
def tokenOf (w : Wire) (secret payload : List UInt8) : String :=
  String.ofList
    (Base64Url.encode payload ++ '.' :: Base64Url.encode (w.hmac secret payload))

theorem encode_ok_iff : encode w c secret = .ok token ↔
    secret ≠ [] ∧ ∃ payload, w.marshal c = some payload ∧ token = tokenOf w secret payload := by
  rw [encode]
  by_cases empty : secret = []
  · simp [empty]
  · cases marshalled : w.marshal c with
    | none => simp [empty]
    | some payload =>
      simp only [empty, if_false, ne_eq, not_false_eq_true, true_and, Option.some.injEq,
        exists_eq_left', Except.ok.injEq, tokenOf]
      exact eq_comm

theorem notMem_period_encode (bytes : List UInt8) : '.' ∉ Base64Url.encode bytes := fun member =>
  absurd (Base64Url.encode_plain bytes '.' member) (by decide)

theorem encode_ne_nil {bytes : List UInt8} (nonempty : bytes ≠ []) :
    Base64Url.encode bytes ≠ [] := by
  intro empty
  have length := Base64Url.length_encode bytes
  have positive := List.length_pos_iff.mpr nonempty
  rw [empty, List.length_nil] at length
  omega

theorem splitOn_tokenOf (w : Wire) (secret payload : List UInt8) :
    (tokenOf w secret payload).toList.splitOn '.' =
      [Base64Url.encode payload, Base64Url.encode (w.hmac secret payload)] := by
  rw [tokenOf, String.toList_ofList, List.splitOn_append_cons_self,
    List.splitOn_eq_singleton (notMem_period_encode _),
    List.splitOn_eq_singleton (notMem_period_encode _), List.singleton_append]

theorem tokenOf_ne_empty (w : Wire) (secret payload : List UInt8) :
    tokenOf w secret payload ≠ "" := by
  intro empty
  have chars := congrArg String.toList empty
  rw [tokenOf, String.toList_ofList] at chars
  simp at chars

theorem marshal_ne_nil (marshalled : w.marshal c = some payload) : payload ≠ [] := by
  obtain ⟨originsText, _, rfl⟩ := Option.map_eq_some_iff.mp marshalled
  intro empty
  have closing : '\x7d' ∈ cursorText originsText c :=
    List.mem_append_right _ (by decide)
  have encoded := List.flatMap_eq_nil_iff.mp empty _ closing
  exact absurd encoded (by decide)

theorem urlAllowed_iff {allowed : Std.ExtTreeMap String String} {oc : OriginCursor} :
    urlAllowed allowed oc ↔ oc.nextURL = "" ∨
      ∃ base, allowed[oc.id]? = some base ∧ base ≠ "" ∧ base.toList <+: oc.nextURL.toList := by
  simp [urlAllowed, Option.any_eq_true]

/-- The decoder looks for an origin whose next URL is not allowed. -/
theorem forall_urlAllowed_iff {allowed : Std.ExtTreeMap String String} :
    (∀ (id : String) (oc : OriginCursor), c.origins[id]? = some oc → urlAllowed allowed oc) ↔
      c.origins.toList.find? (fun entry => !urlAllowed allowed entry.2) = none := by
  rw [List.find?_eq_none]
  constructor
  · rintro rooted ⟨id, oc⟩ member
    simpa using rooted id oc (Std.ExtTreeMap.mem_toList_iff_getElem?_eq_some.mp member)
  · intro rooted id oc present
    simpa using rooted (id, oc) (Std.ExtTreeMap.mem_toList_iff_getElem?_eq_some.mpr present)

/-- A minted token that is unexpired and presented by its principal decodes to the cursor its
payload unmarshals to exactly if the next URLs are rooted at allowed bases. -/
theorem decodeCursor_tokenOf_iff {allowed : Std.ExtTreeMap String String} {principalHash : String}
    {now : Int64} (keyed : secret ≠ []) (nonempty : payload ≠ [])
    (decoded : w.unmarshal payload = some c) (unexpired : ¬ c.expiresAt < now)
    (bound : c.principalHash = principalHash) :
    decodeCursor w (tokenOf w secret payload) secret allowed principalHash now = .ok c ↔
      ∀ (id : String) (oc : OriginCursor), c.origins[id]? = some oc → urlAllowed allowed oc := by
  have mac : w.hmac secret payload ≠ [] := by
    intro empty
    have length := w.hmac_length secret payload
    simp [empty] at length
  rw [forall_urlAllowed_iff]
  cases violation : c.origins.toList.find? (fun entry => !urlAllowed allowed entry.2) <;>
    simp [decodeCursor, tokenOf_ne_empty, keyed, splitOn_tokenOf, encode_ne_nil nonempty,
      encode_ne_nil mac, Base64Url.decode_encode, decoded, unexpired, bound, violation]

end Tokens

end CursorWire
