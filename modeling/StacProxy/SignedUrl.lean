import StacProxy.Base64Url
import StacProxy.SearchQuery

/-!
# Signed URLs

Remapped URLs carry an expiry and an HMAC over host, path and query. The signer keeps its old
secrets: it signs with the newest and verifies with all of them. The message joins the parts
with line breaks and may contain more of them, as the path is decoded.
-/

namespace SignedUrl

open PercentCoding

abbrev Bytes := List UInt8

/-! ## Paths -/

section Paths

def dots : Bytes := [46, 46]

/-- One element of a path for `path.Clean`: an element that is no dot goes up. -/
def cleanElement (rooted : Bool) (out : List Bytes) (element : Bytes) : List Bytes :=
  if element = [] ∨ element = [46] then out
  else if element = dots then
    if out ≠ [] ∧ out.getLast? ≠ some dots then out.dropLast
    else if rooted then out else out ++ [dots]
  else out ++ [element]

/-- `path.Clean`. -/
def clean (path : Bytes) : Bytes :=
  if path = [] then [46]
  else
    let rooted := path.head? = some slash
    let out := (segments path).foldl (cleanElement rooted) []
    if rooted then slash :: [slash].intercalate out
    else if out = [] then [46] else [slash].intercalate out

def canonicalPath (path : Bytes) : Bytes := if path = [] then [slash] else clean path

/-- An empty path counts as the root. -/
def orRoot (path : Bytes) : Bytes := if path = [] then [slash] else path

theorem canonicalPath_eq (path : Bytes) : canonicalPath path = clean (orRoot path) := by
  unfold canonicalPath orRoot
  split
  · decide
  · rfl

end Paths

/-! ## Numbers and times -/

section Numbers

def digitsOf (n : Nat) : Bytes := (Nat.toDigits 10 n).map fun c => UInt8.ofNat c.toNat

/-- The decimal text of an `int64`. -/
def formatInt : Int → Bytes
  | .ofNat n => digitsOf n
  | .negSucc n => 45 :: digitsOf (n + 1)

/-- `strconv.ParseInt` for base 10 and 64 bits, which `Atoi` is too. -/
def parseInt (text : Bytes) : Option Int := SearchQuery.atoi text

/-- A time after 1970 as `time.Now` can give it. -/
structure Instant where
  nanoseconds : Nat
  bounded : nanoseconds < 4611686018427387904000000000

def Instant.unix (now : Instant) : Int := (now.nanoseconds / 1000000000 : Nat)

/-- The time to live is a `time.Duration`. -/
def expiryOf (now : Instant) (ttl : Int64) : Int :=
  (now.nanoseconds + ttl.toInt) / 1000000000

theorem expiryOf_bounds (now : Instant) (ttl : Int64) :
    -9223372036854775808 ≤ expiryOf now ttl ∧ expiryOf now ttl < 9223372036854775808 := by
  have bounded := now.bounded
  have low := ttl.le_toInt
  have high := ttl.toInt_lt
  unfold expiryOf
  omega

/-- ASCII texts are read back from their bytes. -/
theorem chars_of_ascii {text : List Char} (ascii : ∀ c ∈ text, c.toNat < 128) :
    (text.map fun c => UInt8.ofNat c.toNat).map (fun b => Char.ofNat b.toNat) = text := by
  rw [List.map_map]
  conv_rhs => rw [← List.map_id text]
  apply List.map_congr_left
  intro c member
  have small := ascii c member
  have same : (UInt8.ofNat c.toNat).toNat = c.toNat := by
    rw [UInt8.toNat_ofNat']
    omega
  simp only [Function.comp_apply, id, same, Char.ofNat_toNat]

theorem ascii_of_isDigit {c : Char} (digit : c.isDigit = true) : c.toNat < 128 := by
  simp only [Char.isDigit, Bool.and_eq_true, decide_eq_true_eq] at digit
  have bound : c.val.toNat ≤ 57 := digit.2
  exact Nat.lt_of_le_of_lt bound (by decide)

theorem chars_digitsOf (n : Nat) :
    (digitsOf n).map (fun b => Char.ofNat b.toNat) = Nat.toDigits 10 n :=
  chars_of_ascii fun _ member =>
    ascii_of_isDigit (Nat.isDigit_of_mem_toDigits (by decide) (by decide) member)

theorem digits_value (n : Nat) :
    (Nat.toDigits 10 n).foldl (fun n c => 10 * n + (c.toNat - '0'.toNat)) 0 = n :=
  Nat.ofDigitChars_toDigits (by decide) (by decide)

theorem all_isDigit (n : Nat) : (Nat.toDigits 10 n).all Char.isDigit = true :=
  List.all_eq_true.mpr fun _ member => Nat.isDigit_of_mem_toDigits (by decide) (by decide) member

theorem digitsOf_ne_nil (n : Nat) : digitsOf n ≠ [] := by
  simp [digitsOf, Nat.toDigits_ne_nil]

theorem formatInt_ne_nil (n : Int) : formatInt n ≠ [] := by
  cases n with
  | ofNat n => exact digitsOf_ne_nil n
  | negSucc n => exact List.cons_ne_nil _ _

theorem digitsOf_injective : Function.Injective digitsOf := by
  intro n m same
  have texts := congrArg (List.map fun b : UInt8 => Char.ofNat b.toNat) same
  rw [chars_digitsOf, chars_digitsOf] at texts
  rw [← digits_value n, texts, digits_value]

theorem digitsOf_ne_minus (n : Nat) (text : Bytes) : digitsOf n ≠ 45 :: text := by
  intro signed
  have digits := all_isDigit n
  rw [← chars_digitsOf, signed] at digits
  simp at digits

theorem formatInt_injective : Function.Injective formatInt := by
  intro n m same
  cases n with
  | ofNat n =>
    cases m with
    | ofNat m => rw [digitsOf_injective same]
    | negSucc m => exact absurd same (digitsOf_ne_minus n _)
  | negSucc n =>
    cases m with
    | ofNat m => exact absurd same.symm (digitsOf_ne_minus m _)
    | negSucc m =>
      have digits : n + 1 = m + 1 := digitsOf_injective (List.tail_eq_of_cons_eq same)
      rw [Nat.succ.inj digits]

theorem parseInt_formatInt {n : Int} (low : -9223372036854775808 ≤ n)
    (high : n < 9223372036854775808) : parseInt (formatInt n) = some n := by
  cases n with
  | ofNat n =>
    rw [parseInt, SearchQuery.atoi, formatInt, chars_digitsOf]
    unfold PageAdapter.atoi
    simp only [String.toList_ofList]
    split
    · rename_i signed
      have digits := all_isDigit n
      simp [signed] at digits
    · rename_i signed
      have digits := all_isDigit n
      simp [signed] at digits
    · rw [if_pos ⟨Nat.toDigits_ne_nil, all_isDigit n⟩, digits_value]
      have bounded : n < 2 ^ 63 := by
        have natural : (n : Int) < 9223372036854775808 := high
        omega
      simp only [Option.bind_some, bounded, if_true]
      rfl
  | negSucc n =>
    have text : List.map (fun b : UInt8 => Char.ofNat b.toNat) (45 :: digitsOf (n + 1)) =
        '-' :: Nat.toDigits 10 (n + 1) := by
      rw [List.map_cons, chars_digitsOf]
      rfl
    rw [parseInt, SearchQuery.atoi, formatInt, text]
    unfold PageAdapter.atoi
    simp only [String.toList_ofList]
    rw [if_pos ⟨Nat.toDigits_ne_nil, all_isDigit (n + 1)⟩, digits_value]
    simp only [Option.bind_some]
    rw [if_pos (by omega)]
    rfl

end Numbers

/-! ## Signing -/

section Signing

structure Url (R : Type) where
  host : Bytes
  /-- Decoded. -/
  path : Bytes
  rawQuery : Bytes
  rest : R

/-- The functions of the standard library that are not spelled out here. -/
structure Library (R : Type) where
  parse : Bytes → Option (Url R)
  string : Url R → Bytes
  /-- Control characters are refused, escaped ones in hosts too. -/
  lineBreak_notMem_host : ∀ {raw u}, parse raw = some u → 10 ∉ u.host
  toLower : Bytes → Bytes
  lineBreak_notMem_toLower : ∀ {text}, 10 ∉ text → 10 ∉ toLower text
  /-- HMAC-SHA256 of a secret and a message. -/
  mac : Bytes → Bytes → Bytes
  mac_ne_nil : ∀ secret message, mac secret message ≠ []

/-- The primary secret comes first. -/
structure HMACSigner where
  secrets : List Bytes
  nonempty : secrets ≠ []

def newHMACSigner (secret : Bytes) : HMACSigner := ⟨[secret], List.cons_ne_nil _ _⟩

def rotateSecret (s : HMACSigner) (next : Bytes) : HMACSigner :=
  ⟨next :: s.secrets, List.cons_ne_nil _ _⟩

def rotated (s : HMACSigner) (rotations : List Bytes) : HMACSigner :=
  rotations.foldl rotateSecret s

def HMACSigner.primary (s : HMACSigner) : Bytes := s.secrets.head s.nonempty

def expName : Bytes := RequestPath.bytes "exp"

def sigName : Bytes := RequestPath.bytes "sig"

abbrev Values := List (Bytes × Bytes)

/-- The query that is signed. -/
def signedQuery (q : Values) (expiry : Int) : Values :=
  querySet (queryDel q sigName) expName (formatInt expiry)

variable {R : Type} (lib : Library R)

def signingMessage (host path : Bytes) (q : Values) (expiry : Int) : Bytes :=
  lib.toLower host ++ 10 :: (canonicalPath path ++ 10 :: encodeQuery (signedQuery q expiry))

/-- The text of a signature in `RawURLEncoding`. -/
def signatureText (secret message : Bytes) : Bytes :=
  (Base64Url.encode (lib.mac secret message)).map fun c => UInt8.ofNat c.toNat

/-- What `Sign` puts into the `sig` parameter. -/
def signatureOf (s : HMACSigner) (now : Instant) (u : Url R) (ttl : Int64) : Bytes :=
  signatureText lib s.primary
    (signingMessage lib u.host u.path (query u.rawQuery) (expiryOf now ttl))

def sign (s : HMACSigner) (now : Instant) (rawURL : Bytes) (ttl : Int64) : Bytes :=
  match lib.parse rawURL with
  | none => rawURL
  | some parsed => lib.string { parsed with
      rawQuery := encodeQuery (querySet
        (querySet (query parsed.rawQuery) expName (formatInt (expiryOf now ttl)))
        sigName (signatureOf lib s now parsed ttl)) }

inductive VerifyError where
  | url
  | missingParameters
  | expiryFormat
  | expired
  | invalidSignature
  deriving DecidableEq, Repr

def verify (s : HMACSigner) (now : Instant) (rawURL : Bytes) : Except VerifyError Unit :=
  match lib.parse rawURL with
  | none => .error .url
  | some parsed =>
    let q := query parsed.rawQuery
    if queryGet q expName = [] ∨ queryGet q sigName = [] then .error .missingParameters
    else match parseInt (queryGet q expName) with
      | none => .error .expiryFormat
      | some expiry =>
        if expiry < 0 then .error .expiryFormat
        else if expiry < now.unix then .error .expired
        else
          let message := signingMessage lib parsed.host parsed.path q expiry
          if s.secrets.any fun secret => signatureText lib secret message = queryGet q sigName then
            .ok ()
          else .error .invalidSignature

/-- No two messages have the same code, whatever the secrets. -/
def Library.CollisionFree : Prop :=
  ∀ secret message secret' message', lib.mac secret message = lib.mac secret' message' →
    message = message'

/-- Writing the URL with another query and parsing it again keeps host, path and query. -/
def Library.RoundTrips (u : Url R) : Prop :=
  ∀ values, ∃ reparsed, lib.parse (lib.string { u with rawQuery := encodeQuery values }) =
      some reparsed ∧
    reparsed.host = u.host ∧ reparsed.path = u.path ∧ reparsed.rawQuery = encodeQuery values

end Signing

/-! ## Messages -/

section Messages
variable {R : Type} {lib : Library R} {u v : Url R} {q q' : Values} {expiry expiry' : Int}

theorem lineBreak_notMem_encodeQuery (values : Values) : 10 ∉ encodeQuery values := by
  intro member
  have printable := mem_encodeQuery member
  revert printable
  decide +kernel

theorem append_lineBreak_inj {left right back behind : Bytes} (flat_left : 10 ∉ left)
    (flat_right : 10 ∉ right) (same : left ++ 10 :: back = right ++ 10 :: behind) :
    left = right ∧ back = behind := by
  obtain ⟨lefts, backs⟩ := DotSegments.append_unique flat_left flat_right (.inr rfl) (.inr rfl) same
  exact ⟨lefts, List.tail_eq_of_cons_eq backs⟩

theorem append_lineBreak_inj' {left right back behind : Bytes} (flat_back : 10 ∉ back)
    (flat_behind : 10 ∉ behind) (same : left ++ 10 :: back = right ++ 10 :: behind) :
    left = right ∧ back = behind := by
  have reversed := congrArg List.reverse same
  simp only [List.reverse_append, List.reverse_cons, List.append_assoc, List.singleton_append]
    at reversed
  obtain ⟨backs, lefts⟩ := append_lineBreak_inj (by simpa using flat_back)
    (by simpa using flat_behind) reversed
  exact ⟨List.reverse_injective lefts, List.reverse_injective backs⟩

/-- The first line break ends the host, and the last one starts the query. -/
theorem signingMessage_inj (plain : 10 ∉ u.host) (plain' : 10 ∉ v.host)
    (same : signingMessage lib u.host u.path q expiry =
      signingMessage lib v.host v.path q' expiry') :
    lib.toLower u.host = lib.toLower v.host ∧ canonicalPath u.path = canonicalPath v.path ∧
      encodeQuery (signedQuery q expiry) = encodeQuery (signedQuery q' expiry') := by
  obtain ⟨hosts, rest⟩ := append_lineBreak_inj (lib.lineBreak_notMem_toLower plain)
    (lib.lineBreak_notMem_toLower plain') same
  exact ⟨hosts, append_lineBreak_inj' (lineBreak_notMem_encodeQuery _)
    (lineBreak_notMem_encodeQuery _) rest⟩

theorem queryValues_signedQuery (q : Values) (expiry : Int) (name : Bytes) :
    queryValues (signedQuery q expiry) name =
      if name = expName then [formatInt expiry] else if name = sigName then []
      else queryValues q name := by
  rw [signedQuery, queryValues_querySet, queryValues_queryDel]

theorem signatureText_inj {secret secret' message message' : Bytes}
    (collisionFree : lib.CollisionFree)
    (same : signatureText lib secret message = signatureText lib secret' message') :
    message = message' := by
  have ascii : ∀ bytes, ∀ c ∈ Base64Url.encode bytes, c.toNat < 128 := by
    intro bytes c member
    obtain ⟨n, listed, rfl⟩ := List.mem_map.mp member
    have all : ∀ n < 64, (Base64Url.sextetChar n).toNat < 128 := by decide
    exact all n (Base64Url.encodeSextets_lt bytes n listed)
  have texts := congrArg (List.map fun b : UInt8 => Char.ofNat b.toNat) same
  simp only [signatureText, chars_of_ascii (ascii _)] at texts
  have codes := congrArg Base64Url.decode texts
  rw [Base64Url.decode_encode, Base64Url.decode_encode] at codes
  exact collisionFree _ _ _ _ (Option.some.inj codes)

theorem signatureText_ne_nil (secret message : Bytes) : signatureText lib secret message ≠ [] := by
  intro empty
  have nothing : Base64Url.encode (lib.mac secret message) = [] := List.map_eq_nil_iff.mp empty
  have decoded := Base64Url.decode_encode (lib.mac secret message)
  rw [nothing] at decoded
  exact lib.mac_ne_nil secret message (Option.some.inj decoded).symm

end Messages

/-! ## Round trip and binding -/

section Results
variable {R : Type} {lib : Library R} {s s' : HMACSigner} {signedAt now : Instant} {ttl : Int64}
variable {rawURL : Bytes} {u v : Url R}

theorem mem_rotated {secret : Bytes} (known : secret ∈ s.secrets) (rotations : List Bytes) :
    secret ∈ (rotated s rotations).secrets := by
  induction rotations generalizing s with
  | nil => exact known
  | cons next rest ih => exact ih (List.mem_cons_of_mem next known)

theorem primary_mem (s : HMACSigner) : s.primary ∈ s.secrets := List.head_mem s.nonempty

/-- What it takes to be accepted. -/
theorem verify_eq_ok_iff (parses : lib.parse rawURL = some v) :
    verify lib s now rawURL = .ok () ↔
      queryGet (query v.rawQuery) expName ≠ [] ∧ queryGet (query v.rawQuery) sigName ≠ [] ∧
      ∃ expiry, parseInt (queryGet (query v.rawQuery) expName) = some expiry ∧ 0 ≤ expiry ∧
        now.unix ≤ expiry ∧ ∃ secret ∈ s.secrets,
          signatureText lib secret (signingMessage lib v.host v.path (query v.rawQuery) expiry) =
            queryGet (query v.rawQuery) sigName := by
  unfold verify
  simp only [parses]
  split
  · rename_i missing
    refine ⟨nofun, ?_⟩
    rintro ⟨dated, signed, -⟩
    exact absurd missing (not_or.mpr ⟨dated, signed⟩)
  · rename_i present
    obtain ⟨dated, signed⟩ := not_or.mp present
    cases number : parseInt (queryGet (query v.rawQuery) expName) with
    | none => simp
    | some expiry =>
      simp only [Option.some.injEq, exists_eq_left', ne_eq, dated, signed, not_false_eq_true,
        true_and]
      by_cases negative : expiry < 0
      · simp [negative]
      · by_cases late : expiry < now.unix
        · simp [negative, late]
        · simp [negative, late, not_lt.mp negative, not_lt.mp late]

/-- The query that a signed URL carries is signed as the original one was. -/
theorem encodeQuery_resigned (q : Values) (expiry : Int) (signature : Bytes) :
    encodeQuery (signedQuery (query (encodeQuery
        (querySet (querySet q expName (formatInt expiry)) sigName signature))) expiry) =
      encodeQuery (signedQuery q expiry) := by
  rw [encodeQuery_eq_iff]
  intro name
  rw [queryValues_signedQuery, queryValues_signedQuery]
  by_cases dated : name = expName
  · simp [dated]
  · by_cases signed : name = sigName
    · simp [signed]
    · rw [query_encodeQuery, queryValues_insertionSort, queryValues_querySet, queryValues_querySet]
      simp [dated, signed]

/-- A signed URL is accepted until it expires, whatever secrets are added. -/
theorem verify_sign (parses : lib.parse rawURL = some u) (roundTrips : lib.RoundTrips u)
    (valid : now.unix ≤ expiryOf signedAt ttl) (later : List Bytes) :
    verify lib (rotated s later) now (sign lib s signedAt rawURL ttl) = .ok () := by
  obtain ⟨low, high⟩ := expiryOf_bounds signedAt ttl
  obtain ⟨reparsed, reparses, same_host, same_path, same_query⟩ := roundTrips
    (querySet (querySet (query u.rawQuery) expName (formatInt (expiryOf signedAt ttl))) sigName
      (signatureOf lib s signedAt u ttl))
  have written : sign lib s signedAt rawURL ttl = lib.string { u with
      rawQuery := encodeQuery (querySet
        (querySet (query u.rawQuery) expName (formatInt (expiryOf signedAt ttl))) sigName
        (signatureOf lib s signedAt u ttl)) } := by
    simp only [sign, parses]
  have apart : expName ≠ sigName := by decide
  have exp_value : queryGet (query reparsed.rawQuery) expName = formatInt (expiryOf signedAt ttl) := by
    rw [same_query, queryGet_encodeQuery, queryGet_querySet, if_neg apart, queryGet_querySet,
      if_pos rfl]
  have sig_value : queryGet (query reparsed.rawQuery) sigName = signatureOf lib s signedAt u ttl := by
    rw [same_query, queryGet_encodeQuery, queryGet_querySet, if_pos rfl]
  rw [written, verify_eq_ok_iff reparses, exp_value, sig_value]
  have unix_nonneg : 0 ≤ now.unix := Int.natCast_nonneg _
  refine ⟨formatInt_ne_nil _, signatureText_ne_nil _ _, _, parseInt_formatInt low high,
    unix_nonneg.trans valid, valid, s.primary, mem_rotated (primary_mem s) later, ?_⟩
  rw [signatureOf, signingMessage, signingMessage, same_host, same_path, same_query,
    encodeQuery_resigned]

/-- A signature is accepted only with what it was made for. -/
theorem bound_of_verify (collisionFree : lib.CollisionFree) (parses : lib.parse rawURL = some u)
    {rawURL' : Bytes} (parses' : lib.parse rawURL' = some v)
    (accepted : verify lib s' now rawURL' = .ok ())
    (signed : queryGet (query v.rawQuery) sigName = signatureOf lib s signedAt u ttl) :
    lib.toLower v.host = lib.toLower u.host ∧ clean (orRoot v.path) = clean (orRoot u.path) ∧
      (∀ name, name ≠ sigName → name ≠ expName →
        queryValues (query v.rawQuery) name = queryValues (query u.rawQuery) name) ∧
      parseInt (queryGet (query v.rawQuery) expName) = some (expiryOf signedAt ttl) := by
  obtain ⟨-, -, expiry, dated, -, -, secret, -, matched⟩ :=
    (verify_eq_ok_iff parses').mp accepted
  have message := signatureText_inj collisionFree (matched.trans signed)
  obtain ⟨hosts, paths, queries⟩ := signingMessage_inj (lib.lineBreak_notMem_host parses')
    (lib.lineBreak_notMem_host parses) message
  rw [encodeQuery_eq_iff] at queries
  have same_expiry : expiry = expiryOf signedAt ttl := by
    have texts := queries expName
    rw [queryValues_signedQuery, queryValues_signedQuery, if_pos rfl, if_pos rfl] at texts
    exact formatInt_injective (List.singleton_inj.mp texts)
  refine ⟨hosts, ?_, fun name unsigned undated => ?_, same_expiry ▸ dated⟩
  · rw [← canonicalPath_eq, ← canonicalPath_eq, paths]
  · have values := queries name
    rwa [queryValues_signedQuery, queryValues_signedQuery, if_neg undated, if_neg unsigned,
      if_neg undated, if_neg unsigned] at values

/-- A signed URL is accepted until it expires, after any rotations, and its signature is accepted
with no other host, path, query or expiry. -/
theorem signed_url_bound (collisionFree : lib.CollisionFree)
    (parses : lib.parse rawURL = some u) (s : HMACSigner) (signedAt : Instant) (ttl : Int64) :
    (lib.RoundTrips u → ∀ (later : List Bytes) (now : Instant),
      now.unix ≤ expiryOf signedAt ttl →
        verify lib (rotated s later) now (sign lib s signedAt rawURL ttl) = .ok ()) ∧
    ∀ (s' : HMACSigner) (now : Instant) (rawURL' : Bytes) (v : Url R),
      lib.parse rawURL' = some v → verify lib s' now rawURL' = .ok () →
      queryGet (query v.rawQuery) sigName = signatureOf lib s signedAt u ttl →
        lib.toLower v.host = lib.toLower u.host ∧ clean (orRoot v.path) = clean (orRoot u.path) ∧
        (∀ name, name ≠ sigName → name ≠ expName →
          queryValues (query v.rawQuery) name = queryValues (query u.rawQuery) name) ∧
        parseInt (queryGet (query v.rawQuery) expName) = some (expiryOf signedAt ttl) := by
  refine ⟨fun roundTrips later now valid => ?_, fun s' now rawURL' v parses' accepted signed => ?_⟩
  · exact verify_sign parses roundTrips valid later
  · exact bound_of_verify collisionFree parses parses' accepted signed

end Results

section Sample

def lowerByte (b : UInt8) : UInt8 := if 65 ≤ b ∧ b ≤ 90 then b + 32 else b

/-- References with a host but no scheme: two slashes, the host, a path and a query. -/
def sampleParse (raw : Bytes) : Option (Url Unit) :=
  if 10 ∈ raw ∨ raw.take 2 ≠ [slash, slash] then none
  else some {
    host := (cut 63 (raw.drop 2)).1.takeWhile (· ≠ slash)
    path := (cut 63 (raw.drop 2)).1.dropWhile (· ≠ slash)
    rawQuery := (cut 63 (raw.drop 2)).2
    rest := () }

def sampleString (u : Url Unit) : Bytes :=
  slash :: slash :: (u.host ++ u.path ++ if u.rawQuery = [] then [] else 63 :: u.rawQuery)

theorem lineBreak_notMem_sampleParse {raw : Bytes} {u : Url Unit}
    (parses : sampleParse raw = some u) : 10 ∉ u.host := by
  unfold sampleParse at parses
  split at parses
  · cases parses
  · rename_i plain
    cases parses
    intro member
    exact plain (.inl ((List.drop_sublist 2 raw).subset
      ((List.takeWhile_sublist _).subset ((List.takeWhile_sublist _).subset member))))

theorem lineBreak_notMem_map_lowerByte {text : Bytes} (plain : 10 ∉ text) :
    10 ∉ text.map lowerByte := by
  intro member
  obtain ⟨b, listed, lowered⟩ := List.mem_map.mp member
  have kept : ∀ b : UInt8, lowerByte b = 10 → b = 10 := by
    intro b
    unfold lowerByte
    grind
  exact plain (kept b lowered ▸ listed)

/-- The code shows the length of the secret and the message. -/
def sampleLibrary : Library Unit where
  parse := sampleParse
  string := sampleString
  lineBreak_notMem_host := lineBreak_notMem_sampleParse
  toLower := List.map lowerByte
  lineBreak_notMem_toLower := lineBreak_notMem_map_lowerByte
  mac secret message := UInt8.ofNat secret.length :: message
  mac_ne_nil _ _ := List.cons_ne_nil _ _

theorem sampleLibrary_collisionFree : sampleLibrary.CollisionFree :=
  fun _ _ _ _ same => List.tail_eq_of_cons_eq same

def sampleUrl (path rawQuery : Bytes) : Url Unit where
  host := [104]
  path := path
  rawQuery := rawQuery
  rest := ()

/-- The root of the host and the host alone. -/
theorem parse_sampleUrl {path rawQuery : Bytes} (known : path = [slash] ∨ path = [])
    (plain : 10 ∉ rawQuery) :
    sampleLibrary.parse (sampleString (sampleUrl path rawQuery)) =
      some (sampleUrl path rawQuery) := by
  change sampleParse _ = _
  by_cases unasked : rawQuery = []
  · subst unasked
    rcases known with rfl | rfl <;> rfl
  · have written : sampleString (sampleUrl path rawQuery) =
        [slash, slash] ++ (104 :: path ++ 63 :: rawQuery) := by
      simp [sampleString, sampleUrl, unasked]
    have parts : cut 63 (104 :: path ++ 63 :: rawQuery) = (104 :: path, rawQuery) :=
      cut_append (by rcases known with rfl | rfl <;> decide) rawQuery
    have absent : 10 ∉ [slash, slash] ++ (104 :: path ++ 63 :: rawQuery) := by
      rcases known with rfl | rfl <;> simp [plain, slash]
    rw [written, sampleParse, if_neg]
    · change some (Url.mk ((cut 63 (104 :: path ++ 63 :: rawQuery)).1.takeWhile (· ≠ slash))
        ((cut 63 (104 :: path ++ 63 :: rawQuery)).1.dropWhile (· ≠ slash))
        (cut 63 (104 :: path ++ 63 :: rawQuery)).2 ()) = _
      rw [parts]
      rcases known with rfl | rfl <;> rfl
    · rintro (broken | other)
      · exact absent broken
      · exact other rfl

theorem sampleUrl_roundTrips : sampleLibrary.RoundTrips (sampleUrl [slash] []) := fun values =>
  ⟨sampleUrl [slash] (encodeQuery values),
    parse_sampleUrl (.inl rfl) (lineBreak_notMem_encodeQuery values), rfl, rfl, rfl⟩

theorem zero_bounded : 0 < 4611686018427387904000000000 := by decide

def start : Instant := ⟨0, zero_bounded⟩

def sampleSigner : HMACSigner := newHMACSigner [1, 2]

def tenSeconds : Int64 := 10000000000

/-- The query of the root when it is signed for ten seconds. -/
def rootQuery : Bytes :=
  encodeQuery [(expName, formatInt 10),
    (sigName, signatureOf sampleLibrary sampleSigner start (sampleUrl [slash] []) tenSeconds)]

/-- After a rotation the signed root is accepted, and what was signed is what it has. -/
theorem signed_root_accepted :
    verify sampleLibrary (rotated sampleSigner [[3]]) start
      (sign sampleLibrary sampleSigner start (sampleString (sampleUrl [slash] [])) tenSeconds) =
        .ok () ∧
    parseInt (queryGet (query (sampleUrl [slash] rootQuery).rawQuery) expName) =
      some (expiryOf start tenSeconds) := by
  have bound := @signed_url_bound Unit sampleLibrary (sampleString (sampleUrl [slash] []))
    (sampleUrl [slash] []) sampleLibrary_collisionFree (parse_sampleUrl (.inl rfl) (by decide))
    sampleSigner start tenSeconds
  refine ⟨bound.1 sampleUrl_roundTrips [[3]] start (by decide +kernel), ?_⟩
  exact (bound.2 (rotated sampleSigner [[3]]) start (sampleString (sampleUrl [slash] rootQuery)) _
    (parse_sampleUrl (.inl rfl) (lineBreak_notMem_encodeQuery _)) (by decide +kernel)
    (by decide +kernel)).2.2.2

/-- The signature of the root is accepted for the host alone, whose path is empty and cleaned to a
dot. -/
theorem empty_path_accepted :
    sampleLibrary.parse (sampleString (sampleUrl [] rootQuery)) = some (sampleUrl [] rootQuery) ∧
    verify sampleLibrary sampleSigner start (sampleString (sampleUrl [] rootQuery)) = .ok () ∧
    queryGet (query (sampleUrl [] rootQuery).rawQuery) sigName =
      signatureOf sampleLibrary sampleSigner start (sampleUrl [slash] []) tenSeconds ∧
    clean (sampleUrl [] rootQuery).path = [46] ∧ clean (sampleUrl [slash] []).path = [slash] :=
  ⟨parse_sampleUrl (.inr rfl) (lineBreak_notMem_encodeQuery _), by decide +kernel,
    by decide +kernel, by decide, by decide⟩

end Sample

end SignedUrl
