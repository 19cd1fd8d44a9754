import StacProxy.CursorAuthenticity
import StacProxy.DotSegments
import StacProxy.RequestPath

/-!
# The page cache

Pages that `Search` rendered, written as JSON and kept in a byte store under a key made from the
signature of their cursor and the principal. A page is kept for the TTL of the cache, or for as
long as its cursor has left. Times are in nanoseconds. `matched` is never set and left out.
-/

namespace PageCache

open JsonValue StacItem FederatedCursor CursorWire PageMerge PaginatedSearch RequestPath
  CursorPayload CursorAuthenticity

/-! ## Entries -/

def errorText : OriginError → String
  | .circuitOpen => "circuit_open"
  | .fetchFailed => "fetch_failed"

def readError (value : Json) : Option (Option OriginError) :=
  (readString value).bind fun text =>
    ([OriginError.circuitOpen, .fetchFailed].find? (errorText · == text)).map some

def statusFields (status : OriginStatus) : Tagged := [
  ("id", some (.str status.id)),
  ("returned", some (.num status.returned)),
  ("exhausted", some (.bool status.exhausted)),
  ("error", status.error.map fun e => .str (errorText e))]

def statusJson (status : OriginStatus) : Json := .obj (statusFields status).members

def contextFields (context : SearchContext) : Tagged := [
  ("returned", some (.num context.returned)),
  ("limit", some (.num context.limit)),
  ("origins", some (.arr (context.origins.map statusJson)))]

def resultFields (items : List Json) (result : SearchResult) : Tagged := [
  ("items", some (.arr items)),
  ("tc", omitEmpty (result.totalCount == 0) (.num result.totalCount.toInt)),
  ("nc", omitEmpty (result.nextCursor == "") (.str result.nextCursor)),
  ("pc", omitEmpty (result.prevCursor == "") (.str result.prevCursor)),
  ("fc", omitEmpty (result.firstCursor == "") (.str result.firstCursor)),
  ("sc", omitEmpty (result.selfCursor == "") (.str result.selfCursor)),
  ("ctx", some (.obj (contextFields result.context).members))]

def resultJson (codec : Codec) (result : SearchResult) : Option Json :=
  (result.items.mapM codec.itemJson).map fun items => .obj (resultFields items result).members

def readStatus : Json → Option OriginStatus
  | .obj m => do
    let id ← field m "id" "" readString
    let returned ← field m "returned" 0 readNat
    let exhausted ← field m "exhausted" false readBool
    let error ← field m "error" none readError
    some ⟨id, returned, exhausted, error⟩
  | _ => none

def readStatuses : Json → Option (List OriginStatus)
  | .arr elems => elems.mapM readStatus
  | _ => none

def readContext : Json → Option SearchContext
  | .obj m => do
    let returned ← field m "returned" 0 readNat
    let limit ← field m "limit" 0 readNat
    let origins ← field m "origins" [] readStatuses
    some ⟨returned, limit, origins⟩
  | _ => none

def readItems (codec : Codec) : Json → Option (List Item)
  | .arr elems => elems.mapM codec.readItem
  | _ => none

/-- A context that cannot be read stays empty. -/
def readResult (codec : Codec) : Json → Option SearchResult
  | .obj m => do
    let items ← field m "items" [] (readItems codec)
    let totalCount ← field m "tc" 0 readInt64
    let nextCursor ← field m "nc" "" readString
    let prevCursor ← field m "pc" "" readString
    let firstCursor ← field m "fc" "" readString
    let selfCursor ← field m "sc" "" readString
    let context ← field m "ctx" ⟨0, 0, []⟩ fun value => some ((readContext value).getD ⟨0, 0, []⟩)
    some ⟨items, totalCount, nextCursor, prevCursor, firstCursor, selfCursor, context⟩
  | _ => none

/-- The text of a page and the encodings of its items are read back. -/
structure ReadsBack (codec : Codec) (result : SearchResult) : Prop where
  items : ∀ item ∈ result.items, ∃ value, codec.itemJson item = some value ∧
    codec.readItem value = some item
  text : ∀ value, resultJson codec result = some value →
    codec.parse (bytes (codec.print value)) = some value

section RoundTrip
variable {codec : Codec} {result : SearchResult}

theorem readError_errorText (e : OriginError) : readError (.str (errorText e)) = some (some e) := by
  cases e <;> decide

theorem readStatus_statusJson (status : OriginStatus) :
    readStatus (statusJson status) = some status := by
  have distinct : ((statusFields status).map (·.1)).Nodup :=
    (by decide : ["id", "returned", "exhausted", "error"].Nodup)
  let m := (statusFields status).members
  have id : field m "id" "" readString = some status.id :=
    field_always distinct 0 rfl nofun
  have returned : field m "returned" 0 readNat = some status.returned :=
    (field_always distinct 1 rfl nofun).trans (readNat_nat _)
  have exhausted : field m "exhausted" false readBool = some status.exhausted :=
    field_always distinct 2 rfl nofun
  have error : field m "error" none readError = some status.error := by
    rw [field, get?_members distinct 3 rfl]
    cases status.error with
    | none => rfl
    | some e => exact readError_errorText e
  change readStatus (.obj m) = some status
  simp only [readStatus, id, returned, exhausted, error]
  rfl

theorem readContext_contextFields (context : SearchContext) :
    readContext (.obj (contextFields context).members) = some context := by
  have distinct : ((contextFields context).map (·.1)).Nodup :=
    (by decide : ["returned", "limit", "origins"].Nodup)
  have statuses : readStatuses (.arr (context.origins.map statusJson)) = some context.origins := by
    obtain ⟨values, written, readBack⟩ := @mapM_roundTrip _ _ _ (fun s => some (statusJson s))
      readStatus (fun s => s) context.origins fun s _ => ⟨_, rfl, readStatus_statusJson s⟩
    rw [← Option.pure_def, List.mapM_pure] at written
    rw [readStatuses, Option.some.inj written, readBack, List.map_id']
  let m := (contextFields context).members
  have returned : field m "returned" 0 readNat = some context.returned :=
    (field_always distinct 0 rfl nofun).trans (readNat_nat _)
  have limit : field m "limit" 0 readNat = some context.limit :=
    (field_always distinct 1 rfl nofun).trans (readNat_nat _)
  have origins : field m "origins" [] readStatuses = some context.origins :=
    (field_always distinct 2 rfl nofun).trans statuses
  change readContext (.obj m) = some context
  simp only [readContext, returned, limit, origins]
  rfl

/-- A page is read back from its entry. -/
theorem readResult_resultJson (round : ReadsBack codec result) :
    ∃ value, resultJson codec result = some value ∧ readResult codec value = some result := by
  obtain ⟨items, written, readBack⟩ := @mapM_roundTrip _ _ _ codec.itemJson codec.readItem
    (fun item => item) result.items round.items
  rw [List.map_id'] at readBack
  refine ⟨.obj (resultFields items result).members, by rw [resultJson, written, Option.map_some], ?_⟩
  have distinct : ((resultFields items result).map (·.1)).Nodup :=
    (by decide : ["items", "tc", "nc", "pc", "fc", "sc", "ctx"].Nodup)
  let m := (resultFields items result).members
  have items_ : field m "items" [] (readItems codec) = some result.items :=
    (field_always distinct 0 rfl nofun).trans readBack
  have totalCount : field m "tc" 0 readInt64 = some result.totalCount :=
    field_omitEmpty distinct 1 rfl nofun (readInt64_toInt _) eq_of_beq
  have nextCursor : field m "nc" "" readString = some result.nextCursor :=
    field_omitEmpty distinct 2 rfl nofun rfl eq_of_beq
  have prevCursor : field m "pc" "" readString = some result.prevCursor :=
    field_omitEmpty distinct 3 rfl nofun rfl eq_of_beq
  have firstCursor : field m "fc" "" readString = some result.firstCursor :=
    field_omitEmpty distinct 4 rfl nofun rfl eq_of_beq
  have selfCursor : field m "sc" "" readString = some result.selfCursor :=
    field_omitEmpty distinct 5 rfl nofun rfl eq_of_beq
  have context : field m "ctx" ⟨0, 0, []⟩
      (fun value => some ((readContext value).getD ⟨0, 0, []⟩)) = some result.context := by
    rw [field_always distinct 6 rfl nofun, readContext_contextFields, Option.getD_some]
  change readResult codec (.obj m) = some result
  simp only [readResult, items_, totalCount, nextCursor, prevCursor, firstCursor, selfCursor,
    context]
  rfl

end RoundTrip

/-! ## Keys -/

structure Cache where
  ttl : Int
  secret : Bytes
  ttl_pos : 0 < ttl
  secret_ne_nil : secret ≠ []

def new (ttl : Int) (secret : Bytes) : Except String Cache :=
  if keyed : secret = [] then .error "pagecache: secret is required"
  else if positive : ttl ≤ 0 then .error "pagecache: ttl must be positive"
  else .ok { ttl := ttl, secret := secret, ttl_pos := not_le.mp positive, secret_ne_nil := keyed }

/-- The part of a token after its last period. -/
def signatureOf (encoded : String) : String :=
  if '.' ∈ encoded.toList then
    String.ofList (encoded.toList.reverse.takeWhile (· ≠ '.')).reverse
  else ""

/-- What the key is the MAC of. -/
def keyText (cursorSig principalHash : String) : Bytes :=
  bytes cursorSig ++ 0 :: bytes principalHash

def Cache.key (cache : Cache) (w : Wire) (cursorSig principalHash : String) : String :=
  "pg:" ++ String.ofList
    (Base64Url.encode (w.hmac cache.secret (keyText cursorSig principalHash)))

section Keys
variable {token : String} {w : Wire} {secret payload : Bytes}

theorem bytes_injective {a b : String} (same : bytes a = bytes b) : a = b := by
  rw [← String.toByteArray_inj]
  exact ByteArray.ext (Array.toList_inj.mp same)

theorem bytes_ofList (text : List Char) :
    bytes (String.ofList text) = text.flatMap String.utf8EncodeChar := by
  rw [bytes, String.toUTF8]
  simp [List.utf8Encode]

theorem isSome_of_mapM {α β : Type} {f : α → Option β} {l : List α} {l' : List β}
    (mapped : l.mapM f = some l') : ∀ a ∈ l, (f a).isSome := by
  induction l generalizing l' with
  | nil => nofun
  | cons first rest ih =>
    simp only [List.mapM_cons, Option.bind_eq_bind, Option.bind_eq_some_iff] at mapped
    obtain ⟨b, here, rest', later, -⟩ := mapped
    rintro a (_ | ⟨_, member⟩)
    · rw [here, Option.isSome_some]
    · exact ih later a member

theorem sextet_printable {c : Char} (digit : (Base64Url.sextet? c).isSome) :
    0 < c.toNat ∧ c.toNat ≤ 127 := by
  have bounds : ∀ a b : Char, 0 < a.toNat → b.toNat ≤ 127 → a ≤ c ∧ c ≤ b →
      0 < c.toNat ∧ c.toNat ≤ 127 := by
    intro a b low high between
    exact ⟨low.trans_le between.1, le_trans between.2 high⟩
  unfold Base64Url.sextet? at digit
  split at digit
  · exact bounds 'A' 'Z' (by decide) (by decide) ‹_›
  · split at digit
    · exact bounds 'a' 'z' (by decide) (by decide) ‹_›
    · split at digit
      · exact bounds '0' '9' (by decide) (by decide) ‹_›
      · split at digit
        · rename_i dash
          rw [dash]
          decide
        · split at digit
          · rename_i underscore
            rw [underscore]
            decide
          · cases digit

/-- What decodes as base64 has no NUL. -/
theorem zero_notMem_of_decode {text : List Char} {data : Bytes}
    (decoded : Base64Url.decode text = some data) : 0 ∉ bytes (String.ofList text) := by
  rw [bytes_ofList, List.mem_flatMap]
  rintro ⟨c, member, zero⟩
  have printable : 0 < c.toNat ∧ c.toNat ≤ 127 := by
    cases breaks : Base64Url.isLineBreak c with
    | true =>
      simp only [Base64Url.isLineBreak, Bool.or_eq_true, beq_iff_eq] at breaks
      rcases breaks with rfl | rfl <;> decide
    | false =>
      obtain ⟨sextets, mapped, -⟩ := Option.bind_eq_some_iff.mp decoded
      exact sextet_printable (isSome_of_mapM mapped c (by simp [member, breaks]))
  rw [String.utf8EncodeChar_eq_singleton (Char.utf8Size_eq_one_iff.mpr printable.2),
    List.mem_singleton] at zero
  have value := congrArg UInt8.toNat zero
  rw [UInt32.toNat_toUInt8] at value
  have := printable.1
  have := printable.2
  change 0 = c.toNat % 256 at value
  omega

theorem signatureOf_eq {payloadText signatureText : List Char}
    (halves : token.toList.splitOn '.' = [payloadText, signatureText]) :
    signatureOf token = String.ofList signatureText := by
  have joined : ['.'].intercalate (token.toList.splitOn '.') = token.toList :=
    List.intercalate_splitOn _
  have plain : '.' ∉ signatureText := DotSegments.sep_notMem_of_mem_splitOn
    (show signatureText ∈ token.toList.splitOn '.' by simp [halves])
  rw [halves] at joined
  have chars : token.toList = payloadText ++ '.' :: signatureText := by
    rw [← joined]
    simp [List.intercalate]
  have tail : token.toList.reverse.takeWhile (· ≠ '.') = signatureText.reverse := by
    have kept : ∀ c ∈ signatureText.reverse, decide (c ≠ '.') = true := by
      intro c member
      rw [decide_eq_true_iff]
      rintro rfl
      exact plain (List.mem_reverse.mp member)
    rw [chars, List.reverse_append, List.reverse_cons, List.append_assoc,
      List.takeWhile_append_of_pos kept]
    simp
  rw [signatureOf, if_pos (by simp [chars]), tail, List.reverse_reverse]

/-- The key tells signatures apart. -/
theorem signature_of_keyText {token' principalHash principalHash' : String} {payload' : Bytes}
    (verifies : Verifies w secret token payload) (verifies' : Verifies w secret token' payload')
    (same : keyText (signatureOf token) principalHash = keyText (signatureOf token') principalHash') :
    w.hmac secret payload = w.hmac secret payload' := by
  obtain ⟨_, signature, halves, -, -, -, decoded⟩ := verifies
  obtain ⟨_, signature', halves', -, -, -, decoded'⟩ := verifies'
  rw [signatureOf_eq halves, signatureOf_eq halves'] at same
  -- The first NUL ends the signature.
  have pieces := congrArg (List.splitOn 0) same
  rw [keyText, keyText, List.splitOn_append_cons_self_of_not_mem (zero_notMem_of_decode decoded),
    List.splitOn_append_cons_self_of_not_mem (zero_notMem_of_decode decoded'),
    List.cons.injEq] at pieces
  have texts : signature = signature' :=
    String.ofList_injective (bytes_injective pieces.1)
  rw [texts, decoded'] at decoded
  exact (Option.some.inj decoded).symm

end Keys

end PageCache
