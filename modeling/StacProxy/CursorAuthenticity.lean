import StacProxy.CursorPayload
import StacProxy.RecordedSession

/-!
# Which tokens are accepted

A token that `Encode` has minted is restored while it is unexpired, for its principal and with
next URLs under the bases of their origins. Nothing else is accepted, as long as nobody can find
the MAC of a payload that was not signed. A token is accepted for its payload: the decoder takes
other spellings of the base64 halves too.
-/

namespace CursorAuthenticity

open FederatedCursor CursorWire CursorPayload

/-- The halves of the token are a payload and its MAC. -/
def Verifies (w : Wire) (secret : List UInt8) (token : String) (payload : List UInt8) : Prop :=
  ∃ payloadText signatureText, token.toList.splitOn '.' = [payloadText, signatureText] ∧
    payloadText ≠ [] ∧ signatureText ≠ [] ∧ Base64Url.decode payloadText = some payload ∧
    Base64Url.decode signatureText = some (w.hmac secret payload)

/-- The MAC of a payload is only ever presented if a cursor was signed as this payload. -/
def Unforgeable (w : Wire) (secret : List UInt8) (signed : Cursor → Prop)
    (presented : String → Prop) : Prop :=
  ∀ token, presented token → ∀ payload, Verifies w secret token payload →
    ∃ c, signed c ∧ w.marshal c = some payload

/-- Every next URL starts with the base of its origin. -/
def UnderBases (allowed : Std.ExtTreeMap String String) (c : Cursor) : Prop :=
  ∀ (id : String) (oc : OriginCursor), c.origins[id]? = some oc → oc.nextURL ≠ "" →
    ∃ base, allowed[oc.id]? = some base ∧ base ≠ "" ∧ base.toList <+: oc.nextURL.toList

/-- A cursor but for the last sort values, which are written and never read. -/
def stateOf (c : Cursor) : Cursor :=
  { c with origins := c.origins.map fun _ oc => { oc with lastSortValue := none } }

section Decoding
variable {w : Wire} {secret payload : List UInt8} {allowed : Std.ExtTreeMap String String}
  {principalHash token : String} {now : Int64} {c : Cursor}

theorem underBases_iff : UnderBases allowed c ↔
    ∀ (id : String) (oc : OriginCursor), c.origins[id]? = some oc → urlAllowed allowed oc := by
  simp only [UnderBases, urlAllowed_iff]
  refine forall₃_congr fun id oc present => ?_
  rw [ne_eq, ← or_iff_not_imp_left]

theorem underBases_iff_find? : UnderBases allowed c ↔
    c.origins.toList.find? (fun entry => !urlAllowed allowed entry.2) = none :=
  underBases_iff.trans forall_urlAllowed_iff

/-- The checks of the decoder. -/
theorem decodeCursor_ok_iff :
    decodeCursor w token secret allowed principalHash now = .ok c ↔
      secret ≠ [] ∧ (∃ payload, Verifies w secret token payload ∧ w.unmarshal payload = some c) ∧
        ¬ c.expiresAt < now ∧ c.principalHash = principalHash ∧ UnderBases allowed c := by
  constructor
  · intro accepted
    simp only [decodeCursor] at accepted
    -- Every check but the last of a branch ends in an error.
    split at accepted
    · cases accepted
    split at accepted
    · cases accepted
    rename_i keyed
    split at accepted
    · rename_i payloadText signatureText halves
      split at accepted
      · cases accepted
      rename_i nonempty
      obtain ⟨some_payload, some_signature⟩ := not_or.mp nonempty
      split at accepted
      · cases accepted
      · cases accepted
      · rename_i payload signature payload_eq signature_eq
        split at accepted
        · cases accepted
        rename_i genuine
        split at accepted
        · cases accepted
        rename_i cursor decoded
        split at accepted
        · cases accepted
        rename_i unexpired
        split at accepted
        · cases accepted
        rename_i bound
        split at accepted
        · cases accepted
        rename_i clean
        cases accepted
        rw [← not_not.mp genuine] at signature_eq
        exact ⟨keyed, ⟨payload, ⟨payloadText, signatureText, halves, some_payload, some_signature,
          payload_eq, signature_eq⟩, decoded⟩, unexpired, not_not.mp bound,
          underBases_iff_find?.mpr clean⟩
    · cases accepted
  · rintro ⟨keyed, ⟨payload, ⟨payloadText, signatureText, halves, some_payload, some_signature,
      payload_eq, signature_eq⟩, decoded⟩, unexpired, bound, under⟩
    have shown : token ≠ "" := by
      rintro rfl
      cases halves
    rw [underBases_iff_find?] at under
    simp only [decodeCursor, shown, keyed, halves, some_payload, some_signature, payload_eq,
      signature_eq, decoded, unexpired, bound, under, if_false, or_self, ne_eq, not_true_eq_false]

/-- A token that was accepted once is accepted until its cursor expires. -/
theorem accepted_until_expiry {now' : Int64}
    (accepted : decodeCursor w token secret allowed principalHash now = .ok c)
    (unexpired : ¬ c.expiresAt < now') :
    decodeCursor w token secret allowed principalHash now' = .ok c := by
  obtain ⟨keyed, genuine, -, bound, under⟩ := decodeCursor_ok_iff.mp accepted
  exact decodeCursor_ok_iff.mpr ⟨keyed, genuine, unexpired, bound, under⟩

/-- A token carries one payload. -/
theorem verifies_unique {payload' : List UInt8} (verifies : Verifies w secret token payload)
    (verifies' : Verifies w secret token payload') : payload = payload' := by
  obtain ⟨_, _, halves, -, -, decoded, -⟩ := verifies
  obtain ⟨_, _, halves', -, -, decoded', -⟩ := verifies'
  obtain ⟨rfl, -⟩ := List.cons.inj (halves.symm.trans halves')
  exact Option.some.inj (decoded.symm.trans decoded')

/-- A minted token is that of no other payload. -/
theorem eq_of_verifies_tokenOf {payload' : List UInt8}
    (verifies : Verifies w secret (tokenOf w secret payload) payload') : payload' = payload := by
  obtain ⟨payloadText, signatureText, halves, -, -, decoded, -⟩ := verifies
  rw [splitOn_tokenOf, List.cons.injEq] at halves
  rw [← halves.1, Base64Url.decode_encode] at decoded
  exact (Option.some.inj decoded).symm

@[simp] theorem stateOf_restored (c : Cursor) : stateOf (restored c) = stateOf c := by
  have same : (restored c).origins.map (fun _ oc => { oc with lastSortValue := none }) =
      c.origins.map fun _ oc => { oc with lastSortValue := none } := by
    refine Std.ExtTreeMap.ext_getElem? fun id => ?_
    simp only [restored, Std.ExtTreeMap.getElem?_map, Option.map_map]
    rfl
  exact congrArg (fun origins => { c with origins := origins }) same

theorem underBases_restored : UnderBases allowed (restored c) ↔ UnderBases allowed c := by
  simp only [underBases_iff, restored, Std.ExtTreeMap.getElem?_map, Option.map_eq_some_iff]
  constructor
  · intro under id oc present
    exact under id (restoredOrigin oc) ⟨oc, present, rfl⟩
  · rintro under id _ ⟨oc, present, rfl⟩
    exact under id oc present

end Decoding

section Tokens
variable {codec : Codec} {w : Wire} {secret : List UInt8} {allowed : Std.ExtTreeMap String String}
  {principalHash token : String} {now : Int64} {c c' : Cursor}

/-- A minted token is restored. -/
theorem restored_of_encode (keyed : secret ≠ []) (round : codec.RoundTrips c)
    (unexpired : ¬ c.expiresAt < now) (bound : c.principalHash = principalHash)
    (under : UnderBases allowed c) :
    ∃ token, encode (codec.wire w) c secret = .ok token ∧
      decodeCursor (codec.wire w) token secret allowed principalHash now = .ok (restored c) := by
  obtain ⟨payload, written, readBack⟩ := exists_payload_restored w round
  refine ⟨_, encode_ok_iff.mpr ⟨keyed, payload, written, rfl⟩, ?_⟩
  rw [decodeCursor_tokenOf_iff keyed (marshal_ne_nil written) readBack unexpired bound]
  exact underBases_iff.mp (underBases_restored.mpr under)

/-- An accepted token carries the payload of a cursor that was signed. -/
theorem signed_of_accepted {signed : Cursor → Prop} {presented : String → Prop}
    (faithful : ∀ c, signed c → codec.RoundTrips c)
    (unforgeable : Unforgeable (codec.wire w) secret signed presented) (shown : presented token)
    (accepted : decodeCursor (codec.wire w) token secret allowed principalHash now = .ok c') :
    ∃ c payload, signed c ∧ Verifies (codec.wire w) secret token payload ∧
      encode (codec.wire w) c secret = .ok (tokenOf (codec.wire w) secret payload) ∧
      c' = restored c ∧ c.principalHash = principalHash ∧ ¬ c.expiresAt < now ∧
      UnderBases allowed c := by
  obtain ⟨keyed, ⟨payload, verifies, decoded⟩, unexpired, bound, under⟩ :=
    decodeCursor_ok_iff.mp accepted
  obtain ⟨c, signs, written⟩ := unforgeable token shown payload verifies
  obtain ⟨payload', written', readBack⟩ := exists_payload_restored w (faithful c signs)
  obtain rfl : payload = payload' := Option.some.inj (written.symm.trans written')
  obtain rfl : c' = restored c := Option.some.inj (decoded.symm.trans readBack)
  exact ⟨c, payload, signs, verifies, encode_ok_iff.mpr ⟨keyed, payload, written, rfl⟩, rfl, bound,
    unexpired, underBases_restored.mp under⟩

end Tokens

/-! ## A cursor of a second page -/

def sampleOrigin : OriginCursor where
  id := "a"
  nextURL := "https://api.example.com/search?page=2"
  adapterName := "next_url"
  error := true
  errorCount := 1

def sampleCursor : Cursor where
  version := currentCursorVersion
  queryHash := "q"
  principalHash := "p"
  origins := (∅ : OriginMap).insert "a" sampleOrigin
  createdAt := 0
  expiresAt := 3600
  pageSeq := 1

def sampleBases : Std.ExtTreeMap String String :=
  (∅ : Std.ExtTreeMap String String).insert "a" "https://api.example.com"

/-- A codec without items. -/
def plainCodec : Codec where
  print _ := "\x7b\x7d"
  parse _ := none
  itemJson _ := none
  readItem _ := none
  bodyText body := body
  readBody := some

/-- A codec that knows the text of the sample. -/
def sampleCodec : Codec :=
  { plainCodec with
    parse := fun payload => (originsJson plainCodec sampleCursor.origins).bind fun origins =>
      if payload =
          (cursorText (plainCodec.print origins) sampleCursor).flatMap String.utf8EncodeChar then
        some (.obj (cursorFields origins sampleCursor).members)
      else none }

theorem sampleCursor_origins {id : String} {oc : OriginCursor}
    (present : sampleCursor.origins[id]? = some oc) : oc = sampleOrigin := by
  rw [sampleCursor, Std.ExtTreeMap.getElem?_insert] at present
  split at present
  · exact (Option.some.inj present).symm
  · simp at present

theorem sampleCodec_roundTrips : sampleCodec.RoundTrips sampleCursor where
  items id oc item present stashed := by
    rw [sampleCursor_origins present] at stashed
    cases stashed
  bodies _ _ _ := rfl
  text origins written := by
    have written : originsJson plainCodec sampleCursor.origins = some origins := written
    simp [sampleCodec, written]

theorem sampleCursor_under : UnderBases sampleBases sampleCursor := by
  intro id oc present _
  rw [sampleCursor_origins present]
  exact ⟨"https://api.example.com", by simp [sampleBases, sampleOrigin], by decide, by decide⟩

/-- Under a secret that is not empty, minted tokens are restored but for the last sort values,
which nothing reads, and what is accepted carries the payload of a cursor that was signed, for
this principal, unexpired and with next URLs under the bases of their origins. -/
theorem tokens_authentic {codec : Codec} {w : Wire} {secret : List UInt8} {signed : Cursor → Prop}
    {presented : String → Prop} (keyed : secret ≠ [])
    (faithful : ∀ c, signed c → codec.RoundTrips c)
    (unforgeable : Unforgeable (codec.wire w) secret signed presented)
    (allowed : Std.ExtTreeMap String String) (principalHash : String) (now : Int64) :
    (∀ c, codec.RoundTrips c → ¬ c.expiresAt < now → c.principalHash = principalHash →
      UnderBases allowed c → ∃ token c', encode (codec.wire w) c secret = .ok token ∧
        decodeCursor (codec.wire w) token secret allowed principalHash now = .ok c' ∧
        stateOf c' = stateOf c) ∧
    (∀ token c', presented token →
      decodeCursor (codec.wire w) token secret allowed principalHash now = .ok c' →
      ∃ c payload, signed c ∧ Verifies (codec.wire w) secret token payload ∧
        encode (codec.wire w) c secret = .ok (tokenOf (codec.wire w) secret payload) ∧
        stateOf c' = stateOf c ∧ c.principalHash = principalHash ∧ ¬ c.expiresAt < now ∧
        UnderBases allowed c) := by
  constructor
  · intro c round unexpired bound under
    obtain ⟨token, minted, accepted⟩ := restored_of_encode keyed round unexpired bound under
    exact ⟨token, restored c, minted, accepted, stateOf_restored c⟩
  · intro token c' shown accepted
    obtain ⟨c, payload, signs, verifies, minted, rfl, bound, unexpired, under⟩ :=
      signed_of_accepted faithful unforgeable shown accepted
    exact ⟨c, payload, signs, verifies, minted, stateOf_restored c, bound, unexpired, under⟩

/-- The token of the sample and one that has no signature are presented. -/
theorem tokens_authentic_sample : ∃ token c',
    encode (sampleCodec.wire RecordedSession.sampleWire) sampleCursor [1] = .ok token ∧
    decodeCursor (sampleCodec.wire RecordedSession.sampleWire) token [1] sampleBases "p" 0 =
      .ok c' ∧
    stateOf c' = stateOf sampleCursor ∧
    (decodeCursor (sampleCodec.wire RecordedSession.sampleWire) "forged" [1] sampleBases "p"
      0).toOption.isNone := by
  let w := sampleCodec.wire RecordedSession.sampleWire
  have forged_unverified : ∀ payload, ¬ Verifies w [1] "forged" payload := by
    rintro payload ⟨payloadText, signatureText, halves, -⟩
    rw [show "forged".toList.splitOn '.' = ["forged".toList] by decide] at halves
    cases halves
  have unforgeable : Unforgeable w [1] (· = sampleCursor)
      (fun token => encode w sampleCursor [1] = .ok token ∨ token = "forged") := by
    rintro token (minted | rfl) payload verifies
    · obtain ⟨-, signed, written, rfl⟩ := encode_ok_iff.mp minted
      exact ⟨sampleCursor, rfl, eq_of_verifies_tokenOf verifies ▸ written⟩
    · exact absurd verifies (forged_unverified payload)
  have authentic := tokens_authentic RecordedSession.sampleSecret_ne_nil
    (by rintro c rfl; exact sampleCodec_roundTrips) unforgeable sampleBases "p" 0
  obtain ⟨token, c', minted, accepted, same⟩ := authentic.1 sampleCursor sampleCodec_roundTrips
    (by decide) rfl sampleCursor_under
  refine ⟨token, c', minted, accepted, same, ?_⟩
  cases forged : decodeCursor w "forged" [1] sampleBases "p" 0 with
  | error _ => rfl
  | ok c =>
    obtain ⟨_, payload, -, verifies, -⟩ := authentic.2 "forged" c (.inr rfl) forged
    exact absurd verifies (forged_unverified payload)

/-- An empty secret mints nothing, and an empty base lets no next URL through. -/
theorem unkeyed_or_unbased_refused : sampleCodec.RoundTrips sampleCursor ∧
    encode (sampleCodec.wire RecordedSession.sampleWire) sampleCursor [] =
      .error .secretMissing ∧
    "".toList <+: sampleOrigin.nextURL.toList ∧
    ((encode (sampleCodec.wire RecordedSession.sampleWire) sampleCursor [1]).toOption.bind
      fun token => (decodeCursor (sampleCodec.wire RecordedSession.sampleWire) token [1]
        ((∅ : Std.ExtTreeMap String String).insert "a" "") "p" 0).toOption).isNone := by
  refine ⟨sampleCodec_roundTrips, rfl, List.nil_prefix, ?_⟩
  decide +kernel

end CursorAuthenticity
