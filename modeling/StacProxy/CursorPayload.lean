import StacProxy.CursorWire

/-!
# The payload of a cursor

The JSON object a cursor is written as, member by member as the struct tags name them, and how
the object is read back: a member that is left out is the zero value of its field. The text of
JSON, the items and the base64 text of a body are taken from a `Codec`. The map of origins never
holds a nil pointer, so an origin that is `null` is not read.
-/

namespace CursorPayload

open JsonValue StacItem FederatedCursor CursorWire

/-! ## Structs as objects -/

/-- The tags of a struct with the values of its fields; `none` where `omitempty` leaves the
member out. -/
abbrev Tagged := List (String × Option Json)

def Tagged.members (fields : Tagged) : Members :=
  fields.filterMap fun (name, value) => value.map (name, ·)

def omitEmpty (empty : Bool) (value : Json) : Option Json :=
  if empty then none else some value

theorem get?_members_cons (head name : String) (value : Option Json) (rest : Tagged) :
    Members.get? (Tagged.members ((head, value) :: rest)) name =
      if name = head then value.or (Members.get? rest.members name)
      else Members.get? rest.members name := by
  cases value with
  | none =>
    rw [Option.none_or, ite_self]
    rfl
  | some v => exact get?_cons name head v rest.members

theorem get?_members_absent {fields : Tagged} {name : String} (absent : name ∉ fields.map (·.1)) :
    Members.get? fields.members name = none := by
  induction fields with
  | nil => rfl
  | cons first rest ih =>
    rw [List.map_cons, List.mem_cons, not_or] at absent
    rw [get?_members_cons, if_neg absent.1, ih absent.2]

/-- The member of the `i`-th field. -/
theorem get?_members {fields : Tagged} (distinct : (fields.map (·.1)).Nodup) (i : Nat)
    {name : String} {value : Option Json} (tagged : fields[i]? = some (name, value)) :
    Members.get? fields.members name = value := by
  replace tagged := List.mem_of_getElem? tagged
  induction fields with
  | nil => cases tagged
  | cons first rest ih =>
    obtain ⟨fresh, distinct'⟩ := List.nodup_cons.mp distinct
    rw [get?_members_cons]
    rcases List.mem_cons.mp tagged with rfl | later
    · rw [if_pos rfl, get?_members_absent fresh, Option.or_none]
    · have other : name ≠ first.1 := fun same => fresh (List.mem_map.mpr ⟨_, later, same⟩)
      rw [if_neg other, ih distinct' later]

/-- One field of a decoded struct. A member that is absent or null leaves it at its zero value. -/
def field {α : Type} (m : Members) (name : String) (zero : α) (read : Json → Option α) : Option α :=
  match m.get? name with
  | none => some zero
  | some .null => some zero
  | some value => read value

section Fields
variable {α : Type} {fields : Tagged} {name : String} {zero : α} {read : Json → Option α}

theorem field_always (distinct : (fields.map (·.1)).Nodup) (i : Nat) {value : Json}
    (tagged : fields[i]? = some (name, some value)) (shown : value ≠ .null) :
    field fields.members name zero read = read value := by
  rw [field, get?_members distinct i tagged]
  cases value <;> first | rfl | exact absurd rfl shown

/-- A field with `omitempty` is read back, from its member or as the zero value. -/
theorem field_omitEmpty (distinct : (fields.map (·.1)).Nodup) (i : Nat) {empty : Bool}
    {value : Json} {x : α} (tagged : fields[i]? = some (name, omitEmpty empty value))
    (shown : value ≠ .null)
    (reads : read value = some x) (default : empty = true → x = zero) :
    field fields.members name zero read = some x := by
  cases empty with
  | true =>
    rw [field, get?_members distinct i tagged, default rfl]
    rfl
  | false => exact (field_always distinct i tagged shown).trans reads

end Fields

/-! ## Values of fields -/

def readString : Json → Option String
  | .str s => some s
  | _ => none

def readBool : Json → Option Bool
  | .bool b => some b
  | _ => none

def readInt : Json → Option Int
  | .num q => if q.den = 1 then some q.num else none
  | _ => none

/-- A counter, which is never negative. -/
def readNat (value : Json) : Option Nat :=
  (readInt value).bind fun n => if 0 ≤ n then some n.toNat else none

def readInt64 (value : Json) : Option Int64 :=
  (readInt value).bind fun n =>
    if Int64.minValue.toInt ≤ n ∧ n ≤ Int64.maxValue.toInt then some (Int64.ofInt n) else none

@[simp] theorem readInt_int (n : Int) : readInt (.num n) = some n := by
  simp [readInt]

@[simp] theorem readNat_nat (n : Nat) : readNat (.num n) = some n := by
  have whole : readInt (.num n) = some (n : Int) := readInt_int n
  simp [readNat, whole]

@[simp] theorem readInt64_toInt (n : Int64) : readInt64 (.num n.toInt) = some n := by
  have inside : Int64.minValue.toInt ≤ n.toInt ∧ n.toInt ≤ Int64.maxValue.toInt :=
    ⟨Int64.minValue_le_toInt n, Int64.toInt_le n⟩
  rw [readInt64, readInt_int, Option.bind_some, if_pos inside, Int64.ofInt_toInt]

/-! ## Cursors -/

/-- What a payload needs from `encoding/json`, from the item library and from base64. -/
structure Codec where
  /-- The text of a JSON value. -/
  print : Json → String
  parse : List UInt8 → Option Json
  /-- The encoding of an item, if it has one. -/
  itemJson : Item → Option Json
  readItem : Json → Option Item
  /-- The text of a byte slice. -/
  bodyText : String → String
  readBody : String → Option String

section Writing
variable (codec : Codec)

/-- A stashed item; a nil pointer is `null`. -/
def stashJson : Option Item → Option Json
  | none => some .null
  | some item => codec.itemJson item

def originFields (oc : OriginCursor) (stash : List Json) : Tagged := [
  ("id", some (.str oc.id)),
  ("nt", omitEmpty (oc.nextToken == "") (.str oc.nextToken)),
  ("nu", omitEmpty (oc.nextURL == "") (.str oc.nextURL)),
  ("nb", omitEmpty (oc.nextBody == "") (.str (codec.bodyText oc.nextBody))),
  ("off", omitEmpty (oc.offset == 0) (.num oc.offset)),
  ("ad", omitEmpty (oc.adapterName == "") (.str oc.adapterName)),
  ("ex", some (.bool oc.exhausted)),
  ("err", some (.bool oc.error)),
  ("ec", omitEmpty (oc.errorCount == 0) (.num oc.errorCount)),
  ("ic", some (.num oc.itemCount)),
  ("lsv", oc.lastSortValue),
  ("st", omitEmpty stash.isEmpty (.arr stash))]

def originJson (oc : OriginCursor) : Option Json :=
  (oc.stash.mapM (stashJson codec)).map fun stash => .obj (originFields codec oc stash).members

def originsJson (origins : OriginMap) : Option Json :=
  (origins.toList.mapM fun entry => (originJson codec entry.2).map (entry.1, ·)).map .obj

def cursorFields (origins : Json) (c : Cursor) : Tagged := [
  ("v", some (.num c.version)),
  ("q", some (.str c.queryHash)),
  ("ph", omitEmpty (c.principalHash == "") (.str c.principalHash)),
  ("o", some origins),
  ("tr", some (.num c.totalReturned.toInt)),
  ("ca", some (.num c.createdAt.toInt)),
  ("ea", some (.num c.expiresAt.toInt)),
  ("pc", omitEmpty (c.prevCursor == "") (.str c.prevCursor)),
  ("fc", omitEmpty (c.firstCursor == "") (.str c.firstCursor)),
  ("ps", omitEmpty (c.pageSeq == 0) (.num c.pageSeq))]

end Writing

section Reading
variable (codec : Codec)

def readStashed : Json → Option (Option Item)
  | .null => some none
  | value => (codec.readItem value).map some

def readStash : Json → Option (List (Option Item))
  | .arr elems => elems.mapM (readStashed codec)
  | _ => none

def readOrigin : Json → Option OriginCursor
  | .obj m => do
    let id ← field m "id" "" readString
    let nextToken ← field m "nt" "" readString
    let nextURL ← field m "nu" "" readString
    let nextBody ← field m "nb" "" fun value => (readString value).bind codec.readBody
    let offset ← field m "off" 0 readInt
    let adapterName ← field m "ad" "" readString
    let exhausted ← field m "ex" false readBool
    let error ← field m "err" false readBool
    let errorCount ← field m "ec" 0 readNat
    let itemCount ← field m "ic" 0 readNat
    let lastSortValue ← field m "lsv" none fun value => some (some value)
    let stash ← field m "st" [] (readStash codec)
    some ⟨id, nextToken, nextURL, nextBody, offset, adapterName, exhausted, error, errorCount,
      itemCount, lastSortValue, stash⟩
  | _ => none

def readOrigins : Json → Option OriginMap
  | .obj m => (m.mapM fun entry => (readOrigin codec entry.2).map (entry.1, ·)).map fun read =>
      read.foldl (fun origins entry => origins.insert entry.1 entry.2) ∅
  | _ => none

def readCursor : Json → Option Cursor
  | .obj m => do
    let version ← field m "v" 0 readNat
    let queryHash ← field m "q" "" readString
    let principalHash ← field m "ph" "" readString
    let origins ← field m "o" ∅ (readOrigins codec)
    let totalReturned ← field m "tr" 0 readInt64
    let createdAt ← field m "ca" 0 readInt64
    let expiresAt ← field m "ea" 0 readInt64
    let prevCursor ← field m "pc" "" readString
    let firstCursor ← field m "fc" "" readString
    let pageSeq ← field m "ps" 0 readNat
    some ⟨version, queryHash, principalHash, origins, totalReturned, createdAt, expiresAt,
      prevCursor, firstCursor, pageSeq⟩
  | _ => none

end Reading

/-- Tokens whose payload is written and read by the tags. -/
def Codec.wire (codec : Codec) (w : Wire) : Wire :=
  { w with
    marshalOrigins := fun origins => (originsJson codec origins).map codec.print
    unmarshal := fun payload => (codec.parse payload).bind (readCursor codec) }

/-- The texts of JSON and base64 and the encodings of items that a cursor holds are read back. -/
structure Codec.RoundTrips (codec : Codec) (c : Cursor) : Prop where
  items : ∀ (id : String) oc item, c.origins[id]? = some oc → some item ∈ oc.stash →
    ∃ value, codec.itemJson item = some value ∧ readStashed codec value = some (some item)
  bodies : ∀ (id : String) oc, c.origins[id]? = some oc →
    codec.readBody (codec.bodyText oc.nextBody) = some oc.nextBody
  text : ∀ origins, originsJson codec c.origins = some origins →
    codec.parse ((cursorText (codec.print origins) c).flatMap String.utf8EncodeChar) =
      some (.obj (cursorFields origins c).members)

/-! ## Reading back -/

/-- The last sort value of a page whose last item has a null datetime is nil, and left out. -/
def restoredOrigin (oc : OriginCursor) : OriginCursor :=
  { oc with lastSortValue := match oc.lastSortValue with
    | some .null => none
    | value => value }

def restored (c : Cursor) : Cursor :=
  { c with origins := c.origins.map fun _ oc => restoredOrigin oc }

/-- Encoding and decoding the elements of a list. -/
theorem mapM_roundTrip {α β γ : Type} {write : α → Option β} {read : β → Option γ} {same : α → γ}
    {l : List α} (round : ∀ a ∈ l, ∃ b, write a = some b ∧ read b = some (same a)) :
    ∃ l', l.mapM write = some l' ∧ l'.mapM read = some (l.map same) := by
  induction l with
  | nil => exact ⟨[], rfl, rfl⟩
  | cons a rest ih =>
    obtain ⟨b, written, readBack⟩ := round a (by simp)
    obtain ⟨l', written', readBack'⟩ := ih fun a member => round a (by simp [member])
    exact ⟨b :: l', by simp [written, written'], by simp [readBack, readBack']⟩

section RoundTrip
variable {codec : Codec} {c : Cursor}

theorem originFields_distinct (oc : OriginCursor) (stash : List Json) :
    ((originFields codec oc stash).map (·.1)).Nodup :=
  (by decide : ["id", "nt", "nu", "nb", "off", "ad", "ex", "err", "ec", "ic", "lsv", "st"].Nodup)

theorem cursorFields_distinct (origins : Json) (c : Cursor) :
    ((cursorFields origins c).map (·.1)).Nodup :=
  (by decide : ["v", "q", "ph", "o", "tr", "ca", "ea", "pc", "fc", "ps"].Nodup)

theorem readOrigin_originFields {oc : OriginCursor} {stash : List Json}
    (items : stash.mapM (readStashed codec) = some oc.stash)
    (body : codec.readBody (codec.bodyText oc.nextBody) = some oc.nextBody) :
    readOrigin codec (.obj (originFields codec oc stash).members) = some (restoredOrigin oc) := by
  have distinct := @originFields_distinct codec oc stash
  let m := (originFields codec oc stash).members
  have id : field m "id" "" readString = some oc.id := field_always distinct 0 rfl nofun
  have nextToken : field m "nt" "" readString = some oc.nextToken :=
    field_omitEmpty distinct 1 rfl nofun rfl eq_of_beq
  have nextURL : field m "nu" "" readString = some oc.nextURL :=
    field_omitEmpty distinct 2 rfl nofun rfl eq_of_beq
  have nextBody : field m "nb" "" (fun value => (readString value).bind codec.readBody) =
      some oc.nextBody := field_omitEmpty distinct 3 rfl nofun body eq_of_beq
  have offset : field m "off" 0 readInt = some oc.offset :=
    field_omitEmpty distinct 4 rfl nofun (readInt_int _) eq_of_beq
  have adapterName : field m "ad" "" readString = some oc.adapterName :=
    field_omitEmpty distinct 5 rfl nofun rfl eq_of_beq
  have exhausted : field m "ex" false readBool = some oc.exhausted :=
    field_always distinct 6 rfl nofun
  have error : field m "err" false readBool = some oc.error :=
    field_always distinct 7 rfl nofun
  have errorCount : field m "ec" 0 readNat = some oc.errorCount :=
    field_omitEmpty distinct 8 rfl nofun (readNat_nat _) eq_of_beq
  have itemCount : field m "ic" 0 readNat = some oc.itemCount :=
    (field_always distinct 9 rfl nofun).trans (readNat_nat _)
  have lastSortValue : field m "lsv" none (fun value => some (some value)) =
      some (restoredOrigin oc).lastSortValue := by
    rw [field, get?_members distinct 10 rfl]
    simp only [restoredOrigin]
    cases oc.lastSortValue with
    | none => rfl
    | some value => cases value <;> rfl
  have emptied : stash.isEmpty = true → oc.stash = [] := by
    intro empty
    rw [List.isEmpty_iff.mp empty] at items
    exact (Option.some.inj items).symm
  have stashed : field m "st" [] (readStash codec) = some oc.stash :=
    field_omitEmpty distinct 11 rfl nofun items emptied
  change readOrigin codec (.obj m) = some (restoredOrigin oc)
  simp only [readOrigin, id, nextToken, nextURL, nextBody, offset, adapterName, exhausted, error,
    errorCount, itemCount, lastSortValue, stashed]
  rfl

/-- The state of an origin is read back from its object. -/
theorem exists_originJson {oc : OriginCursor}
    (items : ∀ item, some item ∈ oc.stash →
      ∃ value, codec.itemJson item = some value ∧ readStashed codec value = some (some item))
    (body : codec.readBody (codec.bodyText oc.nextBody) = some oc.nextBody) :
    ∃ value, originJson codec oc = some value ∧
      readOrigin codec value = some (restoredOrigin oc) := by
  obtain ⟨stash, written, readBack⟩ :=
    @mapM_roundTrip _ _ _ (stashJson codec) (readStashed codec) (fun item => item) oc.stash <| by
      rintro (_ | item) stashed
      · exact ⟨.null, rfl, rfl⟩
      · exact items item stashed
  rw [List.map_id'] at readBack
  exact ⟨_, by rw [originJson, written, Option.map_some], readOrigin_originFields readBack body⟩

/-- Filing the entries of a map one by one. -/
theorem foldl_insert_map (origins : OriginMap) :
    (origins.toList.map fun entry => (entry.1, restoredOrigin entry.2)).foldl
      (fun m entry => m.insert entry.1 entry.2) ∅ = origins.map fun _ oc => restoredOrigin oc := by
  have single : ∀ a ∈ origins.toList, ∀ b ∈ origins.toList, a.1 = b.1 →
      restoredOrigin a.2 = restoredOrigin b.2 := by
    rintro ⟨id, oc⟩ listed ⟨_, oc'⟩ listed' rfl
    rw [Std.ExtTreeMap.mem_toList_iff_getElem?_eq_some] at listed listed'
    rw [Option.some.inj (listed.symm.trans listed')]
  refine Std.ExtTreeMap.ext_getElem? fun id => Option.ext fun oc => ?_
  rw [List.foldl_map, KeyedMap.getElem?_eq_some_iff single, Std.ExtTreeMap.getElem?_map,
    Option.map_eq_some_iff]
  constructor
  · rintro ⟨⟨_, oc'⟩, listed, rfl, rfl⟩
    exact ⟨oc', Std.ExtTreeMap.mem_toList_iff_getElem?_eq_some.mp listed, rfl⟩
  · rintro ⟨oc', present, rfl⟩
    exact ⟨(id, oc'), Std.ExtTreeMap.mem_toList_iff_getElem?_eq_some.mpr present, rfl, rfl⟩

theorem exists_originsJson (round : codec.RoundTrips c) :
    ∃ value, originsJson codec c.origins = some value ∧ value ≠ .null ∧
      readOrigins codec value = some (restored c).origins := by
  obtain ⟨entries, written, readBack⟩ := @mapM_roundTrip _ _ _
    (fun entry : String × OriginCursor => (originJson codec entry.2).map (entry.1, ·))
    (fun entry => (readOrigin codec entry.2).map (entry.1, ·))
    (fun entry => (entry.1, restoredOrigin entry.2)) c.origins.toList <| by
      rintro ⟨id, oc⟩ listed
      have present := Std.ExtTreeMap.mem_toList_iff_getElem?_eq_some.mp listed
      obtain ⟨value, written, readBack⟩ :=
        exists_originJson (fun item => round.items id oc item present) (round.bodies id oc present)
      exact ⟨(id, value), by simp [written], by simp [readBack]⟩
  refine ⟨.obj entries, by rw [originsJson, written, Option.map_some], nofun, ?_⟩
  rw [readOrigins, readBack, Option.map_some, Option.some.injEq]
  exact foldl_insert_map c.origins

theorem readCursor_cursorFields {origins : Json} {read : OriginMap} (shown : origins ≠ .null)
    (readBack : readOrigins codec origins = some read) :
    readCursor codec (.obj (cursorFields origins c).members) =
      some { c with origins := read } := by
  have distinct := cursorFields_distinct origins c
  let m := (cursorFields origins c).members
  have version : field m "v" 0 readNat = some c.version :=
    (field_always distinct 0 rfl nofun).trans (readNat_nat _)
  have queryHash : field m "q" "" readString = some c.queryHash :=
    field_always distinct 1 rfl nofun
  have principalHash : field m "ph" "" readString = some c.principalHash :=
    field_omitEmpty distinct 2 rfl nofun rfl eq_of_beq
  have origins_ : field m "o" ∅ (readOrigins codec) = some read :=
    (field_always distinct 3 rfl shown).trans readBack
  have totalReturned : field m "tr" 0 readInt64 = some c.totalReturned :=
    (field_always distinct 4 rfl nofun).trans (readInt64_toInt _)
  have createdAt : field m "ca" 0 readInt64 = some c.createdAt :=
    (field_always distinct 5 rfl nofun).trans (readInt64_toInt _)
  have expiresAt : field m "ea" 0 readInt64 = some c.expiresAt :=
    (field_always distinct 6 rfl nofun).trans (readInt64_toInt _)
  have prevCursor : field m "pc" "" readString = some c.prevCursor :=
    field_omitEmpty distinct 7 rfl nofun rfl eq_of_beq
  have firstCursor : field m "fc" "" readString = some c.firstCursor :=
    field_omitEmpty distinct 8 rfl nofun rfl eq_of_beq
  have pageSeq : field m "ps" 0 readNat = some c.pageSeq :=
    field_omitEmpty distinct 9 rfl nofun (readNat_nat _) eq_of_beq
  change readCursor codec (.obj m) = some { c with origins := read }
  simp only [readCursor, version, queryHash, principalHash, origins_, totalReturned, createdAt,
    expiresAt, prevCursor, firstCursor, pageSeq]
  rfl

/-- A cursor is read back from its payload. -/
theorem exists_payload_restored (w : Wire) (round : codec.RoundTrips c) :
    ∃ payload, (codec.wire w).marshal c = some payload ∧
      (codec.wire w).unmarshal payload = some (restored c) := by
  obtain ⟨origins, written, shown, readBack⟩ := exists_originsJson round
  refine ⟨(cursorText (codec.print origins) c).flatMap String.utf8EncodeChar, ?_, ?_⟩
  · simp [Wire.marshal, Codec.wire, written]
  · simp only [Codec.wire, round.text origins written, Option.bind_some]
    exact readCursor_cursorFields shown readBack

end RoundTrip

end CursorPayload
