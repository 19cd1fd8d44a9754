import Mathlib.Data.List.Sort
import Mathlib.Data.List.TakeWhile
import StacProxy.DotSegments
import StacProxy.StableOrder

/-!
# Percent coding of paths and queries

Escaping the bytes of a text that a grammar does not keep, undoing it, and splitting a text at
slashes before or after. Form-urlencoded queries as `net/url` reads and writes them: fields
are separated by ampersands, a plus is a space, and the canonical encoding sorts by name.
-/

namespace PercentCoding

section Coding

/-- The sign that starts an escape. -/
def percent : UInt8 := 37

def slash : UInt8 := 47

def hexDigit (n : Nat) : UInt8 := if n < 10 then UInt8.ofNat (48 + n) else UInt8.ofNat (55 + n)

def hexValue? (b : UInt8) : Option Nat :=
  if 48 ≤ b ∧ b ≤ 57 then some (b.toNat - 48)
  else if 97 ≤ b ∧ b ≤ 102 then some (b.toNat - 87)
  else if 65 ≤ b ∧ b ≤ 70 then some (b.toNat - 55)
  else none

def escapeByte (keep : UInt8 → Bool) (b : UInt8) : List UInt8 :=
  if keep b then [b] else [percent, hexDigit (b.toNat / 16), hexDigit (b.toNat % 16)]

def escape (keep : UInt8 → Bool) (text : List UInt8) : List UInt8 :=
  text.flatMap (escapeByte keep)

/-- Fails on an escape without two hexadecimal digits. -/
def unescape : List UInt8 → Option (List UInt8)
  | [] => some []
  | b :: rest =>
    if b = percent then match rest with
      | high :: low :: more => (hexValue? high).bind fun h => (hexValue? low).bind fun l =>
          (unescape more).map fun text => UInt8.ofNat (16 * h + l) :: text
      | _ => none
    else (unescape rest).map fun text => b :: text

def segments (text : List UInt8) : List (List UInt8) := text.splitOn slash

end Coding

section Queries

/-- A plus stands for a space. -/
def queryUnescape (text : List UInt8) : Option (List UInt8) :=
  unescape (text.map fun b => if b = 43 then 32 else b)

/-- Letters, digits and the marks among the unreserved characters. -/
def unreserved (b : UInt8) : Bool :=
  97 ≤ b && b ≤ 122 || 65 ≤ b && b ≤ 90 || 48 ≤ b && b ≤ 57 || b ∈ [45, 95, 46, 126]

def queryEscape (text : List UInt8) : List UInt8 :=
  text.flatMap fun b => if b = 32 then [43] else escapeByte unreserved b

/-- What is before the first occurrence of a byte, and what is after it. -/
def cut (sep : UInt8) (text : List UInt8) : List UInt8 × List UInt8 :=
  (text.takeWhile (· ≠ sep), (text.dropWhile (· ≠ sep)).tail)

/-- Name and value of a field; semicolons and broken escapes are errors. -/
def parseField (field : List UInt8) : Option (List UInt8 × List UInt8) :=
  if 59 ∈ field then none
  else (queryUnescape (cut 61 field).1).bind fun name =>
    (queryUnescape (cut 61 field).2).map fun value => (name, value)

def queryFields (raw : List UInt8) : List (List UInt8) := (raw.splitOn 38).filter (· ≠ [])

/-- The names and values that can be read, as `URL.Query` has them. -/
def query (raw : List UInt8) : List (List UInt8 × List UInt8) :=
  (queryFields raw).filterMap parseField

/-- `url.ParseQuery` reports no error. -/
def wellFormedQuery (raw : List UInt8) : Bool :=
  (queryFields raw).all fun field => (parseField field).isSome

/-- `Values.Get`: the first value of a name, or nothing. -/
def queryGet (values : List (List UInt8 × List UInt8)) (name : List UInt8) : List UInt8 :=
  (values.lookup name).getD []

/-- All values of a name, in order. -/
def queryValues (values : List (List UInt8 × List UInt8)) (name : List UInt8) :
    List (List UInt8) :=
  (values.filter (·.1 = name)).map (·.2)

/-- `Values.Encode`. -/
def encodeQuery (values : List (List UInt8 × List UInt8)) : List UInt8 :=
  [38].intercalate ((values.insertionSort (fun a b => a.1 ≤ b.1)).map fun field =>
    queryEscape field.1 ++ 61 :: queryEscape field.2)

/-- `Values.Set`. -/
def querySet (values : List (List UInt8 × List UInt8)) (name value : List UInt8) :
    List (List UInt8 × List UInt8) :=
  values.filter (fun field => field.1 ≠ name) ++ [(name, value)]

/-- `Values.Del`. -/
def queryDel (values : List (List UInt8 × List UInt8)) (name : List UInt8) :
    List (List UInt8 × List UInt8) :=
  values.filter fun field => field.1 ≠ name

/-- A semicolon or a broken escape anywhere. -/
def unparsable : List UInt8 → Bool
  | [] => false
  | b :: rest =>
    if b = 59 then true
    else if b = percent then match rest with
      | high :: low :: more =>
        if (hexValue? high).isSome && (hexValue? low).isSome then unparsable more else true
      | _ => true
    else unparsable rest

/-- `cleanQueryParams` of the reverse proxy: a query that does not parse is written anew. -/
def cleanQueryParams (raw : List UInt8) : List UInt8 :=
  if unparsable raw then encodeQuery (query raw) else raw

end Queries

section Unescaping
variable {text : List UInt8}

theorem unescape_cons {b : UInt8} (other : b ≠ percent) (rest : List UInt8) :
    unescape (b :: rest) = (unescape rest).map fun text => b :: text := by
  cases rest with
  | nil => simp [unescape, other]
  | cons high more => cases more <;> simp [unescape, other]

/-- A text without escapes stands for itself. -/
theorem unescape_of_plain (plain : percent ∉ text) : unescape text = some text := by
  induction text with
  | nil => rfl
  | cons b rest ih =>
    simp only [List.mem_cons, not_or] at plain
    rw [unescape_cons (Ne.symm plain.1), ih plain.2]
    rfl

/-- Undoing escapes takes bytes of a kind away, if the sign of an escape and its digits are of
that kind. -/
theorem countP_unescape {kind : UInt8 → Bool} (sign : kind percent = true)
    (digits : ∀ b n, hexValue? b = some n → kind b = true) {decoded : List UInt8}
    (decodes : unescape text = some decoded) :
    decoded.countP kind ≤ text.countP kind ∧
      (percent ∈ text → decoded.countP kind < text.countP kind) := by
  fun_induction unescape text generalizing decoded with
  | case1 =>
    cases decodes
    simp
  | case2 high low more ih =>
    simp only [Option.bind_eq_some_iff, Option.map_eq_some_iff] at decodes
    obtain ⟨h, high_eq, l, low_eq, tail, tail_eq, rfl⟩ := decodes
    have later := (ih tail_eq).1
    simp only [List.countP_cons, sign, digits _ _ high_eq, digits _ _ low_eq, if_true]
    split <;> omega
  | case3 => cases decodes
  | case4 b rest other ih =>
    obtain ⟨tail, tail_eq, rfl⟩ := Option.map_eq_some_iff.mp decodes
    obtain ⟨le, lt⟩ := ih tail_eq
    simp only [List.countP_cons, List.mem_cons]
    refine ⟨by omega, ?_⟩
    rintro (same | later)
    · exact absurd same.symm other
    · have := lt later
      omega

theorem unescape_eq_self_iff : unescape text = some text ↔ percent ∉ text := by
  constructor
  · intro fixed escaped
    have shorter := (@countP_unescape text (fun _ => true) rfl (fun _ _ _ => rfl) _ fixed).2 escaped
    exact Nat.lt_irrefl _ shorter
  · exact unescape_of_plain

end Unescaping

section Escaping
variable {keep : UInt8 → Bool}

theorem hexValue?_hexDigit : ∀ n < 16, hexValue? (hexDigit n) = some n := by
  decide

theorem hexDigit_ne_slash : ∀ n < 16, hexDigit n ≠ slash := by
  decide

theorem nibble_lt (b : UInt8) : b.toNat / 16 < 16 ∧ b.toNat % 16 < 16 := by
  have := b.toNat_lt
  omega

theorem nibbles (b : UInt8) : UInt8.ofNat (16 * (b.toNat / 16) + b.toNat % 16) = b := by
  rw [Nat.div_add_mod, UInt8.ofNat_toNat]

theorem unescape_escapeByte (escapes : keep percent = false) (b : UInt8) (rest : List UInt8) :
    unescape (escapeByte keep b ++ rest) = (unescape rest).map fun text => b :: text := by
  obtain ⟨high, low⟩ := nibble_lt b
  unfold escapeByte
  split
  · rename_i kept
    refine unescape_cons ?_ rest
    rintro rfl
    rw [escapes] at kept
    cases kept
  · simp only [List.cons_append, List.nil_append, unescape, if_true, hexValue?_hexDigit _ high,
      hexValue?_hexDigit _ low, Option.bind_some, nibbles]

theorem unescape_escape_append (escapes : keep percent = false) (text rest : List UInt8) :
    unescape (escape keep text ++ rest) = (unescape rest).map fun more => text ++ more := by
  induction text with
  | nil => simp [escape]
  | cons b text ih =>
    rw [escape, List.flatMap_cons, List.append_assoc, unescape_escapeByte escapes, ← escape, ih,
      Option.map_map]
    rfl

theorem unescape_escape (escapes : keep percent = false) (text : List UInt8) :
    unescape (escape keep text) = some text := by
  have alone := unescape_escape_append escapes text []
  rw [List.append_nil] at alone
  rw [alone, unescape, Option.map_some, List.append_nil]

theorem slash_notMem_escapeByte {b : UInt8} (other : b ≠ slash) : slash ∉ escapeByte keep b := by
  obtain ⟨high, low⟩ := nibble_lt b
  unfold escapeByte
  split
  · simpa using Ne.symm other
  · simp only [List.mem_cons, List.not_mem_nil, or_false, not_or]
    exact ⟨by decide, (hexDigit_ne_slash _ high).symm, (hexDigit_ne_slash _ low).symm⟩

end Escaping

section Segments
variable {keep : UInt8 → Bool} {text : List UInt8}

theorem segments_ne_nil : segments text ≠ [] := List.splitOn_ne_nil _ _

theorem intercalate_segments : [slash].intercalate (segments text) = text :=
  List.intercalate_splitOn _

theorem segments_intercalate {parts : List (List UInt8)} (flat : ∀ part ∈ parts, slash ∉ part)
    (nonempty : parts ≠ []) : segments ([slash].intercalate parts) = parts :=
  List.splitOn_intercalate _ flat nonempty

theorem segments_inj {other : List UInt8} (same : segments text = segments other) :
    text = other := by
  rw [← @intercalate_segments text, same, intercalate_segments]

theorem intercalate_cons {sep : UInt8} (first : List UInt8) (rest : List (List UInt8)) :
    [sep].intercalate (first :: rest) = first ++ rest.flatMap (sep :: ·) := by
  induction rest generalizing first with
  | nil => simp
  | cons next more ih => simp [ih]

theorem segments_cons (b : UInt8) (rest : List UInt8) : segments (b :: rest) =
    if b = slash then [] :: segments rest else (segments rest).modifyHead (b :: ·) := by
  simp [segments, List.splitOn_cons_eq_if_modifyHead]

theorem slash_notMem_segment {part : List UInt8} (member : part ∈ segments text) :
    slash ∉ part :=
  DotSegments.sep_notMem_of_mem_splitOn member

theorem segments_append {front : List UInt8} (flat : slash ∉ front) (rest : List UInt8) :
    segments (front ++ rest) = (segments rest).modifyHead (front ++ ·) := by
  induction front with
  | nil => cases split : segments rest <;> simp [split]
  | cons b front ih =>
    simp only [List.mem_cons, not_or] at flat
    rw [List.cons_append, segments_cons, if_neg (Ne.symm flat.1), ih flat.2]
    cases segments rest <;> rfl

/-- Escaping leaves the segments where they are. -/
theorem segments_escape (kept : keep slash = true) (text : List UInt8) :
    segments (escape keep text) = (segments text).map (escape keep) := by
  induction text with
  | nil => rfl
  | cons b rest ih =>
    have unfolded : escape keep (b :: rest) = escapeByte keep b ++ escape keep rest := by
      simp [escape]
    rw [unfolded, segments_cons]
    split
    · rename_i here
      have alone : escapeByte keep b = [slash] := by simp [escapeByte, here, kept]
      rw [alone, List.singleton_append, segments_cons, if_pos rfl, ih]
      rfl
    · rename_i other
      rw [segments_append (slash_notMem_escapeByte other), ih]
      cases split : segments rest with
      | nil => exact absurd split segments_ne_nil
      | cons first others => simp [escape]

/-- The segments hold the bytes of the text, but for the slashes. -/
theorem mem_segments_iff {b : UInt8} (other : b ≠ slash) :
    (∃ part ∈ segments text, b ∈ part) ↔ b ∈ text := by
  induction text with
  | nil => simp [segments]
  | cons first rest ih =>
    rw [segments_cons, List.mem_cons, ← ih]
    split
    · rename_i here
      simp [here, other]
    · cases split : segments rest with
      | nil => exact absurd split segments_ne_nil
      | cons head others => simp [or_assoc]

/-- The segments as a receiver reads them that undoes the coding of each. -/
def decodedSegments (text : List UInt8) : Option (List (List UInt8)) :=
  (segments text).mapM unescape

theorem mapM_unescape_escape (escapes : keep percent = false) (parts : List (List UInt8)) :
    (parts.map (escape keep)).mapM unescape = some parts := by
  induction parts with
  | nil => rfl
  | cons part rest ih => simp [unescape_escape escapes, ih]

theorem decodedSegments_escape (escapes : keep percent = false) (kept : keep slash = true)
    (text : List UInt8) : decodedSegments (escape keep text) = some (segments text) := by
  rw [decodedSegments, segments_escape kept, mapM_unescape_escape escapes]

theorem mapM_unescape_eq_self_iff (parts : List (List UInt8)) :
    parts.mapM unescape = some parts ↔ ∀ part ∈ parts, percent ∉ part := by
  induction parts with
  | nil => simp
  | cons part rest ih =>
    simp only [List.mapM_cons, List.mem_cons, forall_eq_or_imp]
    rw [← ih, ← unescape_eq_self_iff]
    cases unescape part <;> cases List.mapM unescape rest <;> simp

/-- The segments of a text stand for themselves exactly if there are no escapes in it. -/
theorem decodedSegments_eq_self_iff : decodedSegments text = some (segments text) ↔
    percent ∉ text := by
  have absent : percent ∉ text ↔ ∀ part ∈ segments text, percent ∉ part := by
    rw [← mem_segments_iff (by decide)]
    simp
  rw [decodedSegments, mapM_unescape_eq_self_iff, absent]

end Segments

section QueryCoding
variable {keep : UInt8 → Bool} {text : List UInt8} {values : List (List UInt8 × List UInt8)}

theorem hexDigit_notMem : ∀ n < 16, hexDigit n ∉ [(38 : UInt8), 43, 59, 61] := by
  decide

theorem unreserved_eq_false : ∀ c ∈ [(38 : UInt8), 43, 59, 61], unreserved c = false := by
  decide +kernel

theorem notMem_escapeByte {c b : UInt8} (special : c ∈ [(38 : UInt8), 43, 59, 61])
    (escapes : keep c = false) : c ∉ escapeByte keep b := by
  obtain ⟨high, low⟩ := nibble_lt b
  unfold escapeByte
  split
  · rename_i kept
    rintro member
    obtain rfl := List.mem_singleton.mp member
    rw [escapes] at kept
    cases kept
  · intro member
    simp only [List.mem_cons, List.not_mem_nil, or_false] at member
    rcases member with rfl | rfl | rfl
    · exact absurd special (by decide)
    · exact hexDigit_notMem _ high special
    · exact hexDigit_notMem _ low special

/-- Separators do not occur in an escaped text. -/
theorem notMem_queryEscape {c : UInt8} (separator : c ∈ [(38 : UInt8), 59, 61]) :
    c ∉ queryEscape text := by
  intro member
  obtain ⟨b, -, from_byte⟩ := List.mem_flatMap.mp member
  split at from_byte
  · obtain rfl := List.mem_singleton.mp from_byte
    exact absurd separator (by decide)
  · have special : c ∈ [(38 : UInt8), 43, 59, 61] := by
      simp only [List.mem_cons] at separator ⊢
      tauto
    exact notMem_escapeByte special (unreserved_eq_false c special) from_byte

theorem queryUnescape_queryEscape (text : List UInt8) :
    queryUnescape (queryEscape text) = some text := by
  induction text with
  | nil => rfl
  | cons b rest ih =>
    simp only [queryUnescape, queryEscape, List.flatMap_cons, List.map_append] at ih ⊢
    split
    · rename_i space
      have spaced : (List.map (fun b : UInt8 => if b = 43 then 32 else b) [43]) = [32] := rfl
      rw [spaced, List.singleton_append, unescape_cons (by decide), ih, space]
      rfl
    · have kept : (escapeByte unreserved b).map (fun b => if b = 43 then 32 else b) =
          escapeByte unreserved b := by
        refine (List.map_congr_left fun c member => ?_).trans (List.map_id _)
        have plus : c ≠ 43 := by
          rintro rfl
          exact notMem_escapeByte (by decide) (unreserved_eq_false 43 (by decide)) member
        exact if_neg plus
      rw [kept, unescape_escapeByte (by decide), ih]
      rfl

theorem cut_append {sep : UInt8} {front : List UInt8} (absent : sep ∉ front)
    (back : List UInt8) : cut sep (front ++ sep :: back) = (front, back) := by
  have before : ∀ b ∈ front, decide (b ≠ sep) = true := by
    intro b member
    have other : b ≠ sep := by
      rintro rfl
      exact absent member
    simp [other]
  simp only [cut, List.takeWhile_append_of_pos before, List.dropWhile_append_of_pos before]
  simp

theorem cut_of_notMem {sep : UInt8} (absent : sep ∉ text) : cut sep text = (text, []) := by
  have kept : ∀ b ∈ text, decide (b ≠ sep) = true := by
    intro b member
    have other : b ≠ sep := by
      rintro rfl
      exact absent member
    simp [other]
  have whole : text.takeWhile (· ≠ sep) = text := List.takeWhile_eq_self_iff.mpr kept
  have nothing : text.dropWhile (· ≠ sep) = [] := List.dropWhile_eq_nil_iff.mpr kept
  rw [cut, whole, nothing]
  rfl

theorem exists_cut_of_mem {sep : UInt8} (present : sep ∈ text) :
    ∃ front back, text = front ++ sep :: back ∧ sep ∉ front ∧ cut sep text = (front, back) := by
  obtain ⟨front, back, rfl, absent⟩ := List.eq_append_cons_of_mem present
  exact ⟨front, back, rfl, absent, cut_append absent back⟩

/-- A field that is written is read back. -/
theorem parseField_encoded (name value : List UInt8) :
    parseField (queryEscape name ++ 61 :: queryEscape value) = some (name, value) := by
  have clean : 59 ∉ queryEscape name ++ 61 :: queryEscape value := by
    simp [@notMem_queryEscape name 59, @notMem_queryEscape value 59]
  rw [parseField, if_neg clean, cut_append (notMem_queryEscape (by decide)),
    queryUnescape_queryEscape, queryUnescape_queryEscape]
  rfl

theorem queryFields_intercalate {fields : List (List UInt8)}
    (flat : ∀ field ∈ fields, 38 ∉ field ∧ field ≠ []) :
    queryFields ([38].intercalate fields) = fields := by
  by_cases none_given : fields = []
  · simp [none_given, queryFields]
  · rw [queryFields, List.splitOn_intercalate _ (fun field member => (flat field member).1) none_given]
    simpa using fun field member => (flat field member).2

theorem query_encodeQuery (values : List (List UInt8 × List UInt8)) :
    query (encodeQuery values) = values.insertionSort (fun a b => a.1 ≤ b.1) := by
  rw [query, encodeQuery, queryFields_intercalate, List.filterMap_map]
  · have reads : (parseField ∘ fun field : List UInt8 × List UInt8 =>
        queryEscape field.1 ++ 61 :: queryEscape field.2) = some := by
      funext field
      exact parseField_encoded field.1 field.2
    rw [reads, List.filterMap_some]
  · simp only [List.mem_map, forall_exists_index, and_imp]
    rintro _ field - rfl
    refine ⟨?_, by simp⟩
    simp [@notMem_queryEscape field.1 38, @notMem_queryEscape field.2 38]

theorem mem_query_encodeQuery {field : List UInt8 × List UInt8} :
    field ∈ query (encodeQuery values) ↔ field ∈ values := by
  rw [query_encodeQuery, List.mem_insertionSort]

/-- Cleaning a query loses nothing that can be read. -/
theorem mem_query_cleanQueryParams {field : List UInt8 × List UInt8} :
    field ∈ query (cleanQueryParams text) ↔ field ∈ query text := by
  unfold cleanQueryParams
  split
  · exact mem_query_encodeQuery
  · rfl

theorem query_append (front back : List UInt8) :
    query (front ++ 38 :: back) = query front ++ query back := by
  simp [query, queryFields, List.splitOn_append_cons_self]

end QueryCoding

section QueryValues
variable {name other value : List UInt8} {values others : List (List UInt8 × List UInt8)}

instance le_reflexive : Std.Refl fun a b : List UInt8 => a ≤ b := ⟨List.le_refl⟩

instance le_antisymmetric : Std.Antisymm fun a b : List UInt8 => a ≤ b :=
  ⟨fun _ _ => List.le_antisymm⟩

instance key_transitive : IsTrans (List UInt8 × List UInt8) fun a b => a.1 ≤ b.1 :=
  ⟨fun _ _ _ => List.le_trans⟩

instance key_total : Std.Total fun a b : List UInt8 × List UInt8 => a.1 ≤ b.1 :=
  ⟨fun a b => List.le_total a.1 b.1⟩

theorem queryValues_append : queryValues (values ++ others) name =
    queryValues values name ++ queryValues others name := by
  simp [queryValues]

theorem queryValues_queryDel : queryValues (queryDel values name) other =
    if other = name then [] else queryValues values other := by
  rw [queryValues, queryDel, List.filter_filter]
  split
  · rename_i same
    subst same
    simp
  · rename_i apart
    rw [queryValues]
    congr 1
    apply List.filter_congr
    intro field _
    by_cases here : field.1 = other
    · simp [here, apart]
    · simp [here]

theorem queryValues_querySet : queryValues (querySet values name value) other =
    if other = name then [value] else queryValues values other := by
  have replaced : querySet values name value = queryDel values name ++ [(name, value)] := rfl
  rw [replaced, queryValues_append, queryValues_queryDel]
  by_cases same : other = name
  · simp [same, queryValues]
  · simp [same, queryValues, Ne.symm same]

/-- Sorting keeps the order of the values of a name. -/
theorem queryValues_insertionSort :
    queryValues (values.insertionSort fun a b => a.1 ≤ b.1) name = queryValues values name := by
  rw [queryValues, StableOrder.filter_insertionSort Prod.fst (fun a b : List UInt8 => a ≤ b) name,
    queryValues]

theorem queryGet_eq : queryGet values name = (queryValues values name).headD [] := by
  induction values with
  | nil => rfl
  | cons field rest ih =>
    obtain ⟨key, value⟩ := field
    by_cases here : name = key
    · simp [queryGet, queryValues, here]
    · simpa [queryGet, queryValues, List.lookup_cons, beq_eq_false_iff_ne.mpr here, Ne.symm here]
        using ih

/-- What is written is read back, name by name. -/
theorem queryGet_encodeQuery (values : List (List UInt8 × List UInt8)) (name : List UInt8) :
    queryGet (query (encodeQuery values)) name = queryGet values name := by
  rw [query_encodeQuery, queryGet_eq, queryValues_insertionSort, queryGet_eq]

theorem queryGet_queryDel (values : List (List UInt8 × List UInt8)) (name other : List UInt8) :
    queryGet (queryDel values name) other = if other = name then [] else queryGet values other := by
  rw [queryGet_eq, queryValues_queryDel, queryGet_eq]
  split <;> rfl

theorem queryGet_querySet (values : List (List UInt8 × List UInt8)) (name value other : List UInt8) :
    queryGet (querySet values name value) other =
      if other = name then value else queryGet values other := by
  rw [queryGet_eq, queryValues_querySet, queryGet_eq]
  split <;> rfl

theorem mem_of_mem_intercalate {sep : List UInt8} {parts : List (List UInt8)} {b : UInt8}
    (member : b ∈ sep.intercalate parts) : b ∈ sep ∨ ∃ part ∈ parts, b ∈ part := by
  induction parts with
  | nil => simp at member
  | cons first rest ih =>
    cases rest with
    | nil => exact .inr ⟨first, by simp, by simpa using member⟩
    | cons next more =>
      rw [List.intercalate_cons_cons, List.mem_append, List.mem_append] at member
      rcases member with (here | between) | later
      · exact .inr ⟨first, by simp, here⟩
      · exact .inl between
      · exact (ih later).imp_right fun ⟨part, listed, found⟩ =>
          ⟨part, List.mem_cons_of_mem _ listed, found⟩

theorem unreserved_hexDigit : ∀ n < 16, unreserved (hexDigit n) = true := by
  decide +kernel

/-- The bytes of an encoded query. -/
theorem mem_encodeQuery {b : UInt8} (member : b ∈ encodeQuery values) :
    unreserved b = true ∨ b ∈ [(37 : UInt8), 38, 43, 61] := by
  have escaped : ∀ text, b ∈ queryEscape text →
      unreserved b = true ∨ b ∈ [(37 : UInt8), 38, 43, 61] := by
    intro text written
    obtain ⟨c, -, from_byte⟩ := List.mem_flatMap.mp written
    obtain ⟨high, low⟩ := nibble_lt c
    split at from_byte
    · simp_all
    · unfold escapeByte at from_byte
      split at from_byte
      · simp_all
      · simp only [List.mem_cons, List.not_mem_nil, or_false] at from_byte
        rcases from_byte with rfl | rfl | rfl
        · exact .inr (by decide)
        · exact .inl (unreserved_hexDigit _ high)
        · exact .inl (unreserved_hexDigit _ low)
  rcases mem_of_mem_intercalate member with between | ⟨part, listed, found⟩
  · obtain rfl := List.mem_singleton.mp between
    exact .inr (by decide)
  · obtain ⟨field, -, rfl⟩ := List.mem_map.mp listed
    rcases List.mem_append.mp found with named | valued
    · exact escaped _ named
    · rcases List.mem_cons.mp valued with rfl | valued
      · exact .inr (by decide)
      · exact escaped _ valued

end QueryValues

section Canonical
variable {name : List UInt8} {values others : List (List UInt8 × List UInt8)}

theorem filter_eq_map_queryValues :
    values.filter (·.1 = name) = (queryValues values name).map (name, ·) := by
  rw [queryValues, List.map_map]
  conv_lhs => rw [← List.map_id (values.filter (·.1 = name))]
  apply List.map_congr_left
  rintro ⟨key, value⟩ member
  obtain rfl : key = name := by simpa using (List.mem_filter.mp member).2
  rfl

/-- The canonical encoding keeps the values of every name, in order, and nothing else. -/
theorem encodeQuery_eq_iff : encodeQuery values = encodeQuery others ↔
    ∀ name, queryValues values name = queryValues others name := by
  constructor
  · intro same name
    have sorted : query (encodeQuery values) = query (encodeQuery others) := by rw [same]
    rw [query_encodeQuery, query_encodeQuery] at sorted
    rw [← queryValues_insertionSort, sorted, queryValues_insertionSort]
  · intro same
    have sorted : values.insertionSort (fun a b => a.1 ≤ b.1) =
        others.insertionSort fun a b => a.1 ≤ b.1 := by
      apply @StableOrder.eq_of_filter_eq _ _ _ Prod.fst fun a b : List UInt8 => a ≤ b
      · exact List.pairwise_insertionSort _ _
      · exact List.pairwise_insertionSort _ _
      · intro name
        rw [filter_eq_map_queryValues, filter_eq_map_queryValues, queryValues_insertionSort,
          queryValues_insertionSort, same]
    rw [encodeQuery, sorted, encodeQuery]

end Canonical

end PercentCoding
