import Mathlib.Data.String.Basic
import StacProxy.JsonText

/-!
# Reading what was written

Whatever is read as a JSON value can be written and read again: the reader yields only values
that nest at most so many levels, with members in the order of their names, and those read as
they were written.
-/

namespace JsonText

open JsonValue Utf8Characters

section Sequences
variable {α : Type} {item : Reader α} {close : Char}

theorem skipSpace_cons {c : Char} (solid : isSpace c = false) (rest : List Char) :
    skipSpace (c :: rest) = c :: rest :=
  List.dropWhile_cons_of_neg (by simp [solid])

/-- What a sequence reads: its first item and, after a comma, the others. -/
theorem separated_cases {fuel : Nat} {text rest : List Char} {items : List α}
    (read : separated item close (fuel + 1) text = some (items, rest)) :
    ∃ first after, item text = some (first, after) ∧
      (skipSpace after = close :: rest ∧ items = [first] ∨
        ∃ next others, skipSpace after = ',' :: next ∧
          separated item close fuel next = some (others, rest) ∧ items = first :: others) := by
  simp only [separated, Option.bind_eq_bind, Option.bind_eq_some_iff] at read
  obtain ⟨⟨first, after⟩, head, read⟩ := read
  refine ⟨first, after, head, ?_⟩
  dsimp only at read
  split at read
  · rename_i c next skipped
    split at read
    · rename_i closes
      cases read
      exact .inl ⟨by rw [skipped, closes], rfl⟩
    · split at read
      · rename_i comma
        simp only [Option.bind_eq_some_iff] at read
        obtain ⟨⟨others, last⟩, tail, read⟩ := read
        cases read
        exact .inr ⟨next, others, by rw [skipped, comma], tail, rfl⟩
      · cases read
  · cases read

theorem enclosed_cases {text rest : List Char} {items : List α}
    (read : enclosed item close text = some (items, rest)) :
    skipSpace text = close :: rest ∧ items = [] ∨
      separated item close text.length text = some (items, rest) := by
  unfold enclosed at read
  split at read
  · rename_i c next skipped
    split at read
    · rename_i closes
      cases read
      exact .inl ⟨by rw [skipped, closes], rfl⟩
    · exact .inr read
  · cases read

/-- What each item has that is read, all items of a sequence have. -/
theorem separated_all {holds : α → Prop}
    (each : ∀ text x rest, item text = some (x, rest) → holds x) {fuel : Nat}
    {text rest : List Char} {items : List α}
    (read : separated item close fuel text = some (items, rest)) : ∀ x ∈ items, holds x := by
  induction fuel generalizing text items with
  | zero => cases read
  | succ fuel ih =>
    obtain ⟨first, after, head, ⟨-, rfl⟩ | ⟨next, others, -, tail, rfl⟩⟩ := separated_cases read
    · simpa using each _ _ _ head
    · exact List.forall_mem_cons.mpr ⟨each _ _ _ head, ih tail⟩

theorem enclosed_all {holds : α → Prop}
    (each : ∀ text x rest, item text = some (x, rest) → holds x) {text rest : List Char}
    {items : List α} (read : enclosed item close text = some (items, rest)) :
    ∀ x ∈ items, holds x := by
  obtain ⟨-, rfl⟩ | read := enclosed_cases read
  · simp
  · exact separated_all each read

/-- The character at the front is neither a space nor one that closes a sequence. -/
def Opens (text : List Char) : Prop :=
  ∃ c rest, text = c :: rest ∧ isSpace c = false ∧ c ≠ ']' ∧ c ≠ '\x7d'

/-- Items that were written read as the same items. -/
theorem separated_written {write : α → List Char} {items : List α} (nonempty : items ≠ [])
    (reads : ∀ x ∈ items, ∀ rest, Stops rest → item (write x ++ rest) = some (x, rest))
    (closes : close = ']' ∨ close = '\x7d') {fuel : Nat} (enough : items.length ≤ fuel)
    (rest : List Char) :
    separated item close fuel (List.intercalate [','] (items.map write) ++ close :: rest) =
      some (items, rest) := by
  induction items generalizing fuel with
  | nil => exact absurd rfl nonempty
  | cons first others ih =>
    obtain ⟨fuel, rfl⟩ : ∃ k, fuel = k + 1 := ⟨fuel - 1, by simp at enough; omega⟩
    have head := reads first List.mem_cons_self
    have closeStops : Stops (close :: rest) := by rcases closes with rfl | rfl <;> simp [Stops, isNumberChar]
    have closeSolid : isSpace close = false := by rcases closes with rfl | rfl <;> rfl
    have comma : ',' ≠ close := by rcases closes with rfl | rfl <;> decide
    cases others with
    | nil =>
      have first_read := head (close :: rest) closeStops
      simp only [List.map_cons, List.map_nil, List.intercalate_singleton, separated, first_read,
        Option.bind_eq_bind, Option.bind_some, skipSpace_cons closeSolid, if_true]
    | cons second others =>
      have tail := ih (by simp) (fun x member => reads x (List.mem_cons_of_mem _ member))
        (Nat.le_of_succ_le_succ enough)
      have first_read := head (',' :: (List.intercalate [','] ((second :: others).map write) ++
        close :: rest)) (by simp [Stops, isNumberChar])
      have split : List.intercalate [','] ((first :: second :: others).map write) ++ close :: rest =
          write first ++ ',' :: (List.intercalate [','] ((second :: others).map write) ++
            close :: rest) := by
        simp [List.intercalate_cons_cons]
      rw [split, separated, first_read]
      simp only [Option.bind_eq_bind, Option.bind_some,
        skipSpace_cons (by decide : isSpace ',' = false), if_neg comma, if_true, tail]

theorem length_intercalate (texts : List (List Char)) :
    texts.length ≤ (List.intercalate [','] texts).length + 1 := by
  induction texts with
  | nil => simp
  | cons first others ih =>
    cases others with
    | nil => simp
    | cons second others =>
      rw [List.intercalate_cons_cons]
      simp only [List.length_cons, List.length_append, List.length_nil] at ih ⊢
      omega

theorem enclosed_written {write : α → List Char} {items : List α}
    (opens : ∀ x ∈ items, Opens (write x))
    (reads : ∀ x ∈ items, ∀ rest, Stops rest → item (write x ++ rest) = some (x, rest))
    (closes : close = ']' ∨ close = '\x7d') (rest : List Char) :
    enclosed item close (List.intercalate [','] (items.map write) ++ close :: rest) =
      some (items, rest) := by
  have closeSolid : isSpace close = false := by rcases closes with rfl | rfl <;> rfl
  cases items with
  | nil =>
    simp only [enclosed, List.map_nil, List.intercalate_nil, List.nil_append,
      skipSpace_cons closeSolid, if_true]
  | cons first others =>
    have enough : (first :: others).length ≤
        (List.intercalate [','] ((first :: others).map write) ++ close :: rest).length := by
      have bound := length_intercalate ((first :: others).map write)
      simp only [List.length_map, List.length_append, List.length_cons] at bound ⊢
      omega
    have read := separated_written (List.cons_ne_nil first others) reads closes enough rest
    obtain ⟨c, front, written, solid, bracket, brace⟩ := opens first List.mem_cons_self
    obtain ⟨after, text_eq⟩ : ∃ after, List.intercalate [','] ((first :: others).map write) ++
        close :: rest = c :: after := by
      cases others with
      | nil => exact ⟨_, by rw [List.map_singleton, List.intercalate_singleton, written]; rfl⟩
      | cons second others =>
        exact ⟨_, by rw [List.map_cons, List.map_cons, List.intercalate_cons_cons, written]; rfl⟩
    have other : c ≠ close := by rcases closes with rfl | rfl <;> assumption
    rw [text_eq] at read ⊢
    simp only [enclosed, skipSpace_cons solid, if_neg other, read]

end Sequences

section ValueRoundTrip
variable (numbers : Numbers)

/-- The values that nest at most so many levels, with members in the order of their names and
numbers that can be read. -/
def Fits : Nat → Json → Prop
  | _, .num q => ∃ lexeme, isNumber lexeme ∧ numbers.parse lexeme = some q
  | 0, .arr _ => False
  | 0, .obj _ => False
  | depth + 1, .arr elems => ∀ value ∈ elems, Fits depth value
  | depth + 1, .obj members =>
    (members.map Prod.fst).Pairwise (· < ·) ∧ ∀ member ∈ members, Fits depth member.2
  | _, _ => True

theorem mem_insertMember {key : String} {value : Json} {members : Members} {member : String × Json}
    (found : member ∈ insertMember key value members) :
    member = (key, value) ∨ member ∈ members := by
  induction members with
  | nil => simpa [insertMember] using found
  | cons head members ih =>
    simp only [insertMember] at found
    split at found
    · simpa using found
    · rcases List.mem_cons.mp found with rfl | later
      · exact .inr List.mem_cons_self
      · exact (ih later).imp_right (List.mem_cons_of_mem _)

theorem mem_canonical {members : Members} {member : String × Json}
    (found : member ∈ canonical members) : member ∈ members := by
  induction members with
  | nil => cases found
  | cons head members ih =>
    simp only [canonical] at found
    split at found
    · exact List.mem_cons_of_mem _ (ih found)
    · rcases mem_insertMember found with rfl | later
      · exact List.mem_cons_self
      · exact List.mem_cons_of_mem _ (ih later)

theorem has_iff {members : Members} {key : String} :
    Members.has members key = true ↔ key ∈ members.map Prod.fst := by
  induction members with
  | nil => simp [Members.has]
  | cons head members ih =>
    obtain ⟨k, v⟩ := head
    simp only [Members.has] at ih
    by_cases same : key = k <;> simp [Members.has, get?_cons, same, ih]

theorem sorted_insertMember {key : String} (value : Json) {members : Members}
    (sorted : (members.map Prod.fst).Pairwise (· < ·)) (fresh : key ∉ members.map Prod.fst) :
    ((insertMember key value members).map Prod.fst).Pairwise (· < ·) := by
  induction members with
  | nil => simp [insertMember]
  | cons head members ih =>
    obtain ⟨k, v⟩ := head
    simp only [List.map_cons, List.pairwise_cons, List.mem_cons, not_or] at sorted fresh
    simp only [insertMember]
    split
    · rename_i below
      simp only [List.map_cons, List.pairwise_cons]
      refine ⟨List.forall_mem_cons.mpr ⟨below, fun other member => ?_⟩, sorted⟩
      exact lt_trans below (sorted.1 other member)
    · rename_i above
      have before : k < key := lt_of_le_of_ne (not_lt.mp above) (Ne.symm fresh.1)
      simp only [List.map_cons, List.pairwise_cons]
      refine ⟨fun other found => ?_, ih sorted.2 fresh.2⟩
      obtain ⟨member, at_member, rfl⟩ := List.mem_map.mp found
      rcases mem_insertMember at_member with rfl | later
      · exact before
      · exact sorted.1 _ (List.mem_map_of_mem later)

theorem sorted_canonical (members : Members) :
    ((canonical members).map Prod.fst).Pairwise (· < ·) := by
  induction members with
  | nil => simp [canonical]
  | cons head members ih =>
    simp only [canonical]
    split
    · exact ih
    · rename_i absent
      refine sorted_insertMember _ ih fun found => absent (has_iff.mpr ?_)
      obtain ⟨member, at_member, same⟩ := List.mem_map.mp found
      exact same ▸ List.mem_map_of_mem (mem_canonical at_member)

theorem canonical_of_sorted {members : Members}
    (sorted : (members.map Prod.fst).Pairwise (· < ·)) : canonical members = members := by
  induction members with
  | nil => rfl
  | cons head members ih =>
    obtain ⟨key, value⟩ := head
    simp only [List.map_cons, List.pairwise_cons] at sorted
    have absent : ¬ Members.has members key = true := by
      intro found
      exact lt_irrefl key (sorted.1 key (has_iff.mp found))
    rw [canonical, if_neg absent, ih sorted.2]
    cases members with
    | nil => rfl
    | cons next members => exact if_pos (sorted.1 next.1 (by simp))

theorem encodeElems_eq (elems : List Json) :
    encodeElems numbers elems = List.intercalate [','] (elems.map (encode numbers)) := by
  induction elems with
  | nil => simp [encodeElems]
  | cons first elems ih =>
    cases elems with
    | nil => simp [encodeElems]
    | cons second elems => rw [encodeElems, ih]; simp [List.intercalate_cons_cons]

theorem encodeMembers_eq (members : Members) :
    encodeMembers numbers members = List.intercalate [','] (members.map (encodeMember numbers)) := by
  induction members with
  | nil => simp [encodeMembers]
  | cons first members ih =>
    cases members with
    | nil => simp [encodeMembers]
    | cons second members => rw [encodeMembers, ih]; simp [List.intercalate_cons_cons]

variable {numbers}

theorem readScalar_fits {text rest : List Char} {value : Json}
    (read : readScalar numbers text = some (value, rest)) (depth : Nat) :
    Fits numbers depth value := by
  unfold readScalar at read
  split at read
  · simp only [Option.map_eq_some_iff] at read
    obtain ⟨⟨s, after⟩, -, read⟩ := read
    cases read
    cases depth <;> trivial
  · cases read
    cases depth <;> trivial
  · cases read
    cases depth <;> trivial
  · cases read
    cases depth <;> trivial
  · simp only [readNumber] at read
    split at read
    · rename_i number
      simp only [Option.map_eq_some_iff] at read
      obtain ⟨q, parsed, read⟩ := read
      cases read
      cases depth <;> exact ⟨_, number, parsed⟩
    · cases read

theorem readMember_cases {value : Reader Json} {text rest : List Char} {member : String × Json}
    (read : readMember value text = some (member, rest)) :
    ∃ body after inner, skipSpace text = '"' :: body ∧ readString body = some (member.1, after) ∧
      skipSpace after = ':' :: inner ∧ value inner = some (member.2, rest) := by
  unfold readMember at read
  split at read
  · rename_i body opened
    simp only [Option.bind_eq_bind, Option.bind_eq_some_iff] at read
    obtain ⟨⟨key, after⟩, name, read⟩ := read
    dsimp only at read
    split at read
    · rename_i inner colon
      simp only [Option.bind_eq_some_iff] at read
      obtain ⟨⟨v, last⟩, inside, read⟩ := read
      cases read
      exact ⟨body, after, inner, opened, name, colon, inside⟩
    · cases read
  · cases read

/-- Whatever is read fits. -/
theorem readValue_fits {depth : Nat} {text rest : List Char} {value : Json}
    (read : readValue numbers depth text = some (value, rest)) : Fits numbers depth value := by
  induction depth generalizing text rest value with
  | zero => exact readScalar_fits read 0
  | succ depth ih =>
    unfold readValue at read
    split at read
    · simp only [Option.map_eq_some_iff] at read
      obtain ⟨⟨elems, after⟩, inside, read⟩ := read
      cases read
      exact enclosed_all (fun _ _ _ => ih) inside
    · simp only [Option.map_eq_some_iff] at read
      obtain ⟨⟨members, after⟩, inside, read⟩ := read
      cases read
      have each : ∀ member ∈ members, Fits numbers depth member.2 := by
        refine enclosed_all (fun text member rest found => ?_) inside
        obtain ⟨_, _, _, -, -, -, value_read⟩ := readMember_cases found
        exact ih value_read
      exact ⟨sorted_canonical members, fun member found => each member (mem_canonical found)⟩
    · exact readScalar_fits read (depth + 1)

theorem decode_fits {text : List Char} {value : Json} (read : decode numbers text = some value) :
    Fits numbers maxNestingDepth value := by
  unfold decode at read
  split at read
  · rename_i found
    split at read
    · cases read
      exact readValue_fits found
    · cases read
  · cases read

/-- A character that starts a scalar. -/
def StartsScalar (c : Char) : Prop :=
  isSpace c = false ∧ c ≠ '[' ∧ c ≠ '\x7b' ∧ c ≠ ']' ∧ c ≠ '\x7d'

instance (c : Char) : Decidable (StartsScalar c) := inferInstanceAs (Decidable (_ ∧ _))

theorem readValue_scalar {c : Char} (starts : StartsScalar c) (depth : Nat) (rest : List Char) :
    readValue numbers depth (c :: rest) = readScalar numbers (c :: rest) := by
  obtain ⟨solid, bracket, brace, -, -⟩ := starts
  cases depth with
  | zero => rw [readValue, skipSpace_cons solid]
  | succ depth =>
    rw [readValue, skipSpace_cons solid]
    split
    · rename_i same
      exact absurd (List.cons.inj same).1 bracket
    · rename_i same
      exact absurd (List.cons.inj same).1 brace
    · rfl

theorem isDigit_ne {c d : Char} (digit : c.isDigit) (other : d.isDigit = false) : c ≠ d := by
  rintro rfl
  rw [digit] at other
  cases other

theorem readScalar_number {c : Char} (starts : c = '-' ∨ c.isDigit) (rest : List Char) :
    readScalar numbers (c :: rest) = readNumber numbers (c :: rest) := by
  have other : ∀ d, d ≠ '-' → d.isDigit = false → c ≠ d := by
    intro d minus digit
    rcases starts with rfl | digits
    · exact minus.symm
    · exact isDigit_ne digits digit
  unfold readScalar
  split
  · rename_i same
    exact absurd (List.cons.inj same).1 (other _ (by decide) (by decide))
  · rename_i same
    exact absurd (List.cons.inj same).1 (other _ (by decide) (by decide))
  · rename_i same
    exact absurd (List.cons.inj same).1 (other _ (by decide) (by decide))
  · rename_i same
    exact absurd (List.cons.inj same).1 (other _ (by decide) (by decide))
  · rfl

theorem startsScalar_number {c : Char} (starts : c = '-' ∨ c.isDigit) : StartsScalar c := by
  rcases starts with rfl | digit
  · decide
  · have solid : isSpace c = false := by
      simp only [isSpace, Bool.or_eq_false_iff, beq_eq_false_iff_ne]
      refine ⟨⟨⟨?_, ?_⟩, ?_⟩, ?_⟩ <;> exact isDigit_ne digit (by decide)
    refine ⟨solid, ?_, ?_, ?_, ?_⟩ <;> exact isDigit_ne digit (by decide)

/-- A scalar that was written reads as the same scalar. -/
theorem scalar_written {value : Json} (fits : Fits numbers 0 value) :
    (∃ c rest, encode numbers value = c :: rest ∧ StartsScalar c) ∧
    ∀ rest, Stops rest → readScalar numbers (encode numbers value ++ rest) = some (value, rest) := by
  match value with
  | .null => exact ⟨⟨_, _, rfl, by decide⟩, fun _ _ => rfl⟩
  | .bool true => exact ⟨⟨_, _, rfl, by decide⟩, fun _ _ => rfl⟩
  | .bool false => exact ⟨⟨_, _, rfl, by decide⟩, fun _ _ => rfl⟩
  | .str s =>
    refine ⟨⟨_, _, rfl, by decide⟩, fun rest _ => ?_⟩
    have reads := readString_quote s rest
    simp only [encode, quote, List.cons_append, List.append_assoc, List.nil_append, readScalar, reads,
      Option.map_some]
  | .num q =>
    obtain ⟨lexeme, number, parsed⟩ := fits
    obtain ⟨written, same⟩ := numbers.readable lexeme q number parsed
    obtain ⟨c, rest, text_eq, starts⟩ := head_of_isNumber written
    refine ⟨⟨c, rest, text_eq, startsScalar_number starts⟩, fun after stops => ?_⟩
    have read := readNumber_append numbers written same stops
    rw [text_eq, List.cons_append] at read
    rw [encode, text_eq, List.cons_append, readScalar_number starts, read]
  | .arr _ => exact fits.elim
  | .obj _ => exact fits.elim

theorem encode_opens {depth : Nat} {value : Json} (fits : Fits numbers depth value) :
    Opens (encode numbers value) := by
  have scalar : Fits numbers 0 value → Opens (encode numbers value) := by
    intro small
    obtain ⟨c, rest, text_eq, solid, -, -, bracket, brace⟩ := (scalar_written small).1
    exact ⟨c, rest, text_eq, solid, bracket, brace⟩
  match depth, value with
  | 0, _ => exact scalar fits
  | _ + 1, .arr elems => exact ⟨'[', _, by rw [encode], by decide⟩
  | _ + 1, .obj members => exact ⟨'\x7b', _, by rw [encode], by decide⟩
  | _ + 1, .num _ => exact scalar fits
  | _ + 1, .null => exact scalar trivial
  | _ + 1, .bool _ => exact scalar trivial
  | _ + 1, .str _ => exact scalar trivial

theorem readMember_written {value : Reader Json} {member : String × Json}
    (reads : ∀ rest, Stops rest → value (encode numbers member.2 ++ rest) = some (member.2, rest))
    {rest : List Char} (stops : Stops rest) :
    readMember value (encodeMember numbers member ++ rest) = some (member, rest) := by
  obtain ⟨key, v⟩ := member
  have name := readString_quote key (':' :: (encode numbers v ++ rest))
  simp only [readMember, encodeMember, quote, List.cons_append, List.append_assoc, List.nil_append,
    skipSpace_cons (by decide : isSpace '"' = false), name, Option.bind_eq_bind, Option.bind_some,
    skipSpace_cons (by decide : isSpace ':' = false), reads rest stops]

theorem readValue_encode_scalar {value : Json} (fits : Fits numbers 0 value) (depth : Nat)
    {rest : List Char} (stops : Stops rest) :
    readValue numbers depth (encode numbers value ++ rest) = some (value, rest) := by
  obtain ⟨⟨c, front, text_eq, starts⟩, reads⟩ := scalar_written fits
  have read := reads rest stops
  rw [text_eq, List.cons_append] at read ⊢
  rw [readValue_scalar starts, read]

/-- A value that was written reads as the same value. -/
theorem readValue_encode {depth : Nat} {value : Json} (fits : Fits numbers depth value)
    {rest : List Char} (stops : Stops rest) :
    readValue numbers depth (encode numbers value ++ rest) = some (value, rest) := by
  induction depth generalizing value rest with
  | zero => exact readValue_encode_scalar fits 0 stops
  | succ depth ih =>
    match value with
    | .arr elems =>
      have inside : enclosed (readValue numbers depth) ']'
          (List.intercalate [','] (elems.map (encode numbers)) ++ ']' :: rest) =
            some (elems, rest) :=
        enclosed_written (fun v member => encode_opens (fits v member))
          (fun v member after stops => ih (fits v member) stops) (.inl rfl) rest
      rw [encode, encodeElems_eq]
      simp only [readValue, List.cons_append, List.append_assoc, List.nil_append,
        skipSpace_cons (by decide : isSpace '[' = false), inside, Option.map_some]
    | .obj members =>
      obtain ⟨sorted, each⟩ := fits
      have inside : enclosed (readMember (readValue numbers depth)) '\x7d'
          (List.intercalate [','] (members.map (encodeMember numbers)) ++ '\x7d' :: rest) =
            some (members, rest) :=
        enclosed_written (fun member _ => ⟨'"', _, by rw [encodeMember, quote]; rfl, by decide⟩)
          (fun member found after stops => readMember_written
            (fun rest stops => ih (each member found) stops) stops) (.inr rfl) rest
      rw [encode, encodeMembers_eq]
      simp only [readValue, List.cons_append, List.append_assoc, List.nil_append,
        skipSpace_cons (by decide : isSpace '\x7b' = false), inside, Option.map_some,
        canonical_of_sorted sorted]
    | .num _ => exact readValue_encode_scalar fits _ stops
    | .null => exact readValue_encode_scalar (by trivial) _ stops
    | .bool _ => exact readValue_encode_scalar (by trivial) _ stops
    | .str _ => exact readValue_encode_scalar (by trivial) _ stops

/-- Marshalled values unmarshal to themselves. -/
theorem unmarshal_marshal {value : Json} (fits : Fits numbers maxNestingDepth value) :
    unmarshal numbers (marshal numbers value) = some value := by
  have read : readValue numbers maxNestingDepth (encode numbers value ++ []) = some (value, []) :=
    readValue_encode fits (by simp [Stops])
  rw [List.append_nil] at read
  rw [unmarshal, marshal, characters_utf8, decode, read]
  rfl

end ValueRoundTrip

end JsonText
