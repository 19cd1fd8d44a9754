import Mathlib.Data.List.Infix

/-!
# Characters of bytes

Reading bytes as characters, where a byte that is not part of a well-formed character reads as
the replacement character. An ASCII character is never part of another one, so texts of such
characters are found in the bytes exactly if they are found among the characters.
-/

namespace Utf8Characters

section Decoding

/-- The character at the front, if it is well-formed. -/
def firstChar? (bytes : List UInt8) : Option Char := bytes.toByteArray.utf8DecodeChar? 0

/-- The first `n` bytes belong to a character already read. -/
def charactersFrom : Nat → List UInt8 → List Char
  | _, [] => []
  | n + 1, _ :: rest => charactersFrom n rest
  | 0, b :: rest => match firstChar? (b :: rest) with
    | some c => c :: charactersFrom (c.utf8Size - 1) rest
    | none => '\uFFFD' :: charactersFrom 0 rest

def characters (bytes : List UInt8) : List Char := charactersFrom 0 bytes

def utf8 (text : List Char) : List UInt8 := text.flatMap String.utf8EncodeChar

theorem firstChar?_eq_some_iff {bytes : List UInt8} {c : Char} :
    firstChar? bytes = some c ↔ String.utf8EncodeChar c <+: bytes := by
  constructor
  · intro found
    obtain ⟨rest, split⟩ := ByteArray.exists_of_utf8DecodeChar?_eq_some found
    refine ⟨rest.data.toList, List.toByteArray_inj.mp ?_⟩
    rw [List.toByteArray_append, split]
    congr 1
    ext1
    simp
  · rintro ⟨rest, rfl⟩
    rw [firstChar?, List.toByteArray_append]
    exact ByteArray.utf8DecodeChar?_utf8EncodeChar_append

theorem charactersFrom_eq (n : Nat) (bytes : List UInt8) :
    charactersFrom n bytes = characters (bytes.drop n) := by
  induction bytes generalizing n with
  | nil => simp [characters, charactersFrom]
  | cons b rest ih =>
    cases n with
    | zero => rfl
    | succ n => exact ih n

/-- A well-formed character is read and passed. -/
theorem characters_append_char (c : Char) (rest : List UInt8) :
    characters (String.utf8EncodeChar c ++ rest) = c :: characters rest := by
  have found := firstChar?_eq_some_iff.mpr (List.prefix_append (String.utf8EncodeChar c) rest)
  have length := String.length_utf8EncodeChar c
  have positive := c.utf8Size_pos
  cases e : String.utf8EncodeChar c with
  | nil =>
    rw [e, List.length_nil] at length
    omega
  | cons b front =>
    rw [e, List.length_cons] at length
    rw [e, List.cons_append] at found
    have size : c.utf8Size - 1 = front.length := by omega
    rw [List.cons_append, characters, charactersFrom, found]
    exact congrArg (c :: ·) (by rw [size, charactersFrom_eq, List.drop_left])

theorem characters_lost {b : UInt8} {rest : List UInt8} (lost : firstChar? (b :: rest) = none) :
    characters (b :: rest) = '\uFFFD' :: characters rest := by
  rw [characters, charactersFrom, lost]
  rfl

theorem characters_utf8 (text : List Char) : characters (utf8 text) = text := by
  induction text with
  | nil => rfl
  | cons c text ih =>
    rw [utf8, List.flatMap_cons, characters_append_char]
    exact congrArg (c :: ·) ih

/-- What can stand at the front of some bytes. -/
theorem characters_cases (b : UInt8) (rest : List UInt8) :
    (∃ c after, b :: rest = String.utf8EncodeChar c ++ after ∧
      characters (b :: rest) = c :: characters after) ∨
    firstChar? (b :: rest) = none ∧ characters (b :: rest) = '\uFFFD' :: characters rest := by
  cases found : firstChar? (b :: rest) with
  | none => exact .inr ⟨rfl, characters_lost found⟩
  | some c =>
    obtain ⟨after, split⟩ := firstChar?_eq_some_iff.mp found
    exact .inl ⟨c, after, split.symm, by rw [← split, characters_append_char]⟩

end Decoding

section Ascii

def asciiBytes (text : List Char) : List UInt8 := text.map fun c => UInt8.ofNat c.toNat

theorem utf8EncodeChar_ascii {c : Char} (ascii : c.toNat < 128) :
    String.utf8EncodeChar c = [UInt8.ofNat c.toNat] := by
  have size : c.utf8Size = 1 := by
    rw [Char.utf8Size_eq_one_iff, UInt32.le_iff_toNat_le]
    have bound : c.val.toNat < 128 := ascii
    exact Nat.le_of_lt_succ bound
  rw [String.utf8EncodeChar_eq_singleton size]
  rfl

/-- Only the first byte of a character can be an ASCII byte. -/
theorem notAscii_tail {c : Char} {b : UInt8} {front : List UInt8}
    (encoded : String.utf8EncodeChar c = b :: front) : ∀ a ∈ front, ¬ a < 0x80 := by
  intro a member ascii
  have starts : a.IsUTF8FirstByte :=
    (by decide +kernel : ∀ n : Fin 256, UInt8.ofFin n < 0x80 → (UInt8.ofFin n).IsUTF8FirstByte)
      a.toFin ascii
  obtain ⟨i, small, rfl⟩ := List.getElem_of_mem member
  have inside : i + 1 < (String.utf8EncodeChar c).length := by
    rw [encoded, List.length_cons]
    omega
  have same : (String.utf8EncodeChar c)[i + 1] = front[i] := by simp [encoded]
  rw [← same, UInt8.isUTF8FirstByte_getElem_utf8EncodeChar] at starts
  omega

/-- A character does not reach across an ASCII byte. -/
theorem prefix_of_prefix_append {c : Char} {b sep : UInt8} {front back : List UInt8}
    (ascii : sep < 0x80) (found : String.utf8EncodeChar c <+: b :: front ++ sep :: back) :
    String.utf8EncodeChar c <+: b :: front := by
  cases encoded : String.utf8EncodeChar c with
  | nil => exact List.nil_prefix
  | cons first tail =>
    rw [encoded, List.cons_append, List.cons_prefix_cons] at found
    obtain ⟨rfl, found⟩ := found
    have absent := notAscii_tail encoded
    have crossed : front ++ [sep] <+: front ++ sep :: back := ⟨back, by simp⟩
    refine List.cons_prefix_cons.mpr ⟨rfl, ?_⟩
    rcases List.prefix_or_prefix_of_prefix found crossed with inside | beyond
    · rcases List.prefix_concat_iff.mp inside with rfl | inside
      · exact absurd ascii (absent sep (by simp))
      · exact inside
    · exact absurd ascii (absent sep (beyond.subset (by simp)))

theorem ofNat_lt {c : Char} (ascii : c.toNat < 128) : UInt8.ofNat c.toNat < 0x80 := by
  rw [UInt8.lt_iff_toNat_lt, UInt8.toNat_ofNat']
  exact lt_of_le_of_lt (Nat.mod_le _ _) ascii

/-- Bytes are read piece by piece around an ASCII character. -/
theorem characters_append {sep : Char} (ascii : sep.toNat < 128) (front back : List UInt8) :
    characters (front ++ UInt8.ofNat sep.toNat :: back) =
      characters front ++ sep :: characters back := by
  induction size : front.length using Nat.strong_induction_on generalizing front with
  | _ size ih =>
    subst size
    match front with
    | [] =>
      have read := characters_append_char sep back
      rw [utf8EncodeChar_ascii ascii] at read
      exact read
    | b :: front =>
      rcases characters_cases b front with ⟨c, after, split, read⟩ | ⟨lost, read⟩
      · have shorter : after.length < (b :: front).length := by
          have positive := c.utf8Size_pos
          rw [split, List.length_append, String.length_utf8EncodeChar]
          omega
        rw [read, split, List.append_assoc, characters_append_char, ih _ shorter after rfl]
        rfl
      · have still : firstChar? (b :: (front ++ UInt8.ofNat sep.toNat :: back)) = none := by
          by_contra found
          obtain ⟨c, found⟩ := Option.ne_none_iff_exists'.mp found
          have inside := prefix_of_prefix_append (ofNat_lt ascii) (firstChar?_eq_some_iff.mp found)
          rw [firstChar?_eq_some_iff.mpr inside] at lost
          cases lost
        rw [read, List.cons_append, characters_lost still, ih _ (by simp) front rfl]
        rfl

theorem characters_asciiBytes {part : List Char} (ascii : ∀ c ∈ part, c.toNat < 128)
    (back : List UInt8) : characters (asciiBytes part ++ back) = part ++ characters back := by
  induction part with
  | nil => rfl
  | cons c part ih =>
    have first := characters_append (ascii c List.mem_cons_self) [] (asciiBytes part ++ back)
    rw [ih fun d member => ascii d (List.mem_cons_of_mem _ member)] at first
    exact first

/-- What is left of the bytes after the first character. -/
theorem exists_tail {bytes : List UInt8} {c : Char} {text : List Char}
    (read : characters bytes = c :: text) :
    ∃ front tail, bytes = front ++ tail ∧ characters tail = text ∧
      (c.toNat < 128 → front = [UInt8.ofNat c.toNat]) := by
  match bytes with
  | [] => cases read
  | b :: rest =>
    rcases characters_cases b rest with ⟨d, after, split, first⟩ | ⟨-, first⟩
    · rw [first] at read
      cases read
      exact ⟨_, after, split, rfl, utf8EncodeChar_ascii⟩
    · rw [first] at read
      cases read
      exact ⟨[b], rest, rfl, rfl, fun ascii => absurd ascii (by decide)⟩

theorem exists_tail_append {bytes : List UInt8} {front text : List Char}
    (read : characters bytes = front ++ text) :
    ∃ lead tail, bytes = lead ++ tail ∧ characters tail = text ∧
      ((∀ c ∈ front, c.toNat < 128) → lead = asciiBytes front) := by
  induction front generalizing bytes with
  | nil => exact ⟨[], bytes, rfl, read, fun _ => rfl⟩
  | cons c front ih =>
    obtain ⟨first, rest, rfl, tail_read, single⟩ := exists_tail read
    obtain ⟨lead, tail, rfl, text_read, all⟩ := ih tail_read
    refine ⟨first ++ lead, tail, by simp, text_read, fun ascii => ?_⟩
    rw [single (ascii c List.mem_cons_self),
      all fun d member => ascii d (List.mem_cons_of_mem _ member)]
    rfl

/-- A text of ASCII characters is found in the bytes exactly if it is found among their
characters. -/
theorem infix_characters_iff {part : List Char} (ascii : ∀ c ∈ part, c.toNat < 128)
    {bytes : List UInt8} : part <:+: characters bytes ↔ asciiBytes part <:+: bytes := by
  constructor
  · rintro ⟨front, back, split⟩
    rw [List.append_assoc] at split
    obtain ⟨lead, tail, rfl, read, -⟩ := exists_tail_append split.symm
    obtain ⟨middle, last, rfl, -, spelled⟩ := exists_tail_append read
    exact ⟨lead, last, by rw [spelled ascii, List.append_assoc]⟩
  · rintro ⟨front, back, rfl⟩
    cases part with
    | nil => exact List.nil_infix
    | cons c part =>
      have read := characters_append (ascii c List.mem_cons_self) front (asciiBytes part ++ back)
      rw [characters_asciiBytes fun d member => ascii d (List.mem_cons_of_mem _ member)] at read
      exact ⟨characters front, characters back, by simpa [asciiBytes] using read.symm⟩

end Ascii

end Utf8Characters
