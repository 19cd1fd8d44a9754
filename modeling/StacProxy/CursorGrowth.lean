import Mathlib.Data.Nat.Digits.Defs
import StacProxy.SearchSession

/-!
# The length of minted cursors

Each cursor carries the token of the page before, so token lengths satisfy a recurrence
through `Encode`. Both directions are needed: a bound on the length of the token of page
`n` in terms of the tokens before it, and the growth that no bound on the per-origin
states can prevent.
-/

namespace CursorGrowth

open StacItem FederatedCursor CursorWire PageMerge PaginatedSearch SearchSession

section Bytes

/-- The UTF-8 length of a text. Irreducible, so that arithmetic takes it as it stands. -/
@[irreducible] def byteLength (text : List Char) : Nat :=
  (text.flatMap String.utf8EncodeChar).length

@[simp] theorem byteLength_nil : byteLength [] = 0 := by
  simp [byteLength]

@[simp] theorem byteLength_append (a b : List Char) :
    byteLength (a ++ b) = byteLength a + byteLength b := by
  simp [byteLength]

@[simp] theorem byteLength_cons (c : Char) (text : List Char) :
    byteLength (c :: text) = c.utf8Size + byteLength text := by
  simp [byteLength]

theorem byteLength_memberText (name : String) (value : List Char) :
    byteLength (memberText name value) = 4 + byteLength name.toList + byteLength value := by
  have fixed : byteLength ",\"".toList = 2 ∧ byteLength "\":".toList = 2 := by
    rw [byteLength, byteLength]
    decide
  simp only [memberText, byteLength_append]
  omega

theorem length_le_byteLength (text : List Char) : text.length ≤ byteLength text := by
  induction text with
  | nil => simp
  | cons c text ih =>
    have := c.utf8Size_pos
    rw [List.length_cons, byteLength_cons]
    omega

theorem byteLength_le (text : List Char) : byteLength text ≤ 4 * text.length := by
  induction text with
  | nil => simp
  | cons c text ih =>
    have := c.utf8Size_le_four
    rw [List.length_cons, byteLength_cons]
    omega

theorem length_escapeChar (c : Char) : 1 ≤ (escapeChar c).length ∧ (escapeChar c).length ≤ 6 := by
  unfold escapeChar
  repeat' split
  all_goals simp [unicodeEscape]

theorem length_flatMap_escapeChar (text : List Char) :
    text.length ≤ (text.flatMap escapeChar).length ∧
      (text.flatMap escapeChar).length ≤ 6 * text.length := by
  induction text with
  | nil => simp
  | cons c text ih =>
    have := length_escapeChar c
    simp only [List.flatMap_cons, List.length_append, List.length_cons]
    omega

theorem length_quote (s : String) :
    s.length + 2 ≤ (quote s).length ∧ (quote s).length ≤ 6 * s.length + 2 := by
  have escaped := length_flatMap_escapeChar s.toList
  simp only [quote, List.cons_append, List.length_cons, List.length_append, List.length_nil,
    String.length_toList] at escaped ⊢
  omega

theorem plain_toNat {c : Char} (plain : Base64Url.plain c ∨ c = '.') :
    45 ≤ c.toNat ∧ c.toNat < 123 ∧ c.toNat ≠ 60 ∧ c.toNat ≠ 62 ∧ c.toNat ≠ 92 := by
  rcases plain with plain | rfl
  · change (decide (c.val ≥ 'A'.val ∧ c.val ≤ 'Z'.val) || (c.val ≥ 'a'.val && c.val ≤ 'z'.val) ||
      (c.val ≥ '0'.val && c.val ≤ '9'.val) || c == '-' || c == '_') = true at plain
    simp only [Bool.or_eq_true, Bool.and_eq_true, decide_eq_true_eq, beq_iff_eq,
      UInt32.le_iff_toNat_le, ge_iff_le] at plain
    rcases plain with (((upper | lower) | digit) | rfl) | rfl
    · change 65 ≤ c.toNat ∧ c.toNat ≤ 90 at upper
      omega
    · change 97 ≤ c.toNat ∧ c.toNat ≤ 122 at lower
      omega
    · change 48 ≤ c.toNat ∧ c.toNat ≤ 57 at digit
      omega
    · decide
    · decide
  · decide

theorem escapeChar_plain {c : Char} (plain : Base64Url.plain c ∨ c = '.') :
    c.utf8Size = 1 ∧ escapeChar c = [c] := by
  have range := plain_toNat plain
  constructor
  · rw [Char.utf8Size_eq_one_iff, UInt32.le_iff_toNat_le]
    change c.toNat ≤ 127
    omega
  · have differs : ∀ d : Char, c.toNat ≠ d.toNat → c ≠ d := fun d other same => other (same ▸ rfl)
    have quoted : c ≠ '"' := differs _ (by simp; omega)
    have backslash : c ≠ '\\' := differs _ (by simp; omega)
    have newline : c ≠ '\n' := differs _ (by simp; omega)
    have carriage : c ≠ '\r' := differs _ (by simp; omega)
    have tab : c ≠ '\t' := differs _ (by simp; omega)
    have less : c ≠ '<' := differs _ (by simp; omega)
    have greater : c ≠ '>' := differs _ (by simp; omega)
    have ampersand : c ≠ '&' := differs _ (by simp; omega)
    have visible : ¬ (c.toNat < 32 ∨ c.toNat = 8232 ∨ c.toNat = 8233 ∨ c.toNat = 8 ∨
      c.toNat = 12) := by omega
    simp_all [escapeChar]

/-- Token characters are written as they are. -/
theorem byteLength_quote_plain {s : String}
    (plain : ∀ c ∈ s.toList, Base64Url.plain c ∨ c = '.') :
    byteLength (quote s) = s.length + 2 := by
  have written : ∀ text : List Char, (∀ c ∈ text, Base64Url.plain c ∨ c = '.') →
      byteLength (text.flatMap escapeChar) = text.length := by
    intro text
    induction text with
    | nil => simp
    | cons c text ih =>
      intro all
      obtain ⟨one, same⟩ := escapeChar_plain (all c List.mem_cons_self)
      rw [List.flatMap_cons, same, byteLength_append,
        ih fun d hd => all d (List.mem_cons_of_mem _ hd)]
      simp [one, Nat.add_comm]
  have := written s.toList plain
  simp only [quote, List.cons_append, byteLength_cons, byteLength_append, byteLength_nil, this,
    String.length_toList]
  have : '"'.utf8Size = 1 := by decide
  omega

theorem length_int64Text (n : Int64) : (int64Text n).length ≤ 20 := by
  have low := Int64.le_toInt n
  have high := Int64.toInt_lt n
  rw [int64Text, String.length_toList]
  cases h : n.toInt with
  | ofNat k =>
    have : (Nat.repr k).length ≤ 19 := Nat.repr_length k 19 (by omega) (by
      rw [h] at high
      have : (k : Int) < 2 ^ 63 := high
      omega)
    change (Nat.repr k).length ≤ 20
    omega
  | negSucc k =>
    have : (Nat.repr (k + 1)).length ≤ 19 := Nat.repr_length (k + 1) 19 (by omega) (by
      rw [h] at low
      have : -(2 ^ 63 : Int) ≤ Int.negSucc k := low
      omega)
    change ("-" ++ Nat.repr (k + 1)).length ≤ 20
    rw [String.length_append]
    change 1 + _ ≤ 20
    omega

end Bytes

section OneToken
variable {w : Wire} {c : Cursor} {secret payload : List UInt8}

/-- The payload in base64url, a period, and the 43 characters of the MAC. -/
theorem length_tokenOf (w : Wire) (secret payload : List UInt8) :
    (tokenOf w secret payload).length = (4 * payload.length + 2) / 3 + 44 := by
  rw [tokenOf, String.length_ofList, List.length_append, List.length_cons, Base64Url.length_encode,
    Base64Url.length_encode, w.hmac_length]

theorem tokenOf_plain (w : Wire) (secret payload : List UInt8) :
    ∀ c ∈ (tokenOf w secret payload).toList, Base64Url.plain c ∨ c = '.' := by
  intro c member
  rw [tokenOf, String.toList_ofList, List.mem_append, List.mem_cons] at member
  rcases member with inPayload | rfl | inMac
  · exact .inl (Base64Url.encode_plain _ c inPayload)
  · exact .inr rfl
  · exact .inl (Base64Url.encode_plain _ c inMac)

theorem length_payload (marshalled : w.marshal c = some payload) :
    ∃ originsText, w.marshalOrigins c.origins = some originsText ∧
      payload.length = byteLength (cursorText originsText c) := by
  obtain ⟨originsText, text, rfl⟩ := Option.map_eq_some_iff.mp marshalled
  exact ⟨originsText, text, by rw [byteLength]⟩

/-- A payload is longer than the token it carries. -/
theorem length_prevCursor_lt (marshalled : w.marshal c = some payload) :
    c.prevCursor.length < payload.length := by
  obtain ⟨originsText, _, length⟩ := length_payload marshalled
  have carried : c.prevCursor.length ≤ byteLength (optionalText "pc" c.prevCursor) := by
    rw [optionalText]
    split
    · simp_all
    · have quoted := length_quote c.prevCursor
      have bytes := length_le_byteLength (quote c.prevCursor)
      rw [byteLength_memberText]
      omega
  have closing : byteLength "\x7d".toList = 1 := by
    rw [byteLength]
    decide
  unfold cursorText at length
  simp only [byteLength_append, closing] at length
  omega

/-- What a payload holds besides the per-origin states, the page number and the token of the
page before. -/
def overhead : Nat := 2500

theorem byteLength_optionalText_le (name value : String) :
    byteLength (optionalText name value) ≤
      4 + byteLength name.toList + byteLength (quote value) := by
  rw [optionalText]
  split
  · simp
  · rw [byteLength_memberText]

theorem byteLength_int64Text_le (n : Int64) : byteLength (int64Text n) ≤ 80 := by
  have digits := length_int64Text n
  have bytes := byteLength_le (int64Text n)
  omega

theorem byteLength_quote_le (s : String) : byteLength (quote s) ≤ 24 * s.length + 8 := by
  have chars := length_quote s
  have bytes := byteLength_le (quote s)
  omega

theorem length_payload_le (marshalled : w.marshal c = some payload) {bound : Nat}
    (states : ∀ text, w.marshalOrigins c.origins = some text → byteLength text.toList ≤ bound)
    (version : c.version = currentCursorVersion) (digest : c.queryHash.length = 64)
    (principal : c.principalHash.length ≤ 16) (first : c.firstCursor = "")
    (plain : ∀ d ∈ c.prevCursor.toList, Base64Url.plain d ∨ d = '.') :
    payload.length ≤
      overhead + bound + 4 * (toString c.pageSeq).length + c.prevCursor.length := by
  obtain ⟨originsText, text, length⟩ := length_payload marshalled
  have origins := states originsText text
  have page : byteLength (if c.pageSeq = 0 then [] else
      memberText "ps" (toString c.pageSeq).toList) ≤
        4 + byteLength "ps".toList + 4 * (toString c.pageSeq).length := by
    have digits := byteLength_le (toString c.pageSeq).toList
    rw [String.length_toList] at digits
    split
    · simp
    · rw [byteLength_memberText]
      omega
  have literals : byteLength "\x7b\"v\":".toList = 5 ∧
      byteLength (toString currentCursorVersion).toList = 1 ∧ byteLength "q".toList = 1 ∧
      byteLength "ph".toList = 2 ∧ byteLength "o".toList = 1 ∧ byteLength "tr".toList = 2 ∧
      byteLength "ca".toList = 2 ∧ byteLength "ea".toList = 2 ∧ byteLength "pc".toList = 2 ∧
      byteLength "ps".toList = 2 ∧ byteLength "\x7d".toList = 1 := by
    unfold byteLength
    decide
  have query := byteLength_quote_le c.queryHash
  have ph := (byteLength_optionalText_le "ph" c.principalHash).trans
    (Nat.add_le_add_left (byteLength_quote_le _) _)
  have pc := byteLength_optionalText_le "pc" c.prevCursor
  have total := byteLength_int64Text_le c.totalReturned
  have created := byteLength_int64Text_le c.createdAt
  have expires := byteLength_int64Text_le c.expiresAt
  have noFirst : optionalText "fc" c.firstCursor = [] := if_pos first
  rw [byteLength_quote_plain plain] at pc
  unfold cursorText at length
  simp only [byteLength_append, byteLength_memberText, version, noFirst, byteLength_nil,
    literals] at length ph pc page
  rw [overhead]
  omega

end OneToken

end CursorGrowth
