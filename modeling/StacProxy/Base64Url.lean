import Mathlib.Data.List.Basic

/-!
# Unpadded base64url

`encode` and `decode` follow `base64.RawURLEncoding`: no padding, the URL-safe
alphabet, and a lenient decoder that skips line breaks and ignores the unused low
bits of a final partial group.
-/

namespace Base64Url

def sextetChar (n : Nat) : Char :=
  if n < 26 then Char.ofNat (65 + n)
  else if n < 52 then Char.ofNat (97 + (n - 26))
  else if n < 62 then Char.ofNat (48 + (n - 52))
  else if n = 62 then '-'
  else '_'

def sextet? (c : Char) : Option Nat :=
  if 'A' ≤ c ∧ c ≤ 'Z' then some (c.toNat - 65)
  else if 'a' ≤ c ∧ c ≤ 'z' then some (c.toNat - 97 + 26)
  else if '0' ≤ c ∧ c ≤ '9' then some (c.toNat - 48 + 52)
  else if c = '-' then some 62
  else if c = '_' then some 63
  else none

def encodeSextets : List UInt8 → List Nat
  | [] => []
  | [a] => [a.toNat / 4, a.toNat % 4 * 16]
  | [a, b] => [a.toNat / 4, a.toNat % 4 * 16 + b.toNat / 16, b.toNat % 16 * 4]
  | a :: b :: c :: rest =>
    a.toNat / 4 :: (a.toNat % 4 * 16 + b.toNat / 16) ::
      (b.toNat % 16 * 4 + c.toNat / 64) :: c.toNat % 64 :: encodeSextets rest

def decodeSextets : List Nat → Option (List UInt8)
  | [] => some []
  | [_] => none
  | [a, b] => some [UInt8.ofNat (a * 4 + b / 16)]
  | [a, b, c] => some [UInt8.ofNat (a * 4 + b / 16), UInt8.ofNat (b % 16 * 16 + c / 4)]
  | a :: b :: c :: d :: rest => (decodeSextets rest).map fun bytes =>
    UInt8.ofNat (a * 4 + b / 16) :: UInt8.ofNat (b % 16 * 16 + c / 4) ::
      UInt8.ofNat (c % 4 * 64 + d) :: bytes

def encode (bytes : List UInt8) : List Char := (encodeSextets bytes).map sextetChar

def isLineBreak (c : Char) : Bool := c == '\n' || c == '\r'

def decode (text : List Char) : Option (List UInt8) :=
  ((text.filter (!isLineBreak ·)).mapM sextet?).bind decodeSextets

/-- The alphabet holds neither a separator, a line break nor a character JSON escapes. -/
def plain (c : Char) : Bool := c.isAlphanum || c == '-' || c == '_'

theorem encodeSextets_lt (bytes : List UInt8) : ∀ n ∈ encodeSextets bytes, n < 64 := by
  induction bytes using encodeSextets.induct with
  | case1 => simp [encodeSextets]
  | case2 a =>
    have := a.toNat_lt
    simp only [encodeSextets, List.mem_cons, List.not_mem_nil, or_false, forall_eq_or_imp,
      forall_eq]
    omega
  | case3 a b =>
    have := a.toNat_lt
    have := b.toNat_lt
    simp only [encodeSextets, List.mem_cons, List.not_mem_nil, or_false, forall_eq_or_imp,
      forall_eq]
    omega
  | case4 a b c rest ih =>
    have := a.toNat_lt
    have := b.toNat_lt
    have := c.toNat_lt
    simp only [encodeSextets, List.mem_cons, forall_eq_or_imp]
    refine ⟨by omega, by omega, by omega, by omega, ih⟩

theorem ofNat_eq_byte {n : Nat} {a : UInt8} (h : n = a.toNat) : UInt8.ofNat n = a := by
  rw [h, UInt8.ofNat_toNat]

theorem decodeSextets_encodeSextets (bytes : List UInt8) :
    decodeSextets (encodeSextets bytes) = some bytes := by
  induction bytes using encodeSextets.induct with
  | case1 => rfl
  | case2 a =>
    have := a.toNat_lt
    rw [encodeSextets, decodeSextets, ofNat_eq_byte (a := a) (by omega)]
  | case3 a b =>
    have := a.toNat_lt
    have := b.toNat_lt
    rw [encodeSextets, decodeSextets, ofNat_eq_byte (a := a) (by omega),
      ofNat_eq_byte (a := b) (by omega)]
  | case4 a b c rest ih =>
    have := a.toNat_lt
    have := b.toNat_lt
    have := c.toNat_lt
    rw [encodeSextets, decodeSextets, ih, Option.map_some, ofNat_eq_byte (a := a) (by omega),
      ofNat_eq_byte (a := b) (by omega), ofNat_eq_byte (a := c) (by omega)]

theorem sextet?_sextetChar {n : Nat} (h : n < 64) : sextet? (sextetChar n) = some n := by
  have all : ∀ n < 64, sextet? (sextetChar n) = some n := by decide
  exact all n h

theorem plain_sextetChar {n : Nat} (h : n < 64) : plain (sextetChar n) := by
  have all : ∀ n < 64, plain (sextetChar n) := by decide
  exact all n h

theorem encode_plain (bytes : List UInt8) : ∀ c ∈ encode bytes, plain c := by
  intro c member
  obtain ⟨n, hn, rfl⟩ := List.mem_map.mp member
  exact plain_sextetChar (encodeSextets_lt bytes n hn)

theorem plain_not_lineBreak {c : Char} (h : plain c) : isLineBreak c = false := by
  rw [Bool.eq_false_iff]
  intro broken
  rcases Bool.or_eq_true_iff.mp broken with newline | carriage
  · rw [beq_iff_eq.mp newline] at h
    exact absurd h (by decide)
  · rw [beq_iff_eq.mp carriage] at h
    exact absurd h (by decide)

theorem mapM_sextet?_map {l : List Nat} (small : ∀ n ∈ l, n < 64) :
    (l.map sextetChar).mapM sextet? = some l := by
  induction l with
  | nil => rfl
  | cons n rest ih =>
    obtain ⟨hn, hrest⟩ := List.forall_mem_cons.mp small
    simp [sextet?_sextetChar hn, ih hrest]

/-- Decoding an encoding gives back the bytes. -/
theorem decode_encode (bytes : List UInt8) : decode (encode bytes) = some bytes := by
  have kept : (encode bytes).filter (!isLineBreak ·) = encode bytes :=
    List.filter_eq_self.mpr fun c member => by
      simp [plain_not_lineBreak (encode_plain bytes c member)]
  rw [decode, kept, encode, mapM_sextet?_map (encodeSextets_lt bytes)]
  exact decodeSextets_encodeSextets bytes

/-- The encoding of `n` bytes has `⌈4n/3⌉` characters. -/
theorem length_encode (bytes : List UInt8) :
    (encode bytes).length = (4 * bytes.length + 2) / 3 := by
  rw [encode, List.length_map]
  induction bytes using encodeSextets.induct with
  | case1 => rfl
  | case2 a | case3 a b => simp [encodeSextets]
  | case4 a b c rest ih =>
    simp only [encodeSextets, List.length_cons, ih]
    omega

end Base64Url
