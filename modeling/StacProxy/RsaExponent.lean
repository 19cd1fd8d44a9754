import Mathlib.Algebra.Group.Int.Defs
import Mathlib.Algebra.Group.Nat.Defs
import StacProxy.JwksClient

/-!
# Exponents of RSA keys

The modulus of a key is read as a number of any size. The exponent is shifted byte by byte into a
machine integer, which keeps the last eight bytes of it and takes the first of them for a sign.
-/

namespace JwksClient

/-- Shifting a byte in is arithmetic modulo the size of the word. -/
theorem shift_byte (value : Nat) (b : UInt8) :
    BitVec.ofNat 64 value <<< 8 ||| BitVec.ofNat 64 b.toNat =
      BitVec.ofNat 64 (value * 256 + b.toNat) := by
  have small : b.toNat < 2 ^ 8 := b.toNat_lt
  have joined : value * 256 + b.toNat = value <<< 8 ||| b.toNat := by
    rw [← Nat.shiftLeft_add_eq_or_of_lt small, Nat.shiftLeft_eq]
  apply BitVec.eq_of_toNat_eq
  rw [joined, BitVec.toNat_or, BitVec.toNat_shiftLeft, BitVec.toNat_ofNat, BitVec.toNat_ofNat,
    BitVec.toNat_ofNat, Nat.or_mod_two_pow, Nat.shiftLeft_eq, Nat.shiftLeft_eq, Nat.mod_mul_mod]

theorem exponent_eq (bytes : List UInt8) : exponent bytes = BitVec.ofNat 64 (setBytes bytes) := by
  -- The word follows the number from any point of the loop on.
  have follows : ∀ value : Nat,
      bytes.foldl (fun (word : BitVec 64) b => word <<< 8 ||| BitVec.ofNat 64 b.toNat)
        (BitVec.ofNat 64 value) =
      BitVec.ofNat 64 (bytes.foldl (fun value b => value * 256 + b.toNat) value) := by
    induction bytes with
    | nil => exact fun _ => rfl
    | cons b rest ih =>
      intro value
      rw [List.foldl_cons, List.foldl_cons, shift_byte, ih]
  exact follows 0

/-- The word is the number, and positive, exactly if the number is positive and has a sign bit to
spare. -/
theorem exponent_faithful_iff (bytes : List UInt8) :
    ((exponent bytes).toInt = setBytes bytes ∧ 0 < (exponent bytes).toInt) ↔
      0 < setBytes bytes ∧ setBytes bytes < 2 ^ 63 := by
  rw [exponent_eq]
  constructor
  · rintro ⟨same, pos⟩
    have below := BitVec.toInt_lt (x := BitVec.ofNat 64 (setBytes bytes))
    omega
  · rintro ⟨pos, fits⟩
    have same : (BitVec.ofNat 64 (setBytes bytes)).toInt = setBytes bytes := by
      rw [BitVec.toInt_ofNat', Int.bmod_eq_of_le] <;> omega
    exact ⟨same, by omega⟩

/-- A key has the exponent that is written in it, which is positive, and an exponent that does not
fit is refused. -/
structure ReadsExponent (jwk : JWK) : Prop where
  value : ∀ n e, parseRSAKey jwk = some (.rsa n e) →
    ∃ bytes, Base64Url.decode jwk.e.toList = some bytes ∧ e.toInt = setBytes bytes ∧ 0 < e.toInt
  refused : ∀ bytes, Base64Url.decode jwk.e.toList = some bytes → 2 ^ 63 ≤ setBytes bytes →
    parseRSAKey jwk = none

/-- Whether a key is accepted depends on its exponent being there and being decoded. -/
theorem parseRSAKey_eq_some_iff {jwk : JWK} {key : PublicKey} :
    parseRSAKey jwk = some key ↔ (jwk.n ≠ "" ∧ jwk.e ≠ "") ∧
      ∃ modulus bytes, Base64Url.decode jwk.n.toList = some modulus ∧
        Base64Url.decode jwk.e.toList = some bytes ∧
        key = .rsa (setBytes modulus) (exponent bytes) := by
  simp only [parseRSAKey, guard, Option.bind_eq_bind, Option.bind_eq_some_iff, Option.pure_def]
  constructor
  · rintro ⟨_, given, modulus, decoded, bytes, read, same⟩
    split at given
    · next present => exact ⟨present, modulus, bytes, decoded, read, (Option.some.inj same).symm⟩
    · cases given
  · rintro ⟨given, modulus, bytes, decoded, read, rfl⟩
    exact ⟨(), by rw [if_pos given], modulus, decoded, bytes, read, rfl⟩

/-- The exponent of a key is read faithfully exactly if it is positive and fits, whenever the key
is complete and decoded otherwise. -/
theorem readsExponent_iff (jwk : JWK) :
    ReadsExponent jwk ↔ (jwk.n ≠ "" → jwk.e ≠ "" →
      (Base64Url.decode jwk.n.toList).isSome = true →
      ∀ bytes, Base64Url.decode jwk.e.toList = some bytes →
        0 < setBytes bytes ∧ setBytes bytes < 2 ^ 63) := by
  constructor
  · intro reads n_given e_given n_decoded bytes read
    obtain ⟨modulus, decoded⟩ := Option.isSome_iff_exists.mp n_decoded
    have accepted : parseRSAKey jwk = some (.rsa (setBytes modulus) (exponent bytes)) :=
      parseRSAKey_eq_some_iff.mpr ⟨⟨n_given, e_given⟩, modulus, bytes, decoded, read, rfl⟩
    obtain ⟨bytes', read', same, pos⟩ := reads.value _ _ accepted
    cases read.symm.trans read'
    exact (exponent_faithful_iff bytes).mp ⟨same, pos⟩
  · intro fits
    refine ⟨fun n e accepted => ?_, fun bytes read large => ?_⟩
    · obtain ⟨⟨n_given, e_given⟩, modulus, bytes, decoded, read, same⟩ :=
        parseRSAKey_eq_some_iff.mp accepted
      cases same
      exact ⟨bytes, read,
        (exponent_faithful_iff bytes).mpr (fits n_given e_given (by simp [decoded]) bytes read)⟩
    · -- Were the key accepted, its exponent would fit.
      refine Option.eq_none_iff_forall_ne_some.mpr fun key accepted => ?_
      obtain ⟨⟨n_given, e_given⟩, modulus, bytes', decoded, read', -⟩ :=
        parseRSAKey_eq_some_iff.mp accepted
      cases read.symm.trans read'
      have small := (fits n_given e_given (by simp [decoded]) bytes read).2
      omega

section Samples

def exponentKey (e : String) : JWK := ⟨"RSA", "a", "sig", "RS256", "AQAB", e, "", "", ""⟩

end Samples

/-- Nine bytes that stand for 2 ^ 64 + 1 are read as 1, eight bytes with the first bit set as a
negative number, and a zero byte as zero. -/
theorem exponents_misread :
    Base64Url.decode (exponentKey "AQAAAAAAAAAB").e.toList = some [1, 0, 0, 0, 0, 0, 0, 0, 1] ∧
    parseRSAKey (exponentKey "AQAAAAAAAAAB") = some (.rsa 65537 1) ∧
    setBytes [1, 0, 0, 0, 0, 0, 0, 0, 1] = 2 ^ 64 + 1 ∧
    parseRSAKey (exponentKey "gAAAAAAAAAE") = some (.rsa 65537 (BitVec.ofInt 64 (1 - 2 ^ 63))) ∧
    parseRSAKey (exponentKey "AA") = some (.rsa 65537 0) := by
  decide +kernel

end JwksClient
