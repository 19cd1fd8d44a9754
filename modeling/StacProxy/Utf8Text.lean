import StacProxy.PercentCoding

/-!
# Coercing bytes to UTF-8

An encoder of JSON writes valid UTF-8 only: a byte that is not part of a well-formed character
is replaced by the replacement character. The sequences are those of the `unicode/utf8` tables.
ASCII bytes are neither changed nor crossed, so a text can be coerced piece by piece between
them.
-/

namespace Utf8Text

open PercentCoding

section Coercion

/-- How many bytes follow the first one of a character. -/
def needs (b : UInt8) : Option Nat :=
  if b < 0x80 then some 0
  else if 0xC2 ≤ b ∧ b ≤ 0xDF then some 1
  else if 0xE0 ≤ b ∧ b ≤ 0xEF then some 2
  else if 0xF0 ≤ b ∧ b ≤ 0xF4 then some 3
  else none

def continues (b : UInt8) : Bool := 0x80 ≤ b && b ≤ 0xBF

/-- Overlong forms, surrogates and values past the last code point show in the second byte. -/
def second (b c : UInt8) : Bool :=
  if b = 0xE0 then 0xA0 ≤ c
  else if b = 0xED then c ≤ 0x9F
  else if b = 0xF0 then 0x90 ≤ c
  else if b = 0xF4 then c ≤ 0x8F
  else true

/-- The number of bytes after `b` that make it a character. -/
def following (b : UInt8) (rest : List UInt8) : Option Nat :=
  (needs b).filter fun n => (rest.take n).length = n &&
    (rest.take n).all continues && (rest.take n).head?.all (second b)

/-- The first `n` bytes are the rest of a character. -/
def coerceFrom : Nat → List UInt8 → List UInt8
  | _, [] => []
  | n + 1, b :: rest => b :: coerceFrom n rest
  | 0, b :: rest => match following b rest with
    | some n => b :: coerceFrom n rest
    | none => [0xEF, 0xBF, 0xBD] ++ coerceFrom 0 rest

def coerce (text : List UInt8) : List UInt8 := coerceFrom 0 text

def asciiCount (text : List UInt8) : Nat := text.countP (· < 0x80)

end Coercion

/-- What holds of all numbers below 256 holds of all bytes. -/
theorem forall_byte {holds : UInt8 → Prop} (all : ∀ n : Fin 256, holds (UInt8.ofFin n))
    (b : UInt8) : holds b :=
  all b.toFin

section Pieces
variable {b sep : UInt8} {rest text : List UInt8}

theorem following_of_ascii (ascii : b < 0x80) (rest : List UInt8) : following b rest = some 0 := by
  simp [following, needs, ascii]

theorem length_of_following {n : Nat} (found : following b rest = some n) : n ≤ rest.length := by
  obtain ⟨-, fits⟩ := Option.filter_eq_some_iff.mp found
  simp only [Bool.and_eq_true, decide_eq_true_eq, List.length_take] at fits
  omega

theorem continues_of_ascii (ascii : sep < 0x80) : continues sep = false := by
  have low : ¬ 0x80 ≤ sep := UInt8.not_le.mpr ascii
  simp [continues, low]

/-- A character does not reach across an ASCII byte. -/
theorem following_append (ascii : sep < 0x80) (front back : List UInt8) :
    following b (front ++ sep :: back) = following b front := by
  unfold following
  refine congrArg (fun fits => (needs b).filter fits) (funext fun n => ?_)
  by_cases inside : n ≤ front.length
  · rw [List.take_append_of_le_length inside]
  · have short : (front.take n).length ≠ n := by
      rw [List.length_take]
      omega
    have crossed : sep ∈ (front ++ sep :: back).take n := by
      obtain ⟨k, rfl⟩ : ∃ k, n = front.length + (k + 1) := ⟨n - front.length - 1, by omega⟩
      rw [List.take_length_add_append, List.take_succ_cons]
      simp
    have broken : ((front ++ sep :: back).take n).all continues = false := by
      rw [List.all_eq_false]
      exact ⟨sep, crossed, by simp [continues_of_ascii ascii]⟩
    rw [broken, decide_eq_false short]
    simp

theorem coerceFrom_append (ascii : sep < 0x80) {n : Nat} {front : List UInt8}
    (inside : n ≤ front.length) (back : List UInt8) :
    coerceFrom n (front ++ sep :: back) = coerceFrom n front ++ sep :: coerce back := by
  induction front generalizing n with
  | nil =>
    obtain rfl : n = 0 := by simpa using inside
    simp [coerceFrom, following_of_ascii ascii, coerce]
  | cons b front ih =>
    cases n with
    | succ n =>
      rw [List.cons_append, coerceFrom, ih (by simpa using inside)]
      simp [coerceFrom]
    | zero =>
      rw [List.cons_append, coerceFrom, coerceFrom, following_append ascii]
      cases found : following b front with
      | none => simp [ih]
      | some n => simp [ih (length_of_following found)]

/-- A text is coerced piece by piece around an ASCII byte. -/
theorem coerce_append (ascii : sep < 0x80) (front back : List UInt8) :
    coerce (front ++ sep :: back) = coerce front ++ sep :: coerce back :=
  coerceFrom_append ascii (Nat.zero_le _) back

theorem coerce_of_ascii (ascii : ∀ b ∈ text, b < 0x80) : coerce text = text := by
  induction text with
  | nil => rfl
  | cons b rest ih =>
    have later := ih fun c member => ascii c (List.mem_cons_of_mem _ member)
    have first := following_of_ascii (ascii b List.mem_cons_self) rest
    rw [coerce, coerceFrom, first]
    exact congrArg (b :: ·) later

theorem filter_coerceFrom (n : Nat) (text : List UInt8) :
    (coerceFrom n text).filter (· < 0x80) = text.filter (· < 0x80) := by
  fun_induction coerceFrom n text with
  | case1 => rfl
  | case2 n b rest ih => simp only [List.filter_cons, ih]
  | case3 b rest n found ih => simp only [List.filter_cons, ih]
  | case4 b rest lost ih =>
    have high : ¬ b < 0x80 := by
      intro ascii
      rw [following_of_ascii ascii] at lost
      cases lost
    have replaced : ([0xEF, 0xBF, 0xBD] : List UInt8).filter (· < 0x80) = [] := by decide
    rw [List.filter_append, ih, replaced, List.nil_append,
      List.filter_cons_of_neg (by simpa using high)]

/-- Coercing changes no ASCII byte. -/
theorem mem_coerce (ascii : sep < 0x80) : sep ∈ coerce text ↔ sep ∈ text := by
  have same := filter_coerceFrom 0 text
  have kept : ∀ bytes : List UInt8, sep ∈ bytes ↔ sep ∈ bytes.filter (· < 0x80) := by
    simp [List.mem_filter, ascii]
  rw [kept, coerce, same, ← kept]

theorem asciiCount_coerce (text : List UInt8) : asciiCount (coerce text) = asciiCount text := by
  simp only [asciiCount, List.countP_eq_length_filter]
  rw [coerce, filter_coerceFrom]

end Pieces

section Cutting
variable {sep : UInt8} {text : List UInt8}

/-- Cutting at an ASCII byte and coercing can be exchanged. -/
theorem cut_coerce (ascii : sep < 0x80) (text : List UInt8) :
    cut sep (coerce text) = (coerce (cut sep text).1, coerce (cut sep text).2) := by
  by_cases present : sep ∈ text
  · obtain ⟨front, back, rfl, absent, cuts⟩ := exists_cut_of_mem present
    rw [coerce_append ascii, cut_append (mt (mem_coerce ascii).mp absent), cuts]
  · rw [cut_of_notMem (mt (mem_coerce ascii).mp present), cut_of_notMem present]
    rfl

/-- What is cut off holds an ASCII byte. -/
theorem asciiCount_cut (ascii : sep < 0x80) (text : List UInt8) :
    asciiCount (cut sep text).1 ≤ asciiCount text ∧
      (sep ∈ text → asciiCount (cut sep text).1 < asciiCount text) := by
  by_cases present : sep ∈ text
  · obtain ⟨front, back, rfl, -, cuts⟩ := exists_cut_of_mem present
    have counted : asciiCount (front ++ sep :: back) =
        asciiCount front + (asciiCount back + 1) := by
      simp [asciiCount, ascii]
    rw [cuts, counted]
    exact ⟨by simp only; omega, fun _ => by simp only; omega⟩
  · rw [cut_of_notMem present]
    exact ⟨le_rfl, fun found => absurd found present⟩

end Cutting

end Utf8Text
