import Mathlib.Data.String.Basic
import StacProxy.FloatText

/-!
# Comparing texts

The evaluator turns both sides of a comparison into numbers if it can, texts included, and
compares texts as such only if one of them reads as no number. So a comparison of two texts is
that of their order exactly if it is not made on numbers, or the numbers stand in the order of
the texts.
-/

namespace Cql2Eval

open JsonValue

section Meaning

/-- The comparison of two values of one ordered kind. -/
def ordered {α : Type} [DecidableEq α] [LT α] [DecidableLT α] (operator : Operator) (s t : α) : Bool :=
  match operator with
  | .eq => decide (s = t)
  | .neq => decide (s ≠ t)
  | .lt => decide (s < t)
  | .lte => decide (s < t ∨ s = t)
  | .gt => decide (t < s)
  | .gte => decide (t < s ∨ s = t)
  | _ => false

/-- The comparison of the texts themselves. -/
def textual (operator : Operator) (s t : String) : Bool := ordered operator s t

def comparisons : List Operator := [.eq, .neq, .lt, .lte, .gt, .gte]

variable {G : Type} (lib : Library G)

/-- If both texts read as numbers, the smaller text is the smaller number, and a text that
stands on both sides is a number that equals itself. -/
def OrderedAlike (s t : String) : Prop :=
  ∀ l r, lib.parseFloat s = some l → lib.parseFloat t = some r →
    (s < t → l.less r) ∧ (t < s → r.less l) ∧ (s = t → l ≠ .nan)

/-- If the text reads as a number: it equals itself if the text is in the list, and no text of
the list reads as the same number if it is not. -/
def FoundAlike (s : String) (ts : List String) : Prop :=
  ∀ l, lib.parseFloat s = some l →
    (s ∈ ts → l ≠ .nan) ∧
    (s ∉ ts → ∀ t ∈ ts, ∀ r, lib.parseFloat t = some r → l.same r = false)

end Meaning

section Numbers

theorem Number.same_self {l : Number} : l.same l = true ↔ l ≠ .nan := by
  cases l <;> simp [Number.same]

theorem Number.same_comm (l r : Number) : l.same r = r.same l := by
  cases l <;> cases r <;> simp [Number.same, eq_comm]

theorem Number.same_of_less {l r : Number} (less : l.less r = true) : l.same r = false := by
  cases l <;> cases r <;> simp_all [Number.less, Number.same]
  · exact ne_of_lt less

theorem Number.less_asymm {l r : Number} (less : l.less r = true) : r.less l = false := by
  cases l <;> cases r <;> simp_all [Number.less]
  · exact less.le

theorem Number.less_self (l : Number) : l.less l = false := by
  cases l <;> simp [Number.less]

end Numbers

section Texts
variable {G : Type} {lib : Library G}

theorem stringCmp_eq_textual {operator : Operator} (compares : operator ∈ comparisons)
    (s t : String) : stringCmp operator s t = textual operator s t := by
  have lte : (!decide (t < s)) = decide (s < t ∨ s = t) := by
    rw [← decide_not, decide_eq_decide, not_lt, le_iff_lt_or_eq]
  have gte : (!decide (s < t)) = decide (t < s ∨ s = t) := by
    rw [← decide_not, decide_eq_decide, not_lt, le_iff_lt_or_eq, @eq_comm _ t s]
  simp only [comparisons, List.mem_cons, List.not_mem_nil, or_false] at compares
  rcases compares with rfl | rfl | rfl | rfl | rfl | rfl
  · rfl
  · exact (decide_not ..).symm
  · rfl
  · exact lte
  · rfl
  · exact gte

/-- Both texts read as numbers: the comparisons agree exactly if the orders do. -/
theorem numericCmp_eq_textual_iff (l r : Number) (s t : String) (same : s = t → l = r) :
    (∀ operator ∈ comparisons, numericCmp operator l r = textual operator s t) ↔
      (s < t → l.less r) ∧ (t < s → r.less l) ∧ (s = t → l ≠ .nan) := by
  constructor
  · intro agree
    have less := agree .lt (by simp [comparisons])
    have greater := agree .gt (by simp [comparisons])
    have equal := agree .eq (by simp [comparisons])
    simp only [numericCmp, textual, ordered] at less greater equal
    refine ⟨fun lt => ?_, fun gt => ?_, fun eq => ?_⟩
    · rw [less]
      exact decide_eq_true lt
    · rw [greater]
      exact decide_eq_true gt
    · obtain rfl := same eq
      exact Number.same_self.mp (equal.trans (decide_eq_true eq))
  · rintro ⟨less, greater, equal⟩ operator compares
    simp only [comparisons, List.mem_cons, List.not_mem_nil, or_false] at compares
    rcases lt_trichotomy s t with lt | eq | gt
    · have l_less := less lt
      have differ := Number.same_of_less l_less
      have not_less := Number.less_asymm l_less
      rcases compares with rfl | rfl | rfl | rfl | rfl | rfl <;>
        simp [numericCmp, textual, ordered, l_less, differ, not_less, lt, lt.ne, lt.not_gt]
    · obtain rfl := same eq
      have itself := Number.same_self.mpr (equal eq)
      have not_less := Number.less_self l
      rcases compares with rfl | rfl | rfl | rfl | rfl | rfl <;>
        simp [numericCmp, textual, ordered, itself, not_less, eq]
    · have r_less := greater gt
      have differ : l.same r = false := (Number.same_comm l r).trans (Number.same_of_less r_less)
      have not_less := Number.less_asymm r_less
      rcases compares with rfl | rfl | rfl | rfl | rfl | rfl <;>
        simp [numericCmp, textual, ordered, r_less, differ, not_less, gt, gt.ne', gt.not_gt]

theorem compare_texts (operator : Operator) (s t : String) :
    compare lib operator (.str s) (.str t) =
      match lib.parseFloat s, lib.parseFloat t with
      | some l, some r => numericCmp operator l r
      | _, _ => stringCmp operator s t := by
  cases left : lib.parseFloat s <;> cases right : lib.parseFloat t <;>
    simp [compare, isNil, toFloat, left, right]

/-- All comparisons of two texts are those of the texts exactly if the order is. -/
theorem compare_eq_textual_iff (s t : String) :
    (∀ operator ∈ comparisons, compare lib operator (.str s) (.str t) = textual operator s t) ↔
      OrderedAlike lib s t := by
  simp only [compare_texts]
  cases left : lib.parseFloat s with
  | none =>
    refine iff_of_true (fun operator compares => stringCmp_eq_textual compares s t) ?_
    intro l r read
    rw [left] at read
    cases read
  | some l =>
    cases right : lib.parseFloat t with
    | none =>
      refine iff_of_true (fun operator compares => stringCmp_eq_textual compares s t) ?_
      intro l r _ read
      rw [right] at read
      cases read
    | some r =>
      have same : s = t → l = r := by
        rintro rfl
        exact Option.some.inj (left.symm.trans right)
      refine (numericCmp_eq_textual_iff l r s t same).trans ?_
      unfold OrderedAlike
      rw [left, right]
      constructor
      · rintro alike l' r' ⟨⟩ ⟨⟩
        exact alike
      · intro alike
        exact alike l r rfl rfl

/-- A text that reads as a number matches the texts that read as the same number. -/
theorem compare_eq_of_number {s : String} {l : Number} (read : lib.parseFloat s = some l)
    (t : String) : compare lib .eq (.str s) (.str t) = true ↔
      ∃ r, lib.parseFloat t = some r ∧ l.same r = true := by
  rw [compare_texts, read]
  cases right : lib.parseFloat t with
  | none =>
    have differ : s ≠ t := by
      rintro rfl
      rw [read] at right
      cases right
    simp [stringCmp, differ]
  | some r => simp [numericCmp]

/-- A list of texts is searched for the text itself exactly if no number comes in between. -/
theorem any_compare_iff (s : String) (ts : List String) :
    (ts.any fun t => compare lib .eq (.str s) (.str t)) = decide (s ∈ ts) ↔
      FoundAlike lib s ts := by
  cases read : lib.parseFloat s with
  | none =>
    refine iff_of_true ?_ ?_
    · have matched : ∀ t, compare lib .eq (.str s) (.str t) = decide (s = t) := by
        intro t
        rw [compare_texts, read]
        rfl
      simp only [matched]
      rw [Bool.eq_iff_iff, List.any_eq_true, decide_eq_true_iff]
      simp
    · intro l found
      rw [read] at found
      cases found
  | some l =>
    have found : (ts.any fun t => compare lib .eq (.str s) (.str t)) = true ↔
        ∃ t ∈ ts, ∃ r, lib.parseFloat t = some r ∧ l.same r = true := by
      simp only [List.any_eq_true, compare_eq_of_number read]
    have alike : FoundAlike lib s ts ↔ (s ∈ ts → l ≠ .nan) ∧
        (s ∉ ts → ∀ t ∈ ts, ∀ r, lib.parseFloat t = some r → l.same r = false) := by
      simp [FoundAlike, read]
    rw [alike]
    by_cases member : s ∈ ts
    · simp only [member, decide_true, found, not_true_eq_false, false_implies, and_true,
        true_implies]
      constructor
      · rintro ⟨t, -, r, -, same⟩ rfl
        simp [Number.same] at same
      · intro proper
        exact ⟨s, member, l, read, Number.same_self.mpr proper⟩
    · rw [decide_eq_false member, ← Bool.not_eq_true, found]
      simp [member]

end Texts

section Evaluated
variable {G : Type} {lib : Library G} {item : Members} {name s : String}

theorem eval_comparison (held : lookupProperty item name = .str s) {operator : Operator}
    (compares : operator ∈ comparisons) (t : String) :
    eval lib item (.op operator [.prop name, .str t]) =
      .ok (.bool (compare lib operator (.str s) (.str t))) := by
  simp only [comparisons, List.mem_cons, List.not_mem_nil, or_false] at compares
  rcases compares with rfl | rfl | rfl | rfl | rfl | rfl <;>
    simp only [eval, evalAll, evalOp, comparison, held] <;> rfl

theorem evalAll_texts (ts : List String) :
    arrayOf (evalAll lib item (ts.map .str)) = .ok (.arr (ts.map .str)) := by
  have values : (evalAll lib item (ts.map .str)).mapM id = .ok (ts.map Json.str) := by
    induction ts with
    | nil => rfl
    | cons t rest ih =>
      simp only [List.map_cons, evalAll, eval, List.mapM_cons, ih]
      rfl
  rw [arrayOf, values]
  rfl

theorem eval_membership (held : lookupProperty item name = .str s) (ts : List String) :
    eval lib item (.op .isIn [.prop name, .arr (ts.map .str)]) =
      .ok (.bool (ts.any fun t => compare lib .eq (.str s) (.str t))) := by
  simp only [eval, evalAll, evalOp, held, evalAll_texts, membership]
  simp only [bind, Except.bind, pure, Except.pure, List.any_map, Function.comp_def]

/-- A comparison of a property that holds a text with a literal text evaluates, for every
operator, to the comparison of the texts exactly if they are ordered alike as far as they read
as numbers, and `IN` to membership of the text exactly if it is found alike. -/
theorem text_comparison_iff (held : lookupProperty item name = .str s) (t : String)
    (ts : List String) :
    ((∀ operator ∈ comparisons, eval lib item (.op operator [.prop name, .str t]) =
        .ok (.bool (textual operator s t))) ↔ OrderedAlike lib s t) ∧
    (eval lib item (.op .isIn [.prop name, .arr (ts.map .str)]) = .ok (.bool (decide (s ∈ ts))) ↔
      FoundAlike lib s ts) := by
  constructor
  · rw [← compare_eq_textual_iff]
    refine forall₂_congr fun operator compares => ?_
    rw [eval_comparison held compares, Except.ok.injEq, Json.bool.injEq]
  · rw [eval_membership held, Except.ok.injEq, Json.bool.injEq, any_compare_iff]

/-- Texts are read by the standard library; no geometries. -/
def textLibrary : Library Unit where
  parseFloat := FloatText.parseFloat
  parseObject _ := none
  intersects _ _ := false
  contains _ _ := false

def coded (code : String) : Members := [("properties", .obj [("code", .str code)])]

/-- The code 10 is compared with 20 and found among codes that read as other numbers. -/
theorem text_comparison_ordered :
    eval textLibrary (coded "10") (.op .lt [.prop "code", .str "20"]) = .ok (.bool true) ∧
    eval textLibrary (coded "10") (.op .isIn [.prop "code", .arr (["7", "10"].map .str)]) =
      .ok (.bool true) := by
  have ten : textLibrary.parseFloat "10" = some (.finite 10) := by decide +kernel
  have twenty : textLibrary.parseFloat "20" = some (.finite 20) := by decide +kernel
  have both := @text_comparison_iff Unit textLibrary (coded "10") "code" "10" rfl "20" ["7", "10"]
  refine ⟨both.1.mpr ?_ .lt (by decide), both.2.mpr ?_⟩
  · intro l r read_l read_r
    rw [ten] at read_l
    rw [twenty] at read_r
    cases read_l
    cases read_r
    decide +kernel
  · intro l read
    rw [ten] at read
    cases read
    decide +kernel

/-- Texts that read as the same number are equal, a text that reads as NaN is not equal to
itself, and the order is that of the numbers. -/
theorem texts_compared_as_numbers :
    evalCQL2 textLibrary (coded "007") (.op .eq [.prop "code", .str "7.0"]) = .ok true ∧
    textual .eq "007" "7.0" = false ∧
    evalCQL2 textLibrary (coded "007") (.op .isIn [.prop "code", .arr (["7.0"].map .str)]) =
      .ok true ∧
    "007" ∉ ["7.0"] ∧
    evalCQL2 textLibrary (coded "nan") (.op .eq [.prop "code", .str "nan"]) = .ok false ∧
    textual .eq "nan" "nan" = true ∧
    evalCQL2 textLibrary (coded "10") (.op .lt [.prop "code", .str "9"]) = .ok false ∧
    textual .lt "10" "9" = true := by
  decide +kernel

end Evaluated

end Cql2Eval
