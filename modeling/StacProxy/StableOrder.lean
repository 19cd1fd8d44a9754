import Mathlib.Data.List.Sort

/-!
# Places in a stable sort

`List.insertionSort` is the stable sort of this development: elements that
compare equal keep their order. The place of an element is counted on the
unsorted list, so statements about a sorted page need not mention the sort.
-/

namespace StableOrder

universe u
variable {α : Type u} (r : α → α → Prop) [DecidableRel r]

/-- How many elements the stable sort puts before `a` in `pre ++ a :: post`. -/
def place (pre : List α) (a : α) (post : List α) : Nat :=
  pre.countP (fun b => r b a) + post.countP (fun b => ¬ r a b)

omit [DecidableRel r] in
theorem rel_of_mem_left {s t : List α} {a b : α} (sorted : (s ++ a :: t).Pairwise r)
    (hb : b ∈ s) : r b a :=
  (List.pairwise_append.mp sorted).2.2 b hb a List.mem_cons_self

theorem length_takeWhile_eq_countP [IsTrans α r] {l : List α} (sorted : l.Pairwise r) (a : α) :
    (l.takeWhile (fun b => ¬ r a b)).length = l.countP (fun b => ¬ r a b) := by
  induction l with
  | nil => rfl
  | cons b l ih =>
    have htail := List.pairwise_cons.mp sorted
    by_cases h : r a b
    · have none_left : l.countP (fun c => ¬ r a c) = 0 := by
        refine List.countP_eq_zero.mpr fun c hc => ?_
        simpa using IsTrans.trans a b c h (htail.1 c hc)
      rw [List.countP_cons_of_neg (by simpa using h), none_left]
      simp [h]
    · simpa [List.takeWhile_cons, h] using ih htail.2

theorem orderedInsert_before {a c : α} (h : r c a) (s t : List α) :
    ∃ s', (s ++ a :: t).orderedInsert r c = s' ++ a :: t ∧ s'.length = s.length + 1 := by
  induction s with
  | nil => exact ⟨[c], by simp [h], rfl⟩
  | cons b s ih =>
    by_cases hb : r c b
    · exact ⟨c :: b :: s, by simp [hb], rfl⟩
    · obtain ⟨s', split, len⟩ := ih
      exact ⟨b :: s', by simpa [hb] using split, by simp [len]⟩

theorem orderedInsert_after [IsTrans α r] {a c : α} (h : ¬ r c a) {s t : List α}
    (sorted : (s ++ a :: t).Pairwise r) :
    (s ++ a :: t).orderedInsert r c = s ++ a :: t.orderedInsert r c := by
  induction s with
  | nil => simp [h]
  | cons b s ih =>
    have hb : ¬ r c b := fun hcb =>
      h (IsTrans.trans c b a hcb (rel_of_mem_left r sorted List.mem_cons_self))
    simpa [hb] using ih (List.pairwise_cons.mp sorted).2

section Sorting
variable [IsTrans α r] [Std.Total r]

/-- The stable sort puts exactly `place r pre a post` elements before `a`. -/
theorem insertionSort_split (pre : List α) (a : α) (post : List α) :
    ∃ s t, (pre ++ a :: post).insertionSort r = s ++ a :: t ∧
      s.length = place r pre a post := by
  induction pre with
  | nil =>
    refine ⟨_, _, List.insertionSort_cons_eq_take_drop r a post, ?_⟩
    rw [length_takeWhile_eq_countP r (List.pairwise_insertionSort r post),
      (List.perm_insertionSort r post).countP_eq]
    simp [place]
  | cons c pre ih =>
    obtain ⟨s, t, split, len⟩ := ih
    have sorted : (s ++ a :: t).Pairwise r := split ▸ List.pairwise_insertionSort r _
    rw [List.cons_append, List.insertionSort_cons, split]
    by_cases h : r c a
    · obtain ⟨s', split', len'⟩ := orderedInsert_before r h s t
      exact ⟨s', t, split', by simp only [len', len, place, List.countP_cons, h]; simp; omega⟩
    · exact ⟨s, _, orderedInsert_after r h sorted, by simp [len, place, h]⟩

/-- Which elements remain after the first `n` places, read off the unsorted list. -/
theorem mem_drop_insertionSort_iff {l pre post : List α} {a : α}
    (split : l = pre ++ a :: post) (distinct : l.Nodup) (n : Nat) :
    a ∈ (l.insertionSort r).drop n ↔ n ≤ place r pre a post := by
  obtain ⟨s, t, sorted, len⟩ := insertionSort_split r pre a post
  rw [← split] at sorted
  have nodup : (s ++ a :: t).Nodup :=
    sorted ▸ (List.perm_insertionSort r l).nodup_iff.mpr distinct
  have hs : a ∉ s := fun h => (List.nodup_append.mp nodup).2.2 a h a List.mem_cons_self rfl
  rw [sorted, ← len]
  constructor
  · intro h
    by_contra short
    have ht : a ∈ t := by
      rw [List.drop_append, List.drop_eq_nil_of_le (by omega : s.length ≤ n), List.nil_append,
        show n - s.length = (n - s.length - 1) + 1 by omega, List.drop_succ_cons] at h
      exact List.mem_of_mem_drop h
    exact (List.nodup_cons.mp (List.nodup_append.mp nodup).2.1).1 ht
  · intro h
    rw [List.drop_append_of_le_length h]
    simp

/-- Where no two elements compare equal, the order they come in does not matter. -/
theorem insertionSort_eq_of_perm {l m : List α} (perm : l.Perm m)
    (antisymm : ∀ a ∈ m, ∀ b ∈ m, r a b → r b a → a = b) :
    l.insertionSort r = m.insertionSort r := by
  have sorted := (List.perm_insertionSort r l).trans (perm.trans (List.perm_insertionSort r m).symm)
  refine List.Perm.eq_of_pairwise (fun a b left right => ?_) (List.pairwise_insertionSort r l)
    (List.pairwise_insertionSort r m) sorted
  rw [List.mem_insertionSort] at left right
  exact antisymm a (perm.mem_iff.mp left) b right

end Sorting

/-- Among `n` or more distinct elements of a sorted list, one is not before an element
of the first `n` places. -/
theorem exists_rel_of_mem_take [Std.Refl r] {l : List α} (sorted : l.Pairwise r) {n : Nat} {e : α}
    (early : e ∈ l.take n) {w : List α} (distinct : w.Nodup) (subset : w ⊆ l)
    (many : n ≤ w.length) : ∃ x ∈ w, r e x := by
  classical
  obtain ⟨i, hi, rfl⟩ := List.mem_iff_getElem.mp early
  rw [List.length_take] at hi
  by_contra none_after
  have inside : w ⊆ l.take i := by
    intro x hx
    obtain ⟨j, hj, rfl⟩ := List.mem_iff_getElem.mp (subset hx)
    refine List.mem_take_iff_getElem.mpr ⟨j, ?_, rfl⟩
    have hji : j < i := by
      by_contra later
      refine none_after ⟨l[j], hx, ?_⟩
      rw [List.getElem_take]
      rcases Nat.lt_or_eq_of_le (not_lt.mp later) with lt | rfl
      · exact List.pairwise_iff_getElem.mp sorted i j _ hj lt
      · exact Std.Refl.refl _
    omega
  have few := (List.subperm_of_subset distinct inside).length_le
  rw [List.length_take] at few
  omega

section Keyed
variable {κ : Type*} [DecidableEq κ] (key : α → κ) (le : κ → κ → Prop) [DecidableRel le]

/-- Elements of one key keep their order. -/
theorem filter_orderedInsert [Std.Refl le] (k : κ) (a : α) (l : List α) :
    (l.orderedInsert (fun x y => le (key x) (key y)) a).filter (key · = k) =
      (a :: l).filter (key · = k) := by
  induction l with
  | nil => rfl
  | cons b l ih =>
    rw [List.orderedInsert_cons]
    split
    · rfl
    · rename_i after
      have apart : ¬(key a = k ∧ key b = k) := by
        rintro ⟨first, second⟩
        rw [first, second] at after
        exact after (Std.Refl.refl k)
      rw [List.filter_cons, ih]
      by_cases first : key a = k
      · have other : key b ≠ k := fun second => apart ⟨first, second⟩
        simp [first, other]
      · simp [List.filter_cons, first]

theorem filter_insertionSort [Std.Refl le] (k : κ) (l : List α) :
    (l.insertionSort fun x y => le (key x) (key y)).filter (key · = k) =
      l.filter (key · = k) := by
  induction l with
  | nil => rfl
  | cons a l ih =>
    rw [List.insertionSort_cons, filter_orderedInsert, List.filter_cons, ih, List.filter_cons]

variable {key le}

omit [DecidableRel le] in
theorem mem_iff_of_filter_eq {l m : List α}
    (same : ∀ k, l.filter (key · = k) = m.filter (key · = k)) (a : α) : a ∈ l ↔ a ∈ m := by
  have at_key : a ∈ l.filter (key · = key a) ↔ a ∈ m.filter (key · = key a) := by
    rw [same (key a)]
  simpa using at_key

omit [DecidableRel le] in
/-- A list that is sorted by a key is determined by the elements of each key. -/
theorem eq_of_filter_eq [Std.Antisymm le] {l m : List α}
    (left : l.Pairwise fun x y => le (key x) (key y))
    (right : m.Pairwise fun x y => le (key x) (key y))
    (same : ∀ k, l.filter (key · = k) = m.filter (key · = k)) : l = m := by
  induction l generalizing m with
  | nil =>
    cases m with
    | nil => rfl
    | cons b m => simpa using mem_iff_of_filter_eq same b
  | cons a l ih =>
    cases m with
    | nil => simpa using mem_iff_of_filter_eq same a
    | cons b m =>
      rw [List.pairwise_cons] at left right
      have listed := mem_iff_of_filter_eq same
      have same_key : key a = key b := by
        have before : a = b ∨ le (key b) (key a) :=
          (List.mem_cons.mp ((listed a).mp List.mem_cons_self)).imp_right (right.1 a)
        have after : b = a ∨ le (key a) (key b) :=
          (List.mem_cons.mp ((listed b).mpr List.mem_cons_self)).imp_right (left.1 b)
        rcases before with rfl | before
        · rfl
        · rcases after with rfl | after
          · rfl
          · exact Std.Antisymm.antisymm _ _ after before
      have heads := same (key a)
      simp only [List.filter_cons, decide_true, if_true, same_key, List.cons.injEq] at heads
      obtain rfl : a = b := heads.1
      have tails : ∀ k, l.filter (key · = k) = m.filter (key · = k) := by
        intro k
        have whole := same k
        by_cases here : key a = k
        · simpa [List.filter_cons, here] using whole
        · simpa [List.filter_cons, here] using whole
      rw [ih left.2 right.2 tails]

end Keyed

section Pairs
variable {l : List α} {a b : α}

theorem pair_sublist_or (ha : a ∈ l) (hb : b ∈ l) (different : a ≠ b) :
    [a, b].Sublist l ∨ [b, a].Sublist l := by
  obtain ⟨s, t, rfl⟩ := List.append_of_mem ha
  rcases List.mem_append.mp hb with before | after
  · exact .inr ((List.singleton_sublist.mpr before).append
      (List.singleton_sublist.mpr List.mem_cons_self))
  · have later : b ∈ t := (List.mem_cons.mp after).resolve_left (Ne.symm different)
    exact .inl (((List.singleton_sublist.mpr later).cons_cons a).trans (List.sublist_append_right s _))

/-- What precedes an element of the first places is in the first places. -/
theorem pair_sublist_take (distinct : l.Nodup) {n : Nat} (pair : [a, b].Sublist l)
    (early : b ∈ l.take n) : [a, b].Sublist (l.take n) := by
  have disjoint := List.disjoint_take_drop distinct (le_refl n)
  rw [← List.take_append_drop n l, List.sublist_append_iff] at pair
  obtain ⟨front, back, split, inside, beyond⟩ := pair
  cases back with
  | nil =>
    rw [split, List.append_nil]
    exact inside
  | cons x back =>
    have late : b ∈ x :: back := by
      match front with
      | [] =>
        rw [← show [a, b] = x :: back from split]
        simp
      | [y] =>
        rw [← show [b] = x :: back from (List.cons.inj split).2]
        simp
      | y :: z :: front => simp at split
    exact absurd (beyond.subset late) (disjoint early)

theorem not_both_sublist (distinct : l.Nodup) (forward : [a, b].Sublist l) :
    ¬ [b, a].Sublist l := by
  intro backward
  induction l with
  | nil => simp at forward
  | cons x l ih =>
    obtain ⟨fresh, distinct⟩ := List.nodup_cons.mp distinct
    cases forward with
    | cons _ both =>
      cases backward with
      | cons _ back => exact ih distinct both back
      | cons_cons _ back => exact fresh (both.subset (List.mem_cons_of_mem _ List.mem_cons_self))
    | cons_cons _ second =>
      cases backward with
      | cons _ back => exact fresh (back.subset (List.mem_cons_of_mem _ List.mem_cons_self))
      | cons_cons _ back => exact fresh (second.subset List.mem_cons_self)

end Pairs

end StableOrder
