import Mathlib.Data.Finset.Sort
import Mathlib.Data.List.Sort

/-!
# Paging a finite ordered set

A paged process renders one page per call and hands out the state of the next call,
or none on the last page. The second half is the reference behaviour: cutting a
finite set of ranks, in order, into pages of a fixed size. A process whose calls
agree with it page by page has, as a whole, listed the set once and in order.
-/

namespace OrderedPaging

universe u v w
variable {σ : Type u} {π : Type v}

/-- The pages a client collects by following the process until no next state is offered.
A failed call, `none`, has no walk. -/
inductive Walk (step : σ → Option (π × Option σ)) : σ → List π → Prop
  | last {s : σ} {p : π} : step s = some (p, none) → Walk step s [p]
  | more {s s' : σ} {p : π} {ps : List π} : step s = some (p, some s') → Walk step s' ps →
      Walk step s (p :: ps)

section Walks
variable {step : σ → Option (π × Option σ)}

/-- A process that always answers and always gets closer to its end has a walk. -/
theorem exists_walk (inv : σ → Prop) (size : σ → Nat)
    (answers : ∀ s, inv s → ∃ p next, step s = some (p, next) ∧
      ∀ s', next = some s' → inv s' ∧ size s' < size s)
    (s : σ) (start : inv s) : ∃ ps, Walk step s ps := by
  induction h : size s using Nat.strong_induction_on generalizing s with
  | _ n ih =>
    obtain ⟨p, next, answer, closer⟩ := answers s start
    cases next with
    | none => exact ⟨[p], .last answer⟩
    | some s' =>
      obtain ⟨keeps, smaller⟩ := closer s' rfl
      obtain ⟨ps, rest⟩ := ih (size s') (h ▸ smaller) s' keeps rfl
      exact ⟨p :: ps, .more answer rest⟩

theorem Walk.ne_nil {s : σ} {ps : List π} (walk : Walk step s ps) : ps ≠ [] := by
  cases walk <;> simp

/-- What every call gives while an invariant is kept, all pages of a walk have. -/
theorem Walk.forall_mem {has : π → Prop} (inv : σ → Prop)
    (keeps : ∀ s p s', inv s → step s = some (p, some s') → inv s')
    (gives : ∀ s p next, inv s → step s = some (p, next) → has p)
    {s : σ} {ps : List π} (walk : Walk step s ps) (start : inv s) : ∀ p ∈ ps, has p := by
  induction walk with
  | last answer => simpa using gives _ _ _ start answer
  | more answer _ ih =>
    rw [List.forall_mem_cons]
    exact ⟨gives _ _ _ start answer, ih (keeps _ _ _ start answer)⟩

variable {α : Type w} {r : α → α → Prop}

/-- If each page is in order and precedes all that is left after it, the concatenation of
the pages is in order. -/
theorem Walk.pairwise_flatMap (inv : σ → Prop) (content : π → List α) (left : σ → α → Prop)
    (keeps : ∀ s p s', inv s → step s = some (p, some s') → inv s')
    (sorted : ∀ s p next, inv s → step s = some (p, next) → (content p).Pairwise r)
    (drawn : ∀ s p next, inv s → step s = some (p, next) → ∀ x ∈ content p, left s x)
    (shrinks : ∀ s p s', inv s → step s = some (p, some s') → ∀ x, left s' x → left s x)
    (precedes : ∀ s p s', inv s → step s = some (p, some s') →
      ∀ x ∈ content p, ∀ y, left s' y → r x y)
    {s : σ} {ps : List π} (walk : Walk step s ps) (start : inv s) :
    (ps.flatMap content).Pairwise r ∧ ∀ x ∈ ps.flatMap content, left s x := by
  induction walk with
  | last answer =>
    simpa using ⟨sorted _ _ _ start answer, drawn _ _ _ start answer⟩
  | more answer _ ih =>
    obtain ⟨rest, rest_left⟩ := ih (keeps _ _ _ start answer)
    rw [List.flatMap_cons]
    refine ⟨List.pairwise_append.mpr ⟨sorted _ _ _ start answer, rest, fun x hx y hy =>
      precedes _ _ _ start answer x hx y (rest_left y hy)⟩, fun x hx => ?_⟩
    rcases List.mem_append.mp hx with here | later
    · exact drawn _ _ _ start answer x here
    · exact shrinks _ _ _ start answer x (rest_left x later)

end Walks

section Reference
variable {ρ : Type w} [LinearOrder ρ]

/-- The next page of a set of ranks still to be listed. -/
def pageOf (n : Nat) (ranks : Finset ρ) : List ρ := (ranks.sort (· ≤ ·)).take n

/-- What is left after that page. -/
def restOf (n : Nat) (ranks : Finset ρ) : Finset ρ := ranks \ (pageOf n ranks).toFinset

theorem sort_pairwise (ranks : Finset ρ) : (ranks.sort (· ≤ ·)).Pairwise (· < ·) :=
  (Finset.sortedLT_sort ranks).pairwise

theorem toFinset_drop_sort (n : Nat) (ranks : Finset ρ) :
    ((ranks.sort (· ≤ ·)).drop n).toFinset = restOf n ranks := by
  have nodup := ranks.sort_nodup (· ≤ ·)
  have disjoint := List.disjoint_take_drop nodup (le_refl n)
  ext x
  simp only [restOf, pageOf, List.mem_toFinset, Finset.mem_sdiff]
  constructor
  · intro late
    exact ⟨(Finset.mem_sort _).mp (List.mem_of_mem_drop late), fun early => disjoint early late⟩
  · rintro ⟨member, notEarly⟩
    have := (Finset.mem_sort (· ≤ ·)).mpr member
    rw [← List.take_append_drop n (ranks.sort (· ≤ ·))] at this
    exact (List.mem_append.mp this).resolve_left notEarly

/-- Listing the rest after the first page is listing the rest of the sorted list. -/
theorem sort_restOf (n : Nat) (ranks : Finset ρ) :
    (restOf n ranks).sort (· ≤ ·) = (ranks.sort (· ≤ ·)).drop n := by
  refine List.Pairwise.eq_of_mem_iff (sort_pairwise _)
    ((sort_pairwise ranks).sublist (List.drop_sublist n _)) fun x => ?_
  rw [Finset.mem_sort, ← toFinset_drop_sort, List.mem_toFinset]

theorem card_restOf (n : Nat) (ranks : Finset ρ) : (restOf n ranks).card = ranks.card - n := by
  have sorted := congrArg List.length (sort_restOf n ranks)
  rwa [Finset.length_sort, List.length_drop, Finset.length_sort] at sorted

/-- A strictly ordered list that precedes everything else in the set, and is full unless
nothing else is left, is the next page. -/
theorem eq_pageOf {n : Nat} {ranks : Finset ρ} {page : List ρ} (ordered : page.Pairwise (· < ·))
    (drawn : ∀ x ∈ page, x ∈ ranks) (precedes : ∀ x ∈ page, ∀ y ∈ ranks, y ∉ page → x < y)
    (short : page.length ≤ n) (full : ∀ y ∈ ranks, y ∉ page → n ≤ page.length) :
    page = pageOf n ranks := by
  classical
  let others := (ranks \ page.toFinset).sort (· ≤ ·)
  have mem_others : ∀ y, y ∈ others ↔ y ∈ ranks ∧ y ∉ page := by
    intro y
    simp [others]
  have whole : page ++ others = ranks.sort (· ≤ ·) := by
    refine List.Pairwise.eq_of_mem_iff ?_ (sort_pairwise ranks) fun y => ?_
    · refine List.pairwise_append.mpr ⟨ordered, sort_pairwise _, fun x hx y hy => ?_⟩
      obtain ⟨member, other⟩ := (mem_others y).mp hy
      exact precedes x hx y member other
    · rw [List.mem_append, mem_others, Finset.mem_sort]
      by_cases hy : y ∈ page
      · simp [hy, drawn y hy]
      · simp [hy]
  rw [pageOf, ← whole]
  cases h : others with
  | nil => rw [List.append_nil, List.take_of_length_le short]
  | cons y rest =>
    obtain ⟨member, other⟩ := (mem_others y).mp (h ▸ List.mem_cons_self)
    have exactly : page.length = n := le_antisymm short (full y member other)
    rw [List.take_append_of_le_length exactly.ge, List.take_of_length_le short]

variable {step : σ → Option (π × Option σ)}

/-- Each call lists the next page of what is left and offers a next state exactly when
something is left after it. -/
structure Refines (step : σ → Option (π × Option σ)) (inv : σ → Prop) (n : Nat)
    (content : π → List ρ) (left : σ → Finset ρ) : Prop where
  answers : ∀ s, inv s → ∃ p next, step s = some (p, next)
  content_eq : ∀ s p next, inv s → step s = some (p, next) → content p = pageOf n (left s)
  last : ∀ s p, inv s → step s = some (p, none) → restOf n (left s) = ∅
  next : ∀ s p s', inv s → step s = some (p, some s') →
    inv s' ∧ left s' = restOf n (left s) ∧ (left s').Nonempty

section Refinement
variable {inv : σ → Prop} {n : Nat} {content : π → List ρ} {left : σ → Finset ρ}

theorem Refines.exists_walk (refines : Refines step inv n content left) (positive : 0 < n)
    {s : σ} (start : inv s) : ∃ ps, Walk step s ps := by
  refine OrderedPaging.exists_walk inv (fun s => (left s).card) (fun s keeps => ?_) s start
  obtain ⟨p, next, answer⟩ := refines.answers s keeps
  refine ⟨p, next, answer, ?_⟩
  rintro s' rfl
  obtain ⟨keeps', rest, nonempty⟩ := refines.next s p s' keeps answer
  refine ⟨keeps', ?_⟩
  have fewer := card_restOf n (left s)
  rw [← rest] at fewer
  have := nonempty.card_pos
  omega

/-- The pages of a walk are the sorted set, cut up. -/
theorem Refines.flatMap_content (refines : Refines step inv n content left) {s : σ} {ps : List π}
    (walk : Walk step s ps) (start : inv s) : ps.flatMap content = (left s).sort (· ≤ ·) := by
  induction walk with
  | @last s p answer =>
    have nothing := card_restOf n (left s)
    rw [refines.last _ _ start answer, Finset.card_empty] at nothing
    rw [List.flatMap_singleton, refines.content_eq _ _ _ start answer, pageOf]
    refine List.take_of_length_le ?_
    rw [Finset.length_sort]
    omega
  | more answer _ ih =>
    obtain ⟨keeps, rest, _⟩ := refines.next _ _ _ start answer
    rw [List.flatMap_cons, ih keeps, rest, sort_restOf,
      refines.content_eq _ _ _ start answer, pageOf, List.take_append_drop]

/-- Every page but the last is full. -/
theorem Refines.length_content (refines : Refines step inv n content left) {s : σ} {ps : List π}
    (walk : Walk step s ps) (start : inv s) : ∀ p ∈ ps.dropLast, (content p).length = n := by
  induction walk with
  | last answer => simp
  | @more s s' p ps answer walk ih =>
    obtain ⟨keeps, rest, nonempty⟩ := refines.next _ _ _ start answer
    rw [List.dropLast_cons_of_ne_nil walk.ne_nil, List.forall_mem_cons]
    refine ⟨?_, ih keeps⟩
    have fewer := card_restOf n (left s)
    rw [← rest] at fewer
    rw [refines.content_eq _ _ _ start answer, pageOf, List.length_take, Finset.length_sort]
    have := nonempty.card_pos
    omega

/-- A page offers a next state exactly when some rank has not been listed up to it. -/
theorem Refines.offers_iff (refines : Refines step inv n content left) {offers : π → Prop}
    (honest : ∀ s p next, step s = some (p, next) → (offers p ↔ next.isSome))
    {s : σ} {ps : List π} (walk : Walk step s ps) (start : inv s) (i : Nat) (hi : i < ps.length) :
    offers ps[i] ↔ ∃ x ∈ left s, x ∉ (ps.take (i + 1)).flatMap content := by
  have left_iff : ∀ s p next x, inv s → step s = some (p, next) →
      (x ∈ restOf n (left s) ↔ x ∈ left s ∧ x ∉ content p) := by
    intro s p next x keeps answer
    rw [refines.content_eq _ _ _ keeps answer, restOf, Finset.mem_sdiff, List.mem_toFinset]
  induction walk generalizing i with
  | @last s p answer =>
    have nothing := refines.last _ _ start answer
    have none_left : ∀ x ∈ left s, x ∈ content p := fun x hx => by
      by_contra unlisted
      simpa [nothing] using (left_iff _ _ _ x start answer).mpr ⟨hx, unlisted⟩
    obtain rfl : i = 0 := by simpa using hi
    simpa [honest _ _ _ answer] using none_left
  | more answer walk ih =>
    obtain ⟨keeps, rest, nonempty⟩ := refines.next _ _ _ start answer
    cases i with
    | zero =>
      obtain ⟨x, hx⟩ := nonempty
      rw [rest, left_iff _ _ _ x start answer] at hx
      simpa [honest _ _ _ answer] using ⟨x, hx⟩
    | succ i =>
      have := ih keeps i (by simpa using hi)
      simp only [List.getElem_cons_succ, this, rest, left_iff _ _ _ _ start answer,
        List.take_succ_cons, List.flatMap_cons, List.mem_append, not_or, and_assoc]

end Refinement

end Reference

end OrderedPaging
