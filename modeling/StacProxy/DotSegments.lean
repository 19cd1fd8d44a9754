import Mathlib.Data.List.Basic

/-!
# Paths with dot segments

A path that is empty or starts with its separator is a list of segments, each behind a
separator. Removing dot segments is done on that list. Whether the result lies under a base
can be told by counting along the path.
-/

namespace DotSegments

variable {α : Type} [DecidableEq α] (sep dot : α)

section Paths

/-- The segments of a path that is empty or starts with the separator. -/
def segmentsOf : List α → List (List α)
  | [] => []
  | _ :: rest => rest.splitOn sep

omit [DecidableEq α] in
def pathOf (segments : List (List α)) : List α := segments.flatMap (sep :: ·)

/-- The same path, or one that goes on at a separator. -/
def Under (base path : List α) : Prop := path = base ∨ base ++ [sep] <+: path

instance (base path : List α) : Decidable (Under sep base path) :=
  inferInstanceAs (Decidable (_ ∨ _))

/-- Section 5.2.4 of RFC 3986, for such paths. A dot segment at the end leaves a separator. -/
def removeDots (out : List (List α)) : List (List α) → List (List α)
  | [] => out
  | segment :: rest =>
    if segment = [dot] then
      if rest = [] then out ++ [[]] else removeDots out rest
    else if segment = [dot, dot] then
      if rest = [] then out.dropLast ++ [[]] else removeDots out.dropLast rest
    else removeDots (out ++ [segment]) rest

def removeDotSegments (path : List α) : List α :=
  pathOf sep (removeDots dot [] (segmentsOf sep path))

end Paths

section Walking

/-- How many segments of the base a walk is in, and how many segments it is away from there. -/
structure Position where
  inside : Nat := 0
  beyond : Nat := 0
  deriving DecidableEq, Repr

def Position.enter (base : List (List α)) (pos : Position) (segment : List α) : Position :=
  if pos.beyond = 0 ∧ base[pos.inside]? = some segment then ⟨pos.inside + 1, 0⟩
  else ⟨pos.inside, pos.beyond + 1⟩

def Position.leave (pos : Position) : Position :=
  if pos.beyond = 0 then ⟨pos.inside - 1, 0⟩ else ⟨pos.inside, pos.beyond - 1⟩

/-- The position after a path: names enter, two dots leave, one dot stays. -/
def walk (base : List (List α)) (pos : Position) : List (List α) → Position
  | [] => pos
  | segment :: rest =>
    if segment = [dot] then if rest = [] then pos.enter base [] else walk base pos rest
    else if segment = [dot, dot] then
      if rest = [] then pos.leave.enter base [] else walk base pos.leave rest
    else walk base (pos.enter base segment) rest

/-- The walk along a path ends in the base. -/
def EndsInside (base path : List α) : Prop :=
  (walk dot (segmentsOf sep base) {} (segmentsOf sep path)).inside = (segmentsOf sep base).length

instance (base path : List α) : Decidable (EndsInside sep dot base path) :=
  inferInstanceAs (Decidable (_ = _))

end Walking

section Splitting
variable {sep}

theorem sep_notMem_of_mem_splitOn {text part : List α} (member : part ∈ text.splitOn sep) :
    sep ∉ part := by
  induction text generalizing part with
  | nil =>
    obtain rfl : part = [] := by simpa using member
    simp
  | cons a rest ih =>
    rw [List.splitOn_cons_eq_if_modifyHead] at member
    split at member
    · rcases List.mem_cons.mp member with rfl | later
      · simp
      · exact ih later
    · rename_i other
      cases split : rest.splitOn sep with
      | nil => exact absurd split (List.splitOn_ne_nil _ _)
      | cons first others =>
        rw [split, List.modifyHead_cons] at member
        rcases List.mem_cons.mp member with rfl | later
        · have flat : sep ∉ first := ih (by simp [split])
          have distinct : sep ≠ a := fun same => other (by simp [same])
          simp [flat, distinct]
        · exact ih (by simp [split, later])

theorem sep_notMem_segment {path segment : List α} (member : segment ∈ segmentsOf sep path) :
    sep ∉ segment := by
  cases path with
  | nil => cases member
  | cons a rest => exact sep_notMem_of_mem_splitOn member

/-- A rooted path is made of its segments. -/
theorem pathOf_segmentsOf {path : List α} (rooted : path = [] ∨ path.head? = some sep) :
    pathOf sep (segmentsOf sep path) = path := by
  cases path with
  | nil => rfl
  | cons a rest =>
    obtain rfl : a = sep := by simpa using rooted
    have joined : ∀ first others, pathOf a (first :: others) =
        a :: [a].intercalate (first :: others) := by
      intro first others
      induction others generalizing first with
      | nil => simp [pathOf]
      | cons next more ih =>
        have tail := ih next
        simp only [pathOf, List.flatMap_cons] at tail ⊢
        rw [tail]
        simp
    cases split : segmentsOf a (a :: rest) with
    | nil => exact absurd split (List.splitOn_ne_nil _ _)
    | cons first others =>
      rw [joined, ← split, segmentsOf, List.intercalate_splitOn]

end Splitting

section Prefixes
variable {sep}

omit [DecidableEq α] in
/-- What is before the first separator is determined. -/
theorem append_unique {left right back behind : List α} (flat_left : sep ∉ left)
    (flat_right : sep ∉ right) (ends_back : back = [] ∨ back.head? = some sep)
    (ends_behind : behind = [] ∨ behind.head? = some sep) (same : left ++ back = right ++ behind) :
    left = right ∧ back = behind := by
  rcases List.append_eq_append_iff.mp same with ⟨more, rfl, rfl⟩ | ⟨more, rfl, rfl⟩
  · cases more with
    | nil => simp
    | cons a rest =>
      obtain rfl : a = sep := by simpa using ends_back
      simp at flat_right
  · cases more with
    | nil => simp
    | cons a rest =>
      obtain rfl : a = sep := by simpa using ends_behind
      simp at flat_left

omit [DecidableEq α] in
theorem pathOf_ends (segments : List (List α)) :
    pathOf sep segments = [] ∨ (pathOf sep segments).head? = some sep := by
  cases segments <;> simp [pathOf]

omit [DecidableEq α] in
/-- One path is under another exactly if its segments begin with the other's. -/
theorem under_pathOf_iff {base path : List (List α)} (flat_base : ∀ s ∈ base, sep ∉ s)
    (flat_path : ∀ s ∈ path, sep ∉ s) :
    Under sep (pathOf sep base) (pathOf sep path) ↔ base <+: path := by
  induction base generalizing path with
  | nil =>
    cases path with
    | nil => simp [Under, pathOf]
    | cons first others =>
      simp only [Under, pathOf, List.nil_prefix, iff_true]
      exact .inr ⟨first ++ others.flatMap (sep :: ·), by simp⟩
  | cons name rest ih =>
    rw [List.forall_mem_cons] at flat_base
    cases path with
    | nil => simp [Under, pathOf]
    | cons first others =>
      rw [List.forall_mem_cons] at flat_path
      have unfolded : ∀ segment segments, pathOf sep (segment :: segments) =
          sep :: (segment ++ pathOf sep segments) := by simp [pathOf]
      rw [List.cons_prefix_cons, ← ih flat_base.2 flat_path.2]
      simp only [Under, unfolded, List.cons.injEq, true_and, List.cons_append, List.cons_prefix_cons]
      constructor
      · rintro (same | ⟨more, same⟩)
        · obtain ⟨names, tails⟩ := append_unique flat_path.1 flat_base.1 (pathOf_ends _)
            (pathOf_ends _) same
          exact ⟨names.symm, .inl tails⟩
        · have behind : pathOf sep rest ++ [sep] ++ more = [] ∨
              (pathOf sep rest ++ [sep] ++ more).head? = some sep := by
            rcases @pathOf_ends α sep rest with none_left | head
            · simp [none_left]
            · exact .inr (by simp [List.head?_append, head])
          rw [List.append_assoc name, List.append_assoc name] at same
          obtain ⟨names, tails⟩ := append_unique flat_base.1 flat_path.1 behind (pathOf_ends _) same
          exact ⟨names, .inr ⟨more, tails⟩⟩
      · rintro ⟨rfl, same | ⟨more, same⟩⟩
        · exact .inl (by rw [same])
        · exact .inr ⟨more, by rw [← same]; simp⟩

end Prefixes

section Positions
variable {dot} {base out : List (List α)} {pos : Position}

omit [DecidableEq α] in
/-- The output is the part of the base the walk is in, and then segments that leave it. -/
def At (base : List (List α)) (pos : Position) (out : List (List α)) : Prop :=
  ∃ tail, out = base.take pos.inside ++ tail ∧ pos.inside ≤ base.length ∧
    tail.length = pos.beyond ∧ ∀ segment, tail.head? = some segment →
      base[pos.inside]? ≠ some segment

theorem at_enter (here : At base pos out) (segment : List α) :
    At base (pos.enter base segment) (out ++ [segment]) := by
  obtain ⟨tail, rfl, bounded, long, departs⟩ := here
  unfold Position.enter
  split
  · rename_i next
    obtain rfl : tail = [] := List.length_eq_zero_iff.mp (long.trans next.1)
    have in_range : pos.inside < base.length := (List.getElem?_eq_some_iff.mp next.2).1
    refine ⟨[], ?_, in_range, rfl, by simp⟩
    simp [List.take_add_one, next.2]
  · rename_i other
    refine ⟨tail ++ [segment], by simp, bounded, by simp [long], ?_⟩
    intro first head
    cases tail with
    | nil =>
      obtain rfl : segment = first := by simpa using head
      intro next
      exact other ⟨long.symm, next⟩
    | cons a rest => exact departs first (by simpa using head)

omit [DecidableEq α] in
theorem at_leave (here : At base pos out) : At base pos.leave out.dropLast := by
  obtain ⟨tail, rfl, bounded, long, departs⟩ := here
  unfold Position.leave
  split
  · rename_i close
    obtain rfl : tail = [] := List.length_eq_zero_iff.mp (long.trans close)
    refine ⟨[], ?_, by dsimp only; omega, rfl, by simp⟩
    rw [List.append_nil, List.append_nil, List.dropLast_eq_take, List.take_take, List.length_take]
    congr 1
    dsimp only
    omega
  · rename_i away
    have nonempty : tail ≠ [] := by
      rintro rfl
      exact away long.symm
    refine ⟨tail.dropLast, by rw [List.dropLast_append_of_ne_nil nonempty], bounded,
      by simp [long], ?_⟩
    intro first head
    cases tail with
    | nil => exact absurd rfl nonempty
    | cons a rest =>
      cases rest with
      | nil => simp at head
      | cons b more => exact departs first (by simpa using head)

omit [DecidableEq α] in
theorem at_inside_iff (here : At base pos out) : base <+: out ↔ pos.inside = base.length := by
  obtain ⟨tail, rfl, bounded, -, departs⟩ := here
  constructor
  · intro under
    by_contra short
    have in_range : pos.inside < base.length := by omega
    have rest : base.drop pos.inside <+: tail := by
      nth_rewrite 1 [← List.take_append_drop pos.inside base] at under
      exact (List.prefix_append_right_inj _).mp under
    obtain ⟨more, rfl⟩ := rest
    rw [List.drop_eq_getElem_cons in_range] at departs
    exact departs base[pos.inside] rfl (List.getElem?_eq_getElem in_range)
  · intro whole
    rw [whole, List.take_length]
    exact List.prefix_append _ _

/-- Removing dots and walking go along together. -/
theorem at_walk (here : At base pos out) (segments : List (List α)) :
    At base (walk dot base pos segments) (removeDots dot out segments) := by
  induction segments generalizing pos out with
  | nil => exact here
  | cons segment rest ih =>
    unfold walk removeDots
    split
    · split
      · exact at_enter here []
      · exact ih here
    · split
      · split
        · exact at_enter (at_leave here) []
        · exact ih (at_leave here)
      · exact ih (at_enter here segment)

/-- Every segment of the result was there before, or is empty. -/
theorem forall_mem_removeDots {P : List α → Prop} {segments : List (List α)} (empty : P [])
    (before : ∀ segment ∈ out, P segment) (given : ∀ segment ∈ segments, P segment) :
    ∀ segment ∈ removeDots dot out segments, P segment := by
  induction segments generalizing out with
  | nil => exact before
  | cons first rest ih =>
    rw [List.forall_mem_cons] at given
    have shorter : ∀ segment ∈ out.dropLast, P segment := fun segment member =>
      before segment ((List.dropLast_sublist out).subset member)
    unfold removeDots
    split
    · split
      · exact List.forall_mem_append.mpr ⟨before, by simpa using empty⟩
      · exact ih before given.2
    · split
      · split
        · exact List.forall_mem_append.mpr ⟨shorter, by simpa using empty⟩
        · exact ih shorter given.2
      · exact ih (List.forall_mem_append.mpr ⟨before, by simpa using given.1⟩) given.2

end Positions

section Containment
variable {sep dot}

theorem removeDots_of_plain {segments : List (List α)}
    (plain : ∀ segment ∈ segments, segment ≠ [dot] ∧ segment ≠ [dot, dot])
    (out : List (List α)) : removeDots dot out segments = out ++ segments := by
  induction segments generalizing out with
  | nil => simp [removeDots]
  | cons segment rest ih =>
    rw [List.forall_mem_cons] at plain
    rw [removeDots, if_neg plain.1.1, if_neg plain.1.2, ih plain.2]
    simp

theorem removeDotSegments_of_plain {path : List α} (rooted : path = [] ∨ path.head? = some sep)
    (plain : ∀ segment ∈ segmentsOf sep path, segment ≠ [dot] ∧ segment ≠ [dot, dot]) :
    removeDotSegments sep dot path = path := by
  rw [removeDotSegments, removeDots_of_plain plain, List.nil_append, pathOf_segmentsOf rooted]

/-- A path without its dot segments is under the base exactly if the walk along it ends
inside. -/
theorem under_removeDotSegments_iff {base path : List α}
    (rooted : base = [] ∨ base.head? = some sep) :
    Under sep base (removeDotSegments sep dot path) ↔ EndsInside sep dot base path := by
  have flat : ∀ segment ∈ removeDots dot [] (segmentsOf sep path), sep ∉ segment :=
    forall_mem_removeDots (by simp) (by simp) fun segment => sep_notMem_segment
  have start : At (segmentsOf sep base) {} [] := ⟨[], by simp, by simp, rfl, by simp⟩
  have split := under_pathOf_iff (fun segment => @sep_notMem_segment α _ sep base segment) flat
  rw [pathOf_segmentsOf rooted] at split
  exact split.trans (at_inside_iff (at_walk start _))

end Containment

end DotSegments
