import Mathlib.Data.List.Nodup

/-!
# Keeping the first element of every key

Deduplication with a set of keys already seen. Mathlib's `List.dedup` keeps the
last occurrence and compares whole elements, so it does not describe loops that
keep the first element of a key.
-/

namespace KeepFirst

universe u v
variable {α : Type u} {κ : Type v} [DecidableEq κ]

/-- Skip every element whose key was seen before. -/
def keepFirst (key : α → κ) : List κ → List α → List α
  | _, [] => []
  | seen, a :: rest =>
    if key a ∈ seen then keepFirst key seen rest
    else a :: keepFirst key (key a :: seen) rest

variable (key : α → κ)

theorem keepFirst_sublist (seen : List κ) (l : List α) :
    (keepFirst key seen l).Sublist l := by
  induction l generalizing seen with
  | nil => exact List.Sublist.slnil
  | cons a rest ih =>
    rw [keepFirst]
    split
    · exact (ih seen).cons a
    · exact (ih (key a :: seen)).cons_cons a

theorem mem_of_mem_keepFirst {seen : List κ} {l : List α} {a : α}
    (kept : a ∈ keepFirst key seen l) : a ∈ l :=
  (keepFirst_sublist key seen l).subset kept

theorem key_notMem_seen {seen : List κ} {l : List α} {a : α}
    (kept : a ∈ keepFirst key seen l) : key a ∉ seen := by
  induction l generalizing seen with
  | nil => simp [keepFirst] at kept
  | cons b rest ih =>
    rw [keepFirst] at kept
    split at kept
    · exact ih kept
    · rename_i fresh
      rcases List.mem_cons.mp kept with rfl | kept
      · exact fresh
      · exact fun old => ih kept (List.mem_cons_of_mem _ old)

/-- No two kept elements share a key. -/
theorem keepFirst_pairwise (seen : List κ) (l : List α) :
    (keepFirst key seen l).Pairwise (fun a b => key a ≠ key b) := by
  induction l generalizing seen with
  | nil => exact List.Pairwise.nil
  | cons a rest ih =>
    rw [keepFirst]
    split
    · exact ih seen
    · refine List.pairwise_cons.mpr ⟨fun b kept same => ?_, ih _⟩
      exact key_notMem_seen key kept (same ▸ List.mem_cons_self)

theorem keys_nodup (seen : List κ) (l : List α) :
    ((keepFirst key seen l).map key).Nodup :=
  List.pairwise_map.mpr (keepFirst_pairwise key seen l)

/-- Two kept elements with one key are the same element. -/
theorem eq_of_key_eq {seen : List κ} {l : List α} {a b : α}
    (ha : a ∈ keepFirst key seen l) (hb : b ∈ keepFirst key seen l)
    (same : key a = key b) : a = b :=
  List.inj_on_of_nodup_map (keys_nodup key seen l) ha hb same

/-- Every key is represented by its first element. -/
theorem exists_kept (seen : List κ) {l : List α} {a : α} (ha : a ∈ l)
    (fresh : key a ∉ seen) :
    ∃ pre b post, l = pre ++ b :: post ∧ key b = key a ∧
      (∀ c ∈ pre, key c ≠ key a) ∧ b ∈ keepFirst key seen l := by
  induction l generalizing seen with
  | nil => cases ha
  | cons c rest ih =>
    by_cases same : key c = key a
    · refine ⟨[], c, rest, rfl, same, by simp, ?_⟩
      rw [keepFirst, if_neg (same ▸ fresh)]
      exact List.mem_cons_self
    · have hrest : a ∈ rest := by
        rcases List.mem_cons.mp ha with rfl | h
        · exact absurd rfl same
        · exact h
      rw [keepFirst]
      split
      · obtain ⟨pre, b, post, split, hb, before, kept⟩ := ih seen hrest fresh
        exact ⟨c :: pre, b, post, by rw [split, List.cons_append], hb,
          List.forall_mem_cons.mpr ⟨same, before⟩, kept⟩
      · obtain ⟨pre, b, post, split, hb, before, kept⟩ :=
          ih (key c :: seen) hrest
            (fun old => (List.mem_cons.mp old).elim (fun e => same e.symm) fresh)
        exact ⟨c :: pre, b, post, by rw [split, List.cons_append], hb,
          List.forall_mem_cons.mpr ⟨same, before⟩, List.mem_cons_of_mem _ kept⟩

theorem exists_key_eq {l : List α} {a : α} (ha : a ∈ l) :
    ∃ b ∈ keepFirst key [] l, key b = key a := by
  obtain ⟨_, b, _, _, hb, _, kept⟩ := exists_kept key [] ha List.not_mem_nil
  exact ⟨b, kept, hb⟩

/-- Keys that tell the same elements apart keep the same ones. -/
theorem keepFirst_congr {κ' : Type*} [DecidableEq κ'] {key' : α → κ'} {l : List α}
    (same : ∀ a ∈ l, ∀ b ∈ l, key a = key b ↔ key' a = key' b) :
    keepFirst key [] l = keepFirst key' [] l := by
  -- Generalised to the keys of any elements that were seen before.
  suffices main : ∀ (seen rest : List α), (∀ a ∈ seen ++ rest, ∀ b ∈ seen ++ rest,
      key a = key b ↔ key' a = key' b) →
      keepFirst key (seen.map key) rest = keepFirst key' (seen.map key') rest from
    main [] l (by simpa using same)
  intro seen rest
  induction rest generalizing seen with
  | nil => intro _; rfl
  | cons a rest ih =>
    intro agree
    have again : key a ∈ seen.map key ↔ key' a ∈ seen.map key' := by
      simp only [List.mem_map]
      refine exists_congr fun b => and_congr_right fun old => ?_
      exact agree b (by simp [old]) a (by simp)
    rw [keepFirst, keepFirst]
    by_cases old : key a ∈ seen.map key
    · rw [if_pos old, if_pos (again.mp old)]
      exact ih seen fun b hb c hc => agree b (by simp at hb ⊢; tauto) c (by simp at hc ⊢; tauto)
    · rw [if_neg old, if_neg (mt again.mpr old)]
      have later := ih (a :: seen) fun b hb c hc =>
        agree b (by simp at hb ⊢; tauto) c (by simp at hc ⊢; tauto)
      rw [List.map_cons, List.map_cons] at later
      rw [later]

/-- What is kept is the first element of its key. -/
theorem find?_of_mem_keepFirst {l : List α} {a : α} (kept : a ∈ keepFirst key [] l) :
    l.find? (key · = key a) = some a := by
  obtain ⟨pre, b, post, split, same, before, first⟩ :=
    exists_kept key [] (mem_of_mem_keepFirst key kept) List.not_mem_nil
  obtain rfl := eq_of_key_eq key first kept same
  rw [split, List.find?_append, List.find?_eq_none.mpr (by simpa using before)]
  simp

theorem mem_keepFirst_iff {l : List α} {a : α} :
    a ∈ keepFirst key [] l ↔ l.find? (key · = key a) = some a := by
  refine ⟨find?_of_mem_keepFirst key, fun found => ?_⟩
  obtain ⟨b, kept, same⟩ := exists_key_eq key (List.mem_of_find?_eq_some found)
  have first := find?_of_mem_keepFirst key kept
  rw [same, found] at first
  exact Option.some.inj first ▸ kept

theorem find?_keepFirst (l : List α) (k : κ) :
    (keepFirst key [] l).find? (key · = k) = l.find? (key · = k) := by
  ext a
  constructor
  · intro found
    have here : key a = k := by simpa using List.find?_some found
    rw [← here]
    exact find?_of_mem_keepFirst key (List.mem_of_find?_eq_some found)
  · intro found
    have here : key a = k := by simpa using List.find?_some found
    have kept : a ∈ keepFirst key [] l := by
      rw [mem_keepFirst_iff, here]
      exact found
    cases first : (keepFirst key [] l).find? (key · = k) with
    | none =>
      have other := List.find?_eq_none.mp first a kept
      simp [here] at other
    | some b =>
      have there : key b = k := by simpa using List.find?_some first
      rw [eq_of_key_eq key (List.mem_of_find?_eq_some first) kept (there.trans here.symm)]

/-- The first element of a key comes from the first block that has the key. -/
theorem exists_block_of_mem_keepFirst {β : Type*} {blocks : List β} {elems : β → List α} {a : α}
    (kept : a ∈ keepFirst key [] (blocks.flatMap elems)) :
    ∃ pre b post, blocks = pre ++ b :: post ∧ a ∈ elems b ∧
      ∀ c ∈ pre, ∀ x ∈ elems c, key x ≠ key a := by
  have found := find?_of_mem_keepFirst key kept
  rw [List.find?_flatMap, List.findSome?_eq_some_iff] at found
  obtain ⟨pre, b, post, split, here, before⟩ := found
  refine ⟨pre, b, post, split, List.mem_of_find?_eq_some here, fun c earlier x member => ?_⟩
  simpa using List.find?_eq_none.mp (before c earlier) x member

end KeepFirst
