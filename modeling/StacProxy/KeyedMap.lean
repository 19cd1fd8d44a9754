import Mathlib.Data.List.Nodup
import Mathlib.Data.String.Basic

/-!
# Maps collected from a list

A loop that files every element of a list under its key. Where a key repeats, the last
element stays.
-/

namespace KeyedMap

universe u v w
variable {α : Type u} {κ : Type v} {β : Type w} {cmp : κ → κ → Ordering} [Std.TransCmp cmp]
variable [Std.LawfulEqCmp cmp] [DecidableEq κ] {key : α → κ} {value : α → β} {listed : List α}

theorem getElem?_foldl_insert (m : Std.ExtTreeMap κ β cmp) (k : κ) :
    (listed.foldl (fun m a => m.insert (key a) (value a)) m)[k]? =
      ((listed.reverse.find? (key · = k)).map value).or m[k]? := by
  induction listed generalizing m with
  | nil => simp
  | cons first rest ih =>
    rw [List.foldl_cons, ih, List.reverse_cons, List.find?_append, Std.ExtTreeMap.getElem?_insert]
    cases rest.reverse.find? (key · = k) with
    | some later => simp
    | none => by_cases here : key first = k <;> simp [here]

/-- Where elements with one key have one value, each of them is filed. -/
theorem getElem?_eq_some_iff
    (consistent : ∀ a ∈ listed, ∀ b ∈ listed, key a = key b → value a = value b) {k : κ} {v : β} :
    (listed.foldl (fun m a => m.insert (key a) (value a)) (∅ : Std.ExtTreeMap κ β cmp))[k]? =
      some v ↔ ∃ a ∈ listed, key a = k ∧ value a = v := by
  rw [getElem?_foldl_insert, Std.ExtTreeMap.getElem?_empty, Option.or_none, Option.map_eq_some_iff]
  constructor
  · rintro ⟨a, found, filed⟩
    have here : key a = k := by simpa using List.find?_some found
    exact ⟨a, List.mem_reverse.mp (List.mem_of_find?_eq_some found), here, filed⟩
  · rintro ⟨a, member, rfl, rfl⟩
    cases found : listed.reverse.find? (key · = key a) with
    | none =>
      have other := List.find?_eq_none.mp found a (List.mem_reverse.mpr member)
      simp at other
    | some last =>
      have here : key last = key a := by simpa using List.find?_some found
      have old := List.mem_reverse.mp (List.mem_of_find?_eq_some found)
      exact ⟨last, rfl, consistent last old a member here⟩

theorem mem_foldl_insert {k : κ} :
    k ∈ listed.foldl (fun m a => m.insert (key a) (value a)) (∅ : Std.ExtTreeMap κ β cmp) ↔
      ∃ a ∈ listed, key a = k := by
  rw [Std.ExtTreeMap.mem_iff_isSome_getElem?, getElem?_foldl_insert, Std.ExtTreeMap.getElem?_empty,
    Option.or_none, Option.isSome_map, List.find?_isSome]
  simp

/-- The keys of a map with texts as keys are listed in ascending order. -/
theorem keys_sorted (m : Std.ExtTreeMap String β) : m.keys.Pairwise (· < ·) :=
  Std.ExtTreeMap.ordered_keys.imp compare_lt_iff_lt.mp

end KeyedMap
