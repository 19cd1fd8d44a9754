import StacProxy.CollectionScope
import Mathlib.Data.Rat.Floor

/-!
# Tightening a policy

The constraints a policy returns are decoded from its raw result, where an empty list and a
missing one, and a zero and a missing number, come out the same. Two raw results of which the
second is stricter are compared on one search request.
-/

namespace PolicyTightening

open JsonValue SearchRequest Cql2Eval Geofence PolicyFilter AuthzMiddleware CollectionScope

section Parsing

/-- The strings of a list; other elements are skipped. -/
def strings : Json → List String
  | .arr elems => elems.filterMap Json.asString?
  | _ => []

/-- What the platform makes of a number that an int cannot hold: all large numbers become the
same value, which is not positive or the largest one. -/
structure Overflow where
  convert : ℚ → Int
  large : ∀ q, 2 ^ 63 ≤ q → convert q = convert (2 ^ 63)
  extreme : convert (2 ^ 63) ≤ 0 ∨ 2 ^ 63 - 1 ≤ convert (2 ^ 63)

/-- Conversion to int drops the fraction. -/
def truncate (q : ℚ) : Int := if 0 ≤ q then ⌊q⌋ else ⌈q⌉

def toInt (overflow : Overflow) : Json → Int
  | .num q => if -2 ^ 63 ≤ q ∧ q < 2 ^ 63 then truncate q else overflow.convert q
  | _ => 0

def parseGeofence : Json → Option Constraint
  | .obj geofence => some {
      allowedArea := member geofence "allowed_area"
      deniedArea := member geofence "denied_area"
      filterMode := match member geofence "filter_mode" with
        | .bool fm => fm
        | _ => false
      geometryProperty := (member geofence "geometry_property").asString?.getD "" }
  | _ => none

def parseRequiredFilters : Json → Std.ExtTreeMap String Json
  | .obj rf => rf.foldr (fun entry filters => filters.insert entry.1 entry.2) ∅
  | _ => ∅

def parseOPAConstraints (overflow : Overflow) (raw : Members) : AuthzConstraints where
  allowedCollections := strings (member raw "allowed_collections")
  deniedCollections := strings (member raw "denied_collections")
  maxResults := toInt overflow (member raw "max_results")
  geofence := parseGeofence (member raw "geofence")
  cql2Filter := (member raw "cql2_filter").asString?.getD ""
  cql2FilterJSON := member raw "cql2_filter_json"
  requiredFilters := parseRequiredFilters (member raw "required_filters")

end Parsing

section Comparison

/-- The second raw result is the first one made stricter, in any of its three limits. What
else it holds makes no difference here. -/
structure Tightens (first second : Members) : Prop where
  allowed : member second "allowed_collections" = member first "allowed_collections" ∨
    ∃ wide narrow, member first "allowed_collections" = .arr wide ∧
      member second "allowed_collections" = .arr narrow ∧ narrow.Sublist wide
  denied : member second "denied_collections" = member first "denied_collections" ∨
    ∃ more, member second "denied_collections" = .arr more ∧
      (member first "denied_collections").asArray?.getD [] ⊆ more
  maxResults : member second "max_results" = member first "max_results" ∨
    ∃ less : ℚ, member second "max_results" = .num less ∧ 0 ≤ less ∧
      ∀ more, member first "max_results" = .num more → less < more

/-- The collections of the second are among those of the first. No collections are all. -/
def Within (second first : List String) : Prop :=
  first = [] ∨ second ≠ [] ∧ second ⊆ first

/-- The second limit is at most the first. A limit that is not positive is none. -/
def AtMost (second first : Int) : Prop :=
  first ≤ 0 ∨ 0 < second ∧ second ≤ first

instance (second first : Int) : Decidable (AtMost second first) :=
  inferInstanceAs (Decidable (_ ∨ _))

/-- What the second policy accepts, the first accepts too and sends upstream no less. -/
def NeverWidens (first second : AuthzConstraints) (sr : Request) : Prop :=
  ∀ sent after, applyConstraints sr second = some (sent, after) →
    ∃ wide limited, applyConstraints sr first = some (wide, limited) ∧
      Within sent.collections wide.collections ∧ AtMost sent.limit wide.limit

/-- The raw result leaves nothing of the request. -/
def Rejects (raw : Members) (sr : Request) : Prop :=
  let allowed := strings (member raw "allowed_collections")
  let asked := if sr.collections = [] then allowed else sr.collections
  asked ≠ [] ∧ ∀ name ∈ asked,
    (allowed ≠ [] ∧ name ∉ allowed) ∨ name ∈ strings (member raw "denied_collections")

/-- The stricter allow list names a collection, or the other one names none either, or the
request itself stays inside. -/
def KeepsScope (first second : Members) (sr : Request) : Prop :=
  strings (member first "allowed_collections") = [] ∨
  strings (member second "allowed_collections") ≠ [] ∨
  sr.collections ≠ [] ∧ ∀ name ∈ sr.collections,
    name ∉ strings (member second "denied_collections") →
      name ∈ strings (member first "allowed_collections")

/-- The stricter maximum is still positive, or the other one is not either, or the request
itself asks for no more. -/
def KeepsLimit (overflow : Overflow) (first second : Members) (sr : Request) : Prop :=
  toInt overflow (member first "max_results") ≤ 0 ∨
  0 < toInt overflow (member second "max_results") ∨
  0 < sr.limit ∧ sr.limit ≤ toInt overflow (member first "max_results")

end Comparison

section Order
variable {overflow : Overflow} {first second : Members}

theorem strings_subset {elems more : List Json} (within : elems ⊆ more) :
    elems.filterMap Json.asString? ⊆ more.filterMap Json.asString? := by
  intro name found
  obtain ⟨elem, listed, reads⟩ := List.mem_filterMap.mp found
  exact List.mem_filterMap.mpr ⟨elem, within listed, reads⟩

theorem Tightens.allowed_subset (tightens : Tightens first second) :
    strings (member second "allowed_collections") ⊆ strings (member first "allowed_collections") := by
  rcases tightens.allowed with same | ⟨wide, narrow, first_eq, second_eq, sublist⟩
  · rw [same]
    exact List.Subset.refl _
  · rw [first_eq, second_eq]
    exact strings_subset sublist.subset

theorem Tightens.denied_subset (tightens : Tightens first second) :
    strings (member first "denied_collections") ⊆ strings (member second "denied_collections") := by
  rcases tightens.denied with same | ⟨more, second_eq, within⟩
  · rw [same]
    exact List.Subset.refl _
  · rw [second_eq]
    cases listed : member first "denied_collections" with
    | arr elems =>
      rw [listed] at within
      exact strings_subset within
    | _ => exact List.nil_subset _

theorem truncate_mono {less more : ℚ} (nonneg : 0 ≤ less) (lt : less < more) :
    truncate less ≤ truncate more := by
  rw [truncate, truncate, if_pos nonneg, if_pos (nonneg.trans lt.le)]
  exact Int.floor_mono lt.le

theorem truncate_lt {q : ℚ} (nonneg : 0 ≤ q) (small : q < 2 ^ 63) : truncate q ≤ 2 ^ 63 - 1 := by
  have bounded : ⌊q⌋ < 2 ^ 63 := Int.floor_lt.mpr (by exact_mod_cast small)
  rw [truncate, if_pos nonneg]
  omega

/-- The stricter maximum is not above the other one, if there is one. -/
theorem Tightens.maxResults_le (tightens : Tightens first second) :
    toInt overflow (member first "max_results") ≤ 0 ∨
      toInt overflow (member second "max_results") ≤
        toInt overflow (member first "max_results") := by
  rcases tightens.maxResults with same | ⟨less, second_eq, nonneg, smaller⟩
  · rw [same]
    exact .inr le_rfl
  · cases first_eq : member first "max_results" with
    | num more =>
      have lt := smaller more first_eq
      rw [second_eq]
      have low : (-2 ^ 63 : ℚ) ≤ less := le_trans (by norm_num) nonneg
      have low' : (-2 ^ 63 : ℚ) ≤ more := low.trans lt.le
      simp only [toInt, low, low', true_and]
      by_cases big : more < 2 ^ 63
      · simp only [big, lt.trans big, if_true]
        exact .inr (truncate_mono nonneg lt)
      · simp only [big, if_false, overflow.large more (not_lt.mp big)]
        rcases overflow.extreme with none_left | most
        · exact .inl none_left
        · right
          split
          · rename_i fits
            exact (truncate_lt nonneg fits).trans most
          · rename_i large
            rw [overflow.large less (not_lt.mp large)]
    | _ => exact .inl le_rfl

theorem atMost_clamp_iff {first second limit : Int}
    (ordered : first ≤ 0 ∨ second ≤ first) :
    AtMost (clampLimit second limit) (clampLimit first limit) ↔
      first ≤ 0 ∨ 0 < second ∨ 0 < limit ∧ limit ≤ first := by
  unfold AtMost clampLimit
  split <;> split <;> omega

end Order

section Requests
variable {overflow : Overflow} {first second : Members} {sr : Request}

theorem rejects_iff : Rejects second sr ↔
    applyConstraints sr (parseOPAConstraints overflow second) = none := by
  rw [applyConstraints_eq]
  simp only [ne_eq, List.filter_eq_nil_iff, permits, parseOPAConstraints, candidates, Rejects,
    decide_eq_true_eq, ite_eq_left_iff, reduceCtorEq, imp_false, not_not]
  refine and_congr_right fun _ => forall₂_congr fun name _ => ?_
  tauto

/-- A policy that permits what another one accepts, of a request for as much, accepts it. -/
theorem accepts_of_subset {c d : AuthzConstraints} {sent : Request} {after : AuthzConstraints}
    (ok : applyConstraints sr d = some (sent, after))
    (asked : candidates d sr = [] → candidates c sr = [])
    (within : sent.collections ⊆ (candidates c sr).filter (permits c)) :
    ∃ wide limited, applyConstraints sr c = some (wide, limited) ∧
      Within sent.collections wide.collections ∧
      wide.limit = clampLimit c.maxResults sr.limit := by
  obtain ⟨-, -, nonempty⟩ := applyConstraints_of_accepted ok
  by_cases unasked : candidates d sr = []
  · have none_asked := asked unasked
    rw [applyConstraints_eq, if_neg (by simp [none_asked])]
    exact ⟨_, _, rfl, .inl (by simp [none_asked]), rfl⟩
  · obtain ⟨name, kept⟩ := List.exists_mem_of_ne_nil _ (nonempty unasked)
    have survives : (candidates c sr).filter (permits c) ≠ [] :=
      List.ne_nil_of_mem (within kept)
    rw [applyConstraints_eq, if_neg (fun both => survives both.2)]
    exact ⟨_, _, rfl, .inr ⟨nonempty unasked, within⟩, rfl⟩

theorem permits_parsed {raw : Members} {name : String} :
    permits (parseOPAConstraints overflow raw) name = true ↔
      (strings (member raw "allowed_collections") = [] ∨
        name ∈ strings (member raw "allowed_collections")) ∧
      name ∉ strings (member raw "denied_collections") := by
  exact decide_eq_true_iff

theorem candidates_parsed (raw : Members) :
    candidates (parseOPAConstraints overflow raw) sr =
      if sr.collections = [] then strings (member raw "allowed_collections")
      else sr.collections := rfl

/-- Where the scope is kept, the stricter policy asks for something if the other one does. -/
theorem candidates_of_keepsScope (kept : KeepsScope first second sr)
    (unasked : candidates (parseOPAConstraints overflow second) sr = []) :
    candidates (parseOPAConstraints overflow first) sr = [] := by
  rw [candidates_parsed] at unasked ⊢
  split at unasked
  · rename_i unnamed
    rw [if_pos unnamed]
    rcases kept with unrestricted | names | ⟨named, -⟩
    · exact unrestricted
    · exact absurd unasked names
    · exact absurd unnamed named
  · rename_i named
    exact absurd unasked named

/-- Where the scope is kept, a collection that passes the stricter policy passes the other. -/
theorem subset_of_keepsScope (tightens : Tightens first second)
    (kept : KeepsScope first second sr) :
    (candidates (parseOPAConstraints overflow second) sr).filter
        (permits (parseOPAConstraints overflow second)) ⊆
      (candidates (parseOPAConstraints overflow first) sr).filter
        (permits (parseOPAConstraints overflow first)) := by
  have narrower := tightens.allowed_subset
  have undenied : ∀ {name}, name ∉ strings (member second "denied_collections") →
      name ∉ strings (member first "denied_collections") :=
    fun free denied => free (tightens.denied_subset denied)
  rw [candidates_parsed, candidates_parsed]
  intro name passes
  obtain ⟨asked, permitted⟩ := List.mem_filter.mp passes
  obtain ⟨listed, free⟩ := permits_parsed.mp permitted
  rw [List.mem_filter, permits_parsed]
  split at asked
  · rename_i unnamed
    rw [if_pos unnamed]
    exact ⟨narrower asked, .inr (narrower asked), undenied free⟩
  · rename_i named
    rw [if_neg named]
    refine ⟨asked, ?_, undenied free⟩
    rcases kept with unrestricted | names | ⟨-, inside⟩
    · exact .inl unrestricted
    · rcases listed with none_listed | listed
      · exact absurd none_listed names
      · exact .inr (narrower listed)
    · exact .inr (inside name asked free)

/-- Conversely an answer within the first policy's shows that the scope was kept. -/
theorem keepsScope_of_within {sent wide : Request} {after limited : AuthzConstraints}
    (ok : applyConstraints sr (parseOPAConstraints overflow second) = some (sent, after))
    (wide_ok : applyConstraints sr (parseOPAConstraints overflow first) = some (wide, limited))
    (within : Within sent.collections wide.collections) : KeepsScope first second sr := by
  by_cases unrestricted : strings (member first "allowed_collections") = []
  · exact .inl unrestricted
  by_cases names : strings (member second "allowed_collections") = []
  · obtain ⟨sent_eq, -, -⟩ := applyConstraints_of_accepted ok
    obtain ⟨wide_eq, -, wide_nonempty⟩ := applyConstraints_of_accepted wide_ok
    rw [candidates_parsed] at sent_eq wide_eq wide_nonempty
    have asked : (if sr.collections = [] then strings (member first "allowed_collections")
        else sr.collections) ≠ [] := by
      split
      · exact unrestricted
      · assumption
    rcases within with all | ⟨nonempty, subset⟩
    · exact absurd all (wide_nonempty asked)
    have named : sr.collections ≠ [] := by
      intro unnamed
      simp [sent_eq, unnamed, names] at nonempty
    refine .inr (.inr ⟨named, fun name requested free => ?_⟩)
    have sent_name : name ∈ sent.collections := by
      rw [sent_eq, if_neg named, List.mem_filter, permits_parsed]
      exact ⟨requested, .inl names, free⟩
    have passes := subset sent_name
    rw [wide_eq, List.mem_filter, permits_parsed] at passes
    exact passes.2.1.resolve_left unrestricted
  · exact .inr (.inl names)

/-- A tightened policy widens nothing exactly if it rejects the request, or both its allow
list and its maximum still say something where the other ones did. -/
theorem neverWidens_iff (tightens : Tightens first second) :
    NeverWidens (parseOPAConstraints overflow first) (parseOPAConstraints overflow second) sr ↔
      Rejects second sr ∨
        KeepsScope first second sr ∧ KeepsLimit overflow first second sr := by
  have limits : AtMost (clampLimit (parseOPAConstraints overflow second).maxResults sr.limit)
      (clampLimit (parseOPAConstraints overflow first).maxResults sr.limit) ↔
        KeepsLimit overflow first second sr := atMost_clamp_iff tightens.maxResults_le
  constructor
  · intro never
    cases accepted : applyConstraints sr (parseOPAConstraints overflow second) with
    | none => exact .inl (rejects_iff.mpr accepted)
    | some result =>
      obtain ⟨sent, after⟩ := result
      obtain ⟨wide, limited, wide_ok, within, at_most⟩ := never sent after accepted
      rw [(applyConstraints_of_accepted accepted).2.1, (applyConstraints_of_accepted wide_ok).2.1,
        limits] at at_most
      exact .inr ⟨keepsScope_of_within accepted wide_ok within, at_most⟩
  · rintro (rejected | ⟨kept, limited⟩) sent after accepted
    · rw [rejects_iff.mp rejected] at accepted
      cases accepted
    · obtain ⟨sent_eq, limit_eq, -⟩ := applyConstraints_of_accepted accepted
      obtain ⟨wide, after, wide_ok, within, wide_limit⟩ := accepts_of_subset accepted
        (candidates_of_keepsScope kept) (sent_eq ▸ subset_of_keepsScope tightens kept)
      refine ⟨wide, after, wide_ok, within, ?_⟩
      rw [limit_eq, wide_limit]
      exact limits.mpr limited

end Requests

section Sample

/-- As on amd64. -/
def minInt : Overflow where
  convert _ := -2 ^ 63
  large _ _ := rfl
  extreme := .inl (by decide)

def policyOf (allowed : List String) (maxResults : ℚ) : Members :=
  [("allowed_collections", .arr (allowed.map .str)), ("max_results", .num maxResults)]

theorem policyOf_tightens {wide narrow : List String} (sublist : narrow.Sublist wide) {less more : ℚ}
    (nonneg : 0 ≤ less) (lt : less < more) :
    Tightens (policyOf wide more) (policyOf narrow less) where
  allowed := .inr ⟨_, _, rfl, rfl, sublist.map _⟩
  denied := .inl rfl
  maxResults := .inr ⟨less, rfl, nonneg, by
    rintro _ ⟨⟩
    exact lt⟩

/-- A shorter allow list and a smaller maximum, both still there, narrow a search. -/
theorem shorter_list_narrows :
    NeverWidens (parseOPAConstraints minInt (policyOf ["a", "b"] 100))
      (parseOPAConstraints minInt (policyOf ["a"] 10)) {} :=
  (neverWidens_iff (policyOf_tightens (by simp) (by norm_num) (by norm_num))).mpr
    (.inr ⟨.inr (.inl (by decide)), .inr (.inl (by decide +kernel))⟩)

/-- An empty allow list opens all collections, and a maximum of zero lifts the limit. -/
theorem empty_limits_widen :
    (Tightens (policyOf ["a"] 100) (policyOf [] 10) ∧
      ¬ NeverWidens (parseOPAConstraints minInt (policyOf ["a"] 100))
        (parseOPAConstraints minInt (policyOf [] 10)) { collections := ["b"] }) ∧
    Tightens (policyOf ["a"] 100) (policyOf ["a"] 0) ∧
      ¬ NeverWidens (parseOPAConstraints minInt (policyOf ["a"] 100))
        (parseOPAConstraints minInt (policyOf ["a"] 0)) { limit := 1000 } := by
  refine ⟨⟨policyOf_tightens (by simp) (by norm_num) (by norm_num), fun never => ?_⟩,
    policyOf_tightens (by simp) (by norm_num) (by norm_num), fun never => ?_⟩
  · obtain ⟨wide, limited, accepted, -⟩ := never _ _ rfl
    cases accepted
  · obtain ⟨wide, limited, accepted, -, at_most⟩ := never _ _ rfl
    cases accepted
    exact absurd at_most (by decide +kernel)

end Sample

end PolicyTightening
