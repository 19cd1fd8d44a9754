import Mathlib.Data.List.Basic
import StacProxy.Geofence
import StacProxy.SearchRequest

/-!
# The filter a policy adds to a search

The constraints of an authorization decision become one CQL2 expression: the policy's own
filter, its required filters and the geofence, joined with the filter of the client.
Parsing and encoding CQL2 is a third-party library. Its parser is used on texts and on
marshalled JSON values, its JSON encoder with the result decoded again.
-/

namespace PolicyFilter

open JsonValue SearchRequest Cql2Eval Geofence

structure Cql2Library where
  /-- The literal for a GeoJSON value, as the object it is encoded to. -/
  parseGeometry : Json → Option Members
  parseText : String → Option Node
  parseJson : Json → Option Node
  encodeText : Node → Option String
  encodeJson : Node → Option Json
  /-- The node the builders wrap a Go value in. -/
  literal : Json → Node

/-- A filter that is nil or an empty text is no filter. -/
def filterGiven : Option Json → Option Json
  | none | some .null | some (.str "") => none
  | some value => some value

/-- Expressions as the library makes them: parsed, or an operator that was applied. -/
inductive Cql2Library.Makes (cql2 : Cql2Library) : Node → Prop
  | text {text : String} {expr : Node} : cql2.parseText text = some expr → cql2.Makes expr
  | json {value : Json} {expr : Node} : cql2.parseJson value = some expr → cql2.Makes expr
  | op (operator : Operator) (args : List Node) : cql2.Makes (.op operator args)

/-- Encoding followed by parsing preserves the expression. -/
structure Cql2Library.RoundTrips (cql2 : Cql2Library) : Prop where
  text : ∀ {expr text}, cql2.Makes expr → cql2.encodeText expr = some text →
    filterGiven (some (.str text)) = some (.str text) ∧ cql2.parseText text = some expr
  json : ∀ {expr value}, cql2.Makes expr → cql2.encodeJson expr = some value →
    filterGiven (some value) = some value ∧ cql2.parseJson value = some expr

structure AuthzConstraints where
  allowedCollections : List String := []
  deniedCollections : List String := []
  geofence : Option Constraint := none
  maxResults : Int := 0
  requiredFilters : Std.ExtTreeMap String Json := ∅
  cql2Filter : String := ""
  /-- Wins over `cql2Filter`; null if not set. -/
  cql2FilterJSON : Json := .null
  geofencePushedDown : Bool := false

inductive FilterError where
  | operatorCount (count : Nat)
  | notArray
  | unsupportedOperator (op : String)
  deriving DecidableEq, Repr

inductive PolicyError where
  | geofence (area : AreaError)
  | parsePolicyFilter
  | encodeGeofence
  | requiredFilter (key : String) (reason : FilterError)
  | encodeFilter
  deriving DecidableEq, Repr

section RequiredFilters
variable (cql2 : Cql2Library)

/-- `unicode.ToLower`, as far as its result is an ASCII letter. -/
def lowerChar (c : Char) : Char :=
  if c = 'İ' then 'i' else if c = 'K' then 'k' else c.toLower

def comparisonOf (operator : Operator) (key : String) (raw : Json) : Node :=
  .op operator [.prop key, cql2.literal raw]

def operatorPredicate (key op : String) (raw : Json) : Except FilterError Node :=
  match String.ofList (op.toList.map lowerChar) with
  | "eq" => .ok (comparisonOf cql2 .eq key raw)
  | "neq" | "ne" => .ok (comparisonOf cql2 .neq key raw)
  | "lt" => .ok (comparisonOf cql2 .lt key raw)
  | "lte" | "le" => .ok (comparisonOf cql2 .lte key raw)
  | "gt" => .ok (comparisonOf cql2 .gt key raw)
  | "gte" | "ge" => .ok (comparisonOf cql2 .gte key raw)
  | "in" => match raw with
    | .arr items => .ok (.op .isIn [.prop key, .arr (items.map cql2.literal)])
    | _ => .error .notArray
  | _ => .error (.unsupportedOperator op)

def requiredFilterMapPredicate (key : String) (ops : Members) : Except FilterError Node :=
  match ops with
  | [(op, raw)] => operatorPredicate cql2 key op raw
  | _ => .error (.operatorCount ops.length)

def requiredFilterClause (key : String) : Json → Except FilterError Node
  | .null => .ok (.op .isNull [.prop key])
  | .obj ops => requiredFilterMapPredicate cql2 key ops
  | value => .ok (comparisonOf cql2 .eq key value)

/-- The clauses in the order of their keys. -/
def requiredClauses (rf : List (String × Json)) : Except PolicyError (List Node) :=
  rf.mapM fun entry => (requiredFilterClause cql2 entry.1 entry.2).mapError
    (.requiredFilter entry.1)

def requiredFiltersToCQL2 (rf : Std.ExtTreeMap String Json) : Except PolicyError (Option Node) :=
  (requiredClauses cql2 rf.toList).map fun parts => andNonNil (parts.map some)

end RequiredFilters

section Filters
variable (cql2 : Cql2Library)

def parsed (expr : Option Node) : Except PolicyError (Option Node) :=
  match expr with
  | none => .error .parsePolicyFilter
  | some n => .ok (some n)

def parsePolicyCQL2 (c : AuthzConstraints) : Except PolicyError (Option Node) :=
  match given c.cql2FilterJSON with
  | some json => parsed (cql2.parseJson json)
  | none => if c.cql2Filter = "" then .ok none else parsed (cql2.parseText c.cql2Filter)

/-- A user filter that does not parse is an error. -/
def parseUserCQL2 (filter : Option Json) : Except Unit (Option Node) :=
  match filterGiven filter with
  | none => .ok none
  | some (.str text) => ((cql2.parseText text).map some).elim (.error ()) .ok
  | some json => ((cql2.parseJson json).map some).elim (.error ()) .ok

def encodeForLang (expr : Node) (lang : String) : Option Json :=
  if lang = "cql2-json" then cql2.encodeJson expr else (cql2.encodeText expr).map .str

/-- The result is a copy; the second component says whether the geofence went into it. -/
def maybePushDownGeofence (c : AuthzConstraints) (spatialSupported : Bool) :
    Except PolicyError (AuthzConstraints × Bool) :=
  match c.geofence with
  | none => .ok (c, false)
  | some g =>
    if c.geofencePushedDown || !spatialSupported then .ok (c, false)
    else do
      let geofenceExpr ← (geofenceToCQL2 cql2.parseGeometry g).mapError .geofence
      match geofenceExpr with
      | none => pure (c, false)
      | some fence =>
        let existing ← parsePolicyCQL2 cql2 c
        match andNonNil [existing, some fence] with
        | none => pure (c, false)
        | some combined => match cql2.encodeText combined with
          | none => .error .encodeGeofence
          | some text => pure ({ c with
              cql2Filter := text
              cql2FilterJSON := .null
              geofencePushedDown := true }, true)

inductive InjectError where
  | policy (reason : PolicyError)
  /-- The filter of the client does not parse. -/
  | userFilter
  deriving DecidableEq, Repr

def injectCQL2Filter (sr : Request) (constraints : AuthzConstraints) (spatialSupported : Bool) :
    Except InjectError (Request × AuthzConstraints) := do
  let (updated, _) ← (maybePushDownGeofence cql2 constraints spatialSupported).mapError .policy
  let policyExpr ← (parsePolicyCQL2 cql2 updated).mapError .policy
  let requiredExpr ← (requiredFiltersToCQL2 cql2 updated.requiredFilters).mapError .policy
  let userExpr ← (parseUserCQL2 cql2 sr.filter).mapError fun _ => .userFilter
  match andNonNil [userExpr, policyExpr, requiredExpr] with
  | none => pure (sr, updated)
  | some merged =>
    let lang := if sr.filterLang = "" then "cql2-text" else sr.filterLang
    match encodeForLang cql2 merged lang with
    | none => .error (.policy .encodeFilter)
    | some encoded => pure ({ sr with filter := some encoded, filterLang := lang }, updated)

/-- The filter of a request as its receiver reads it, in the language the request names. -/
def sentFilter (sr : Request) : Option Node :=
  match filterGiven sr.filter with
  | none => none
  | some value =>
    if sr.filterLang = "cql2-json" then cql2.parseJson value
    else match value with
      | .str text => cql2.parseText text
      | _ => cql2.parseJson value

end Filters

section Success
variable {ε ε' α β : Type}

theorem bind_eq_ok {x : Except ε α} {f : α → Except ε β} {b : β} :
    (x >>= f) = .ok b ↔ ∃ a, x = .ok a ∧ f a = .ok b := by
  cases x <;> simp [bind, Except.bind]

theorem mapError_eq_ok {x : Except ε α} {f : ε → ε'} {a : α} :
    x.mapError f = .ok a ↔ x = .ok a := by
  cases x <;> simp [Except.mapError]

theorem map_eq_ok {x : Except ε α} {f : α → β} {b : β} :
    x.map f = .ok b ↔ ∃ a, x = .ok a ∧ f a = b := by
  cases x <;> simp [Except.map]

end Success

section Parts
variable {cql2 : Cql2Library} {c : AuthzConstraints}

theorem parsed_makes {expr : Option Node} {n : Node} (ok : parsed expr = .ok (some n)) :
    expr = some n := by
  cases expr with
  | none => cases ok
  | some expr => simpa [parsed] using ok

theorem parsePolicyCQL2_makes {expr : Node} (ok : parsePolicyCQL2 cql2 c = .ok (some expr)) :
    cql2.Makes expr := by
  unfold parsePolicyCQL2 at ok
  split at ok
  · exact .json (parsed_makes ok)
  · split at ok
    · cases ok
    · exact .text (parsed_makes ok)

theorem parseUserCQL2_makes {filter : Option Json} {expr : Node}
    (ok : parseUserCQL2 cql2 filter = .ok (some expr)) : cql2.Makes expr := by
  unfold parseUserCQL2 at ok
  split at ok
  · cases ok
  · rename_i text _
    cases found : cql2.parseText text with
    | none => simp [found] at ok
    | some n =>
      obtain rfl : n = expr := by simpa [found] using ok
      exact .text found
  · rename_i json _ _
    cases found : cql2.parseJson json with
    | none => simp [found] at ok
    | some n =>
      obtain rfl : n = expr := by simpa [found] using ok
      exact .json found

theorem andNonNil_makes {exprs : List (Option Node)} {expr : Node}
    (parts : ∀ e, some e ∈ exprs → cql2.Makes e) (combined : andNonNil exprs = some expr) :
    cql2.Makes expr := by
  unfold andNonNil at combined
  split at combined
  · cases combined
  · rename_i sole single
    obtain rfl := Option.some.inj combined
    apply parts
    exact mem_present_iff.mp (single ▸ List.mem_singleton_self sole)
  · obtain rfl := Option.some.inj combined
    exact .op _ _

theorem operatorPredicate_makes {key op : String} {raw : Json} {clause : Node}
    (ok : operatorPredicate cql2 key op raw = .ok clause) : cql2.Makes clause := by
  unfold operatorPredicate at ok
  split at ok
  case h_11 => cases ok
  case h_10 =>
    split at ok
    · cases ok
      exact .op _ _
    · cases ok
  all_goals
    cases ok
    exact .op _ _

theorem requiredFilterClause_makes {key : String} {value : Json} {clause : Node}
    (ok : requiredFilterClause cql2 key value = .ok clause) : cql2.Makes clause := by
  unfold requiredFilterClause at ok
  split at ok
  · cases ok
    exact .op _ _
  · unfold requiredFilterMapPredicate at ok
    split at ok
    · exact operatorPredicate_makes ok
    · cases ok
  · cases ok
    exact .op _ _

/-- The parts are the clauses of the entries. -/
theorem mem_requiredClauses {rf : List (String × Json)} {parts : List Node}
    (ok : requiredClauses cql2 rf = .ok parts) :
    (∀ entry ∈ rf, ∃ clause ∈ parts, requiredFilterClause cql2 entry.1 entry.2 = .ok clause) ∧
      ∀ clause ∈ parts, ∃ entry ∈ rf, requiredFilterClause cql2 entry.1 entry.2 = .ok clause := by
  induction rf generalizing parts with
  | nil =>
    cases ok
    simp
  | cons entry rest ih =>
    simp only [requiredClauses, List.mapM_cons, bind_eq_ok, mapError_eq_ok] at ok
    obtain ⟨clause, first, others, later, built⟩ := ok
    cases built
    obtain ⟨left, right⟩ := ih later
    simp only [List.mem_cons, forall_eq_or_imp, exists_eq_or_imp]
    exact ⟨⟨.inl first, fun e member => .inr (left e member)⟩,
      .inl first, fun e member => .inr (right e member)⟩

end Parts

section Meaning
variable {G : Type} (lib : Library G) (item : Members)

/-- A predicate that is not there excludes nothing. -/
def Satisfies (expr : Option Node) : Prop := ∀ e ∈ expr, Holds lib item e

instance (expr : Option Node) : Decidable (Satisfies lib item expr) :=
  match expr with
  | none => isTrue nofun
  | some e => decidable_of_iff (Holds lib item e) (by simp [Satisfies])

/-- Every required filter has a clause, which holds. -/
def MeetsRequired (cql2 : Cql2Library) (rf : Std.ExtTreeMap String Json) : Prop :=
  ∀ key value, rf[key]? = some value →
    ∃ clause, requiredFilterClause cql2 key value = .ok clause ∧ Holds lib item clause

variable {lib item} {cql2 : Cql2Library}

@[simp] theorem satisfies_none : Satisfies lib item none := nofun

theorem satisfies_andNonNil {exprs : List (Option Node)} :
    Satisfies lib item (andNonNil exprs) ↔ ∀ e ∈ exprs, Satisfies lib item e := by
  cases combined : andNonNil exprs with
  | none =>
    have absent := andNonNil_eq_none.mp combined
    simp only [Satisfies, Option.not_mem_none, false_imp_iff, implies_true, true_iff]
    intro e member expr present
    rw [absent e member] at present
    cases present
  | some expr =>
    simp only [Satisfies, Option.mem_def, Option.some.injEq, forall_eq', holds_andNonNil combined]
    constructor
    · rintro all _ member e rfl
      exact all e member
    · intro all e member
      exact all _ member e rfl

theorem satisfies_required {rf : Std.ExtTreeMap String Json} {required : Option Node}
    (ok : requiredFiltersToCQL2 cql2 rf = .ok required) :
    Satisfies lib item required ↔ MeetsRequired lib item cql2 rf := by
  obtain ⟨parts, clauses, rfl⟩ := map_eq_ok.mp ok
  obtain ⟨covers, sourced⟩ := mem_requiredClauses clauses
  rw [satisfies_andNonNil]
  simp only [List.mem_map, forall_exists_index, and_imp, forall_apply_eq_imp_iff₂, Satisfies,
    Option.mem_def, Option.some.injEq, forall_eq']
  constructor
  · intro all key value found
    obtain ⟨clause, member, built⟩ := covers (key, value)
      (Std.ExtTreeMap.mem_toList_iff_getElem?_eq_some.mpr found)
    exact ⟨clause, built, all clause member⟩
  · intro all clause member
    obtain ⟨⟨key, value⟩, entry, built⟩ := sourced clause member
    obtain ⟨same, again, holds⟩ := all key value
      (Std.ExtTreeMap.mem_toList_iff_getElem?_eq_some.mp entry)
    rw [built] at again
    cases again
    exact holds

theorem requiredFiltersToCQL2_makes {rf : Std.ExtTreeMap String Json} {expr : Node}
    (ok : requiredFiltersToCQL2 cql2 rf = .ok (some expr)) : cql2.Makes expr := by
  obtain ⟨parts, clauses, combined⟩ := map_eq_ok.mp ok
  apply andNonNil_makes _ combined
  intro e member
  obtain ⟨entry, -, built⟩ := (mem_requiredClauses clauses).2 e (by simpa using member)
  exact requiredFilterClause_makes built

end Meaning

section Injection
variable {cql2 : Cql2Library} {c updated : AuthzConstraints} {sr sent : Request} {spatial : Bool}

/-- The predicate that push-down adds to the policy filter. -/
def fenceToPush (cql2 : Cql2Library) (c : AuthzConstraints) (spatialSupported : Bool) :
    Except AreaError (Option Node) :=
  match c.geofence with
  | none => .ok none
  | some g => if c.geofencePushedDown || !spatialSupported then .ok none
    else geofenceToCQL2 cql2.parseGeometry g

/-- Push-down changes nothing if there is no fence to push, and otherwise replaces the policy
filter by its conjunction with the fence. -/
theorem maybePushDownGeofence_eq_ok {pushed : Bool}
    (ok : maybePushDownGeofence cql2 c spatial = .ok (updated, pushed)) :
    (updated = c ∧ pushed = false ∧ fenceToPush cql2 c spatial = .ok none) ∨
      ∃ fence policy text combined, fenceToPush cql2 c spatial = .ok (some fence) ∧
        parsePolicyCQL2 cql2 c = .ok policy ∧ andNonNil [policy, some fence] = some combined ∧
        cql2.encodeText combined = some text ∧ pushed = true ∧
        updated = { c with
          cql2Filter := text
          cql2FilterJSON := .null
          geofencePushedDown := true } := by
  unfold maybePushDownGeofence at ok
  unfold fenceToPush
  cases fenced : c.geofence with
  | none =>
    rw [fenced] at ok
    cases ok
    exact .inl ⟨rfl, rfl, rfl⟩
  | some g =>
    simp only [fenced] at ok ⊢
    split at ok
    · rename_i skipped
      cases ok
      exact .inl ⟨rfl, rfl, if_pos skipped⟩
    · rename_i tried
      simp only [bind_eq_ok, mapError_eq_ok] at ok
      obtain ⟨fence, built, ok⟩ := ok
      rw [if_neg tried, built]
      cases fence with
      | none =>
        cases ok
        exact .inl ⟨rfl, rfl, rfl⟩
      | some fence =>
        simp only [bind_eq_ok] at ok
        obtain ⟨policy, parses, ok⟩ := ok
        split at ok
        · rename_i absent
          simpa using andNonNil_eq_none.mp absent (some fence) (by simp)
        · rename_i combined joined
          split at ok
          · cases ok
          · rename_i text encoded
            cases ok
            exact .inr ⟨fence, policy, text, combined, rfl, parses, joined, encoded, rfl, rfl⟩

theorem maybePushDownGeofence_of_none (fence_ok : fenceToPush cql2 c spatial = .ok none) :
    maybePushDownGeofence cql2 c spatial = .ok (c, false) := by
  unfold fenceToPush at fence_ok
  unfold maybePushDownGeofence
  cases fenced : c.geofence with
  | none => rfl
  | some g =>
    simp only [fenced] at fence_ok ⊢
    split
    · rfl
    · rename_i tried
      rw [if_neg tried] at fence_ok
      rw [fence_ok]
      rfl

theorem maybePushDownGeofence_of_some {policy : Option Node} {fence combined : Node} {text : String}
    (fence_ok : fenceToPush cql2 c spatial = .ok (some fence))
    (policy_ok : parsePolicyCQL2 cql2 c = .ok policy)
    (joined : andNonNil [policy, some fence] = some combined)
    (encoded : cql2.encodeText combined = some text) :
    maybePushDownGeofence cql2 c spatial = .ok ({ c with
      cql2Filter := text
      cql2FilterJSON := .null
      geofencePushedDown := true }, true) := by
  unfold fenceToPush at fence_ok
  unfold maybePushDownGeofence
  cases fenced : c.geofence with
  | none =>
    rw [fenced] at fence_ok
    cases fence_ok
  | some g =>
    simp only [fenced] at fence_ok ⊢
    split
    · rename_i skipped
      rw [if_pos skipped] at fence_ok
      cases fence_ok
    · rename_i tried
      rw [if_neg tried] at fence_ok
      simp [fence_ok, policy_ok, joined, encoded, Except.mapError, bind, Except.bind, pure,
        Except.pure]

theorem maybePushDownGeofence_frame {pushed : Bool}
    (ok : maybePushDownGeofence cql2 c spatial = .ok (updated, pushed)) :
    updated.geofence = c.geofence ∧ updated.requiredFilters = c.requiredFilters ∧
      updated.geofencePushedDown = (c.geofencePushedDown || pushed) := by
  rcases maybePushDownGeofence_eq_ok ok with ⟨rfl, rfl, -⟩ | ⟨_, _, _, _, -, -, -, -, rfl, rfl⟩
  · simp
  · simp

theorem areaPredicate_eq_some {parseGeometry : Json → Option Members} {build : Members → Node}
    {ill : AreaError} {area : Json} {expr : Node}
    (ok : areaPredicate parseGeometry build ill area = .ok (some expr)) :
    ∃ literal, expr = build literal := by
  unfold areaPredicate at ok
  split at ok
  · cases ok
  · split at ok
    · cases ok
    · cases ok
      exact ⟨_, rfl⟩

theorem fenceToPush_makes {fence : Node} (built : fenceToPush cql2 c spatial = .ok (some fence)) :
    cql2.Makes fence := by
  unfold fenceToPush at built
  split at built
  · cases built
  · split at built
    · cases built
    · simp only [geofenceToCQL2, bind_eq_ok] at built
      obtain ⟨allowed, allowed_ok, denied, denied_ok, joined⟩ := built
      have joined : andNonNil [allowed, denied] = some fence := Except.ok.inj joined
      apply andNonNil_makes _ joined
      intro e member
      simp only [List.mem_cons, List.not_mem_nil, or_false] at member
      rcases member with rfl | rfl
      · obtain ⟨literal, rfl⟩ := areaPredicate_eq_some allowed_ok
        exact .op _ _
      · obtain ⟨literal, rfl⟩ := areaPredicate_eq_some denied_ok
        exact .op _ _

theorem sentFilter_encoded (roundTrips : cql2.RoundTrips) {merged : Node} {lang : String}
    {encoded : Json} (makes : cql2.Makes merged)
    (ok : encodeForLang cql2 merged lang = some encoded) (sr : Request) :
    sentFilter cql2 { sr with filter := some encoded, filterLang := lang } = some merged := by
  unfold encodeForLang at ok
  split at ok
  · rename_i json
    obtain ⟨present, parses⟩ := roundTrips.json makes ok
    simp [sentFilter, present, json, parses]
  · rename_i other
    obtain ⟨text, encodes, rfl⟩ := Option.map_eq_some_iff.mp ok
    obtain ⟨present, parses⟩ := roundTrips.text makes encodes
    simp [sentFilter, present, other, parses]

theorem sentFilter_of_absent (absent : parseUserCQL2 cql2 sr.filter = .ok none) :
    sentFilter cql2 sr = none := by
  have none_given : filterGiven sr.filter = none := by
    unfold parseUserCQL2 at absent
    split at absent
    · assumption
    · rename_i text _
      cases found : cql2.parseText text <;> simp [found] at absent
    · rename_i json _ _
      cases found : cql2.parseJson json <;> simp [found] at absent
  simp [sentFilter, none_given]

theorem pushed_makes {policy : Option Node} {fence combined : Node}
    (policy_ok : parsePolicyCQL2 cql2 c = .ok policy)
    (fence_ok : fenceToPush cql2 c spatial = .ok (some fence))
    (joined : andNonNil [policy, some fence] = some combined) : cql2.Makes combined := by
  apply andNonNil_makes _ joined
  intro e member
  simp only [List.mem_cons, List.not_mem_nil, or_false, Option.some.injEq] at member
  rcases member with member | rfl
  · exact parsePolicyCQL2_makes (member ▸ policy_ok)
  · exact fenceToPush_makes fence_ok

/-- The text that push-down installs reads as what it was encoded from. -/
theorem parsePolicyCQL2_encoded (roundTrips : cql2.RoundTrips) {combined : Node} {text : String}
    (makes : cql2.Makes combined) (encoded : cql2.encodeText combined = some text)
    (c : AuthzConstraints) :
    parsePolicyCQL2 cql2 { c with
      cql2Filter := text
      cql2FilterJSON := .null
      geofencePushedDown := true } = .ok (some combined) := by
  obtain ⟨present, reads⟩ := roundTrips.text makes encoded
  have nonempty : text ≠ "" := by
    rintro rfl
    cases present
  simp [parsePolicyCQL2, given, nonempty, reads, parsed]

/-- After push-down the policy filter is the original one and the fence. -/
theorem parsePolicyCQL2_pushed (roundTrips : cql2.RoundTrips) {pushed : Bool} {policy : Option Node}
    (ok : maybePushDownGeofence cql2 c spatial = .ok (updated, pushed))
    (parses : parsePolicyCQL2 cql2 updated = .ok policy) :
    ∃ original fence, parsePolicyCQL2 cql2 c = .ok original ∧
      fenceToPush cql2 c spatial = .ok fence ∧ pushed = fence.isSome ∧
      ∀ {G : Type} (lib : Library G) (item : Members), Satisfies lib item policy ↔
        Satisfies lib item original ∧ Satisfies lib item fence := by
  rcases maybePushDownGeofence_eq_ok ok with ⟨rfl, rfl, absent⟩ |
    ⟨fence, original, text, combined, built, kept, joined, encoded, rfl, rfl⟩
  · exact ⟨policy, none, parses, absent, rfl, by simp [Satisfies]⟩
  · rw [parsePolicyCQL2_encoded roundTrips (pushed_makes kept built joined) encoded] at parses
    have policy_eq : some combined = policy := Except.ok.inj parses
    refine ⟨original, some fence, kept, built, rfl, fun lib item => ?_⟩
    rw [← policy_eq, ← joined, satisfies_andNonNil]
    simp

/-- What the upstream is sent asks for everything the client and the policy ask for. -/
theorem satisfies_sentFilter (roundTrips : cql2.RoundTrips)
    (ok : injectCQL2Filter cql2 sr c spatial = .ok (sent, updated)) :
    ∃ user policy required fence, parseUserCQL2 cql2 sr.filter = .ok user ∧
      parsePolicyCQL2 cql2 c = .ok policy ∧
      requiredFiltersToCQL2 cql2 c.requiredFilters = .ok required ∧
      fenceToPush cql2 c spatial = .ok fence ∧ updated.geofence = c.geofence ∧
      updated.geofencePushedDown = (c.geofencePushedDown || fence.isSome) ∧
      ∀ {G : Type} (lib : Library G) (item : Members), Satisfies lib item (sentFilter cql2 sent) ↔
        Satisfies lib item user ∧ Satisfies lib item policy ∧ Satisfies lib item required ∧
          Satisfies lib item fence := by
  simp only [injectCQL2Filter, bind_eq_ok, mapError_eq_ok] at ok
  obtain ⟨⟨copy, pushed⟩, pushes, policy, policy_ok, required, required_ok, user, user_ok, ok⟩ := ok
  obtain ⟨original, fence, original_ok, fence_ok, rfl, both⟩ :=
    parsePolicyCQL2_pushed roundTrips pushes policy_ok
  obtain ⟨same_fence, same_required, marked⟩ := maybePushDownGeofence_frame pushes
  rw [same_required] at required_ok
  refine ⟨user, original, required, fence, user_ok, original_ok, required_ok, fence_ok, ?_⟩
  have parts : ∀ {G : Type} (lib : Library G) (item : Members),
      Satisfies lib item (andNonNil [user, policy, required]) ↔ Satisfies lib item user ∧
        Satisfies lib item original ∧ Satisfies lib item required ∧ Satisfies lib item fence := by
    intro G lib item
    rw [satisfies_andNonNil]
    simp only [List.mem_cons, List.not_mem_nil, or_false, forall_eq_or_imp, forall_eq, both]
    tauto
  split at ok
  · rename_i absent
    cases ok
    have no_user : user = none := andNonNil_eq_none.mp absent user (by simp)
    refine ⟨same_fence, marked, fun lib item => ?_⟩
    rw [sentFilter_of_absent (no_user ▸ user_ok), ← parts, absent]
  · rename_i merged joined
    split at ok
    · cases ok
    · rename_i encoded encodes
      cases ok
      have makes : cql2.Makes merged := by
        apply andNonNil_makes _ joined
        intro e member
        simp only [List.mem_cons, List.not_mem_nil, or_false] at member
        rcases member with rfl | rfl | rfl
        · exact parseUserCQL2_makes user_ok
        · exact parsePolicyCQL2_makes policy_ok
        · exact requiredFiltersToCQL2_makes required_ok
      refine ⟨same_fence, marked, fun lib item => ?_⟩
      rw [sentFilter_encoded roundTrips makes encodes, ← parts, joined]

/-- The language that the filter is encoded in. -/
def langOf (sr : Request) : String := if sr.filterLang = "" then "cql2-text" else sr.filterLang

end Injection

end PolicyFilter
