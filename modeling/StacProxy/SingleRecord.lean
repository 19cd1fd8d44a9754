import StacProxy.SearchEnforcement

/-!
# Single records

A single item is not searched for, so the middleware evaluates the policy on the response.
The geofence filter runs first; a record that it takes for a collection is evaluated without
the features it drops.
-/

namespace SingleRecord

open JsonValue SearchRequest Cql2Eval Geofence PolicyFilter AuthzMiddleware

section Reading
variable {G : Type} (lib : Library G) (cql2 : Cql2Library) (unmarshal : Bytes → Option Json)

/-- The areas of a geofence, where at least one is readable. -/
def readableAreas (g : Constraint) : Option (Option G × Option G) :=
  match parseGeofenceAreas lib g with
  | none | some (none, none) => none
  | some areas => some areas

/-- The geometry name and the areas the response is filtered with, if it is filtered. -/
def filterAreas (c : AuthzConstraints) : Option (String × Option G × Option G) :=
  match c.geofence with
  | none => none
  | some g => if g.filterMode && !c.geofencePushedDown then
      (readableAreas lib g).map fun areas => (g.geometryName, areas)
    else none

def isCollection (m : Members) : Bool := (member m "type").asString? = some "FeatureCollection"

def features (m : Members) : List Json := (member m "features").asArray?.getD []

/-- The item satisfies the combined predicate, which can be built. -/
def MeetsCombined (c : AuthzConstraints) (item : Members) : Prop :=
  ∃ expr, combinedPredicate cql2 c = .ok expr ∧ Satisfies lib item expr

/-- The object a single record is judged as: a collection has lost its features outside. -/
def judged (c : AuthzConstraints) (m : Members) : Members :=
  match filterAreas lib c, (member m "features").asArray? with
  | some (name, allowed, denied), some elems =>
    if isCollection m then withFeatures m (keptFeatures lib allowed denied name elems) else m
  | _, _ => m

/-- The filter applies and takes the bytes for a collection that it cannot read. -/
def Unfilterable (c : AuthzConstraints) (body : Bytes) : Prop :=
  (filterAreas lib c).isSome ∧ body ≠ [] ∧ match decodeMap unmarshal body with
    | none => bodyClaimsFeatureCollection body = true
    | some m => isCollection m = true ∧ (member m "features").asArray? = none

/-- The bytes are refused as a single record: they cannot be filtered, or they decode to an
object on which a predicate that can be built is not true. -/
def RefusedRecord (c : AuthzConstraints) (body : Bytes) : Prop :=
  Unfilterable lib unmarshal c body ∨ ∃ expr m, combinedPredicate cql2 c = .ok (some expr) ∧
    body ≠ [] ∧ decodeMap unmarshal body = some m ∧ ¬ Holds lib (judged lib c m) expr

end Reading

section Filtering
variable {G : Type} {lib : Library G} {cql2 : Cql2Library} {unmarshal : Bytes → Option Json}
variable {c : AuthzConstraints} {r : Response}

theorem filterByGeofence_areas {g : Constraint} {body : Bytes} :
    filterByGeofence lib unmarshal body g = if body = [] then .notApplicable else
      match readableAreas lib g with
      | none => .notApplicable
      | some (allowed, denied) => match decodeMap unmarshal body with
        | none => if bodyClaimsFeatureCollection body then .malformed else .notApplicable
        | some fc => if isCollection fc then match (member fc "features").asArray? with
            | some elems =>
              .filtered (withFeatures fc (keptFeatures lib allowed denied g.geometryName elems))
            | none => .malformed
          else .notApplicable := by
  unfold filterByGeofence readableAreas
  by_cases empty : body = []
  · simp [empty]
  · simp only [empty, if_false]
    cases parseGeofenceAreas lib g with
    | none => rfl
    | some areas =>
      obtain ⟨allowed, denied⟩ := areas
      cases allowed <;> cases denied <;> simp only <;> cases decodeMap unmarshal body <;>
        simp only [isCollection, ite_not, decide_eq_true_eq] <;>
        cases member _ "features" <;> rfl

theorem postFilter_empty (empty : r.body = []) :
    postFilter lib unmarshal c r = some (.raw r.body) := by
  unfold postFilter
  split
  · rfl
  · split
    · simp [filterByGeofence, empty]
    · rfl

theorem postFilter_eq (succeeded : r.succeeded = true) (nonempty : r.body ≠ []) :
    postFilter lib unmarshal c r = match filterAreas lib c with
      | none => some (.raw r.body)
      | some (name, allowed, denied) => match decodeMap unmarshal r.body with
        | none => if bodyClaimsFeatureCollection r.body then none else some (.raw r.body)
        | some fc => if isCollection fc then match (member fc "features").asArray? with
            | some elems =>
              some (.document (withFeatures fc (keptFeatures lib allowed denied name elems)))
            | none => none
          else some (.raw r.body) := by
  unfold postFilter filterAreas
  cases c.geofence with
  | none => rfl
  | some g =>
    simp only [succeeded, Bool.and_true]
    split
    · rw [filterByGeofence_areas, if_neg nonempty]
      cases readableAreas lib g with
      | none => rfl
      | some areas =>
        simp only [Option.map_some]
        cases decodeMap unmarshal r.body with
        | none => cases bodyClaimsFeatureCollection r.body <;> rfl
        | some fc =>
          dsimp only
          cases isCollection fc with
          | false => rfl
          | true => cases (member fc "features").asArray? <;> rfl
    · rfl

/-- The filter refuses exactly the bytes it cannot filter, and otherwise hands on the object
that a single record is judged as. -/
theorem postFilter_cases (lib : Library G) (unmarshal : Bytes → Option Json)
    (c : AuthzConstraints) (succeeded : r.succeeded = true) (nonempty : r.body ≠ []) :
    (Unfilterable lib unmarshal c r.body ∧ postFilter lib unmarshal c r = none) ∨
      (¬ Unfilterable lib unmarshal c r.body ∧ ∃ payload,
        postFilter lib unmarshal c r = some payload ∧ payload.isEmpty = false ∧
        payload.decoded unmarshal = (decodeMap unmarshal r.body).map (judged lib c)) := by
  have visible : (Payload.raw r.body).isEmpty = false := by simpa [Payload.isEmpty] using nonempty
  rw [postFilter_eq succeeded nonempty]
  unfold Unfilterable judged
  cases filterAreas lib c with
  | none => simp [Payload.decoded, visible]
  | some areas =>
    simp only [Option.isSome_some, ne_eq, nonempty, not_false_eq_true, true_and]
    cases decoded : decodeMap unmarshal r.body with
    | none => cases bodyClaimsFeatureCollection r.body <;> simp [Payload.decoded, decoded, visible]
    | some fc =>
      cases listed : (member fc "features").asArray? with
      | none => cases collection : isCollection fc <;>
          simp [Payload.decoded, decoded, visible, collection, listed]
      | some elems => cases collection : isCollection fc <;>
          simp [Payload.decoded, Payload.isEmpty, decoded, nonempty, collection, listed]

end Filtering

section Records
variable {G : Type} {lib : Library G} {cql2 : Cql2Library} {unmarshal : Bytes → Option Json}
variable {c : AuthzConstraints} {r : Response} {shape : Option Info}

theorem validateSingleRecord_eq_false {payload : Payload} :
    validateSingleRecord lib cql2 unmarshal payload c = false ↔ payload.isEmpty = false ∧
      ∃ expr m, combinedPredicate cql2 c = .ok (some expr) ∧ payload.decoded unmarshal = some m ∧
        ¬ Holds lib m expr := by
  unfold validateSingleRecord
  cases payload.isEmpty with
  | true => simp
  | false =>
    cases combinedPredicate cql2 c with
    | error _ => simp
    | ok expr =>
      cases expr with
      | none => simp
      | some expr =>
        cases payload.decoded unmarshal with
        | none => simp
        | some m =>
          cases evaluated : evalCQL2 lib m expr with
          | error _ => simp [Holds, evaluated]
          | ok matched => cases matched <;> simp [Holds, evaluated]

/-- A single record is forwarded unless its bytes are refused. -/
theorem respond_item_iff (lib : Library G) (cql2 : Cql2Library)
    (unmarshal : Bytes → Option Json) (c : AuthzConstraints)
    (single : shape.map Info.requestType = some .item)
    (succeeded : r.succeeded = true) :
    (∃ status header payload, respond lib cql2 unmarshal (some c) shape r =
        .forwarded status header payload) ↔ ¬ RefusedRecord lib cql2 unmarshal c r.body := by
  by_cases empty : r.body = []
  · have passes : validateSingleRecord lib cql2 unmarshal (.raw r.body) c = true := by
      simp [validateSingleRecord, Payload.isEmpty, empty]
    have nothing : ¬ RefusedRecord lib cql2 unmarshal c r.body := by
      simp [RefusedRecord, Unfilterable, empty]
    simp only [respond, postFilter_empty empty, passes, nothing]
    simp
  · rcases postFilter_cases lib unmarshal c succeeded empty with
      ⟨refused, filtered⟩ | ⟨unrefused, payload, filtered, visible, decoded⟩
    · simp [respond, filtered, RefusedRecord, refused]
    · have judged_iff : validateSingleRecord lib cql2 unmarshal payload c = false ↔
          RefusedRecord lib cql2 unmarshal c r.body := by
        rw [validateSingleRecord_eq_false, decoded]
        simp only [visible, true_and, RefusedRecord, unrefused, false_or, ne_eq, empty,
          not_false_eq_true, Option.map_eq_some_iff]
        constructor
        · rintro ⟨expr, _, built, ⟨m, reads, rfl⟩, fails⟩
          exact ⟨expr, m, built, reads, fails⟩
        · rintro ⟨expr, m, built, reads, fails⟩
          exact ⟨expr, _, built, ⟨m, reads, rfl⟩, fails⟩
      rw [← judged_iff]
      cases matched : validateSingleRecord lib cql2 unmarshal payload c <;>
        simp [respond, filtered, single, succeeded, matched]

end Records

section Requests
variable {G : Type} {lib : Library G} {cql2 : Cql2Library} {unmarshal : Bytes → Option Json}
variable {cfg : HTTPConfig} {authenticated : Bool} {decision : AuthzDecision}
variable {info sentInfo : Option Info} {c : AuthzConstraints} {next : Option Info → Response}

theorem serve_admitted (login : authenticated = true ∨ cfg.allowAnonymous = true)
    (allowed : decision.allowed = true)
    (admits : admitted cql2 cfg info decision.constraints = .ok (sentInfo, some c)) :
    serve lib cql2 unmarshal cfg authenticated (.ok decision) info next =
      respond lib cql2 unmarshal (some c) sentInfo (next sentInfo) := by
  have passes : (!authenticated && !cfg.allowAnonymous) = false := by
    rcases login with known | anonymous
    · simp [known]
    · simp [anonymous]
  simp [serve, passes, allowed, admits]

end Requests

section Policies
variable {G : Type} {lib : Library G} {cql2 : Cql2Library} {unmarshal : Bytes → Option Json}
variable {c : AuthzConstraints} {policy required fence : Option Node}

/-- The three parts of a policy all parse, and the fence can be encoded with the filter. -/
structure Parses (cql2 : Cql2Library) (c : AuthzConstraints) (policy required fence : Option Node) :
    Prop where
  policy_ok : parsePolicyCQL2 cql2 c = .ok policy
  required_ok : requiredFiltersToCQL2 cql2 c.requiredFilters = .ok required
  fence_ok : c.geofence.elim (.ok none) (geofenceToCQL2 cql2.parseGeometry) = .ok fence
  encodes : fence.isSome → ∀ combined, andNonNil [policy, fence] = some combined →
    (cql2.encodeText combined).isSome

theorem fenceToPush_eq (unpushed : c.geofencePushedDown = false) : fenceToPush cql2 c true =
    c.geofence.elim (.ok none) (geofenceToCQL2 cql2.parseGeometry) := by
  cases fenced : c.geofence <;> simp [fenceToPush, fenced, unpushed]

/-- A policy whose parts parse combines into their conjunction. -/
theorem combinedPredicate_of_parses (lib : Library G) (roundTrips : cql2.RoundTrips)
    (unpushed : c.geofencePushedDown = false) (parses : Parses cql2 c policy required fence) :
    ∃ expr, combinedPredicate cql2 c = .ok expr ∧
      (expr = none → policy = none ∧ required = none ∧ fence = none) ∧
      ∀ item, Satisfies lib item expr ↔
        Satisfies lib item policy ∧ Satisfies lib item required ∧ Satisfies lib item fence := by
  have fence_ok := (fenceToPush_eq unpushed).trans parses.fence_ok
  cases fence with
  | none =>
    refine ⟨andNonNil [policy, required], ?_, fun absent => ?_, fun item => ?_⟩
    · simp [combinedPredicate, maybePushDownGeofence_of_none fence_ok, parses.policy_ok, parses.required_ok, bind,
        Except.bind, pure, Except.pure]
    · have each := andNonNil_eq_none.mp absent
      exact ⟨each policy (by simp), each required (by simp), rfl⟩
    · rw [satisfies_andNonNil]
      simp
  | some fence =>
    obtain ⟨combined, joined⟩ : ∃ combined, andNonNil [policy, some fence] = some combined := by
      cases joined : andNonNil [policy, some fence] with
      | none => simpa using andNonNil_eq_none.mp joined (some fence) (by simp)
      | some combined => exact ⟨combined, rfl⟩
    obtain ⟨text, encoded⟩ := Option.isSome_iff_exists.mp (parses.encodes rfl combined joined)
    have pushes := maybePushDownGeofence_of_some fence_ok parses.policy_ok joined encoded
    have makes : cql2.Makes combined := by
      apply andNonNil_makes _ joined
      intro e member
      simp only [List.mem_cons, List.not_mem_nil, or_false, Option.some.injEq] at member
      rcases member with rfl | rfl
      · exact parsePolicyCQL2_makes parses.policy_ok
      · exact fenceToPush_makes fence_ok
    obtain ⟨present, reads⟩ := roundTrips.text makes encoded
    have nonempty : text ≠ "" := by
      rintro rfl
      cases present
    refine ⟨andNonNil [some combined, required], ?_, fun absent => ?_, fun item => ?_⟩
    · simp [combinedPredicate, pushes, parsePolicyCQL2, given, nonempty, reads, parsed,
        parses.required_ok, bind, Except.bind, pure, Except.pure]
    · simpa using andNonNil_eq_none.mp absent (some combined) (by simp)
    · rw [satisfies_andNonNil, ← joined]
      simp only [List.mem_cons, List.not_mem_nil, or_false, forall_eq_or_imp, forall_eq,
        satisfies_andNonNil]
      tauto

end Policies

section Enforcement
variable {G : Type} {lib : Library G} {cql2 : Cql2Library} {unmarshal : Bytes → Option Json}
variable {cfg : HTTPConfig} {authenticated : Bool} {decision : AuthzDecision}
variable {c : AuthzConstraints} {policy required fence : Option Node}
variable {collection itemID : String} {next : Option Info → Response}

/-- A refusal of the middleware after the upstream has answered. -/
theorem respond_cases {shape : Option Info} {r : Response} :
    (∃ reply, respond lib cql2 unmarshal (some c) shape r = .refused reply ∧
        400 ≤ reply.status) ∨
      ∃ payload, respond lib cql2 unmarshal (some c) shape r =
        .forwarded r.status r.header payload := by
  simp only [respond]
  split
  · exact .inl ⟨_, rfl, by simp⟩
  · split
    · exact .inl ⟨_, rfl, by simp⟩
    · exact .inr ⟨_, rfl⟩

/-- Where the parts of the policy parse, an item is answered with an error, or the body that
is forwarded satisfies all three, unless there is nothing to satisfy or it is no JSON object. -/
theorem single_item_enforced (roundTrips : cql2.RoundTrips)
    (login : authenticated = true ∨ cfg.allowAnonymous = true) (allowed : decision.allowed = true)
    (constrained : decision.constraints = some c) (unpushed : c.geofencePushedDown = false)
    (parses : Parses cql2 c policy required fence)
    (succeeded : (next (some { collection, itemID, requestType := .item })).succeeded = true)
    (nonempty : (next (some { collection, itemID, requestType := .item })).body ≠ []) :
    let served := serve lib cql2 unmarshal cfg authenticated (.ok decision)
      (some { collection, itemID, requestType := .item }) next
    (∃ reply, served = .refused reply ∧ 400 ≤ reply.status) ∨
      ∃ status header payload, served = .forwarded status header payload ∧
        ((policy = none ∧ required = none ∧ fence = none) ∨ payload.decoded unmarshal = none ∨
          ∃ item, payload.decoded unmarshal = some item ∧ Satisfies lib item policy ∧
            Satisfies lib item required ∧ Satisfies lib item fence) := by
  intro served
  have served_eq : served = respond lib cql2 unmarshal (some c)
      (some { collection, itemID, requestType := .item })
      (next (some { collection, itemID, requestType := .item })) :=
    serve_admitted login allowed (by simp [admitted, constrained])
  rw [served_eq]
  rcases respond_cases with refused | ⟨payload, forwards⟩
  · exact .inl refused
  refine .inr ⟨_, _, payload, forwards, ?_⟩
  obtain ⟨expr, combined, absent, satisfies⟩ :=
    combinedPredicate_of_parses lib roundTrips unpushed parses
  obtain ⟨-, -, filtered, validated⟩ := respond_eq_forwarded forwards
  have visible : payload.isEmpty = false := by
    rcases postFilter_cases lib unmarshal c succeeded nonempty with
      ⟨-, refuses⟩ | ⟨-, kept, keeps, visible, -⟩
    · simp [refuses] at filtered
    · rw [keeps] at filtered
      cases filtered
      exact visible
  cases expr with
  | none => exact .inl (absent rfl)
  | some expr =>
    cases decoded : payload.decoded unmarshal with
    | none => exact .inr (.inl rfl)
    | some item =>
      refine .inr (.inr ⟨item, rfl, (satisfies item).mp ?_⟩)
      rintro e ⟨⟩
      by_contra fails
      have rejects := validateSingleRecord_eq_false.mpr ⟨visible, expr, item, combined, decoded, fails⟩
      simp [validated rfl succeeded] at rejects

end Enforcement

section Sample
open SearchEnforcement

def recordText (value : String) : Bytes :=
  ("\x7b\"a\":\"" ++ value ++ "\"\x7d").toUTF8.data.toList

def recordUnmarshal (body : Bytes) : Option Json :=
  if body = recordText "b" then some (.obj (sampleItem "b"))
  else if body = recordText "c" then some (.obj (sampleItem "c"))
  else none

def recordNext (body : Bytes) (_ : Option Info) : Response where
  status := 200
  body := body

theorem samplePolicy_parses :
    Parses sampleCql2 samplePolicy (some (.op .eq [.prop "a", .str "b"])) none none where
  policy_ok := rfl
  required_ok := rfl
  fence_ok := rfl
  encodes := nofun

/-- An item that satisfies the policy is forwarded, and held against it. -/
theorem matching_item_forwarded :
    serve boxLibrary sampleCql2 recordUnmarshal {} true (.ok sampleDecision)
      (some { requestType := .item }) (recordNext (recordText "b")) =
        .forwarded 200 [] (.raw (recordText "b")) ∧
      Satisfies boxLibrary (sampleItem "b") (some (.op .eq [.prop "a", .str "b"])) := by
  have forwards : serve boxLibrary sampleCql2 recordUnmarshal {} true (.ok sampleDecision)
      (some { requestType := .item }) (recordNext (recordText "b")) =
        .forwarded 200 [] (.raw (recordText "b")) := rfl
  have decodes : Payload.decoded recordUnmarshal (.raw (recordText "b")) =
      some (sampleItem "b") := by
    simp [Payload.decoded, decodeMap, recordUnmarshal]
  refine ⟨forwards, ?_⟩
  rcases @single_item_enforced _ boxLibrary sampleCql2 recordUnmarshal {} true sampleDecision
      samplePolicy _ _ _ "" "" (recordNext (recordText "b")) sampleCql2_roundTrips (.inl rfl) rfl
      rfl rfl samplePolicy_parses rfl (by decide) with
    ⟨reply, refused, -⟩ | ⟨_, _, payload, served, passed⟩
  · exact absurd (forwards.symm.trans refused) (by simp)
  · cases forwards.symm.trans served
    rcases passed with ⟨absent, -⟩ | undecoded | ⟨item, decoded, satisfies, -⟩
    · cases absent
    · rw [decodes] at undecoded
      cases undecoded
    · rw [decodes] at decoded
      cases decoded
      exact satisfies

/-- A body that is no JSON reaches the client under a policy, and so does an item under a
policy whose filter does not parse. -/
theorem unreadable_forwarded :
    (decodeMap recordUnmarshal [110, 111] = none ∧
      serve boxLibrary sampleCql2 recordUnmarshal {} true (.ok sampleDecision)
        (some { requestType := .item }) (recordNext [110, 111]) =
          .forwarded 200 [] (.raw [110, 111])) ∧
    parsePolicyCQL2 sampleCql2 { cql2Filter := "a =" } = .error .parsePolicyFilter ∧
      serve boxLibrary sampleCql2 recordUnmarshal {} true
        (.ok { allowed := true, constraints := some { cql2Filter := "a =" } })
        (some { requestType := .item }) (recordNext (recordText "c")) =
          .forwarded 200 [] (.raw (recordText "c")) :=
  ⟨⟨rfl, rfl⟩, rfl, rfl⟩

end Sample

end SingleRecord
