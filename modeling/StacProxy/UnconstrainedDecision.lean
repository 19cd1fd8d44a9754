import StacProxy.ResponseCache
import StacProxy.SingleRecord

/-!
# Decisions without constraints

`HasConstraints` is to tell whether a decision makes a response specific to its principal. It
looks at every part of the constraints but the denied area of a geofence, and it takes
constraints without any part for none, though the middleware then still writes the filter of
the client anew. So a decision it finds unconstrained leaves a request and its response alone
exactly if neither happens.
-/

namespace UnconstrainedDecision

open JsonValue SearchRequest Cql2Eval Geofence PolicyFilter AuthzMiddleware SingleRecord
open ResponseCache (hasConstraints)

section Statement
variable {G : Type} (lib : Cql2Eval.Library G) (cql2 : Cql2Library)
variable (unmarshal : Bytes → Option Json) (marshal : Json → Bytes)

def bytesOf : Payload → Bytes
  | .raw body => body
  | .document fc => marshal (.obj fc)

/-- The inner handler gets the request as it was, and the client its status and body. -/
structure PassedOn (cfg : HTTPConfig) (authenticated : Bool) (d : AuthzDecision)
    (info : Option Info) (r : Response) : Prop where
  request : ∃ after, admitted cql2 cfg info d.constraints = .ok (info, after)
  response : ∃ header payload, serve lib cql2 unmarshal cfg authenticated (.ok d) info (fun _ => r) =
    .forwarded r.status header payload ∧ bytesOf marshal payload = r.body

/-- A filter that is written as it was, in the language that is named. -/
def Spelled (sr : Request) : Prop :=
  filterGiven sr.filter = none ∨ sr.filterLang ≠ "" ∧
    ∃ value expr, sr.filter = some value ∧ parseUserCQL2 cql2 sr.filter = .ok (some expr) ∧
      encodeForLang cql2 expr sr.filterLang = some value

/-- A denied area that is pushed down into the filter. -/
def PushesDenied (cfg : HTTPConfig) (i : Info) (c : AuthzConstraints) : Prop :=
  ∃ g, c.geofence = some g ∧ c.geofencePushedDown = false ∧ cfg.spatialOK i = true ∧
    given g.deniedArea ≠ none

/-- A search whose filter may be injected has none to inject, and its own is spelled out. -/
def RequestKept (cfg : HTTPConfig) (info : Option Info) (d : AuthzDecision) : Prop :=
  ∀ c i sr, d.constraints = some c → info = some i → i.searchReq = some sr →
    cfg.injects i = true → ¬ PushesDenied cfg i c ∧ Spelled cql2 sr

/-- The filter of the response does not apply, or it drops nothing of a collection that is
spelled as it would be written. -/
def KeptWhole (c : AuthzConstraints) (body : Bytes) : Prop :=
  ∀ name allowed denied, filterAreas lib c = some (name, allowed, denied) → body ≠ [] →
    match decodeMap unmarshal body with
    | none => bodyClaimsFeatureCollection body = false
    | some fc => isCollection fc = true → ∃ elems, (member fc "features").asArray? = some elems ∧
        withFeatures fc (keptFeatures lib allowed denied name elems) = fc ∧ marshal (.obj fc) = body

/-- A response that succeeded is kept whole, and is not refused if it is a single item. -/
def ResponseKept (info : Option Info) (d : AuthzDecision) (r : Response) : Prop :=
  ∀ c, d.constraints = some c → r.succeeded = true →
    KeptWhole lib unmarshal marshal c r.body ∧
      (info.map Info.requestType = some .item → ¬ RefusedRecord lib cql2 unmarshal c r.body)

/-- A decoded collection with other features and counts is written such that it reads the same. -/
def Encodes : Prop :=
  ∀ body fc kept, unmarshal body = some (.obj fc) → kept.Sublist (features fc) →
    unmarshal (marshal (.obj (withFeatures fc kept))) = some (.obj (withFeatures fc kept))

/-- An operator is not written as a text. -/
def WritesOperators : Prop :=
  ∀ operator args text, cql2.encodeJson (.op operator args) ≠ some (.str text)

end Statement

section Unconstrained
variable {cql2 : Cql2Library} {cfg : HTTPConfig} {d : AuthzDecision} {c : AuthzConstraints}

/-- What the decision is found to be without. -/
structure Unconstrained (c : AuthzConstraints) : Prop where
  allowedCollections : c.allowedCollections = []
  deniedCollections : c.deniedCollections = []
  allowedArea : ∀ g, c.geofence = some g → given g.allowedArea = none
  maxResults : c.maxResults ≤ 0
  requiredFilters : c.requiredFilters = ∅
  cql2Filter : c.cql2Filter = ""
  cql2FilterJSON : given c.cql2FilterJSON = none

theorem unconstrained_of_hasConstraints (constraints : d.constraints = some c)
    (none_found : hasConstraints d = false) : Unconstrained c := by
  simp only [hasConstraints, constraints, Option.any_some, Bool.or_eq_false_iff] at none_found
  obtain ⟨⟨⟨⟨⟨⟨allowed, denied⟩, area⟩, results⟩, required⟩, filter⟩, json⟩ := none_found
  refine ⟨by simpa using allowed, by simpa using denied, ?_, by simpa using results, ?_,
    by simpa using filter, by simpa using json⟩
  · intro g fenced
    simpa [fenced] using area
  · simpa using required

theorem Unconstrained.applyConstraints (free : Unconstrained c) (sr : Request) :
    applyConstraints sr c = some (sr, c) := by
  have limit : clampLimit c.maxResults sr.limit = sr.limit :=
    if_neg fun clamps => absurd clamps.1 (not_lt.mpr free.maxResults)
  have geofence : c.geofence.map (defaultFilterMode c.geofencePushedDown) = c.geofence := by
    cases fenced : c.geofence with
    | none => rfl
    | some g => simp [defaultFilterMode, free.allowedArea g fenced]
  have allowed : restrictAllowed c.allowedCollections sr.collections = some sr.collections :=
    if_pos free.allowedCollections
  have denied : restrictDenied c.deniedCollections sr.collections = some sr.collections :=
    if_pos (.inl free.deniedCollections)
  simp only [AuthzMiddleware.applyConstraints, allowed, denied, limit, geofence, bind, Option.bind,
    pure]

theorem Unconstrained.parsePolicyCQL2 (free : Unconstrained c) :
    parsePolicyCQL2 cql2 c = .ok none := by
  simp [PolicyFilter.parsePolicyCQL2, free.cql2Filter, free.cql2FilterJSON]

theorem Unconstrained.requiredFiltersToCQL2 (free : Unconstrained c) :
    requiredFiltersToCQL2 cql2 c.requiredFilters = .ok none := by
  rw [free.requiredFilters]
  simp [PolicyFilter.requiredFiltersToCQL2, requiredClauses]
  rfl

/-- The fence that is pushed down is that of the denied area, if it can be read. -/
theorem Unconstrained.fenceToPush_eq_none (free : Unconstrained c) {spatial : Bool} :
    fenceToPush cql2 c spatial = .ok none ↔
      ¬ ∃ g, c.geofence = some g ∧ c.geofencePushedDown = false ∧ spatial = true ∧
        given g.deniedArea ≠ none := by
  unfold fenceToPush
  cases fenced : c.geofence with
  | none => simp
  | some g =>
    simp only [Option.some.injEq, exists_eq_left']
    split
    · rename_i skipped
      refine iff_of_true rfl ?_
      rintro ⟨unpushed, spatial, -⟩
      simp [unpushed, spatial] at skipped
    · rename_i tried
      simp only [Bool.or_eq_true, not_or, Bool.not_eq_true, Bool.not_eq_false'] at tried
      simp only [tried, true_and, geofenceToCQL2, areaPredicate, free.allowedArea g fenced]
      cases given g.deniedArea with
      | none => simp [andNonNil, bind, Except.bind, pure, Except.pure]
      | some area =>
        cases reads : cql2.parseGeometry area <;>
          simp [andNonNil, bind, Except.bind, pure, Except.pure, reads]

theorem parseUserCQL2_eq_none {filter : Option Json} :
    parseUserCQL2 cql2 filter = .ok none ↔ filterGiven filter = none := by
  unfold parseUserCQL2
  constructor
  · intro absent
    split at absent
    · assumption
    · rename_i text _
      cases found : cql2.parseText text <;> simp [found] at absent
    · rename_i json _ _
      cases found : cql2.parseJson json <;> simp [found] at absent
  · intro absent
    rw [absent]

/-- Without a fence only the filter of the client is written. -/
theorem Unconstrained.inject_eq (free : Unconstrained c) {spatial : Bool} (sr : Request)
    (absent : fenceToPush cql2 c spatial = .ok none) :
    injectCQL2Filter cql2 sr c spatial = match parseUserCQL2 cql2 sr.filter with
      | .error _ => .error .userFilter
      | .ok none => .ok (sr, c)
      | .ok (some expr) => match encodeForLang cql2 expr (langOf sr) with
        | none => .error (.policy .encodeFilter)
        | some encoded => .ok ({ sr with filter := some encoded, filterLang := langOf sr }, c) := by
  simp only [injectCQL2Filter, maybePushDownGeofence_of_none absent, free.parsePolicyCQL2,
    free.requiredFiltersToCQL2, Except.mapError, bind, Except.bind]
  cases parseUserCQL2 cql2 sr.filter with
  | error _ => rfl
  | ok user =>
    cases user with
    | none => rfl
    | some expr =>
      simp only [andNonNil, List.filterMap_cons, List.filterMap_nil, id, langOf]
      rfl

theorem written_eq_iff {sr : Request} {encoded : Json} {lang : String} :
    ({ sr with filter := some encoded, filterLang := lang } : Request) = sr ↔
      sr.filter = some encoded ∧ sr.filterLang = lang := by
  cases sr
  simp [Request.mk.injEq, eq_comm]

theorem langOf_eq_iff {sr : Request} : sr.filterLang = langOf sr ↔ sr.filterLang ≠ "" := by
  unfold langOf
  split
  · rename_i unnamed
    simp [unnamed]
  · rename_i named
    simp [named]

/-- Without a fence the request stays as it is exactly if its filter is spelled out. -/
theorem Unconstrained.inject_spelled (free : Unconstrained c) {spatial : Bool} {sr : Request}
    (absent : fenceToPush cql2 c spatial = .ok none) :
    (Spelled cql2 sr → injectCQL2Filter cql2 sr c spatial = .ok (sr, c)) ∧
      ∀ after, injectCQL2Filter cql2 sr c spatial = .ok (sr, after) → Spelled cql2 sr := by
  rw [free.inject_eq sr absent]
  constructor
  · rintro (unfiltered | ⟨named, value, expr, filter, reads, writes⟩)
    · rw [parseUserCQL2_eq_none.mpr unfiltered]
    · have lang := langOf_eq_iff.mpr named
      rw [lang] at writes
      simp only [reads, writes, written_eq_iff.mpr ⟨filter, lang⟩]
  · intro after same
    cases user : parseUserCQL2 cql2 sr.filter with
    | error _ => simp [user] at same
    | ok parsed =>
      cases parsed with
      | none => exact .inl (parseUserCQL2_eq_none.mp user)
      | some expr =>
        cases writes : encodeForLang cql2 expr (langOf sr) with
        | none => simp [user, writes] at same
        | some encoded =>
          simp only [user, writes, Except.ok.injEq, Prod.mk.injEq, written_eq_iff] at same
          obtain ⟨⟨filter, lang⟩, -⟩ := same
          rw [← lang] at writes
          exact .inr ⟨langOf_eq_iff.mp lang, encoded, expr, filter, user, writes⟩

/-- A filter that a conjunction was written to reads as the conjunction. -/
theorem parseUserCQL2_written (roundTrips : cql2.RoundTrips) (operators : WritesOperators cql2)
    {operator : Operator} {args : List Node} {lang : String} {encoded : Json}
    (writes : encodeForLang cql2 (.op operator args) lang = some encoded) :
    parseUserCQL2 cql2 (some encoded) = .ok (some (.op operator args)) := by
  unfold encodeForLang at writes
  split at writes
  · obtain ⟨present, reads⟩ := roundTrips.json (.op operator args) writes
    unfold parseUserCQL2
    rw [present]
    split
    · contradiction
    · rename_i text same
      cases same
      exact absurd writes (operators operator args text)
    · rename_i json _ same
      cases same
      rw [reads]
      rfl
  · obtain ⟨text, text_writes, rfl⟩ := Option.map_eq_some_iff.mp writes
    obtain ⟨present, reads⟩ := roundTrips.text (.op operator args) text_writes
    simp [parseUserCQL2, present, reads]

/-- The fence of a denied area is a negation. -/
theorem Unconstrained.fence_not (free : Unconstrained c) {spatial : Bool} {fence : Node}
    (built : fenceToPush cql2 c spatial = .ok (some fence)) : ∃ args, fence = .op .not args := by
  unfold fenceToPush at built
  cases fenced : c.geofence with
  | none => simp [fenced] at built
  | some g =>
    simp only [fenced] at built
    split at built
    · cases built
    · simp only [geofenceToCQL2, bind_eq_ok] at built
      obtain ⟨allowed, allowed_ok, denied, denied_ok, joined⟩ := built
      simp only [areaPredicate, free.allowedArea g fenced] at allowed_ok
      cases allowed_ok
      have joined : andNonNil [none, denied] = some fence := Except.ok.inj joined
      cases denied with
      | none => cases joined
      | some expr =>
        obtain rfl : expr = fence := Option.some.inj joined
        obtain ⟨literal, rfl⟩ := areaPredicate_eq_some denied_ok
        exact ⟨_, rfl⟩

/-- A fence that is pushed down changes the request. -/
theorem Unconstrained.inject_fence (free : Unconstrained c) (roundTrips : cql2.RoundTrips)
    (operators : WritesOperators cql2) {spatial : Bool} {sr : Request} {after : AuthzConstraints}
    (present : fenceToPush cql2 c spatial ≠ .ok none) :
    injectCQL2Filter cql2 sr c spatial ≠ .ok (sr, after) := by
  intro same
  simp only [injectCQL2Filter, bind_eq_ok, mapError_eq_ok] at same
  obtain ⟨⟨updated, pushed⟩, pushes, policy, policy_ok, required, required_ok, user, user_ok,
    same⟩ := same
  obtain ⟨-, same_required, -⟩ := maybePushDownGeofence_frame pushes
  obtain ⟨-, -, absent⟩ | ⟨fence, before, text, combined, built, before_ok, joined, encoded, -, rfl⟩ :=
    maybePushDownGeofence_eq_ok pushes
  · exact present absent
  have makes := pushed_makes before_ok built joined
  rw [parsePolicyCQL2_encoded roundTrips makes encoded c] at policy_ok
  rw [same_required, free.requiredFiltersToCQL2] at required_ok
  rw [free.parsePolicyCQL2] at before_ok
  cases policy_ok
  cases required_ok
  cases before_ok
  obtain ⟨args, rfl⟩ := free.fence_not built
  obtain rfl : Node.op .not args = combined := Option.some.inj joined
  obtain ⟨operator, parts, merged, apart⟩ : ∃ operator parts,
      andNonNil [user, some (.op .not args), none] = some (.op operator parts) ∧
        user ≠ some (.op operator parts) := by
    cases user with
    | none => exact ⟨.not, args, rfl, fun same => by cases same⟩
    | some expr =>
      refine ⟨.and, [expr, .op .not args], rfl, fun same => ?_⟩
      have size := congrArg sizeOf (Option.some.inj same)
      simp only [Node.op.sizeOf_spec, List.cons.sizeOf_spec] at size
      omega
  rw [merged] at same
  dsimp only at same
  split at same
  · cases same
  · rename_i encoded writes
    obtain ⟨filter, -⟩ := written_eq_iff.mp (congrArg Prod.fst (Except.ok.inj same))
    rw [filter, parseUserCQL2_written roundTrips operators writes] at user_ok
    exact apart (Except.ok.inj user_ok).symm

/-- What is kept of a search request. -/
theorem requestKept_iff (constraints : d.constraints = some c) {i : Info} {sr : Request}
    (searches : i.searchReq = some sr) : RequestKept cql2 cfg (some i) d ↔
      (cfg.injects i = true → ¬ PushesDenied cfg i c ∧ Spelled cql2 sr) := by
  constructor
  · intro kept
    exact kept c i sr constraints rfl searches
  · rintro kept _ _ _ found ⟨⟩ again
    rw [constraints] at found
    rw [searches] at again
    cases found
    cases again
    exact kept

/-- An unconstrained search is prepared as it is exactly if its filter is kept. -/
theorem Unconstrained.prepare_iff (free : Unconstrained c) (roundTrips : cql2.RoundTrips)
    (operators : WritesOperators cql2) (constraints : d.constraints = some c) {i : Info}
    {sr : Request} (searches : i.searchReq = some sr) :
    (RequestKept cql2 cfg (some i) d → prepare cql2 cfg i sr c = .ok (i, c)) ∧
      ∀ after, prepare cql2 cfg i sr c = .ok (i, after) →
        RequestKept cql2 cfg (some i) d ∧ after = c := by
  have same_info : { i with searchReq := some sr } = i := by rw [← searches]
  rw [requestKept_iff constraints searches]
  simp only [prepare, free.applyConstraints, same_info]
  cases gate : cfg.injects i with
  | false => simp [eq_comm]
  | true =>
    have pushes : fenceToPush cql2 c (cfg.spatialOK i) = .ok none ↔ ¬ PushesDenied cfg i c :=
      free.fenceToPush_eq_none
    simp only [if_true, true_implies]
    constructor
    · rintro ⟨unpushed, spelled⟩
      rw [(free.inject_spelled (pushes.mpr unpushed)).1 spelled]
      dsimp only
      rw [same_info]
    · intro after same
      split at same
      · cases same
      · cases same
      · rename_i sent updated injected
        obtain ⟨moved, rfl⟩ := Prod.mk.inj (Except.ok.inj same)
        obtain rfl : sent = sr := by
          rw [← moved] at searches
          exact Option.some.inj searches
        have unpushed : ¬ PushesDenied cfg i c := by
          rw [← pushes]
          by_contra present
          exact free.inject_fence roundTrips operators present injected
        have written : (Spelled cql2 sent → _) ∧ _ := free.inject_spelled (pushes.mpr unpushed)
        have spelled := written.2 updated injected
        rw [written.1 spelled] at injected
        cases injected
        exact ⟨⟨unpushed, spelled⟩, rfl⟩

/-- An unconstrained request is admitted as it is exactly if its filter is kept. -/
theorem Unconstrained.admitted_iff (free : Unconstrained c) (roundTrips : cql2.RoundTrips)
    (operators : WritesOperators cql2) (constraints : d.constraints = some c) (info : Option Info) :
    (RequestKept cql2 cfg info d → admitted cql2 cfg info d.constraints = .ok (info, some c)) ∧
      ∀ after, admitted cql2 cfg info d.constraints = .ok (info, after) →
        RequestKept cql2 cfg info d ∧ after = some c := by
  rw [constraints]
  cases info with
  | none =>
    refine ⟨fun _ => rfl, ?_⟩
    rintro _ ⟨⟩
    exact ⟨by rintro c i sr _ ⟨⟩, rfl⟩
  | some i =>
    cases searches : i.searchReq with
    | none =>
      have admits : admitted cql2 cfg (some i) (some c) = .ok (some i, some c) := by
        simp [admitted, searches]
      refine ⟨fun _ => admits, fun after same => ?_⟩
      rw [admits] at same
      cases same
      refine ⟨?_, rfl⟩
      rintro _ _ _ _ ⟨⟩ found
      rw [searches] at found
      cases found
    | some sr =>
      have admits : admitted cql2 cfg (some i) (some c) =
          (prepare cql2 cfg i sr c).map fun pair => (some pair.1, some pair.2) := by
        simp [admitted, searches]
      obtain ⟨kept, same_kept⟩ : (RequestKept cql2 cfg (some i) d → _) ∧ _ :=
        free.prepare_iff roundTrips operators constraints searches
      rw [admits]
      constructor
      · intro request
        rw [kept request]
        rfl
      · intro after same
        obtain ⟨⟨moved, updated⟩, prepared, pair⟩ := map_eq_ok.mp same
        obtain ⟨same_info, rfl⟩ := Prod.mk.inj pair
        obtain rfl := Option.some.inj same_info
        obtain ⟨request, rfl⟩ := same_kept updated prepared
        exact ⟨request, rfl⟩

end Unconstrained

section Responses
variable {G : Type} {lib : Cql2Eval.Library G} {cql2 : Cql2Library}
variable {unmarshal : Bytes → Option Json} {marshal : Json → Bytes}
variable {c : AuthzConstraints} {info : Option Info} {r : Response}

theorem decodeMap_eq_obj {body : Bytes} {fc : Members} (reads : decodeMap unmarshal body = some fc)
    (typed : isCollection fc = true) : unmarshal body = some (.obj fc) := by
  unfold decodeMap at reads
  split at reads
  · rename_i members decoded
    obtain rfl := Option.some.inj reads
    exact decoded
  · obtain rfl := Option.some.inj reads
    cases typed
  · cases reads

/-- A filtered collection is the body that came in only if nothing was dropped. -/
theorem withFeatures_eq_iff (encodes : Encodes unmarshal marshal) {body : Bytes} {fc : Members}
    (reads : decodeMap unmarshal body = some fc) (typed : isCollection fc = true)
    {elems kept : List Json} (listed : (member fc "features").asArray? = some elems)
    (sublist : kept.Sublist elems) :
    marshal (.obj (withFeatures fc kept)) = body ↔
      withFeatures fc kept = fc ∧ marshal (.obj fc) = body := by
  have decoded := decodeMap_eq_obj reads typed
  constructor
  · intro same
    have within : kept.Sublist (features fc) := by simpa [features, listed] using sublist
    have again := encodes body fc kept decoded within
    rw [same, decoded] at again
    have unchanged : fc = withFeatures fc kept := Json.obj.inj (Option.some.inj again)
    exact ⟨unchanged.symm, by rw [← unchanged] at same; exact same⟩
  · rintro ⟨unchanged, same⟩
    rw [unchanged, same]

theorem postFilter_kept_iff (encodes : Encodes unmarshal marshal) (succeeded : r.succeeded = true) :
    (∃ payload, postFilter lib unmarshal c r = some payload ∧ bytesOf marshal payload = r.body) ↔
      KeptWhole lib unmarshal marshal c r.body := by
  by_cases empty : r.body = []
  · refine iff_of_true ⟨_, postFilter_empty empty, rfl⟩ ?_
    intro _ _ _ _ nonempty
    exact absurd empty nonempty
  · rw [postFilter_eq succeeded empty]
    unfold KeptWhole
    cases areas : filterAreas lib c with
    | none => exact iff_of_true ⟨_, rfl, rfl⟩ nofun
    | some found =>
      obtain ⟨name, allowed, denied⟩ := found
      simp only [Option.some.injEq, Prod.mk.injEq, and_imp, ne_eq, empty, not_false_eq_true,
        true_implies]
      cases reads : decodeMap unmarshal r.body with
      | none =>
        cases bodyClaimsFeatureCollection r.body <;> simp [bytesOf]
      | some fc =>
        dsimp only
        cases typed : isCollection fc with
        | false => simp [bytesOf]
        | true =>
          cases listed : (member fc "features").asArray? with
          | none => simp
          | some elems =>
            have whole : marshal (.obj (withFeatures fc
                (keptFeatures lib allowed denied name elems))) = r.body ↔ _ :=
              withFeatures_eq_iff encodes reads typed listed List.filter_sublist
            simp [bytesOf, whole]

/-- A response is forwarded as it is exactly if it did not succeed, or is kept. -/
theorem respond_kept_iff (encodes : Encodes unmarshal marshal) :
    (∃ header payload, respond lib cql2 unmarshal (some c) info r =
        .forwarded r.status header payload ∧ bytesOf marshal payload = r.body) ↔
      (r.succeeded = true → KeptWhole lib unmarshal marshal c r.body ∧
        (info.map Info.requestType = some .item → ¬ RefusedRecord lib cql2 unmarshal c r.body)) := by
  cases succeeded : r.succeeded with
  | false =>
    have whole : postFilter lib unmarshal c r = some (.raw r.body) := by
      unfold postFilter
      split <;> simp [succeeded]
    refine iff_of_true ⟨r.header, .raw r.body, ?_, rfl⟩ nofun
    simp [respond, whole, succeeded]
  | true =>
    rw [← postFilter_kept_iff encodes succeeded]
    constructor
    · rintro ⟨header, payload, forwards, same⟩ -
      obtain ⟨-, -, filtered, -⟩ := respond_eq_forwarded forwards
      refine ⟨⟨payload, filtered, same⟩, fun single => ?_⟩
      exact (respond_item_iff lib cql2 unmarshal c single succeeded).mp ⟨_, header, payload, forwards⟩
    · intro kept
      obtain ⟨⟨payload, filtered, same⟩, unrefused⟩ := kept rfl
      by_cases single : info.map Info.requestType = some .item
      · obtain ⟨status, header, forwarded, forwards⟩ :=
          (respond_item_iff lib cql2 unmarshal c single succeeded).mpr (unrefused single)
        obtain ⟨rfl, -, again, -⟩ := respond_eq_forwarded forwards
        rw [filtered] at again
        cases again
        exact ⟨header, payload, forwards, same⟩
      · exact ⟨r.header, payload, by simp [respond, filtered, single], same⟩

end Responses

section Middleware
variable {G : Type} {lib : Cql2Eval.Library G} {cql2 : Cql2Library}
variable {unmarshal : Bytes → Option Json} {marshal : Json → Bytes}
variable {cfg : HTTPConfig} {authenticated : Bool} {d : AuthzDecision}

/-- An allowed decision that is found unconstrained leaves a request and its response alone
exactly if the filter of the request is kept and the response is. -/
theorem passedOn_iff (roundTrips : cql2.RoundTrips) (operators : WritesOperators cql2)
    (encodes : Encodes unmarshal marshal)
    (login : authenticated = true ∨ cfg.allowAnonymous = true) (allowed : d.allowed = true)
    (none_found : hasConstraints d = false) (info : Option Info) (r : Response) :
    PassedOn lib cql2 unmarshal marshal cfg authenticated d info r ↔
      RequestKept cql2 cfg info d ∧ ResponseKept lib cql2 unmarshal marshal info d r := by
  have passes : (!authenticated && !cfg.allowAnonymous) = false := by
    rcases login with known | anonymous
    · simp [known]
    · simp [anonymous]
  cases constraints : d.constraints with
  | none =>
    have admits : admitted cql2 cfg info d.constraints = .ok (info, none) := by
      rw [constraints]
      cases info <;> rfl
    refine iff_of_true ⟨⟨none, admits⟩, r.header, .raw r.body, ?_, rfl⟩ ⟨?_, ?_⟩
    · simp [serve, passes, allowed, admits, respond]
    · intro c _ _ found
      rw [constraints] at found
      cases found
    · intro c found
      rw [constraints] at found
      cases found
  | some c =>
    have free := unconstrained_of_hasConstraints constraints none_found
    obtain ⟨kept, same_kept⟩ : (RequestKept cql2 cfg info d → _) ∧ _ :=
      free.admitted_iff roundTrips operators constraints info
    have answered : admitted cql2 cfg info d.constraints = .ok (info, some c) →
        serve lib cql2 unmarshal cfg authenticated (.ok d) info (fun _ => r) =
          respond lib cql2 unmarshal (some c) info r :=
      serve_admitted login allowed
    have responses : ResponseKept lib cql2 unmarshal marshal info d r ↔
        ∃ header payload, respond lib cql2 unmarshal (some c) info r =
          .forwarded r.status header payload ∧ bytesOf marshal payload = r.body := by
      refine Iff.trans ?_ (respond_kept_iff encodes).symm
      constructor
      · intro kept
        exact kept c constraints
      · intro kept c' found
        rw [constraints] at found
        cases found
        exact kept
    rw [responses]
    constructor
    · rintro ⟨⟨after, admits⟩, served⟩
      obtain ⟨request, rfl⟩ := same_kept after admits
      rw [answered admits] at served
      exact ⟨request, served⟩
    · rintro ⟨request, served⟩
      have admits := kept request
      rw [← answered admits] at served
      exact ⟨⟨some c, admits⟩, served⟩

end Middleware

section Samples

/-- A square from 0 to 2. -/
def squareFeature : Json :=
  .obj [("geometry", .obj [("coordinates", .arr [.arr [point 0 0, point 2 0, point 2 2, point 0 2,
    point 0 0]]), ("type", .str "Polygon")]), ("type", .str "Feature")]

def page (elems : List Json) : Members :=
  [("features", .arr elems), ("type", .str "FeatureCollection")]

def pageText (elems : String) : Bytes :=
  ("\x7b\"features\":[" ++ elems ++ "],\"type\":\"FeatureCollection\"\x7d").toUTF8.data.toList

def squareText : String :=
  "\x7b\"geometry\":\x7b\"coordinates\":[[[0,0],[2,0],[2,2],[0,2],[0,0]]]," ++
    "\"type\":\"Polygon\"\x7d,\"type\":\"Feature\"\x7d"

/-- Reads a page with the square and one without it. -/
def pageUnmarshal (body : Bytes) : Option Json :=
  if body = pageText squareText then some (.obj (page [squareFeature]))
  else if body = pageText "" then some (.obj (page []))
  else none

def pageMarshal : Json → Bytes
  | .obj members => if (features members).isEmpty then pageText "" else pageText squareText
  | _ => []

theorem page_encodes : Encodes pageUnmarshal pageMarshal := by
  have apart : pageText "" ≠ pageText squareText := by decide +kernel
  have reads_full : pageUnmarshal (pageText squareText) = some (.obj (page [squareFeature])) :=
    if_pos rfl
  have reads_empty : pageUnmarshal (pageText "") = some (.obj (page [])) :=
    (if_neg apart).trans (if_pos rfl)
  intro body fc kept decoded sublist
  unfold pageUnmarshal at decoded
  split at decoded
  · cases decoded
    rcases List.sublist_singleton.mp sublist with rfl | rfl
    · exact reads_empty
    · exact reads_full
  · split at decoded
    · cases decoded
      obtain rfl := List.sublist_nil.mp sublist
      exact reads_empty
    · cases decoded

theorem sampleCql2_writesOperators : WritesOperators SearchEnforcement.sampleCql2 := nofun

/-- A decision that denies an area, and filters. -/
def denyingDecision (minX minY maxX maxY : ℚ) : AuthzDecision where
  allowed := true
  constraints := some { geofence := some (denying minX minY maxX maxY) }

/-- A decision with constraints that have no part. -/
def emptyDecision : AuthzDecision where
  allowed := true
  constraints := some {}

def searching (filter : Option Json) (filterLang : String := "") : Option Info :=
  some { requestType := .search, searchReq := some { filter, filterLang } }

def pageResponse : Response where
  status := 200
  body := pageText squareText

/-- A denied area away from the square. -/
theorem distant_page_passedOn :
    PassedOn boxLibrary SearchEnforcement.sampleCql2 pageUnmarshal pageMarshal {} true
      (denyingDecision 5 5 6 6) (searching none) pageResponse := by
  refine (passedOn_iff SearchEnforcement.sampleCql2_roundTrips sampleCql2_writesOperators page_encodes
    (.inl rfl) rfl (by decide +kernel) (searching none) pageResponse).mpr ⟨?_, ?_⟩
  · rintro c i sr - ⟨⟩ - ⟨⟩
  · rintro c ⟨⟩ -
    refine ⟨?_, by rintro ⟨⟩⟩
    rintro name allowed denied ⟨⟩ -
    exact fun _ => ⟨[squareFeature], rfl, rfl, rfl⟩

/-- The square inside the denied area is dropped from the page, and the filter of a search is
given a language. -/
theorem unconstrained_disturbs :
    hasConstraints (denyingDecision 0 0 3 3) = false ∧
    ¬ PassedOn boxLibrary SearchEnforcement.sampleCql2 pageUnmarshal pageMarshal {} true
      (denyingDecision 0 0 3 3) (searching none) pageResponse ∧
    hasConstraints emptyDecision = false ∧
    ¬ PassedOn boxLibrary SearchEnforcement.sampleCql2 pageUnmarshal pageMarshal
      { cql2InjectionEnabled := true } true emptyDecision (searching (some (.str "a = 'b'")))
      pageResponse := by
  refine ⟨by decide +kernel, ?_, by decide +kernel, ?_⟩
  · rintro ⟨-, header, payload, served, same⟩
    have dropped : serve boxLibrary SearchEnforcement.sampleCql2 pageUnmarshal {} true
        (.ok (denyingDecision 0 0 3 3)) (searching none) (fun _ => pageResponse) =
          .forwarded 200 [] (.document (page [])) := rfl
    rw [dropped] at served
    cases served
    revert same
    decide +kernel
  · rintro ⟨⟨after, admits⟩, -⟩
    have renamed : admitted SearchEnforcement.sampleCql2 { cql2InjectionEnabled := true }
        (searching (some (.str "a = 'b'"))) emptyDecision.constraints =
          .ok (searching (some (.str "a = 'b'")) "cql2-text", some {}) := rfl
    rw [renamed] at admits
    have same_info := congrArg Prod.fst (Except.ok.inj admits)
    have languages : some "cql2-text" = some "" :=
      congrArg (fun info => (info.bind Info.searchReq).map Request.filterLang) same_info
    exact absurd languages (by decide)

end Samples

end UnconstrainedDecision
