import StacProxy.OutboundRequest
import StacProxy.SingleRecord

/-!
# Enforcement and content coding

The proxy forwards the client's Accept-Encoding, and the transport then leaves the response
as the upstream coded it. Both filters of the authorization middleware work on those bytes.
-/

namespace ContentCoding

open JsonValue SearchRequest Cql2Eval Geofence PolicyFilter AuthzMiddleware SingleRecord
open OutboundRequest

section Transport

structure Coding where
  name : String
  encode : Bytes → Bytes

/-- The body the capture gets. The transport decodes it only if the request did not ask for
a coding by itself. -/
def captured (outbound : Header) (coding : Coding) (text : Bytes) : Bytes :=
  if Header.get outbound "Accept-Encoding" = "" then text else coding.encode text

/-- The upstream answers with a document, coded. -/
structure Answered (unmarshal : Bytes → Option Json) (outbound : Header) (coding : Coding)
    (text : Bytes) (doc : Members) (r : Response) : Prop where
  succeeded : r.succeeded = true
  body : r.body = captured outbound coding text
  decodes : unmarshal text = some (.obj doc)

end Transport

section Reading
variable {G : Type} (lib : Library G) (cql2 : Cql2Library) (unmarshal : Bytes → Option Json)

/-- The item passes the geofence by the filter's own test. -/
def PassesGeofence (g : Constraint) (item : Members) : Prop :=
  match parseGeofenceAreas lib g with
  | none => False
  | some (none, none) => True
  | some (allowed, denied) => keepsFeature lib allowed denied g.geometryName item

/-- The filter applies and takes the bytes for a collection, readable or not. -/
def Guarded (c : AuthzConstraints) (body : Bytes) : Prop :=
  (filterAreas lib c).isSome ∧ body ≠ [] ∧ match decodeMap unmarshal body with
    | none => bodyClaimsFeatureCollection body = true
    | some m => isCollection m = true

/-- The document the client ends up with: it undoes the coding of a body that is passed on. -/
def clientView (doc : Members) : Payload → Members
  | .raw _ => doc
  | .document fc => fc

end Reading

section Collections
variable {G : Type} {lib : Library G} {cql2 : Cql2Library} {unmarshal : Bytes → Option Json}
variable {c : AuthzConstraints} {r : Response} {shape : Option Info} {g : Constraint}

theorem features_withFeatures {fc : Members} {elems kept : List Json}
    (listed : (member fc "features").asArray? = some elems) :
    features (withFeatures fc kept) = kept := by
  unfold features member at *
  cases present : fc.get? "features" with
  | none => simp [present, Json.asArray?] at listed
  | some _ => simp [get?_features, present, Json.asArray?]

theorem passesGeofence_of_kept {allowed denied : Option G} {elems : List Json} {item : Members}
    (readable : readableAreas lib g = some (allowed, denied))
    (kept : .obj item ∈ keptFeatures lib allowed denied g.geometryName elems) :
    PassesGeofence lib g item := by
  have keeps : keepsFeature lib allowed denied g.geometryName item = true :=
    (List.mem_filter.mp kept).2
  unfold readableAreas at readable
  unfold PassesGeofence
  split at readable
  · cases readable
  · cases readable
  · rename_i areas parsed
    obtain rfl := Option.some.inj readable
    split
    · rename_i unread
      rw [unread] at parsed
      cases parsed
    · trivial
    · rename_i reread
      rw [reread] at parsed
      cases parsed
      exact keeps

/-- What the geofence forwards: guarded bytes only filtered, all others as they are. -/
theorem postFilter_guarded (lib : Library G) (unmarshal : Bytes → Option Json)
    (fenced : c.geofence = some g) (filters : g.filterMode = true)
    (unpushed : c.geofencePushedDown = false) (succeeded : r.succeeded = true) :
    (Guarded lib unmarshal c r.body ∧ ∀ payload, postFilter lib unmarshal c r = some payload →
        ∃ fc, payload = .document fc ∧ ∀ item, .obj item ∈ features fc → PassesGeofence lib g item) ∨
      (¬ Guarded lib unmarshal c r.body ∧
        postFilter lib unmarshal c r = some (.raw r.body)) := by
  by_cases empty : r.body = []
  · exact .inr ⟨by simp [Guarded, empty], postFilter_empty empty⟩
  have areas_eq : filterAreas lib c =
      (readableAreas lib g).map fun areas => (g.geometryName, areas) := by
    simp [filterAreas, fenced, filters, unpushed]
  rw [postFilter_eq succeeded empty]
  unfold Guarded
  rw [areas_eq]
  cases readable : readableAreas lib g with
  | none => exact .inr ⟨by simp, rfl⟩
  | some areas =>
    simp only [Option.map_some, Option.isSome_some, ne_eq, empty, not_false_eq_true, true_and]
    cases decodeMap unmarshal r.body with
    | none => cases bodyClaimsFeatureCollection r.body <;> simp
    | some fc =>
      dsimp only
      cases isCollection fc with
      | false => simp
      | true =>
        refine .inl ⟨rfl, fun payload ok => ?_⟩
        cases listed : (member fc "features").asArray? with
        | none => simp [listed] at ok
        | some elems =>
          simp only [listed, if_true, Option.some.injEq] at ok
          refine ⟨_, ok.symm, fun item present => ?_⟩
          rw [features_withFeatures listed] at present
          exact passesGeofence_of_kept readable present

end Collections

section Coded
variable {G : Type} {lib : Library G} {cql2 : Cql2Library} {unmarshal : Bytes → Option Json}
variable {cfg : HTTPConfig} {authenticated : Bool} {decision : AuthzDecision}
variable {info sentInfo : Option Info} {c : AuthzConstraints} {next : Option Info → Response}

theorem respond_other (other : sentInfo.map Info.requestType ≠ some .item) {r : Response} :
    respond lib cql2 unmarshal (some c) sentInfo r = match postFilter lib unmarshal c r with
      | none => .refused ⟨502, "BadGateway",
          "upstream returned malformed FeatureCollection; geofence cannot enforce"⟩
      | some payload => .forwarded r.status r.header payload := by
  cases filtered : postFilter lib unmarshal c r <;> simp [respond, other, filtered]

/-- What a single record is held against holds whenever it is forwarded exactly if the record
is refused or it holds anyway. -/
theorem forwarded_item_iff (single : sentInfo.map Info.requestType = some .item) {r : Response}
    (succeeded : r.succeeded = true) {holds : Prop} :
    (∀ status header payload, respond lib cql2 unmarshal (some c) sentInfo r =
        .forwarded status header payload → holds) ↔
      RefusedRecord lib cql2 unmarshal c r.body ∨ holds := by
  have reaches := respond_item_iff lib cql2 unmarshal c single succeeded
  constructor
  · intro always
    by_cases refused : RefusedRecord lib cql2 unmarshal c r.body
    · exact .inl refused
    · obtain ⟨status, header, payload, forwards⟩ := reaches.mpr refused
      exact .inr (always status header payload forwards)
  · rintro (refused | holds) status header payload forwards
    · exact absurd refused (reaches.mp ⟨status, header, payload, forwards⟩)
    · exact holds

/-- The features that are forwarded pass the geofence exactly if the bytes are guarded or all
features of the document pass. -/
theorem forwarded_features_iff {g : Constraint} (fenced : c.geofence = some g)
    (filters : g.filterMode = true) (unpushed : c.geofencePushedDown = false)
    (other : sentInfo.map Info.requestType ≠ some .item) {r : Response}
    (succeeded : r.succeeded = true) (doc : Members) :
    (∀ status header payload, respond lib cql2 unmarshal (some c) sentInfo r =
        .forwarded status header payload →
        ∀ item, .obj item ∈ features (clientView doc payload) → PassesGeofence lib g item) ↔
      Guarded lib unmarshal c r.body ∨
        ∀ item, .obj item ∈ features doc → PassesGeofence lib g item := by
  simp only [respond_other other]
  rcases postFilter_guarded lib unmarshal fenced filters unpushed succeeded with
    ⟨guarded, only⟩ | ⟨unguarded, whole⟩
  · refine iff_of_true (fun status header payload forwards => ?_) (.inl guarded)
    cases filtered : postFilter lib unmarshal c r with
    | none => simp [filtered] at forwards
    | some kept =>
      simp only [filtered, Served.forwarded.injEq] at forwards
      obtain ⟨-, -, rfl⟩ := forwards
      obtain ⟨fc, rfl, passes⟩ := only kept filtered
      exact passes
  · simp only [whole, unguarded, false_or]
    constructor
    · exact fun always => always _ _ _ rfl
    · rintro passes _ _ _ ⟨⟩
      exact passes

/-- A readable record that is no collection is refused unless it satisfies the predicate. -/
theorem refused_or_meets {text : Bytes} {doc : Members} (decodes : unmarshal text = some (.obj doc))
    (nonempty : text ≠ []) (single : isCollection doc = false) {expr : Option Node}
    (built : combinedPredicate cql2 c = .ok expr) :
    RefusedRecord lib cql2 unmarshal c text ∨ MeetsCombined lib cql2 c doc := by
  by_cases satisfied : Satisfies lib doc expr
  · exact .inr ⟨expr, built, satisfied⟩
  · obtain ⟨predicate, rfl, fails⟩ : ∃ predicate, expr = some predicate ∧ ¬ Holds lib doc predicate := by
      simpa [Satisfies] using satisfied
    have whole : judged lib c doc = doc := by
      unfold judged
      split <;> simp [single]
    exact .inl (.inr ⟨predicate, doc, built, nonempty, by simp [decodeMap, decodes],
      by rwa [whole]⟩)

/-- Without a coding a single item is held against a predicate that can be built, and a collection
against a geofence with an area that can be read. -/
theorem uncoded_enforced {outbound : Header} {coding : Coding} {text : Bytes} {doc : Members}
    {r : Response} (answered : Answered unmarshal outbound coding text doc r)
    (uncoded : Header.get outbound "Accept-Encoding" = "") (nonempty : text ≠ []) :
    (sentInfo.map Info.requestType = some .item → isCollection doc = false →
      ∀ expr, combinedPredicate cql2 c = .ok expr → ∀ status header payload,
        respond lib cql2 unmarshal (some c) sentInfo r = .forwarded status header payload →
          MeetsCombined lib cql2 c doc) ∧
    (∀ g, c.geofence = some g → g.filterMode = true → c.geofencePushedDown = false →
      readableAreas lib g ≠ none → sentInfo.map Info.requestType ≠ some .item →
      isCollection doc = true → ∀ status header payload,
        respond lib cql2 unmarshal (some c) sentInfo r = .forwarded status header payload →
          ∀ item, .obj item ∈ features (clientView doc payload) → PassesGeofence lib g item) := by
  have body : r.body = text := by rw [answered.body, captured, if_pos uncoded]
  refine ⟨fun single plain expr built => ?_, fun g fenced filters unpushed read other typed => ?_⟩
  · rw [forwarded_item_iff single answered.succeeded, body]
    exact refused_or_meets answered.decodes nonempty plain built
  · refine (forwarded_features_iff fenced filters unpushed other answered.succeeded doc).mpr (.inl ?_)
    rw [body]
    refine ⟨?_, nonempty, by simpa [decodeMap, answered.decodes] using typed⟩
    simpa [filterAreas, fenced, filters, unpushed, Option.isSome_iff_ne_none] using read

/-- A coded body that neither decodes nor claims to be a collection is passed on, so that nothing is
held against the policy. -/
theorem undecoded_forwarded {outbound : Header} {coding : Coding} {text : Bytes} {doc : Members}
    {r : Response} (answered : Answered unmarshal outbound coding text doc r)
    (coded : Header.get outbound "Accept-Encoding" ≠ "")
    (undecoded : decodeMap unmarshal (coding.encode text) = none)
    (unclaimed : bodyClaimsFeatureCollection (coding.encode text) = false) :
    ¬ RefusedRecord lib cql2 unmarshal c r.body ∧ ¬ Guarded lib unmarshal c r.body := by
  have body : r.body = coding.encode text := by rw [answered.body, captured, if_neg coded]
  rw [body]
  constructor
  · rintro (⟨-, -, unfilterable⟩ | ⟨_, _, -, -, decoded, -⟩)
    · simp [undecoded, unclaimed] at unfilterable
    · rw [undecoded] at decoded
      cases decoded
  · rintro ⟨-, -, guarded⟩
    simp [undecoded, unclaimed] at guarded

/-- A request the upstream answers with a document, in whatever coding: a single item is held
against the combined predicate exactly if the bytes as coded are refused or the document
satisfies it, and the features of a collection are held against the geofence exactly if the
bytes as coded are guarded or all features pass. -/
theorem coded_enforcement_iff (login : authenticated = true ∨ cfg.allowAnonymous = true)
    (allowed : decision.allowed = true)
    (admits : admitted cql2 cfg info decision.constraints = .ok (sentInfo, some c))
    {o : OriginAuth} {d : Dispatch} {hasBody : Bool} {requestID : String} {inbound : Header}
    {coding : Coding} {text : Bytes} {doc : Members}
    (answered : Answered unmarshal (outboundHeader o d hasBody requestID inbound) coding text doc
      (next sentInfo)) :
    let body := captured (outboundHeader o d hasBody requestID inbound) coding text
    (sentInfo.map Info.requestType = some .item →
      ((∀ status header payload,
          serve lib cql2 unmarshal cfg authenticated (.ok decision) info next =
            .forwarded status header payload → MeetsCombined lib cql2 c doc) ↔
        RefusedRecord lib cql2 unmarshal c body ∨ MeetsCombined lib cql2 c doc)) ∧
    (∀ g, c.geofence = some g → g.filterMode = true → c.geofencePushedDown = false →
      sentInfo.map Info.requestType ≠ some .item → isCollection doc = true →
      ((∀ status header payload,
          serve lib cql2 unmarshal cfg authenticated (.ok decision) info next =
            .forwarded status header payload →
          ∀ item, .obj item ∈ features (clientView doc payload) → PassesGeofence lib g item) ↔
        Guarded lib unmarshal c body ∨
          ∀ item, .obj item ∈ features doc → PassesGeofence lib g item)) := by
  intro body
  have body_eq : (next sentInfo).body = body := answered.body
  simp only [serve_admitted login allowed admits, ← body_eq]
  refine ⟨fun single => ?_, fun g fenced filters unpushed other _ => ?_⟩
  · exact forwarded_item_iff single answered.succeeded
  · exact forwarded_features_iff fenced filters unpushed other answered.succeeded doc

end Coded

section Sample
open SearchEnforcement

def emptyCollection : Members :=
  [("type", .str "FeatureCollection"), ("features", .arr [.obj []])]

def emptyCollectionText : Bytes :=
  "\x7b\"type\":\"FeatureCollection\",\"features\":[\x7b\x7d]\x7d".toUTF8.data.toList

def codedUnmarshal (body : Bytes) : Option Json :=
  if body = emptyCollectionText then some (.obj emptyCollection) else recordUnmarshal body

/-- What gzip makes of two of the texts. -/
def gzip : Coding where
  name := "gzip"
  encode text :=
    if text = recordText "c" then [31, 139, 8, 0, 0, 0, 0, 0, 2, 3, 171, 86, 74, 84, 178, 82, 74, 86,
      170, 5, 0, 171, 54, 52, 106, 9, 0, 0, 0]
    else if text = emptyCollectionText then [31, 139, 8, 0, 0, 0, 0, 0, 2, 3, 171, 86, 42, 169, 44,
      72, 85, 178, 82, 114, 75, 77, 44, 41, 45, 74, 117, 206, 207, 201, 73, 77, 46, 201, 204, 207,
      83, 210, 81, 74, 131, 136, 21, 43, 89, 69, 87, 215, 198, 214, 2, 0, 151, 113, 10, 103, 44, 0,
      0, 0]
    else text

def sampleDispatch : Dispatch where
  forwardedFor := "203.0.113.7"
  forwardedHost := "proxy.example.com"
  forwardedProto := "https"

def sampleOutbound (inbound : Header) : Header := outboundHeader {} sampleDispatch false "" inbound

def codedNext (inbound : Header) (text : Bytes) (_ : Option Info) : Response where
  status := 200
  body := captured (sampleOutbound inbound) gzip text

/-- A geofence with an allowed area, enforced on the response. -/
def fencedPolicy : AuthzConstraints where
  geofence := some { allowedArea := .obj (boxPolygon 0 0 2 2), filterMode := true }

theorem sampleItem_excluded : ¬ MeetsCombined boxLibrary sampleCql2 samplePolicy (sampleItem "c") := by
  rintro ⟨policy, built, satisfied⟩
  obtain rfl : some (.op .eq [.prop "a", .str "b"]) = policy := Except.ok.inj built
  exact absurd (satisfied _ rfl) (by decide +kernel)

/-- Without a coding, an item that satisfies the policy is forwarded and one that does not is not. -/
theorem plain_item_enforced :
    serve boxLibrary sampleCql2 codedUnmarshal {} true (.ok sampleDecision)
      (some { requestType := .item }) (codedNext [] (recordText "b")) =
        .forwarded 200 [] (.raw (recordText "b")) ∧
      MeetsCombined boxLibrary sampleCql2 samplePolicy (sampleItem "b") ∧
    ¬ ∃ status header payload, serve boxLibrary sampleCql2 codedUnmarshal {} true
      (.ok sampleDecision) (some { requestType := .item }) (codedNext [] (recordText "c")) =
        .forwarded status header payload := by
  have answered : ∀ value doc, codedUnmarshal (recordText value) = some (.obj doc) →
      Answered codedUnmarshal (sampleOutbound []) gzip (recordText value) doc
        (codedNext [] (recordText value) (some { requestType := .item })) :=
    fun _ _ decodes => ⟨rfl, rfl, decodes⟩
  have listed : codedUnmarshal (recordText "b") = some (.obj (sampleItem "b")) :=
    (if_neg (by decide)).trans (if_pos rfl)
  have excluded : codedUnmarshal (recordText "c") = some (.obj (sampleItem "c")) :=
    (if_neg (by decide)).trans ((if_neg (by decide)).trans (if_pos rfl))
  have forwards : serve boxLibrary sampleCql2 codedUnmarshal {} true (.ok sampleDecision)
      (some { requestType := .item }) (codedNext [] (recordText "b")) =
        .forwarded 200 [] (.raw (recordText "b")) := rfl
  have meets : MeetsCombined boxLibrary sampleCql2 samplePolicy (sampleItem "b") := by
    refine ⟨some (.op .eq [.prop "a", .str "b"]), rfl, ?_⟩
    rintro _ ⟨⟩
    decide +kernel
  refine ⟨forwards, ((coded_enforcement_iff (c := samplePolicy) (.inl rfl) rfl rfl
    (answered "b" _ listed)).1 rfl).mpr (.inr meets) _ _ _ forwards, ?_⟩
  rintro ⟨status, header, payload, passed⟩
  refine sampleItem_excluded (((coded_enforcement_iff (c := samplePolicy) (.inl rfl) rfl rfl
    (answered "c" _ excluded)).1 rfl).mpr ?_ status header payload passed)
  exact refused_or_meets excluded (by decide) (by decide) rfl

/-- A client that accepts gzip gets an item that the policy excludes, and a feature that is
outside of the geofence. -/
theorem coded_responses_unfiltered :
    Header.get (sampleOutbound [("Accept-Encoding", "gzip")]) "Accept-Encoding" = gzip.name ∧
    (Answered codedUnmarshal (sampleOutbound [("Accept-Encoding", "gzip")]) gzip (recordText "c")
        (sampleItem "c")
        (codedNext [("Accept-Encoding", "gzip")] (recordText "c") (some { requestType := .item })) ∧
      serve boxLibrary sampleCql2 codedUnmarshal {} true (.ok sampleDecision)
        (some { requestType := .item }) (codedNext [("Accept-Encoding", "gzip")] (recordText "c")) =
          .forwarded 200 [] (.raw (gzip.encode (recordText "c"))) ∧
      ¬ MeetsCombined boxLibrary sampleCql2 samplePolicy (sampleItem "c")) ∧
    (Answered codedUnmarshal (sampleOutbound [("Accept-Encoding", "gzip")]) gzip
        emptyCollectionText emptyCollection (codedNext [("Accept-Encoding", "gzip")]
          emptyCollectionText (some { requestType := .items, searchReq := some {} })) ∧
      serve boxLibrary sampleCql2 codedUnmarshal {} true
        (.ok { allowed := true, constraints := some fencedPolicy })
        (some { requestType := .items, searchReq := some {} })
        (codedNext [("Accept-Encoding", "gzip")] emptyCollectionText) =
          .forwarded 200 [] (.raw (gzip.encode emptyCollectionText)) ∧
      ¬ PassesGeofence boxLibrary
        { allowedArea := .obj (boxPolygon 0 0 2 2), filterMode := true } []) := by
  refine ⟨by decide +kernel, ⟨⟨rfl, rfl, ?_⟩, rfl, sampleItem_excluded⟩, ⟨rfl, rfl, if_pos rfl⟩, rfl,
    Bool.false_ne_true⟩
  exact (if_neg (by decide)).trans ((if_neg (by decide)).trans (if_pos rfl))

end Sample

end ContentCoding
