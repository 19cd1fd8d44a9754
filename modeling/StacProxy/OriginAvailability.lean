import StacProxy.OriginPriority
import StacProxy.ResponseCache

/-!
# When no origin is there to answer

A lookup goes on to the next origin after an error as it does after a 404, and says 404 when there
is none left. The federated list of collections is forwarded to the primary origin if there is one
client; the clients and the origins that can be primary are collected under different conditions.
-/

namespace OriginAvailability

open CollectionRouting OriginPriority AuthzMiddleware

section Lookups

/-- The response of an outcome. A panic has none. -/
def response? (encode : ErrorReply → List UInt8) : Outcome → Option Response
  | .replied response => some response
  | .notFound description =>
    let error : ErrorReply := ⟨404, "NotFound", description⟩
    some ⟨404, [("Content-Type", "application/json")], encode error⟩
  | .panicked => none

variable (encode : ErrorReply → List UInt8) (L : Lookup) (annotate : Bool) (order : List Origin)

/-- What was asked for is absent if the lookup says so, and the lookup does not say so, nor gives
the cache anything to keep, if an origin out of reach might have it. -/
structure NotFoundMeansAbsent : Prop where
  absent : ∀ resp, response? encode (handleSingleResource L annotate order) = some resp →
    resp.status = 404 → ∀ o ∈ order, (L.reverseProxyOnce o).any (·.status = 404)
  unreachable : (∃ o ∈ order, L.reverseProxyOnce o = none) →
    (∀ o ∈ order, (L.reverseProxyOnce o).all (·.status = 404)) →
      ∃ resp, response? encode (handleSingleResource L annotate order) = some resp ∧
        500 ≤ resp.status ∧ resp.status < 600 ∧
        ∀ type, ResponseCache.entryOf {} type resp = none

variable {encode L annotate order}

theorem handleSingleResource_of_silent
    (silent : ∀ o ∈ order, (L.reverseProxyOnce o).all (·.status = 404)) :
    handleSingleResource L annotate order = .notFound L.notFoundDescription := by
  induction order with
  | nil => rfl
  | cons o rest ih =>
    rw [List.forall_mem_cons] at silent
    rw [handleSingleResource]
    cases answered : L.reverseProxyOnce o with
    | none => exact ih silent.2
    | some resp =>
      have missing : resp.status = 404 := by simpa [answered] using silent.1
      simpa [missing] using ih silent.2

theorem status_of_injected {codec : Codec} {own annotated : Response} {id url : String}
    (injected : injectOriginMetadata codec own id url = some annotated) :
    annotated.status = own.status := by
  unfold injectOriginMetadata at injected
  split at injected
  · dsimp only at injected
    split at injected
    · rw [← Option.some.inj injected]
    · rw [← Option.some.inj injected]
  · cases injected
  · rw [← Option.some.inj injected]

/-- Annotating an answer keeps its status. -/
theorem status_of_reply {o : Origin} {own resp : Response}
    (answer : response? encode (L.reply annotate o own) = some resp) : resp.status = own.status := by
  unfold Lookup.reply at answer
  split at answer
  · rw [← Option.some.inj answer]
  · split at answer
    · rename_i annotated injected
      rw [← Option.some.inj answer]
      exact status_of_injected injected
    · cases answer

/-- An answer other than 404 is passed on, so a 404 means that there was none. -/
theorem silent_of_status {resp : Response}
    (answer : response? encode (handleSingleResource L annotate order) = some resp)
    (missing : resp.status = 404) : ∀ o ∈ order, (L.reverseProxyOnce o).all (·.status = 404) := by
  induction order with
  | nil => simp
  | cons o rest ih =>
    rw [handleSingleResource] at answer
    rw [List.forall_mem_cons]
    cases answered : L.reverseProxyOnce o with
    | none =>
      rw [answered] at answer
      exact ⟨rfl, ih answer⟩
    | some own =>
      simp only [answered] at answer
      split at answer
      · rename_i here
        exact ⟨by simpa using here, ih answer⟩
      · rename_i found
        exact absurd ((status_of_reply answer).symm.trans missing) found

/-- A lookup answers 404 for absent things only, exactly if some origin answers with anything else
whenever one is out of reach. -/
theorem notFoundMeansAbsent_iff (encode : ErrorReply → List UInt8) (L : Lookup) (annotate : Bool)
    (order : List Origin) : NotFoundMeansAbsent encode L annotate order ↔
      ((∃ o ∈ order, L.reverseProxyOnce o = none) →
        ∃ o ∈ order, ∃ resp, L.reverseProxyOnce o = some resp ∧ resp.status ≠ 404) := by
  constructor
  · intro means unreachable
    by_contra none_other
    have silent : ∀ o ∈ order, (L.reverseProxyOnce o).all (·.status = 404) := by
      intro o member
      cases answered : L.reverseProxyOnce o with
      | none => rfl
      | some resp =>
        have missing : resp.status = 404 := by
          by_contra found
          exact none_other ⟨o, member, resp, answered, found⟩
        simpa using missing
    obtain ⟨resp, answer, server_error, -⟩ := means.unreachable unreachable silent
    rw [handleSingleResource_of_silent silent] at answer
    rw [← Option.some.inj answer] at server_error
    simp at server_error
  · intro other
    have reached : (∀ o ∈ order, (L.reverseProxyOnce o).all (·.status = 404)) →
        ∀ o ∈ order, L.reverseProxyOnce o ≠ none := by
      intro silent o member failed
      obtain ⟨w, listed, resp, answered, found⟩ := other ⟨o, member, failed⟩
      exact found (by simpa [answered] using silent w listed)
    constructor
    · intro resp answer missing o member
      have silent := silent_of_status answer missing
      obtain ⟨own, answered⟩ := Option.ne_none_iff_exists'.mp (reached silent o member)
      simpa [answered] using silent o member
    · rintro ⟨o, member, failed⟩ silent
      exact absurd failed (reached silent o member)

/-- An item that one origin does not have while another one is down. -/
def halfDown : Lookup where
  codec := { unmarshal := fun _ => none, marshal := fun _ => [] }
  url := { path := RequestPath.bytes "/collections/c/items/i" }
  target := { requestType := .item, collection := RequestPath.bytes "c" }
  answer o _ := if o.id = "near" then none else some { status := 404, header := [], body := [] }
  notFoundDescription := "Item not found"

/-- The item is reported as missing, and the default cache keeps that. -/
theorem outage_reported_missing :
    (halfDown.reverseProxyOnce near).isNone ∧
      (response? (fun _ => []) (handleSingleResource halfDown true [near, far])).any fun resp =>
        decide (resp.status = 404) && (ResponseCache.entryOf {} .item resp).isSome := by
  decide +kernel

end Lookups

section SingleClient

/-- The clients of the origins by ID, and the router. -/
structure Deployment where
  clients : Std.ExtTreeMap String Origin
  router : Router

/-- One turn of the loop in `NewHandler`; `accepts` says for which origins a client can be made. -/
def initOrigin (accepts : Origin → Bool) (d : Deployment) (o : Origin) : Option Deployment :=
  if !o.enabled then some d
  else if accepts o then some ⟨d.clients.insert o.id o, register d.router o⟩
  else none

def newDeployment (accepts : Origin → Bool) (origins : List Origin) : Option Deployment :=
  origins.foldlM (initOrigin accepts) ⟨∅, newCollectionRouter⟩

inductive Forwarded where
  /-- `origin.ID` of a nil origin. -/
  | nilDereference
  | unknownOrigin (id : String)
  | sent (client : Origin)
  deriving DecidableEq, Repr

def Deployment.reverseProxyOnce (d : Deployment) : Option Origin → Forwarded
  | none => .nilDereference
  | some origin => match d.clients[origin.id]? with
    | none => .unknownOrigin origin.id
    | some client => .sent client

/-- Where `GET /collections` is forwarded to; with several clients it is not. -/
def Deployment.forwardCollections (d : Deployment) : Option Forwarded :=
  if d.clients.size = 1 then some (d.reverseProxyOnce (primaryOrigin d.router)) else none

variable {accepts : Origin → Bool} {origins : List Origin} {d : Deployment}

theorem newDeployment_eq (accepted : newDeployment accepts origins = some d) :
    d.router = routerOf (origins.filter (·.enabled)) ∧
      ∀ id : String, id ∈ d.clients ↔ ∃ o ∈ origins, o.enabled ∧ o.id = id := by
  unfold newDeployment at accepted
  suffices main : ∀ (start : Deployment), origins.foldlM (initOrigin accepts) start = some d →
      d.router = (origins.filter (·.enabled)).foldl register start.router ∧
      ∀ id : String, id ∈ d.clients ↔ id ∈ start.clients ∨ ∃ o ∈ origins, o.enabled ∧ o.id = id by
    obtain ⟨router, clients⟩ := main _ accepted
    exact ⟨router, by simpa using clients⟩
  clear accepted
  induction origins with
  | nil =>
    intro start run
    obtain rfl : start = d := by simpa using run
    simp
  | cons o rest ih =>
    intro start run
    rw [List.foldlM_cons] at run
    unfold initOrigin at run
    cases enabled : o.enabled with
    | false =>
      simp only [enabled, Bool.not_false, if_true] at run
      obtain ⟨router, clients⟩ := ih start run
      exact ⟨by simpa [enabled] using router, by simpa [enabled] using clients⟩
    | true =>
      simp only [enabled, Bool.not_true, Bool.false_eq_true, if_false] at run
      split at run
      · obtain ⟨router, clients⟩ := ih _ run
        refine ⟨by simpa [enabled] using router, fun id => ?_⟩
        rw [clients, Std.ExtTreeMap.mem_insert]
        simp [enabled, or_assoc, or_left_comm]
      · cases run

theorem primaryOrigin_isSome (accepted : newDeployment accepts origins = some d) :
    (∃ o, primaryOrigin d.router = some o) ↔
      ∃ o ∈ origins, o.enabled ∧ (o.searchable ∨ o.collections ≠ []) := by
  have listed : ∀ o, o ∈ enabledOrigins d.router ↔
      o ∈ origins ∧ o.enabled ∧ (o.searchable ∨ o.collections ≠ []) := by
    intro o
    rw [enabledOrigins, (newDeployment_eq accepted).1, List.mem_filter, mem_allOrigins,
      List.mem_filter]
    tauto
  constructor
  · rintro ⟨o, found⟩
    exact ⟨o, (listed o).mp (primaryOrigin_eq_some found).1⟩
  · rintro ⟨o, member⟩
    exact exists_primaryOrigin ((listed o).mpr member)

/-- With one client, the list of collections is forwarded to an origin with a client exactly if
some enabled origin is searchable or has a list of collections. -/
theorem collections_forwarded_iff (accepted : newDeployment accepts origins = some d)
    (one : d.clients.size = 1) : (∃ client, d.forwardCollections = some (.sent client)) ↔
      ∃ o ∈ origins, o.enabled ∧ (o.searchable ∨ o.collections ≠ []) := by
  rw [← primaryOrigin_isSome accepted, Deployment.forwardCollections, if_pos one]
  constructor
  · rintro ⟨client, forwarded⟩
    cases found : primaryOrigin d.router with
    | none =>
      rw [found] at forwarded
      cases forwarded
    | some o => exact ⟨o, rfl⟩
  · rintro ⟨o, found⟩
    have enabled : o ∈ origins ∧ o.enabled := by
      have member := (primaryOrigin_eq_some found).1
      rw [enabledOrigins, (newDeployment_eq accepted).1, List.mem_filter, mem_allOrigins,
        List.mem_filter] at member
      exact member.1.1
    have known : o.id ∈ d.clients :=
      ((newDeployment_eq accepted).2 o.id).mpr ⟨o, enabled.1, enabled.2, rfl⟩
    rw [Std.ExtTreeMap.mem_iff_isSome_getElem?] at known
    obtain ⟨client, has⟩ := Option.isSome_iff_exists.mp known
    refine ⟨client, ?_⟩
    rw [found]
    simp only [Deployment.reverseProxyOnce, has]

def deploymentOf (o : Origin) : Deployment := ⟨Std.ExtTreeMap.ofList [(o.id, o)], routerOf [o]⟩

theorem searchable_origin_asked :
    (newDeployment (fun _ => true) [near]).isSome ∧
      ∃ client, (deploymentOf near).forwardCollections = some (.sent client) := by
  have accepted : newDeployment (fun _ => true) [near] = some (deploymentOf near) := rfl
  exact ⟨rfl, (collections_forwarded_iff accepted (by decide +kernel)).mpr
    ⟨near, by simp, rfl, .inl rfl⟩⟩

/-- The only client's origin is neither searchable nor has a list of collections. -/
theorem bare_origin_dereferenced :
    (newDeployment (fun _ => true) [bare]).any fun d =>
      decide (d.clients.size = 1 ∧ d.forwardCollections = some .nilDereference) := by
  decide +kernel

end SingleClient

end OriginAvailability
