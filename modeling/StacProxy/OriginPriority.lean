import StacProxy.RequestPath
import StacProxy.SearchMerge
import StacProxy.SearchPaths

/-!
# Which origin is preferred

A lower priority is preferred: merged searches keep the copy of the origin that comes first by
priority and ID. Lookups of a single resource ask the routed origins one after the other, in
the order in which the router lists a Go map, and take the first answer that is no 404. Generic
requests go to the primary origin.
-/

namespace OriginPriority

open CollectionRouting SearchPaths JsonValue StacItem AuthzMiddleware

section Annotation

structure Codec where
  unmarshal : List UInt8 → Option Json
  marshal : Json → List UInt8

def textOf (m : Members) (name : String) : String :=
  ((m.get? name).bind Json.asString?).getD ""

def linksOrigin (originID : String) : Json → Bool
  | .obj m => textOf m "rel" == originLinkRel && textOf m "title" == originID
  | _ => false

def linkObject (originID originURL : String) : Json :=
  .obj [("href", .str originURL), ("rel", .str originLinkRel), ("type", .str "application/json"),
    ("title", .str originID)]

def setMember (m : Members) (name : String) (value : Json) : Members :=
  (name, value) :: m.filter (·.1 ≠ name)

/-- A body that is no object is left alone, but `null` decodes to a nil map, and writing to that
panics. -/
def injectOriginMetadata (codec : Codec) (resp : Response) (originID originURL : String) :
    Option Response :=
  match codec.unmarshal resp.body with
  | some (.obj obj) =>
    let links := ((Members.get? obj "links").bind Json.asArray?).getD []
    if links.any (linksOrigin originID) then some resp
    else some { resp with
      body := codec.marshal
        (.obj (setMember obj "links" (.arr (links ++ [linkObject originID originURL])))) }
  | some .null => none
  | _ => some resp

end Annotation

section Lookups

inductive Outcome where
  | replied (response : Response)
  | notFound (description : String)
  | panicked

/-- A request for a collection or an item, and what each origin would answer to the request that
it is sent; an error has no answer. -/
structure Lookup where
  codec : Codec
  url : RequestPath.Url
  target : RequestPath.Route
  answer : Origin → RequestPath.Url → Option Response
  notFoundDescription : String

variable (L : Lookup) (annotate : Bool)

def Lookup.outbound (o : Origin) : RequestPath.Url :=
  if o.collectionPrefix ≠ [] ∧ o.collectionPrefix.isPrefixOf L.target.collection then
    RequestPath.adaptRequestStripCollectionPrefix o.collectionPrefix L.url L.target
  else L.url

/-- What `reverseProxyOnce` brings back. -/
def Lookup.reverseProxyOnce (o : Origin) : Option Response := L.answer o (L.outbound o)

def Lookup.reply (o : Origin) (resp : Response) : Outcome :=
  if resp.status ≠ 200 ∨ !annotate then .replied resp
  else match injectOriginMetadata L.codec resp o.id o.baseURL with
    | some annotated => .replied annotated
    | none => .panicked

/-- The origins are the routed ones in the order of an iteration. -/
def handleSingleResource : List Origin → Outcome
  | [] => .notFound L.notFoundDescription
  | o :: rest => match L.reverseProxyOnce o with
    | none => handleSingleResource rest
    | some resp => if resp.status = 404 then handleSingleResource rest else L.reply annotate o resp

def routeCollection (r : Router) (collectionID : Name) : List Origin := route r [collectionID]

def enabledOrigins (r : Router) : List Origin := r.allOrigins.filter (·.enabled)

def higher (best o : Origin) : Origin := if best.priority < o.priority then o else best

/-- The first of those with the highest number. -/
def primaryOrigin (r : Router) : Option Origin :=
  match enabledOrigins r with
  | [] => none
  | first :: rest => some (rest.foldl higher first)

end Lookups

section Preference

/-- What a search of the origin starts from. -/
def searchResult (o : Origin) : SearchMerge.OriginSearchResult where
  originID := o.id
  originURL := o.baseURL
  priority := o.priority

/-- The origin whose copy `MergeSearchResults` keeps. -/
def Preferred (among : List Origin) (o : Origin) : Prop :=
  o ∈ among ∧ ∀ w ∈ among, SearchMerge.precedes (searchResult o) (searchResult w)

instance (among : List Origin) (o : Origin) : Decidable (Preferred among o) :=
  inferInstanceAs (Decidable (_ ∧ _))

/-- What the lookup ends with if the origin is the first to answer with anything but 404. -/
def Lookup.outcome? (L : Lookup) (annotate : Bool) (o : Origin) : Option Outcome :=
  (L.reverseProxyOnce o).bind fun resp =>
    if resp.status = 404 then none else some (L.reply annotate o resp)

def Lookup.succeeds (L : Lookup) (o : Origin) : Bool :=
  (L.reverseProxyOnce o).any fun resp => resp.status = 200

variable {L : Lookup} {annotate : Bool} {among other : List Origin} {o best : Origin}

theorem handleSingleResource_eq (order : List Origin) : handleSingleResource L annotate order =
    (order.findSome? (L.outcome? annotate)).getD (.notFound L.notFoundDescription) := by
  induction order with
  | nil => rfl
  | cons o rest ih =>
    rw [handleSingleResource, List.findSome?_cons, Lookup.outcome?]
    cases L.reverseProxyOnce o with
    | none => simpa using ih
    | some resp =>
      by_cases missing : resp.status = 404
      · simpa [missing] using ih
      · simp [missing]

theorem outcome?_of_succeeds (succeeds : L.succeeds o) : ∃ out, L.outcome? annotate o = some out := by
  cases answered : L.reverseProxyOnce o with
  | none => simp [Lookup.succeeds, answered] at succeeds
  | some resp =>
    have ok : resp.status = 200 := by simpa [Lookup.succeeds, answered] using succeeds
    exact ⟨L.reply annotate o resp, by simp [Lookup.outcome?, answered, ok]⟩

theorem Preferred.of_perm (perm : among.Perm other) (preferred : Preferred among o) :
    Preferred other o :=
  ⟨perm.mem_iff.mp preferred.1, fun w member => preferred.2 w (perm.mem_iff.mpr member)⟩

theorem Preferred.priority_le (preferred : Preferred among best) (member : o ∈ among) :
    best.priority ≤ o.priority := by
  have first := preferred.2 o member
  rw [SearchMerge.precedes, SearchMerge.rank, SearchMerge.rank, Prod.Lex.toLex_le_toLex] at first
  rcases first with lower | ⟨same, -⟩
  · exact le_of_lt lower
  · exact le_of_eq same

end Preference

section Primary

theorem higher_eq (best o : Origin) : higher best o = best ∨ higher best o = o := by
  unfold higher
  split <;> simp

theorem le_higher (best o : Origin) :
    best.priority ≤ (higher best o).priority ∧ o.priority ≤ (higher best o).priority := by
  unfold higher
  split <;> omega

theorem foldl_higher (rest : List Origin) (first : Origin) :
    rest.foldl higher first ∈ first :: rest ∧
      ∀ o ∈ first :: rest, o.priority ≤ (rest.foldl higher first).priority := by
  induction rest generalizing first with
  | nil => simp
  | cons next rest ih =>
    rw [List.foldl_cons]
    obtain ⟨member, highest⟩ := ih (higher first next)
    have kept := highest _ List.mem_cons_self
    have raised := le_higher first next
    refine ⟨?_, fun o listed => ?_⟩
    · rcases List.mem_cons.mp member with same | later
      · rw [same]
        rcases higher_eq first next with stays | passes
        · simp [stays]
        · simp [passes]
      · exact List.mem_cons_of_mem _ (List.mem_cons_of_mem _ later)
    · rcases List.mem_cons.mp listed with rfl | listed
      · exact raised.1.trans kept
      · rcases List.mem_cons.mp listed with rfl | later
        · exact raised.2.trans kept
        · exact highest o (List.mem_cons_of_mem _ later)

theorem primaryOrigin_eq_some {r : Router} {p : Origin} (found : primaryOrigin r = some p) :
    p ∈ enabledOrigins r ∧ ∀ o ∈ enabledOrigins r, o.priority ≤ p.priority := by
  unfold primaryOrigin at found
  split at found
  · cases found
  · rename_i first rest listed
    cases found
    rw [listed]
    exact foldl_higher rest first

theorem exists_primaryOrigin {r : Router} {o : Origin} (member : o ∈ enabledOrigins r) :
    ∃ p, primaryOrigin r = some p := by
  unfold primaryOrigin
  split
  · rename_i none_listed
    simp [none_listed] at member
  · exact ⟨_, rfl⟩

/-- The preferred origin is the only one that the router has taken up. -/
def SolePrimary (cfg : HandlerConfig) : Prop :=
  ∀ best, Preferred cfg.enabledOrigins best →
    ∀ o ∈ cfg.enabledOrigins, (o.searchable ∨ o.collections ≠ []) ↔ o = best

variable {cfg : HandlerConfig} {o : Origin}

theorem mem_enabledOrigins : o ∈ enabledOrigins (newHandler cfg).router ↔
    o ∈ cfg.enabledOrigins ∧ (o.searchable ∨ o.collections ≠ []) := by
  have known : o ∈ (newHandler cfg).router.allOrigins ↔
      o ∈ cfg.enabledOrigins ∧ (o.searchable ∨ o.collections ≠ []) := mem_allOrigins
  rw [enabledOrigins, List.mem_filter, known]
  refine ⟨fun both => both.1, fun both => ⟨both, ?_⟩⟩
  exact (List.mem_filter.mp both.1).2

theorem primary_preferred_iff (distinct : (cfg.enabledOrigins.map (·.priority)).Nodup) :
    (∀ best, Preferred cfg.enabledOrigins best →
      primaryOrigin (newHandler cfg).router = some best) ↔ SolePrimary cfg := by
  constructor
  · intro always best preferred o member
    obtain ⟨listed, highest⟩ := primaryOrigin_eq_some (always best preferred)
    constructor
    · intro routable
      have lower := highest o (mem_enabledOrigins.mpr ⟨member, routable⟩)
      exact List.inj_on_of_nodup_map distinct member preferred.1
        (le_antisymm lower (preferred.priority_le member))
    · rintro rfl
      exact (mem_enabledOrigins.mp listed).2
  · intro sole best preferred
    have routable := (sole best preferred best preferred.1).mpr rfl
    obtain ⟨p, found⟩ := exists_primaryOrigin (mem_enabledOrigins.mpr ⟨preferred.1, routable⟩)
    obtain ⟨member, taken⟩ := mem_enabledOrigins.mp (primaryOrigin_eq_some found).1
    rw [found, (sole best preferred p member).mp taken]

end Primary

section Agreement
variable {cfg : HandlerConfig} {L : Lookup} {annotate : Bool} {routed : List Origin}

/-- Where several routed origins succeed, every answer but 404 comes to what the preferred one's
answer comes to. -/
def LookupAgrees (L : Lookup) (annotate : Bool) (routed : List Origin) : Prop :=
  ∀ best, Preferred (routed.filter L.succeeds) best → 2 ≤ (routed.filter L.succeeds).length →
    ∀ o ∈ routed, ∀ out, L.outcome? annotate o = some out → L.outcome? annotate best = some out

theorem lookup_preferred_iff :
    (∀ order, order.Perm routed → ∀ best, Preferred (order.filter L.succeeds) best →
      2 ≤ (order.filter L.succeeds).length →
        L.outcome? annotate best = some (handleSingleResource L annotate order)) ↔
      LookupAgrees L annotate routed := by
  constructor
  · intro always best preferred several o member out first
    obtain ⟨before, after, rfl⟩ := List.append_of_mem member
    have perm : (o :: (before ++ after)).Perm (before ++ o :: after) := List.perm_middle.symm
    have answered := always _ perm best (preferred.of_perm (perm.filter _).symm)
      ((perm.filter _).length_eq ▸ several)
    rw [answered, handleSingleResource_eq, List.findSome?_cons, first]
    rfl
  · intro agrees order perm best preferred several
    have listed := List.mem_filter.mp preferred.1
    obtain ⟨own, own_outcome⟩ := @outcome?_of_succeeds L annotate best listed.2
    rw [handleSingleResource_eq]
    cases found : order.findSome? (L.outcome? annotate) with
    | none =>
      have silent := List.findSome?_eq_none_iff.mp found best listed.1
      rw [own_outcome] at silent
      cases silent
    | some out =>
      obtain ⟨o, member, first⟩ := List.exists_of_findSome?_eq_some found
      exact agrees best (preferred.of_perm (perm.filter _)) ((perm.filter _).length_eq ▸ several) o
        (perm.mem_iff.mp member) out first

/-- Lookups follow the order of merged searches exactly if it makes no difference who answers
first, and the primary origin follows it exactly if there is no other it could be. -/
theorem priority_followed_iff (cfg : HandlerConfig)
    (distinct : (cfg.enabledOrigins.map (·.priority)).Nodup) (L : Lookup) :
    let annotate := decide (1 < cfg.enabledOrigins.length)
    let routed := routeCollection (newHandler cfg).router L.target.collection
    ((∀ order, order.Perm routed → ∀ best, Preferred (order.filter L.succeeds) best →
        2 ≤ (order.filter L.succeeds).length →
          L.outcome? annotate best = some (handleSingleResource L annotate order)) ↔
      LookupAgrees L annotate routed) ∧
    ((∀ best, Preferred cfg.enabledOrigins best →
        primaryOrigin (newHandler cfg).router = some best) ↔ SolePrimary cfg) :=
  ⟨lookup_preferred_iff, primary_preferred_iff distinct⟩

end Agreement

section Samples

def near : Origin := { id := "near", baseURL := "http://near", searchable := true, priority := 1 }

def far : Origin := { id := "far", baseURL := "http://far", searchable := true, priority := 2 }

def bare : Origin := { id := "bare", baseURL := "http://bare", priority := 2 }

theorem near_far_ids_nodup : ([near, far].map (·.id)).Nodup := by decide

theorem near_bare_ids_nodup : ([near, bare].map (·.id)).Nodup := by decide

def nearFar : HandlerConfig := { origins := [near, far], ids_nodup := near_far_ids_nodup }

def nearBare : HandlerConfig := { origins := [near, bare], ids_nodup := near_bare_ids_nodup }

/-- Both origins answer, with bodies that are no JSON and so stay as they are. -/
def lookupOf (bodyOf : Origin → List UInt8) : Lookup where
  codec := { unmarshal := fun _ => none, marshal := fun _ => [] }
  url := { path := RequestPath.bytes "/collections/c" }
  target := { requestType := .collection, collection := RequestPath.bytes "c" }
  answer o _ := some { status := 200, header := [], body := bodyOf o }
  notFoundDescription := "Collection not found"

def mirrored : Lookup := lookupOf fun _ => [1]

def differing : Lookup := lookupOf fun o => if o.id = "near" then [1] else [2]

theorem far_near_perm :
    [far, near].Perm (routeCollection (newHandler nearFar).router (RequestPath.bytes "c")) := by
  decide +kernel

theorem mirrored_agrees (annotate : Bool) (routed : List Origin) :
    LookupAgrees mirrored annotate routed := by
  intro best _ _ o _ out answered
  cases annotate <;> exact answered

theorem near_sole : SolePrimary nearBare := by
  intro best preferred o member
  have enabled : nearBare.enabledOrigins = [near, bare] := rfl
  have first : best = near := by
    have listed : best = near ∨ best = bare := by simpa [enabled] using preferred.1
    refine listed.resolve_right ?_
    rintro rfl
    exact absurd preferred (by decide +kernel)
  have listed : o = near ∨ o = bare := by simpa [enabled] using member
  rcases listed with rfl | rfl
  · simp [first, near]
  · simp [first, near, bare]

/-- The other origin answers first with the same body, and an origin that is not routable does not
become the primary one. -/
theorem mirrored_lookup :
    mirrored.outcome? true near = some (handleSingleResource mirrored true [far, near]) ∧
      primaryOrigin (newHandler nearBare).router = some near :=
  ⟨(priority_followed_iff nearFar (by decide +kernel) mirrored).1.mpr
      (mirrored_agrees _ _) [far, near] far_near_perm near (by decide +kernel) (by decide +kernel),
    (priority_followed_iff nearBare (by decide +kernel) mirrored).2.mpr near_sole near
      (by decide +kernel)⟩

/-- The origin with the higher number is asked first, answers, and is the primary one. -/
theorem far_preferred :
    [far, near].Perm (routeCollection (newHandler nearFar).router differing.target.collection) ∧
      Preferred ([far, near].filter differing.succeeds) near ∧
      ([far, near].filter differing.succeeds).length = 2 ∧
      differing.outcome? true near = some (.replied { status := 200, body := [1] }) ∧
      handleSingleResource differing true [far, near] = .replied { status := 200, body := [2] } ∧
      Preferred nearFar.enabledOrigins near ∧
      primaryOrigin (newHandler nearFar).router = some far :=
  ⟨far_near_perm, by decide +kernel, by decide +kernel, rfl,
    rfl, by decide +kernel, by decide +kernel⟩

end Samples

end OriginPriority
