import StacProxy.RecordedSession
import StacProxy.StreamSession

/-!
# Origins that page by offset

Any family of streams is served by origins whose next token spells the offset in unary.
Sessions over them are coherent, so the assumptions on upstreams can be met for every
choice of origins, streams and page size.
-/

namespace OffsetStreams

open StacItem SearchRequest FederatedCursor CursorWire PageMerge PaginatedSearch SearchSession
open RecordedSession StreamSession

def offsetToken (k : Nat) : String := String.ofList (List.replicate k 'x')

theorem length_offsetToken (k : Nat) : (offsetToken k).length = k := by
  rw [offsetToken, String.length_ofList, List.length_replicate]

theorem offsetToken_eq_empty {k : Nat} : offsetToken k = "" ↔ k = 0 := by
  constructor
  · intro empty
    have := length_offsetToken k
    rw [empty] at this
    exact this.symm
  · rintro rfl
    rfl

def offsetUpstream (streams : String → List Item) (id : String) (req : Request) : SearchReply where
  items := (((streams id).drop req.token.length).take req.limit.toNat).map some
  nextToken := if req.token.length + req.limit.toNat < (streams id).length then
    offsetToken (req.token.length + req.limit.toNat) else ""

def offsetPoints (k : Nat) (p : Pointer) : Prop := p = ⟨offsetToken k, "", ""⟩

def offsetSession (origins : Std.ExtTreeMap String String) (streams : String → List Item)
    (pageSize : Nat) (positive : 0 < pageSize) (request : Request) : Session := recorded {
  searcher := {
    origins := origins
    pageSize := pageSize
    maxPageSize := 1000
    cursorSecret := [1]
    pageSize_pos := positive
    secret_ne_nil := sampleSecret_ne_nil }
  wire := sampleWire
  principalHash := ""
  request := request
  visit := fun _ => { now := 0, upstream := offsetUpstream streams }
  principalHash_short := noPrincipal_short }

section Serving
variable {origins : Std.ExtTreeMap String String} {streams : String → List Item} {pageSize : Nat}
  {positive : 0 < pageSize} {request : Request}

theorem offset_coherent : (offsetSession origins streams pageSize positive request).Coherent :=
  recorded_coherent ⟨fun _ _ _ _ _ => Or.inl rfl, fun _ => rfl,
    fun _ => (by decide : ¬ (0 : Int64) + defaultTTL < 0)⟩

theorem offset_encodable : (offsetSession origins streams pageSize positive request).Encodable :=
  recorded_encodable fun _ => rfl

/-- An origin asked at offset `k` is sent the token of `k`. -/
theorem offset_reply (unpaged : request.token = "") {limit k : Nat} {c : Cursor} {id : String}
    {oc : OriginCursor} (present : c.origins[id]? = some oc) (placed : offsetPoints k (pointerOf oc)) :
    offsetUpstream streams id (originRequest request c limit id) = {
      items := (((streams id).drop k).take limit).map some
      nextToken := if k + limit < (streams id).length then offsetToken (k + limit) else "" } := by
  have next : oc.nextToken = offsetToken k := congrArg Pointer.token placed
  have token : (originRequest request c limit id).token.length = k := by
    simp only [originRequest, present, next, unpaged]
    split
    · exact length_offsetToken k
    · rename_i empty
      have := offsetToken_eq_empty.mp (not_not.mp empty)
      simp [this]
  have size : (originRequest request c limit id).limit.toNat = limit := by
    simp [originRequest, present]
  rw [offsetUpstream, token, size]

theorem offset_serves (unpaged : request.token = "") (id : String) :
    Serves (offsetSession origins streams pageSize positive request) id (streams id)
      offsetPoints := by
  have reply : ∀ n k (c : Cursor) oc, c.origins[id]? = some oc → offsetPoints k (pointerOf oc) →
      (((offsetSession origins streams pageSize positive request).visit n).upstream id
        (originRequest (offsetSession origins streams pageSize positive request).request c
          (offsetSession origins streams pageSize positive request).limit id)) = _ :=
    fun n k c oc present placed => offset_reply unpaged present placed
  constructor
  · rfl
  · rintro k p rfl later empty
    have := offsetToken_eq_empty.mp (congrArg Pointer.token empty)
    omega
  · intro n k c oc present placed
    rw [reply n k c oc present placed]
  · intro n k c oc present placed
    rw [reply n k c oc present placed]
  · intro n k c oc present placed remains
    rw [reply n k c oc present placed, if_pos remains]
    rfl
  · intro n k c oc present placed done
    rw [reply n k c oc present placed, if_neg (not_lt.mpr done)]
    rfl

end Serving

end OffsetStreams
