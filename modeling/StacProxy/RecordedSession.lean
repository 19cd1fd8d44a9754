import StacProxy.CursorGrowth

/-!
# Sessions whose decoder recalls their cursors

Which cursors a session mints depends on how cursors are written, not on how they are
read back. Payloads grow from page to page, so the payloads of a session are distinct and
a decoder can recall the cursor of each. With such a decoder a session is coherent as soon
as it does not outlive its cursors and every origin hands out next URLs of its own.
-/

namespace RecordedSession

open FederatedCursor CursorWire PageMerge PaginatedSearch SearchSession CursorGrowth

/-- The cursor of the session that is written as `payload`, looked up among the pages it can
belong to. -/
def recallCursor (S : Session) (payload : List UInt8) : Option Cursor :=
  (List.range payload.length).findSome? fun n =>
    ((S.cursorAt (n + 1)).map (·.1)).filter fun c => S.wire.marshal c == some payload

def recorded (S : Session) : Session :=
  { S with wire := { S.wire with unmarshal := recallCursor S } }

section Recall
variable {S : Session} {n : Nat} {c c' : Cursor} {token token' : String}
  {payload payload' : List UInt8}

theorem cursorAt_recorded (S : Session) (n : Nat) :
    (recorded S).cursorAt n = S.cursorAt n := by
  induction n with
  | zero => rfl
  | succ n ih =>
    refine Option.ext fun ⟨c', token'⟩ => ?_
    rw [cursorAt_succ_iff, cursorAt_succ_iff, ih]
    rfl

/-- The token of page `n + 1` encodes a payload longer than the token before it. -/
theorem exists_payload (before : S.cursorAt (n + 1) = some (c, token)) :
    ∃ payload, S.wire.marshal c = some payload ∧
      token = tokenOf S.wire S.searcher.cursorSecret payload ∧
      ∀ c₀ token₀, S.cursorAt n = some (c₀, token₀) → token₀.length < payload.length := by
  obtain ⟨c₀, token₀, m, before₀, _, _, _, rfl, encoded⟩ := cursorAt_succ_iff.mp before
  obtain ⟨_, payload, marshalled, rfl⟩ := encode_ok_iff.mp encoded
  refine ⟨payload, marshalled, rfl, fun c₁ token₁ before₁ => ?_⟩
  obtain ⟨_, rfl⟩ := Prod.mk.inj (Option.some.inj (before₀.symm.trans before₁))
  exact length_prevCursor_lt marshalled

theorem length_payload_lt (before : S.cursorAt (n + 1) = some (c, token))
    (written : S.wire.marshal c = some payload) {k : Nat}
    (later : S.cursorAt (n + 1 + k + 1) = some (c', token'))
    (written' : S.wire.marshal c' = some payload') : payload.length < payload'.length := by
  have step : ∀ {n c c' token token' p p'}, S.cursorAt (n + 1) = some (c, token) →
      S.wire.marshal c = some p → S.cursorAt (n + 2) = some (c', token') →
      S.wire.marshal c' = some p' → p.length < p'.length := by
    intro n c c' token token' p p' before written later written'
    obtain ⟨p₁, same, tokenised, _⟩ := exists_payload before
    obtain ⟨p₂, same', _, longer⟩ := exists_payload later
    obtain rfl := Option.some.inj (written.symm.trans same)
    obtain rfl := Option.some.inj (written'.symm.trans same')
    have := longer c token before
    rw [tokenised, length_tokenOf] at this
    omega
  induction k generalizing c' token' payload' with
  | zero => exact step before written later written'
  | succ k ih =>
    obtain ⟨c₁, token₁, _, before₁, _⟩ := cursorAt_succ_iff.mp later
    obtain ⟨p₁, written₁, _⟩ := exists_payload before₁
    exact (ih before₁ written₁).trans (step before₁ written₁ later written')

theorem page_lt_length (before : S.cursorAt (n + 1) = some (c, token))
    (written : S.wire.marshal c = some payload) : n < payload.length := by
  induction n generalizing c token payload with
  | zero => exact List.length_pos_iff.mpr (marshal_ne_nil written)
  | succ n ih =>
    obtain ⟨c₀, token₀, _, before₀, _⟩ := cursorAt_succ_iff.mp before
    obtain ⟨p₀, written₀, _⟩ := exists_payload before₀
    have early := ih before₀ written₀
    have longer := length_payload_lt (k := 0) before₀ written₀ before written
    omega

theorem recallCursor_eq (before : S.cursorAt (n + 1) = some (c, token))
    (written : S.wire.marshal c = some payload) : recallCursor S payload = some c := by
  have unique : ∀ k c' token', S.cursorAt (k + 1) = some (c', token') →
      S.wire.marshal c' = some payload → c' = c := by
    intro k c' token' at_k written'
    rcases Nat.lt_trichotomy n k with later | rfl | earlier
    · obtain ⟨d, rfl⟩ := Nat.exists_eq_add_of_lt later
      rw [show n + d + 1 + 1 = n + 1 + d + 1 by omega] at at_k
      exact absurd (length_payload_lt before written at_k written') (lt_irrefl _)
    · exact (Prod.mk.inj (Option.some.inj (at_k.symm.trans before))).1
    · obtain ⟨d, rfl⟩ := Nat.exists_eq_add_of_lt earlier
      rw [show k + d + 1 + 1 = k + 1 + d + 1 by omega] at before
      exact absurd (length_payload_lt at_k written' before written) (lt_irrefl _)
  have found : ∃ c', recallCursor S payload = some c' := by
    rw [← Option.isSome_iff_exists, recallCursor, List.findSome?_isSome_iff]
    refine ⟨n, List.mem_range.mpr (page_lt_length before written), ?_⟩
    simp [before, written, Option.filter]
  obtain ⟨c', recalled⟩ := found
  obtain ⟨k, _, hit⟩ := List.exists_of_findSome?_eq_some recalled
  obtain ⟨named, written'⟩ := Option.filter_eq_some_iff.mp hit
  obtain ⟨⟨c₁, token'⟩, at_k, rfl⟩ := Option.map_eq_some_iff.mp named
  rw [recalled, unique k c₁ token' at_k (by simpa using written')]

end Recall

section Coherence
variable {S : Session} {n : Nat} {c : Cursor} {token : String}

/-- Origins hand out next URLs of their own only, no page is cached, and the session ends
before its cursors expire. -/
structure Plain (S : Session) : Prop where
  rooted : ∀ n (id base : String) req, S.searcher.origins[id]? = some base →
    ((S.visit n).upstream id req).nextURL = "" ∨
      base ≠ "" ∧ base.toList <+: ((S.visit n).upstream id req).nextURL.toList
  uncached : ∀ n, (S.visit n).cached = none
  unexpired : ∀ n, ¬ (S.visit 0).now + defaultTTL < (S.visit n).now

/-- A state may be presented under the ID it is kept under. -/
def Presentable (S : Session) (id : String) (oc : OriginCursor) : Prop :=
  oc.id = id ∧ urlAllowed S.searcher.origins oc

/-- What is so of every address the origins hand out is so of every address in a cursor. -/
theorem pointer_of_cursorAt {P : String → String → Prop} (unset : ∀ id, P id "")
    (handed : ∀ n c id, (S.fetch n c id).error = none → P id (S.fetch n c id).nextURL)
    (before : S.cursorAt n = some (c, token)) {id : String} {oc : OriginCursor}
    (present : c.origins[id]? = some oc) : oc.id = id ∧ P id oc.nextURL := by
  induction n generalizing c token oc with
  | zero =>
    obtain ⟨rfl, _⟩ := Prod.mk.inj (Option.some.inj before)
    rw [Session.startCursor, origins_newFederatedCursor] at present
    split at present
    · obtain rfl := Option.some.inj present
      exact ⟨rfl, unset id⟩
    · cases present
  | succ n ih =>
    obtain ⟨c₀, token₀, m, oc₀, oc', before₀, merged, present₀, after, rfl⟩ :=
      origin_before before present
    have pointer := ih before₀ present₀
    cases progress_of_merge merged present₀ after with
    | skipped stash _ | failed stash _ _ => exact pointer
    | served stash lastSort _ fine => exact ⟨pointer.1, handed n c₀ id fine⟩

/-- A fetch without an error is a search of a known origin. -/
theorem fetch_of_fine {id : String} (fine : (S.fetch n c id).error = none) :
    id ∈ S.searcher.origins ∧ (S.fetch n c id).nextURL =
      ((S.visit n).upstream id (originRequest S.request c S.limit id)).nextURL := by
  simp only [Session.fetch, fetchOrigin] at fine ⊢
  split
  · rename_i known
    exact ⟨known, rfl⟩
  · rename_i unknown
    simp [unknown] at fine

theorem presentable_of_cursorAt (plain : Plain S) (before : S.cursorAt n = some (c, token))
    {id : String} {oc : OriginCursor} (present : c.origins[id]? = some oc) :
    Presentable S id oc := by
  have pointer := @pointer_of_cursorAt S n c token (fun id url => url = "" ∨
    ∃ base, S.searcher.origins[id]? = some base ∧ base ≠ "" ∧ base.toList <+: url.toList)
    (fun _ => .inl rfl) (fun n c id fine => ?_) before id oc present
  · obtain ⟨named, allowed⟩ := pointer
    exact ⟨named, urlAllowed_iff.mpr (by rwa [named])⟩
  · obtain ⟨known, handed⟩ := fetch_of_fine fine
    rw [handed]
    obtain ⟨base, base_eq⟩ := Option.isSome_iff_exists.mp
      (Std.ExtTreeMap.mem_iff_isSome_getElem?.mp known)
    rcases plain.rooted n id base _ base_eq with empty | ⟨nonempty, inside⟩
    · exact .inl empty
    · exact .inr ⟨base, base_eq, nonempty, inside⟩

/-- A plain session read back by its own recall is coherent. -/
theorem recorded_coherent (plain : Plain S) : (recorded S).Coherent where
  roundTrips := by
    intro n c token before
    rw [cursorAt_recorded] at before
    obtain ⟨payload, written, rfl, _⟩ := exists_payload before
    have stamped := stamped_of_cursorAt before
    have decoded : (recorded S).wire.unmarshal payload = some c := recallCursor_eq before written
    refine (decodeCursor_tokenOf_iff S.searcher.secret_ne_nil (marshal_ne_nil written) decoded ?_
      stamped.principalHash).mpr ?_
    · rw [stamped.expiresAt]
      exact plain.unexpired (n + 1)
    · intro id oc present
      exact (presentable_of_cursorAt plain before present).2
  transparent := by
    intro n c token result _ cached
    have := plain.uncached (n + 1)
    rw [show ((recorded S).visit (n + 1)).cached = none from this] at cached
    cases cached

theorem recorded_encodable (writes : ∀ c, (S.wire.marshalOrigins c).isSome) :
    (recorded S).Encodable := by
  intro n c token m _ _ _
  obtain ⟨text, written⟩ := Option.isSome_iff_exists.mp (writes (chainCursor m.cursor token).origins)
  have marshalled : (recorded S).wire.marshal (chainCursor m.cursor token) = some
      ((cursorText text (chainCursor m.cursor token)).flatMap String.utf8EncodeChar) := by
    rw [Wire.marshal]
    change Option.map _ (S.wire.marshalOrigins _) = _
    rw [written, Option.map_some]
  exact ⟨_, encode_ok_iff.mpr ⟨S.searcher.secret_ne_nil, _, marshalled, rfl⟩⟩

end Coherence

section SoleOrigin

/-- How `encoding/json` writes a byte slice: padded, in the standard alphabet. -/
def paddedBase64 (bytes : List UInt8) : List Char :=
  let text := (Base64Url.encode bytes).map fun c =>
    if c = '-' then '+' else if c = '_' then '/' else c
  text ++ List.replicate ((4 - text.length % 4) % 4) '='

/-- The JSON of a per-origin state that has no offset, last sort value or stash. -/
def stateText (oc : OriginCursor) : List Char :=
  "\x7b\"id\":".toList ++ quote oc.id ++ optionalText "nt" oc.nextToken ++
    optionalText "nu" oc.nextURL ++
    (if oc.nextBody = "" then [] else memberText "nb"
      ('"' :: paddedBase64 (oc.nextBody.toList.flatMap String.utf8EncodeChar) ++ ['"'])) ++
    optionalText "ad" oc.adapterName ++
    memberText "ex" (toString oc.exhausted).toList ++
    memberText "err" (toString oc.error).toList ++
    (if oc.errorCount = 0 then [] else memberText "ec" (toString oc.errorCount).toList) ++
    memberText "ic" (toString oc.itemCount).toList ++ "\x7d".toList

def originsText (origins : OriginMap) : String :=
  String.ofList ("\x7b".toList ++
    [','].intercalate (origins.toList.map fun (id, oc) => quote id ++ ':' :: stateText oc) ++
    "\x7d".toList)

/-- A wire whose MAC and digest have the right lengths; nothing depends on more. -/
def sampleWire : Wire where
  marshalOrigins origins := some (originsText origins)
  unmarshal _ := none
  hmac _ _ := List.replicate 32 0
  digest _ := String.ofList (List.replicate 64 '0')
  hmac_length _ _ := List.length_replicate
  digest_length _ := by rw [String.length_ofList, List.length_replicate]

theorem sampleSecret_ne_nil : ([1] : List UInt8) ≠ [] := by
  decide

theorem noPrincipal_short : "".length ≤ 16 := by
  decide

/-- A searcher for pages of one item. -/
def sampleSearcher (origins : List (String × String)) : Searcher where
  origins := Std.ExtTreeMap.ofList origins
  pageSize := 1
  maxPageSize := 10
  cursorSecret := [1]
  pageSize_pos := Nat.one_pos
  secret_ne_nil := sampleSecret_ne_nil

/-- A session with one origin, which gives the same reply to every request. -/
def soleSession (reply : SearchReply) : Session := recorded {
  searcher := {
    origins := Std.ExtTreeMap.ofList [("a", "https://api.example.com")]
    pageSize := 1
    maxPageSize := 10
    cursorSecret := [1]
    pageSize_pos := Nat.one_pos
    secret_ne_nil := sampleSecret_ne_nil }
  wire := sampleWire
  principalHash := ""
  request := default
  visit := fun _ => { now := 0, upstream := fun _ _ => reply }
  principalHash_short := noPrincipal_short }

/-- A reply without items that leaves its origin to be asked again. -/
structure Lingering (reply : SearchReply) : Prop where
  bare : reply.items = []
  urlFree : reply.nextURL = ""
  unfinished : reply.error.isSome ∨ reply.nextToken ≠ ""

/-- The sole origin is as it was at the start, as far as its next fetch is concerned. -/
structure Waiting (c : Cursor) (oc : OriginCursor) : Prop where
  sole : ∀ id : String, c.origins[id]? = if id = "a" then some oc else none
  unexhausted : oc.exhausted = false
  bare : oc.stash = []
  uncounted : oc.errorCount = 0

variable {reply : SearchReply} {n : Nat} {c : Cursor} {oc : OriginCursor} {token : String}

theorem sole_coherent (lingering : Lingering reply) : (soleSession reply).Coherent :=
  recorded_coherent ⟨fun _ _ _ _ _ => Or.inl lingering.urlFree, fun _ => rfl,
    fun _ => (by decide : ¬ (0 : Int64) + defaultTTL < 0)⟩

theorem sole_encodable (reply : SearchReply) : (soleSession reply).Encodable :=
  recorded_encodable fun _ => rfl

theorem sole_fetch (reply : SearchReply) (n : Nat) (c : Cursor) :
    (soleSession reply).fetch n c "a" = { reply with originID := "a" } :=
  rfl

theorem sole_selected (reply : SearchReply) (waiting : Waiting c oc) :
    "a" ∈ toFetch c (soleSession reply).limit := by
  refine mem_toFetch.mpr ⟨oc, by simp [waiting.sole], waiting.unexhausted, ?_, ?_⟩
  · simp [OriginCursor.retired, waiting.uncounted, maxOriginErrorRetries]
  · rw [waiting.bare]
    exact limit_pos _

theorem fetch_items (lingering : Lingering reply) (n : Nat) (c : Cursor) (id : String) :
    ((soleSession reply).fetch n c id).items = [] := by
  simp only [Session.fetch, fetchOrigin]
  split
  · exact lingering.bare
  · rfl

theorem sole_page_empty (lingering : Lingering reply) (waiting : Waiting c oc) :
    mergedPage (soleSession reply).searcher.origins (fetchFromOrigins (soleSession reply).searcher
      ((soleSession reply).visit n) (soleSession reply).request c (soleSession reply).limit) c =
        [] := by
  rw [List.eq_nil_iff_forall_not_mem]
  intro y listed
  obtain ⟨k, first, rfl⟩ := mem_mergedPage.mp listed
  obtain ⟨_, oc', present, _, brought⟩ :=
    mem_pageCandidates.mp (ItemMerge.mem_candidates_of_firstCopies first)
  rw [origins_markErrors (fetchFromOrigins_fetchedFor _ _ _ _ _).onePerOrigin,
    waiting.sole] at present
  have stash : oc'.stash = [] := by
    split at present
    · obtain ⟨oc₀, found, rfl⟩ := Option.map_eq_some_iff.mp present
      split at found
      · obtain rfl := Option.some.inj found
        exact waiting.bare
      · cases found
    · split at present
      · obtain rfl := Option.some.inj present
        exact waiting.bare
      · cases present
  rw [combined, stash, List.nil_append] at brought
  cases fresh : (freshByOrigin (fetchFromOrigins (soleSession reply).searcher
      ((soleSession reply).visit n) (soleSession reply).request c
        (soleSession reply).limit))[k.originID]? with
  | none => simp [fresh] at brought
  | some r =>
    obtain ⟨_, rfl, _⟩ := fresh_iff.mp fresh
    rw [fresh, Option.map_some, Option.getD_some, fetch_items lingering] at brought
    exact List.not_mem_nil brought

/-- A page of a lingering origin is empty and leaves the origin waiting. -/
theorem sole_step (lingering : Lingering reply) (waiting : Waiting c oc) (n : Nat)
    (token : String) :
    ∃ m oc', (soleSession reply).merge n c = some m ∧ m.items = [] ∧ m.cursor.hasMore ∧
      m.cursor.origins["a"]? = some oc' ∧ Progress (soleSession reply) n c "a" oc oc' ∧
      Waiting (chainCursor m.cursor token) oc'.clone := by
  have present : c.origins["a"]? = some oc := by simp [waiting.sole]
  obtain ⟨m, merged⟩ : ∃ m, (soleSession reply).merge n c = some m :=
    exists_merge fun id _ _ => by simp [fetch_items lingering]
  obtain ⟨oc', after⟩ := Option.isSome_iff_exists.mp
    ((isSome_after_merge merged "a").mpr (by simp [present]))
  have progress := progress_of_merge merged present after
  have stash : oc'.stash = [] := by
    rcases stash_after_merge merged after with empty | leftovers
    · exact empty
    · rw [leftovers, sole_page_empty lingering waiting]
      rfl
  have opened : oc'.exhausted = false ∧ oc'.retired = false := by
    cases progress with
    | skipped _ unselected => exact absurd (sole_selected reply waiting) unselected
    | failed _ _ _ =>
      refine ⟨waiting.unexhausted, ?_⟩
      simp [OriginCursor.retired, OriginCursor.markError, waiting.uncounted, maxOriginErrorRetries]
    | served _ lastSort _ succeeded =>
      rw [sole_fetch] at succeeded
      have linked : reply.nextToken ≠ "" := lingering.unfinished.resolve_left (by simpa using succeeded)
      simp [OriginCursor.retired, OriginCursor.update, FetchResult.originUpdate, sole_fetch, linked,
        waiting.unexhausted]
  refine ⟨m, oc', merged, ?_, ?_, after, progress, ?_, opened.1, stash, rfl⟩
  · obtain ⟨_, spec, _⟩ := merge_spec merged
    rw [spec.emitted_eq, sole_page_empty lingering waiting, List.take_nil]
  · exact hasMore_iff.mpr ⟨"a", oc', after, by simp [OriginCursor.hasMore, opened]⟩
  · intro id
    rw [origins_chainCursor]
    split
    · rename_i same
      rw [same, after, Option.map_some]
    · rename_i other
      have absent : (c.origins[id]?).isSome = false := by simp [waiting.sole, other]
      have := isSome_after_merge merged id
      cases found : m.cursor.origins[id]? with
      | none => rfl
      | some _ => simp [found, absent] at this

/-- The session never ends: its origin waits on every page, and keeps what every page
keeps of it. -/
theorem sole_invariant (lingering : Lingering reply) (keep : OriginCursor → Prop)
    (start : keep { id := "a" })
    (step : ∀ n c oc oc', keep oc → Progress (soleSession reply) n c "a" oc oc' → keep oc'.clone)
    (n : Nat) : ∃ c token oc, (soleSession reply).cursorAt n = some (c, token) ∧ Waiting c oc ∧
      keep oc := by
  induction n with
  | zero =>
    refine ⟨_, "", { id := "a" }, rfl, ⟨fun id => ?_, rfl, rfl, rfl⟩, start⟩
    rw [Session.startCursor, origins_newFederatedCursor]
    by_cases same : id = "a"
    · subst same
      rfl
    · have unknown : id ∉ (soleSession reply).searcher.origins.keys := by
        simpa [soleSession, recorded] using Ne.symm same
      rw [if_neg unknown, if_neg same]
  | succ n ih =>
    obtain ⟨c, token, oc, before, waiting, kept⟩ := ih
    obtain ⟨m, oc', merged, _, more, _, progress, waiting'⟩ :=
      sole_step lingering waiting n token
    obtain ⟨token', encoded⟩ := sole_encodable reply n c token m before merged more
    have active : c.activeOrigins ≠ [] := List.ne_nil_of_mem
      (List.mem_of_mem_filter (sole_selected reply waiting))
    exact ⟨_, token', _, cursorAt_succ_iff.mpr
      ⟨c, token, m, before, active, merged, more, rfl, encoded⟩, waiting',
      step n c oc oc' kept progress⟩

end SoleOrigin

end RecordedSession
