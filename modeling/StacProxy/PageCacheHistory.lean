import Mathlib.Logic.Function.Basic
import StacProxy.PageCache
import StacProxy.Transcript

/-!
# Pages from the cache

Calls of `Search` that share a searcher and the store of its page cache. A call decodes its cursor
and looks its page up at one time; if it finds none, it fans out and is finished at a later one,
with other calls in between. The store may drop an entry at any time. Whatever is served from the
cache was rendered by a call that was finished before, for the same cursor.
-/

namespace PageCacheHistory

open StacItem SearchRequest FederatedCursor CursorWire PageMerge PaginatedSearch RequestPath CursorPayload
  CursorAuthenticity PageCache

/-! ## The cache of a searcher -/

/-- Values of the store with the time until which they are returned. -/
abbrev Store := String → Option (Bytes × Int)

def Store.get (store : Store) (now : Int) (key : String) : Option Bytes :=
  (store key).bind fun (data, expiry) => if now ≤ expiry then some data else none

structure Proxy where
  searcher : Searcher
  wire : Wire
  codec : Codec
  cache : Cache

structure Call where
  principalHash : String
  request : Request
  cursorStr : String

/-- `time.Until` the expiry of a cursor. -/
def remaining (cursor : Cursor) (now : Int) : Int := cursor.expiresAt.toInt * 1000000000 - now

def unixSeconds (now : Int) : Int64 := Int64.ofInt (now / 1000000000)

section Searching
variable (P : Proxy)

def Proxy.key (call : Call) : String :=
  P.cache.key P.wire (signatureOf call.cursorStr) call.principalHash

def Proxy.get (store : Store) (now : Int) (call : Call) : Option SearchResult :=
  ((store.get now (P.key call)).bind P.codec.parse).bind (readResult P.codec)

/-- `putToPageCache`; a page that cannot be written is not kept. -/
def Proxy.put (store : Store) (now : Int) (call : Call) (cursor : Cursor) (result : SearchResult) :
    Store :=
  if signatureOf call.cursorStr = "" ∨ remaining cursor now ≤ 0 then store
  else match resultJson P.codec result with
    | none => store
    | some value => Function.update store (P.key call)
        (some (bytes (P.codec.print value), now + min P.cache.ttl (remaining cursor now)))

inductive Asked where
  | refused (error : SearchError)
  | hit (result : SearchResult)
  | started (cursor : Cursor)

/-- A call of `Search` up to the fan-out. -/
def Proxy.ask (store : Store) (now : Int) (call : Call) : Asked :=
  if call.cursorStr = "" then
    .started (newFederatedCursor (P.wire.hashSearchRequest call.request) call.principalHash
      P.searcher.origins.keys (unixSeconds now))
  else match decodeCursor P.wire call.cursorStr P.searcher.cursorSecret P.searcher.origins
      call.principalHash (unixSeconds now) with
    | .error e => .refused (.cursor e)
    | .ok cursor =>
      if cursor.queryHash ≠ P.wire.hashSearchRequest call.request then
        .refused (.cursor (.invalid "cursor does not match search parameters"))
      else match P.get store now call with
        | some page => .hit page
        | none => .started cursor

/-- A call that is fanning out. -/
structure Pending where
  call : Call
  cursor : Cursor

/-- A call that was finished, and what it returned. -/
structure Past extends Pending where
  finished : Int
  result : SearchResult

/-- Call `Search` fans out to origins that answer as `upstream`. -/
def Proxy.render (now : Int) (upstream : String → Request → SearchReply) (p : Pending) :
    Except SearchError Page :=
  renderPage P.searcher P.wire { now := unixSeconds now, upstream := upstream } p.call.request
    p.cursor p.call.cursorStr

def failedFromStatuses (statuses : List OriginStatus) : List String :=
  ((statuses.filter (·.error.isSome)).map (·.id)).insertionSort (· ≤ ·)

/-- What a finished call leaves in the cache: a page that was asked for with a cursor, for which
some origin was active and none failed. -/
def Proxy.keep (store : Store) (past : Past) : Store :=
  if past.call.cursorStr ≠ "" ∧ past.cursor.activeOrigins ≠ [] ∧
      failedFromStatuses past.result.context.origins = [] then
    P.put store past.finished past.call past.cursor past.result
  else store

end Searching

/-! ## Histories -/

structure World where
  store : Store := fun _ => none
  pending : List Pending := []
  past : List Past := []

inductive Event where
  | ask (now : Int) (call : Call)
  | finish (now : Int) (index : Nat) (upstream : String → Request → SearchReply)
  | evict (key : String)

section Histories
variable (P : Proxy)

def Proxy.step (world : World) : Event → World × Option Asked
  | .ask now call =>
    let asked := P.ask world.store now call
    match asked with
    | .started cursor => ({ world with pending := world.pending ++ [⟨call, cursor⟩] }, some asked)
    | _ => (world, some asked)
  | .finish now index upstream => match world.pending[index]? with
    | none => (world, none)
    | some p =>
      let world := { world with pending := world.pending.eraseIdx index }
      match P.render now upstream p with
      | .error _ => (world, none)
      | .ok page =>
        let past : Past := { p with finished := now, result := page.result }
        ({ world with store := P.keep world.store past, past := world.past ++ [past] }, none)
  | .evict key => ({ world with store := Function.update world.store key none }, none)

def Proxy.run (events : List Event) : World := Transcript.final P.step {} events

end Histories

section Steps
variable {P : Proxy} {store : Store} {now : Int} {call : Call} {world : World}

/-- A call that is asked and finished at once is a call of `Search` that meets the cache. -/
theorem search_eq (upstream : String → Request → SearchReply) :
    search P.searcher P.wire call.principalHash
      { now := unixSeconds now, upstream := upstream, cached := P.get store now call }
      call.request call.cursorStr =
    match P.ask store now call with
    | .refused e => .error e
    | .hit page => .ok page
    | .started cursor => (P.render now upstream ⟨call, cursor⟩).map (·.result) := by
  by_cases start : call.cursorStr = ""
  · simp only [search, Proxy.ask, Proxy.render, start, if_true]
    rfl
  · cases decoded : decodeCursor P.wire call.cursorStr P.searcher.cursorSecret P.searcher.origins
        call.principalHash (unixSeconds now) with
    | error e => simp only [search, Proxy.ask, start, if_false, decoded]
    | ok cursor =>
      by_cases other : cursor.queryHash = P.wire.hashSearchRequest call.request
      · cases found : P.get store now call with
        | none =>
          simp only [search, Proxy.ask, start, if_false, decoded, other, ne_eq, not_true_eq_false,
            found]
          rfl
        | some page =>
          simp only [search, Proxy.ask, start, if_false, decoded, other, ne_eq, not_true_eq_false,
            found]
      · simp only [search, Proxy.ask, start, if_false, decoded, other, ne_eq, not_false_eq_true,
          if_true]

/-- The cursor is the one in the payload of the call, and belongs to its principal and query. -/
structure Admitted (P : Proxy) (call : Call) (cursor : Cursor) : Prop where
  genuine : ∃ payload, Verifies P.wire P.searcher.cursorSecret call.cursorStr payload ∧
    P.wire.unmarshal payload = some cursor
  bound : cursor.principalHash = call.principalHash
  asked : cursor.queryHash = P.wire.hashSearchRequest call.request

/-- A call with a cursor is refused, or its cursor is admitted and the cache decides. -/
theorem ask_cases (store : Store) (now : Int) (presented : call.cursorStr ≠ "") :
    (∃ e, P.ask store now call = .refused e) ∨ ∃ cursor, Admitted P call cursor ∧
      ((∃ page, P.get store now call = some page ∧ P.ask store now call = .hit page) ∨
        P.ask store now call = .started cursor) := by
  rw [Proxy.ask, if_neg presented]
  split
  · exact .inl ⟨_, rfl⟩
  · rename_i cursor decoded
    split
    · exact .inl ⟨_, rfl⟩
    · rename_i matching
      obtain ⟨-, genuine, -, bound, -⟩ := decodeCursor_ok_iff.mp decoded
      refine .inr ⟨cursor, ⟨genuine, bound, not_not.mp matching⟩, ?_⟩
      cases P.get store now call with
      | none => exact .inr rfl
      | some page => exact .inl ⟨page, rfl, rfl⟩

theorem admitted_of_started {cursor : Cursor} (started : P.ask store now call = .started cursor)
    (presented : call.cursorStr ≠ "") : Admitted P call cursor := by
  rcases ask_cases store now presented with
    ⟨_, refused⟩ | ⟨_, admitted, ⟨_, -, hit⟩ | started'⟩
  · cases started.symm.trans refused
  · cases started.symm.trans hit
  · cases started.symm.trans started'
    exact admitted

theorem admitted_of_hit {result : SearchResult} (hit : P.ask store now call = .hit result) :
    P.get store now call = some result ∧ ∃ cursor, Admitted P call cursor := by
  have presented : call.cursorStr ≠ "" := by
    intro absent
    rw [Proxy.ask, if_pos absent] at hit
    cases hit
  rcases ask_cases store now presented with
    ⟨_, refused⟩ | ⟨cursor, admitted, ⟨_, found, hit'⟩ | started⟩
  · cases hit.symm.trans refused
  · cases hit.symm.trans hit'
    exact ⟨found, cursor, admitted⟩
  · cases hit.symm.trans started

/-- The result of a finished call is a page that it rendered. -/
def Rendered (P : Proxy) (past : Past) : Prop :=
  ∃ upstream page, P.render past.finished upstream past.toPending = .ok page ∧
    page.result = past.result

/-- An entry of the store is the page of a finished call, under its key and for its lifetime. -/
structure Kept (P : Proxy) (past : Past) (key : String) (data : Bytes) (expiry : Int) : Prop where
  rendered : Rendered P past
  admitted : Admitted P past.call past.cursor
  key : P.key past.call = key
  data : ∃ value, resultJson P.codec past.result = some value ∧ bytes (P.codec.print value) = data
  expiry : expiry = past.finished + min P.cache.ttl (remaining past.cursor past.finished)
  clean : ∀ status ∈ past.result.context.origins, status.error = none

structure Sound (P : Proxy) (world : World) : Prop where
  pending : ∀ p ∈ world.pending, p.call.cursorStr ≠ "" → Admitted P p.call p.cursor
  stored : ∀ key data expiry, world.store key = some (data, expiry) →
    ∃ past ∈ world.past, Kept P past key data expiry

theorem failedFromStatuses_eq_nil {statuses : List OriginStatus} :
    failedFromStatuses statuses = [] ↔ ∀ status ∈ statuses, status.error = none := by
  rw [failedFromStatuses, ← List.length_eq_zero_iff, List.length_insertionSort, List.length_map,
    List.length_eq_zero_iff, List.filter_eq_nil_iff]
  simp

/-- What a finished call can leave under a key: the entry that was there, or its own. -/
theorem keep_cases {past : Past} {key : String} {data : Bytes} {expiry : Int}
    (rendered : Rendered P past)
    (admitted : past.call.cursorStr ≠ "" → Admitted P past.call past.cursor)
    (stored : P.keep store past key = some (data, expiry)) :
    store key = some (data, expiry) ∨ Kept P past key data expiry := by
  rw [Proxy.keep] at stored
  split at stored
  · rename_i worthy
    obtain ⟨presented, -, clean⟩ := worthy
    rw [Proxy.put] at stored
    split at stored
    · exact .inl stored
    · cases written : resultJson P.codec past.result with
      | none => exact .inl (by simpa only [written] using stored)
      | some value =>
        simp only [written] at stored
        by_cases here : key = P.key past.call
        · subst here
          rw [Function.update_self] at stored
          obtain ⟨rfl, rfl⟩ := Prod.mk.inj (Option.some.inj stored)
          exact .inr ⟨rendered, admitted presented, rfl, ⟨value, written, rfl⟩, rfl,
            failedFromStatuses_eq_nil.mp clean⟩
        · rw [Function.update_of_ne here] at stored
          exact .inl stored
  · exact .inl stored

theorem step_sound (world : World) (event : Event) (sound : Sound P world) :
    Sound P (P.step world event).1 := by
  cases event with
  | ask now call =>
    cases asked : P.ask world.store now call with
    | started cursor =>
      simp only [Proxy.step, asked]
      refine ⟨fun p member presented => ?_, sound.stored⟩
      rcases List.mem_append.mp member with old | new
      · exact sound.pending p old presented
      · obtain rfl := List.mem_singleton.mp new
        exact admitted_of_started asked presented
    | refused e | hit page => simpa only [Proxy.step, asked] using sound
  | finish now index upstream =>
    cases chosen : world.pending[index]? with
    | none => simpa only [Proxy.step, chosen] using sound
    | some p =>
      have others : ∀ p' ∈ world.pending.eraseIdx index, p'.call.cursorStr ≠ "" →
          Admitted P p'.call p'.cursor :=
        fun p' member => sound.pending p' (List.mem_of_mem_eraseIdx member)
      cases rendered : P.render now upstream p with
      | error e => simpa only [Proxy.step, chosen, rendered] using ⟨others, sound.stored⟩
      | ok page =>
        simp only [Proxy.step, chosen, rendered]
        refine ⟨others, fun key data expiry stored => ?_⟩
        rcases keep_cases ⟨upstream, page, rendered, rfl⟩
          (sound.pending p (List.mem_of_getElem? chosen)) stored with old | new
        · obtain ⟨past, member, kept⟩ := sound.stored key data expiry old
          exact ⟨past, List.mem_append_left _ member, kept⟩
        · exact ⟨_, List.mem_append_right _ (List.mem_singleton_self _), new⟩
  | evict key =>
    refine ⟨sound.pending, fun key' data expiry stored => ?_⟩
    by_cases here : key' = key
    · simp [Proxy.step, here] at stored
    · refine sound.stored key' data expiry ?_
      rw [← stored]
      exact (Function.update_of_ne here _ _).symm

theorem run_sound (P : Proxy) (events : List Event) : Sound P (P.run events) :=
  Transcript.invariant step_sound ⟨by simp, by simp⟩ events

/-- No two inputs that the calls put to a MAC have the same output: the payloads of their cursors,
and the texts of their cache keys. -/
def CollisionFree (P : Proxy) (calls : List Call) : Prop :=
  ∀ a ∈ calls, ∀ b ∈ calls,
    (∀ p q, Verifies P.wire P.searcher.cursorSecret a.cursorStr p →
      Verifies P.wire P.searcher.cursorSecret b.cursorStr q →
      P.wire.hmac P.searcher.cursorSecret p = P.wire.hmac P.searcher.cursorSecret q → p = q) ∧
    (P.wire.hmac P.cache.secret (keyText (signatureOf a.cursorStr) a.principalHash) =
        P.wire.hmac P.cache.secret (keyText (signatureOf b.cursorStr) b.principalHash) →
      keyText (signatureOf a.cursorStr) a.principalHash =
        keyText (signatureOf b.cursorStr) b.principalHash)

theorem hmac_of_key {call' : Call} (same : P.key call = P.key call') :
    P.wire.hmac P.cache.secret (keyText (signatureOf call.cursorStr) call.principalHash) =
      P.wire.hmac P.cache.secret (keyText (signatureOf call'.cursorStr) call'.principalHash) := by
  have texts := congrArg String.toList same
  simp only [Proxy.key, Cache.key, String.toList_append, String.toList_ofList,
    List.append_cancel_left_eq] at texts
  have decoded := congrArg Base64Url.decode texts
  rwa [Base64Url.decode_encode, Base64Url.decode_encode, Option.some.injEq] at decoded

theorem get_eq_some {result : SearchResult} (found : P.get store now call = some result) :
    ∃ data expiry value, store (P.key call) = some (data, expiry) ∧ now ≤ expiry ∧
      P.codec.parse data = some value ∧ readResult P.codec value = some result := by
  obtain ⟨value, parsed, readBack⟩ := Option.bind_eq_some_iff.mp found
  obtain ⟨data, live, parsed⟩ := Option.bind_eq_some_iff.mp parsed
  obtain ⟨⟨kept, expiry⟩, stored, returned⟩ := Option.bind_eq_some_iff.mp live
  obtain ⟨in_time, rfl⟩ : now ≤ expiry ∧ kept = data := by simpa using returned
  exact ⟨kept, expiry, value, stored, in_time, parsed, readBack⟩

/-- An entry that is found under the key of a call belongs to a call with the same payload. -/
theorem same_payload {past : Past} {key : String} {data payload : Bytes} {expiry : Int}
    (distinct : CollisionFree P [call, past.call]) (kept : Kept P past key data expiry)
    (same : P.key call = key)
    (verifies : Verifies P.wire P.searcher.cursorSecret call.cursorStr payload) :
    Verifies P.wire P.searcher.cursorSecret past.call.cursorStr payload ∧
      P.wire.unmarshal payload = some past.cursor := by
  obtain ⟨payload', verifies', decoded⟩ := kept.admitted.genuine
  obtain ⟨payloads, keys⟩ := distinct call (by simp) past.call (by simp)
  have texts := keys (hmac_of_key (same.trans kept.key.symm))
  obtain rfl := payloads payload payload' verifies verifies'
    (signature_of_keyText verifies verifies' texts)
  exact ⟨verifies', decoded⟩

end Steps

/-! ## A page that is asked for twice -/

def pageCursor : Cursor where
  version := currentCursorVersion
  queryHash := String.ofList (List.replicate 64 '0')
  principalHash := "p"
  origins := (∅ : OriginMap).insert "a" { id := "a", nextToken := "t" }
  createdAt := 0
  expiresAt := 3600
  pageSeq := 1

def lastItem : Item where
  id := "s1"
  collection := "scenes"

/-- The item with the link to its origin. -/
def shownItem : Item := addItemOriginLink lastItem "a" "https://api.example.com"

/-- The page of an origin that has one more item. -/
def lastPage (token : String) : SearchResult where
  items := [shownItem]
  totalCount := 1
  selfCursor := token
  context := { returned := 1, limit := 1, origins := [⟨"a", 1, true, none⟩] }

/-- A wire on which one byte stands for the sample cursor. -/
def pageWire : Wire :=
  { RecordedSession.sampleWire with
    unmarshal := fun payload => if payload = [1] then some pageCursor else none }

def pageToken : String := tokenOf pageWire [1] [1]

/-- A codec that knows the item. -/
def itemCodec : Codec :=
  { plainCodec with
    itemJson := fun item => some (.str item.id)
    readItem := fun _ => some shownItem }

def pageCodec : Codec :=
  { itemCodec with parse := fun _ => resultJson itemCodec (lastPage pageToken) }

theorem hour_pos : (0 : Int) < 3600000000000 := by decide

def pageProxy : Proxy where
  searcher := {
    origins := (∅ : Std.ExtTreeMap String String).insert "a" "https://api.example.com"
    pageSize := 1
    maxPageSize := 10
    cursorSecret := [1]
    pageSize_pos := Nat.one_pos
    secret_ne_nil := RecordedSession.sampleSecret_ne_nil }
  wire := pageWire
  codec := pageCodec
  cache := {
    ttl := 3600000000000
    secret := [1]
    ttl_pos := hour_pos
    secret_ne_nil := RecordedSession.sampleSecret_ne_nil }

def pageCall : Call where
  principalHash := "p"
  request := {}
  cursorStr := pageToken

/-- The first call, which is finished after a second. -/
def firstCall : List Event := [.ask 0 pageCall, .finish 1000000000 0 fun _ _ => { items := [some lastItem] }]

def Asked.isHit : Asked → Bool
  | .hit _ => true
  | _ => false

theorem Asked.isHit_iff {asked : Asked} : asked.isHit ↔ ∃ result, asked = .hit result := by
  cases asked <;> simp [Asked.isHit]

def isShown : Item → Bool
  | ⟨id, collection, [], [some ⟨href, rel, type, title, []⟩], []⟩ =>
    id == "s1" && collection == "scenes" && href == "https://api.example.com" &&
      rel == originLinkRel && type == "application/json" && title == "a"
  | _ => false

theorem eq_of_isShown {item : Item} (shown : isShown item) : item = shownItem := by
  unfold isShown at shown
  split at shown
  · simp only [Bool.and_eq_true, beq_iff_eq] at shown
    obtain ⟨⟨⟨⟨⟨rfl, rfl⟩, rfl⟩, rfl⟩, rfl⟩, rfl⟩ := shown
    rfl
  · cases shown

/-- The fields of a page other than its items. -/
def fieldsOf (r : SearchResult) :=
  (r.totalCount, r.nextCursor, r.prevCursor, r.firstCursor, r.selfCursor, r.context.returned,
    r.context.limit, r.context.origins.map fun s => (s.id, s.returned, s.exhausted, s.error))

theorem eq_of_fieldsOf {r r' : SearchResult} (listed : r.items = r'.items)
    (same : fieldsOf r = fieldsOf r') : r = r' := by
  obtain ⟨items, _, _, _, _, _, _, _, statuses⟩ := r
  obtain ⟨items', _, _, _, _, _, _, _, statuses'⟩ := r'
  have apart : Function.Injective
      fun s : OriginStatus => (s.id, s.returned, s.exhausted, s.error) := by
    rintro ⟨_, _, _, _⟩ ⟨_, _, _, _⟩ equal
    simpa using equal
  simp only [fieldsOf, Prod.mk.injEq] at same
  obtain ⟨rfl, rfl, rfl, rfl, rfl, rfl, rfl, equal⟩ := same
  obtain rfl := List.map_injective_iff.mpr apart equal
  obtain rfl : items = items' := listed
  rfl

theorem past_eq {past : Past} (member : past ∈ (pageProxy.run firstCall).past) :
    past.call.cursorStr = pageToken ∧ past.call.principalHash = "p" ∧
      past.result = lastPage pageToken := by
  have all : (pageProxy.run firstCall).past.all (fun past => past.call.cursorStr == pageToken &&
      past.call.principalHash == "p" && past.result.items.length == 1 &&
      past.result.items.all isShown && fieldsOf past.result == fieldsOf (lastPage pageToken)) := by
    decide +kernel
  have checked := List.all_eq_true.mp all past member
  simp only [Bool.and_eq_true, beq_iff_eq] at checked
  obtain ⟨⟨⟨⟨token, principal⟩, one⟩, shown⟩, same⟩ := checked
  obtain ⟨item, items⟩ := List.length_eq_one_iff.mp one
  rw [items, List.all_cons, List.all_nil, Bool.and_true] at shown
  exact ⟨token, principal, eq_of_fieldsOf (by rw [items, eq_of_isShown shown]; rfl) same⟩

theorem lastPage_readsBack : ReadsBack pageCodec (lastPage pageToken) where
  items item listed := by
    rw [List.mem_singleton.mp listed]
    exact ⟨.str "s1", rfl, rfl⟩
  text value written := by
    rw [← written]
    simp only [pageCodec, resultJson]

/-- Whatever a call gets from the cache is the result of a call that was finished before, with the
same payload and principal and an equal query hash, on which no origin failed. It is served
neither after the cursor has expired nor after the TTL. -/
theorem served_page_sourced {P : Proxy} {events : List Event} {call : Call} {now : Int}
    {result : SearchResult}
    (distinct : CollisionFree P (call :: (P.run events).past.map (·.call)))
    (readsBack : ∀ past ∈ (P.run events).past, ReadsBack P.codec past.result)
    (hit : P.ask (P.run events).store now call = .hit result) :
    ∃ past ∈ (P.run events).past, ∃ payload, Rendered P past ∧ past.result = result ∧
      Verifies P.wire P.searcher.cursorSecret call.cursorStr payload ∧
      Verifies P.wire P.searcher.cursorSecret past.call.cursorStr payload ∧
      P.wire.unmarshal payload = some past.cursor ∧
      past.call.principalHash = call.principalHash ∧
      P.wire.hashSearchRequest past.call.request = P.wire.hashSearchRequest call.request ∧
      (∀ status ∈ past.result.context.origins, status.error = none) ∧
      now ≤ past.cursor.expiresAt.toInt * 1000000000 ∧ now ≤ past.finished + P.cache.ttl := by
  obtain ⟨found, cursor, admitted⟩ := admitted_of_hit hit
  obtain ⟨data, expiry, value, stored, in_time, parsed, readBack⟩ := get_eq_some found
  obtain ⟨past, member, kept⟩ := (run_sound P events).stored _ _ _ stored
  obtain ⟨payload, verifies, decoded⟩ := admitted.genuine
  have pair : CollisionFree P [call, past.call] := by
    have listed : ∀ a ∈ [call, past.call], a ∈ call :: (P.run events).past.map (·.call) := by
      intro a member'
      rcases List.mem_cons.mp member' with rfl | here
      · exact List.mem_cons_self
      · rw [List.mem_singleton.mp here]
        exact List.mem_cons_of_mem _ (List.mem_map_of_mem member)
    exact fun a a_mem b b_mem => distinct a (listed a a_mem) b (listed b b_mem)
  obtain ⟨verifies', decoded'⟩ := same_payload pair kept rfl verifies
  obtain rfl : cursor = past.cursor := Option.some.inj (decoded.symm.trans decoded')
  have same : past.result = result := by
    obtain ⟨written, written_eq, readBack'⟩ := readResult_resultJson (readsBack past member)
    obtain ⟨kept_value, kept_eq, rfl⟩ := kept.data
    obtain rfl : written = kept_value := Option.some.inj (written_eq.symm.trans kept_eq)
    rw [(readsBack past member).text written written_eq] at parsed
    obtain rfl := Option.some.inj parsed
    exact Option.some.inj (readBack'.symm.trans readBack)
  refine ⟨past, member, payload, kept.rendered, same, verifies, verifies', decoded',
    kept.admitted.bound.symm.trans admitted.bound, kept.admitted.asked.symm.trans admitted.asked,
    kept.clean, ?_, ?_⟩
  · have lifetime := kept.expiry
    rw [remaining] at lifetime
    omega
  · have lifetime := kept.expiry
    omega

/-- A minute later the page comes from the cache. -/
theorem served_again : ∃ result,
    pageProxy.ask (pageProxy.run firstCall).store 60000000000 pageCall = .hit result ∧
    ∃ past ∈ (pageProxy.run firstCall).past, past.result = result ∧ result.items = [shownItem] ∧
      (60000000000 : Int) ≤ past.cursor.expiresAt.toInt * 1000000000 := by
  have distinct : CollisionFree pageProxy
      (pageCall :: (pageProxy.run firstCall).past.map (·.call)) := by
    have alike : ∀ a ∈ pageCall :: (pageProxy.run firstCall).past.map (·.call),
        a.cursorStr = pageToken ∧ a.principalHash = "p" := by
      intro a member
      rcases List.mem_cons.mp member with rfl | finished
      · exact ⟨rfl, rfl⟩
      · obtain ⟨past, listed, rfl⟩ := List.mem_map.mp finished
        obtain ⟨token, principal, -⟩ := past_eq listed
        exact ⟨token, principal⟩
    intro a a_mem b b_mem
    rw [(alike a a_mem).1, (alike b b_mem).1, (alike a a_mem).2, (alike b b_mem).2]
    exact ⟨fun p q verifies verifies' _ => verifies_unique verifies verifies', fun _ => rfl⟩
  have readsBack : ∀ past ∈ (pageProxy.run firstCall).past,
      ReadsBack pageProxy.codec past.result := by
    intro past member
    rw [(past_eq member).2.2]
    exact lastPage_readsBack
  obtain ⟨result, hit⟩ := Asked.isHit_iff.mp
    (by decide +kernel : (pageProxy.ask (pageProxy.run firstCall).store 60000000000 pageCall).isHit)
  obtain ⟨past, member, _, -, same, -, -, -, -, -, -, in_time, -⟩ :=
    served_page_sourced distinct readsBack hit
  have items : result.items = [shownItem] := by rw [← same, (past_eq member).2.2]; rfl
  exact ⟨result, hit, past, member, same, items, in_time⟩

end PageCacheHistory
