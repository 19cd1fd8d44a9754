import StacProxy.AdapterLock
import StacProxy.FailedFetch
import StacProxy.RetryBudget

/-!
# A next link that is refused

When its adapter refuses the next link of a response, the searcher returns the items of the
response together with the error. The merge reads no items off a reply with an error, and the
cursor keeps the pointers of the origin. So the items are shown only as far as another source
of the page has them too, and the page is asked for again as soon as the stash of the origin
leaves room.
-/

namespace CaptureFailure

open StacItem FederatedCursor ItemMerge PageMerge PaginatedSearch SearchSession
open PageAdapter OriginClient MergeSurvival RecordedSession FailedFetch AdapterLock

section Refusal
variable {lib : Library} (S : Session) (client : Client lib)
  (server : Nat → Outbound → Except OriginError Answer) (o : String) (n : Nat) (c : Cursor)
  (answer : Answer)

/-- The results that page `n` merges. -/
abbrev pageResults : List FetchResult :=
  fetchFromOrigins S.searcher (S.visit n) S.request c S.limit

/-- On page `n` the origin answers, and its adapter refuses the next link of the answer. -/
structure Refused : Prop where
  known : o ∈ S.searcher.origins
  searched : ∀ req, (S.visit n).upstream o req = client.search (server n) req
  read : ReadAt S client server o n c answer
  refused : ∃ e, (adapterFor S client o c).capture lib client.config (client.received answer) =
    .error e

/-- The item is on the page or in the stash of the origin, itself or as a copy. -/
def Shown (m : Merged) (item : Item) : Prop :=
  (∃ y ∈ m.items, y.identity = item.identity) ∨
    ∃ oc, m.cursor.origins[o]? = some oc ∧ ∃ y, some y ∈ oc.stash ∧ y.identity = item.identity

def ItemsKept : Prop :=
  ∃ m, S.merge n c = some m ∧ ∀ item, some item ∈ answer.features → Shown o m item

/-- No later page asks the origin for the same page. -/
def AskedOnce : Prop :=
  ∀ k c' token, n < k → S.cursorAt k = some (c', token) → o ∈ toFetch c' S.limit →
    originRequest S.request c' S.limit o ≠ originRequest S.request c S.limit o

/-- No response that counts for the page ends in a null feature. -/
def NoNullEnd : Prop :=
  ∀ r ∈ pageResults S n c, r.error = none → r.items.getLast? ≠ some none

/-- The first copy of the item in the stashes and the responses that count is within the limit
or names the origin. -/
def Brought (item : Item) : Prop :=
  ∃ k ∈ firstCopies (pageSources S.searcher.origins (pageResults S n c) c),
    k.item.identity = item.identity ∧
      (Within S.searcher.origins (pageResults S n c) c S.limit k ∨ o ≠ "" ∧ k.home = o)

/-- On every later page the origin has a page of items in its stash. -/
def CoveredAfter : Prop :=
  ∀ k c' token (oc : OriginCursor), n < k → S.cursorAt k = some (c', token) →
    c'.origins[o]? = some oc → S.limit ≤ oc.stash.length

variable {S client server o n c answer}

/-- The refusal is an error of the whole fetch. -/
theorem Refused.failed (refused : Refused S client server o n c answer) :
    (S.fetch n c o).error.isSome := by
  obtain ⟨-, -, out, sent, answered⟩ := refused.read
  obtain ⟨e, refuses⟩ := refused.refused
  rw [adapterFor] at refuses
  simp [Session.fetch, fetchOrigin, refused.known, refused.searched, Client.search, sent, answered,
    refuses]

/-- An origin that fails once is still active. -/
theorem Refused.active (refused : Refused S client server o n c answer) :
    o ∈ (markErrors (pageResults S n c) c).activeOrigins := by
  obtain ⟨⟨token, before⟩, fetched, -⟩ := refused.read
  obtain ⟨oc, present, unexhausted, -, -⟩ := mem_toFetch.mp fetched
  have distinct := (S.fetchedFor n c).onePerOrigin
  refine mem_activeOrigins.mpr ⟨oc.markError, ?_, ?_⟩
  · rw [origins_markErrors distinct, if_pos (failed_iff.mpr ⟨fetched, refused.failed⟩), present,
      Option.map_some]
  · have fresh := RetryBudget.errorCount_eq_zero before present
    simp [OriginCursor.hasMore, OriginCursor.retired, OriginCursor.markError, unexhausted, fresh,
      maxOriginErrorRetries]

/-- What is shown of the answer is shown from elsewhere. -/
theorem shown_iff (refused : Refused S client server o n c answer) {m : Merged}
    (merged : S.merge n c = some m) (item : Item) : Shown o m item ↔ Brought S o n c item := by
  obtain ⟨c', spec, same⟩ := merge_spec merged
  have origins : m.cursor.origins = c'.origins := by rw [same]
  rw [Shown, origins]
  constructor
  · rintro (⟨y, shown, alike⟩ | ⟨oc, present, y, stashed, alike⟩)
    · obtain ⟨k, first, rfl, within⟩ := (mem_emitted_iff spec).mp shown
      rw [identity_tagged] at alike
      exact ⟨k, first, alike, .inl within⟩
    · obtain ⟨k, first, rfl, -, home, named, -⟩ := (mem_filed_iff spec).mp ⟨oc, present, stashed⟩
      rw [identity_tagged] at alike
      exact ⟨k, first, alike, .inr ⟨named, home⟩⟩
  · rintro ⟨k, first, alike, place⟩
    rw [← identity_tagged k] at alike
    by_cases within : Within S.searcher.origins (pageResults S n c) c S.limit k
    · exact .inl ⟨k.tagged, (mem_emitted_iff spec).mpr ⟨k, first, rfl, within⟩, alike⟩
    · obtain ⟨named, home⟩ := place.resolve_left within
      obtain ⟨oc, present, stashed⟩ :=
        (mem_filed_iff spec).mpr ⟨k, first, rfl, within, home, named, refused.active⟩
      exact .inr ⟨oc, present, k.tagged, stashed, alike⟩

theorem itemsKept_iff (refused : Refused S client server o n c answer) :
    ItemsKept S o n c answer ↔ NoNullEnd S n c ∧
      ∀ item, some item ∈ answer.features → Brought S o n c item := by
  have fetched := S.fetchedFor n c
  constructor
  · rintro ⟨m, merged, kept⟩
    refine ⟨?_, fun item member => (shown_iff refused merged item).mp (kept item member)⟩
    obtain ⟨page, run, -⟩ := Option.map_eq_some_iff.mp merged
    exact (mergeResults_isSome_iff S.searcher.origins fetched).mp (Option.isSome_of_eq_some run)
  · rintro ⟨ends, brought⟩
    have returns : ∃ m, S.merge n c = some m := by
      refine exists_merge fun id selected fine => ?_
      obtain ⟨member, -⟩ := mem_fetchFromOrigins.mpr ⟨selected, rfl⟩
      exact ends _ member fine
    obtain ⟨m, merged⟩ := returns
    exact ⟨m, merged, fun item member => (shown_iff refused merged item).mpr (brought item member)⟩

theorem unasked_of_covered
    (covered : ∀ oc : OriginCursor, c.origins[o]? = some oc → S.limit ≤ oc.stash.length) :
    o ∉ toFetch c S.limit := by
  intro asked
  obtain ⟨oc, present, -, -, room⟩ := mem_toFetch.mp asked
  exact absurd room (not_lt.mpr (covered oc present))

/-- As long as its stash covers the pages, the origin stays where it was refused. -/
theorem samePlace_after (refused : Refused S client server o n c answer) {oc : OriginCursor}
    (present : c.origins[o]? = some oc) {k : Nat} (later : n + 1 ≤ k)
    (unasked : ∀ j c₁ token₁, n < j → j < k → S.cursorAt j = some (c₁, token₁) →
      o ∉ toFetch c₁ S.limit) {c' : Cursor} {token' : String}
    (after : S.cursorAt k = some (c', token')) :
    ∃ oc', c'.origins[o]? = some oc' ∧ SamePlace oc oc' := by
  induction k, later using Nat.le_induction generalizing c' token' with
  | base =>
    obtain ⟨token, before⟩ := refused.read.1
    obtain ⟨oc', present', progress⟩ := origin_after before after present
    exact ⟨_, present', samePlace_of_progress progress fun _ => refused.failed⟩
  | succ k later ih =>
    obtain ⟨c₁, token₁, _, before, _⟩ := cursorAt_succ_iff.mp after
    obtain ⟨oc₁, present₁, place⟩ := ih (fun j _ _ past early => unasked j _ _ past (by omega)) before
    obtain ⟨oc', present', progress⟩ := origin_after before after present₁
    have skipped := unasked k c₁ token₁ later (Nat.lt_succ_self k) before
    exact ⟨_, present', samePlace_trans place
      (samePlace_of_progress progress fun asked => absurd asked skipped)⟩

/-- The origin is asked for the same again by the first page that its stash does not cover. -/
theorem askedOnce_iff (refused : Refused S client server o n c answer) :
    AskedOnce S o n c ↔ CoveredAfter S o n := by
  obtain ⟨oc, present, unexhausted, -, -⟩ := mem_toFetch.mp refused.read.2.1
  constructor
  · intro once k
    -- The pages before `k` are covered, so the origin is at the place where it was refused.
    induction k using Nat.strong_induction_on with
    | _ k ih =>
      intro c' token' oc' later after present'
      have unasked : ∀ j c₁ token₁, n < j → j < k → S.cursorAt j = some (c₁, token₁) →
          o ∉ toFetch c₁ S.limit := by
        intro j c₁ token₁ past early before
        exact unasked_of_covered fun oc₁ => ih j early c₁ token₁ oc₁ past before
      obtain ⟨oc'', present'', place⟩ := samePlace_after refused present later unasked after
      obtain rfl := Option.some.inj (present'.symm.trans present'')
      by_contra room
      refine once k c' token' later after ?_ (originRequest_samePlace place present present')
      exact (RetryBudget.selected_iff after).mpr
        ⟨oc', present', place.exhausted.trans unexhausted, not_le.mp room⟩
  · intro covered k c' token' later after asked
    exact absurd asked (unasked_of_covered fun oc' => covered k c' token' oc' later after)

end Refusal

section Samples

/-- A page with one item and a link to another host. -/
def strayAnswer : Answer where
  features := [some (dated "s1" "2024-05-01T00:00:00Z" [])]
  links := [some { href := "https://elsewhere.example.com/search", rel := "next" }]

def strayServer (_ : Nat) (_ : Outbound) : Except OriginError Answer := .ok strayAnswer

def linkClient : Client FollowUpBody.sampleLibrary :=
  { FollowUpBody.sampleClient with adapter := .named .nextURL }

/-- The origin `b` has the item too, and one more of the origin `a`. The next page of `b` ends in a
null feature. -/
def neighbour (n : Nat) : SearchReply :=
  if n = 0 then
    { items := strayAnswer.features ++ [some (dated "s2" "2024-04-01T00:00:00Z"
        [some (originLink "a" "https://api.example.com")])]
      nextToken := "t" }
  else { items := [none] }

def straySession (origins : List (String × String)) : Session := recorded {
  searcher := sampleSearcher origins
  wire := sampleWire
  principalHash := ""
  request := {}
  visit := fun n => {
    now := 0
    upstream := fun id => if id = "b" then fun _ => neighbour n
      else linkClient.search (strayServer n) }
  principalHash_short := noPrincipal_short }

def loneSession : Session := straySession [("a", "https://api.example.com")]

/-- The item of the second page is in the stash of `a`, and that page cannot be merged. -/
def doubleSession : Session :=
  straySession [("a", "https://api.example.com"), ("b", "https://b.example.com")]

theorem stray_refused {origins : List (String × String)}
    (known : "a" ∈ (straySession origins).searcher.origins)
    (fetched : "a" ∈ toFetch (straySession origins).startCursor 1)
    (sent : (linkClient.outbound (originRequest {} (straySession origins).startCursor 1 "a")).isSome) :
    Refused (straySession origins) linkClient strayServer "a" 0 (straySession origins).startCursor
      strayAnswer := by
  obtain ⟨out, sent⟩ := Option.isSome_iff_exists.mp sent
  exact ⟨known, fun _ => rfl, ⟨⟨"", rfl⟩, fetched, out, sent, rfl⟩, _, rfl⟩

theorem doubleSession_refused : Refused doubleSession linkClient strayServer "a" 0
    doubleSession.startCursor strayAnswer :=
  stray_refused (by decide +kernel) (by decide +kernel) (by decide +kernel)

theorem doubleSession_noNullEnd : NoNullEnd doubleSession 0 doubleSession.startCursor := by
  have fetched := doubleSession.fetchedFor 0 doubleSession.startCursor
  exact (mergeResults_isSome_iff doubleSession.searcher.origins fetched).mp (by decide +kernel)

theorem doubleSession_brought (item : Item) (member : some item ∈ strayAnswer.features) :
    Brought doubleSession "a" 0 doubleSession.startCursor item := by
  obtain rfl := Option.some.inj (List.mem_singleton.mp member)
  have leads : (match firstCopies (pageSources doubleSession.searcher.origins
      (pageResults doubleSession 0 doubleSession.startCursor) doubleSession.startCursor) with
    | [] => false
    | k :: rest => k.item.identity = ("scenes", "s1") &&
        StableOrder.place candidateLE [] k rest < 1) = true := by
    decide +kernel
  split at leads
  · cases leads
  · rename_i k rest copies
    rw [Bool.and_eq_true, decide_eq_true_eq, decide_eq_true_eq] at leads
    exact ⟨k, by simp [copies], leads.1, .inl ⟨[], rest, copies, leads.2⟩⟩

theorem doubleSession_covered : CoveredAfter doubleSession "a" 0 := by
  intro k c token oc later after present
  have ended : doubleSession.cursorAt 2 = none := by
    rw [← Option.isNone_iff_eq_none]
    decide +kernel
  have second : k = 1 := by
    by_contra other
    obtain ⟨c₂, token₂, third⟩ := exists_cursorAt (by omega : 2 ≤ k) after
    cases ended.symm.trans third
  subst second
  have stashed : (doubleSession.cursorAt 1).all fun page => (page.1.origins["a"]?).all fun oc =>
      1 ≤ oc.stash.length := by decide +kernel
  rw [after, Option.all_some, present] at stashed
  exact of_decide_eq_true stashed

/-- A refused next link hides nothing, and its page is not asked for again, exactly if the page
can be merged, has the items of the response from elsewhere, and every later page is covered by
the stash of the origin. -/
theorem refused_link_harmless_iff {lib : Library} {S : Session} {client : Client lib}
    {server : Nat → Outbound → Except OriginError Answer} {o : String} {n : Nat} {c : Cursor}
    {answer : Answer} (refused : Refused S client server o n c answer) :
    ItemsKept S o n c answer ∧ AskedOnce S o n c ↔
      (NoNullEnd S n c ∧ ∀ item, some item ∈ answer.features → Brought S o n c item) ∧
        CoveredAfter S o n :=
  and_congr (itemsKept_iff refused) (askedOnce_iff refused)

theorem doubleSession_harmless : (doubleSession.cursorAt 1).isSome ∧
    ItemsKept doubleSession "a" 0 doubleSession.startCursor strayAnswer ∧
      AskedOnce doubleSession "a" 0 doubleSession.startCursor :=
  ⟨by decide +kernel, (refused_link_harmless_iff doubleSession_refused).mpr
    ⟨⟨doubleSession_noNullEnd, doubleSession_brought⟩, doubleSession_covered⟩⟩

theorem loneSession_coherent : loneSession.Coherent := by
  refine recorded_coherent ⟨fun _ id _ _ known => ?_, fun _ => rfl,
    fun _ => (by decide : ¬ (0 : Int64) + defaultTTL < 0)⟩
  by_cases other : id = "b"
  · simp only [other, if_true, neighbour]
    split <;> exact .inl rfl
  · simp only [other, if_false]
    exact FollowUpBody.sample_linked known

theorem loneSession_refused : Refused loneSession linkClient strayServer "a" 0
    loneSession.startCursor strayAnswer :=
  stray_refused (by decide +kernel) (by decide +kernel) (by decide +kernel)

/-- The item of the page is not shown, and the next page asks for it again. -/
theorem stray_page_hidden : loneSession.Coherent ∧
    Refused loneSession linkClient strayServer "a" 0 loneSession.startCursor strayAnswer ∧
    (loneSession.merge 0 loneSession.startCursor).map (fun m =>
      (m.items.map Item.identity, stashIdentities m.cursor "a")) = some ([], []) ∧
    ∃ c token, loneSession.cursorAt 1 = some (c, token) ∧ "a" ∈ toFetch c 1 ∧
      originRequest {} c 1 "a" = originRequest {} loneSession.startCursor 1 "a" := by
  refine ⟨loneSession_coherent, loneSession_refused, by decide +kernel, ?_⟩
  have again : (loneSession.cursorAt 1).any fun page => "a" ∈ toFetch page.1 1 := by decide +kernel
  obtain ⟨⟨c, token⟩, after, asked⟩ := (Option.any_eq_true _ _).mp again
  obtain ⟨oc, present, -⟩ := mem_toFetch.mp loneSession_refused.read.2.1
  obtain ⟨oc', present', place⟩ := samePlace_after loneSession_refused present le_rfl
    (fun j _ _ past early => absurd early (by omega)) after
  exact ⟨c, token, after, of_decide_eq_true asked,
    @originRequest_samePlace loneSession _ _ _ _ _ place present present'⟩

end Samples

end CaptureFailure
