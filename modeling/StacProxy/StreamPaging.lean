import Mathlib.Data.Finset.Union
import StacProxy.OffsetStreams

/-!
# Paging through sorted streams

Over streams that are sorted the way the merge sorts its pages, a session refines
paging through the sorted set of the ranks of all stream items. The central point is that
an origin with unfetched items brings at least a page to every merge, so nothing emitted
comes after anything that stays upstream.
-/

namespace StreamPaging

open StacItem FederatedCursor PageMerge PaginatedSearch SearchSession StreamSession StableOrder
open OrderedPaging

section OnePage
variable {S : Session} {streams : String → List Item} {points : String → Nat → Pointer → Prop}
  {c : Cursor} {taken : String → Nat} {n : Nat} {id id' : String} {oc : OriginCursor} {m : Merged}
  {x : Item}

theorem pageRank_eq_of_identity (up : Upstreams S streams points) (known : id ∈ S.searcher.origins)
    (known' : id' ∈ S.searcher.origins) {x y : Item} (hx : x ∈ streams id) (hy : y ∈ streams id')
    (same : x.identity = y.identity) : pageRank x = pageRank y := by
  have datetimes := up.copies id known id' known' x hx y hy same
  have ids : x.id = y.id := congrArg Prod.snd same
  rw [pageRank, pageRank, datetimes, ids]

/-- What one origin brings is on the page as copies of equal rank. -/
theorem exists_copies (up : Upstreams S streams points) (tracks : Tracks S streams points c taken)
    (present : c.origins[id]? = some oc) : ∃ w : List Item, w.Nodup ∧ w ⊆ wholePage S n c ∧
      (oc.stash ++ (arrivals S streams c taken id).map some).length ≤ w.length ∧
      ∀ z ∈ w, ∃ x ∈ (streams id).take (advance S streams c taken id), pageRank z = pageRank x := by
  have known := member_of_present tracks present
  let brought := oc.stash ++ (arrivals S streams c taken id).map some
  let idents := brought.map (Option.map Item.identity)
  let w := (wholePage S n c).filter fun z => some z.identity ∈ idents
  have covered : idents ⊆ w.map fun z => some z.identity := by
    intro ident member
    obtain ⟨y, hy, rfl⟩ := List.mem_map.mp member
    obtain ⟨z, rfl⟩ : ∃ z, y = some z := by
      obtain ⟨x, _, rfl | rfl⟩ := mem_window tracks present hy
      · exact ⟨_, rfl⟩
      · exact ⟨_, rfl⟩
    obtain ⟨copy, onPage, same⟩ := exists_mem_wholePage up tracks present hy
    refine List.mem_map.mpr ⟨copy, List.mem_filter.mpr ⟨onPage, ?_⟩, by simp [same]⟩
    exact decide_eq_true (same ▸ member)
  have enough : brought.length ≤ w.length := by
    have := (List.subperm_of_subset (window_identities_nodup up tracks present) covered).length_le
    simpa [idents, brought] using this
  refine ⟨w, (mergedPage_nodup _ _ _).filter _, List.filter_subset_self _, enough, fun z member => ?_⟩
  obtain ⟨onPage, copied⟩ := List.mem_filter.mp member
  obtain ⟨y, hy, same⟩ := List.mem_map.mp (of_decide_eq_true copied)
  obtain ⟨x, early, sourced⟩ := mem_window tracks present hy
  have identity : x.identity = z.identity := by
    rcases sourced with rfl | rfl
    · simpa using same
    · simpa using same
  obtain ⟨id', x', left', rfl⟩ := mem_wholePage_left up tracks onPage
  refine ⟨x, early, ?_⟩
  rw [pageRank_tag]
  exact pageRank_eq_of_identity up left'.1 known left'.2.1 (List.mem_of_mem_take early)
    (by rw [identity, identity_tag])

theorem wholePage_sorted : (wholePage S n c).Pairwise pageLE := sortPage_sorted _

/-- What is left after a page is stashed by it, or lies behind an item of its stream that no
emitted item comes after. -/
theorem left_after_cases (up : Upstreams S streams points)
    (tracks : Tracks S streams points c taken) (merged : S.merge n c = some m) {token : String}
    {x : Item}
    (left : Left S streams (chainCursor m.cursor token) (advance S streams c taken) id x) :
    tag S id x ∈ (wholePage S n c).drop S.limit ∨
      x ∈ (streams id).drop (advance S streams c taken id) ∧ S.limit ≤ (wholePage S n c).length ∧
        ∀ e ∈ m.items, ∃ w ∈ (streams id).take (advance S streams c taken id),
          pageRank e ≤ pageRank w := by
  obtain ⟨known, member, ⟨oc'', after, stashed⟩ | behind⟩ := left
  · rw [origins_chainCursor] at after
    obtain ⟨oc', after', rfl⟩ := Option.map_eq_some_iff.mp after
    change some (tag S id x) ∈ oc'.stash at stashed
    rw [stash_after up tracks merged after', mem_newStash] at stashed
    exact .inl stashed.1
  · obtain ⟨oc, present⟩ := Option.isSome_iff_exists.mp ((tracks.domain id).mpr known)
    have remains : advance S streams c taken id < (streams id).length := by
      by_contra beyond
      rw [List.drop_eq_nil_of_le (not_lt.mp beyond)] at behind
      cases behind
    obtain ⟨w, distinct, subset, enough, ranked⟩ := exists_copies (n := n) up tracks present
    have many := (window_full tracks present remains).trans enough
    refine .inr ⟨behind, many.trans (List.subperm_of_subset distinct subset).length_le, ?_⟩
    intro e emitted
    rw [items_eq merged] at emitted
    obtain ⟨z, hz, before⟩ := exists_rel_of_mem_take pageLE wholePage_sorted emitted distinct subset many
    obtain ⟨x', early, same⟩ := ranked z hz
    exact ⟨x', early, same ▸ pageLE_iff.mp before⟩

/-- A page is full whenever something is left after it. -/
theorem length_items_of_left (up : Upstreams S streams points)
    (tracks : Tracks S streams points c taken) (merged : S.merge n c = some m) {token : String}
    {x : Item}
    (left : Left S streams (chainCursor m.cursor token) (advance S streams c taken) id x) :
    m.items.length = S.limit := by
  rw [items_eq merged, List.length_take]
  rcases left_after_cases up tracks merged left with stashed | ⟨_, many, _⟩
  · have := List.length_pos_of_mem stashed
    rw [List.length_drop] at this
    omega
  · omega

/-- An order the streams are sorted by and that the order of the pages refines. -/
structure OrderedBy (S : Session) (streams : String → List Item) (le : Item → Item → Prop) :
    Prop where
  trans : ∀ x y z, le x y → le y z → le x z
  refined : ∀ id ∈ S.searcher.origins, ∀ id' ∈ S.searcher.origins, ∀ x ∈ streams id,
    ∀ y ∈ streams id', pageRank x ≤ pageRank y → le x y
  sorted : ∀ id ∈ S.searcher.origins, (streams id).Pairwise le

theorem rel_of_mem_take_drop {le : Item → Item → Prop} {stream : List Item}
    (sorted : stream.Pairwise le) {k : Nat} {x y : Item} (early : x ∈ stream.take k)
    (late : y ∈ stream.drop k) : le x y := by
  rw [← List.take_append_drop k stream] at sorted
  exact (List.pairwise_append.mp sorted).2.2 x early y late

/-- Nothing emitted comes after what is left. -/
theorem emitted_precedes {le : Item → Item → Prop} (up : Upstreams S streams points)
    (ordered : OrderedBy S streams le) (tracks : Tracks S streams points c taken)
    (merged : S.merge n c = some m) {token : String} {x x₀ : Item} {id₀ : String}
    (emitted : tag S id₀ x₀ ∈ m.items) (known₀ : id₀ ∈ S.searcher.origins)
    (member₀ : x₀ ∈ streams id₀)
    (left : Left S streams (chainCursor m.cursor token) (advance S streams c taken) id x) :
    le x₀ x := by
  rcases left_after_cases up tracks merged left with stashed | ⟨behind, _, before⟩
  · rw [items_eq merged] at emitted
    have := pageLE_iff.mp (rel_of_mem_take_drop wholePage_sorted emitted stashed)
    rw [pageRank_tag, pageRank_tag] at this
    exact ordered.refined id₀ known₀ id left.1 x₀ member₀ x left.2.1 this
  · obtain ⟨w, early, rank⟩ := before _ emitted
    rw [pageRank_tag] at rank
    exact ordered.trans x₀ w x
      (ordered.refined id₀ known₀ id left.1 x₀ member₀ w (List.mem_of_mem_take early) rank)
      (rel_of_mem_take_drop (ordered.sorted id left.1) early behind)

/-- After a page, an origin that is not exhausted has unfetched items. -/
theorem unfetched_of_open (up : Upstreams S streams points)
    (tracks : Tracks S streams points c taken) (merged : S.merge n c = some m)
    {oc' : OriginCursor} (after : m.cursor.origins[id]? = some oc') (opened : oc'.exhausted = false) :
    advance S streams c taken id < (streams id).length := by
  have domain := (tracks_after up tracks merged "").domain id
  have known : id ∈ S.searcher.origins := domain.mp (by rw [origins_chainCursor, after]; rfl)
  obtain ⟨oc, present⟩ := Option.isSome_iff_exists.mp ((tracks.domain id).mpr known)
  obtain ⟨_, atStart | inside⟩ := (tracked_after up tracks merged present after).position opened
  · -- An empty stream would have been fetched and found to end.
    by_contra beyond
    have empty : (streams id).length = 0 := by omega
    by_cases selected : id ∈ toFetch c S.limit
    · obtain ⟨_, pointer, exhausted⟩ := pointer_after_fetch up tracks merged present selected after
      obtain ⟨_, oc₀, present₀, _, placed⟩ := fetched_at tracks selected
      have ends := (up.serves id known).ends n _ c oc₀ present₀ placed (by omega)
      exact absurd (exhausted.mpr (pointer.trans ends)) (by simp [opened])
    · obtain ⟨_, exhausted, _⟩ := pointer_after_skip up tracks merged present selected after
      have entry := tracks.entry id oc present
      have bare : oc.stash = [] := by
        rw [List.eq_nil_iff_forall_not_mem]
        intro y stashed
        obtain ⟨x, early, _⟩ := entry.stashed y stashed
        rw [List.length_eq_zero_iff.mp empty] at early
        simp at early
      have positive := limit_pos S
      exact selected (mem_toFetch.mpr ⟨oc, present, exhausted ▸ opened,
        by simp [OriginCursor.retired, entry.errorFree], by simp [bare, positive]⟩)
  · exact inside

theorem hasMore_of_tracked {stream : List Item} {points : Nat → Pointer → Prop} {k : Nat}
    (entry : Tracked S id stream points k oc) (source : oc.stash ≠ [] ∨ k < stream.length) :
    oc.hasMore := by
  rcases source with stashed | behind
  · simp [OriginCursor.hasMore, stashed]
  · have opened : oc.exhausted = false := by
      by_contra finished
      have := entry.done (by simpa using finished)
      omega
    simp [OriginCursor.hasMore, opened, OriginCursor.retired, entry.errorFree]

theorem source_of_left (left : Left S streams c taken id x) (present : c.origins[id]? = some oc) :
    oc.stash ≠ [] ∨ taken id < (streams id).length := by
  obtain ⟨_, _, ⟨oc₁, present₁, stashed⟩ | behind⟩ := left
  · obtain rfl := Option.some.inj (present.symm.trans present₁)
    exact .inl (List.ne_nil_of_mem stashed)
  · refine .inr ?_
    by_contra beyond
    rw [List.drop_eq_nil_of_le (not_lt.mp beyond)] at behind
    cases behind

/-- The merged cursor has more exactly when something is left. -/
theorem hasMore_iff_left (up : Upstreams S streams points)
    (tracks : Tracks S streams points c taken) (merged : S.merge n c = some m) (token : String) :
    m.cursor.hasMore ↔ ∃ id x,
      Left S streams (chainCursor m.cursor token) (advance S streams c taken) id x := by
  have tracks' := tracks_after up tracks merged token
  rw [hasMore_iff]
  constructor
  · rintro ⟨id, oc', after, more⟩
    have chained : (chainCursor m.cursor token).origins[id]? = some oc'.clone := by
      rw [origins_chainCursor, after]
      rfl
    have known := member_of_present tracks' chained
    rcases hs : oc'.stash with _ | ⟨y, rest⟩
    · have opened : oc'.exhausted = false := by
        simp only [OriginCursor.hasMore, hs] at more
        simp_all
      have behind := unfetched_of_open up tracks merged after opened
      have later : (streams id)[advance S streams c taken id] ∈
          (streams id).drop (advance S streams c taken id) := by
        rw [List.drop_eq_getElem_cons behind]
        exact List.mem_cons_self
      exact ⟨id, _, known, List.mem_of_mem_drop later, .inr later⟩
    · obtain ⟨x, early, rfl⟩ := (tracks'.entry id _ chained).stashed y (by
        simp [OriginCursor.clone, hs])
      exact ⟨id, x, known, List.mem_of_mem_take early,
        .inl ⟨_, chained, by simp [OriginCursor.clone, hs]⟩⟩
  · rintro ⟨id, x, left⟩
    obtain ⟨oc'', chained⟩ := Option.isSome_iff_exists.mp ((tracks'.domain id).mpr left.1)
    have source := source_of_left left chained
    rw [origins_chainCursor] at chained
    obtain ⟨oc', after, rfl⟩ := Option.map_eq_some_iff.mp chained
    obtain ⟨oc, present⟩ := Option.isSome_iff_exists.mp ((tracks.domain id).mpr left.1)
    exact ⟨id, oc', after, hasMore_of_tracked (tracked_after up tracks merged present after) source⟩

/-- Nothing is left to a cursor without active origins. -/
theorem not_left_of_idle (tracks : Tracks S streams points c taken) (idle : c.activeOrigins = [])
    (x : Item) : ¬ Left S streams c taken id x := by
  intro left
  obtain ⟨oc, present⟩ := Option.isSome_iff_exists.mp ((tracks.domain id).mpr left.1)
  have more := hasMore_of_tracked (tracks.entry id oc present) (source_of_left left present)
  have := mem_activeOrigins.mpr ⟨oc, present, more⟩
  simp [idle] at this

end OnePage

section WholeSession
variable {S : Session} {streams : String → List Item} {points : String → Nat → Pointer → Prop}
  {c : Cursor} {n : Nat} {id : String} {m : Merged} {token : String} {x : Item}

/-- The positions before page `n`. -/
def takenAt (S : Session) (streams : String → List Item) : Nat → String → Nat
  | 0 => fun _ => 0
  | n + 1 => match S.cursorAt n with
    | none => takenAt S streams n
    | some (c, _) => advance S streams c (takenAt S streams n)

theorem takenAt_succ (before : S.cursorAt n = some (c, token)) :
    takenAt S streams (n + 1) = advance S streams c (takenAt S streams n) := by
  rw [takenAt, before]

theorem tracks_at (up : Upstreams S streams points) (before : S.cursorAt n = some (c, token)) :
    Tracks S streams points c (takenAt S streams n) := by
  induction n generalizing c token with
  | zero =>
    obtain ⟨rfl, _⟩ := Prod.mk.inj (Option.some.inj before)
    exact tracks_start up
  | succ n ih =>
    obtain ⟨c₀, token₀, m, before₀, _, merged, _, rfl, _⟩ := cursorAt_succ_iff.mp before
    rw [takenAt_succ before₀]
    exact tracks_after up (ih before₀) merged token₀

/-- A client that is about to present the token of page `n`. -/
def Presents (S : Session) (at_ : Nat × String) : Prop :=
  ∃ c, S.cursorAt at_.1 = some (c, at_.2)

def LeftAt (S : Session) (streams : String → List Item) (at_ : Nat × String) (id : String)
    (x : Item) : Prop :=
  ∃ c, S.cursorAt at_.1 = some (c, at_.2) ∧ Left S streams c (takenAt S streams at_.1) id x

theorem leftAt_iff (before : S.cursorAt n = some (c, token)) :
    LeftAt S streams (n, token) id x ↔ Left S streams c (takenAt S streams n) id x := by
  constructor
  · rintro ⟨c', before', left⟩
    obtain ⟨rfl, _⟩ := Prod.mk.inj (Option.some.inj (before.symm.trans before'))
    exact left
  · intro left
    exact ⟨c, before, left⟩

/-- All that one call of a session can do. -/
inductive Served (S : Session) (streams : String → List Item) (n : Nat) (token : String)
    (c : Cursor) (result : SearchResult) : Option (Nat × String) → Prop
  /-- No origin is active: an empty last page. -/
  | idle (idle : c.activeOrigins = []) (bare : result.items = []) :
      Served S streams n token c result none
  | last (m : Merged) (merged : S.merge n c = some m)
      (items : result.items = m.items)
      (spent : ∀ id x, ¬ Left S streams (chainCursor m.cursor token)
        (advance S streams c (takenAt S streams n)) id x) :
      Served S streams n token c result none
  | more (m : Merged) (token' : String) (merged : S.merge n c = some m)
      (items : result.items = m.items)
      (after : S.cursorAt (n + 1) = some (chainCursor m.cursor token, token'))
      (unspent : ∃ id x, Left S streams (chainCursor m.cursor token)
        (advance S streams c (takenAt S streams n)) id x) :
      Served S streams n token c result (some (n + 1, token'))

theorem exists_served (up : Upstreams S streams points) (coherent : S.Coherent)
    (encodable : S.Encodable) (before : S.cursorAt n = some (c, token)) :
    ∃ result next, S.step (n, token) = some (result, next) ∧
      Served S streams n token c result next := by
  have tracks := tracks_at up before
  by_cases idle : c.activeOrigins = []
  · obtain ⟨result, bare, _, answer⟩ := step_idle coherent before idle
    exact ⟨result, none, answer, .idle idle bare⟩
  · obtain ⟨m, merged⟩ := merge_returns up tracks n
    obtain ⟨result, items, answer⟩ := step_active coherent before idle merged
    have more := hasMore_iff_left up tracks merged token
    by_cases rest : m.cursor.hasMore
    · obtain ⟨token', encoded⟩ := encodable n c token m before merged rest
      have after := cursorAt_succ_iff.mpr
        ⟨c, token, m, before, idle, merged, rest, rfl, encoded⟩
      rw [after] at answer
      exact ⟨result, _, answer, .more m token' merged items after (more.mp rest)⟩
    · have after : S.cursorAt (n + 1) = none := by
        rw [Option.eq_none_iff_forall_ne_some]
        rintro ⟨c', token'⟩ after
        obtain ⟨c₁, token₁, m₁, before₁, _, merged₁, rest₁, _⟩ := cursorAt_succ_iff.mp after
        obtain ⟨rfl, _⟩ := Prod.mk.inj (Option.some.inj (before.symm.trans before₁))
        obtain rfl := Option.some.inj (merged.symm.trans merged₁)
        exact rest rest₁
      rw [after] at answer
      exact ⟨result, none, answer, .last m merged items
        fun id x left => rest (more.mpr ⟨id, x, left⟩)⟩

theorem served_of_step (up : Upstreams S streams points) (coherent : S.Coherent)
    (encodable : S.Encodable) (before : S.cursorAt n = some (c, token)) {result : SearchResult}
    {next : Option (Nat × String)} (answer : S.step (n, token) = some (result, next)) :
    Served S streams n token c result next := by
  obtain ⟨result', next', answer', served⟩ := exists_served up coherent encodable before
  obtain ⟨rfl, rfl⟩ := Prod.mk.inj (Option.some.inj (answer.symm.trans answer'))
  exact served

theorem presents_next (up : Upstreams S streams points) (coherent : S.Coherent)
    (encodable : S.Encodable) (at_ : Nat × String) (result : SearchResult) (at' : Nat × String)
    (presents : Presents S at_) (answer : S.step at_ = some (result, some at')) :
    Presents S at' := by
  obtain ⟨c, before⟩ := presents
  cases served_of_step up coherent encodable before answer with
  | more m token' merged items after _ => exact ⟨_, after⟩

/-- Every item of a page was left before it. -/
theorem items_left (up : Upstreams S streams points) (coherent : S.Coherent)
    (encodable : S.Encodable) (before : S.cursorAt n = some (c, token)) {result : SearchResult}
    {next : Option (Nat × String)} (answer : S.step (n, token) = some (result, next)) :
    ∀ e ∈ result.items, ∃ id x, Left S streams c (takenAt S streams n) id x ∧ e = tag S id x := by
  have onPage : ∀ m, S.merge n c = some m → ∀ e ∈ m.items,
      ∃ id x, Left S streams c (takenAt S streams n) id x ∧ e = tag S id x := by
    intro m merged e emitted
    rw [items_eq merged] at emitted
    exact mem_wholePage_left up (tracks_at up before) (List.mem_of_mem_take emitted)
  cases served_of_step up coherent encodable before answer with
  | idle _ bare => simp [bare]
  | last m merged items _ | more m _ merged items _ _ => exact items ▸ onPage m merged

/-- What a page emits is not left after it. -/
theorem not_left_of_emitted {taken : String → Nat} (up : Upstreams S streams points)
    (tracks : Tracks S streams points c taken) (merged : S.merge n c = some m)
    (emitted : tag S id x ∈ m.items) :
    ¬ Left S streams (chainCursor m.cursor token) (advance S streams c taken) id x := by
  intro left
  rw [items_eq merged] at emitted
  rcases left_after_cases up tracks merged left with stashed | ⟨behind, _⟩
  · have distinct := mergedPage_nodup S.searcher.origins (fetched S n c) c
    exact List.disjoint_take_drop distinct le_rfl emitted stashed
  · obtain ⟨id', active, x', early, same⟩ :=
      mem_wholePage_source up tracks (List.mem_of_mem_take emitted)
    have member' := List.mem_of_mem_take early
    have ids := congrArg itemOriginID same
    rw [itemOriginID_tag up left.1 left.2.1,
      itemOriginID_tag up (member_of_active tracks active) member'] at ids
    subst ids
    have items : x = x' := eq_of_identity up left.1 left.2.1 member' (by
      simpa using congrArg Item.identity same)
    subst items
    have distinct : (streams id).Nodup := (up.distinct id left.1).of_map _
    exact List.disjoint_take_drop distinct le_rfl early behind

open Classical in
/-- What a client has yet to be shown or spared, by origin and identity. -/
noncomputable def pairsLeft (S : Session) (streams : String → List Item) (at_ : Nat × String) :
    Finset (String × String × String) :=
  (S.searcher.origins.keys.toFinset.biUnion fun id =>
    ((streams id).map fun x => (id, x.identity)).toFinset).filter fun p =>
      ∃ x, LeftAt S streams at_ p.1 x ∧ x.identity = p.2

theorem mem_pairsLeft (before : S.cursorAt n = some (c, token)) {ident : String × String} :
    (id, ident) ∈ pairsLeft S streams (n, token) ↔
      ∃ x, Left S streams c (takenAt S streams n) id x ∧ x.identity = ident := by
  simp only [pairsLeft, Finset.mem_filter, leftAt_iff before, and_iff_right_iff_imp]
  rintro ⟨x, left, rfl⟩
  simp only [Finset.mem_biUnion, List.mem_toFinset, List.mem_map]
  exact ⟨id, by simpa using left.1, x, left.2.1, rfl⟩

/-- Every page that is not the last leaves less. -/
theorem pairsLeft_ssubset (up : Upstreams S streams points) {token' : String}
    (before : S.cursorAt n = some (c, token)) (merged : S.merge n c = some m)
    (after : S.cursorAt (n + 1) = some (chainCursor m.cursor token, token'))
    (unspent : ∃ id x, Left S streams (chainCursor m.cursor token)
      (advance S streams c (takenAt S streams n)) id x) :
    pairsLeft S streams (n + 1, token') ⊂ pairsLeft S streams (n, token) := by
  have tracks := tracks_at up before
  rw [Finset.ssubset_iff_of_subset]
  · obtain ⟨id, x, left⟩ := unspent
    have full := length_items_of_left up tracks merged left
    have positive := limit_pos S
    obtain ⟨e, emitted⟩ := List.exists_mem_of_length_pos (full ▸ positive)
    have onPage := items_eq merged ▸ emitted
    obtain ⟨id₀, x₀, left₀, rfl⟩ :=
      mem_wholePage_left up tracks (List.mem_of_mem_take onPage)
    refine ⟨(id₀, x₀.identity), (mem_pairsLeft before).mpr ⟨x₀, left₀, rfl⟩, fun again => ?_⟩
    obtain ⟨x₁, left₁, same⟩ := (mem_pairsLeft after).mp again
    rw [takenAt_succ before] at left₁
    obtain rfl := eq_of_identity up left₁.1 left₁.2.1 left₀.2.1 same
    exact not_left_of_emitted up tracks merged emitted left₁
  · rintro ⟨id, ident⟩ member
    obtain ⟨x, left, same⟩ := (mem_pairsLeft after).mp member
    rw [takenAt_succ before] at left
    exact (mem_pairsLeft before).mpr ⟨x, left_before up tracks merged left, same⟩

/-- Whatever the order of the streams, a session over them ends. -/
theorem session_ends (up : Upstreams S streams points) (coherent : S.Coherent)
    (encodable : S.Encodable) : ∃ pages, Walk S.step (0, "") pages := by
  refine OrderedPaging.exists_walk (Presents S) (fun at_ => (pairsLeft S streams at_).card) ?_
    (0, "") ⟨S.startCursor, rfl⟩
  rintro ⟨n, token⟩ ⟨c, before⟩
  obtain ⟨result, next, answer, served⟩ := exists_served up coherent encodable before
  refine ⟨result, next, answer, ?_⟩
  rintro ⟨n', token'⟩ rfl
  cases served with
  | more m token' merged items after unspent =>
    exact ⟨⟨_, after⟩, Finset.card_lt_card (pairsLeft_ssubset up before merged after unspent)⟩

end WholeSession

/-- Streams in the order of the pages, in which rank determines identity. -/
structure SortedStreams (S : Session) (streams : String → List Item)
    (points : String → Nat → Pointer → Prop) : Prop extends Upstreams S streams points where
  sorted : ∀ id ∈ S.searcher.origins, (streams id).Pairwise pageLE
  apart : ∀ id ∈ S.searcher.origins, ∀ id' ∈ S.searcher.origins, ∀ x ∈ streams id,
    ∀ y ∈ streams id', pageRank x = pageRank y → x.identity = y.identity

section OnePageRanks
variable {S : Session} {streams : String → List Item} {points : String → Nat → Pointer → Prop}
  {c : Cursor} {taken : String → Nat} {n : Nat} {id : String} {m : Merged} {token : String}
  {x e : Item}

theorem eq_of_pageRank (up : SortedStreams S streams points)
    (tracks : Tracks S streams points c taken) {y z : Item} (hy : y ∈ wholePage S n c)
    (hz : z ∈ wholePage S n c) (same : pageRank y = pageRank z) : y = z := by
  refine wholePage_unique hy hz ?_
  obtain ⟨id₁, x₁, left₁, rfl⟩ := mem_wholePage_left up.toUpstreams tracks hy
  obtain ⟨id₂, x₂, left₂, rfl⟩ := mem_wholePage_left up.toUpstreams tracks hz
  rw [pageRank_tag, pageRank_tag] at same
  rw [identity_tag, identity_tag]
  exact up.apart id₁ left₁.1 id₂ left₂.1 x₁ left₁.2.1 x₂ left₂.2.1 same

theorem wholePage_ranks_sorted (up : SortedStreams S streams points)
    (tracks : Tracks S streams points c taken) :
    (wholePage S n c).Pairwise fun y z => pageRank y < pageRank z := by
  have both := wholePage_sorted.and (mergedPage_nodup S.searcher.origins (fetched S n c) c)
  refine both.imp_of_mem ?_
  rintro y z hy hz ⟨ordered, differ⟩
  exact lt_of_le_of_ne (pageLE_iff.mp ordered) fun same =>
    differ (eq_of_pageRank up tracks hy hz same)

theorem pageRank_lt_of_left (up : SortedStreams S streams points)
    (tracks : Tracks S streams points c taken) (merged : S.merge n c = some m)
    (emitted : e ∈ m.items)
    (left : Left S streams (chainCursor m.cursor token) (advance S streams c taken) id x) :
    pageRank e < pageRank x := by
  rcases left_after_cases up.toUpstreams tracks merged left with stashed | ⟨behind, _, before⟩
  · rw [items_eq merged] at emitted
    have := rel_of_mem_take_drop (wholePage_ranks_sorted up tracks) emitted stashed
    rwa [pageRank_tag] at this
  · obtain ⟨w, early, rank⟩ := before e emitted
    have later := pageLE_iff.mp (rel_of_mem_take_drop (up.sorted id left.1) early behind)
    refine lt_of_le_of_lt rank (lt_of_le_of_ne later fun same => ?_)
    have distinct : (streams id).Nodup := (up.distinct id left.1).of_map _
    obtain rfl := eq_of_identity up.toUpstreams left.1 (List.mem_of_mem_take early) left.2.1
      (up.apart id left.1 id left.1 w (List.mem_of_mem_take early) x left.2.1 same)
    exact List.disjoint_take_drop distinct le_rfl early behind

/-- The ranks left before a page are those it emits and those left after it. -/
theorem ranks_split (up : SortedStreams S streams points)
    (tracks : Tracks S streams points c taken) (merged : S.merge n c = some m) (token : String)
    (r : Stringᵒᵈ ×ₗ String) :
    (∃ id x, Left S streams c taken id x ∧ pageRank x = r) ↔ r ∈ m.items.map pageRank ∨
      ∃ id x, Left S streams (chainCursor m.cursor token) (advance S streams c taken) id x ∧
        pageRank x = r := by
  have sources : ∀ y ∈ m.items, ∃ id x, Left S streams c taken id x ∧ y = tag S id x := by
    intro y emitted
    rw [items_eq merged] at emitted
    exact mem_wholePage_left up.toUpstreams tracks (List.mem_of_mem_take emitted)
  constructor
  · rintro ⟨id, x, left, rfl⟩
    rcases left_covered up.toUpstreams tracks merged token left with
      ⟨y, emitted, same⟩ | ⟨id', x', left', same⟩
    · obtain ⟨id', x', left', rfl⟩ := sources y emitted
      rw [identity_tag] at same
      refine .inl (List.mem_map.mpr ⟨_, emitted, ?_⟩)
      rw [pageRank_tag]
      exact pageRank_eq_of_identity up.toUpstreams left'.1 left.1 left'.2.1 left.2.1 same
    · exact .inr ⟨id', x', left',
        pageRank_eq_of_identity up.toUpstreams left'.1 left.1 left'.2.1 left.2.1 same⟩
  · rintro (emitted | ⟨id, x, left, rfl⟩)
    · obtain ⟨y, hy, rfl⟩ := List.mem_map.mp emitted
      obtain ⟨id, x, left, rfl⟩ := sources y hy
      exact ⟨id, x, left, by simp⟩
    · exact ⟨id, x, left_before up.toUpstreams tracks merged left, rfl⟩

end OnePageRanks

section Listing
variable {S : Session} {streams : String → List Item} {points : String → Nat → Pointer → Prop}
  {c : Cursor} {n : Nat} {token : String}

def allRanks (S : Session) (streams : String → List Item) : Finset (Stringᵒᵈ ×ₗ String) :=
  S.searcher.origins.keys.toFinset.biUnion fun id => ((streams id).map pageRank).toFinset

theorem mem_allRanks {r : Stringᵒᵈ ×ₗ String} : r ∈ allRanks S streams ↔
    ∃ id ∈ S.searcher.origins, ∃ x ∈ streams id, pageRank x = r := by
  simp [allRanks]

open Classical in
/-- The ranks a client has yet to see. -/
noncomputable def ranksLeft (S : Session) (streams : String → List Item) (at_ : Nat × String) :
    Finset (Stringᵒᵈ ×ₗ String) :=
  (allRanks S streams).filter fun r => ∃ id x, LeftAt S streams at_ id x ∧ pageRank x = r

theorem mem_ranksLeft (before : S.cursorAt n = some (c, token)) {r : Stringᵒᵈ ×ₗ String} :
    r ∈ ranksLeft S streams (n, token) ↔
      ∃ id x, Left S streams c (takenAt S streams n) id x ∧ pageRank x = r := by
  simp only [ranksLeft, Finset.mem_filter, leftAt_iff before, and_iff_right_iff_imp]
  rintro ⟨id, x, left, rfl⟩
  exact mem_allRanks.mpr ⟨id, left.1, x, left.2.1, rfl⟩

theorem ranksLeft_start (S : Session) (streams : String → List Item) :
    ranksLeft S streams (0, "") = allRanks S streams := by
  have before : S.cursorAt 0 = some (S.startCursor, "") := rfl
  ext r
  rw [mem_ranksLeft before, mem_allRanks]
  constructor
  · rintro ⟨id, x, left, rfl⟩
    exact ⟨id, left.1, x, left.2.1, rfl⟩
  · rintro ⟨id, known, x, member, rfl⟩
    exact ⟨id, x, ⟨known, member, .inr member⟩, rfl⟩

/-- A merged page is the next page of the ranks left before it. -/
theorem ranks_eq_pageOf (up : SortedStreams S streams points)
    (before : S.cursorAt n = some (c, token)) {m : Merged} (merged : S.merge n c = some m) :
    m.items.map pageRank = pageOf S.limit (ranksLeft S streams (n, token)) := by
  have tracks := tracks_at up.toUpstreams before
  have split := ranks_split up tracks merged token
  have left_after : ∀ r ∈ ranksLeft S streams (n, token), r ∉ m.items.map pageRank →
      ∃ id x, Left S streams (chainCursor m.cursor token)
        (advance S streams c (takenAt S streams n)) id x ∧ pageRank x = r :=
    fun r left unlisted =>
      ((split r).mp ((mem_ranksLeft before).mp left)).resolve_left unlisted
  refine eq_pageOf ?_ ?_ ?_ ?_ ?_
  · rw [items_eq merged, List.pairwise_map]
    exact (wholePage_ranks_sorted up tracks).sublist (List.take_sublist _ _)
  · intro r listed
    exact (mem_ranksLeft before).mpr ((split r).mpr (.inl listed))
  · intro r listed r' left unlisted
    obtain ⟨e, emitted, rfl⟩ := List.mem_map.mp listed
    obtain ⟨id, x, later, rfl⟩ := left_after r' left unlisted
    exact pageRank_lt_of_left up tracks merged emitted later
  · rw [List.length_map, items_eq merged]
    exact List.length_take_le _ _
  · intro r left unlisted
    obtain ⟨id, x, later, _⟩ := left_after r left unlisted
    rw [List.length_map, length_items_of_left up.toUpstreams tracks merged later]

theorem mem_restOf (up : SortedStreams S streams points)
    (before : S.cursorAt n = some (c, token)) {m : Merged} (merged : S.merge n c = some m)
    {r : Stringᵒᵈ ×ₗ String} : r ∈ restOf S.limit (ranksLeft S streams (n, token)) ↔
      ∃ id x, Left S streams (chainCursor m.cursor token)
        (advance S streams c (takenAt S streams n)) id x ∧ pageRank x = r := by
  have tracks := tracks_at up.toUpstreams before
  rw [restOf, Finset.mem_sdiff, List.mem_toFinset, ← ranks_eq_pageOf up before merged,
    mem_ranksLeft before, ranks_split up tracks merged token]
  constructor
  · rintro ⟨listed | left, unlisted⟩
    · exact absurd listed unlisted
    · exact left
  · rintro ⟨id, x, left, rfl⟩
    refine ⟨.inr ⟨id, x, left, rfl⟩, fun listed => ?_⟩
    obtain ⟨e, emitted, same⟩ := List.mem_map.mp listed
    exact absurd same (pageRank_lt_of_left up tracks merged emitted left).ne

/-- A session over sorted streams pages through the sorted set of their ranks. -/
theorem step_refines (up : SortedStreams S streams points) (coherent : S.Coherent)
    (encodable : S.Encodable) : Refines S.step (Presents S) S.limit
      (fun result => result.items.map pageRank) (ranksLeft S streams) where
  answers := by
    rintro ⟨n, token⟩ ⟨c, before⟩
    obtain ⟨result, next, answer, _⟩ := exists_served up.toUpstreams coherent encodable before
    exact ⟨result, next, answer⟩
  content_eq := by
    rintro ⟨n, token⟩ result next ⟨c, before⟩ answer
    cases served_of_step up.toUpstreams coherent encodable before answer with
    | idle idle bare =>
      have nothing : ranksLeft S streams (n, token) = ∅ := by
        rw [Finset.eq_empty_iff_forall_notMem]
        intro r left
        obtain ⟨id, x, left, _⟩ := (mem_ranksLeft before).mp left
        exact not_left_of_idle (tracks_at up.toUpstreams before) idle x left
      simp [bare, nothing, pageOf]
    | last m merged items _ | more m token' merged items _ _ =>
      rw [items, ranks_eq_pageOf up before merged]
  last := by
    rintro ⟨n, token⟩ result ⟨c, before⟩ answer
    rw [Finset.eq_empty_iff_forall_notMem]
    intro r left
    cases served_of_step up.toUpstreams coherent encodable before answer with
    | idle idle bare =>
      rw [restOf, Finset.mem_sdiff, mem_ranksLeft before] at left
      obtain ⟨⟨id, x, left, _⟩, _⟩ := left
      exact not_left_of_idle (tracks_at up.toUpstreams before) idle x left
    | last m merged items spent =>
      obtain ⟨id, x, left, _⟩ := (mem_restOf up before merged).mp left
      exact spent id x left
  next := by
    rintro ⟨n, token⟩ result ⟨n', token'⟩ ⟨c, before⟩ answer
    cases served_of_step up.toUpstreams coherent encodable before answer with
    | more m token' merged items after unspent =>
      have same : ranksLeft S streams (n + 1, token') =
          restOf S.limit (ranksLeft S streams (n, token)) := by
        ext r
        rw [mem_ranksLeft after, mem_restOf up before merged, takenAt_succ before]
      obtain ⟨id, x, left⟩ := unspent
      refine ⟨⟨_, after⟩, same, pageRank x, ?_⟩
      rw [mem_ranksLeft after, takenAt_succ before]
      exact ⟨id, x, left, rfl⟩

/-- The pages list the distinct items of all streams once each, in page order; all pages but
the last are full, and a page links on exactly when some item has not been listed yet. -/
structure Delivers (S : Session) (streams : String → List Item) (pages : List SearchResult) :
    Prop where
  ordered : (pages.flatMap (·.items)).Pairwise fun a b => pageLess a b
  once : ((pages.flatMap (·.items)).map Item.identity).Nodup
  sourced : ∀ e ∈ pages.flatMap (·.items), ∃ id ∈ S.searcher.origins, ∃ x ∈ streams id,
    e = tag S id x
  complete : ∀ id ∈ S.searcher.origins, ∀ x ∈ streams id,
    x.identity ∈ (pages.flatMap (·.items)).map Item.identity
  full : ∀ page ∈ pages.dropLast, page.items.length = S.limit
  linked : ∀ i (hi : i < pages.length), pages[i].nextCursor ≠ "" ↔
    ∃ id ∈ S.searcher.origins, ∃ x ∈ streams id,
      x.identity ∉ ((pages.take (i + 1)).flatMap (·.items)).map Item.identity

theorem items_sourced (up : Upstreams S streams points) (coherent : S.Coherent)
    (encodable : S.Encodable) {at_ : Nat × String} {pages : List SearchResult}
    (walk : Walk S.step at_ pages) (start : Presents S at_) :
    ∀ e ∈ pages.flatMap (·.items), ∃ id ∈ S.searcher.origins, ∃ x ∈ streams id,
      e = tag S id x := by
  have onPages : ∀ page ∈ pages, ∀ e ∈ page.items, ∃ id ∈ S.searcher.origins, ∃ x ∈ streams id,
      e = tag S id x := by
    refine walk.forall_mem (Presents S) (presents_next up coherent encodable) ?_ start
    rintro ⟨n, token⟩ page next ⟨c, before⟩ answer e emitted
    obtain ⟨id, x, left, same⟩ := items_left up coherent encodable before answer e emitted
    exact ⟨id, left.1, x, left.2.1, same⟩
  intro e listed
  obtain ⟨page, member, emitted⟩ := List.mem_flatMap.mp listed
  exact onPages page member e emitted

/-- A page links on exactly when there is a next step. -/
theorem step_links {at_ : Nat × String} {result : SearchResult} {next : Option (Nat × String)}
    (answer : S.step at_ = some (result, next)) : result.nextCursor ≠ "" ↔ next.isSome := by
  rw [Session.step] at answer
  split at answer
  · cases answer
  · obtain ⟨rfl, rfl⟩ := Prod.mk.inj (Option.some.inj answer)
    split <;> simp_all

/-- Over the items of the streams, equal rank and equal identity are the same. -/
theorem pageRank_eq_iff (up : SortedStreams S streams points) {id id' : String} {x x' : Item}
    (known : id ∈ S.searcher.origins) (known' : id' ∈ S.searcher.origins)
    (member : x ∈ streams id) (member' : x' ∈ streams id') :
    pageRank x = pageRank x' ↔ x.identity = x'.identity :=
  ⟨up.apart id known id' known' x member x' member',
    pageRank_eq_of_identity up.toUpstreams known known' member member'⟩

/-- On pages of stream items, the rank of an item is listed exactly if its identity is. -/
theorem pageRank_listed_iff (up : SortedStreams S streams points) {pages : List SearchResult}
    (sourced : ∀ e ∈ pages.flatMap (·.items), ∃ id ∈ S.searcher.origins, ∃ x ∈ streams id,
      e = tag S id x) {id : String} {x : Item} (known : id ∈ S.searcher.origins)
    (member : x ∈ streams id) :
    pageRank x ∈ pages.flatMap (fun page => page.items.map pageRank) ↔
      x.identity ∈ (pages.flatMap (·.items)).map Item.identity := by
  rw [← List.map_flatMap, List.mem_map, List.mem_map]
  refine exists_congr fun e => and_congr_right fun listed => ?_
  obtain ⟨id', known', x', member', rfl⟩ := sourced e listed
  rw [pageRank_tag, identity_tag, pageRank_eq_iff up known' known member' member]

/-- Following the next cursors from page 0 ends and delivers the union of the streams. -/
theorem session_delivers (up : SortedStreams S streams points) (coherent : S.Coherent)
    (encodable : S.Encodable) :
    ∃ pages, Walk S.step (0, "") pages ∧ Delivers S streams pages := by
  have refines := step_refines up coherent encodable
  have start : Presents S (0, "") := ⟨S.startCursor, rfl⟩
  obtain ⟨pages, walk⟩ := refines.exists_walk (limit_pos S) start
  have sourced := items_sourced up.toUpstreams coherent encodable walk start
  have listing : (pages.flatMap (·.items)).map pageRank = (allRanks S streams).sort (· ≤ ·) := by
    rw [← ranksLeft_start, ← refines.flatMap_content walk start, List.map_flatMap]
  have ordered : (pages.flatMap (·.items)).Pairwise fun a b => pageRank a < pageRank b := by
    have := sort_pairwise (allRanks S streams)
    rwa [← listing, List.pairwise_map] at this
  refine ⟨pages, walk, ?_, ?_, sourced, ?_, ?_, ?_⟩
  · exact ordered.imp pageLess_iff.mpr
  · rw [List.Nodup, List.pairwise_map]
    refine ordered.imp_of_mem fun {e e'} he he' before same => ?_
    obtain ⟨id, known, x, member, rfl⟩ := sourced e he
    obtain ⟨id', known', x', member', rfl⟩ := sourced e' he'
    rw [identity_tag, identity_tag] at same
    rw [pageRank_tag, pageRank_tag,
      (pageRank_eq_iff up known known' member member').mpr same] at before
    exact lt_irrefl _ before
  · intro id known x member
    rw [← pageRank_listed_iff up sourced known member, ← List.map_flatMap, listing,
      Finset.mem_sort, mem_allRanks]
    exact ⟨id, known, x, member, rfl⟩
  · intro page member
    have := refines.length_content walk start page member
    rwa [List.length_map] at this
  · intro i hi
    have front : ∀ e ∈ (pages.take (i + 1)).flatMap (·.items), ∃ id ∈ S.searcher.origins,
        ∃ x ∈ streams id, e = tag S id x := fun e listed =>
      sourced e (((List.take_sublist (i + 1) pages).flatMap _).subset listed)
    rw [refines.offers_iff (fun _ _ _ => step_links) walk start i hi, ranksLeft_start]
    constructor
    · rintro ⟨r, member, unlisted⟩
      obtain ⟨id, known, x, inStream, rfl⟩ := mem_allRanks.mp member
      rw [pageRank_listed_iff up front known inStream] at unlisted
      exact ⟨id, known, x, inStream, unlisted⟩
    · rintro ⟨id, known, x, inStream, unlisted⟩
      rw [← pageRank_listed_iff up front known inStream] at unlisted
      exact ⟨pageRank x, mem_allRanks.mpr ⟨id, known, x, inStream, rfl⟩, unlisted⟩

end Listing

section SharedItem
open OffsetStreams

def scene (id datetime : String) : Item :=
  { id := id, collection := "scenes", properties := [("datetime", .str datetime)] }

/-- Two origins that both hold the newer of two scenes. -/
def sharedStreams (id : String) : List Item :=
  if id = "a" then [scene "s2" "2024-05-02T00:00:00Z", scene "s1" "2024-05-01T00:00:00Z"]
  else [scene "s2" "2024-05-02T00:00:00Z"]

def sharedSession : Session :=
  offsetSession
    (Std.ExtTreeMap.ofList [("a", "https://api.example.com"), ("b", "https://stac.example.com")])
    sharedStreams 1 Nat.one_pos default

theorem mem_sharedOrigins {id : String} : id ∈ sharedSession.searcher.origins ↔ id ∈ ["a", "b"] := by
  simp [sharedSession, offsetSession, RecordedSession.recorded]

theorem sharedStreams_sorted : SortedStreams sharedSession sharedStreams fun _ => offsetPoints where
  named := by
    simp only [mem_sharedOrigins]
    decide
  serves := fun id _ => offset_serves rfl id
  distinct := by
    simp only [mem_sharedOrigins]
    decide
  colonFree := by
    simp only [mem_sharedOrigins]
    decide
  unlinked := by
    simp only [mem_sharedOrigins]
    decide
  copies := by
    simp only [mem_sharedOrigins]
    decide
  sorted := by
    simp only [mem_sharedOrigins]
    decide
  apart := by
    simp only [mem_sharedOrigins]
    decide

theorem sharedSession_delivers : ∃ pages, Walk sharedSession.step (0, "") pages ∧
    Delivers sharedSession sharedStreams pages :=
  session_delivers sharedStreams_sorted offset_coherent offset_encodable

end SharedItem

end StreamPaging
