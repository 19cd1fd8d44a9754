import StacProxy.MergeSurvival
import StacProxy.TimestampOrder

/-!
# Pages and instants

A page is sorted by the texts of the items' timestamps, each in its own zone and without the
fraction of a second. Instants are in this order if the zones and seconds do not mislead it. What
comes too late in a text may be left in a stash while an earlier instant is emitted.
-/

namespace InstantOrder

open JsonValue Rfc3339 StacItem FederatedCursor ItemMerge PageMerge MergeSurvival StableOrder

section Instants

/-- The timestamp in `datetime`, or else in `start_datetime`. -/
def itemTimestamp (item : Item) : Option Timestamp :=
  ["datetime", "start_datetime"].findSome? fun name =>
    (item.properties.get? name).bind Json.asString? |>.bind parseTimestamp

/-- The first item denotes a strictly later instant. -/
def Later (a b : Item) : Prop :=
  ∃ s t, itemTimestamp a = some s ∧ itemTimestamp b = some t ∧ t.instant < s.instant

/-- No item comes after one of an earlier instant, on the page or in a stash. -/
structure OrderedByInstant (emitted : List Item) (c' : Cursor) : Prop where
  page : emitted.Pairwise fun a b => ¬ Later b a
  stashes : ∀ (id : String) (oc : OriginCursor), c'.origins[id]? = some oc →
    ∀ item, some item ∈ oc.stash → ∀ e ∈ emitted, ¬ Later item e

theorem itemDatetime_isSome {item : Item} {t : Timestamp} (dated : itemTimestamp item = some t) :
    (itemDatetime item).isSome := by
  obtain ⟨name, listed, read⟩ := List.exists_of_findSome?_eq_some dated
  obtain ⟨text, given, parsed⟩ := Option.bind_eq_some_iff.mp read
  rw [itemDatetime, List.findSome?_isSome_iff]
  exact ⟨name, listed, by simp [given, parseItemDatetime, parsed]⟩

theorem itemDatetime_valid {item : Item} {t : Timestamp} (dated : itemDatetime item = some t) :
    t.Valid := by
  obtain ⟨name, -, read⟩ := List.exists_of_findSome?_eq_some dated
  obtain ⟨text, -, parsed⟩ := Option.bind_eq_some_iff.mp read
  rcases Option.or_eq_some_iff.mp parsed with timestamp | ⟨-, date⟩
  · exact parseTimestamp_valid timestamp
  · exact parseDate_valid date

@[simp] theorem itemTimestamp_tagged (k : Candidate) :
    itemTimestamp k.tagged = itemTimestamp k.item := by
  simp [itemTimestamp, Candidate.tagged]

theorem later_tagged {a b : Candidate} : Later a.tagged b.tagged ↔ Later a.item b.item := by
  simp [Later]

theorem not_later_self (a : Item) : ¬ Later a a := by
  rintro ⟨s, t, first, second, before⟩
  rw [first] at second
  cases second
  exact lt_irrefl _ before

end Instants

section Texts

/-- The clock of the first item shows a later second, or the same one in a zone written as a
later text, or both are the same and its ID is smaller. -/
def Ahead (a b : Item) : Prop :=
  ∃ s t, itemDatetime a = some s ∧ itemDatetime b = some t ∧
    (t.localSecond < s.localSecond ∨ s.localSecond = t.localSecond ∧
      (zoneText t.offsetMinutes < zoneText s.offsetMinutes ∨
        zoneText s.offsetMinutes = zoneText t.offsetMinutes ∧ a.id < b.id))

theorem formatRfc3339_eq_iff {s t : Timestamp} (hs : s.Valid) (ht : t.Valid) :
    formatRfc3339 s = formatRfc3339 t ↔ s.localSecond = t.localSecond ∧
      zoneText s.offsetMinutes = zoneText t.offsetMinutes := by
  have forward := formatRfc3339_lt_iff hs ht
  have backward := formatRfc3339_lt_iff ht hs
  constructor
  · intro same
    simp only [same, lt_irrefl, false_iff, not_or, not_and, not_lt] at forward backward
    have second : s.localSecond = t.localSecond := by omega
    exact ⟨second, le_antisymm (backward.2 second.symm) (forward.2 second)⟩
  · rintro ⟨second, zone⟩
    simp only [second, zone, lt_irrefl, and_false, or_false, iff_false, not_lt] at forward backward
    exact le_antisymm backward forward

/-- On items with a date, this is the order pages are sorted in. -/
theorem ahead_iff {a b : Item} (ha : (itemDatetime a).isSome) (hb : (itemDatetime b).isSome) :
    Ahead a b ↔ pageRank a < pageRank b := by
  obtain ⟨s, dated⟩ := Option.isSome_iff_exists.mp ha
  obtain ⟨t, dated'⟩ := Option.isSome_iff_exists.mp hb
  have hs := itemDatetime_valid dated
  have ht := itemDatetime_valid dated'
  have text : getDatetime a = formatRfc3339 s := by simp [getDatetime, dated]
  have text' : getDatetime b = formatRfc3339 t := by simp [getDatetime, dated']
  have shape : Ahead a b ↔ t.localSecond < s.localSecond ∨ s.localSecond = t.localSecond ∧
      (zoneText t.offsetMinutes < zoneText s.offsetMinutes ∨
        zoneText s.offsetMinutes = zoneText t.offsetMinutes ∧ a.id < b.id) := by
    constructor
    · rintro ⟨s', t', first, second, order⟩
      rw [dated] at first
      rw [dated'] at second
      cases first
      cases second
      exact order
    · exact fun order => ⟨s, t, dated, dated', order⟩
  rw [shape, pageRank, pageRank, Prod.Lex.toLex_lt_toLex, OrderDual.toDual_lt_toDual,
    OrderDual.toDual_inj, text, text', formatRfc3339_lt_iff ht hs, formatRfc3339_eq_iff hs ht,
    @eq_comm _ t.localSecond, or_assoc, and_assoc, ← and_or_left]

end Texts

section Pages
variable (baseURLs : Std.ExtTreeMap String String) (results : List FetchResult) (c : Cursor)
  (limit : Nat)

/-- The candidate names an origin that is active on this page. -/
def Filed (k : Candidate) : Prop :=
  k.home ≠ "" ∧ k.home ∈ (markErrors results c).activeOrigins

/-- The first candidate is ahead by the texts, or the texts do not tell and it is merged first. -/
def SortsFirst (a b : Candidate) : Prop :=
  Ahead a.item b.item ∨
    [a, b].Sublist (firstCopies (pageSources baseURLs results c)) ∧ ¬ Ahead b.item a.item

/-- Where instants matter for the page, the clocks, zones and IDs agree with them. -/
def TextsFollowInstants : Prop :=
  ∀ a ∈ firstCopies (pageSources baseURLs results c),
    ∀ b ∈ firstCopies (pageSources baseURLs results c),
      Later a.item b.item → Within baseURLs results c limit b →
        Within baseURLs results c limit a ∨ Filed results c a → SortsFirst baseURLs results c a b

variable {baseURLs results c limit}

theorem tagged_ne {a b : Candidate} (ha : a ∈ firstCopies (pageSources baseURLs results c))
    (hb : b ∈ firstCopies (pageSources baseURLs results c)) (different : a ≠ b) :
    a.tagged ≠ b.tagged := by
  intro same
  refine different (firstCopy_unique ha hb ?_)
  rw [← dedupKey_tagged a, same, dedupKey_tagged]

/-- Among dated first copies, the page follows the texts and then the merge. -/
theorem sortsFirst_iff {a b : Candidate} (ha : a ∈ firstCopies (pageSources baseURLs results c))
    (hb : b ∈ firstCopies (pageSources baseURLs results c)) (different : a ≠ b)
    (dated : (itemDatetime a.item).isSome) (dated' : (itemDatetime b.item).isSome) :
    SortsFirst baseURLs results c a b ↔
      [a.tagged, b.tagged].Sublist (mergedPage baseURLs results c) := by
  have nodup := mergedPage_nodup baseURLs results c
  have sorted : (mergedPage baseURLs results c).Pairwise pageLE := sortPage_sorted _
  have kept : ∀ x y, [x, y].Sublist (firstCopies (pageSources baseURLs results c)) →
      pageRank x.item ≤ pageRank y.item →
        [x.tagged, y.tagged].Sublist (mergedPage baseURLs results c) := by
    intro x y pair order
    refine List.pair_sublist_insertionSort (pageLE_iff.mpr (by simpa using order)) ?_
    exact pair.map Candidate.tagged
  have either := pair_sublist_or (mem_mergedPage.mpr ⟨a, ha, rfl⟩) (mem_mergedPage.mpr ⟨b, hb, rfl⟩)
    (tagged_ne ha hb different)
  have rank : ∀ {x y : Candidate}, [x.tagged, y.tagged].Sublist (mergedPage baseURLs results c) →
      pageRank x.item ≤ pageRank y.item := by
    intro x y pair
    have order := pageLE_iff.mp (List.pairwise_iff_forall_sublist.mp sorted pair)
    simpa using order
  rw [SortsFirst, ahead_iff dated dated', ahead_iff dated' dated, not_lt]
  constructor
  · rintro (ahead | ⟨merged, order⟩)
    · exact either.resolve_right fun behind => absurd (rank behind) (not_le.mpr ahead)
    · exact kept a b merged order
  · intro pair
    rcases lt_or_eq_of_le (rank pair) with ahead | tie
    · exact .inl ahead
    · refine .inr ⟨?_, tie.le⟩
      refine (pair_sublist_or ha hb different).resolve_right fun behind => ?_
      exact not_both_sublist nodup pair (kept b a behind tie.ge)

theorem sortsFirst_of_later_iff {a b : Candidate}
    (ha : a ∈ firstCopies (pageSources baseURLs results c))
    (hb : b ∈ firstCopies (pageSources baseURLs results c)) (later : Later a.item b.item) :
    SortsFirst baseURLs results c a b ↔
      [a.tagged, b.tagged].Sublist (mergedPage baseURLs results c) := by
  have apart : a ≠ b := by
    rintro rfl
    exact not_later_self _ later
  obtain ⟨s, t, first, second, -⟩ := later
  exact sortsFirst_iff ha hb apart (itemDatetime_isSome first) (itemDatetime_isSome second)

/-- On an ordered page with ordered stashes, the texts follow the instants. -/
theorem follow_of_ordered {emitted : List Item} {c' : Cursor}
    (spec : MergeSpec baseURLs results c limit emitted c') (ordered : OrderedByInstant emitted c') :
    TextsFollowInstants baseURLs results c limit := by
  intro a ha b hb later within reaches
  rw [sortsFirst_of_later_iff ha hb later]
  have apart : a.tagged ≠ b.tagged := by
    intro same
    exact not_later_self _ (same ▸ later_tagged.mpr later)
  refine (pair_sublist_or (mem_mergedPage.mpr ⟨a, ha, rfl⟩) (mem_mergedPage.mpr ⟨b, hb, rfl⟩)
    apart).resolve_right fun behind => ?_
  by_cases withinA : Within baseURLs results c limit a
  · have onPage := pair_sublist_take (mergedPage_nodup baseURLs results c) behind
      ((within_iff ha).mp withinA)
    rw [← spec.emitted_eq] at onPage
    exact List.pairwise_iff_forall_sublist.mp ordered.page onPage (later_tagged.mpr later)
  · obtain ⟨named, active⟩ := reaches.resolve_left withinA
    obtain ⟨oc, present, stashed⟩ :=
      (mem_filed_iff spec).mpr ⟨a, ha, rfl, withinA, rfl, named, active⟩
    have shown := (mem_emitted_iff spec).mpr ⟨b, hb, rfl, within⟩
    exact ordered.stashes a.home oc present a.tagged stashed b.tagged shown (later_tagged.mpr later)

/-- Where the texts follow the instants, the page and the stashes are ordered. -/
theorem ordered_of_follow {emitted : List Item} {c' : Cursor}
    (spec : MergeSpec baseURLs results c limit emitted c')
    (follow : TextsFollowInstants baseURLs results c limit) : OrderedByInstant emitted c' := by
  have nodup := mergedPage_nodup baseURLs results c
  refine ⟨List.pairwise_iff_forall_sublist.mpr ?_, ?_⟩
  · intro x y pair later
    have shownX : x ∈ emitted := pair.subset List.mem_cons_self
    have shownY : y ∈ emitted := pair.subset (List.mem_cons_of_mem _ List.mem_cons_self)
    obtain ⟨a, ha, rfl, withinA⟩ := (mem_emitted_iff spec).mp shownX
    obtain ⟨b, hb, rfl, withinB⟩ := (mem_emitted_iff spec).mp shownY
    rw [later_tagged] at later
    have first := follow b hb a ha later withinA (.inl withinB)
    rw [spec.emitted_eq] at pair
    exact not_both_sublist nodup (pair.trans (List.take_sublist _ _))
      ((sortsFirst_of_later_iff hb ha later).mp first)
  · intro id oc present item stashed e onPage later
    obtain ⟨a, ha, rfl, beyond, rfl, filed⟩ := (mem_filed_iff spec).mp ⟨oc, present, stashed⟩
    obtain ⟨b, hb, rfl, within⟩ := (mem_emitted_iff spec).mp onPage
    rw [later_tagged] at later
    have first := follow a ha b hb later within (.inr filed)
    have pair := pair_sublist_take nodup ((sortsFirst_of_later_iff ha hb later).mp first)
      ((within_iff hb).mp within)
    exact beyond ((within_iff ha).mpr (pair.subset List.mem_cons_self))

/-- A page is ordered by instants exactly if the texts follow the instants wherever they
matter. -/
theorem orderedByInstant_iff {emitted : List Item} {c' : Cursor}
    (run : mergeResults baseURLs results c limit = some (emitted, c')) :
    OrderedByInstant emitted c' ↔ TextsFollowInstants baseURLs results c limit :=
  ⟨follow_of_ordered (mergeResults_spec run), ordered_of_follow (mergeResults_spec run)⟩

/-- In one zone and on whole seconds, where only timestamps are given, pages are ordered by
instants. -/
theorem textsFollowInstants_of_zone (offset : Int)
    (plain : ∀ k ∈ firstCopies (pageSources baseURLs results c), ∀ t,
      itemTimestamp k.item = some t → itemDatetime k.item = some t ∧ t.offsetMinutes = offset ∧
        t.nanosecond = 0) : TextsFollowInstants baseURLs results c limit := by
  rintro a ha b hb ⟨s, t, first, second, before⟩ - -
  obtain ⟨dated, zone, whole⟩ := plain a ha s first
  obtain ⟨dated', zone', whole'⟩ := plain b hb t second
  have order := (instant_lt_iff_of_zone (itemDatetime_valid dated') (itemDatetime_valid dated)
    (zone'.trans zone.symm)).mp before
  refine .inl ⟨s, t, dated, dated', .inl ?_⟩
  omega

end Pages

section Samples

theorem plainPage_ordered :
    ∃ emitted c', mergeResults exampleURLs [plainPage] (freshCursor ["a"]) 1 = some (emitted, c') ∧
      OrderedByInstant emitted c' := by
  obtain ⟨⟨emitted, c'⟩, run⟩ := Option.isSome_iff_exists.mp
    (by decide +kernel : (mergeResults exampleURLs [plainPage] (freshCursor ["a"]) 1).isSome)
  have plain : ∀ k ∈ firstCopies (pageSources exampleURLs [plainPage] (freshCursor ["a"])),
      itemDatetime k.item = itemTimestamp k.item ∧
        (itemTimestamp k.item).all fun t => t.offsetMinutes = 0 ∧ t.nanosecond = 0 := by
    decide +kernel
  refine ⟨emitted, c', run, (orderedByInstant_iff run).mpr ?_⟩
  refine textsFollowInstants_of_zone 0 fun k first t dated => ?_
  obtain ⟨same, utc⟩ := plain k first
  rw [dated, Option.all_some, decide_eq_true_eq] at utc
  exact ⟨same.trans dated, utc⟩

/-- Two items whose clocks are an hour apart, and the other way around as instants. -/
def zonedPages : List FetchResult :=
  [{ originID := "a", items := [some (dated "utc" "2024-01-02T00:00:00Z" [])] },
    { originID := "b", items := [some (dated "west" "2024-01-01T23:00:00-05:00" [])] }]

def utcTime : Timestamp := ⟨2024, 1, 2, 0, 0, 0, 0, 0⟩

def westTime : Timestamp := ⟨2024, 1, 1, 23, 0, 0, 0, -300⟩

/-- The later instant is left in the stash. -/
theorem later_instant_stashed :
    ∃ emitted c', mergeResults exampleURLs zonedPages (freshCursor ["a", "b"]) 1 = some (emitted, c') ∧
      ¬ OrderedByInstant emitted c' := by
  obtain ⟨⟨emitted, c'⟩, run⟩ := Option.isSome_iff_exists.mp
    (by decide +kernel : (mergeResults exampleURLs zonedPages (freshCursor ["a", "b"]) 1).isSome)
  have seen : (mergeResults exampleURLs zonedPages (freshCursor ["a", "b"]) 1).map (fun page =>
      (page.1.map itemTimestamp, (page.2.origins["b"]?).map fun oc =>
        oc.stash.map fun item => item.bind itemTimestamp)) =
      some ([some utcTime], some [some westTime]) := by
    decide +kernel
  rw [run, Option.map_some, Option.some_inj, Prod.mk.injEq] at seen
  obtain ⟨page, stash⟩ := seen
  obtain ⟨e, rfl, dated_e⟩ := List.map_eq_singleton_iff.mp page
  obtain ⟨oc, present, stash⟩ := Option.map_eq_some_iff.mp stash
  obtain ⟨item, stashed, dated_item⟩ := List.map_eq_singleton_iff.mp stash
  obtain ⟨item, rfl, dated_item⟩ := Option.bind_eq_some_iff.mp dated_item
  refine ⟨[e], c', run, fun ordered => ?_⟩
  refine ordered.stashes "b" oc present item (by simp [stashed]) e (by simp) ?_
  exact ⟨westTime, utcTime, dated_item, dated_e, by decide +kernel⟩

end Samples

end InstantOrder
