import Mathlib.Data.Finset.Lattice.Fold
import Mathlib.Order.Bounds.Basic
import StacProxy.RecordedSession

/-!
# How long next cursors get

The next cursor of a page carries the token that produced the page, so that clients can
navigate back. Its length is bounded in terms of the per-origin states and the page
number, and no bound is independent of the page number: every token is at least four
thirds as long as the one before.
-/

namespace CursorSize

open FederatedCursor CursorWire PageMerge PaginatedSearch SearchSession CursorGrowth
open RecordedSession

/-- At every page the JSON of all per-origin states has at most `bound` bytes. -/
def StatesWithin (S : Session) (bound : Nat) : Prop :=
  ∀ n c token text, S.cursorAt (n + 1) = some (c, token) →
    S.wire.marshalOrigins c.origins = some text → byteLength text.toList ≤ bound

/-- A bound on the token that page `n` is asked for with. -/
def tokenBound (bound : Nat) : Nat → Nat
  | 0 => 0
  | n + 1 =>
    (4 * (overhead + bound + 4 * (toString (n + 1)).length + tokenBound bound n) + 2) / 3 + 44

section Recurrence
variable {S : Session} {n bound : Nat} {c c' : Cursor} {token token' : String}

theorem prevCursor_eq (before : S.cursorAt n = some (c, token))
    (after : S.cursorAt (n + 1) = some (c', token')) : c'.prevCursor = token := by
  obtain ⟨c₀, token₀, m, before₀, _, _, _, rfl, _⟩ := cursorAt_succ_iff.mp after
  obtain ⟨_, rfl⟩ := Prod.mk.inj (Option.some.inj (before.symm.trans before₀))
  rfl

theorem token_plain (before : S.cursorAt n = some (c, token)) :
    ∀ d ∈ token.toList, Base64Url.plain d ∨ d = '.' := by
  cases n with
  | zero =>
    obtain ⟨_, rfl⟩ := Prod.mk.inj (Option.some.inj before)
    simp
  | succ n =>
    obtain ⟨payload, _, rfl, _⟩ := exists_payload before
    exact tokenOf_plain _ _ _

theorem token_length_le (within : StatesWithin S bound)
    (before : S.cursorAt n = some (c, token)) : token.length ≤ tokenBound bound n := by
  induction n generalizing c token with
  | zero =>
    obtain ⟨_, rfl⟩ := Prod.mk.inj (Option.some.inj before)
    exact Nat.zero_le _
  | succ n ih =>
    obtain ⟨c₀, token₀, m, before₀, _⟩ := cursorAt_succ_iff.mp before
    obtain ⟨payload, written, tokenised, _⟩ := exists_payload before
    have stamped := stamped_of_cursorAt before
    have carried := prevCursor_eq before₀ before
    have digest : c.queryHash.length = 64 := by
      rw [stamped.queryHash]
      exact S.wire.digest_length _
    have principal : c.principalHash.length ≤ 16 := by
      rw [stamped.principalHash]
      exact S.principalHash_short
    have size := length_payload_le written (within n c token · before) stamped.version digest
      principal stamped.firstCursor (carried ▸ token_plain before₀)
    have earlier := ih before₀
    rw [carried, stamped.pageSeq] at size
    rw [tokenised, length_tokenOf, tokenBound]
    omega

/-- A token is at least four thirds as long as the token before it. -/
theorem token_length_growth (before : S.cursorAt n = some (c, token))
    (after : S.cursorAt (n + 1) = some (c', token')) : 4 * token.length ≤ 3 * token'.length := by
  obtain ⟨payload, _, tokenised, longer⟩ := exists_payload after
  have := longer c token before
  rw [tokenised, length_tokenOf]
  omega

theorem page_lt_token_length (before : S.cursorAt (n + 1) = some (c, token)) :
    n < token.length := by
  obtain ⟨payload, written, rfl, _⟩ := exists_payload before
  have := page_lt_length before written
  rw [length_tokenOf]
  omega

end Recurrence

section EmptyPages

/-- A session whose only origin answers with empty pages and the same next token. -/
def emptyPages : Session := soleSession { nextToken := "t" }

theorem emptyPages_lingering : Lingering { nextToken := "t" } :=
  ⟨rfl, rfl, .inr (by decide)⟩

theorem emptyPages_coherent : emptyPages.Coherent := sole_coherent emptyPages_lingering

/-- The state of the origin, apart from fields that its JSON leaves out. -/
def Repeats (oc : OriginCursor) : Prop :=
  ∃ nextToken ∈ ["", "t"],
    { oc with stash := [], lastSortValue := none } =
      ({ id := "a", nextToken := nextToken } : OriginCursor)

theorem emptyPages_repeats (n : Nat) : ∃ c token oc, emptyPages.cursorAt n = some (c, token) ∧
    Waiting c oc ∧ Repeats oc := by
  refine sole_invariant emptyPages_lingering Repeats ⟨"", by simp, rfl⟩ ?_ n
  rintro n c oc oc' ⟨nextToken, _, same⟩ progress
  simp only [OriginCursor.mk.injEq] at same
  obtain ⟨id, token, url, body, offset, adapter, exhausted, error, count, items, _⟩ := same
  cases progress with
  | skipped stash _ => exact ⟨nextToken, ‹_›, by simp [OriginCursor.clone, *]⟩
  | failed stash _ failed => simp [sole_fetch] at failed
  | served stash lastSort _ _ =>
    refine ⟨"t", by simp, ?_⟩
    simp [OriginCursor.clone, OriginCursor.update, FetchResult.originUpdate, sole_fetch, *]

/-- The JSON of the sole origin's state with a given next token. -/
def repeatedText (nextToken : String) : String :=
  originsText ((∅ : OriginMap).insert "a" { id := "a", nextToken := nextToken })

def emptyPagesBound : Nat :=
  byteLength (repeatedText "").toList + byteLength (repeatedText "t").toList

theorem originsText_of_repeats {c : Cursor} {oc : OriginCursor} (waiting : Waiting c oc)
    (repeats : Repeats oc) : ∃ nextToken ∈ ["", "t"], originsText c.origins = repeatedText nextToken := by
  obtain ⟨nextToken, either, same⟩ := repeats
  have sole : c.origins = (∅ : OriginMap).insert "a" oc := by
    refine Std.ExtTreeMap.ext_getElem? fun id => ?_
    rw [waiting.sole, Std.ExtTreeMap.getElem?_insert]
    by_cases same : id = "a"
    · simp [same]
    · simp [same, Ne.symm same]
  have listed : ∀ oc, ((∅ : OriginMap).insert "a" oc).toList = [("a", oc)] := fun _ => rfl
  have text : stateText oc = stateText { id := "a", nextToken := nextToken } := by
    have := congrArg stateText same
    exact this
  refine ⟨nextToken, either, ?_⟩
  simp only [repeatedText, originsText, sole, listed, List.map_singleton, text]

theorem emptyPages_within : StatesWithin emptyPages emptyPagesBound := by
  intro n c token text before written
  obtain ⟨c', token', oc, before', waiting, repeats⟩ := emptyPages_repeats (n + 1)
  obtain ⟨rfl, _⟩ := Prod.mk.inj (Option.some.inj (before.symm.trans before'))
  obtain ⟨nextToken, either, same⟩ := originsText_of_repeats waiting repeats
  obtain rfl : originsText c.origins = text := Option.some.inj written
  rw [same, emptyPagesBound]
  rcases List.mem_pair.mp either with rfl | rfl
  · exact Nat.le_add_right _ _
  · exact Nat.le_add_left _ _

/-- The token shown on a page is longer than the number of the page. -/
theorem emptyPages_longer (n : Nat) : ∃ next, Shows emptyPages n next ∧ n < next.length := by
  obtain ⟨c, token, _, before, _⟩ := emptyPages_repeats (n + 1)
  have longer := page_lt_token_length before
  have nonempty : token ≠ "" := by
    rintro rfl
    simp at longer
  exact ⟨token, (shows_iff emptyPages_coherent nonempty).mpr ⟨c, before⟩, longer⟩

end EmptyPages

theorem nextCursor_length_le {S : Session} {bound n : Nat} {next : String} (coherent : S.Coherent)
    (within : StatesWithin S bound) (shown : Shows S n next) :
    next.length ≤ tokenBound bound (n + 1) := by
  by_cases empty : next = ""
  · simp [empty]
  · obtain ⟨c, after⟩ := (shows_iff coherent empty).mp shown
    exact token_length_le within after

/-- Bounding the per-origin states bounds the next cursors of a set of pages exactly when the
page numbers in the set are bounded. -/
theorem nextCursor_length_bounded_iff (pages : Set Nat) :
    (∀ bound, ∃ longest, ∀ S : Session, S.Coherent → StatesWithin S bound →
      ∀ n ∈ pages, ∀ next, Shows S n next → next.length ≤ longest) ↔ BddAbove pages := by
  constructor
  · intro uniform
    obtain ⟨longest, bounds⟩ := uniform emptyPagesBound
    refine ⟨longest, fun n member => ?_⟩
    obtain ⟨next, shown, longer⟩ := emptyPages_longer n
    have := bounds emptyPages emptyPages_coherent emptyPages_within n member next shown
    omega
  · rintro ⟨last, early⟩ bound
    refine ⟨(Finset.range (last + 2)).sup (tokenBound bound), ?_⟩
    intro S coherent within n member next shown
    have inRange : n + 1 ∈ Finset.range (last + 2) := by
      have : n ≤ last := early member
      rw [Finset.mem_range]
      omega
    exact (nextCursor_length_le coherent within shown).trans (Finset.le_sup inRange)

theorem firstTen_bounded : ∃ longest, ∀ n ∈ Set.Iio 10, ∀ next, Shows emptyPages n next →
    next.length ≤ longest := by
  obtain ⟨longest, bounds⟩ :=
    (nextCursor_length_bounded_iff (Set.Iio 10)).mpr ⟨10, fun n early => le_of_lt early⟩ emptyPagesBound
  exact ⟨longest, bounds emptyPages emptyPages_coherent emptyPages_within⟩

/-- No bound on the per-origin states bounds the next cursors of all pages. -/
theorem nextCursor_length_unbounded : ¬ ∀ bound : Nat, ∃ longest : Nat, ∀ S : Session, S.Coherent →
    StatesWithin S bound → ∀ n next, Shows S n next → next.length ≤ longest := by
  intro uniform
  obtain ⟨longest, bounds⟩ := uniform emptyPagesBound
  obtain ⟨next, shown, longer⟩ := emptyPages_longer longest
  have := bounds emptyPages emptyPages_coherent emptyPages_within longest next shown
  omega

end CursorSize
