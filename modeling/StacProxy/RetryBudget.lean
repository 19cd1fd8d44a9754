import StacProxy.RecordedSession

/-!
# The retry budget of an origin over a session

An origin that fails on `maxOriginErrorRetries` pages in a row is to be dropped from the
session. `streak` counts the failures from the history of the session; the cursor keeps
its own count, which `Clone` leaves behind on every page. So the count of the cursor never
reaches the budget, and what stops an origin from being asked again is only a stash that
covers the page.
-/

namespace RetryBudget

open FederatedCursor CursorWire PageMerge PaginatedSearch SearchSession RecordedSession

/-- How many times in a row the origin has failed, before page `n`, on the pages on which it
was fetched. -/
def streak (S : Session) (id : String) : Nat → Nat
  | 0 => 0
  | n + 1 => match S.cursorAt n with
    | none => streak S id n
    | some (c, _) =>
      if id ∈ toFetch c S.limit then
        if (S.fetch n c id).error.isSome then streak S id n + 1 else 0
      else streak S id n

def FetchedAt (S : Session) (n : Nat) (id : String) : Prop :=
  ∃ c token, S.cursorAt n = some (c, token) ∧ id ∈ toFetch c S.limit

/-- An origin that used up its budget is not fetched again, and a page that leaves nothing
but exhausted and used-up origins without a stash shows no next cursor. -/
structure BudgetKept (S : Session) : Prop where
  dropped : ∀ n id, maxOriginErrorRetries ≤ streak S id n → ¬ FetchedAt S n id
  ends : ∀ n c token m result, S.cursorAt n = some (c, token) → S.merge n c = some m →
    S.page n token = .ok result →
    (∀ (id : String) (oc : OriginCursor), m.cursor.origins[id]? = some oc →
      oc.stash = [] ∧ (oc.exhausted ∨ maxOriginErrorRetries ≤ streak S id (n + 1))) →
    result.nextCursor = ""

/-- On every page, an origin that used up its budget still holds a page of items. -/
def Covered (S : Session) : Prop :=
  ∀ n c token (id : String) (oc : OriginCursor), S.cursorAt n = some (c, token) →
    c.origins[id]? = some oc → maxOriginErrorRetries ≤ streak S id n → S.limit ≤ oc.stash.length

section OneOrigin
variable {S : Session} {n : Nat} {c : Cursor} {token id : String} {oc : OriginCursor} {m : Merged}

theorem streak_succ (before : S.cursorAt n = some (c, token)) (id : String) :
    streak S id (n + 1) =
      if id ∈ toFetch c S.limit then
        if (S.fetch n c id).error.isSome then streak S id n + 1 else 0
      else streak S id n := by
  rw [streak, before]

/-- No cursor of a session has counted an error. -/
theorem errorCount_eq_zero (before : S.cursorAt n = some (c, token))
    (present : c.origins[id]? = some oc) : oc.errorCount = 0 := by
  cases n with
  | zero =>
    obtain ⟨rfl, _⟩ := Prod.mk.inj (Option.some.inj before)
    rw [Session.startCursor, origins_newFederatedCursor] at present
    split at present
    · obtain rfl := Option.some.inj present
      rfl
    · cases present
  | succ n =>
    obtain ⟨_, _, _, _, _, _, _, _, _, rfl⟩ := origin_before before present
    rfl

theorem not_retired (before : S.cursorAt n = some (c, token))
    (present : c.origins[id]? = some oc) : oc.retired = false := by
  simp [OriginCursor.retired, errorCount_eq_zero before present, maxOriginErrorRetries]

/-- An origin is fetched whenever it is unexhausted and its stash does not cover the page,
however often it failed. -/
theorem selected_iff (before : S.cursorAt n = some (c, token)) : id ∈ toFetch c S.limit ↔
    ∃ oc, c.origins[id]? = some oc ∧ oc.exhausted = false ∧ oc.stash.length < S.limit := by
  rw [mem_toFetch]
  constructor
  · rintro ⟨oc, present, unexhausted, _, room⟩
    exact ⟨oc, present, unexhausted, room⟩
  · rintro ⟨oc, present, unexhausted, room⟩
    exact ⟨oc, present, unexhausted, not_retired before present, room⟩

/-- Success ends a streak, so a failing origin is not exhausted. -/
theorem streak_after {oc' : OriginCursor} (before : S.cursorAt n = some (c, token))
    (merged : S.merge n c = some m) (present : c.origins[id]? = some oc)
    (after : m.cursor.origins[id]? = some oc')
    (unexhausted : 0 < streak S id n → oc.exhausted = false) :
    0 < streak S id (n + 1) → oc'.exhausted = false := by
  rw [streak_succ before]
  cases progress_of_merge merged present after with
  | skipped _ unselected =>
    rw [if_neg unselected]
    exact unexhausted
  | failed _ selected _ =>
    intro _
    obtain ⟨oc₀, present₀, unexhausted₀, _⟩ := mem_toFetch.mp selected
    obtain rfl := Option.some.inj (present.symm.trans present₀)
    exact unexhausted₀
  | served _ _ selected succeeded =>
    rw [if_pos selected, succeeded]
    simp

theorem unexhausted_of_streak (before : S.cursorAt n = some (c, token))
    (present : c.origins[id]? = some oc) (failing : 0 < streak S id n) : oc.exhausted = false := by
  induction n generalizing c token oc with
  | zero => exact absurd failing (by simp [streak])
  | succ n ih =>
    obtain ⟨c₀, token₀, m, oc₀, oc', before₀, merged, present₀, after, rfl⟩ :=
      origin_before before present
    have kept : oc'.exhausted = false :=
      streak_after before₀ merged present₀ after (ih before₀ present₀) failing
    exact kept

end OneOrigin

section Budget
variable {S : Session} {n : Nat} {c : Cursor} {token : String} {m : Merged}

theorem covered_of_dropped (dropped : ∀ n id, maxOriginErrorRetries ≤ streak S id n →
    ¬ FetchedAt S n id) : Covered S := by
  intro n c token id oc before present spent
  by_contra room
  have failing : 0 < streak S id n := lt_of_lt_of_le (by decide) spent
  exact dropped n id spent ⟨c, token, before, (selected_iff before).mpr
    ⟨oc, present, unexhausted_of_streak before present failing, not_le.mp room⟩⟩

theorem dropped_of_covered (covered : Covered S) :
    ∀ n id, maxOriginErrorRetries ≤ streak S id n → ¬ FetchedAt S n id := by
  rintro n id spent ⟨c, token, before, selected⟩
  obtain ⟨oc, present, _, room⟩ := (selected_iff before).mp selected
  have := covered n c token id oc before present spent
  omega

/-- A page that leaves nothing but exhausted and used-up origins without a stash is the last:
the page after it would find a used-up origin without a stash. -/
theorem ends_of_covered (covered : Covered S) (before : S.cursorAt n = some (c, token))
    (merged : S.merge n c = some m)
    (spent : ∀ (id : String) (oc : OriginCursor), m.cursor.origins[id]? = some oc →
      oc.stash = [] ∧ (oc.exhausted ∨ maxOriginErrorRetries ≤ streak S id (n + 1))) :
    S.cursorAt (n + 1) = none := by
  rw [Option.eq_none_iff_forall_ne_some]
  rintro ⟨c', token'⟩ after
  obtain ⟨c₁, token₁, m₁, before₁, _, merged₁, more, rfl, _⟩ := cursorAt_succ_iff.mp after
  obtain ⟨rfl, _⟩ := Prod.mk.inj (Option.some.inj (before.symm.trans before₁))
  obtain rfl := Option.some.inj (merged.symm.trans merged₁)
  obtain ⟨id, oc, present, alive⟩ := hasMore_iff.mp more
  obtain ⟨bare, finished | used⟩ := spent id oc present
  · simp [OriginCursor.hasMore, bare, finished] at alive
  · have chained : (chainCursor m.cursor token₁).origins[id]? = some oc.clone := by
      rw [origins_chainCursor, present, Option.map_some]
    have holds := covered (n + 1) _ token' id oc.clone after chained used
    have empty : oc.clone.stash = [] := bare
    have positive := limit_pos S
    rw [empty, List.length_nil] at holds
    omega

/-- A session keeps the budget exactly when no page is asked for while a used-up origin holds
less than a page. -/
theorem budgetKept_iff_covered (coherent : S.Coherent) : BudgetKept S ↔ Covered S := by
  constructor
  · intro kept
    exact covered_of_dropped kept.dropped
  · intro covered
    refine ⟨dropped_of_covered covered, ?_⟩
    intro n c token m result before merged call spent
    by_contra nonempty
    obtain ⟨c', after⟩ := (shows_iff coherent nonempty).mp ⟨c, token, result, before, call, rfl⟩
    rw [ends_of_covered covered before merged spent] at after
    cases after

end Budget

section Examples

theorem streak_le (S : Session) (id : String) (n : Nat) : streak S id n ≤ n := by
  induction n with
  | zero => exact le_refl 0
  | succ n ih =>
    rw [streak]
    split
    · omega
    · split
      · split <;> omega
      · omega

/-- An origin that fails on two pages and gives its last items on the third. -/
def recoveringSession : Session := recorded { soleSession {} with
  visit := fun n => { now := 0, upstream := fun _ _ =>
    if n < 2 then { error := some .fetchFailed } else {} } }

theorem recovering_coherent : recoveringSession.Coherent := by
  refine recorded_coherent ⟨fun n _ _ _ _ => .inl ?_, fun _ => rfl,
    fun _ => (by decide : ¬ (0 : Int64) + defaultTTL < 0)⟩
  dsimp only
  split <;> rfl

theorem recovering_ends : recoveringSession.cursorAt 3 = none := by
  rw [← Option.isNone_iff_eq_none]
  decide +kernel

theorem recovering_budgetKept : streak recoveringSession "a" 2 = 2 ∧ BudgetKept recoveringSession := by
  refine ⟨by decide +kernel, (budgetKept_iff_covered recovering_coherent).mpr ?_⟩
  intro n c token id oc before _ spent
  have used : 3 ≤ n := spent.trans (streak_le _ id n)
  obtain ⟨c₀, token₀, asked⟩ := exists_cursorAt used before
  rw [recovering_ends] at asked
  cases asked

/-- The dead origin of the counterexample fails on every page. -/
def deadSession : Session := soleSession { error := some .fetchFailed }

theorem dead_lingering : Lingering { error := some .fetchFailed } := ⟨rfl, rfl, .inl rfl⟩

theorem dead_fetched (n : Nat) : ∃ c token, deadSession.cursorAt n = some (c, token) ∧
    "a" ∈ toFetch c deadSession.limit := by
  obtain ⟨c, token, oc, before, waiting, _⟩ :=
    sole_invariant dead_lingering (fun _ => True) trivial (fun _ _ _ _ _ _ => trivial) n
  exact ⟨c, token, before, sole_selected _ waiting⟩

theorem dead_streak (n : Nat) : streak deadSession "a" n = n := by
  induction n with
  | zero => rfl
  | succ n ih =>
    obtain ⟨c, token, before, selected⟩ := dead_fetched n
    rw [streak_succ before, if_pos selected, ih]
    rfl

/-- A dead origin is fetched again after its third failure, and keeps every page of an endless
session linking on. -/
theorem deadSession_breaks_budget : deadSession.Coherent ∧ ¬ BudgetKept deadSession ∧
    ∀ n, ∃ next, next ≠ "" ∧ Shows deadSession n next := by
  refine ⟨sole_coherent dead_lingering, fun kept => ?_, fun n => ?_⟩
  · obtain ⟨c, token, before, selected⟩ := dead_fetched 3
    have spent : maxOriginErrorRetries ≤ streak deadSession "a" 3 := by
      rw [dead_streak]
      decide
    exact kept.dropped 3 "a" spent ⟨c, token, before, selected⟩
  · obtain ⟨c, next, after, _⟩ := dead_fetched (n + 1)
    have nonempty : next ≠ "" := fun empty => absurd ((token_eq after).mp empty) (by omega)
    exact ⟨next, nonempty, (shows_iff (sole_coherent dead_lingering) nonempty).mpr ⟨c, after⟩⟩

end Examples

end RetryBudget
