import StacProxy.CursorAuthenticity

/-!
# Going back through a session

Each cursor carries the token of the page before it. From page 2 on that token leads back; page 1
follows a page that was reached without a token and has none to offer, and no page has a token
for the first one.
-/

namespace BackNavigation

open FederatedCursor CursorWire PageMerge PaginatedSearch SearchSession RecordedSession
  CursorAuthenticity

section Pages
variable {S : Session} {n : Nat} {c : Cursor} {token : String} {result : SearchResult}

/-- A page that is followed by another leaves some origin to go on with. -/
theorem active_of_cursorAt (after : S.cursorAt (n + 1) = some (c, token)) :
    c.activeOrigins ≠ [] := by
  obtain ⟨_, token₀, m, _, _, _, more, rfl, _⟩ := cursorAt_succ_iff.mp after
  obtain ⟨id, oc, present, more⟩ := hasMore_iff.mp more
  rw [← hasMore_iff_activeOrigins, hasMore_iff]
  refine ⟨id, oc.clone, by rw [origins_chainCursor, present, Option.map_some], ?_⟩
  -- Cloning resets the error count, which can only bring an origin back.
  simp only [OriginCursor.hasMore, OriginCursor.retired, OriginCursor.clone, Bool.or_eq_true,
    Bool.and_eq_true, Bool.not_eq_true', Bool.and_eq_false_iff] at more ⊢
  rcases more with stashed | ⟨-, unexhausted⟩
  · exact .inl stashed
  · exact .inr ⟨.inr (by simp [maxOriginErrorRetries]), unexhausted⟩

/-- A page hands on the pointers of the cursor it is rendered from. -/
theorem pointers_of_page (coherent : S.Coherent) (before : S.cursorAt (n + 1) = some (c, token))
    (shown : S.page (n + 1) token = .ok result) :
    result.prevCursor = c.prevCursor ∧ result.firstCursor = c.firstCursor := by
  rw [page_eq coherent before] at shown
  cases merged : S.merge (n + 1) c with
  | none =>
    rw [Session.merge] at merged
    simp [Session.render, renderPage, active_of_cursorAt before, merged, Except.map] at shown
  | some m =>
    rw [render_active (active_of_cursorAt before) merged] at shown
    obtain rfl := Except.ok.inj shown
    have frame := merge_frame merged
    constructor
    · change m.cursor.prevCursor = c.prevCursor
      rw [frame]
    · change m.cursor.firstCursor = c.firstCursor
      rw [frame]

/-- No page knows a token of the first page. -/
theorem firstCursor_of_page (coherent : S.Coherent)
    (before : S.cursorAt (n + 1) = some (c, token)) (shown : S.page (n + 1) token = .ok result) :
    result.firstCursor = "" := by
  rw [(pointers_of_page coherent before shown).2]
  exact (stamped_of_cursorAt before).firstCursor

/-- The previous cursor of a page is the token that the page before was asked for with. -/
theorem prevCursor_of_page (coherent : S.Coherent)
    (before : S.cursorAt (n + 1) = some (c, token)) (shown : S.page (n + 1) token = .ok result) :
    ∃ c₀, S.cursorAt n = some (c₀, result.prevCursor) := by
  rw [(pointers_of_page coherent before shown).1]
  obtain ⟨c₀, token₀, m, before₀, -, -, -, rfl, -⟩ := cursorAt_succ_iff.mp before
  exact ⟨c₀, before₀⟩

/-- Asked again before it expires, of the same origins and with the page cache as it was, a token
brings up the same page. -/
theorem page_again (coherent : S.Coherent) (before : S.cursorAt (n + 1) = some (c, token))
    {v : Visit} (unexpired : ¬ c.expiresAt < v.now)
    (deterministic : v.upstream = (S.visit (n + 1)).upstream)
    (faithful : ∀ page, v.cached = some page → S.page (n + 1) token = .ok page) :
    search S.searcher S.wire S.principalHash v S.request token = S.page (n + 1) token := by
  have presented : token ≠ "" := fun empty => absurd ((token_eq before).mp empty) (by omega)
  have accepted := accepted_until_expiry (coherent.roundTrips n c token before) unexpired
  have asked : ¬ c.queryHash ≠ S.wire.hashSearchRequest S.request :=
    not_not.mpr (stamped_of_cursorAt before).queryHash
  have fetches : fetchOrigin S.searcher v = fetchOrigin S.searcher (S.visit (n + 1)) := by
    funext req c limit id
    simp only [fetchOrigin, deterministic]
  have same : renderPage S.searcher S.wire v S.request c token = S.render (n + 1) c token := by
    simp only [Session.render, renderPage, mergePage, fetchFromOrigins, fetches]
  simp only [search, presented, if_false, accepted, asked]
  cases cached : v.cached with
  | none => rw [page_eq coherent before, ← same]
  | some page => exact (faithful page cached).symm

/-- A page that is followed by another was shown. -/
theorem exists_page (coherent : S.Coherent) (before : S.cursorAt n = some (c, token))
    (goes_on : (S.cursorAt (n + 1)).isSome) : ∃ page, S.page n token = .ok page := by
  obtain ⟨⟨c', token'⟩, after⟩ := Option.isSome_iff_exists.mp goes_on
  obtain ⟨c₀, token₀, m, before₀, active, merged, -⟩ := cursorAt_succ_iff.mp after
  obtain ⟨rfl, rfl⟩ := Prod.mk.inj (Option.some.inj (before₀.symm.trans before))
  exact ⟨_, by rw [page_eq coherent before, render_active active merged]; rfl⟩

end Pages

/-- A session whose only origin always has another page. -/
def turningSession : Session := soleSession { nextToken := "t" }

theorem turning_lingers : Lingering { nextToken := "t" } where
  bare := rfl
  urlFree := rfl
  unfinished := .inr (by decide)

/-- The session has every page. -/
theorem turning_shows (n : Nat) : ∃ c token result,
    turningSession.cursorAt n = some (c, token) ∧ turningSession.page n token = .ok result := by
  have goes_on (k : Nat) : ∃ c token, turningSession.cursorAt k = some (c, token) := by
    obtain ⟨c, token, _, before, -⟩ := sole_invariant turning_lingers (fun _ => True) trivial
      (fun _ _ _ _ _ _ => trivial) k
    exact ⟨c, token, before⟩
  obtain ⟨c, token, before⟩ := goes_on n
  obtain ⟨_, _, after⟩ := goes_on (n + 1)
  obtain ⟨result, shown⟩ := exists_page (sole_coherent turning_lingers) before
    (Option.isSome_iff_exists.mpr ⟨_, after⟩)
  exact ⟨c, token, result, before, shown⟩

/-- What a page of the session shows as its previous and its first cursor. -/
def turningBack (n : Nat) : Option (String × String) :=
  (turningSession.cursorAt n).bind fun (_, token) =>
    (turningSession.page n token).toOption.map fun page => (page.prevCursor, page.firstCursor)

/-- From page 2 on, the previous cursor of a page is the token of the page before, and brings
that page up again until it expires. Page 1 has no previous cursor. -/
theorem prev_returns_page {S : Session} (coherent : S.Coherent) :
    (∀ c token result, S.cursorAt 1 = some (c, token) → S.page 1 token = .ok result →
      result.prevCursor = "") ∧
    ∀ n c token result, S.cursorAt (n + 2) = some (c, token) → S.page (n + 2) token = .ok result →
      result.prevCursor ≠ "" ∧ ∃ c₁ previous,
        S.cursorAt (n + 1) = some (c₁, result.prevCursor) ∧
        S.page (n + 1) result.prevCursor = .ok previous ∧
        ∀ v : Visit, ¬ c₁.expiresAt < v.now → v.upstream = (S.visit (n + 1)).upstream →
          (∀ page, v.cached = some page → page = previous) →
          search S.searcher S.wire S.principalHash v S.request result.prevCursor = .ok previous := by
  constructor
  · intro c token result before shown
    obtain ⟨c₀, start⟩ := prevCursor_of_page coherent before shown
    exact (token_eq start).mpr rfl
  · intro n c token result before shown
    obtain ⟨c₁, before₁⟩ := prevCursor_of_page coherent before shown
    have nonempty : result.prevCursor ≠ "" := fun empty =>
      absurd ((token_eq before₁).mp empty) (by omega)
    obtain ⟨previous, shown₁⟩ := exists_page coherent before₁ (by simp [before])
    refine ⟨nonempty, c₁, previous, before₁, shown₁, ?_⟩
    intro v unexpired deterministic faithful
    rw [← shown₁]
    refine page_again coherent before₁ unexpired deterministic fun page cached => ?_
    rw [faithful page cached, shown₁]

theorem turning_back : ∃ c token result c₁ previous,
    turningSession.cursorAt 2 = some (c, token) ∧ turningSession.page 2 token = .ok result ∧
    turningSession.cursorAt 1 = some (c₁, result.prevCursor) ∧
    search turningSession.searcher turningSession.wire turningSession.principalHash
      { turningSession.visit 1 with now := 60 } turningSession.request result.prevCursor =
        .ok previous := by
  have coherent := sole_coherent turning_lingers
  obtain ⟨c, token, result, before, shown⟩ := turning_shows 2
  obtain ⟨-, c₁, previous, before₁, -, again⟩ :=
    (prev_returns_page coherent).2 0 c token result before shown
  refine ⟨c, token, result, c₁, previous, before, shown, before₁, again _ ?_ rfl nofun⟩
  rw [(stamped_of_cursorAt before₁).expiresAt]
  exact (by decide : ¬ (0 : Int64) + defaultTTL < 60)

/-- Page 1 offers neither a way back nor one to the first page. -/
theorem turning_stuck : turningSession.Coherent ∧ turningBack 1 = some ("", "") ∧
    (turningBack 2).any (·.2 == "") := by
  have coherent := sole_coherent turning_lingers
  obtain ⟨c, token, result, before, shown⟩ := turning_shows 1
  obtain ⟨c', token', result', before', shown'⟩ := turning_shows 2
  obtain ⟨c₀, start⟩ := prevCursor_of_page coherent before shown
  refine ⟨coherent, ?_, ?_⟩
  · simp [turningBack, before, shown, Except.toOption, (token_eq start).mpr rfl,
      firstCursor_of_page coherent before shown]
  · simp [turningBack, before', shown', Except.toOption,
      firstCursor_of_page coherent before' shown']

end BackNavigation
