import Mathlib.Data.List.Induction
import StacProxy.Chronicle
import StacProxy.JwksInterference

/-!
# Which document a key is from

The issuer may serve another document to every fetch, and a fetch may fail: it ends then as if
its call had been cancelled. Notes are taken of the refreshes that store their document. In
every reachable state the client has the keys and expiries of the last of them, and a key that a
call returns was read from that document before it had expired.
-/

namespace JwksClient

open Chronicle

section Document

/-- The entry is from the key: one for signatures that parses. -/
structure Yields (jwk : JWK) (kid : String) (entry : CachedKey) : Prop where
  kid_eq : jwk.kid = kid
  use : jwk.use = "" ∨ jwk.use = "sig"
  parsed : parseJWK jwk = some entry.key
  alg_eq : jwk.alg = entry.alg

/-- The entry is from the last key of the document that yields one under its ID. -/
def IsEntry (doc : List JWK) (kid : String) (entry : CachedKey) : Prop :=
  ∃ front jwk back, doc = front ++ jwk :: back ∧ Yields jwk kid entry ∧
    ∀ later ∈ back, ∀ other, ¬ Yields later kid other

theorem keysOf_concat (doc : List JWK) (jwk : JWK) : keysOf (doc ++ [jwk]) =
    if jwk.use ≠ "" ∧ jwk.use ≠ "sig" then keysOf doc
    else match parseJWK jwk with
      | none => keysOf doc
      | some key => (keysOf doc).insert jwk.kid ⟨key, jwk.alg⟩ := by
  rw [keysOf, List.foldl_concat]
  rfl

theorem isEntry_concat {doc : List JWK} {jwk : JWK} {kid : String} {entry : CachedKey} :
    IsEntry (doc ++ [jwk]) kid entry ↔
      Yields jwk kid entry ∨ (∀ other, ¬ Yields jwk kid other) ∧ IsEntry doc kid entry := by
  constructor
  · rintro ⟨front, found, back, split, yields, last⟩
    rcases List.eq_nil_or_concat back with rfl | ⟨back, final, rfl⟩
    · obtain ⟨-, same⟩ := List.append_inj' split rfl
      obtain rfl : jwk = found := by simpa using same
      exact .inl yields
    · rw [List.concat_eq_append, ← List.cons_append, ← List.append_assoc] at split
      obtain ⟨rfl, same⟩ := List.append_inj' split rfl
      obtain rfl : jwk = final := by simpa using same
      exact .inr ⟨last jwk (by simp), front, found, back, rfl, yields,
        fun later member => last later (by simp [member])⟩
  · rintro (yields | ⟨unyielding, front, found, back, rfl, yields, last⟩)
    · exact ⟨doc, jwk, [], rfl, yields, by simp⟩
    · refine ⟨front, found, back ++ [jwk], by simp, yields, fun later member => ?_⟩
      rcases List.mem_append.mp member with earlier | final
      · exact last later earlier
      · obtain rfl := List.mem_singleton.mp final
        exact unyielding

theorem keysOf_eq_some_iff {doc : List JWK} {kid : String} {entry : CachedKey} :
    (keysOf doc)[kid]? = some entry ↔ IsEntry doc kid entry := by
  induction doc using List.reverseRecOn with
  | nil => simp [keysOf, IsEntry]
  | append_singleton doc jwk ih =>
    rw [keysOf_concat, isEntry_concat, ← ih]
    have skipped : (∀ other, ¬ Yields jwk kid other) → ((keysOf doc)[kid]? = some entry ↔
        Yields jwk kid entry ∨ (∀ other, ¬ Yields jwk kid other) ∧
          (keysOf doc)[kid]? = some entry) := by
      intro unyielding
      simp [unyielding]
    by_cases encrypts : jwk.use ≠ "" ∧ jwk.use ≠ "sig"
    · rw [if_pos encrypts]
      exact skipped fun other yields => yields.use.elim encrypts.1 encrypts.2
    rw [if_neg encrypts]
    cases parsed : parseJWK jwk with
    | none =>
      refine skipped fun other yields => ?_
      rw [yields.parsed] at parsed
      cases parsed
    | some key =>
      simp only
      rw [Std.ExtTreeMap.getElem?_insert]
      by_cases named : jwk.kid = kid
      · have yields : Yields jwk kid ⟨key, jwk.alg⟩ :=
          ⟨named, by tauto, parsed, rfl⟩
        rw [if_pos (by simp [named])]
        constructor
        · intro same
          cases same
          exact .inl yields
        · rintro (found | ⟨unyielding, -⟩)
          · have key_eq := found.parsed
            have alg_eq := found.alg_eq
            rw [parsed] at key_eq
            cases entry
            simp_all
          · exact absurd yields (unyielding _)
      · rw [if_neg (by simpa using named)]
        exact skipped fun other yields => named yields.kid_eq

end Document

section Histories
variable (cfg : Settings) (kids : Nat → String)

/-- An event, with the document the issuer serves to a fetch at that moment. -/
abbrev Moment := Event × List JWK

def served (w : World) (m : Moment) : World := w.step cfg m.2 kids m.1

/-- A refresh that has stored its document. -/
structure Completed where
  flight : Nat
  time : Int
  doc : List JWK

def Refresh.storing? : Refresh → Option Nat
  | .storing f => some f
  | _ => none

/-- The refresh that stores its document with the event. -/
def World.stores (w : World) : Event → Option Nat
  | .act a => (w.refreshOf a).bind Refresh.storing?
  | _ => none

/-- The last completed refresh is the first of the notes. -/
def noteCompleted (w : World) (m : Moment) (log : List Completed) : List Completed :=
  match w.stores m.1 with
  | some f => ⟨f, w.shared.now, m.2⟩ :: log
  | none => log

def history (start : Int) (moments : List Moment) : Noted World (List Completed) :=
  follow (served cfg kids) noteCompleted ⟨initial start, []⟩ moments

/-- The client has the keys and expiries of the last completed refresh. -/
def KeysFrom (c : Client) : List Completed → Prop
  | [] => c.keys = ∅ ∧ c.softExpiry = none ∧ c.hardExpiry = none
  | last :: _ => c.keys = keysOf last.doc ∧ c.softExpiry = some (last.time + cfg.ttl) ∧
      c.hardExpiry = some (last.time + cfg.hard)

end Histories

section Steps
variable {cfg : Settings} {doc : List JWK} {kids : Nat → String} {w : World}

theorem exists_storing {e : Event} {f : Nat} (stored : w.stores e = some f) :
    ∃ a, e = .act a ∧ w.refreshOf a = some (.storing f) := by
  cases e with
  | act a =>
    obtain ⟨r, inside, storing⟩ := Option.bind_eq_some_iff.mp stored
    cases r <;> cases storing
    exact ⟨a, rfl, inside⟩
  | _ => cases stored

/-- A step that does nothing to the keys, the expiries and the last attempt. -/
structure Untouched (c c' : Client) : Prop where
  keys : c'.keys = c.keys
  softExpiry : c'.softExpiry = c.softExpiry
  hardExpiry : c'.hardExpiry = c.hardExpiry
  lastRefreshAttempt : c'.lastRefreshAttempt = c.lastRefreshAttempt

theorem Untouched.refl (c : Client) : Untouched c c := ⟨rfl, rfl, rfl, rfl⟩

/-- Outside of a refresh, or at the end of it, an agent does not touch them. -/
theorem untouched_of_aside {a : Agent} (outside : ¬ ∃ r, w.refreshOf a = some r ∧ ∀ err, r ≠ .done err) :
    Untouched w.shared.client (w.step cfg doc kids (.act a)).shared.client := by
  cases a with
  | background =>
    cases running : w.shared.background with
    | none => simp [World.step, backgroundStep, running, Untouched.refl]
    | some r =>
      cases r with
      | done err =>
        simp only [World.step, backgroundStep, running]
        exact ⟨rfl, rfl, rfl, rfl⟩
      | _ => exact absurd ⟨_, running, fun _ same => by cases same⟩ outside
  | caller i =>
    obtain ⟨sh, stage, taken, stepped, -⟩ := @exists_taken cfg doc kids w i
    rw [stepped]
    generalize at_i : (w.callers i).stage = here at taken
    cases taken with
    | kicks entry =>
      unfold maybeKickBackgroundRefresh
      split <;> exact ⟨rfl, rfl, rfl, rfl⟩
    | rides r unfinished =>
      exact absurd ⟨r, by simp [World.refreshOf, at_i, Stage.refresh?], unfinished⟩ outside
    | _ => exact ⟨rfl, rfl, rfl, rfl⟩

/-- What a step does to the client: a refresh stores the document or records the attempt, or
keys, expiries and last attempt are not touched. -/
theorem client_step (e : Event) :
    (∃ a f, e = .act a ∧ w.refreshOf a = some (.storing f) ∧
      (w.step cfg doc kids e).shared.client = store cfg doc w.shared.client w.shared.now) ∨
    (∃ a f, e = .act a ∧ w.refreshOf a = some (.recording f) ∧
      (w.step cfg doc kids e).shared.client =
        { w.shared.client with lastRefreshAttempt := some w.shared.now }) ∨
    w.stores e = none ∧ Untouched w.shared.client (w.step cfg doc kids e).shared.client := by
  cases e with
  | tick elapsed | cancel i | cancelBackground => exact .inr (.inr ⟨rfl, Untouched.refl _⟩)
  | act a =>
    by_cases inside : ∃ r, w.refreshOf a = some r ∧ ∀ err, r ≠ .done err
    · obtain ⟨r, inside, unfinished⟩ := inside
      obtain ⟨cancelled, advances⟩ := @agent_refreshing cfg doc kids w a r inside unfinished
      have client := advances.client
      cases r with
      | storing f => exact .inl ⟨a, f, rfl, inside, client⟩
      | recording f => exact .inr (.inl ⟨a, f, rfl, inside, client⟩)
      | done err => exact absurd rfl (unfinished err)
      | entering =>
        refine .inr (.inr ⟨by rw [World.stores, inside]; rfl, ?_⟩)
        rw [client]
        cases current : w.shared.group.current with
        | none => rw [refreshStep_launches current]; exact Untouched.refl _
        | some flight => rw [refreshStep_joins current]; exact Untouched.refl _
      | waiting f =>
        refine .inr (.inr ⟨by rw [World.stores, inside]; rfl, ?_⟩)
        rw [client]
        cases ended : w.shared.group.results f with
        | none => rw [refreshStep_waits ended]; exact Untouched.refl _
        | some err => rw [refreshStep_leaves ended]; exact Untouched.refl _
      | _ =>
        refine .inr (.inr ⟨by rw [World.stores, inside]; rfl, ?_⟩)
        rw [client]
        simp [Untouched.refl]
    · refine .inr (.inr ⟨?_, untouched_of_aside inside⟩)
      rw [World.stores, Option.bind_eq_none_iff]
      intro r within
      cases r with
      | storing f => exact absurd ⟨_, within, fun _ same => by cases same⟩ inside
      | _ => rfl

/-- A step stores the document, or leaves keys and expiries as they are. -/
theorem keys_step (e : Event) :
    (∃ f, w.stores e = some f ∧ (w.step cfg doc kids e).shared.client.keys = keysOf doc ∧
      (w.step cfg doc kids e).shared.client.softExpiry = some (w.shared.now + cfg.ttl) ∧
      (w.step cfg doc kids e).shared.client.hardExpiry = some (w.shared.now + cfg.hard)) ∨
    w.stores e = none ∧ (w.step cfg doc kids e).shared.client.keys = w.shared.client.keys ∧
      (w.step cfg doc kids e).shared.client.softExpiry = w.shared.client.softExpiry ∧
      (w.step cfg doc kids e).shared.client.hardExpiry = w.shared.client.hardExpiry := by
  rcases @client_step cfg doc kids w e with ⟨a, f, rfl, inside, client⟩ | ⟨a, f, rfl, inside, client⟩ |
    ⟨unstored, untouched⟩
  · rw [client]
    exact .inl ⟨f, by rw [World.stores, inside]; rfl, rfl, rfl, rfl⟩
  · rw [client]
    exact .inr ⟨by rw [World.stores, inside]; rfl, rfl, rfl, rfl⟩
  · exact .inr ⟨unstored, untouched.keys, untouched.softExpiry, untouched.hardExpiry⟩

end Steps

section Flights
variable {cfg : Settings} {doc : List JWK} {kids : Nat → String} {w after : World}
  {log : List Completed} {a : Agent} {r : Refresh} {cancelled : Bool}

/-- A refresh that has stored its document is one of those launched, and ends well. -/
structure Flights (w : World) (log : List Completed) : Prop where
  noted_lt : ∀ c ∈ log, c.flight < w.shared.group.launched
  finishing : ∀ c ∈ log, ∀ a r, w.refreshOf a = some r → r.leads c.flight →
    r = .finishing c.flight none
  succeeded : ∀ c ∈ log, ∀ err, w.shared.group.results c.flight = some err → err = none

theorem flights_initial (start : Int) : Flights (initial start) [] where
  noted_lt := nofun
  finishing := nofun
  succeeded := nofun

theorem Flights.quiet (flights : Flights w log) (quiet : Quiet w after) : Flights after log := by
  obtain ⟨noted_lt, finishing, succeeded⟩ := flights
  rw [← quiet.group] at noted_lt succeeded
  refine ⟨noted_lt, ?_, succeeded⟩
  intro c member b r inside leads
  rcases quiet.refreshes b with same | ⟨-, gone | entering⟩
  · exact finishing c member b r (same ▸ inside) leads
  · rw [gone] at inside
    cases inside
  · rw [entering] at inside
    cases inside
    cases leads

/-- The refresh an agent leads before it has stored the document is not among the notes. -/
theorem Flights.unnoted (flights : Flights w log) (inside : w.refreshOf a = some r) {f : Nat}
    (leads : r.leads f) (unfinished : r ≠ .finishing f none) : ∀ c ∈ log, c.flight ≠ f := by
  rintro c member rfl
  exact unfinished (flights.finishing c member a r inside leads)

/-- A step after which its agent leads no refresh of the notes. -/
theorem Flights.finishing_after (flights : Flights w log)
    (advances : Advances cfg doc w after a r cancelled) {r' : Refresh}
    (refresh : after.refreshOf a = some r') (unnoted : ∀ c ∈ log, ¬ r'.leads c.flight) :
    ∀ c ∈ log, ∀ b r, after.refreshOf b = some r → r.leads c.flight →
      r = .finishing c.flight none := by
  intro c member b r'' inside leads
  by_cases mine : b = a
  · subst mine
    rw [refresh] at inside
    cases inside
    exact absurd leads (unnoted c member)
  · exact flights.finishing c member b r'' (advances.others b mine ▸ inside) leads

/-- A step that leaves the group as it is. -/
theorem Flights.steady (flights : Flights w log)
    (advances : Advances cfg doc w after a r cancelled) {r' : Refresh}
    (refresh : after.refreshOf a = some r') (group : after.shared.group = w.shared.group)
    (unnoted : ∀ c ∈ log, ¬ r'.leads c.flight) : Flights after log := by
  have finishing := flights.finishing_after advances refresh unnoted
  obtain ⟨noted_lt, -, succeeded⟩ := flights
  rw [← group] at noted_lt succeeded
  exact ⟨noted_lt, finishing, succeeded⟩

theorem Flights.launches (flights : Flights w log)
    (advances : Advances cfg doc w after a .entering cancelled)
    (idle : w.shared.group.current = none) : Flights after log := by
  have group := advances.group
  have refresh := advances.refresh
  rw [refreshStep_launches idle] at group refresh
  refine ⟨?_, flights.finishing_after advances refresh ?_, ?_⟩
  · rw [group]
    intro c member
    exact Nat.lt_succ_of_lt (flights.noted_lt c member)
  · intro c member leads
    have same : w.shared.group.launched = c.flight := Option.some.inj leads
    exact absurd (flights.noted_lt c member) (same ▸ Nat.lt_irrefl _)
  · rw [group]
    exact flights.succeeded

theorem Flights.lands (flights : Flights w log) {f : Nat} {err : Option JwksError}
    (advances : Advances cfg doc w after a (.finishing f err) cancelled) : Flights after log := by
  have group := advances.group
  rw [refreshStep_finishing] at group
  refine ⟨?_, flights.finishing_after advances advances.refresh fun _ _ => nofun, ?_⟩
  · rw [group]
    exact flights.noted_lt
  · rw [group]
    intro c member outcome ended
    by_cases here : c.flight = f
    · have same := flights.finishing c member a _ advances.before (congrArg some here.symm)
      cases same
      simpa [here] using ended.symm
    · exact flights.succeeded c member outcome (by simpa [here] using ended)

/-- The document of a refresh is stored, and the refresh noted. -/
theorem Flights.stores (orderly : Orderly w) (flights : Flights w log) {f : Nat}
    (advances : Advances cfg doc w after a (.storing f) cancelled) (c : Completed)
    (mine : c.flight = f) : Flights after (c :: log) := by
  have flying : w.shared.group.current = some ⟨f, a⟩ :=
    (orderly.led a f).mpr ⟨_, advances.before, rfl⟩
  have group : after.shared.group = w.shared.group := advances.group
  have refresh : after.refreshOf a = some (.finishing f none) := advances.refresh
  refine ⟨?_, ?_, ?_⟩
  · rw [group]
    intro d member
    rcases List.mem_cons.mp member with rfl | earlier
    · rw [mine]
      exact SingleFlight.Orderly.current_lt orderly _ flying
    · exact flights.noted_lt d earlier
  · intro d member b r inside leads
    by_cases own : b = a
    · subst own
      rw [refresh] at inside
      cases inside
      have same : f = d.flight := Option.some.inj leads
      rw [same]
    · have before : w.refreshOf b = some r := advances.others b own ▸ inside
      rcases List.mem_cons.mp member with rfl | earlier
      · have other := (orderly.led b d.flight).mpr ⟨r, before, leads⟩
        rw [flying] at other
        cases other
        exact absurd rfl own
      · exact flights.finishing d earlier b r before leads
  · rw [group]
    intro d member err ended
    rcases List.mem_cons.mp member with rfl | earlier
    · have running := SingleFlight.Orderly.open_current orderly _ flying
      rw [mine, running] at ended
      cases ended
    · exact flights.succeeded d earlier err ended

theorem Flights.advances (flights : Flights w log)
    (advances : Advances cfg doc w after a r cancelled) (unstored : r.storing? = none) :
    Flights after log := by
  have group := advances.group
  have refresh := advances.refresh
  have unnoted := fun {f : Nat} => @Flights.unnoted w log a r flights advances.before f
  cases r with
  | entering =>
    cases current : w.shared.group.current with
    | none => exact flights.launches advances current
    | some flight =>
      rw [refreshStep_joins current] at group refresh
      exact flights.steady advances refresh group fun _ _ => nofun
  | recording f =>
    exact flights.steady advances refresh group fun c member leads =>
      unnoted rfl (fun same => by cases same) c member (Option.some.inj leads).symm
  | fetching f =>
    have apart := unnoted (f := f) rfl (fun same => by cases same)
    cases cancelled <;>
      exact flights.steady advances refresh group fun c member leads =>
        apart c member (Option.some.inj leads).symm
  | storing f => cases unstored
  | finishing f err => exact flights.lands advances
  | waiting f =>
    cases result : w.shared.group.results f with
    | none =>
      rw [refreshStep_waits result] at group refresh
      exact flights.steady advances refresh group fun _ _ => nofun
    | some err =>
      rw [refreshStep_leaves result] at group refresh
      exact flights.steady advances refresh group fun _ _ => nofun
  | done err => exact absurd rfl (advances.unfinished err)

end Flights

section Runs
variable {cfg : Settings} {kids : Nat → String} {s : Noted World (List Completed)}

/-- What holds in every reachable state. -/
structure Faithful (cfg : Settings) (s : Noted World (List Completed)) : Prop where
  flagged : Flagged s.state
  orderly : Orderly s.state
  flights : Flights s.state s.notes
  keys : KeysFrom cfg s.state.shared.client s.notes

theorem faithful_initial (start : Int) : Faithful cfg ⟨initial start, []⟩ where
  flagged := nofun
  orderly := orderly_initial start
  flights := flights_initial start
  keys := ⟨rfl, rfl, rfl⟩

theorem KeysFrom.congr {c c' : Client} {log : List Completed} (from_log : KeysFrom cfg c log)
    (keys : c'.keys = c.keys) (softExpiry : c'.softExpiry = c.softExpiry)
    (hardExpiry : c'.hardExpiry = c.hardExpiry) : KeysFrom cfg c' log := by
  cases log with
  | nil | cons last log =>
    exact ⟨keys.trans from_log.1, softExpiry.trans from_log.2.1, hardExpiry.trans from_log.2.2⟩

theorem Faithful.step (faithful : Faithful cfg s) (m : Moment) :
    Faithful cfg (advance (served cfg kids) noteCompleted s m) := by
  have flagged := @Flagged.step cfg m.2 kids s.state faithful.flagged m.1
  have orderly := @Orderly.step cfg m.2 kids s.state faithful.flagged faithful.orderly m.1
  have stepped := @keys_step cfg m.2 kids s.state m.1
  cases stored : s.state.stores m.1 with
  | none =>
    have notes : noteCompleted s.state m s.notes = s.notes := by rw [noteCompleted, stored]
    obtain ⟨-, keys, softExpiry, hardExpiry⟩ := stepped.resolve_left (by simp [stored])
    refine ⟨flagged, orderly, ?_, ?_⟩
    · rw [advance, notes]
      rcases step_cases faithful.flagged m.1 with quiet | ⟨a, r, cancelled, act, advances⟩
      · exact faithful.flights.quiet quiet
      · refine faithful.flights.advances advances ?_
        rw [act, World.stores, advances.before, Option.bind_some] at stored
        exact stored
    · rw [advance, notes]
      exact faithful.keys.congr keys softExpiry hardExpiry
  | some f =>
    have notes : noteCompleted s.state m s.notes =
        ⟨f, s.state.shared.now, m.2⟩ :: s.notes := by rw [noteCompleted, stored]
    obtain ⟨g, -, keys, softExpiry, hardExpiry⟩ := stepped.resolve_right (by simp [stored])
    refine ⟨flagged, orderly, ?_, ?_⟩
    · rw [advance, notes]
      obtain ⟨a, act, inside⟩ := exists_storing stored
      obtain ⟨cancelled, advances⟩ := @agent_refreshing cfg m.2 kids s.state a _ inside nofun
      rw [← act] at advances
      exact faithful.flights.stores faithful.orderly advances _ rfl
    · rw [advance, notes]
      exact ⟨keys, softExpiry, hardExpiry⟩

theorem faithful_history (cfg : Settings) (kids : Nat → String) (start : Int)
    (moments : List Moment) : Faithful cfg (history cfg kids start moments) :=
  follow_invariant (faithful_initial start) (fun _ m faithful _ => faithful.step m)
    (meets_true _ moments)

/-- The call has read the entry. -/
def HasRead (i : Nat) (entry : CachedKey) (w : World) : Prop :=
  (w.callers i).stage = .kicking entry ∨ (w.callers i).stage = .returned (.ok entry)

/-- A call gets an entry by looking it up. -/
theorem lookup_of_hasRead {w : World} {m : Moment} {i : Nat} {entry : CachedKey}
    (before : ¬ HasRead i entry w) (after : HasRead i entry (served cfg kids w m)) :
    m.1 = .act (.caller i) ∧ ((w.callers i).stage = .first ∨ (w.callers i).stage = .second) ∧
      (lookup w.shared.client w.shared.now (kids i) = .fresh entry ∨
        lookup w.shared.client w.shared.now (kids i) = .stale entry) := by
  by_cases mine : m.1 = .act (.caller i)
  · refine ⟨mine, ?_⟩
    obtain ⟨sh, stage, taken, -, moved⟩ := @exists_taken cfg m.2 kids w i
    rw [HasRead, served, mine, moved] at after
    rw [HasRead] at before
    generalize (w.callers i).stage = here at taken before
    cases taken with
    | finds found | serves found | reads found => simp_all
    | kicks found => exact absurd (.inl (by simpa using after)) before
    | stays result => exact absurd after before
    | _ => simp at after
  · have same := @stage_step_of_ne cfg m.2 kids w i m.1 mine
    rw [HasRead, served, same] at after
    exact absurd after before

/-- What is found in the client is from the last completed refresh, and not expired. -/
theorem KeysFrom.lookup {c : Client} {log : List Completed} {now : Int} {kid : String}
    {entry : CachedKey} (from_log : KeysFrom cfg c log)
    (found : lookup c now kid = .fresh entry ∨ lookup c now kid = .stale entry) :
    ∃ last earlier, log = last :: earlier ∧ IsEntry last.doc kid entry ∧
      now - last.time ≤ cfg.hard := by
  have live : c.hardExpiry.any (· < now) = false ∧ c.keys[kid]? = some entry := by
    unfold JwksClient.lookup at found
    split at found
    · simp at found
    · rename_i live
      cases present : c.keys[kid]? with
      | none => simp [present] at found
      | some cached =>
        simp only [present] at found
        split at found <;> simp_all
  cases log with
  | nil =>
    rw [from_log.1] at live
    simp at live
  | cons last earlier =>
    obtain ⟨keys, -, hardExpiry⟩ := from_log
    rw [keys, hardExpiry] at live
    refine ⟨last, earlier, rfl, keysOf_eq_some_iff.mp live.2, ?_⟩
    have kept : ¬ last.time + cfg.hard < now := by simpa using live.1
    omega

end Runs

/-- The client has the keys and expiries of the last completed refresh, and one that fails is
not among the completed ones. A key that a call returns is an entry of the document of the
refresh that was the last to complete when the call looked it up, no longer ago than the hard
lifetime. -/
theorem keys_fresh_and_whole (cfg : Settings) (kids : Nat → String) (start : Int)
    (moments : List Moment) :
    KeysFrom cfg (history cfg kids start moments).state.shared.client
      (history cfg kids start moments).notes ∧
    (∀ f err, (history cfg kids start moments).state.shared.group.results f = some (some err) →
      ∀ c ∈ (history cfg kids start moments).notes, c.flight ≠ f) ∧
    ∀ i entry, ((history cfg kids start moments).state.callers i).stage = .returned (.ok entry) →
      ∃ front m back, moments = front ++ m :: back ∧ m.1 = .act (.caller i) ∧
        (((history cfg kids start front).state.callers i).stage = .first ∨
          ((history cfg kids start front).state.callers i).stage = .second) ∧
        ∃ last earlier, (history cfg kids start front).notes = last :: earlier ∧
          IsEntry last.doc (kids i) entry ∧
          (history cfg kids start front).state.shared.now - last.time ≤ cfg.hard := by
  have faithful := faithful_history cfg kids start
  refine ⟨(faithful moments).keys, ?_, ?_⟩
  · rintro f err failed c member rfl
    have succeeded := (faithful moments).flights.succeeded c member _ failed
    cases succeeded
  · intro i entry returned
    have unread : ¬ HasRead i entry (initial start) := by
      rintro (kicking | returned)
      · cases kicking
      · cases returned
    obtain ⟨front, m, back, split, before, after⟩ :=
      exists_turn (P := fun s => HasRead i entry s.state) unread (.inr returned)
    obtain ⟨act, stage, found⟩ := lookup_of_hasRead before after
    exact ⟨front, m, back, split, act, stage, (faithful front).keys.lookup found⟩

section Samples

def Stage.key? : Stage → Option CachedKey
  | .returned (.ok entry) => some entry
  | _ => none

def signingKey : JWK := ⟨"RSA", "a", "sig", "RS256", "AQAB", "AQAB", "", "", ""⟩

def encryptionKey : JWK := ⟨"RSA", "a", "enc", "RSA-OAEP", "AQAB", "AQAB", "", "", ""⟩

/-- A call that refreshes and returns. -/
def refreshingCall (doc : List JWK) : List Moment := List.replicate 9 (.act (.caller 0), doc)

/-- Another call finds the key at its hard expiry, and returns it some time later. -/
def lateMoments : List Moment :=
  refreshingCall [signingKey] ++ [(.tick 20, []), (.act (.caller 1), []), (.tick 5, []),
    (.act (.caller 1), [])]

def sampleHistory (moments : List Moment) : Noted World (List Completed) :=
  history (settings 10 20 1 1) (fun _ => "a") 0 moments

end Samples

theorem late_key_and_skipped_key :
    (((sampleHistory lateMoments).state.callers 1).stage.key? = some ⟨.rsa 65537 65537, "RS256"⟩ ∧
      ((sampleHistory lateMoments.dropLast).state.callers 1).stage.key? = none ∧
      (sampleHistory lateMoments).notes.map Completed.time = [0] ∧
      (sampleHistory lateMoments).state.shared.now = 25 ∧ (settings 10 20 1 1).hard = 20) ∧
    ((sampleHistory (refreshingCall [signingKey, encryptionKey])).state.callers 0).stage.key? =
      some ⟨.rsa 65537 65537, "RS256"⟩ := by
  decide +kernel

end JwksClient
