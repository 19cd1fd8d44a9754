import StacProxy.ResponseCache

/-!
# Principals and cache keys

Which principals can get the same cache key. The class of a principal is its ID, whatever
provider made it, and a key is put together with NUL bytes that IDs and decoded paths may
contain themselves.
-/

namespace CacheKeys

open RequestPath Authentication ResponseCache

section Callers

inductive Method where
  | bearer
  | oidc
  | basic
  | apiKey
  | mtls
  deriving DecidableEq, Repr

/-- A principal and the provider it is from. -/
structure Caller where
  method : Method
  principal : Principal

/-- Nobody in the context counts as anonymous. -/
def anonymous (c : Option Caller) : Bool := c.all fun caller => caller.principal.isAnonymous

def SamePrincipal (a b : Option Caller) : Prop :=
  (anonymous a ∧ anonymous b) ∨ ∃ x y, a = some x ∧ b = some y ∧ x.method = y.method ∧
    x.principal.id = y.principal.id

/-- No key of the one is a key of the other, unless they are the same. -/
def Partitioned {κ : Type} (hash : Bytes → κ) (a b : Option Caller) : Prop :=
  ∀ q r : Request, q.cacheable → r.cacheable → q.principal = a.map Caller.principal →
    r.principal = b.map Caller.principal → cacheKey hash q = cacheKey hash r → SamePrincipal a b

/-- The ID that tells principals apart. -/
def effectiveID (p : Principal) : Bytes := if p.id = [] then bytes "_unknown" else p.id

/-- The second ID goes on where a key with the first has its method. -/
def Continues (first second : Bytes) : Prop := first ++ bytes "\x00GET\x00" <+: second ++ [0]

instance (first second : Bytes) : Decidable (Continues first second) :=
  inferInstanceAs (Decidable (_ <+: _))

def Distinct (x y : Principal) : Prop :=
  effectiveID x ≠ effectiveID y ∧ ¬ Continues (effectiveID x) (effectiveID y) ∧
    ¬ Continues (effectiveID y) (effectiveID x)

/-- One of them is anonymous and the other is not, or both are named and their IDs differ. -/
def ToldApart (a b : Option Principal) : Prop :=
  a.all Principal.isAnonymous ≠ b.all Principal.isAnonymous ∨ ∃ x y, a = some x ∧ b = some y ∧
    x.isAnonymous = false ∧ y.isAnonymous = false ∧ Distinct x y

end Callers

section Texts

theorem keyText_of_cacheable {r : Request} (cacheable : r.cacheable = true) :
    keyText r = principalClass r.principal ++
      (bytes "\x00GET\x00" ++ (r.url.path ++ 0 :: normalizeQuery r.rawQuery)) := by
  have framed : bytes "\x00GET\x00" = 0 :: bytes "GET" ++ [0] := by decide
  rw [keyText, method_of_cacheable cacheable, framed]
  simp

theorem principalClass_some {p : Principal} (named : p.isAnonymous = false) :
    principalClass (some p) = bytes "principal:" ++ effectiveID p := by
  have unknown : bytes "principal:_unknown" = bytes "principal:" ++ bytes "_unknown" := by decide
  by_cases idless : p.id = []
  · simp [principalClass, named, idless, effectiveID, unknown]
  · simp [principalClass, named, idless, effectiveID]

theorem principalClass_anonymous {a : Option Principal}
    (unnamed : a.all Principal.isAnonymous = true) : principalClass a = bytes "anonymous" := by
  cases a with
  | none => rfl
  | some p => exact if_pos unnamed

/-- A key text with one ID read as a key text with a longer one. -/
theorem continues_of_append {first more left right : Bytes} (longer : more ≠ [])
    (same : bytes "\x00GET\x00" ++ left = more ++ (bytes "\x00GET\x00" ++ right)) :
    Continues first (first ++ more) := by
  have framed : bytes "\x00GET\x00" = [0, 71, 69, 84, 0] := by decide
  rw [framed] at same
  unfold Continues
  rw [framed, List.append_assoc, List.prefix_append_right_inj]
  -- Up to the method, every byte of the longer ID is one of the separator and the method.
  match more, longer with
  | [a], _ => simp at same
  | [a, b], _ => simp at same
  | [a, b, c], _ => simp at same
  | [a, b, c, d], _ =>
    simp only [List.cons_append, List.nil_append, List.cons.injEq] at same
    obtain ⟨rfl, rfl, rfl, rfl, -⟩ := same
    simp
  | a :: b :: c :: d :: e :: rest, _ =>
    simp only [List.cons_append, List.nil_append, List.cons.injEq] at same
    obtain ⟨rfl, rfl, rfl, rfl, rfl, -⟩ := same
    simp

/-- Key texts agree only if the IDs do or one continues the other. -/
theorem same_text_cases {first second left right : Bytes}
    (same : first ++ (bytes "\x00GET\x00" ++ left) = second ++ (bytes "\x00GET\x00" ++ right)) :
    first = second ∨ Continues first second ∨ Continues second first := by
  rcases List.append_eq_append_iff.mp same with ⟨more, rfl, rest⟩ | ⟨more, rfl, rest⟩
  · by_cases longer : more = []
    · exact .inl (by simp [longer])
    · exact .inr (.inl (continues_of_append longer rest))
  · by_cases longer : more = []
    · exact .inl (by simp [longer])
    · exact .inr (.inr (continues_of_append longer rest))

/-- The first NUL ends a component that has none. -/
theorem split_at_nul {first second left right : Bytes} (plain : 0 ∉ first) (plain' : 0 ∉ second)
    (same : first ++ 0 :: left = second ++ 0 :: right) : first = second ∧ left = right := by
  have front : ∀ {text rest : Bytes}, 0 ∉ text → (text ++ 0 :: rest).takeWhile (· ≠ 0) = text := by
    intro text rest plain
    rw [List.takeWhile_append_of_pos]
    · simp
    · intro byte member
      exact decide_eq_true fun zero => plain (zero ▸ member)
  have fronts : first = second := by
    rw [← @front first left plain, ← @front second right plain', same]
  subst fronts
  exact ⟨rfl, List.cons_inj_right 0 |>.mp (List.append_cancel_left same)⟩

theorem anonymous_text_ne {left right : Bytes} :
    bytes "anonymous" ++ left ≠ bytes "principal:" ++ right := by
  have head : bytes "anonymous" = 97 :: bytes "nonymous" := by decide
  have other : bytes "principal:" = 112 :: bytes "rincipal:" := by decide
  rw [head, other]
  simp

end Texts

section Collisions

/-- A request for a path that gets to the cache. -/
def getPath (path : Bytes) (principal : Option Principal) : Request where
  url := ⟨path, []⟩
  principal := principal
  requestType := some .landing

theorem getPath_cacheable (path : Bytes) (principal : Option Principal) :
    (getPath path principal).cacheable = true := by
  simp [getPath, Request.cacheable, shouldCache]

theorem keyText_getPath {p : Principal} (named : p.isAnonymous = false) (path : Bytes) :
    keyText (getPath path (some p)) =
      bytes "principal:" ++ effectiveID p ++ bytes "\x00GET\x00" ++ path ++ [0] := by
  rw [keyText_of_cacheable (getPath_cacheable path _)]
  simp [getPath, principalClass_some named, normalizeQuery]

/-- Where the first ID is continued by the second, a decoded path makes up the difference. -/
theorem collision_of_continues {x y : Principal} (named_x : x.isAnonymous = false)
    (named_y : y.isAnonymous = false) (continues : Continues (effectiveID x) (effectiveID y)) :
    ∃ path, keyText (getPath path (some x)) = keyText (getPath [] (some y)) := by
  obtain ⟨rest, split⟩ := continues
  have framed : bytes "\x00GET\x00" = [0] ++ bytes "GET\x00" := by decide
  refine ⟨rest ++ bytes "GET\x00", ?_⟩
  rw [keyText_getPath named_x, keyText_getPath named_y]
  calc bytes "principal:" ++ effectiveID x ++ bytes "\x00GET\x00" ++ (rest ++ bytes "GET\x00") ++ [0]
      = bytes "principal:" ++ (effectiveID x ++ bytes "\x00GET\x00" ++ rest) ++ bytes "GET\x00" ++
          [0] := by simp
    _ = bytes "principal:" ++ (effectiveID y ++ [0]) ++ bytes "GET\x00" ++ [0] := by rw [split]
    _ = bytes "principal:" ++ effectiveID y ++ bytes "\x00GET\x00" ++ [] ++ [0] := by
      simp [framed]

theorem collision {x y : Principal} (named_x : x.isAnonymous = false)
    (named_y : y.isAnonymous = false) (indistinct : ¬ Distinct x y) :
    ∃ left right, keyText (getPath left (some x)) = keyText (getPath right (some y)) := by
  by_cases same : effectiveID x = effectiveID y
  · exact ⟨[], [], by rw [keyText_getPath named_x, keyText_getPath named_y, same]⟩
  · by_cases forth : Continues (effectiveID x) (effectiveID y)
    · obtain ⟨path, texts⟩ := collision_of_continues named_x named_y forth
      exact ⟨path, [], texts⟩
    · have back : Continues (effectiveID y) (effectiveID x) := by
        by_contra apart
        exact indistinct ⟨same, forth, apart⟩
      obtain ⟨path, texts⟩ := collision_of_continues named_y named_x back
      exact ⟨[], path, texts.symm⟩

theorem text_ne_of_distinct {q r : Request} {x y : Principal} (cacheable_q : q.cacheable = true)
    (cacheable_r : r.cacheable = true) (principal_q : q.principal = some x)
    (principal_r : r.principal = some y) (named_x : x.isAnonymous = false)
    (named_y : y.isAnonymous = false) (distinct : Distinct x y) : keyText q ≠ keyText r := by
  intro same
  rw [keyText_of_cacheable cacheable_q, keyText_of_cacheable cacheable_r, principal_q, principal_r,
    principalClass_some named_x, principalClass_some named_y, List.append_assoc, List.append_assoc,
    List.append_cancel_left_eq] at same
  rcases same_text_cases same with equal | forth | back
  · exact distinct.1 equal
  · exact distinct.2.1 forth
  · exact distinct.2.2 back

/-- The texts of somebody anonymous and somebody who is not differ. -/
theorem text_ne_of_anonymous {q r : Request} {y : Principal} (cacheable_q : q.cacheable = true)
    (cacheable_r : r.cacheable = true) (unnamed : q.principal.all Principal.isAnonymous = true)
    (principal_r : r.principal = some y) (named : y.isAnonymous = false) :
    keyText q ≠ keyText r := by
  rw [keyText_of_cacheable cacheable_q, keyText_of_cacheable cacheable_r, principal_r,
    principalClass_anonymous unnamed, principalClass_some named, List.append_assoc]
  exact anonymous_text_ne

theorem named_of_all {a : Option Principal} (named : a.all Principal.isAnonymous = false) :
    ∃ p, a = some p ∧ p.isAnonymous = false := by
  cases a with
  | none => cases named
  | some p => exact ⟨p, rfl, named⟩

theorem text_ne_of_toldApart {q r : Request} (cacheable_q : q.cacheable = true)
    (cacheable_r : r.cacheable = true) (apart : ToldApart q.principal r.principal) :
    keyText q ≠ keyText r := by
  rcases apart with mixed | ⟨x, y, principal_q, principal_r, named_x, named_y, distinct⟩
  · cases unnamed : q.principal.all Principal.isAnonymous with
    | true =>
      obtain ⟨y, principal_r, named⟩ := named_of_all (a := r.principal) (by simpa [unnamed] using mixed)
      exact text_ne_of_anonymous cacheable_q cacheable_r unnamed principal_r named
    | false =>
      obtain ⟨x, principal_q, named⟩ := named_of_all unnamed
      exact (text_ne_of_anonymous cacheable_r cacheable_q (by simpa [unnamed] using mixed) principal_q
        named).symm
  · exact text_ne_of_distinct cacheable_q cacheable_r principal_q principal_r named_x named_y distinct

/-- What requests with one key have in common: the principal if the key can tell theirs apart, and
then the decoded path and the normal form of the query. -/
theorem components_of_key {κ : Type} {hash : Bytes → κ} (injective : Function.Injective hash)
    {q r : Request} (cacheable_q : q.cacheable = true) (cacheable_r : r.cacheable = true)
    (plain_q : 0 ∉ q.url.path) (plain_r : 0 ∉ r.url.path)
    (principals : q.principal = r.principal ∨ ToldApart q.principal r.principal)
    (keys : cacheKey hash q = cacheKey hash r) :
    q.principal = r.principal ∧ q.url.path = r.url.path ∧
      normalizeQuery q.rawQuery = normalizeQuery r.rawQuery := by
  have texts : keyText q = keyText r := injective keys
  have principal : q.principal = r.principal := principals.resolve_right fun apart =>
    text_ne_of_toldApart cacheable_q cacheable_r apart texts
  rw [keyText_of_cacheable cacheable_q, keyText_of_cacheable cacheable_r, principal,
    List.append_cancel_left_eq, List.append_cancel_left_eq] at texts
  exact ⟨principal, split_at_nul plain_q plain_r texts⟩

end Collisions

section Partition
variable {κ : Type} {hash : Bytes → κ}

/-- The callers whose requests the cache keeps apart. -/
def Separable (a b : Option Caller) : Prop :=
  anonymous a ∨ anonymous b ∨ ∃ x y, a = some x ∧ b = some y ∧
    ((x.method = y.method ∧ x.principal.id = y.principal.id) ∨ Distinct x.principal y.principal)

theorem named_of_not_anonymous {c : Option Caller} (named : anonymous c = false) :
    ∃ caller, c = some caller ∧ caller.principal.isAnonymous = false := by
  cases c with
  | none => cases named
  | some caller => exact ⟨caller, rfl, by simpa [anonymous] using named⟩

theorem all_of_anonymous {a : Option Principal} {c : Option Caller}
    (principal : a = c.map Caller.principal) (unnamed : anonymous c = true) :
    a.all Principal.isAnonymous = true := by
  rw [principal, Option.all_map]
  exact unnamed

theorem samePrincipal_some {x y : Caller} : SamePrincipal (some x) (some y) ↔
    (x.principal.isAnonymous ∧ y.principal.isAnonymous) ∨
      (x.method = y.method ∧ x.principal.id = y.principal.id) := by
  simp [SamePrincipal, anonymous]

/-- One pair of paths that get one key is enough. -/
theorem not_partitioned {x y : Caller} {left right : Bytes}
    (texts : keyText (getPath left (some x.principal)) = keyText (getPath right (some y.principal)))
    (different : ¬ SamePrincipal (some x) (some y)) : ¬ Partitioned hash (some x) (some y) :=
  fun partitioned => different (partitioned _ _ (getPath_cacheable left _)
    (getPath_cacheable right _) rfl rfl (congrArg hash texts))

/-- Keys are partitioned by principal for exactly the separable ones. -/
theorem partitioned_iff (injective : Function.Injective hash) (a b : Option Caller) :
    Partitioned hash a b ↔ Separable a b := by
  constructor
  · intro partitioned
    by_contra inseparable
    simp only [Separable, not_or, Bool.not_eq_true] at inseparable
    obtain ⟨named_a, named_b, indistinct⟩ := inseparable
    obtain ⟨x, rfl, named_x⟩ := named_of_not_anonymous named_a
    obtain ⟨y, rfl, named_y⟩ := named_of_not_anonymous named_b
    have apart : ¬ Distinct x.principal y.principal := fun distinct =>
      indistinct ⟨x, y, rfl, rfl, .inr distinct⟩
    obtain ⟨left, right, texts⟩ := collision named_x named_y apart
    refine not_partitioned texts (fun same => ?_) partitioned
    rcases samePrincipal_some.mp same with ⟨unnamed, -⟩ | same
    · exact absurd unnamed (by simp [named_x])
    · exact indistinct ⟨x, y, rfl, rfl, .inl same⟩
  · intro separable q r cacheable_q cacheable_r principal_q principal_r keys
    have texts : keyText q = keyText r := injective keys
    cases named_a : anonymous a <;> cases named_b : anonymous b
    · obtain ⟨x, rfl, named_x⟩ := named_of_not_anonymous named_a
      obtain ⟨y, rfl, named_y⟩ := named_of_not_anonymous named_b
      simp only [Separable, named_a, named_b, Bool.false_eq_true, false_or] at separable
      obtain ⟨_, _, x_eq, y_eq, same | distinct⟩ := separable
      · exact .inr ⟨_, _, x_eq, y_eq, same⟩
      · cases x_eq
        cases y_eq
        exact absurd texts (text_ne_of_distinct cacheable_q cacheable_r principal_q principal_r
          named_x named_y distinct)
    · obtain ⟨x, rfl, named_x⟩ := named_of_not_anonymous named_a
      exact absurd texts.symm (text_ne_of_anonymous cacheable_r cacheable_q
        (all_of_anonymous principal_r named_b) principal_q named_x)
    · obtain ⟨y, rfl, named_y⟩ := named_of_not_anonymous named_b
      exact absurd texts (text_ne_of_anonymous cacheable_q cacheable_r
        (all_of_anonymous principal_q named_a) principal_r named_y)
    · exact .inl ⟨named_a, named_b⟩

end Partition

section Samples

def serviceKey (name : String) : Caller where
  method := .apiKey
  principal := { id := bytes ("apikey:" ++ name), type := "service" }

def withPassword : InboundRequest where
  header := [("Authorization", "Basic YWxpY2U6c2VjcmV0")]

def withToken : InboundRequest where
  header := [("Authorization", "Bearer token")]

/-- A token for the subject alice. -/
def tokens : BearerProvider where
  parse _ := .ok [("sub", .str "alice")]

/-- A user alice with a password. -/
def passwords : BasicAuthProvider where
  users name := if name = bytes "alice" then some { passwordHash := [] } else none
  decodeBase64 _ := some (bytes "alice:secret")
  matchesHash _ _ := true

def user (id : String) : Principal where
  id := bytes id
  type := "user"

end Samples

theorem service_keys_partitioned : Partitioned id (some (serviceKey "a")) (some (serviceKey "b")) :=
  (partitioned_iff Function.injective_id _ _).mpr
    (.inr (.inr ⟨_, _, rfl, rfl, .inr ⟨by decide, by decide, by decide⟩⟩))

/-- Two providers make principals with one ID, and they share keys. So do somebody without an
ID and somebody with the ID that stands for it, and a NUL byte in an ID reads as a separator. -/
theorem distinct_principals_share_keys :
    (∃ x y, tokens.authenticate withToken = .authenticated x ∧
      passwords.authenticate withPassword = .authenticated y ∧
      ¬ Partitioned id (some ⟨.bearer, x⟩) (some ⟨.basic, y⟩)) ∧
    ¬ Partitioned id (some ⟨.bearer, user ""⟩) (some ⟨.bearer, user "_unknown"⟩) ∧
    ¬ Partitioned id (some ⟨.basic, user "eve"⟩)
      (some ⟨.basic, user "eve\x00GET\x00/collections"⟩) := by
  refine ⟨⟨_, _, rfl, rfl, ?_⟩, ?_, ?_⟩
  · apply @not_partitioned _ _ _ _ (bytes "/collections") (bytes "/collections")
    · decide +kernel
    · rw [samePrincipal_some]
      decide +kernel
  · apply @not_partitioned _ _ _ _ (bytes "/collections") (bytes "/collections")
    · decide +kernel
    · rw [samePrincipal_some]
      decide +kernel
  · apply @not_partitioned _ _ _ _ (bytes "/collections\x00GET\x00/collections")
      (bytes "/collections")
    · decide +kernel
    · rw [samePrincipal_some]
      decide +kernel

end CacheKeys
