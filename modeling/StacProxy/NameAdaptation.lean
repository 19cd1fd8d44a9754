import StacProxy.RequestPath
import StacProxy.SearchPaths

/-!
# The names a fan-out sends

A federated collection is registered as prefix and name. Lookups of a single resource take the
prefix off the names that have it; the fan-out takes that many bytes off every longer name,
after the origin's mapping, and in a slice its goroutines share. Here what each origin is sent
is compared with the requested names, mapped and without the prefix.
-/

namespace NameAdaptation

open CollectionRouting FanOut Interleaving

/-- The requested name with the origin's mapping applied and then its prefix taken off, if the
name has it. -/
def wireName (o : Origin) (coll : Name) : Name :=
  RequestPath.trimPrefix o.collectionPrefix (mappedName o coll)

/-- The length of a name tells whether it has the prefix: a longer name has it, and any other is
not the prefix itself, unless both are empty. -/
def LengthTells (pre name : Name) : Prop :=
  if pre.length < name.length then pre <+: name else name = [] ∨ name ≠ pre

/-- The length test is right about every name, and no origin is misled by what another origin
without a mapping has left of a name in the shared slice. -/
def AdaptSafe (routed : List Origin) (collections : List Name) : Prop :=
  ∀ coll ∈ collections, ∀ o ∈ routed, LengthTells o.collectionPrefix (mappedName o coll) ∧
    ∀ w ∈ routed, w ≠ o → w.collectionMapping = [] →
      adaptName o (cutPrefix w.collectionPrefix coll) = adaptName o coll

instance (pre name : Name) : Decidable (LengthTells pre name) := by
  unfold LengthTells
  infer_instance

instance (routed : List Origin) (collections : List Name) :
    Decidable (AdaptSafe routed collections) := by
  unfold AdaptSafe
  infer_instance

section Names
variable {o : Origin} {pre name coll : Name}

theorem trimPrefix_eq (pre name : Name) : RequestPath.trimPrefix pre name =
    if pre <+: name then name.drop pre.length else name := by
  simp [RequestPath.trimPrefix]

theorem cutPrefix_eq_trimPrefix_iff :
    cutPrefix pre name = RequestPath.trimPrefix pre name ↔ LengthTells pre name := by
  rw [cutPrefix, trimPrefix_eq, LengthTells]
  by_cases longer : pre.length < name.length
  · rw [if_pos longer, if_pos longer]
    split
    · rename_i registered
      simp [registered]
    · rename_i other
      refine iff_of_false (fun cut => ?_) other
      -- Only the empty prefix leaves a longer name as it is, and every name starts with that.
      have lengths := congrArg List.length cut
      rw [List.length_drop] at lengths
      obtain rfl : pre = [] := List.eq_nil_of_length_eq_zero (by omega)
      exact other List.nil_prefix
  · rw [if_neg longer, if_neg longer]
    split
    · rename_i registered
      obtain rfl : pre = name := registered.eq_of_length_le (by omega)
      simp
    · rename_i other
      have apart : name ≠ pre := by
        rintro rfl
        exact other List.prefix_rfl
      simp [apart]

theorem adaptName_eq_wireName_iff : adaptName o coll = wireName o coll ↔
    LengthTells o.collectionPrefix (mappedName o coll) :=
  cutPrefix_eq_trimPrefix_iff

/-- The routing compares with the name that is the prefix as it is, and a lookup takes it off. No
other name is two. -/
theorem originName_eq_wireName_iff : originName o coll = wireName o coll ↔
    (mappedName o coll = o.collectionPrefix → mappedName o coll = []) := by
  rw [originName, stripPrefix, wireName, trimPrefix_eq]
  by_cases registered : o.collectionPrefix <+: mappedName o coll
  · by_cases longer : o.collectionPrefix.length < (mappedName o coll).length
    · have other : mappedName o coll ≠ o.collectionPrefix := by
        intro same
        simp [same] at longer
      simp [registered, longer, other]
    · have same := registered.eq_of_length_le (by omega)
      simp [same]
  · have other : mappedName o coll ≠ o.collectionPrefix := by
      intro same
      simp [same] at registered
    simp [registered, other]

theorem originName_eq_wireName (tells : LengthTells o.collectionPrefix (mappedName o coll)) :
    originName o coll = wireName o coll := by
  rw [originName_eq_wireName_iff]
  intro same
  rw [LengthTells, if_neg (by simp [same])] at tells
  exact tells.resolve_right (absurd same)

end Names

section Schedules
variable {routed : List Origin} {collections : List Name} {o : Origin} {coll : Name}

theorem AdaptSafe.fanOutSafe (safe : AdaptSafe routed collections) :
    FanOutSafe routed collections := by
  intro coll requested o member
  obtain ⟨tells, after⟩ := safe coll requested o member
  have own : adaptName o coll = originName o coll := by
    rw [originName_eq_wireName tells, adaptName_eq_wireName_iff.mpr tells]
  exact ⟨own, fun w listed other plain => (after w listed other plain).trans own⟩

theorem AdaptSafe.map_originName (safe : AdaptSafe routed collections) (member : o ∈ routed) :
    collections.map (originName o) = collections.map (wireName o) :=
  List.map_congr_left fun coll requested =>
    originName_eq_wireName (safe coll requested o member).1

/-- However the goroutines of a fan-out are scheduled, each origin is sent the requested names
mapped and without its prefix: this is so exactly under `AdaptSafe`. -/
theorem sent_names_iff (routed : List Origin) (collections : List Name) :
    (∀ schedule : List Origin, (∀ w ∈ schedule, w ∈ routed) → ∀ o ∈ routed, ∀ names,
      (run act (initial collections) schedule).threads o = .sent names →
        names = collections.map (wireName o)) ↔ AdaptSafe routed collections := by
  constructor
  · intro always coll requested o member
    have first : adaptName o coll = wireName o coll := by
      obtain ⟨schedule, within, -, sent⟩ :=
        @exists_run_alone_first o routed collections member
      exact List.map_inj_left.mp (always schedule within o member _ sent) coll requested
    refine ⟨adaptName_eq_wireName_iff.mp first, fun w listed other plain => ?_⟩
    obtain ⟨schedule, within, -, sent⟩ :=
      @exists_run_second o routed collections w member listed other plain
    have second := List.map_inj_left.mp (always schedule within o member _ sent) coll requested
    rw [first, ← second]
  · intro safe schedule within o member names sent
    rw [sent_of_safe safe.fanOutSafe within member sent, safe.map_originName member]

end Schedules

section Sample
open SearchPaths

def twin : Origin := { prefixed with id := "c" }

/-- Two origins with one prefix are sent the same name, whoever cuts it first. -/
theorem twin_sent_listed_name :
    (run act (initial [bytes "a-x"]) (List.replicate 5 prefixed ++ List.replicate 5 twin)).threads
      twin = .sent [bytes "x"] ∧ [bytes "x"] = [bytes "a-x"].map (wireName twin) := by
  have sent : (run act (initial [bytes "a-x"])
      (List.replicate 5 prefixed ++ List.replicate 5 twin)).threads twin = .sent [bytes "x"] := rfl
  exact ⟨sent, (sent_names_iff [prefixed, twin] [bytes "a-x"]).mpr (by decide) _ (by decide) twin
    (by decide) _ sent⟩

/-- Bytes are cut off a name without the prefix, off a name that is not the origin's own because
another origin has cut it, and none off the prefix itself. -/
theorem other_names_sent :
    ((run act (initial [bytes "sentinel"]) (List.replicate 5 prefixed)).threads prefixed =
        .sent [bytes "ntinel"] ∧ wireName prefixed (bytes "sentinel") = bytes "sentinel") ∧
    ((run act (initial [bytes "a-x"])
        (List.replicate 5 prefixed ++ List.replicate 2 unlisted)).threads unlisted =
        .sent [bytes "x"] ∧ wireName unlisted (bytes "a-x") = bytes "a-x") ∧
    (run act (initial [bytes "a-"]) (List.replicate 4 prefixed)).threads prefixed =
        .sent [bytes "a-"] ∧ wireName prefixed (bytes "a-") = [] :=
  ⟨⟨rfl, by decide⟩, ⟨rfl, by decide⟩, rfl, by decide⟩

end Sample

end NameAdaptation
