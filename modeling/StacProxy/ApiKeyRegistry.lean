import Mathlib.Data.List.Basic
import StacProxy.Authentication
import StacProxy.KeyedMap
import StacProxy.Transcript

/-!
# The registry of API keys

One map holds the keys of the keys file and those added directly. Loading a file files the
enabled entries and touches nothing else, at construction and at every reload. So each key
has a history of its own, and a reload that no longer lists a key, or lists it as disabled,
leaves it as it was.
-/

namespace ApiKeyRegistry

open Authentication RequestPath

/-- An entry of a keys file, with its key in plain text. -/
abbrev FileEntry := Bytes × APIKeyEntry

/-- What reading a keys file and unmarshalling it gave. -/
abbrev KeysFile := Except String (List FileEntry)

def usable (entry : FileEntry) : Bool := entry.2.enabled && entry.1 ≠ []

def loadKeysFromFile (p : APIKeyProvider) : KeysFile → Except String APIKeyProvider
  | .error message => .error message
  | .ok listed => .ok
      { p with
        keys := (listed.filter usable).foldl
          (fun keys entry => keys.insert (p.digest entry.1) entry.2) p.keys }

/-- Direct keys are filed after those of the file, which is there only if it is configured. -/
def newProvider (cfg : APIKeyConfig) (keysFile : Option KeysFile) :
    Except String APIKeyProvider := do
  let bare := newAPIKeyProvider { cfg with keys := [] }
  let p ← match keysFile with
    | none => pure bare
    | some file => (loadKeysFromFile bare file).mapError ("failed to load keys file: " ++ ·)
  return { p with
    keys := (cfg.keys.filter (·.2.enabled)).foldl
      (fun keys entry => keys.insert (p.digest entry.1) entry.2) p.keys }

/-- A disabled entry is stored as it is. -/
def addKey (p : APIKeyProvider) (key : Bytes) (entry : APIKeyEntry) : APIKeyProvider :=
  { p with keys := p.keys.insert (p.digest key) entry }

def removeKey (p : APIKeyProvider) (key : Bytes) : APIKeyProvider :=
  { p with keys := p.keys.erase (p.digest key) }

def reloadKeys (p : APIKeyProvider) (file : KeysFile) : Except String APIKeyProvider :=
  loadKeysFromFile p file

inductive Op where
  | addKey (key : Bytes) (entry : APIKeyEntry)
  | removeKey (key : Bytes)
  | reloadKeys (file : KeysFile)

/-- A reload that fails leaves the registry as it is and returns its error. -/
def step (p : APIKeyProvider) : Op → APIKeyProvider × Option String
  | .addKey key entry => (addKey p key entry, none)
  | .removeKey key => (removeKey p key, none)
  | .reloadKeys file => match reloadKeys p file with
    | .ok loaded => (loaded, none)
    | .error message => (p, some message)

def after (p : APIKeyProvider) (ops : List Op) : APIKeyProvider := Transcript.final step p ops

/-! ## The history of one key -/

def lookup (p : APIKeyProvider) (key : Bytes) : Option APIKeyEntry := p.keys[p.digest key]?

/-- The entry a file loads for a key: the last enabled one. -/
def loaded (listed : List FileEntry) (key : Bytes) : Option APIKeyEntry :=
  ((listed.filter usable).reverse.find? (·.1 = key)).map (·.2)

/-- What an operation makes of the entry of one key. -/
def entryStep (key : Bytes) (entry : Option APIKeyEntry) : Op → Option APIKeyEntry
  | .addKey k new => if k = key then some new else entry
  | .removeKey k => if k = key then none else entry
  | .reloadKeys (.ok listed) => (loaded listed key).or entry
  | .reloadKeys (.error _) => entry

/-- A key that a request presents is let in. -/
def Authenticates (p : APIKeyProvider) (key : Bytes) : Prop :=
  key ≠ [] ∧ ∃ entry, lookup p key = some entry ∧ entry.enabled

instance (p : APIKeyProvider) (key : Bytes) : Decidable (Authenticates p key) :=
  decidable_of_iff (key ≠ [] ∧ (lookup p key).any (·.enabled)) <| by
    simp [Authenticates, Option.any_eq_true]

/-- A request is authenticated exactly by the key it presents. -/
theorem authenticate_iff (p : APIKeyProvider) (r : InboundRequest) :
    (∃ principal, p.authenticate r = .authenticated principal) ↔
      Authenticates p (p.presentedKey r) := by
  unfold APIKeyProvider.authenticate Authenticates lookup
  by_cases bare : p.presentedKey r = []
  · simp [bare]
  · cases found : p.keys[p.digest (p.presentedKey r)]? with
    | none => simp [bare]
    | some entry => cases enabled : entry.enabled <;> simp [bare, enabled]

/-- The key is listed, and enabled. -/
def Listed (listed : List FileEntry) (key : Bytes) : Prop :=
  key ≠ [] ∧ ∃ entry ∈ listed, entry.1 = key ∧ entry.2.enabled

instance (listed : List FileEntry) (key : Bytes) : Decidable (Listed listed key) :=
  inferInstanceAs (Decidable (_ ∧ _))

section Histories
variable {p : APIKeyProvider} {listed : List FileEntry} {key : Bytes}

theorem enabled_of_loaded {entry : APIKeyEntry} (found : loaded listed key = some entry) :
    Listed listed key ∧ entry.enabled := by
  obtain ⟨⟨k, e⟩, first, rfl⟩ := Option.map_eq_some_iff.mp found
  obtain rfl : k = key := by simpa using List.find?_some first
  have member := List.mem_reverse.mp (List.mem_of_find?_eq_some first)
  obtain ⟨there, enabled, nonempty⟩ : (k, e) ∈ listed ∧ e.enabled ∧ k ≠ [] := by
    simpa [usable] using member
  exact ⟨⟨nonempty, (k, e), there, rfl, enabled⟩, enabled⟩

theorem loaded_eq_none_iff : loaded listed key = none ↔ ¬ Listed listed key := by
  constructor
  · rintro unloaded ⟨nonempty, entry, there, rfl, enabled⟩
    have passed := List.find?_eq_none.mp (Option.map_eq_none_iff.mp unloaded) entry
    simp [usable, there, enabled, nonempty] at passed
  · intro unlisted
    cases found : loaded listed key with
    | none => rfl
    | some entry => exact absurd (enabled_of_loaded found).1 unlisted

@[simp] theorem step_digest (p : APIKeyProvider) (op : Op) : (step p op).1.digest = p.digest := by
  cases op with
  | addKey | removeKey => rfl
  | reloadKeys file => cases file <;> rfl

/-- Filing entries under their digests changes the last one filed under a key. -/
theorem getElem?_filed (injective : Function.Injective p.digest) (entries : List FileEntry)
    (key : Bytes) :
    (entries.foldl (fun keys entry => keys.insert (p.digest entry.1) entry.2) p.keys)[p.digest
        key]? = ((entries.reverse.find? (·.1 = key)).map (·.2)).or (lookup p key) := by
  rw [KeyedMap.getElem?_foldl_insert]
  simp only [injective.eq_iff]
  rfl

/-- Each key has a history of its own. -/
theorem lookup_step (injective : Function.Injective p.digest) (key : Bytes) (op : Op) :
    lookup (step p op).1 key = entryStep key (lookup p key) op := by
  cases op with
  | addKey k entry =>
    simp [lookup, step, addKey, entryStep, Std.ExtTreeMap.getElem?_insert, injective.eq_iff]
  | removeKey k =>
    simp [lookup, step, removeKey, entryStep, Std.ExtTreeMap.getElem?_erase, injective.eq_iff]
  | reloadKeys file =>
    cases file with
    | error message => rfl
    | ok listed => exact getElem?_filed injective _ key

/-- After a reload a key authenticates if the file lists it as enabled, or if it did before. -/
theorem authenticates_reload (injective : Function.Injective p.digest) (listed : List FileEntry)
    (key : Bytes) :
    Authenticates (step p (.reloadKeys (.ok listed))).1 key ↔
      Listed listed key ∨ Authenticates p key := by
  unfold Authenticates
  rw [lookup_step injective, entryStep]
  cases found : loaded listed key with
  | none =>
    have unlisted := loaded_eq_none_iff.mp found
    simp [unlisted]
  | some entry =>
    obtain ⟨there, enabled⟩ := enabled_of_loaded found
    simp [there, enabled, there.1]

end Histories

/-! ## Direct keys -/

section Direct
variable (cfg : APIKeyConfig) (ops : List Op) (key : Bytes)

def Op.adds (key : Bytes) : Op → Bool
  | .addKey k _ => k = key
  | _ => false

/-- The key entered the registry by the configuration or by `AddKey`. -/
def Direct : Prop :=
  (∃ entry ∈ cfg.keys, entry.1 = key ∧ entry.2.enabled) ∨ ∃ op ∈ ops, op.adds key

instance : Decidable (Direct cfg ops key) := inferInstanceAs (Decidable (_ ∨ _))

def directStep (key : Bytes) (entry : Option APIKeyEntry) : Op → Option APIKeyEntry
  | .addKey k new => if k = key then some new else entry
  | .removeKey k => if k = key then none else entry
  | .reloadKeys _ => entry

/-- The entry under which a key was last added directly, unless it was removed since. -/
def directEntry : Option APIKeyEntry :=
  ops.foldl (directStep key)
    (((cfg.keys.filter (·.2.enabled)).reverse.find? (·.1 = key)).map (·.2))

end Direct

section Construction
variable {cfg : APIKeyConfig} {keysFile : Option KeysFile} {p : APIKeyProvider}

/-- Without a keys file the provider is the one of the direct keys. -/
theorem newProvider_none : newProvider cfg none = .ok (newAPIKeyProvider cfg) := rfl

theorem newProvider_spec (built : newProvider cfg keysFile = .ok p) :
    p.digest = cfg.digest ∧ (Function.Injective cfg.digest → ∀ key,
      ∃ filed, lookup p key =
        (((cfg.keys.filter (·.2.enabled)).reverse.find? (·.1 = key)).map (·.2)).or filed) := by
  have shape : ∃ loaded : APIKeyProvider, loaded.digest = cfg.digest ∧ p = { loaded with
      keys := (cfg.keys.filter (·.2.enabled)).foldl
        (fun keys entry => keys.insert (loaded.digest entry.1) entry.2) loaded.keys } := by
    cases keysFile with
    | none =>
      cases built
      exact ⟨newAPIKeyProvider { cfg with keys := [] }, rfl, rfl⟩
    | some file =>
      cases file with
      | error message => cases built
      | ok listed =>
        cases built
        exact ⟨_, rfl, rfl⟩
  obtain ⟨loaded, same, rfl⟩ := shape
  refine ⟨same, fun injective key => ⟨lookup loaded key, ?_⟩⟩
  exact getElem?_filed (same ▸ injective) _ key

end Construction

/-! ## Reloads -/

section Reloads
variable {cfg : APIKeyConfig} {keysFile : Option KeysFile} {p : APIKeyProvider} {key : Bytes}

theorem after_digest (p : APIKeyProvider) (ops : List Op) :
    (after p ops).digest = p.digest := by
  have kept : ∀ q op, q.digest = p.digest → (step q op).1.digest = p.digest := by
    intro q op same
    rw [step_digest, same]
  exact Transcript.invariant kept rfl ops

/-- The registry has an enabled entry for a key that was last added with one. -/
def Held (key : Bytes) (p : APIKeyProvider) (direct : Option APIKeyEntry) : Prop :=
  ∀ added, direct = some added → added.enabled →
    ∃ entry, lookup p key = some entry ∧ entry.enabled

theorem Held.step {direct : Option APIKeyEntry} (injective : Function.Injective p.digest)
    (held : Held key p direct) (op : Op) :
    Held key (step p op).1 (directStep key direct op) := by
  intro added last enabled
  rw [lookup_step injective]
  cases op with
  | addKey k entry =>
    simp only [entryStep, directStep] at last ⊢
    split at last
    · rename_i same
      exact ⟨added, by rw [if_pos same, last], enabled⟩
    · rename_i other
      rw [if_neg other]
      exact held added last enabled
  | removeKey k =>
    simp only [entryStep, directStep] at last ⊢
    split at last
    · cases last
    · rename_i other
      rw [if_neg other]
      exact held added last enabled
  | reloadKeys file =>
    cases file with
    | error message => exact held added last enabled
    | ok listed =>
      -- An entry the file puts in the place of the direct one is enabled too.
      simp only [entryStep]
      cases found : loaded listed key with
      | none => exact held added last enabled
      | some entry => exact ⟨entry, rfl, (enabled_of_loaded found).2⟩

theorem Held.after {direct : Option APIKeyEntry} (injective : Function.Injective p.digest)
    (held : Held key p direct) (ops : List Op) :
    Held key (after p ops) (ops.foldl (directStep key) direct) := by
  induction ops generalizing p direct with
  | nil => exact held
  | cons op rest ih => exact ih (by rwa [step_digest]) (held.step injective op)

theorem held_newProvider (built : newProvider cfg keysFile = .ok p)
    (injective : Function.Injective cfg.digest) (ops : List Op) :
    Held key (after p ops) (directEntry cfg ops key) := by
  obtain ⟨same, filed⟩ := newProvider_spec built
  refine Held.after (same ▸ injective) ?_ ops
  intro added last enabled
  obtain ⟨rest, looked⟩ := filed injective key
  exact ⟨added, by rw [looked, last]; rfl, enabled⟩

/-- What a reload is to do for every key: a key that entered the registry from the file only
authenticates if the file that was loaded lists it as enabled, and only then; a direct key that
was not removed authenticates if it is enabled. -/
structure Reloaded (cfg : APIKeyConfig) (ops : List Op) (listed : List FileEntry)
    (p : APIKeyProvider) : Prop where
  fromFile : ∀ key, ¬ Direct cfg ops key → (Authenticates p key ↔ Listed listed key)
  direct : ∀ key added, key ≠ [] → directEntry cfg ops key = some added → added.enabled →
    Authenticates p key

/-- A reload does what it is to do exactly if no key has to go: every key that came from the
file only and authenticates is listed again, and enabled. -/
theorem reloaded_iff (injective : Function.Injective cfg.digest)
    (built : newProvider cfg keysFile = .ok p) (ops : List Op) (listed : List FileEntry) :
    Reloaded cfg ops listed (step (after p ops) (.reloadKeys (.ok listed))).1 ↔
      ∀ key, ¬ Direct cfg ops key → Authenticates (after p ops) key → Listed listed key := by
  have digest_injective : Function.Injective (after p ops).digest := by
    rwa [after_digest, (newProvider_spec built).1]
  constructor
  · intro reloaded key only_file before
    have kept := (authenticates_reload digest_injective listed key).mpr (.inr before)
    exact (reloaded.fromFile key only_file).mp kept
  · intro listed_again
    constructor
    · intro key only_file
      rw [authenticates_reload digest_injective]
      constructor
      · rintro (there | before)
        · exact there
        · exact listed_again key only_file before
      · exact .inl
    · intro key added nonempty last enabled
      obtain ⟨entry, found, entry_enabled⟩ :=
        held_newProvider built injective ops added last enabled
      exact (authenticates_reload digest_injective listed key).mpr
        (.inr ⟨nonempty, entry, found, entry_enabled⟩)

end Reloads

/-- A digest without collisions: every byte as a character. -/
def sampleDigest (key : Bytes) : String := String.ofList (key.map fun b => Char.ofNat b.toNat)

theorem sampleDigest_injective : Function.Injective sampleDigest := by
  intro first second same
  refine List.map_injective_iff.mpr ?_ (String.ofList_injective same)
  intro a b equal
  have read_back : ∀ n < 256, (Char.ofNat n).toNat = n := by decide +kernel
  have values : a.toNat = b.toNat := by
    rw [← read_back a.toNat a.toNat_lt, ← read_back b.toNat b.toNat_lt]
    exact congrArg Char.toNat equal
  exact UInt8.toNat_inj.mp values

def sampleConfig : APIKeyConfig where
  keys := [(bytes "direct", ⟨"ops", [], [], [], true⟩)]
  digest := sampleDigest

def sampleFile (enabled : Bool) : List FileEntry := [(bytes "k1", ⟨"svc", [], [], [], enabled⟩)]

theorem direct_of_sampleConfig {key : Bytes}
    (known : Authenticates (newAPIKeyProvider sampleConfig) key) : key = bytes "direct" := by
  obtain ⟨-, entry, found, -⟩ := known
  have filed : (newAPIKeyProvider sampleConfig).keys =
      (∅ : Std.ExtTreeMap String APIKeyEntry).insert (sampleDigest (bytes "direct"))
        ⟨"ops", [], [], [], true⟩ := rfl
  rw [lookup, filed, Std.ExtTreeMap.getElem?_insert] at found
  split at found
  · rename_i same
    exact (sampleDigest_injective (Std.LawfulEqCmp.eq_of_compare same)).symm
  · simp at found

/-- A file is loaded, and reloaded with its key listed again, beside a direct key. -/
theorem reloaded_listed_again :
    Reloaded sampleConfig [.reloadKeys (.ok (sampleFile true))] (sampleFile true)
      (step (after (newAPIKeyProvider sampleConfig) [.reloadKeys (.ok (sampleFile true))])
        (.reloadKeys (.ok (sampleFile true)))).1 :=
  (reloaded_iff sampleDigest_injective newProvider_none _ _).mpr <| by
    intro key only_file before
    rcases (authenticates_reload sampleDigest_injective _ key).mp before with listed | known
    · exact listed
    · rw [direct_of_sampleConfig known] at only_file
      exact absurd (.inl (by decide +kernel)) only_file

/-- A key that the new file lists as disabled still authenticates. -/
theorem revoked_key_survives_reload :
    ∃ p, newProvider sampleConfig (some (.ok (sampleFile true))) = .ok p ∧
      ¬ Reloaded sampleConfig [] (sampleFile false)
        (step p (.reloadKeys (.ok (sampleFile false)))).1 := by
  refine ⟨_, rfl, fun reloaded => ?_⟩
  have unlisted : ¬ Listed (sampleFile false) (bytes "k1") := by decide +kernel
  have only_file : ¬ Direct sampleConfig [] (bytes "k1") := by decide +kernel
  exact unlisted ((reloaded.fromFile _ only_file).mp (by decide +kernel))

end ApiKeyRegistry
