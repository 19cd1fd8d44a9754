import StacProxy.CollectionRouting
import StacProxy.Interleaving

/-!
# Collection names in the plain fan-out

`fanOutSearch` runs `adaptRequestForOrigin` and the upstream search of every routed origin
in a goroutine of its own. The copy each goroutine makes of the request is shallow, so an
origin without a mapping rewrites the slice of collection names that all of them share.
Reading or writing one slot of the slice is one step.
-/

namespace FanOut

open CollectionRouting Interleaving

/-- Cut off as many bytes as the prefix has from a longer name. -/
def cutPrefix (pre coll : Name) : Name :=
  if pre.length < coll.length then coll.drop pre.length else coll

/-- What becomes of a name that is mapped and then cut. -/
def adaptName (o : Origin) (coll : Name) : Name :=
  cutPrefix o.collectionPrefix (mappedName o coll)

inductive Stage where
  /-- Appending mapped names to a slice of its own. -/
  | mapping (mapped : List Name)
  /-- About to look at slot `i` of the shared slice. -/
  | stripping (i : Nat)
  /-- About to write the rest of `coll` to slot `i`. -/
  | writing (i : Nat) (coll : Name)
  /-- Encoding the shared slice as JSON. -/
  | marshalling (read : List Name)
  | sent (collections : List Name)

def start (o : Origin) : Stage :=
  if o.collectionMapping ≠ [] then .mapping []
  else if o.collectionPrefix ≠ [] then .stripping 0
  else .marshalling []

def act (o : Origin) (slots : List Name) : Stage → List Name × Stage
  | .mapping mapped => match slots[mapped.length]? with
    | some coll => (slots, .mapping (mapped ++ [mappedName o coll]))
    -- The mapped slice is private: cutting and encoding it meets no other goroutine.
    | none => (slots, .sent (mapped.map (cutPrefix o.collectionPrefix)))
  | .stripping i => match slots[i]? with
    | some coll =>
      if o.collectionPrefix.length < coll.length then (slots, .writing i coll)
      else (slots, .stripping (i + 1))
    | none => (slots, .marshalling [])
  | .writing i coll => (slots.set i (coll.drop o.collectionPrefix.length), .stripping (i + 1))
  | .marshalling read => match slots[read.length]? with
    | some coll => (slots, .marshalling (read ++ [coll]))
    | none => (slots, .sent read)
  | .sent collections => (slots, .sent collections)

abbrev State := Interleaving.State Origin (List Name) Stage

def initial (collections : List Name) : State where
  shared := collections
  threads := start

/-- Whatever an origin may find in the slot of a requested collection, it sends its own name
for that collection. -/
def FanOutSafe (routed : List Origin) (collections : List Name) : Prop :=
  ∀ coll ∈ collections, ∀ o ∈ routed, adaptName o coll = originName o coll ∧
    ∀ w ∈ routed, w ≠ o → w.collectionMapping = [] →
      adaptName o (cutPrefix w.collectionPrefix coll) = originName o coll

instance (routed : List Origin) (collections : List Name) :
    Decidable (FanOutSafe routed collections) := by
  unfold FanOutSafe
  infer_instance

section Names
variable {o w : Origin} {pre coll : Name}

@[simp] theorem cutPrefix_nil : cutPrefix [] coll = coll := by
  simp [cutPrefix]

theorem cutPrefix_of_le (short : coll.length ≤ pre.length) : cutPrefix pre coll = coll :=
  if_neg (by omega)

theorem adaptName_of_unmapped (unmapped : o.collectionMapping = []) :
    adaptName o coll = cutPrefix o.collectionPrefix coll := by
  simp [adaptName, mappedName, unmapped]

theorem length_cutPrefix (pre coll : Name) : (cutPrefix pre coll).length =
    if pre.length < coll.length then coll.length - pre.length else coll.length := by
  rw [cutPrefix]
  split
  · exact List.length_drop
  · rfl

theorem cutPrefix_eq_drop (pre coll : Name) :
    cutPrefix pre coll = coll.drop (coll.length - (cutPrefix pre coll).length) := by
  rw [length_cutPrefix, cutPrefix]
  split
  · rw [Nat.sub_sub_self (by omega)]
  · simp

/-- Two cuts that each survive the other leave the same name. -/
theorem cutPrefix_eq_of_absorb {p q : Name}
    (left : cutPrefix p (cutPrefix q coll) = cutPrefix p coll)
    (right : cutPrefix q (cutPrefix p coll) = cutPrefix q coll) :
    cutPrefix p coll = cutPrefix q coll := by
  have lengths : (cutPrefix p coll).length = (cutPrefix q coll).length := by
    have left := congrArg List.length left
    have right := congrArg List.length right
    simp only [length_cutPrefix] at left right ⊢
    split_ifs at left right ⊢ <;> omega
  rw [cutPrefix_eq_drop p, cutPrefix_eq_drop q, lengths]

variable {routed : List Origin} {collections : List Name}

/-- Under the condition, origins that write to the shared slice write the same names. -/
theorem FanOutSafe.cut_eq (safe : FanOutSafe routed collections) (requested : coll ∈ collections)
    (ho : o ∈ routed) (hw : w ∈ routed) (plain_o : o.collectionMapping = [])
    (plain_w : w.collectionMapping = []) :
    cutPrefix o.collectionPrefix coll = cutPrefix w.collectionPrefix coll := by
  by_cases same : w = o
  · rw [same]
  obtain ⟨own, after⟩ := safe coll requested o ho
  obtain ⟨own', after'⟩ := safe coll requested w hw
  have left := (after w hw same plain_w).trans own.symm
  have right := (after' o ho (Ne.symm same) plain_o).trans own'.symm
  rw [adaptName_of_unmapped plain_o, adaptName_of_unmapped plain_o] at left
  rw [adaptName_of_unmapped plain_w, adaptName_of_unmapped plain_w] at right
  exact cutPrefix_eq_of_absorb left right

end Names

/-! ### Every schedule, under the condition -/

/-- A goroutine without a mapping is done with slot `j` of the shared slice. -/
def Passed : Stage → Nat → Prop
  | .mapping _, _ => False
  | .stripping i, j => j < i
  | .writing i _, j => j < i
  | .marshalling _, _ => True
  | .sent _, _ => True

/-- What origin `o` may read in the slot of `coll`: the name itself, or what another origin
left of it. -/
def Found (routed : List Origin) (o : Origin) (coll slot : Name) : Prop :=
  slot = coll ∨ ∃ w ∈ routed, w ≠ o ∧ w.collectionMapping = [] ∧
    slot = cutPrefix w.collectionPrefix coll

def StageHolds (routed : List Origin) (collections : List Name) (o : Origin) : Stage → Prop
  | .mapping mapped => o.collectionMapping ≠ [] ∧
      mapped.map (cutPrefix o.collectionPrefix) =
        (collections.map (originName o)).take mapped.length
  | .stripping _ => o.collectionMapping = []
  | .writing i slot => o.collectionMapping = [] ∧ o.collectionPrefix.length < slot.length ∧
      ∀ coll, collections[i]? = some coll → Found routed o coll slot
  | .marshalling read => o.collectionMapping = [] ∧
      read = (collections.map (originName o)).take read.length
  | .sent names => names = collections.map (originName o)

structure Consistent (routed : List Origin) (collections : List Name) (s : State) : Prop where
  length : s.shared.length = collections.length
  /-- A slot holds its name, or what an origin that passed it left of the name. -/
  slot : ∀ (j : Nat) (x coll : Name), s.shared[j]? = some x → collections[j]? = some coll →
    x = coll ∨ ∃ w ∈ routed, w.collectionMapping = [] ∧ Passed (s.threads w) j ∧
      x = cutPrefix w.collectionPrefix coll
  passed : ∀ w ∈ routed, w.collectionMapping = [] → ∀ (j : Nat) (x coll : Name),
    Passed (s.threads w) j → s.shared[j]? = some x → collections[j]? = some coll →
      x = cutPrefix w.collectionPrefix coll
  thread : ∀ o ∈ routed, StageHolds routed collections o (s.threads o)

section Schedules
variable {routed : List Origin} {collections : List Name} {s : State} {o : Origin}

theorem FanOutSafe.adaptName_eq (safe : FanOutSafe routed collections) (ho : o ∈ routed)
    {coll slot : Name} (requested : coll ∈ collections) (found : Found routed o coll slot) :
    adaptName o slot = originName o coll := by
  obtain ⟨own, after⟩ := safe coll requested o ho
  rcases found with rfl | ⟨w, hw, other, plain, rfl⟩
  · exact own
  · exact after w hw other plain

/-- Cutting what an origin without a mapping finds leaves what cutting the name itself does. -/
theorem FanOutSafe.cut_of_found (safe : FanOutSafe routed collections) (ho : o ∈ routed)
    (plain : o.collectionMapping = []) {coll slot : Name} (requested : coll ∈ collections)
    (found : Found routed o coll slot) :
    cutPrefix o.collectionPrefix slot = cutPrefix o.collectionPrefix coll := by
  rw [← adaptName_of_unmapped plain, ← adaptName_of_unmapped plain,
    safe.adaptName_eq ho requested found, (safe coll requested o ho).1]

theorem initial_consistent : Consistent routed collections (initial collections) where
  length := rfl
  slot j x coll here wanted := by
    have : some x = some coll := here.symm.trans wanted
    exact Or.inl (Option.some.inj this)
  passed w _ plain j x coll passed here wanted := by
    have same : x = coll := Option.some.inj (here.symm.trans wanted)
    by_cases bare : w.collectionPrefix = []
    · simp [bare, same]
    · simp [initial, start, plain, bare, Passed] at passed
  thread o _ := by
    by_cases plain : o.collectionMapping = []
    · by_cases bare : o.collectionPrefix = []
      · simp [initial, start, plain, bare, StageHolds]
      · simp [initial, start, plain, bare, StageHolds]
    · simp [initial, start, plain, StageHolds]

theorem Consistent.wanted (valid : Consistent routed collections s) {j : Nat} {x : Name}
    (here : s.shared[j]? = some x) : ∃ coll, collections[j]? = some coll := by
  obtain ⟨inside, _⟩ := List.getElem?_eq_some_iff.mp here
  rw [valid.length] at inside
  exact ⟨collections[j], List.getElem?_eq_getElem inside⟩

/-- An origin that has not passed a slot finds in it what it is meant to find. -/
theorem Consistent.found (valid : Consistent routed collections s) {j : Nat} {x coll : Name}
    (ahead : o.collectionMapping = [] → ¬ Passed (s.threads o) j)
    (here : s.shared[j]? = some x) (wanted : collections[j]? = some coll) :
    Found routed o coll x := by
  rcases valid.slot j x coll here wanted with same | ⟨w, hw, plain, passed, left⟩
  · exact Or.inl same
  · refine Or.inr ⟨w, hw, ?_, plain, left⟩
    rintro rfl
    exact ahead plain passed

/-- A step of `o` that writes nothing. -/
theorem Consistent.advance (valid : Consistent routed collections s) (next : Stage)
    (onward : ∀ j, Passed (s.threads o) j → Passed next j)
    (fresh : o.collectionMapping = [] → ∀ (j : Nat) (x coll : Name), Passed next j →
      ¬ Passed (s.threads o) j → s.shared[j]? = some x → collections[j]? = some coll →
        x = cutPrefix o.collectionPrefix coll)
    (holds : StageHolds routed collections o next) :
    Consistent routed collections ⟨s.shared, Function.update s.threads o next⟩ where
  length := valid.length
  slot j x coll here wanted := by
    rcases valid.slot j x coll here wanted with same | ⟨w, hw, plain, passed, left⟩
    · exact Or.inl same
    · refine Or.inr ⟨w, hw, plain, ?_, left⟩
      by_cases mine : w = o
      · subst mine
        simpa using onward j passed
      · simpa [mine] using passed
  passed w hw plain j x coll passed here wanted := by
    by_cases mine : w = o
    · subst mine
      by_cases before : Passed (s.threads w) j
      · exact valid.passed w hw plain j x coll before here wanted
      · exact fresh plain j x coll (by simpa using passed) before here wanted
    · exact valid.passed w hw plain j x coll (by simpa [mine] using passed) here wanted
  thread w hw := by
    by_cases mine : w = o
    · subst mine
      simpa using holds
    · simpa [mine] using valid.thread w hw

theorem eq_or_getElem?_of_set {slots : List Name} {i j : Nat} {written x : Name}
    (here : (slots.set i written)[j]? = some x) :
    i = j ∧ x = written ∨ i ≠ j ∧ slots[j]? = some x := by
  by_cases same : i = j
  · subst same
    rw [List.getElem?_set_self'] at here
    cases old : slots[i]? with
    | none => simp [old] at here
    | some _ => exact Or.inl ⟨rfl, by simpa [old] using here.symm⟩
  · exact Or.inr ⟨same, by simpa [List.getElem?_set_ne same] using here⟩

/-- `o` writes to slot `i`. -/
theorem Consistent.write (safe : FanOutSafe routed collections) (ho : o ∈ routed)
    (valid : Consistent routed collections s) {i : Nat} {slot : Name}
    (at_ : s.threads o = .writing i slot) :
    Consistent routed collections ⟨s.shared.set i (slot.drop o.collectionPrefix.length),
      Function.update s.threads o (.stripping (i + 1))⟩ := by
  obtain ⟨plain, long, found⟩ : StageHolds routed collections o (.writing i slot) :=
    at_ ▸ valid.thread o ho
  have written : ∀ coll, collections[i]? = some coll →
      slot.drop o.collectionPrefix.length = cutPrefix o.collectionPrefix coll := by
    intro coll wanted
    have cut := safe.cut_of_found ho plain (List.mem_of_getElem? wanted) (found coll wanted)
    rwa [cutPrefix, if_pos long] at cut
  -- Apart from slot `i`, an origin has passed the same slots before and after.
  have same_passed : ∀ w j, i ≠ j →
      (Passed (Function.update s.threads o (.stripping (i + 1)) w) j ↔ Passed (s.threads w) j) := by
    intro w j apart
    by_cases own : w = o
    · subst own
      rw [Function.update_self, at_]
      exact show j < i + 1 ↔ j < i by omega
    · rw [Function.update_of_ne own]
  constructor
  · simpa using valid.length
  · intro j x coll here wanted
    rcases eq_or_getElem?_of_set here with ⟨rfl, new⟩ | ⟨apart, here⟩
    · exact Or.inr ⟨o, ho, plain, by simp [Passed], new.trans (written coll wanted)⟩
    · rcases valid.slot j x coll here wanted with unchanged | ⟨w, hw, plain', passed, left⟩
      · exact Or.inl unchanged
      · exact Or.inr ⟨w, hw, plain', (same_passed w j apart).mpr passed, left⟩
  · intro w hw plain' j x coll passed here wanted
    rcases eq_or_getElem?_of_set here with ⟨rfl, new⟩ | ⟨apart, here⟩
    · rw [new, written coll wanted]
      exact safe.cut_eq (List.mem_of_getElem? wanted) ho hw plain plain'
    · exact valid.passed w hw plain' j x coll ((same_passed w j apart).mp passed) here wanted
  · intro w hw
    by_cases own : w = o
    · subst own
      simpa [StageHolds] using plain
    · simpa [own] using valid.thread w hw

theorem take_succ_of_getElem? {names : List Name} {k : Nat} {coll : Name}
    (wanted : collections[k]? = some coll) (so_far : names = (collections.map (originName o)).take k) :
    names ++ [originName o coll] = (collections.map (originName o)).take (k + 1) := by
  rw [List.take_add_one, ← so_far, List.getElem?_map, wanted]
  rfl

theorem take_of_getElem?_none (valid : Consistent routed collections s) {k : Nat}
    (beyond : s.shared[k]? = none) :
    (collections.map (originName o)).take k = collections.map (originName o) := by
  apply List.take_of_length_le
  rw [List.getElem?_eq_none_iff, valid.length] at beyond
  simpa using beyond

/-- `o` maps a name, or sends the mapped ones. -/
theorem Consistent.map (safe : FanOutSafe routed collections) (ho : o ∈ routed)
    (valid : Consistent routed collections s) {mapped : List Name}
    (at_ : s.threads o = .mapping mapped) :
    Consistent routed collections (Interleaving.step act s o) := by
  obtain ⟨mapping, so_far⟩ : StageHolds routed collections o (.mapping mapped) :=
    at_ ▸ valid.thread o ho
  cases here : s.shared[mapped.length]? with
  | some x =>
    obtain ⟨coll, wanted⟩ := valid.wanted here
    have found := valid.found (fun plain => absurd plain mapping) here wanted
    have adapted := safe.adaptName_eq ho (List.mem_of_getElem? wanted) found
    simp only [Interleaving.step, at_, act, here]
    refine valid.advance _ (fun j passed => ?_) (fun plain => absurd plain mapping) ⟨mapping, ?_⟩
    · rw [at_] at passed
      exact passed
    · rw [List.map_append, List.length_append, List.map_singleton]
      exact (congrArg (_ ++ [·]) adapted).trans (take_succ_of_getElem? wanted so_far)
  | none =>
    simp only [Interleaving.step, at_, act, here]
    refine valid.advance _ (fun _ _ => trivial) (fun plain => absurd plain mapping) ?_
    exact so_far.trans (take_of_getElem?_none valid here)

/-- `o` skips a slot whose name is too short: what it found is already what it would leave. -/
theorem Consistent.skip (safe : FanOutSafe routed collections) (ho : o ∈ routed)
    (valid : Consistent routed collections s) {i : Nat} (at_ : s.threads o = .stripping i)
    {x coll : Name} (here : s.shared[i]? = some x) (wanted : collections[i]? = some coll)
    (found : Found routed o coll x) (short : x.length ≤ o.collectionPrefix.length) :
    Consistent routed collections ⟨s.shared, Function.update s.threads o (.stripping (i + 1))⟩ := by
  have plain : StageHolds routed collections o (.stripping i) := at_ ▸ valid.thread o ho
  have cut := safe.cut_of_found ho plain (List.mem_of_getElem? wanted) found
  rw [cutPrefix_of_le short] at cut
  refine valid.advance _ (fun j passed => ?_) (fun _ j y coll' passed before there wanted' => ?_)
    plain
  · rw [at_] at passed
    exact Nat.lt_succ_of_lt passed
  · rw [at_] at before
    obtain rfl : j = i := Nat.eq_of_lt_succ_of_not_lt passed before
    rw [here] at there
    rw [wanted] at wanted'
    cases there
    cases wanted'
    exact cut

/-- `o` looks at a slot of the shared slice, or is done with all of them. -/
theorem Consistent.strip (safe : FanOutSafe routed collections) (ho : o ∈ routed)
    (valid : Consistent routed collections s) {i : Nat} (at_ : s.threads o = .stripping i) :
    Consistent routed collections (Interleaving.step act s o) := by
  have plain : StageHolds routed collections o (.stripping i) := at_ ▸ valid.thread o ho
  cases here : s.shared[i]? with
  | some x =>
    obtain ⟨coll, wanted⟩ := valid.wanted here
    have found : Found routed o coll x := by
      refine valid.found (fun _ passed => ?_) here wanted
      rw [at_] at passed
      exact Nat.lt_irrefl i passed
    by_cases long : o.collectionPrefix.length < x.length
    · simp only [Interleaving.step, at_, act, here, if_pos long]
      refine valid.advance _ (fun j passed => ?_) (fun _ j _ _ passed before => ?_)
        ⟨plain, long, ?_⟩
      · rw [at_] at passed
        exact passed
      · rw [at_] at before
        exact absurd passed before
      · intro coll' wanted'
        rw [wanted] at wanted'
        exact Option.some.inj wanted' ▸ found
    · simp only [Interleaving.step, at_, act, here, if_neg long]
      exact valid.skip safe ho at_ here wanted found (Nat.le_of_not_lt long)
  | none =>
    simp only [Interleaving.step, at_, act, here]
    refine valid.advance _ (fun _ _ => trivial) (fun _ j x coll _ before there _ => ?_)
      ⟨plain, rfl⟩
    rw [at_] at before
    have inside := (List.getElem?_eq_some_iff.mp there).1
    have beyond := List.getElem?_eq_none_iff.mp here
    have : ¬ j < i := before
    omega

/-- `o` encodes a slot of the shared slice, which it has passed, or sends what it encoded. -/
theorem Consistent.marshal (safe : FanOutSafe routed collections) (ho : o ∈ routed)
    (valid : Consistent routed collections s) {read : List Name}
    (at_ : s.threads o = .marshalling read) :
    Consistent routed collections (Interleaving.step act s o) := by
  obtain ⟨plain, so_far⟩ : StageHolds routed collections o (.marshalling read) :=
    at_ ▸ valid.thread o ho
  have passed : ∀ j, Passed (s.threads o) j := fun _ => at_ ▸ trivial
  cases here : s.shared[read.length]? with
  | some x =>
    obtain ⟨coll, wanted⟩ := valid.wanted here
    have left := valid.passed o ho plain _ x coll (passed _) here wanted
    rw [← adaptName_of_unmapped plain, (safe coll (List.mem_of_getElem? wanted) o ho).1] at left
    simp only [Interleaving.step, at_, act, here]
    refine valid.advance _ (fun _ _ => trivial) (fun _ j _ _ _ before => ?_) ⟨plain, ?_⟩
    · exact absurd (passed j) before
    · rw [List.length_append, left]
      exact take_succ_of_getElem? wanted so_far
  | none =>
    simp only [Interleaving.step, at_, act, here]
    refine valid.advance _ (fun _ _ => trivial) (fun _ j _ _ _ before => ?_) ?_
    · exact absurd (passed j) before
    · exact so_far.trans (take_of_getElem?_none valid here)

theorem Consistent.step (safe : FanOutSafe routed collections) (ho : o ∈ routed)
    (valid : Consistent routed collections s) :
    Consistent routed collections (Interleaving.step act s o) := by
  cases at_ : s.threads o with
  | mapping mapped => exact valid.map safe ho at_
  | stripping i => exact valid.strip safe ho at_
  | writing i slot =>
    simp only [Interleaving.step, at_, act]
    exact valid.write safe ho at_
  | marshalling read => exact valid.marshal safe ho at_
  | sent names =>
    have holds : StageHolds routed collections o (.sent names) := at_ ▸ valid.thread o ho
    simp only [Interleaving.step, at_, act]
    refine valid.advance _ (fun _ _ => trivial) (fun _ j _ _ _ before => ?_) holds
    exact absurd (at_ ▸ trivial) before

/-- Under the condition, every origin is sent its own names, however the goroutines are
scheduled. -/
theorem sent_of_safe (safe : FanOutSafe routed collections) {schedule : List Origin}
    (within : ∀ w ∈ schedule, w ∈ routed) (ho : o ∈ routed) {names : List Name}
    (sent : (run act (initial collections) schedule).threads o = .sent names) :
    names = collections.map (originName o) := by
  have valid : Consistent routed collections (run act (initial collections) schedule) :=
    run_invariant act (fun t w member valid => valid.step safe (within w member)) initial_consistent
  have holds := valid.thread o ho
  rw [sent] at holds
  exact holds

end Schedules

/-! ### One goroutine after the other -/

section Sequential
variable {o : Origin}

theorem mapping_alone (front rest : List Name) :
    Alone act o (front ++ rest, .mapping (front.map (mappedName o)))
      (front ++ rest, .sent ((front ++ rest).map (adaptName o))) := by
  induction rest generalizing front with
  | nil =>
    apply Alone.head _ Relation.ReflTransGen.refl
    simp [act, adaptName, Function.comp_def]
  | cons coll rest ih =>
    have next := ih (front ++ [coll])
    rw [List.append_assoc, List.singleton_append, List.map_append (f := mappedName o),
      List.map_singleton] at next
    apply Alone.head _ next
    simp [act]

theorem marshalling_alone (front rest : List Name) :
    Alone act o (front ++ rest, .marshalling front) (front ++ rest, .sent (front ++ rest)) := by
  induction rest generalizing front with
  | nil =>
    apply Alone.head _ Relation.ReflTransGen.refl
    simp [act]
  | cons coll rest ih =>
    have next := ih (front ++ [coll])
    simp only [List.append_assoc, List.singleton_append] at next
    apply Alone.head _ next
    simp [act]

theorem stripping_alone (front rest : List Name) :
    Alone act o (front ++ rest, .stripping front.length)
      (front ++ rest.map (cutPrefix o.collectionPrefix), .marshalling []) := by
  induction rest generalizing front with
  | nil =>
    apply Alone.head _ Relation.ReflTransGen.refl
    simp [act]
  | cons coll rest ih =>
    have next := ih (front ++ [cutPrefix o.collectionPrefix coll])
    simp only [List.append_assoc, List.singleton_append, List.length_append, List.length_singleton]
      at next
    rw [List.map_cons]
    by_cases long : o.collectionPrefix.length < coll.length
    · have cut : cutPrefix o.collectionPrefix coll = coll.drop o.collectionPrefix.length :=
        if_pos long
      apply Alone.head (b := (front ++ coll :: rest, .writing front.length coll))
      · simp [act, long]
      apply Alone.head _ next
      simp [act, cut]
    · have cut : cutPrefix o.collectionPrefix coll = coll := if_neg long
      rw [cut] at next ⊢
      apply Alone.head _ next
      simp [act, long]

/-- What a goroutine leaves in the shared slice when it runs from start to end alone. -/
def leaves (o : Origin) (slots : List Name) : List Name :=
  if o.collectionMapping = [] then slots.map (cutPrefix o.collectionPrefix) else slots

theorem start_alone (slots : List Name) :
    Alone act o (slots, start o) (leaves o slots, .sent (slots.map (adaptName o))) := by
  by_cases plain : o.collectionMapping = []
  · have adapted : slots.map (adaptName o) = slots.map (cutPrefix o.collectionPrefix) :=
      List.map_congr_left fun _ _ => adaptName_of_unmapped plain
    rw [leaves, if_pos plain, adapted]
    have encoded := marshalling_alone (o := o) [] (slots.map (cutPrefix o.collectionPrefix))
    by_cases bare : o.collectionPrefix = []
    · have same : slots.map (cutPrefix o.collectionPrefix) = slots := by
        rw [bare]
        exact List.map_id'' (fun _ => cutPrefix_nil) slots
      rw [same] at encoded ⊢
      simpa [start, plain, bare] using encoded
    · have stripped := stripping_alone (o := o) [] slots
      simpa [start, plain, bare] using stripped.trans encoded
  · simpa [leaves, start, plain] using mapping_alone (o := o) [] slots

/-- Every goroutine is before its first step or has sent its request. -/
def Settled (s : State) : Prop :=
  ∀ o, s.threads o = start o ∨ ∃ names, s.threads o = .sent names

theorem exists_block {s : State} (waiting : s.threads o = start o) :
    ∃ schedule : List Origin, (∀ w ∈ schedule, w = o) ∧ run act s schedule =
      ⟨leaves o s.shared, Function.update s.threads o (.sent (s.shared.map (adaptName o)))⟩ :=
  exists_run_of_alone (waiting ▸ start_alone s.shared)

theorem settled_update {s : State} (settled : Settled s) (slots names : List Name) :
    Settled ⟨slots, Function.update s.threads o (.sent names)⟩ := by
  intro w
  by_cases mine : w = o
  · subst mine
    exact Or.inr ⟨names, by simp⟩
  · simpa [mine] using settled w

/-- From a settled state, the goroutines can finish in the order of any list. -/
theorem exists_finish (order : List Origin) {s : State} (settled : Settled s) :
    ∃ schedule : List Origin, (∀ w ∈ schedule, w ∈ order) ∧
      (∀ w ∈ order, ∃ names, (run act s schedule).threads w = .sent names) ∧
      ∀ w names, s.threads w = .sent names → (run act s schedule).threads w = .sent names := by
  induction order generalizing s with
  | nil => exact ⟨[], by simp, by simp, fun _ _ sent => sent⟩
  | cons o rest ih =>
    -- Whether or not `o` has sent already, it has after some block of its own steps.
    have block : ∃ first t, (∀ w ∈ first, w = o) ∧ run act s first = t ∧ Settled t ∧
        (∃ names, t.threads o = .sent names) ∧
        ∀ w names, s.threads w = .sent names → t.threads w = .sent names := by
      by_cases waiting : s.threads o = start o
      · by_cases done : ∃ names, s.threads o = .sent names
        · exact ⟨[], s, by simp, rfl, settled, done, fun _ _ sent => sent⟩
        obtain ⟨first, only, ran⟩ := exists_block waiting
        refine ⟨first, _, only, ran, settled_update settled _ _, ⟨_, Function.update_self ..⟩, ?_⟩
        intro w names sent
        by_cases mine : w = o
        · subst mine
          exact absurd ⟨names, sent⟩ done
        · simpa [mine] using sent
      · exact ⟨[], s, by simp, rfl, settled, (settled o).resolve_left waiting, fun _ _ sent => sent⟩
    obtain ⟨first, t, only, ran, settled', ⟨own, sent⟩, kept⟩ := block
    obtain ⟨later, within, finished, stays⟩ := ih settled'
    refine ⟨first ++ later, ?_, ?_, ?_⟩
    · intro w member
      rcases List.mem_append.mp member with early | late
      · rw [only w early]
        exact List.mem_cons_self
      · exact List.mem_cons_of_mem o (within w late)
    · rw [run_append, ran]
      intro w member
      rcases List.mem_cons.mp member with rfl | member
      · exact ⟨own, stays w own sent⟩
      · exact finished w member
    · rw [run_append, ran]
      exact fun w names before => stays w names (kept w names before)

theorem initial_settled (collections : List Name) : Settled (initial collections) :=
  fun _ => Or.inl rfl

variable {routed : List Origin} {collections : List Name}

/-- The origins of a prefix of the order run first, then all the others. -/
theorem exists_run_first (first : List Origin) {t : State} (settled : Settled t)
    (within : ∀ w ∈ first, w ∈ routed) (ran : run act (initial collections) first = t)
    {names : List Name} (sent : t.threads o = .sent names) :
    ∃ schedule : List Origin, (∀ w ∈ schedule, w ∈ routed) ∧
      (∀ w ∈ routed, ∃ names, (run act (initial collections) schedule).threads w = .sent names) ∧
      (run act (initial collections) schedule).threads o = .sent names := by
  obtain ⟨later, inside, finished, stays⟩ := exists_finish routed settled
  refine ⟨first ++ later, ?_, ?_, ?_⟩
  · intro w member
    rcases List.mem_append.mp member with early | late
    · exact within w early
    · exact inside w late
  · rw [run_append, ran]
    exact finished
  · rw [run_append, ran]
    exact stays o names sent

/-- An origin may be the first to run. -/
theorem exists_run_alone_first (ho : o ∈ routed) :
    ∃ schedule : List Origin, (∀ w ∈ schedule, w ∈ routed) ∧
      (∀ w ∈ routed, ∃ names, (run act (initial collections) schedule).threads w = .sent names) ∧
      (run act (initial collections) schedule).threads o =
        .sent (collections.map (adaptName o)) := by
  obtain ⟨first, only, ran⟩ := exists_block (o := o) (s := initial collections) rfl
  refine exists_run_first first (settled_update (initial_settled collections) _ _) ?_ ran ?_
  · intro w member
    rw [only w member]
    exact ho
  · simp [initial]

/-- An origin may run right after one that has rewritten the shared slice. -/
theorem exists_run_second {w : Origin} (ho : o ∈ routed) (hw : w ∈ routed) (other : w ≠ o)
    (plain : w.collectionMapping = []) :
    ∃ schedule : List Origin, (∀ w ∈ schedule, w ∈ routed) ∧
      (∀ w ∈ routed, ∃ names, (run act (initial collections) schedule).threads w = .sent names) ∧
      (run act (initial collections) schedule).threads o =
        .sent (collections.map fun coll => adaptName o (cutPrefix w.collectionPrefix coll)) := by
  obtain ⟨first, only, ran⟩ := exists_block (o := w) (s := initial collections) rfl
  have settled := settled_update (o := w) (initial_settled collections)
    (leaves w collections) (collections.map (adaptName w))
  obtain ⟨second, only', ran'⟩ := exists_block (o := o)
    (s := ⟨leaves w collections, Function.update start w (.sent (collections.map (adaptName w)))⟩)
    (by simp [Ne.symm other])
  refine exists_run_first (first ++ second) (settled_update settled _ _) ?_
    ((run_append act _ _ _).trans ((congrArg (run act · second) ran).trans ran')) ?_
  · intro v member
    rcases List.mem_append.mp member with early | late
    · rw [only v early]
      exact hw
    · rw [only' v late]
      exact ho
  · simp [leaves, plain, Function.comp_def]

end Sequential

end FanOut
