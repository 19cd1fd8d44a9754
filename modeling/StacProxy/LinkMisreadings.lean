import StacProxy.LinkReading

/-!
# Misread Link headers

A parameter that is not harmless is misread in some header that is harmless otherwise: alone on
a link, before a `rel` parameter, or on a link before another one. The exception are `rel`
parameters with a comma in their quoted value; some of those come out right.
-/

namespace LinkGrammar

open PageAdapter OutboundRequest

section Contexts

theorem not_mem_nil_blank : ∀ c ∈ ([] : List Char), c = ' ' ∨ c = '\t' := by simp

def noBlank : Blank := ⟨[], not_mem_nil_blank⟩

theorem isToken_of_all {text : List Char} (filled : text ≠ [])
    (valid : text.all validFieldChar = true) :
    text ≠ [] ∧ ∀ c ∈ text, validFieldChar c = true :=
  ⟨filled, List.all_eq_true.mp valid⟩

theorem rel_isToken : "rel".toList ≠ [] ∧ ∀ c ∈ "rel".toList, validFieldChar c = true :=
  isToken_of_all (by decide) (by decide)

theorem next_isToken : "next".toList ≠ [] ∧ ∀ c ∈ "next".toList, validFieldChar c = true :=
  isToken_of_all (by decide) (by decide)

theorem empty_isQuoted : '"' ∉ ([] : List Char) ∧ '\\' ∉ ([] : List Char) := by simp

/-- A parameter without blanks. -/
def plainParam (name : Token) (value : Value) : Param :=
  ⟨noBlank, noBlank, name, noBlank, some (noBlank, value)⟩

def emptyRel : Param := plainParam ⟨"rel".toList, rel_isToken⟩ (.quoted ⟨[], empty_isQuoted⟩)

def nextRel : Param :=
  plainParam ⟨"rel".toList, rel_isToken⟩ (.token ⟨"next".toList, next_isToken⟩)

def linkElement (l : Link) : Element := ⟨noBlank, some l, noBlank⟩

theorem replicate_isTarget (n : Nat) :
    '<' ∉ List.replicate (n + 1) 'a' ∧ '>' ∉ List.replicate (n + 1) 'a' := by
  simp [List.mem_replicate]

/-- A target that is longer than a given text. -/
def longTarget (n : Nat) : Target := ⟨List.replicate (n + 1) 'a', replicate_isTarget n⟩

theorem longTarget_ne_nil (n : Nat) : (longTarget n).1 ≠ [] := by
  simp [longTarget, List.replicate_succ]

variable {lib : Library}

theorem emptyRel_harmless : emptyRel.Harmless lib := ⟨rfl, rfl⟩

theorem nextRel_harmless : nextRel.Harmless lib := ⟨rfl, rfl⟩

theorem containsRel_next (folds : lib.equalFold "next" "next" = true) :
    containsRel lib nextRel.meaning "next" = true := by
  have single : fields nextRel.meaning = ["next".toList] := by decide
  rw [containsRel, single, List.any_cons, String.ofList_toList, folds, Bool.true_or]

theorem ofList_ne_empty {text : List Char} (nonempty : text ≠ []) : String.ofList text ≠ "" :=
  fun empty => nonempty (by simpa using congrArg String.toList empty)

theorem targeted_of_targets {values : List (List Element)}
    (targets : ∀ l ∈ links values, l.target.1 ≠ []) : Targeted lib values := by
  intro l first empty
  exact absurd empty (targets l (List.mem_of_find?_eq_some first))

theorem nextTarget_single (l : Link) : nextTarget lib [[linkElement l]] =
    if l.isNext lib then String.ofList l.target.1 else "" := by
  have single : links [[linkElement l]] = [l] := rfl
  rw [nextTarget, single]
  cases next : l.isNext lib <;> simp [next]

theorem parseNextFromLinkHeader_single (elements : List Element) :
    parseNextFromLinkHeader lib ([elements].map fun elements => String.ofList (valueText elements)) =
      ((splitLinkValues 0 [] (valueText elements)).findSome? (reading lib)).getD "" := by
  rw [parseNextFromLinkHeader_eq, List.map_singleton, List.findSome?_singleton, String.toList_ofList]

end Contexts

section Alone
variable {lib : Library}

/-- On its own, a link with a target is read right if the code sees what it says. -/
theorem readRight_single {l : Link} (settled : ∀ q ∈ l.params, depthAfter 0 q.meaning = some 0)
    (targeted : l.target.1 ≠ []) (right : ReadRight lib [[linkElement l]]) :
    l.seenNext lib = l.isNext lib := by
  have settled : (linkElement l).Settled := by
    rintro _ ⟨⟩
    exact settled
  have nonempty := ofList_ne_empty targeted
  have read := @findSome?_reading_settled lib _ settled [] (by simp)
  have linked : (linkElement l).link = some l := rfl
  rw [List.append_nil, List.tail_nil, splitLinkValues, if_pos rfl, List.findSome?_nil,
    Option.or_none, linked, Option.bind_some, Link.choice] at read
  rw [ReadRight, parseNextFromLinkHeader_single, valueText, read, nextTarget_single] at right
  cases seen : l.seenNext lib <;> cases next : l.isNext lib <;>
    simp [seen, next, targeted, nonempty] at right ⊢

/-- If a settled parameter is read right alone and before a `rel` parameter, it is harmless. -/
theorem found_eq_of_readRight {q : Param} {target : Target}
    (folds : lib.equalFold "next" "next" = true) (settled : depthAfter 0 q.meaning = some 0)
    (targeted : target.1 ≠ []) (alone : ReadRight lib [[linkElement ⟨target, [q]⟩]])
    (followed : ReadRight lib [[linkElement ⟨target, [q, nextRel]⟩]]) :
    q.found lib = if q.isRel then some (containsRel lib q.meaning "next") else none := by
  have next_settled : depthAfter 0 nextRel.meaning = some 0 := rfl
  have alone_seen := readRight_single (by simpa using settled) targeted alone
  have followed_seen := readRight_single (by simp [settled, next_settled]) targeted followed
  have next := containsRel_next folds
  have next_found : nextRel.found lib = some true := by
    rw [nextRel_harmless.found_eq, next]
    rfl
  have next_isRel : nextRel.isRel = true := rfl
  have nothing : containsRel lib [] "next" = false := rfl
  simp only [Link.seenNext, Link.isNext, Link.relation, List.findSome?_cons, List.find?_cons,
    next_found, next_isRel] at alone_seen followed_seen
  cases found : q.found lib <;> cases named : q.isRel <;>
    simp_all

end Alone

section Commas
variable {lib : Library} {depth : Nat} {buf text piece : List Char}

/-- Where the scan meets a comma to split at. -/
theorem exists_comma (split : depthAfter depth text = none) :
    ∃ front rest, text = front ++ ',' :: rest ∧ depthAfter depth front = some 0 := by
  induction text generalizing depth with
  | nil => cases split
  | cons c text ih =>
    rw [depthAfter] at split
    split_ifs at split with left right comma
    · obtain ⟨front, rest, rfl, scanned⟩ := ih split
      exact ⟨c :: front, rest, rfl, by rw [depthAfter, if_pos left, scanned]⟩
    · obtain ⟨front, rest, rfl, scanned⟩ := ih split
      exact ⟨c :: front, rest, rfl, by rw [depthAfter, if_neg left, if_pos right, scanned]⟩
    · obtain ⟨rfl, rfl⟩ := comma
      exact ⟨[], text, rfl, rfl⟩
    · obtain ⟨front, rest, rfl, scanned⟩ := ih split
      exact ⟨c :: front, rest, rfl, by rw [depthAfter, if_neg left, if_neg right, if_neg comma, scanned]⟩

theorem length_trimBoth_le (p : Char → Bool) (text : List Char) :
    (trimBoth p text).length ≤ text.length := by
  obtain ⟨front, back, whole, -⟩ := exists_trimBoth p text
  have lengths := congrArg List.length whole
  rw [List.length_append, List.length_append] at lengths
  omega

theorem length_le_of_mem_splitLinkValues (member : piece ∈ splitLinkValues depth buf text) :
    piece.length ≤ buf.length + text.length := by
  induction text generalizing depth buf with
  | nil =>
    rw [splitLinkValues] at member
    split_ifs at member
    · cases member
    · obtain rfl := List.mem_singleton.mp member
      exact length_trimBoth_le _ _
  | cons c text ih =>
    have longer : (buf ++ [c]).length + text.length = buf.length + (c :: text).length := by
      simp only [List.length_append, List.length_cons, List.length_nil]
      omega
    rw [splitLinkValues] at member
    split_ifs at member
    · exact longer ▸ ih member
    · exact longer ▸ ih member
    · rcases List.mem_cons.mp member with rfl | later
      · exact (length_trimBoth_le _ _).trans (Nat.le_add_right _ _)
      · have bound := ih later
        simp only [List.length_cons, List.length_nil] at bound ⊢
        omega
    · exact longer ▸ ih member

theorem length_parseLinkValue_le (piece : List Char) :
    (parseLinkValue piece).1.length ≤ piece.length := by
  have trimmed := length_trimBoth_le isSpace piece
  unfold parseLinkValue
  split
  · rename_i rest same
    rw [same, List.length_cons] at trimmed
    split
    · have taken := (List.takeWhile_sublist (l := rest) (· ≠ '>')).length_le
      exact taken.trans (by omega)
    · exact Nat.zero_le _
  · exact Nat.zero_le _

/-- No target that is read from a text is longer than the text. -/
theorem length_le_of_findSome?_reading {target : String}
    (found : (splitLinkValues 0 [] text).findSome? (reading lib) = some target) :
    target.toList.length ≤ text.length := by
  obtain ⟨piece, member, read⟩ := List.exists_of_findSome?_eq_some found
  have bound := length_le_of_mem_splitLinkValues member
  have shorter := length_parseLinkValue_le piece
  unfold reading at read
  dsimp only at read
  split_ifs at read
  cases read
  rw [String.toList_ofList]
  rw [List.length_nil] at bound
  omega

/-- The depth after the target of a link is zero again. -/
theorem depthAfter_target (target : Target) (rest : List Char) :
    depthAfter depth ('<' :: (target.1 ++ '>' :: rest)) = depthAfter depth rest := by
  have opened : ∀ rest, depthAfter depth ('<' :: rest) = depthAfter (depth + 1) rest := fun _ => rfl
  have closed : ∀ rest, depthAfter (depth + 1) ('>' :: rest) = depthAfter depth rest := fun _ => rfl
  rw [opened, depthAfter_append, depthAfter_succ target.2.1 target.2.2, Option.bind_some, closed]

/-- A link that is cut at a comma is read as two pieces. -/
theorem findSome?_reading_cut {target : Target} {cut : List Param} {front rest : List Char}
    (text_eq : cut.flatMap Param.text = front ++ ',' :: rest)
    (scanned : depthAfter 0 front = some 0) :
    (splitLinkValues 0 [] (valueText [linkElement ⟨target, cut⟩])).findSome? (reading lib) =
      (if target.1 ≠ [] ∧ containsRel lib ((relationIn front).getD []) "next" = true then
        some (String.ofList target.1) else none).or
      ((splitLinkValues 0 [] rest).findSome? (reading lib)) := by
  have whole : valueText [linkElement ⟨target, cut⟩] =
      ('<' :: (target.1 ++ '>' :: front)) ++ ',' :: rest := by
    simp [valueText, linkElement, Element.text, Link.text, noBlank, text_eq]
  have first : reading lib (trimBoth isSpace ('<' :: (target.1 ++ '>' :: front))) =
      if target.1 ≠ [] ∧ containsRel lib ((relationIn front).getD []) "next" = true then
        some (String.ofList target.1) else none := by
    have parsed := @parseLinkValue_trimBoth front [] target.1 (by simp) target.2.2
    rw [List.nil_append] at parsed
    rw [reading, parsed]
  have comma : ∀ buf, splitLinkValues 0 buf (',' :: rest) =
      trimBoth isSpace buf :: splitLinkValues 0 [] rest := fun _ => rfl
  rw [whole, splitLinkValues_append ((depthAfter_target target front).trans scanned),
    List.nil_append, comma, List.findSome?_cons, ← first]
  cases reading lib (trimBoth isSpace ('<' :: (target.1 ++ '>' :: front))) <;> rfl

/-- A comma in the value of another parameter than `rel` cuts its link in two: the relation is
missed, or one is seen that is not there. -/
theorem comma_misread {q : Param} (folds : lib.equalFold "next" "next" = true)
    (split : depthAfter 0 q.meaning = none) (other : q.isRel = false) :
    ∃ target : Target, target.1 ≠ [] ∧ ¬ (ReadRight lib [[linkElement ⟨target, [q]⟩]] ∧
      ReadRight lib [[linkElement ⟨target, [q, nextRel]⟩]]) := by
  rw [← depthAfter_param] at split
  obtain ⟨front, rest, text_eq, scanned⟩ := exists_comma split
  refine ⟨longTarget (rest ++ nextRel.text).length, longTarget_ne_nil _, ?_⟩
  have targeted := longTarget_ne_nil (rest ++ nextRel.text).length
  have long : (rest ++ nextRel.text).length < (longTarget (rest ++ nextRel.text).length).1.length := by
    rw [longTarget, List.length_replicate]
    omega
  generalize longTarget (rest ++ nextRel.text).length = target at targeted long
  rintro ⟨alone, followed⟩
  have alone_eq : [q].flatMap Param.text = front ++ ',' :: rest := by simp [text_eq]
  have followed_eq : [q, nextRel].flatMap Param.text =
      front ++ ',' :: (rest ++ nextRel.text) := by simp [text_eq]
  rw [ReadRight, parseNextFromLinkHeader_single, findSome?_reading_cut alone_eq scanned] at alone
  rw [ReadRight, parseNextFromLinkHeader_single, findSome?_reading_cut followed_eq scanned]
    at followed
  have next_isRel : nextRel.isRel = true := rfl
  have alone_next : nextTarget lib [[linkElement ⟨target, [q]⟩]] = "" := by
    rw [nextTarget_single, Link.isNext, Link.relation, List.find?_cons_of_neg (by simp [other])]
    rfl
  have followed_next : nextTarget lib [[linkElement ⟨target, [q, nextRel]⟩]] =
      String.ofList target.1 := by
    rw [nextTarget_single, Link.isNext, Link.relation, List.find?_cons_of_neg (by simp [other]),
      List.find?_cons_of_pos next_isRel]
    exact if_pos (containsRel_next folds)
  rw [alone_next] at alone
  rw [followed_next] at followed
  have nonempty := ofList_ne_empty targeted
  by_cases seen : containsRel lib ((relationIn front).getD []) "next" = true
  · rw [if_pos ⟨targeted, seen⟩] at alone
    exact nonempty alone
  · rw [if_neg fun both => seen both.2, Option.none_or] at followed
    cases found : (splitLinkValues 0 [] (rest ++ nextRel.text)).findSome? (reading lib) with
    | none =>
      rw [found] at followed
      exact nonempty followed.symm
    | some read =>
      have bound := length_le_of_findSome?_reading found
      rw [found] at followed
      have same : read = String.ofList target.1 := followed
      rw [same, String.toList_ofList] at bound
      omega

end Commas

section Brackets
variable {lib : Library}

/-- Two links, of which the first has the parameter in question. -/
def pairWith (target : Target) (q : Param) : List Element :=
  [linkElement ⟨target, [emptyRel, q]⟩, linkElement ⟨target, [nextRel]⟩]

/-- A bracket that a value leaves open swallows the comma before the next link. -/
theorem bracket_misread {q : Param} {depth : Nat} (folds : lib.equalFold "next" "next" = true)
    (opened : depthAfter 0 q.meaning = some (depth + 1)) {target : Target} (targeted : target.1 ≠ []) :
    ¬ ReadRight lib [pairWith target q] := by
  have whole : valueText (pairWith target q) =
      '<' :: (target.1 ++ '>' :: (emptyRel.text ++ (q.text ++
        ',' :: '<' :: (target.1 ++ '>' :: nextRel.text)))) := by
    simp [pairWith, valueText, linkElement, Element.text, Link.text, noBlank]
  have comma : ∀ rest, depthAfter (depth + 1) (',' :: rest) = depthAfter (depth + 1) rest := by
    intro rest
    simp [depthAfter]
  have plain : nextRel.text.all (fun c => c ≠ '<' && c ≠ '>' && c ≠ ',') = true := by decide
  have last : depthAfter (depth + 1) nextRel.text = some (depth + 1) :=
    depthAfter_of_plain fun c member => by simpa [and_assoc] using List.all_eq_true.mp plain c member
  have unsplit : depthAfter 0 (valueText (pairWith target q)) = some (depth + 1) := by
    have first : depthAfter 0 emptyRel.meaning = some 0 := rfl
    rw [whole, depthAfter_target, depthAfter_append, depthAfter_param, first, Option.bind_some,
      depthAfter_append, depthAfter_param, opened, Option.bind_some, comma, depthAfter_target, last]
  -- The empty relation of the first link is found in the piece that both links make up.
  have relation : relationIn (emptyRel.text ++ (q.text ++
      ',' :: '<' :: (target.1 ++ '>' :: nextRel.text))) = some [] := by
    have first : relationIn emptyRel.body = some [] := by decide
    have first_eq : emptyRel.text = [] ++ ';' :: emptyRel.body := rfl
    rw [first_eq, Param.text, List.append_assoc, List.append_assoc, List.cons_append,
      List.cons_append, relationIn_append_cons, ← List.append_assoc, relationIn_append_cons,
      relationIn_append_blank q.before.isSpace, first]
    rfl
  have unread : reading lib (trimBoth isSpace (valueText (pairWith target q))) = none := by
    have parsed := @parseLinkValue_trimBoth (emptyRel.text ++ (q.text ++
      ',' :: '<' :: (target.1 ++ '>' :: nextRel.text))) [] target.1 (by simp) target.2.2
    rw [List.nil_append] at parsed
    rw [whole, reading, parsed, relation]
    exact if_neg fun both => Bool.false_ne_true both.2
  have read : (splitLinkValues 0 [] (valueText (pairWith target q))).findSome? (reading lib) = none := by
    have split := @splitLinkValues_append 0 (depth + 1) [] _ [] unsplit
    rw [List.append_nil, List.nil_append, splitLinkValues, if_neg (by simp [whole])] at split
    rw [split, List.findSome?_singleton, unread]
  have next : nextTarget lib [pairWith target q] = String.ofList target.1 := by
    have both : links [pairWith target q] = [⟨target, [emptyRel, q]⟩, ⟨target, [nextRel]⟩] := rfl
    have first : Link.isNext lib ⟨target, [emptyRel, q]⟩ = false := rfl
    have second : Link.isNext lib ⟨target, [nextRel]⟩ = true := containsRel_next folds
    rw [nextTarget, both, List.find?_cons_of_neg (by simp [first]), List.find?_cons_of_pos second]
    rfl
  rw [ReadRight, parseNextFromLinkHeader_single, read, next]
  exact (ofList_ne_empty targeted).symm

end Brackets

section Exactness
variable {lib : Library}

/-- A parameter with which every otherwise harmless header is read right is harmless. -/
theorem harmless_of_readRight {q : Param} (folds : lib.equalFold "next" "next" = true)
    (uncut : q.isRel = true → (depthAfter 0 q.meaning).isSome = true)
    (right : ∀ values, (∀ q' ∈ params values, q' = q ∨ q'.Harmless lib) → Targeted lib values →
      ReadRight lib values) : q.Harmless lib := by
  have single : ∀ target : Target, target.1 ≠ [] → ∀ more : List Param,
      (∀ q' ∈ more, q'.Harmless lib) → ReadRight lib [[linkElement ⟨target, q :: more⟩]] := by
    intro target targeted more harmless
    refine right _ ?_ (targeted_of_targets ?_)
    · intro q' member
      have member : q' = q ∨ q' ∈ more := by simpa [params, links, linkElement] using member
      exact member.imp_right (harmless q')
    · intro l member
      obtain rfl : l = ⟨target, q :: more⟩ := by simpa [links, linkElement] using member
      exact targeted
  have next_only : ∀ q' ∈ [nextRel], q'.Harmless lib := by
    intro q' member
    obtain rfl := List.mem_singleton.mp member
    exact nextRel_harmless
  cases scanned : depthAfter 0 q.meaning with
  | none =>
    cases named : q.isRel with
    | true =>
      have impossible := uncut named
      rw [scanned] at impossible
      cases impossible
    | false =>
      obtain ⟨target, targeted, misread⟩ := comma_misread folds scanned named
      exact absurd ⟨single target targeted [] (by simp), single target targeted [nextRel] next_only⟩
        misread
  | some depth =>
    cases depth with
    | zero =>
      exact ⟨scanned, found_eq_of_readRight folds scanned (longTarget_ne_nil 0)
        (single _ (longTarget_ne_nil 0) [] (by simp))
        (single _ (longTarget_ne_nil 0) [nextRel] next_only)⟩
    | succ depth =>
      refine absurd (right _ ?_ (targeted_of_targets ?_))
        (bracket_misread folds scanned (longTarget_ne_nil 0))
      · intro q' member
        have member : q' = emptyRel ∨ q' = q ∨ q' = nextRel := by
          simpa [params, links, pairWith, linkElement] using member
        rcases member with rfl | rfl | rfl
        · exact .inr emptyRel_harmless
        · exact .inl rfl
        · exact .inr nextRel_harmless
      · intro l member
        have member : l = ⟨longTarget 0, [emptyRel, q]⟩ ∨ l = ⟨longTarget 0, [nextRel]⟩ := by
          simpa [links, pairWith, linkElement] using member
        rcases member with rfl | rfl <;> exact longTarget_ne_nil 0

end Exactness

/-- Header values are read right exactly if the first link to a next page has a target, given that
the parameters up to that link are harmless. Apart from `rel` values with a comma, harmless are
exactly the parameters with which every otherwise harmless header is read right. -/
theorem linkHeader_read_iff (lib : Library) (folds : lib.equalFold "next" "next" = true) :
    (∀ values, Readable lib (links values) → (ReadRight lib values ↔ Targeted lib values)) ∧
    ∀ q : Param, (q.isRel = true → (depthAfter 0 q.meaning).isSome = true) →
      (q.Harmless lib ↔ ∀ values, (∀ q' ∈ params values, q' = q ∨ q'.Harmless lib) →
        Targeted lib values → ReadRight lib values) := by
  refine ⟨fun values readable => readRight_iff_targeted readable, fun q uncut => ⟨?_, ?_⟩⟩
  · intro harmless values others targeted
    refine (readRight_iff_targeted (readable_of_harmless fun q' member => ?_)).mpr targeted
    rcases others q' member with rfl | harmless'
    · exact harmless
    · exact harmless'
  · exact harmless_of_readRight folds uncut

section Samples

theorem title_isToken : "title".toList ≠ [] ∧ ∀ c ∈ "title".toList, validFieldChar c = true :=
  isToken_of_all (by decide) (by decide)

theorem capital_isToken : "REL".toList ≠ [] ∧ ∀ c ∈ "REL".toList, validFieldChar c = true :=
  isToken_of_all (by decide) (by decide)

theorem longer_isToken : "relation".toList ≠ [] ∧ ∀ c ∈ "relation".toList, validFieldChar c = true :=
  isToken_of_all (by decide) (by decide)

theorem prev_isToken : "prev".toList ≠ [] ∧ ∀ c ∈ "prev".toList, validFieldChar c = true :=
  isToken_of_all (by decide) (by decide)

theorem null_ne_empty : "null" ≠ "" := by decide

def foldingLibrary : Library where
  parseURL _ := none
  equalFold a b := a.toList.map Char.toLower == b.toList.map Char.toLower
  marshal _ := "null"
  marshal_ne_empty _ := null_ne_empty

end Samples

theorem titled_page_read : ∃ values,
    values.map (fun elements => String.ofList (valueText elements)) =
      ["<p2>;title=\"a; b <c>\";rel=\"prev NEXT\";title=\"x, y\"", "<p3>;title=\"x, y\""] ∧
    ReadRight foldingLibrary values ∧ nextTarget foldingLibrary values = "p2" := by
  refine ⟨[[linkElement ⟨⟨"p2".toList, by decide⟩,
    [plainParam ⟨"title".toList, title_isToken⟩ (.quoted ⟨"a; b <c>".toList, by decide⟩),
      plainParam ⟨"rel".toList, rel_isToken⟩ (.quoted ⟨"prev NEXT".toList, by decide⟩),
      plainParam ⟨"title".toList, title_isToken⟩ (.quoted ⟨"x, y".toList, by decide⟩)]⟩],
    [linkElement ⟨⟨"p3".toList, by decide⟩,
      [plainParam ⟨"title".toList, title_isToken⟩ (.quoted ⟨"x, y".toList, by decide⟩)]⟩]],
    by decide, ((linkHeader_read_iff foldingLibrary (by decide)).1 _ ?_).mpr ?_, by decide⟩
  · refine ⟨fun q member => ?_, .inl (by decide)⟩
    rcases List.mem_cons.mp member with rfl | member
    · exact ⟨by decide, by decide⟩
    · obtain rfl := List.mem_singleton.mp member
      exact ⟨by decide, by decide⟩
  · refine targeted_of_targets fun l member => ?_
    rcases List.mem_cons.mp member with rfl | member
    · decide
    · obtain rfl := List.mem_singleton.mp member
      decide

section Samples

/-- The grammar generates the text with one target for the next page, the code reads another. -/
def Misread (text target read : String) : Prop :=
  target ≠ read ∧ parseNextFromLinkHeader foldingLibrary [text] = read ∧ ∃ values,
    values.map (fun elements => String.ofList (valueText elements)) = [text] ∧
      nextTarget foldingLibrary values = target

end Samples

theorem link_headers_misread :
    Misread "<p2>;title=\"x, y\";rel=next" "p2" "" ∧
    Misread "<p2>;REL=next" "p2" "" ∧
    Misread "<p2>;relation=prev;rel=next" "p2" "" ∧
    Misread "<p2>;title=\"; rel=next\"" "" "p2" ∧
    Misread "<p1>;title=\"a<b\";rel=\"\",<p2>;rel=next" "p2" "" ∧
    Misread "<>;rel=next,<p2>;rel=next" "" "p2" := by
  refine ⟨⟨by decide, by decide, ?_⟩, ⟨by decide, by decide, ?_⟩, ⟨by decide, by decide, ?_⟩,
    ⟨by decide, by decide, ?_⟩, ⟨by decide, by decide, ?_⟩, ⟨by decide, by decide, ?_⟩⟩
  · exact ⟨[[linkElement ⟨⟨"p2".toList, by decide⟩, [plainParam ⟨"title".toList, title_isToken⟩
      (.quoted ⟨"x, y".toList, by decide⟩), nextRel]⟩]], by decide, by decide⟩
  · exact ⟨[[linkElement ⟨⟨"p2".toList, by decide⟩, [plainParam ⟨"REL".toList, capital_isToken⟩
      (.token ⟨"next".toList, next_isToken⟩)]⟩]], by decide, by decide⟩
  · exact ⟨[[linkElement ⟨⟨"p2".toList, by decide⟩, [plainParam ⟨"relation".toList, longer_isToken⟩
      (.token ⟨"prev".toList, prev_isToken⟩), nextRel]⟩]], by decide, by decide⟩
  · exact ⟨[[linkElement ⟨⟨"p2".toList, by decide⟩, [plainParam ⟨"title".toList, title_isToken⟩
      (.quoted ⟨"; rel=next".toList, by decide⟩)]⟩]], by decide, by decide⟩
  · exact ⟨[[linkElement ⟨⟨"p1".toList, by decide⟩, [plainParam ⟨"title".toList, title_isToken⟩
      (.quoted ⟨"a<b".toList, by decide⟩), emptyRel]⟩,
      linkElement ⟨⟨"p2".toList, by decide⟩, [nextRel]⟩]], by decide, by decide⟩
  · exact ⟨[[linkElement ⟨⟨[], by decide⟩, [nextRel]⟩,
      linkElement ⟨⟨"p2".toList, by decide⟩, [nextRel]⟩]], by decide, by decide⟩

end LinkGrammar
