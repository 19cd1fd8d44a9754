import StacProxy.LinkGrammar
import Mathlib.Data.List.DropRight

/-!
# Parts of a link

How the code cuts a link at its semicolons, trims the parts and takes one of them for the
relation. Trimming is at both ends, of blanks and then of quotes.
-/

namespace LinkGrammar

open PageAdapter OutboundRequest

section Trimming
variable {p : Char → Bool} {space text : List Char}

theorem trimBoth_append_left (blank : ∀ c ∈ space, p c = true) :
    trimBoth p (space ++ text) = trimBoth p text := by
  rw [trimBoth, List.dropWhile_append_of_pos blank, trimBoth]

theorem trimBoth_append_right (blank : ∀ c ∈ space, p c = true) :
    trimBoth p (text ++ space) = trimBoth p text := by
  have reversed : ∀ c ∈ space.reverse, p c = true := fun c member =>
    blank c (List.mem_reverse.mp member)
  unfold trimBoth
  rw [List.dropWhile_append]
  split
  · rename_i all_blank
    rw [List.isEmpty_iff.mp all_blank, List.dropWhile_eq_nil_iff.mpr blank]
  · rw [List.reverse_append, List.dropWhile_append_of_pos reversed]

theorem exists_trimBoth (p : Char → Bool) (text : List Char) :
    ∃ front back, text = front ++ (trimBoth p text ++ back) ∧
      (∀ c ∈ front, p c = true) ∧ ∀ c ∈ back, p c = true := by
  refine ⟨text.takeWhile p, (text.dropWhile p).rtakeWhile p, ?_,
    fun c member => List.mem_takeWhile_imp member, fun c member => List.mem_rtakeWhile_imp member⟩
  have trimmed : trimBoth p text = (text.dropWhile p).rdropWhile p := rfl
  rw [trimmed, List.rdropWhile_append_rtakeWhile, List.takeWhile_append_dropWhile]

/-- A text that starts with another character loses only its end. -/
theorem exists_trimBoth_cons {c : Char} (kept : p c = false) (rest : List Char) :
    ∃ left back, rest = left ++ back ∧ (∀ c ∈ back, p c = true) ∧
      trimBoth p (c :: rest) = c :: left := by
  obtain ⟨front, back, whole, front_blank, back_blank⟩ := exists_trimBoth p (c :: rest)
  cases front with
  | cons d front =>
    obtain ⟨rfl, -⟩ := List.cons.inj whole
    rw [front_blank c (by simp)] at kept
    cases kept
  | nil =>
    rw [List.nil_append] at whole
    cases trimmed : trimBoth p (c :: rest) with
    | nil =>
      rw [trimmed, List.nil_append] at whole
      rw [back_blank c (by simp [← whole])] at kept
      cases kept
    | cons d left =>
      rw [trimmed, List.cons_append] at whole
      obtain ⟨rfl, same⟩ := List.cons.inj whole
      exact ⟨left, back, same, back_blank, rfl⟩

theorem dropWhile_concat {c : Char} (kept : p c = false) (text : List Char) :
    (text ++ [c]).dropWhile p = text.dropWhile p ++ [c] := by
  rw [List.dropWhile_append]
  split
  · rename_i all_blank
    rw [List.isEmpty_iff.mp all_blank, List.dropWhile_cons_of_neg (by simp [kept]),
      List.nil_append]
  · rfl

/-- A text that ends with another character loses only its start. -/
theorem trimBoth_concat {c : Char} (kept : p c = false) (text : List Char) :
    trimBoth p (text ++ [c]) = text.dropWhile p ++ [c] := by
  rw [trimBoth, dropWhile_concat kept, List.reverse_append, List.reverse_singleton,
    List.singleton_append, List.dropWhile_cons_of_neg (by simp [kept]), List.reverse_cons,
    List.reverse_reverse]

theorem trimBoth_eq_self (kept : ∀ c ∈ text, p c = false) : trimBoth p text = text := by
  obtain ⟨front, back, whole, front_blank, back_blank⟩ := exists_trimBoth p text
  have empty : ∀ space : List Char, (∀ c ∈ space, c ∈ text) → (∀ c ∈ space, p c = true) →
      space = [] := by
    intro space within blank
    refine List.eq_nil_iff_forall_not_mem.mpr fun c member => ?_
    have space_char := blank c member
    rw [kept c (within c member)] at space_char
    cases space_char
  have no_front := empty front (fun c member => by rw [whole]; simp [member]) front_blank
  have no_back := empty back (fun c member => by rw [whole]; simp [member]) back_blank
  rw [no_front, no_back, List.nil_append, List.append_nil] at whole
  exact whole.symm

theorem fields_append_right (blank : ∀ c ∈ space, isSpace c = true) :
    fields (text ++ space) = fields text := by
  induction space generalizing text with
  | nil => rw [List.append_nil]
  | cons c space ih =>
    have single : fields (text ++ [c]) = fields text := by
      rw [fields, List.splitOnP_append_cons _ _ (blank c (by simp)), fields]
      simp
    rw [List.append_cons, ih fun c member => blank c (by simp [member]), single]

theorem fields_append_left (blank : ∀ c ∈ space, isSpace c = true) :
    fields (space ++ text) = fields text := by
  induction space with
  | nil => rfl
  | cons c space ih =>
    have single : fields (c :: (space ++ text)) = fields (space ++ text) := by
      have split := List.splitOnP_append_cons [] (space ++ text) (blank c (by simp))
      rw [List.nil_append] at split
      rw [fields, split, fields]
      simp
    rw [List.cons_append, single, ih fun c member => blank c (by simp [member])]

theorem fields_dropWhile (text : List Char) : fields (text.dropWhile isSpace) = fields text := by
  have whole : text.takeWhile isSpace ++ text.dropWhile isSpace = text :=
    List.takeWhile_append_dropWhile
  conv_rhs => rw [← whole]
  rw [fields_append_left fun c member => List.mem_takeWhile_imp member]

theorem fields_trimBoth (text : List Char) : fields (trimBoth isSpace text) = fields text := by
  obtain ⟨front, back, whole, front_blank, back_blank⟩ := exists_trimBoth isSpace text
  conv_rhs => rw [whole]
  rw [fields_append_left front_blank, fields_append_right back_blank]

end Trimming

section Lookalikes
variable {part text rest space : List Char}

theorem afterEquals_append_left (absent : '=' ∉ space) :
    afterEquals (space ++ text) = afterEquals text := by
  have dropped : ∀ c ∈ space, decide (c ≠ '=') = true := by
    intro c member
    rw [decide_eq_true_iff]
    rintro rfl
    exact absent member
  rw [afterEquals, List.dropWhile_append_of_pos dropped, afterEquals]

theorem afterEquals_cons : afterEquals ('=' :: text) = text := rfl

theorem afterEquals_append_right (present : '=' ∈ text) :
    afterEquals (text ++ rest) = afterEquals text ++ rest := by
  obtain ⟨front, back, rfl, absent⟩ := List.eq_append_cons_of_mem present
  rw [List.append_assoc, afterEquals_append_left absent, afterEquals_append_left absent,
    List.cons_append, afterEquals_cons, afterEquals_cons]

/-- Text that has no character of the word in it does not complete the word. -/
theorem isPrefixOf_append_iff {word : List Char} (apart : ∀ c ∈ word, ∀ d ∈ rest.head?, c ≠ d) :
    word.isPrefixOf (text ++ rest) = true ↔ word.isPrefixOf text = true := by
  rw [List.isPrefixOf_iff_prefix, List.isPrefixOf_iff_prefix]
  refine ⟨fun starts => ?_, fun starts => starts.trans (List.prefix_append _ _)⟩
  rcases List.prefix_or_prefix_of_prefix starts (List.prefix_append text rest) with short | ⟨more, rfl⟩
  · exact short
  · cases more with
    | nil => simp
    | cons c more =>
      have next := (List.prefix_append_right_inj text).mp starts
      cases rest with
      | nil => cases List.prefix_nil.mp next
      | cons d rest =>
        obtain ⟨same, -⟩ := List.cons_prefix_cons.mp next
        exact absurd same (apart c (by simp) d (by simp))

theorem not_isSpace_rel : ∀ c ∈ "rel".toList, isSpace c = false := by
  have all : "rel".toList.all (fun c => !isSpace c) = true := by decide
  intro c letter
  simpa using List.all_eq_true.mp all c letter

/-- The code trims a part before it looks at it. -/
theorem relParameter_eq (part : List Char) : relParameter part =
    (lookalike part).map fun value => trimBoth (· == '"') (trimBoth isSpace value) := by
  have trimmed : part.dropWhile isSpace =
      trimBoth isSpace part ++ (part.dropWhile isSpace).rtakeWhile isSpace :=
    List.rdropWhile_append_rtakeWhile.symm
  have whole : part = part.takeWhile isSpace ++ part.dropWhile isSpace :=
    (List.takeWhile_append_dropWhile).symm
  have front_blank : ∀ c ∈ part.takeWhile isSpace, isSpace c = true := fun c member =>
    List.mem_takeWhile_imp member
  have back_blank : ∀ c ∈ (part.dropWhile isSpace).rtakeWhile isSpace, isSpace c = true :=
    fun c member => List.mem_rtakeWhile_imp member
  generalize part.takeWhile isSpace = front at whole front_blank
  generalize (part.dropWhile isSpace).rtakeWhile isSpace = back at trimmed back_blank
  have unspaced : ∀ space : List Char, (∀ c ∈ space, isSpace c = true) → '=' ∉ space := by
    intro space blank member
    cases blank '=' member
  have starts : "rel".toList.isPrefixOf (part.dropWhile isSpace) = true ↔
      "rel".toList.isPrefixOf (trimBoth isSpace part) = true := by
    rw [trimmed]
    refine isPrefixOf_append_iff ?_
    rintro c letter d head rfl
    have blank := back_blank c (List.mem_of_mem_head? head)
    rw [not_isSpace_rel c letter] at blank
    cases blank
  have equals : '=' ∈ part ↔ '=' ∈ trimBoth isSpace part := by
    conv_lhs => rw [whole, trimmed]
    simp [unspaced front front_blank, unspaced back back_blank]
  by_cases found : "rel".toList.isPrefixOf (trimBoth isSpace part) = true ∧
      '=' ∈ trimBoth isSpace part
  · have after : afterEquals part = afterEquals (trimBoth isSpace part) ++ back := by
      conv_lhs => rw [whole, trimmed]
      rw [afterEquals_append_left (unspaced front front_blank), afterEquals_append_right found.2]
    rw [relParameter, if_pos found, lookalike, if_pos (by rwa [starts, equals]), Option.map_some,
      after, trimBoth_append_right back_blank, afterEquals]
  · rw [relParameter, if_neg found, lookalike, if_neg (by rwa [starts, equals]), Option.map_none]

/-- The relation that is found in a text, in the first part that looks like a parameter. -/
def relationIn (text : List Char) : Option (List Char) := (text.splitOn ';').findSome? relParameter

theorem relationIn_append_cons (text rest : List Char) :
    relationIn (text ++ ';' :: rest) = (relationIn text).or (relationIn rest) := by
  rw [relationIn, List.splitOn_append_cons_self, List.findSome?_append, relationIn, relationIn]

theorem relationIn_of_notMem (whole : ';' ∉ text) : relationIn text = relParameter text := by
  rw [relationIn, List.splitOn_eq_singleton whole, List.findSome?_singleton]

/-- A text is one part, or one part and a text after a semicolon. -/
theorem parts_induction {motive : List Char → Prop} (whole : ∀ part, ';' ∉ part → motive part)
    (more : ∀ part rest, ';' ∉ part → motive rest → motive (part ++ ';' :: rest)) (text : List Char) :
    motive text := by
  by_cases present : ';' ∈ text
  · obtain ⟨part, rest, same, absent⟩ := List.eq_append_cons_of_mem present
    have shorter : rest.length < text.length := by
      rw [same, List.length_append, List.length_cons]
      omega
    rw [same]
    exact more part rest absent (parts_induction whole more rest)
  · exact whole text present
termination_by text.length

theorem relParameter_append_blank (blank : ∀ c ∈ space, isSpace c = true) :
    relParameter (text ++ space) = relParameter text := by
  rw [relParameter, trimBoth_append_right blank, relParameter]

theorem relationIn_append_blank (blank : ∀ c ∈ space, isSpace c = true) :
    relationIn (text ++ space) = relationIn text := by
  have unsplit : ';' ∉ space := by
    intro member
    cases blank ';' member
  induction text using parts_induction with
  | whole part absent =>
    rw [relationIn_of_notMem absent, relationIn_of_notMem (by simp [absent, unsplit]),
      relParameter_append_blank blank]
  | more part rest absent ih =>
    rw [List.append_assoc, List.cons_append, relationIn_append_cons, relationIn_append_cons, ih]

theorem relationIn_blank (blank : ∀ c ∈ space, isSpace c = true) : relationIn space = none := by
  rw [← List.nil_append space, relationIn_append_blank blank]
  rfl

theorem parseLinkValue_cons {target : List Char} (closed : '>' ∉ target)
    (trimmed : trimBoth isSpace text = '<' :: (target ++ '>' :: rest)) :
    parseLinkValue text = (target, (relationIn rest).getD []) := by
  have before : ∀ c ∈ target, decide (c ≠ '>') = true := by
    intro c member
    rw [decide_eq_true_iff]
    rintro rfl
    exact closed member
  have target_eq : (target ++ '>' :: rest).takeWhile (· ≠ '>') = target := by
    rw [List.takeWhile_append_of_pos before]
    simp
  have rest_eq : (target ++ '>' :: rest).dropWhile (· ≠ '>') = '>' :: rest := by
    rw [List.dropWhile_append_of_pos before]
    simp
  unfold parseLinkValue
  rw [trimmed]
  refine (if_pos (by simp)).trans ?_
  rw [target_eq, rest_eq, List.drop_one, List.tail_cons, relationIn]

/-- What the code reads of a link with anything behind its target. -/
theorem parseLinkValue_trimBoth {target : List Char} (blank : ∀ c ∈ space, isSpace c = true)
    (closed : '>' ∉ target) :
    parseLinkValue (trimBoth isSpace (space ++ '<' :: (target ++ '>' :: rest))) =
      (target, (relationIn rest).getD []) := by
  rw [trimBoth_append_left blank]
  obtain ⟨once, back, whole, back_blank, trimmed⟩ :=
    exists_trimBoth_cons (show isSpace '<' = false from rfl) (target ++ '>' :: rest)
  obtain ⟨twice, back', once_eq, back_blank', trimmed'⟩ :=
    exists_trimBoth_cons (show isSpace '<' = false from rfl) once
  rw [once_eq, List.append_assoc] at whole
  have dropped : ∀ c ∈ back' ++ back, isSpace c = true := fun c member =>
    (List.mem_append.mp member).elim (back_blank' c) (back_blank c)
  have unclosed : '>' ∉ back' ++ back := by
    intro member
    cases dropped '>' member
  rw [trimmed]
  -- The blanks at the end are after the closing bracket.
  rcases List.append_eq_append_iff.mp whole with ⟨left, twice_eq, rest_eq⟩ | ⟨left, -, back_eq⟩
  · cases left with
    | nil =>
      rw [List.nil_append] at rest_eq
      exact absurd (by simp [← rest_eq]) unclosed
    | cons c left =>
      rw [List.cons_append] at rest_eq
      obtain ⟨rfl, behind⟩ := List.cons.inj rest_eq
      rw [twice_eq] at trimmed'
      rw [parseLinkValue_cons closed trimmed', behind, relationIn_append_blank dropped]
  · rw [back_eq] at unclosed
    exact absurd (by simp) unclosed

end Lookalikes

end LinkGrammar
