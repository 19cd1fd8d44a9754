import StacProxy.LinkParts

/-!
# Reading Link headers

What `parseNextFromLinkHeader` makes of values that the grammar generates. If no parameter
upsets the splitting, each link is read by the first of its parts that looks like a `rel`
parameter. Values are read right if the parameters up to the first link to a next page are
harmless: the code does not look at what is behind that link.
-/

namespace LinkGrammar

open PageAdapter OutboundRequest

section Reading
variable (lib : Library)

theorem Blank.isSpace (blank : Blank) : ∀ c ∈ blank.1, PageAdapter.isSpace c = true := by
  intro c member
  rcases blank.2 c member with rfl | rfl <;> rfl

theorem Blank.notMem (blank : Blank) {c : Char} (visible : PageAdapter.isSpace c = false) :
    c ∉ blank.1 := by
  intro member
  rw [blank.isSpace c member] at visible
  cases visible

theorem Token.notMem (token : Token) {c : Char} (invalid : validFieldChar c = false) :
    c ∉ token.1 := by
  intro member
  rw [token.2.2 c member] at invalid
  cases invalid

/-- What the code takes from one piece of a value. -/
def reading (piece : List Char) : Option String :=
  let (href, rel) := parseLinkValue piece
  if href ≠ [] ∧ containsRel lib rel "next" then some (String.ofList href) else none

theorem parseNextFromLinkHeader_eq (headers : List String) : parseNextFromLinkHeader lib headers =
    (headers.findSome? fun header =>
      (splitLinkValues 0 [] header.toList).findSome? (reading lib)).getD "" := rfl

/-- Whether the code takes a link for one to the next page. -/
def Link.seenNext (l : Link) : Bool := (l.params.findSome? (Param.found lib)).getD false

theorem relationIn_params (params : List Param) (space : Blank) :
    relationIn (params.flatMap Param.text ++ space.1) =
      params.findSome? fun q => relationIn q.body := by
  induction params with
  | nil => exact relationIn_blank space.isSpace
  | cons q params ih =>
    have behind : relationIn (q.body ++ (params.flatMap Param.text ++ space.1)) =
        (relationIn q.body).or (relationIn (params.flatMap Param.text ++ space.1)) := by
      cases params with
      | nil =>
        rw [List.flatMap_nil, List.nil_append, relationIn_append_blank space.isSpace,
          relationIn_blank space.isSpace, Option.or_none]
      | cons q' params =>
        rw [List.flatMap_cons, Param.text, List.append_assoc, List.append_assoc, List.cons_append,
          ← List.append_assoc, relationIn_append_cons, relationIn_append_cons,
          relationIn_append_blank q'.before.isSpace, relationIn_blank q'.before.isSpace,
          Option.none_or]
    rw [List.flatMap_cons, Param.text, List.append_assoc, List.append_assoc, List.cons_append,
      relationIn_append_cons, relationIn_blank q.before.isSpace, Option.none_or, behind, ih,
      List.findSome?_cons]
    cases relationIn q.body <;> rfl

theorem containsRel_congr {lib : Library} {text text' : List Char} (same : fields text = fields text')
    (relation : String) : containsRel lib text relation = containsRel lib text' relation := by
  rw [containsRel, same, containsRel]

/-- Quotes at the ends of a part are not part of the relations. -/
theorem fields_trimBoth_quotes {text : List Char} (unquoted : '"' ∉ text) (opening closing : Bool) :
    fields (trimBoth (· == '"') (trimBoth isSpace
      ((if opening then ['"'] else []) ++ (text ++ if closing then ['"'] else [])))) =
    fields text := by
  have stripped : ∀ inner : List Char, '"' ∉ inner →
      trimBoth (· == '"') ((if opening then ['"'] else []) ++
        (inner ++ if closing then ['"'] else [])) = inner := by
    intro inner unquoted
    have plain : ∀ c ∈ inner, (c == '"') = false := by
      intro c member
      rw [beq_eq_false_iff_ne]
      rintro rfl
      exact unquoted member
    have quotes : ∀ present : Bool, ∀ c ∈ (if present then ['"'] else []), (c == '"') = true :=
      fun present => List.all_eq_true.mp (by cases present <;> rfl)
    rw [trimBoth_append_left (quotes opening), trimBoth_append_right (quotes closing),
      trimBoth_eq_self plain]
  have outer : ∃ inner, trimBoth isSpace ((if opening then ['"'] else []) ++
        (text ++ if closing then ['"'] else [])) =
      (if opening then ['"'] else []) ++ (inner ++ if closing then ['"'] else []) ∧
        (∀ c ∈ inner, c ∈ text) ∧ fields inner = fields text := by
    have quote : isSpace '"' = false := rfl
    cases opening with
    | false =>
      cases closing with
      | false =>
        obtain ⟨front, back, whole, -⟩ := exists_trimBoth isSpace text
        refine ⟨trimBoth isSpace text, by simp, ?_, fields_trimBoth text⟩
        intro c member
        rw [whole]
        simp [member]
      | true =>
        exact ⟨text.dropWhile isSpace, by simpa using trimBoth_concat quote text,
          fun c member => (List.dropWhile_sublist _).subset member, fields_dropWhile text⟩
    | true =>
      cases closing with
      | false =>
        obtain ⟨left, back, rfl, blank, trimmed⟩ := exists_trimBoth_cons quote text
        exact ⟨left, by simpa using trimmed, fun c member => by simp [member],
          (fields_append_right blank).symm⟩
      | true =>
        refine ⟨text, ?_, fun c member => member, rfl⟩
        have whole := trimBoth_concat quote ('"' :: text)
        rw [List.dropWhile_cons_of_neg (by simp [quote])] at whole
        simpa using whole
  obtain ⟨inner, trimmed, within, same⟩ := outer
  rw [trimmed, stripped inner fun member => unquoted (within _ member), same]

theorem Token.isSpace_eq_false (token : Token) : ∀ c ∈ token.1, PageAdapter.isSpace c = false := by
  have invalid : ∀ n ∈ [9, 10, 11, 12, 13, 32, 0x85, 0xA0, 0x1680, 0x2028, 0x2029, 0x202F, 0x205F,
      0x3000] ++ List.range' 0x2000 11, validFieldChar (Char.ofNat n) = false := by decide +kernel
  intro c member
  have valid := token.2.2 c member
  by_contra blank
  rw [Bool.not_eq_false, PageAdapter.isSpace, Bool.or_eq_true, List.contains_iff_mem] at blank
  have listed : c.toNat ∈ [9, 10, 11, 12, 13, 32, 0x85, 0xA0, 0x1680, 0x2028, 0x2029, 0x202F,
      0x205F, 0x3000] ++ List.range' 0x2000 11 := by
    rw [List.mem_append, List.mem_range'_1]
    refine blank.imp_right fun within => ?_
    rw [Bool.and_eq_true, decide_eq_true_iff, decide_eq_true_iff] at within
    omega
  have refused := invalid _ listed
  rw [Char.ofNat_toNat, valid] at refused
  cases refused

theorem lookalike_append_quote {part : List Char} : lookalike (part ++ ['"']) =
    (lookalike part).map (· ++ ['"']) := by
  have starts : "rel".toList.isPrefixOf ((part ++ ['"']).dropWhile isSpace) = true ↔
      "rel".toList.isPrefixOf (part.dropWhile isSpace) = true := by
    rw [dropWhile_concat rfl]
    refine isPrefixOf_append_iff fun c letter d head => ?_
    obtain rfl : '"' = d := by simpa using head
    rintro rfl
    exact absurd letter (by decide)
  have equals : '=' ∈ part ++ ['"'] ↔ '=' ∈ part := by simp
  by_cases found : "rel".toList.isPrefixOf (part.dropWhile isSpace) = true ∧ '=' ∈ part
  · rw [lookalike, if_pos (by rwa [starts, equals]), lookalike, if_pos found,
      afterEquals_append_right found.2, Option.map_some]
  · rw [lookalike, if_neg (by rwa [starts, equals]), lookalike, if_neg found, Option.map_none]

theorem mem_of_mem_afterEquals {part : List Char} {c : Char} (member : c ∈ afterEquals part) :
    c ∈ part :=
  (List.dropWhile_sublist _).subset (List.mem_of_mem_drop member)

/-- A part of a quoted text, with or without the quote that ends the text. -/
theorem map_relParameter {part : List Char} (unquoted : '"' ∉ part) (closing : Bool) :
    (relParameter (part ++ if closing then ['"'] else [])).map (containsRel lib · "next") =
      (lookalike part).map (containsRel lib · "next") := by
  have appended : lookalike (part ++ if closing then ['"'] else []) =
      (lookalike part).map (· ++ if closing then ['"'] else []) := by
    cases closing with
    | false => simp
    | true => exact lookalike_append_quote
  rw [relParameter_eq, appended, Option.map_map, Option.map_map]
  refine Option.map_congr fun value found => ?_
  have within : '"' ∉ value := by
    unfold lookalike at found
    split at found
    · cases found
      exact fun member => unquoted (mem_of_mem_afterEquals member)
    · cases found
  exact containsRel_congr (fields_trimBoth_quotes within false closing) "next"

theorem map_relationIn_quote {text : List Char} (unquoted : '"' ∉ text) :
    (relationIn (text ++ ['"'])).map (containsRel lib · "next") =
      ((text.splitOn ';').findSome? lookalike).map (containsRel lib · "next") := by
  induction text using parts_induction with
  | whole part absent =>
    rw [relationIn_of_notMem (by simp [absent]), List.splitOn_eq_singleton absent,
      List.findSome?_singleton]
    exact map_relParameter lib unquoted true
  | more part rest absent ih =>
    have unquoted_part : '"' ∉ part := fun member => unquoted (by simp [member])
    have single := map_relParameter lib unquoted_part false
    rw [if_neg Bool.false_ne_true, List.append_nil] at single
    rw [List.append_assoc, List.cons_append, relationIn_append_cons, Option.map_or,
      ih fun member => unquoted (by simp [member]), relationIn_of_notMem absent, single,
      List.splitOn_append_cons_self, List.findSome?_append, Option.map_or,
      List.splitOn_eq_singleton absent, List.findSome?_singleton]

/-- The part of a parameter that has its name looks like `rel` by that name. -/
theorem lookalike_named (after gap : Blank) (name : Token) (value : List Char) :
    lookalike (after.1 ++ (name.1 ++ (gap.1 ++ '=' :: value))) =
      if "rel".toList.isPrefixOf name.1 then some value else none := by
  have dropped : (after.1 ++ (name.1 ++ (gap.1 ++ '=' :: value))).dropWhile isSpace =
      name.1 ++ (gap.1 ++ '=' :: value) := by
    rw [List.dropWhile_append_of_pos after.isSpace]
    obtain ⟨c, letters, name_eq⟩ := List.exists_cons_of_ne_nil name.2.1
    have kept := name.isSpace_eq_false c (by simp [name_eq])
    rw [name_eq, List.cons_append, List.dropWhile_cons_of_neg (by simp [kept])]
  have starts : "rel".toList.isPrefixOf (name.1 ++ (gap.1 ++ '=' :: value)) = true ↔
      "rel".toList.isPrefixOf name.1 = true := by
    refine isPrefixOf_append_iff fun c letter d head => ?_
    have other : d = ' ' ∨ d = '\t' ∨ d = '=' := by
      obtain ⟨blanks, allowed⟩ := gap
      cases blanks with
      | nil =>
        obtain rfl : '=' = d := by simpa using head
        simp
      | cons b blanks =>
        obtain rfl : b = d := by simpa using head
        rcases allowed b (by simp) with rfl | rfl <;> simp
    have apart : ∀ d ∈ [' ', '\t', '='], d ∉ "rel".toList := by simp
    rintro rfl
    exact apart c (by simpa using other) letter
  have after_eq : afterEquals (after.1 ++ (name.1 ++ (gap.1 ++ '=' :: value))) = value := by
    rw [afterEquals_append_left (after.notMem rfl), afterEquals_append_left (name.notMem rfl),
      afterEquals_append_left (gap.notMem rfl), afterEquals_cons]
  have present : '=' ∈ after.1 ++ (name.1 ++ (gap.1 ++ '=' :: value)) := by simp
  by_cases named : "rel".toList.isPrefixOf name.1 = true
  · rw [lookalike, dropped, if_pos ⟨starts.mpr named, present⟩, after_eq, if_pos named]
  · rw [lookalike, dropped, if_neg fun both => named (starts.mp both.1), if_neg named]

theorem takeWhile_semicolon {text : List Char} (absent : ';' ∉ text) (rest : List Char) :
    (text ++ ';' :: rest).takeWhile (· ≠ ';') = text := by
  rw [List.takeWhile_append_of_pos]
  · simp
  · intro c member
    rw [decide_eq_true_iff]
    rintro rfl
    exact absent member

theorem Param.found_of_whole {q : Param} (valued : q.value.isSome = true) (whole : ';' ∉ q.meaning) :
    q.found lib = if "rel".toList.isPrefixOf q.name.1 then
      some (containsRel lib q.meaning "next") else none := by
  have taken : q.meaning.takeWhile (· ≠ ';') = q.meaning := by
    rw [List.takeWhile_eq_self_iff]
    intro c member
    rw [decide_eq_true_iff]
    rintro rfl
    exact whole member
  rw [Param.found, taken, List.splitOn_eq_singleton whole]
  simp [valued]

theorem Param.found_of_split {q : Param} {text rest : List Char} (valued : q.value.isSome = true)
    (split : q.meaning = text ++ ';' :: rest) (absent : ';' ∉ text) :
    q.found lib = if "rel".toList.isPrefixOf q.name.1 then some (containsRel lib text "next")
      else ((rest.splitOn ';').findSome? lookalike).map (containsRel lib · "next") := by
  rw [Param.found, split, takeWhile_semicolon absent, List.splitOn_append_cons_self,
    List.splitOn_eq_singleton absent, List.singleton_append, List.tail_cons]
  simp only [valued, and_true]

/-- Up to a semicolon in its value, a parameter is one part. -/
theorem map_relationIn_named (after gap space : Blank) (name : Token) {text : List Char}
    (unquoted : '"' ∉ text) (whole : ';' ∉ text) (opening closing : Bool) :
    (relationIn (after.1 ++ (name.1 ++ (gap.1 ++ '=' :: (space.1 ++
      ((if opening then ['"'] else []) ++ (text ++ if closing then ['"'] else []))))))).map
        (containsRel lib · "next") =
      if "rel".toList.isPrefixOf name.1 then some (containsRel lib text "next") else none := by
  have quotes : ∀ present : Bool, ';' ∉ (if present then ['"'] else []) := by decide
  have blanks : ∀ blank : Blank, ';' ∉ blank.1 := fun blank => blank.notMem rfl
  have letters : ';' ∉ name.1 := name.notMem rfl
  rw [relationIn_of_notMem (by simp [blanks, letters, whole, quotes])]
  generalize value_eq : space.1 ++ ((if opening then ['"'] else []) ++
    (text ++ if closing then ['"'] else [])) = value
  have answer : containsRel lib (trimBoth (· == '"') (trimBoth isSpace value)) "next" =
      containsRel lib text "next" := by
    rw [← value_eq, trimBoth_append_left space.isSpace]
    exact containsRel_congr (fields_trimBoth_quotes unquoted opening closing) "next"
  rw [relParameter_eq, lookalike_named]
  split
  · rw [Option.map_some, Option.map_some, answer]
  · rfl

theorem relationIn_unvalued (after gap : Blank) (name : Token) :
    relationIn (after.1 ++ (name.1 ++ (gap.1 ++ []))) = none := by
  have absent : ∀ c, PageAdapter.isSpace c = false → validFieldChar c = false →
      c ∉ after.1 ++ (name.1 ++ (gap.1 ++ [])) := fun c visible invalid => by
    simp [after.notMem visible, gap.notMem visible, name.notMem invalid]
  rw [relationIn_of_notMem (absent ';' rfl rfl), relParameter_eq, lookalike,
    if_neg fun both => absent '=' rfl rfl both.2, Option.map_none]

/-- What the code finds in a parameter is what its look-alikes say. -/
theorem map_relationIn_body (q : Param) :
    (relationIn q.body).map (containsRel lib · "next") = q.found lib := by
  obtain ⟨before, after, name, gap, value⟩ := q
  match value with
  | none =>
    rw [Param.body]
    simp only [Option.elim]
    rw [relationIn_unvalued]
    simp [Param.found, Param.meaning]
  | some (space, .token text) =>
    rw [@Param.found_of_whole lib ⟨before, after, name, gap, some (space, .token text)⟩ rfl
      (text.notMem rfl)]
    simpa [Param.body, Param.meaning, Value.text, Value.meaning] using
      map_relationIn_named lib after gap space name (text.notMem rfl) (text.notMem rfl) false false
  | some (space, .quoted text) =>
    by_cases split : ';' ∈ text.1
    · obtain ⟨front, rest, same, absent⟩ := List.eq_append_cons_of_mem split
      have unquoted : '"' ∉ front ∧ '"' ∉ rest := by
        have unquoted := text.2.1
        rw [same] at unquoted
        simp_all
      have body_eq : Param.body ⟨before, after, name, gap, some (space, .quoted text)⟩ =
          (after.1 ++ (name.1 ++ (gap.1 ++ '=' :: (space.1 ++ (['"'] ++ (front ++ [])))))) ++
            ';' :: (rest ++ ['"']) := by
        simp [Param.body, Value.text, same]
      rw [@Param.found_of_split lib ⟨before, after, name, gap, some (space, .quoted text)⟩ front rest rfl
        same absent, body_eq, relationIn_append_cons, Option.map_or,
        map_relationIn_quote lib unquoted.2]
      have read := map_relationIn_named lib after gap space name unquoted.1 absent true false
      simp only [if_true, Bool.false_eq_true, if_false] at read
      rw [read]
      split <;> rfl
    · rw [@Param.found_of_whole lib ⟨before, after, name, gap, some (space, .quoted text)⟩ rfl split]
      simpa [Param.body, Param.meaning, Value.text, Value.meaning] using
        map_relationIn_named lib after gap space name text.2.1 split true true

theorem containsRel_relationIn (params : List Param) :
    containsRel lib ((params.findSome? fun q => relationIn q.body).getD []) "next" =
      (params.findSome? (Param.found lib)).getD false := by
  have answers : (params.findSome? fun q => relationIn q.body).map (containsRel lib · "next") =
      params.findSome? (Param.found lib) := by
    rw [List.map_findSome?]
    exact congrArg (List.findSome? · params) (funext fun q => map_relationIn_body lib q)
  rw [← answers]
  cases params.findSome? fun q => relationIn q.body <;> rfl

/-- The target of a link that the code takes for the next page. -/
def Link.choice (l : Link) : Option String :=
  if l.target.1 ≠ [] ∧ l.seenNext lib = true then some (String.ofList l.target.1) else none

theorem reading_element (e : Element) :
    reading lib (trimBoth isSpace e.text) = e.link.bind (Link.choice lib) := by
  obtain ⟨before, link, after⟩ := e
  cases link with
  | none =>
    have nothing : trimBoth isSpace (Element.text ⟨before, none, after⟩) = [] := by
      rw [Element.text, trimBoth_append_left before.isSpace, Option.elim_none,
        trimBoth_append_right after.isSpace]
      rfl
    rw [nothing]
    rfl
  | some l =>
    have whole : Element.text ⟨before, some l, after⟩ = before.1 ++ '<' :: (l.target.1 ++
        '>' :: (l.params.flatMap Param.text ++ after.1)) := by
      simp [Element.text, Link.text]
    rw [whole, reading, parseLinkValue_trimBoth before.isSpace l.target.2.2, relationIn_params]
    dsimp only
    rw [containsRel_relationIn, Option.bind_some, Link.choice, Link.seenNext]

/-- A settled element is read by its own parameters. -/
theorem findSome?_reading_settled {e : Element} (settled : e.Settled) {tail : List Char}
    (starts : ∀ c ∈ tail.head?, c = ',') :
    (splitLinkValues 0 [] (e.text ++ tail)).findSome? (reading lib) =
      (e.link.bind (Link.choice lib)).or
        ((splitLinkValues 0 [] tail.tail).findSome? (reading lib)) := by
  rw [splitLinkValues_append (depthAfter_element settled), List.nil_append, ← reading_element]
  by_cases filled : e.text = []
  · rw [filled]
    cases tail with
    | nil => rfl
    | cons c rest =>
      obtain rfl := starts c (by simp)
      rfl
  · rw [splitLinkValues_comma starts filled, List.findSome?_cons]
    cases reading lib (trimBoth isSpace e.text) <;> rfl

end Reading

section Correctness
variable {lib : Library}

/-- The parameters of a link up to its first `rel` parameter, which decides on the relation. -/
def upToRel : List Param → List Param
  | [] => []
  | q :: rest => if q.isRel then [q] else q :: upToRel rest

/-- The parameters that matter for the next page are harmless. Of the first link to a next page
that has a target these are the ones up to its `rel` parameter, and what is behind them does not
matter. On a link before that one, a parameter behind the `rel` parameter still has to leave the
splitting alone. -/
def Readable (lib : Library) : List Link → Prop
  | [] => True
  | l :: rest => (∀ q ∈ upToRel l.params, q.Harmless lib) ∧
      ((l.isNext lib = true ∧ l.target.1 ≠ []) ∨
        (∀ q ∈ l.params, depthAfter 0 q.meaning = some 0) ∧ Readable lib rest)

/-- The first link to a next page has a target, unless none of them has. -/
def Targeted (lib : Library) (values : List (List Element)) : Prop :=
  ∀ l, (links values).find? (Link.isNext lib) = some l → l.target.1 = [] →
    ∀ l' ∈ links values, l'.isNext lib = true → l'.target.1 = []

/-- The target of a link to a next page, if it has one. -/
def Link.page (lib : Library) (l : Link) : Option String :=
  if l.target.1 ≠ [] ∧ l.isNext lib = true then some (String.ofList l.target.1) else none

theorem exists_upToRel (params : List Param) : ∃ rest, params = upToRel params ++ rest ∧
    (params.find? Param.isRel = none → rest = []) := by
  induction params with
  | nil => exact ⟨[], rfl, fun _ => rfl⟩
  | cons q params ih =>
    rw [upToRel]
    split
    · rename_i named
      exact ⟨params, rfl, fun none => by rw [List.find?_cons_of_pos named] at none; cases none⟩
    · rename_i other
      obtain ⟨rest, same, nothing⟩ := ih
      exact ⟨rest, by rw [List.cons_append, ← same],
        fun none => nothing (by rwa [List.find?_cons_of_neg other] at none)⟩

theorem findSome?_upToRel {params : List Param} (harmless : ∀ q ∈ upToRel params, q.Harmless lib) :
    (upToRel params).findSome? (Param.found lib) =
      (params.find? Param.isRel).map fun q => containsRel lib q.meaning "next" := by
  induction params with
  | nil => rfl
  | cons q params ih =>
    rw [upToRel] at harmless ⊢
    split at harmless
    · rename_i named
      rw [if_pos named, List.findSome?_singleton, (harmless q (by simp)).found_eq, if_pos named,
        List.find?_cons_of_pos named, Option.map_some]
    · rename_i other
      rw [if_neg other, List.findSome?_cons, (harmless q (by simp)).found_eq, if_neg other,
        List.find?_cons_of_neg other]
      exact ih fun q member => harmless q (by simp [member])

theorem Link.isNext_eq (l : Link) : l.isNext lib =
    ((l.params.find? Param.isRel).map fun q => containsRel lib q.meaning "next").getD false := by
  rw [Link.isNext, Link.relation]
  cases l.params.find? Param.isRel <;> rfl

theorem Link.seenNext_eq {l : Link} (harmless : ∀ q ∈ upToRel l.params, q.Harmless lib) :
    l.seenNext lib = l.isNext lib := by
  obtain ⟨rest, split, nothing⟩ := exists_upToRel l.params
  rw [Link.seenNext, Link.isNext_eq, split, List.findSome?_append, ← split,
    findSome?_upToRel harmless]
  cases named : l.params.find? Param.isRel with
  | none => rw [nothing named]; rfl
  | some q => rfl

theorem Link.choice_eq {l : Link} (harmless : ∀ q ∈ upToRel l.params, q.Harmless lib) :
    l.choice lib = l.page lib := by
  rw [Link.choice, Link.seenNext_eq harmless, Link.page]

/-- The relation of the first link to a next page is found, whatever is behind its `rel`
parameter. -/
theorem containsRel_upToRel {l : Link} (harmless : ∀ q ∈ upToRel l.params, q.Harmless lib)
    (next : l.isNext lib = true) (space : Blank) {rest : List Char}
    (starts : ∀ c ∈ rest.head?, c = ';') :
    containsRel lib ((relationIn ((upToRel l.params).flatMap Param.text ++
      (space.1 ++ rest))).getD []) "next" = true := by
  have found : ∃ relation, relationIn ((upToRel l.params).flatMap Param.text ++ space.1) =
      some relation ∧ containsRel lib relation "next" = true := by
    have answers := containsRel_relationIn lib (upToRel l.params)
    rw [findSome?_upToRel harmless, ← Link.isNext_eq, next, ← relationIn_params _ space] at answers
    cases relation : relationIn ((upToRel l.params).flatMap Param.text ++ space.1) with
    | none =>
      rw [relation] at answers
      cases answers
    | some relation' =>
      rw [relation] at answers
      exact ⟨relation', rfl, answers⟩
  obtain ⟨relation, found, answer⟩ := found
  cases rest with
  | nil => rwa [List.append_nil, found]
  | cons c rest =>
    obtain rfl := starts c (by simp)
    rw [← List.append_assoc, relationIn_append_cons, found]
    exact answer

/-- What stands behind the parameters up to `rel`: blanks, and then the link has ended or another
parameter begins. -/
theorem exists_behind (others : List Param) (after : Blank) {tail : List Char}
    (starts : ∀ c ∈ tail.head?, c = ',') : ∃ (space : Blank) (rest : List Char),
      others.flatMap Param.text ++ (after.1 ++ tail) = space.1 ++ rest ∧
        ∀ c ∈ rest.head?, c = ',' ∨ c = ';' := by
  cases others with
  | nil => exact ⟨after, tail, rfl, fun c head => .inl (starts c head)⟩
  | cons q others =>
    exact ⟨q.before, ';' :: (q.body ++ (others.flatMap Param.text ++ (after.1 ++ tail))),
      by simp [Param.text], by simp⟩

/-- The first piece of a value that begins with a link to a next page. -/
theorem findSome?_reading_next {e : Element} {l : Link} (linked : e.link = some l)
    (harmless : ∀ q ∈ upToRel l.params, q.Harmless lib) (next : l.isNext lib = true)
    (targeted : l.target.1 ≠ []) {tail : List Char} (starts : ∀ c ∈ tail.head?, c = ',') :
    (splitLinkValues 0 [] (e.text ++ tail)).findSome? (reading lib) =
      some (String.ofList l.target.1) := by
  obtain ⟨others, split, -⟩ := exists_upToRel l.params
  obtain ⟨space, rest, behind, starts⟩ := exists_behind others e.after starts
  let lead : Element := ⟨e.before, some ⟨l.target, upToRel l.params⟩, space⟩
  have whole : e.text ++ tail = lead.text ++ rest := by
    have text_eq : Link.text l ++ (e.after.1 ++ tail) = Link.text ⟨l.target, upToRel l.params⟩ ++
        (others.flatMap Param.text ++ (e.after.1 ++ tail)) := by
      have params_eq := congrArg (List.flatMap Param.text) split
      rw [List.flatMap_append] at params_eq
      simp [Link.text, params_eq]
    simp [Element.text, linked, lead, text_eq, behind]
  have settled : lead.Settled := by
    rintro _ ⟨⟩ q member
    exact (harmless q member).settled
  have filled : lead.text ≠ [] := by simp [Element.text, lead, Link.text]
  -- The link is read from a piece that goes on behind it at most with another parameter.
  have read : ∀ {more}, (∀ c ∈ more.head?, c = ';') →
      reading lib (trimBoth isSpace (lead.text ++ more)) = some (String.ofList l.target.1) := by
    intro more starts
    have piece : lead.text ++ more = e.before.1 ++ '<' :: (l.target.1 ++ '>' ::
        ((upToRel l.params).flatMap Param.text ++ (space.1 ++ more))) := by
      simp [Element.text, lead, Link.text]
    rw [piece, reading, parseLinkValue_trimBoth e.before.isSpace l.target.2.2]
    exact if_pos ⟨targeted, containsRel_upToRel harmless next space starts⟩
  rw [whole, splitLinkValues_append (depthAfter_element settled), List.nil_append]
  cases rest with
  | nil =>
    rw [splitLinkValues_comma (by simp) filled, List.findSome?_cons, ← List.append_nil lead.text,
      read (by simp)]
  | cons c rest =>
    rcases starts c (by simp) with rfl | rfl
    · rw [splitLinkValues_comma (by simp) filled, List.findSome?_cons, ← List.append_nil lead.text,
        read (by simp)]
    · have semicolon : splitLinkValues 0 lead.text (';' :: rest) =
          splitLinkValues 0 (lead.text ++ [';']) rest := rfl
      obtain ⟨more, pieces, first⟩ := @exists_splitLinkValues 0 (lead.text ++ [';']) rest (by simp)
      rw [semicolon, first, List.append_assoc, List.findSome?_cons, read (by simp)]

/-- Readable links are read in their order up to the first next page. -/
theorem findSome?_reading_readable {elements : List Element}
    (readable : Readable lib (elements.filterMap Element.link)) :
    (splitLinkValues 0 [] (valueText elements)).findSome? (reading lib) =
      (elements.filterMap Element.link).findSome? (Link.page lib) := by
  induction elements with
  | nil => rfl
  | cons e elements ih =>
    obtain ⟨tail, text_eq, tail_eq, starts⟩ := exists_valueText_cons e elements
    rw [text_eq]
    cases linked : e.link with
    | none =>
      have settled : e.Settled := by simp [Element.Settled, linked]
      rw [List.filterMap_cons_none linked] at readable ⊢
      rw [findSome?_reading_settled lib settled starts, linked, tail_eq, ih readable]
      rfl
    | some l =>
      rw [List.filterMap_cons_some linked] at readable ⊢
      obtain ⟨harmless, ⟨next, targeted⟩ | ⟨settled, readable⟩⟩ := readable
      · have page : l.page lib = some (String.ofList l.target.1) := if_pos ⟨targeted, next⟩
        rw [findSome?_reading_next linked harmless next targeted starts, List.findSome?_cons, page]
      · have settled : e.Settled := by
          intro l' linked'
          cases linked.symm.trans linked'
          exact settled
        rw [findSome?_reading_settled lib settled starts, linked, tail_eq, ih readable,
          Option.bind_some, Link.choice_eq harmless, List.findSome?_cons]
        cases l.page lib <;> rfl

theorem Readable.append {first second : List Link} (readable : Readable lib (first ++ second)) :
    Readable lib first ∧ (first.findSome? (Link.page lib) = none → Readable lib second) := by
  induction first with
  | nil => exact ⟨trivial, fun _ => readable⟩
  | cons l first ih =>
    obtain ⟨harmless, ⟨next, targeted⟩ | ⟨settled, readable⟩⟩ := readable
    · refine ⟨⟨harmless, .inl ⟨next, targeted⟩⟩, fun none => ?_⟩
      rw [List.findSome?_cons, Link.page, if_pos ⟨targeted, next⟩] at none
      cases none
    · obtain ⟨first_readable, later⟩ := ih readable
      refine ⟨⟨harmless, .inr ⟨settled, first_readable⟩⟩, fun none => later ?_⟩
      rw [List.findSome?_cons] at none
      split at none
      · cases none
      · exact none

theorem parseNextFromLinkHeader_readable {values : List (List Element)}
    (readable : Readable lib (links values)) :
    parseNextFromLinkHeader lib (values.map fun elements => String.ofList (valueText elements)) =
      ((links values).findSome? (Link.page lib)).getD "" := by
  rw [parseNextFromLinkHeader_eq, List.findSome?_map]
  congr 1
  induction values with
  | nil => rfl
  | cons elements values ih =>
    have links_eq : links (elements :: values) =
        elements.filterMap Element.link ++ links values := by
      rw [links, List.flatten_cons, List.filterMap_append, links]
    rw [links_eq] at readable ⊢
    obtain ⟨first, later⟩ := readable.append
    rw [List.findSome?_cons, Function.comp_apply, String.toList_ofList,
      findSome?_reading_readable first, List.findSome?_append]
    cases found : (elements.filterMap Element.link).findSome? (Link.page lib) with
    | none => exact ih (later found)
    | some target => rfl

theorem Link.page_eq_none_iff {l : Link} :
    l.page lib = none ↔ (l.isNext lib = true → l.target.1 = []) := by
  rw [Link.page]
  split
  · rename_i chosen
    simp [chosen.1, chosen.2]
  · rename_i passed
    simp only [true_iff]
    intro next
    by_contra targeted
    exact passed ⟨targeted, next⟩

theorem Link.page_ne_empty {l : Link} {target : String} (chosen : l.page lib = some target) :
    target ≠ "" := by
  unfold Link.page at chosen
  split at chosen
  · rename_i targeted
    cases chosen
    intro empty
    exact targeted.1 (by simpa using congrArg String.toList empty)
  · cases chosen

/-- A link to a next page without a target is passed over. -/
theorem findSome?_page_eq_iff (found : List Link) :
    (found.findSome? (Link.page lib)).getD "" =
        ((found.find? (Link.isNext lib)).map fun l => String.ofList l.target.1).getD "" ↔
      ∀ l, found.find? (Link.isNext lib) = some l → l.target.1 = [] →
        ∀ l' ∈ found, l'.isNext lib = true → l'.target.1 = [] := by
  induction found with
  | nil => simp
  | cons l found ih =>
    cases next : l.isNext lib with
    | false =>
      have passed : l.page lib = none := Link.page_eq_none_iff.mpr fun taken => by simp [next] at taken
      rw [List.findSome?_cons, passed, List.find?_cons_of_neg (by simp [next])]
      simpa [next] using ih
    | true =>
      rw [List.findSome?_cons, List.find?_cons_of_pos next]
      by_cases empty : l.target.1 = []
      · have passed : l.page lib = none := Link.page_eq_none_iff.mpr fun _ => empty
        have rest_empty : (found.findSome? (Link.page lib)).getD "" = "" ↔
            ∀ l' ∈ found, l'.isNext lib = true → l'.target.1 = [] := by
          rw [← forall₂_congr fun l (_ : l ∈ found) => @Link.page_eq_none_iff lib l,
            ← List.findSome?_eq_none_iff]
          cases first : found.findSome? (Link.page lib) with
          | none => simp
          | some target =>
            obtain ⟨l', -, chosen⟩ := List.exists_of_findSome?_eq_some first
            simp [Link.page_ne_empty chosen]
        rw [passed]
        simp [empty, rest_empty]
      · have chosen : l.page lib = some (String.ofList l.target.1) := if_pos ⟨empty, next⟩
        rw [chosen]
        simp [empty]

/-- Readable values are read right exactly if they are targeted. -/
theorem readRight_iff_targeted {values : List (List Element)}
    (readable : Readable lib (links values)) : ReadRight lib values ↔ Targeted lib values := by
  rw [ReadRight, parseNextFromLinkHeader_readable readable, nextTarget]
  exact findSome?_page_eq_iff (links values)

def params (values : List (List Element)) : List Param := (links values).flatMap Link.params

/-- Harmless parameters make every link readable. -/
theorem readable_of_harmless {values : List (List Element)}
    (harmless : ∀ q ∈ params values, q.Harmless lib) : Readable lib (links values) := by
  rw [params] at harmless
  generalize links values = found at harmless ⊢
  induction found with
  | nil => trivial
  | cons l rest ih =>
    rw [List.flatMap_cons, List.forall_mem_append] at harmless
    obtain ⟨first, later⟩ := harmless
    obtain ⟨others, split, -⟩ := exists_upToRel l.params
    refine ⟨fun q member => first q ?_, .inr ⟨fun q member => (first q member).settled, ih later⟩⟩
    rw [split]
    exact List.mem_append_left _ member

end Correctness

end LinkGrammar
