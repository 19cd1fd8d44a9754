import StacProxy.OutboundCredentials
import StacProxy.PageAdapter

/-!
# Headers that end at the proxy

A `Connection` field nominates further fields that are meant for this connection only. For
requests `reverseProxyOnce` leaves them to the reverse proxy, which reads the `Connection` field
of the request it is given; the copy it is given has none. Of a response the reverse proxy
removes what its `Connection` values nominate, before `StripHopByHopHeaders` reads one of them.
-/

namespace HopByHop

open OutboundRequest OutboundCredentials
open PageAdapter (isSpace trimBoth)

section LetterCase

theorem toLower_of_le {c : Char} (high : 128 ≤ c.toNat) : c.toLower = c ∧ c.toUpper = c := by
  have code : c.val.toNat = c.toNat := rfl
  have upper : ¬ (c.val ≥ 'A'.val ∧ c.val ≤ 'Z'.val) := by
    rintro ⟨-, below⟩
    have below := UInt32.le_iff_toNat_le.mp below
    have last : 'Z'.val.toNat = 90 := by decide
    omega
  have lower : ¬ (c.val ≥ 'a'.val ∧ c.val ≤ 'z'.val) := by
    rintro ⟨-, below⟩
    have below := UInt32.le_iff_toNat_le.mp below
    have last : 'z'.val.toNat = 122 := by decide
    omega
  unfold Char.toLower Char.toUpper
  exact ⟨dif_neg upper, dif_neg lower⟩

/-- What holds of the ASCII characters and of those without letter case holds of all. -/
theorem ascii_cases {P : Char → Prop} (ascii : ∀ n : Fin 128, P (Char.ofNat n))
    (other : ∀ c : Char, c.toLower = c → c.toUpper = c → P c) (c : Char) : P c := by
  by_cases low : c.toNat < 128
  · have small := ascii ⟨c.toNat, low⟩
    rwa [Char.ofNat_toNat] at small
  · have plain := toLower_of_le (Nat.le_of_not_lt low)
    exact other c plain.1 plain.2

theorem toLower_cased (upper : Bool) (c : Char) :
    (if upper then c.toUpper else c.toLower).toLower = c.toLower := by
  cases upper with
  | false =>
    exact ascii_cases (P := fun c => c.toLower.toLower = c.toLower) (by decide +kernel)
      (fun c same _ => by rw [same, same]) c
  | true =>
    exact ascii_cases (P := fun c => c.toUpper.toLower = c.toLower) (by decide +kernel)
      (fun c _ same => by rw [same]) c

theorem toUpper_toLower (c : Char) : c.toLower.toUpper = c.toUpper :=
  ascii_cases (P := fun c => c.toLower.toUpper = c.toUpper) (by decide +kernel)
    (fun c same _ => by rw [same]) c

theorem dash_toLower (c : Char) : (c.toLower == '-') = (c == '-') :=
  ascii_cases (P := fun c => (c.toLower == '-') = (c == '-')) (by decide +kernel)
    (fun c same _ => by rw [same]) c

theorem validFieldChar_toLower (c : Char) : validFieldChar c.toLower = validFieldChar c :=
  ascii_cases (P := fun c => validFieldChar c.toLower = validFieldChar c) (by decide +kernel)
    (fun c same _ => by rw [same]) c

/-- A field name without its letter case. -/
def lowered (name : String) : List Char := name.toList.map Char.toLower

theorem map_toLower_titleCase (upper : Bool) (cs : List Char) :
    (titleCase upper cs).map Char.toLower = cs.map Char.toLower := by
  induction cs generalizing upper with
  | nil => rfl
  | cons c rest ih => rw [titleCase, List.map_cons, List.map_cons, ih, toLower_cased]

theorem titleCase_map_toLower (upper : Bool) (cs : List Char) :
    titleCase upper (cs.map Char.toLower) = titleCase upper cs := by
  induction cs generalizing upper with
  | nil => rfl
  | cons c rest ih =>
    have first := toLower_cased false c
    rw [List.map_cons, titleCase, titleCase, dash_toLower, ih, toUpper_toLower]
    simp_all

theorem all_validFieldChar_lowered (name : String) :
    (lowered name).all validFieldChar = name.toList.all validFieldChar := by
  rw [lowered, List.all_map]
  exact congrArg (name.toList.all ·) (funext validFieldChar_toLower)

/-- A token is the same name as another text exactly if they have one canonical form. -/
theorem canonicalHeaderKey_eq_iff {name other : String}
    (token : name.toList.all validFieldChar = true) :
    canonicalHeaderKey other = canonicalHeaderKey name ↔ lowered other = lowered name := by
  have canonical : canonicalHeaderKey name = String.ofList (titleCase true name.toList) :=
    if_pos token
  constructor
  · intro same
    by_cases valid : other.toList.all validFieldChar = true
    · rw [canonical, canonicalHeaderKey, if_pos valid] at same
      have letters := congrArg (fun text => text.toList.map Char.toLower) same
      simpa only [String.toList_ofList, map_toLower_titleCase, lowered] using letters
    · rw [canonical, canonicalHeaderKey, if_neg valid] at same
      rw [lowered, same, String.toList_ofList, map_toLower_titleCase, lowered]
  · intro same
    have valid : other.toList.all validFieldChar = true := by
      rw [← all_validFieldChar_lowered, same, all_validFieldChar_lowered, token]
    rw [canonical, canonicalHeaderKey, if_pos valid, ← titleCase_map_toLower true other.toList,
      ← titleCase_map_toLower true name.toList]
    exact congrArg (fun letters => String.ofList (titleCase true letters)) same

theorem canonicalHeaderKey_idem (name : String) :
    canonicalHeaderKey (canonicalHeaderKey name) = canonicalHeaderKey name := by
  by_cases token : name.toList.all validFieldChar = true
  · rw [canonicalHeaderKey_eq_iff token, canonicalHeaderKey, if_pos token, lowered,
      String.toList_ofList, map_toLower_titleCase, lowered]
  · have itself : canonicalHeaderKey name = name := if_neg token
    rw [itself, itself]

end LetterCase

section Nomination

/-- The names a `Connection` value lists. -/
def elements (value : String) : List String :=
  ((value.toList.splitOn ',').map fun name => String.ofList (trimBoth isSpace name)).filter (· ≠ "")

def nominations (h : Header) : List String :=
  (h.filter fun field => canonicalHeaderKey field.1 = "Connection").flatMap fun field =>
    elements field.2

/-- Whether a list of names has one, in any letter case. -/
def listed (names : List String) (name : String) : Bool :=
  names.any fun other => lowered other = lowered name

/-- Whether a `Connection` value of the message names the field. -/
def nominated (h : Header) (name : String) : Bool := listed (nominations h) name

def hopByHopHeaders : List String :=
  ["Connection", "Proxy-Connection", "Keep-Alive", "Proxy-Authenticate", "Proxy-Authorization",
    "Te", "Trailer", "Transfer-Encoding", "Upgrade", "Forwarded"]

/-- An empty value lists no names. -/
def stripHopByHopHeaders (h : Header) : Header :=
  hopByHopHeaders.foldl Header.del ((elements (Header.get h "Connection")).foldl Header.del h)

/-- What `httputil.ReverseProxy` removes: the fields that any `Connection` value names, and a
fixed list without `Forwarded`. -/
def removeHopByHopHeaders (h : Header) : Header :=
  (hopByHopHeaders.erase "Forwarded").foldl Header.del ((nominations h).foldl Header.del h)

theorem canonicalHeaderKey_hopByHop : ∀ name ∈ hopByHopHeaders, canonicalHeaderKey name = name := by
  decide +kernel

/-- The listed names are canonical already. -/
theorem map_canonicalHeaderKey {names : List String}
    (listed : ∀ name ∈ names, name ∈ hopByHopHeaders) : names.map canonicalHeaderKey = names := by
  refine (List.map_congr_left fun name member => ?_).trans (List.map_id names)
  exact canonicalHeaderKey_hopByHop name (listed name member)

theorem isHopByHop_iff {name : String} : isHopByHop name = true ↔
    canonicalHeaderKey name ∈ (hopByHopHeaders.erase "Forwarded").map canonicalHeaderKey := by
  have unforwarded : hopByHopHeaders.erase "Forwarded" =
      ["Connection", "Proxy-Connection", "Keep-Alive", "Proxy-Authenticate",
        "Proxy-Authorization", "Te", "Trailer", "Transfer-Encoding", "Upgrade"] := by decide +kernel
  rw [map_canonicalHeaderKey fun _ member => List.mem_of_mem_erase member, unforwarded,
    isHopByHop, decide_eq_true_iff]

end Nomination

section Requests

/-- A request whose fragment cannot be parsed is not sent. -/
def sendable (p : Passage) : Bool :=
  p.searchLike || (PercentCoding.unescape (PercentCoding.cut 35 p.inbound.rawQuery).2).isSome

/-- The header an origin gets: the reverse proxy strips the copy before it sets its own
fields. -/
def sentHeader (t : Target) (p : Passage) : Option Header :=
  if sendable p then
    some (dispatchHeader t.dispatch
      (removeHopByHopHeaders (buildHeader t.auth p.hasBody p.requestID p.inbound.header)))
  else none

/-- The same request without the fields its `Connection` values nominate. -/
def withoutNominated (p : Passage) : Passage :=
  { p with inbound := { p.inbound with
      header := p.inbound.header.filter fun field => !nominated p.inbound.header field.1 } }

variable {t : Target} {p : Passage}

theorem name_of_mem_buildHeader {field : String × String}
    (member : field ∈ buildHeader t.auth p.hasBody p.requestID p.inbound.header) :
    isHopByHop field.1 = false := by
  rw [buildHeader_eq, mem_foldl_set, mem_inherited] at member
  rcases member with ⟨⟨-, rfl⟩ | ⟨given, -, copied, rfl⟩, -⟩ | own
  · decide +kernel
  · rw [copies, Bool.and_eq_true, Bool.and_eq_true] at copied
    have kept : isHopByHop given.1 = false := by simpa using copied.1.1
    rwa [isHopByHop, canonicalHeaderKey_idem]
  · rw [mem_identityFields own]
    decide +kernel

/-- The copy has no `Connection` field any more, so the reverse proxy finds nothing to strip. -/
theorem removeHopByHopHeaders_buildHeader :
    removeHopByHopHeaders (buildHeader t.auth p.hasBody p.requestID p.inbound.header) =
      buildHeader t.auth p.hasBody p.requestID p.inbound.header := by
  have unconnected : nominations (buildHeader t.auth p.hasBody p.requestID p.inbound.header) =
      [] := by
    rw [nominations, List.filter_eq_nil_iff.mpr, List.flatMap_nil]
    intro field member connection
    have hop : isHopByHop field.1 = true := by
      rw [isHopByHop, of_decide_eq_true connection]
      decide
    rw [name_of_mem_buildHeader member] at hop
    cases hop
  rw [removeHopByHopHeaders, unconnected, List.foldl_nil, foldl_del, List.filter_eq_self]
  intro field member
  rw [decide_eq_true_iff]
  intro listed
  obtain ⟨name, fixed, same⟩ := List.mem_map.mp listed
  have hop : isHopByHop field.1 = true := by
    rw [isHopByHop_iff, ← same, canonicalHeaderKey_idem]
    exact List.mem_map_of_mem fixed
  rw [name_of_mem_buildHeader member] at hop
  cases hop

theorem sentHeader_eq : sentHeader t p = (outbound t p).map Outbound.header := by
  rw [sentHeader, removeHopByHopHeaders_buildHeader, outbound, ← sendable]
  cases sendable p <;> rfl

/-- Whether the copy has an inbound field and the proxy does not replace it. -/
def passes (t : Target) (p : Passage) (field : String × String) : Bool :=
  copies t.auth field.1 && decide (canonicalHeaderKey field.1 ∉ replaced t p)

/-- The fields that pass are the only part of an outbound header that depends on the inbound
one. -/
theorem outboundHeader_eq_passes :
    outboundHeader t.auth t.dispatch p.hasBody p.requestID p.inbound.header =
      ((if p.hasBody then [("Content-Type", "application/json")] else []).filter
        fun field => field.1 ∉ replaced t p) ++
      (p.inbound.header.filter (passes t p)).map (fun field => (canonicalHeaderKey field.1, field.2)) ++
      settled (ownFields t p) := by
  rw [outboundHeader_eq_append, inherited, List.filter_append, List.filter_map, List.filter_filter]
  congr 3
  exact List.filter_congr fun field _ => Bool.and_comm _ _

theorem map_filter_eq_map_iff {α β : Type} {f : α → β} {keep : α → Bool} {items : List α} :
    items.map f = (items.filter keep).map f ↔ ∀ item ∈ items, keep item = true := by
  constructor
  · intro same
    have lengths := congrArg List.length same
    rw [List.length_map, List.length_map] at lengths
    exact List.length_filter_eq_length_iff.mp lengths.symm
  · intro kept
    rw [List.filter_eq_self.mpr kept]

theorem passes_eq_false_iff {field : String × String} : passes t p field = false ↔
    copies t.auth field.1 = false ∨ canonicalHeaderKey field.1 ∈ replaced t p := by
  rw [passes, Bool.and_eq_false_iff, decide_eq_false_iff_not, not_not]

/-- An origin gets what it would get without the nominated fields exactly if none of them
passes. -/
theorem sentHeader_withoutNominated_iff :
    sentHeader t p = sentHeader t (withoutNominated p) ↔
      (sendable p = true → ∀ field ∈ p.inbound.header, nominated p.inbound.header field.1 = true →
        copies t.auth field.1 = false ∨ canonicalHeaderKey field.1 ∈ replaced t p) := by
  have unchanged : sendable (withoutNominated p) = sendable p := rfl
  cases sent : sendable p with
  | false => simp [sentHeader, unchanged, sent]
  | true =>
    have header_eq : ∀ q : Passage, sendable q = true → sentHeader t q =
        some (outboundHeader t.auth t.dispatch q.hasBody q.requestID q.inbound.header) := by
      intro q sent
      rw [sentHeader, if_pos sent, removeHopByHopHeaders_buildHeader, outboundHeader]
    have swapped : (withoutNominated p).inbound.header.filter (passes t (withoutNominated p)) =
        (p.inbound.header.filter (passes t p)).filter fun field =>
          !nominated p.inbound.header field.1 := List.filter_comm _ _ _
    rw [header_eq p sent, header_eq _ (unchanged.trans sent), Option.some_inj,
      outboundHeader_eq_passes, outboundHeader_eq_passes, swapped]
    refine (List.append_left_inj _).trans ((List.append_right_inj _).trans
      (map_filter_eq_map_iff.trans ?_))
    simp only [List.mem_filter, Bool.not_eq_true', true_implies, ← passes_eq_false_iff]
    constructor
    · intro unnamed field member named
      cases passed : passes t p field with
      | false => rfl
      | true =>
        rw [unnamed field ⟨member, passed⟩] at named
        cases named
    · rintro stopped field ⟨member, passed⟩
      cases named : nominated p.inbound.header field.1 with
      | false => rfl
      | true =>
        rw [stopped field member named] at passed
        cases passed

end Requests

section Responses

/-- What comes back from an origin. The names in a header that was read from the wire are
tokens in canonical form. -/
structure Received where
  header : Header
  bodyLength : Nat
  tokens : ∀ field ∈ header, field.1.toList.all validFieldChar = true
  canonical : ∀ field ∈ header, canonicalHeaderKey field.1 = field.1

/-- The fields of an origin's header that a client gets. The reverse proxy removes the hop-by-hop
fields of a response as it does for a request. A body over the limit is answered with an error of
the proxy, and the length is computed again. -/
def returnedHeader (limit : Nat) (r : Received) : Header :=
  if limit < r.bodyLength then []
  else (stripHopByHopHeaders (removeHopByHopHeaders r.header)).filter fun field =>
    canonicalHeaderKey field.1 ≠ "Content-Length"

variable {limit : Nat} {r : Received} {field : String × String}

theorem mem_map_canonicalHeaderKey_iff (member : field ∈ r.header) {names : List String} :
    field.1 ∈ names.map canonicalHeaderKey ↔ listed names field.1 = true := by
  rw [listed, List.any_eq_true, List.mem_map]
  refine exists_congr fun name => and_congr_right fun _ => ?_
  rw [decide_eq_true_iff, ← canonicalHeaderKey_eq_iff (r.tokens field member),
    r.canonical field member]

theorem mem_of_mem_stripHopByHopHeaders {h : Header} (left : field ∈ stripHopByHopHeaders h) :
    field ∈ h := by
  rw [stripHopByHopHeaders, foldl_del, foldl_del] at left
  exact List.mem_of_mem_filter (List.mem_of_mem_filter left)

theorem mem_of_mem_removeHopByHopHeaders {h : Header} (left : field ∈ removeHopByHopHeaders h) :
    field ∈ h ∧ field.1 ∉ (nominations h).map canonicalHeaderKey := by
  rw [removeHopByHopHeaders, foldl_del, foldl_del] at left
  have before := List.mem_filter.mp (List.mem_of_mem_filter left)
  exact ⟨before.1, of_decide_eq_true before.2⟩

/-- A client gets no field that a `Connection` value of the response nominates. -/
theorem nominated_of_mem_returnedHeader (left : field ∈ returnedHeader limit r) :
    nominated r.header field.1 = false := by
  unfold returnedHeader at left
  split at left
  · cases left
  · have stripped := mem_of_mem_stripHopByHopHeaders (List.mem_of_mem_filter left)
    have removed := mem_of_mem_removeHopByHopHeaders stripped
    rw [mem_map_canonicalHeaderKey_iff removed.1, Bool.not_eq_true] at removed
    exact removed.2

end Responses

/-- Nominated fields end at the proxy exactly if none of the request is one that the copy lets
through and the proxy does not replace. Those of a response always end there. -/
theorem nominated_fields_kept_iff (t : Target) (p : Passage) (limit : Nat) (r : Received) :
    (sentHeader t p = sentHeader t (withoutNominated p) ∧
      ∀ field ∈ returnedHeader limit r, nominated r.header field.1 = false) ↔
    (sendable p = true → ∀ field ∈ p.inbound.header, nominated p.inbound.header field.1 = true →
      copies t.auth field.1 = false ∨ canonicalHeaderKey field.1 ∈ replaced t p) :=
  (and_iff_left fun _ => nominated_of_mem_returnedHeader).trans sentHeader_withoutNominated_iff

section Samples

/-- A client that means `X-Session` for the proxy alone. -/
def sessionPassage : Passage where
  inbound := { header := [("Connection", "keep-alive, x-session"), ("X-Session", "7")] }
  searchLike := false

end Samples

theorem nominated_fields_cross :
    nominated sessionPassage.inbound.header "X-Session" = true ∧
      ∃ sent, sentHeader plainTarget sessionPassage = some sent ∧ ("X-Session", "7") ∈ sent ∧
        ("X-Session", "7") ∉ (sentHeader plainTarget (withoutNominated sessionPassage)).getD [] := by
  have request : nominated sessionPassage.inbound.header "X-Session" = true := by decide +kernel
  exact ⟨request, _, rfl, by decide +kernel⟩

end HopByHop
