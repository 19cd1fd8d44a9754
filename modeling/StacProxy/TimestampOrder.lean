import Mathlib.Data.String.Basic
import StacProxy.Rfc3339

/-!
# Timestamps in order

The instant a timestamp denotes, and the order of the texts timestamps are written as. A text
shows the date and time of day in its own zone and drops the fraction of the second, so texts
are ordered by local seconds first and by zones after that.
-/

namespace Rfc3339

section Instants

def daysInYear (year : Nat) : Nat := if isLeap year then 366 else 365

def daysBeforeYear : Nat → Nat
  | 0 => 0
  | year + 1 => daysBeforeYear year + daysInYear year

/-- The days of the months before this one. -/
def daysBeforeMonth (year : Nat) : Nat → Nat
  | 0 => 0
  | month + 1 => daysBeforeMonth year month + if month = 0 then 0 else daysIn month year

def Timestamp.dayNumber (t : Timestamp) : Nat :=
  daysBeforeYear t.year + daysBeforeMonth t.year t.month + t.day

/-- The seconds on the clock of the zone. -/
def Timestamp.localSecond (t : Timestamp) : Nat :=
  ((t.dayNumber * 24 + t.hour) * 60 + t.minute) * 60 + t.second

/-- The instant, in nanoseconds. -/
def Timestamp.instant (t : Timestamp) : Int :=
  (t.localSecond - 60 * t.offsetMinutes) * 1000000000 + t.nanosecond

/-- The ranges of the fields. -/
structure Timestamp.Valid (t : Timestamp) : Prop where
  year : t.year < 10000
  month_pos : 0 < t.month
  month : t.month ≤ 12
  day_pos : 0 < t.day
  day : t.day ≤ daysIn t.month t.year
  hour : t.hour < 24
  minute : t.minute < 60
  second : t.second < 60
  nanosecond : t.nanosecond < 1000000000

theorem daysIn_le (month year : Nat) : daysIn month year ≤ 31 := by
  unfold daysIn
  split_ifs <;> omega

end Instants

section Parsed

theorem digit?_lt {c : Char} {n : Nat} (read : digit? c = some n) : n < 10 := by
  unfold digit? at read
  split at read
  · rename_i range
    have high : c.toNat ≤ '9'.toNat := range.2
    have zero : '0'.toNat = 48 := rfl
    have nine : '9'.toNat = 57 := rfl
    cases read
    omega
  · cases read

theorem twoDigits?_lt {text rest : List Char} {n : Nat} (read : twoDigits? text = some (n, rest)) :
    n < 100 := by
  unfold twoDigits? at read
  split at read
  · simp only [Option.bind_eq_bind, Option.bind_eq_some_iff] at read
    obtain ⟨high, first, low, second, read⟩ := read
    have := digit?_lt first
    have := digit?_lt second
    cases read
    omega
  · cases read

theorem fourDigits?_lt {text rest : List Char} {n : Nat}
    (read : fourDigits? text = some (n, rest)) : n < 10000 := by
  simp only [fourDigits?, Option.bind_eq_bind, Option.bind_eq_some_iff] at read
  obtain ⟨⟨high, _⟩, first, ⟨low, _⟩, second, read⟩ := read
  have := twoDigits?_lt first
  have := twoDigits?_lt second
  cases read
  omega

theorem takeDigits_lt {text : List Char} : ∀ d ∈ (takeDigits text).1, d < 10 := by
  induction text with
  | nil => simp [takeDigits]
  | cons c rest ih =>
    cases read : digit? c with
    | none => simp [takeDigits, read]
    | some d =>
      simp only [takeDigits, read, List.forall_mem_cons]
      exact ⟨digit?_lt read, ih⟩

theorem foldl_digits_lt {digits : List Nat} (small : ∀ d ∈ digits, d < 10) (acc : Nat) :
    digits.foldl (fun acc d => 10 * acc + d) acc < (acc + 1) * 10 ^ digits.length := by
  induction digits generalizing acc with
  | nil => simp
  | cons d digits ih =>
    rw [List.forall_mem_cons] at small
    have step : (10 * acc + d + 1) ≤ (acc + 1) * 10 := by omega
    calc (d :: digits).foldl (fun acc d => 10 * acc + d) acc
        = digits.foldl (fun acc d => 10 * acc + d) (10 * acc + d) := rfl
      _ < (10 * acc + d + 1) * 10 ^ digits.length := ih small.2 _
      _ ≤ (acc + 1) * 10 * 10 ^ digits.length := Nat.mul_le_mul_right _ step
      _ = (acc + 1) * 10 ^ (d :: digits).length := by
        rw [List.length_cons, Nat.pow_succ, Nat.mul_assoc, Nat.mul_comm 10]

theorem nanoseconds_lt {digits : List Nat} (small : ∀ d ∈ digits, d < 10) :
    nanoseconds digits < 1000000000 := by
  have padded : ∀ d ∈ (digits ++ List.replicate 9 0).take 9, d < 10 := by
    intro d member
    rcases List.mem_append.mp (List.mem_of_mem_take member) with given | zero
    · exact small d given
    · rw [(List.mem_replicate.mp zero).2]
      omega
  have nine : ((digits ++ List.replicate 9 0).take 9).length = 9 := by simp
  have bound := foldl_digits_lt padded 0
  rw [nine] at bound
  exact bound

theorem fraction_lt (text : List Char) : (fraction text).1 < 1000000000 := by
  have none_read : 0 < 1000000000 := by decide
  unfold fraction
  split
  · exact none_read
  · rename_i rest
    split
    · have small := @takeDigits_lt rest
      split
      · exact none_read
      · rename_i read
        rw [read] at small
        exact nanoseconds_lt small
    · exact none_read

theorem date?_valid {text rest : List Char} {year month day : Nat}
    (read : date? text = some ((year, month, day), rest)) :
    year < 10000 ∧ 0 < month ∧ month ≤ 12 ∧ 0 < day ∧ day ≤ daysIn month year := by
  simp only [date?, Option.bind_eq_bind, Option.bind_eq_some_iff] at read
  obtain ⟨⟨y, _⟩, century, _, _, ⟨m, _⟩, _, _, _, ⟨d, _⟩, _, read⟩ := read
  have := fourDigits?_lt century
  dsimp only at read
  split at read
  · cases read
  · cases read
    omega

theorem parseTimestamp_valid {text : String} {t : Timestamp}
    (read : parseTimestamp text = some t) : t.Valid := by
  simp only [parseTimestamp, Option.bind_eq_bind, Option.bind_eq_some_iff] at read
  obtain ⟨⟨⟨year, month, day⟩, _⟩, date, _, _, ⟨hour, _⟩, _, _, _, ⟨minute, _⟩, _, _, _, ⟨second, after⟩, _,
    read⟩ := read
  obtain ⟨_, _, _, _, _⟩ := date?_valid date
  have := fraction_lt after
  dsimp only at read
  split at read
  · cases read
  · simp only [Option.bind_eq_some_iff] at read
    obtain ⟨⟨offset, _⟩, _, read⟩ := read
    split at read
    · cases read
      constructor <;> dsimp only <;> omega
    · cases read

theorem parseDate_valid {text : String} {t : Timestamp} (read : parseDate text = some t) :
    t.Valid := by
  simp only [parseDate, Option.bind_eq_bind, Option.bind_eq_some_iff] at read
  obtain ⟨⟨⟨year, month, day⟩, _⟩, date, read⟩ := read
  obtain ⟨_, _, _, _, _⟩ := date?_valid date
  dsimp only at read
  split at read
  · cases read
    constructor <;> dsimp only <;> omega
  · cases read

end Parsed

section Texts

/-- Texts are compared at the first character that differs. -/
theorem append_lt_append_iff {u v x y : List Char} (same : u.length = v.length) :
    u ++ x < v ++ y ↔ u < v ∨ u = v ∧ x < y := by
  induction u generalizing v with
  | nil =>
    obtain rfl : v = [] := List.length_eq_zero_iff.mp same.symm
    simp
  | cons a u ih =>
    cases v with
    | nil => cases same
    | cons b v =>
      have shorter : u.length = v.length := by simpa using same
      simp only [List.cons_append, List.cons_lt_cons_iff, ih shorter, List.cons.injEq]
      tauto

theorem digitChar_lt_iff {m n : Nat} : digitChar m < digitChar n ↔ m % 10 < n % 10 := by
  have all : ∀ a b : Fin 10, digitChar a < digitChar b ↔ a.val < b.val := by decide
  have left : digitChar m = digitChar (m % 10) := by simp [digitChar]
  have right : digitChar n = digitChar (n % 10) := by simp [digitChar]
  rw [left, right]
  exact all ⟨m % 10, Nat.mod_lt _ (by omega)⟩ ⟨n % 10, Nat.mod_lt _ (by omega)⟩

theorem digitChar_inj {m n : Nat} : digitChar m = digitChar n ↔ m % 10 = n % 10 := by
  constructor
  · intro same
    have left := @digitChar_lt_iff m n
    have right := @digitChar_lt_iff n m
    rw [same] at left right
    simp only [lt_irrefl, false_iff] at left right
    omega
  · intro same
    simp [digitChar, same]

theorem twoDigitText_lt_iff {m n : Nat} :
    twoDigitText m < twoDigitText n ↔ m % 100 < n % 100 := by
  simp only [twoDigitText, List.cons_lt_cons_iff, digitChar_lt_iff, digitChar_inj, List.lt_irrefl,
    and_false, or_false]
  omega

theorem twoDigitText_inj {m n : Nat} : twoDigitText m = twoDigitText n ↔ m % 100 = n % 100 := by
  simp only [twoDigitText, List.cons.injEq, digitChar_inj, and_true]
  omega

theorem length_twoDigitText (m n : Nat) : (twoDigitText m).length = (twoDigitText n).length := rfl

/-- Fields of two digits are compared as numbers. -/
theorem field_lt_iff {m n : Nat} {x y : List Char} (small : m < 100) (small' : n < 100) :
    twoDigitText m ++ x < twoDigitText n ++ y ↔ m < n ∨ m = n ∧ x < y := by
  rw [append_lt_append_iff (length_twoDigitText m n), twoDigitText_lt_iff, twoDigitText_inj,
    Nat.mod_eq_of_lt small, Nat.mod_eq_of_lt small']

theorem separator_lt_iff {c : Char} {x y : List Char} : c :: x < c :: y ↔ x < y := by
  simp

theorem year_lt_iff {m n : Nat} {x y : List Char} (small : m < 10000) (small' : n < 10000) :
    twoDigitText (m / 100) ++ (twoDigitText m ++ x) < twoDigitText (n / 100) ++ (twoDigitText n ++ y)
      ↔ m < n ∨ m = n ∧ x < y := by
  rw [field_lt_iff (by omega) (by omega), append_lt_append_iff (length_twoDigitText m n),
    twoDigitText_lt_iff, twoDigitText_inj]
  constructor
  · rintro (century | ⟨same, below | ⟨equal, rest⟩⟩)
    · exact .inl (by omega)
    · exact .inl (by omega)
    · exact .inr ⟨by omega, rest⟩
  · rintro (below | ⟨rfl, rest⟩)
    · by_cases century : m / 100 < n / 100
      · exact .inl century
      · exact .inr ⟨by omega, .inl (by omega)⟩
    · exact .inr ⟨rfl, .inr ⟨rfl, rest⟩⟩

end Texts

section LocalOrder

theorem daysBeforeYear_le {year later : Nat} (before : year < later) :
    daysBeforeYear year + daysInYear year ≤ daysBeforeYear later := by
  induction later with
  | zero => omega
  | succ later ih =>
    rw [daysBeforeYear]
    rcases Nat.lt_or_eq_of_le (Nat.le_of_lt_succ before) with earlier | rfl
    · exact (ih earlier).trans (Nat.le_add_right _ _)
    · rfl

theorem daysBeforeMonth_le {year month later : Nat} (positive : 0 < month) (before : month < later) :
    daysBeforeMonth year month + daysIn month year ≤ daysBeforeMonth year later := by
  induction later with
  | zero => omega
  | succ later ih =>
    rw [daysBeforeMonth]
    rcases Nat.lt_or_eq_of_le (Nat.le_of_lt_succ before) with earlier | rfl
    · exact (ih earlier).trans (Nat.le_add_right _ _)
    · rw [if_neg (by omega)]

/-- The months make up the year. -/
theorem daysBeforeMonth_year (year : Nat) : daysBeforeMonth year 13 = daysInYear year := by
  cases leap : isLeap year <;> simp [daysBeforeMonth, daysIn, daysInYear, leap]

variable {s t : Timestamp}

theorem dayNumber_lt_of_year (hs : s.Valid) (ht : t.Valid) (before : s.year < t.year) :
    s.dayNumber < t.dayNumber := by
  have months : daysBeforeMonth s.year s.month + daysIn s.month s.year ≤ daysInYear s.year :=
    daysBeforeMonth_year s.year ▸ daysBeforeMonth_le hs.month_pos (Nat.lt_succ_of_le hs.month)
  have years := daysBeforeYear_le before
  have day := hs.day
  have positive := ht.day_pos
  unfold Timestamp.dayNumber
  omega

theorem dayNumber_lt_of_month (hs : s.Valid) (ht : t.Valid) (same : s.year = t.year)
    (before : s.month < t.month) : s.dayNumber < t.dayNumber := by
  have months : daysBeforeMonth s.year s.month + daysIn s.month s.year ≤
      daysBeforeMonth s.year t.month := daysBeforeMonth_le hs.month_pos before
  have day := hs.day
  have positive := ht.day_pos
  unfold Timestamp.dayNumber
  rw [← same]
  omega

/-- Days are in the order of their dates. -/
theorem dayNumber_lt_iff (hs : s.Valid) (ht : t.Valid) :
    s.dayNumber < t.dayNumber ↔
      s.year < t.year ∨ s.year = t.year ∧ (s.month < t.month ∨ s.month = t.month ∧ s.day < t.day) := by
  constructor
  · intro before
    by_contra other
    simp only [not_or, not_and, not_lt] at other
    rcases Nat.lt_or_eq_of_le other.1 with later | same
    · exact absurd (dayNumber_lt_of_year ht hs later) (by omega)
    · obtain ⟨month, day⟩ := other.2 same.symm
      rcases Nat.lt_or_eq_of_le month with later | equal
      · exact absurd (dayNumber_lt_of_month ht hs same later) (by omega)
      · have days := day equal.symm
        simp only [Timestamp.dayNumber, same, equal] at before
        omega
  · rintro (year | ⟨year, month | ⟨month, day⟩⟩)
    · exact dayNumber_lt_of_year hs ht year
    · exact dayNumber_lt_of_month hs ht year month
    · simp only [Timestamp.dayNumber, year, month]
      omega

theorem date_eq_of_dayNumber (hs : s.Valid) (ht : t.Valid) (same : s.dayNumber = t.dayNumber) :
    s.year = t.year ∧ s.month = t.month ∧ s.day = t.day := by
  have forward := mt (dayNumber_lt_iff hs ht).mpr (by omega)
  have backward := mt (dayNumber_lt_iff ht hs).mpr (by omega)
  omega

theorem dayNumber_of_date (year : s.year = t.year) (month : s.month = t.month) (day : s.day = t.day) :
    s.dayNumber = t.dayNumber := by
  simp only [Timestamp.dayNumber, year, month, day]

/-- Texts are in the order of the clocks they show. -/
theorem civilText_lt_iff (hs : s.Valid) (ht : t.Valid) {x y : List Char} :
    civilText s ++ x < civilText t ++ y ↔
      s.localSecond < t.localSecond ∨ s.localSecond = t.localSecond ∧ x < y := by
  have := hs.hour
  have := ht.hour
  have := hs.minute
  have := ht.minute
  have := hs.second
  have := ht.second
  have days : s.day < 100 ∧ t.day < 100 := by
    have := hs.day.trans (daysIn_le _ _)
    have := ht.day.trans (daysIn_le _ _)
    omega
  have months : s.month < 100 ∧ t.month < 100 := by
    have := hs.month
    have := ht.month
    omega
  have before := dayNumber_lt_iff hs ht
  have equal : s.dayNumber = t.dayNumber ↔
      s.year = t.year ∧ s.month = t.month ∧ s.day = t.day :=
    ⟨date_eq_of_dayNumber hs ht, fun ⟨year, month, day⟩ => dayNumber_of_date year month day⟩
  simp only [civilText, List.append_assoc, List.cons_append]
  rw [year_lt_iff hs.year ht.year, separator_lt_iff, field_lt_iff months.1 months.2, separator_lt_iff,
    field_lt_iff days.1 days.2, separator_lt_iff, field_lt_iff (by omega) (by omega),
    separator_lt_iff, field_lt_iff (by omega) (by omega), separator_lt_iff,
    field_lt_iff (by omega) (by omega)]
  unfold Timestamp.localSecond
  by_cases rest : x < y
  · simp only [rest, and_true]
    omega
  · simp only [rest, and_false, or_false]
    omega

/-- The text of a timestamp is earlier exactly if its clock shows an earlier second, or the same
one in a zone written as an earlier text. -/
theorem formatRfc3339_lt_iff (hs : s.Valid) (ht : t.Valid) :
    formatRfc3339 s < formatRfc3339 t ↔ s.localSecond < t.localSecond ∨
      s.localSecond = t.localSecond ∧ zoneText s.offsetMinutes < zoneText t.offsetMinutes := by
  rw [String.lt_iff_toList_lt, formatRfc3339, formatRfc3339, String.toList_ofList,
    String.toList_ofList, civilText_lt_iff hs ht]

/-- In one zone, instants are in the order of the clock, and of the fraction after that. -/
theorem instant_lt_iff_of_zone (hs : s.Valid) (ht : t.Valid)
    (zone : s.offsetMinutes = t.offsetMinutes) :
    s.instant < t.instant ↔ s.localSecond < t.localSecond ∨
      s.localSecond = t.localSecond ∧ s.nanosecond < t.nanosecond := by
  have := hs.nanosecond
  have := ht.nanosecond
  simp only [Timestamp.instant, zone]
  omega

end LocalOrder

end Rfc3339
