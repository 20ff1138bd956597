import LayerAxes.Proofs.Text.Blank
import LayerAxes.Proofs.Time.Calendar
import LayerAxes.Proofs.Time.Order
import LayerAxes.Time.Civil

/-!
# Written timestamps

A timestamp is written in calendar and clock fields, and its milliseconds are all
that is written of its nanoseconds.  Reading undoes both steps of writing: the
fields are found again between their marks, and every instant, a leap second
included, has fields of its own.

The fields are kept apart from their digits.  A text is laid out from digits, and
what is read back are the values of the digits.
-/

namespace LayerAxes

open Text

namespace Civil

/-!
# The layout of a text
-/

def layout (year month day hour minute second fraction : List Char) : List Char :=
  year ++ ('-' :: month) ++ ('-' :: day) ++ ('T' :: hour) ++ (':' :: minute) ++
    (':' :: second) ++ ('.' :: fraction)

theorem write_eq_layout (c : Civil) :
    c.write = layout (writeYear c.date.year) (padded 2 c.date.month) (padded 2 c.date.day)
      (padded 2 c.hour) (padded 2 c.minute) (padded 2 c.second)
      (padded 3 (c.nanos / 1000000)) := by
  unfold write layout
  simp only [List.append_assoc, List.singleton_append]

theorem readNumber?_append {most : Nat} {ds : List Char} (hDigits : AllDigits ds)
    (hLength : ds.length = most) (hNe : ds ≠ []) (rest : List Char) :
    readNumber? most (ds ++ rest) = some (digitsValue ds, rest) := by
  have hTake : ((ds ++ rest).take most).takeWhile Char.isDigit = ds := by
    rw [← hLength, List.take_left]
    exact List.takeWhile_eq_self_iff.mpr hDigits
  unfold readNumber?
  dsimp only
  rw [skipBlanks_of_digits hDigits hNe, hTake, List.drop_left]
  simp [hNe]

theorem readDigits?_append {ds : List Char} (hDigits : AllDigits ds) (hNe : ds ≠ [])
    {c : Char} (hc : c.isDigit = false) (rest : List Char) :
    readDigits? (ds ++ c :: rest) = some (digitsValue ds, c :: rest) := by
  have hSpan : spanDigits (ds ++ c :: rest) = (ds, c :: rest) := by
    apply spanDigits_append hDigits
    intro d hd
    cases hd
    exact hc
  unfold readDigits?
  dsimp only
  rw [hSpan]
  simp [hNe]

theorem readYear?_of_digits {ds : List Char} (hDigits : AllDigits ds) (hLength : ds.length = 4)
    (rest : List Char) : readYear? (ds ++ rest) = some ((digitsValue ds : Int), rest) := by
  have hNe : ds ≠ [] := List.ne_nil_of_length_eq_add_one hLength
  have hNumber := readNumber?_append hDigits hLength hNe rest
  unfold readYear?
  rw [skipBlanks_of_digits hDigits hNe]
  cases ds with
  | nil => exact absurd rfl hNe
  | cons c ds =>
      have hFirst := hDigits c List.mem_cons_self
      split
      · rename_i hText
        cases hText
        cases hFirst
      · rename_i hText
        cases hText
        cases hFirst
      · rw [hNumber]
        rfl

theorem readYear?_minus (rest : List Char) :
    readYear? ('-' :: rest) = (readDigits? rest).map fun parts => (-(parts.1 : Int), parts.2) :=
  rfl

theorem readYear?_plus (rest : List Char) :
    readYear? ('+' :: rest) = (readDigits? rest).map fun parts => ((parts.1 : Int), parts.2) :=
  rfl

theorem readYear?_writeYear (year : Int) (rest : List Char) :
    readYear? (writeYear year ++ '-' :: rest) = some (year, '-' :: rest) := by
  have hDigits := readDigits?_append (allDigits_padded 4 year.natAbs)
    (padded_ne_nil 4 year.natAbs) (c := '-') rfl rest
  rw [digitsValue_padded] at hDigits
  unfold writeYear
  by_cases hBefore : year < 0
  · rw [if_pos hBefore]
    show readYear? ('-' :: (padded 4 year.natAbs ++ '-' :: rest)) = _
    rw [readYear?_minus, hDigits]
    show some (-(year.natAbs : Int), _) = _
    rw [Int.ofNat_natAbs_of_nonpos (Int.le_of_lt hBefore), Int.neg_neg]
  · rw [if_neg hBefore]
    have hValue : (year.natAbs : Int) = year := Int.natAbs_of_nonneg (Int.not_lt.mp hBefore)
    by_cases hAfter : 9999 < year
    · rw [if_pos hAfter]
      show readYear? ('+' :: (padded 4 year.natAbs ++ '-' :: rest)) = _
      rw [readYear?_plus, hDigits]
      show some ((year.natAbs : Int), _) = _
      rw [hValue]
    · rw [if_neg hAfter, List.nil_append,
        readYear?_of_digits (allDigits_padded 4 _) (length_padded (by decide) (by omega)),
        digitsValue_padded, hValue]

theorem readFraction?_digits {ds : List Char} (hDigits : AllDigits ds) (hLength : ds.length = 3) :
    readFraction? ('.' :: ds) = some (digitsValue ds * 1000000) := by
  have hNe : ds ≠ [] := List.ne_nil_of_length_eq_add_one hLength
  have hAll : ds.all Char.isDigit = true := List.all_eq_true.mpr hDigits
  have hTake : ds.take 9 = ds := List.take_of_length_le (by omega)
  unfold readFraction? fractionNanos
  dsimp only
  rw [if_pos ⟨rfl, by simpa using hNe, hAll⟩, hTake, hLength]

theorem readNumber?_pair {ds : List Char} (h : AllDigits ds ∧ ds.length = 2)
    (rest : List Char) : readNumber? 2 (ds ++ rest) = some (digitsValue ds, rest) :=
  readNumber?_append h.1 h.2 (List.ne_nil_of_length_eq_add_one h.2) rest

theorem readMark?_cons (c : Char) (rest : List Char) : readMark? c (c :: rest) = some rest :=
  if_pos rfl

/-- Fields of the right lengths are read as the values of their digits. -/
theorem read?_layout {years : List Char} {year : Int}
    (hYear : forall rest, readYear? (years ++ '-' :: rest) = some (year, '-' :: rest))
    {month day hour minute second millis : List Char}
    (hPairs : forall ds, ds ∈ [month, day, hour, minute, second] ->
      AllDigits ds ∧ ds.length = 2)
    (hMillis : AllDigits millis ∧ millis.length = 3) :
    read? (layout years month day hour minute second millis) = some
      { date := ⟨year, digitsValue month, digitsValue day⟩
        hour := digitsValue hour
        minute := digitsValue minute
        second := digitsValue second
        nanos := digitsValue millis * 1000000 } := by
  have hMonth := readNumber?_pair (hPairs month (by simp))
  have hDay := readNumber?_pair (hPairs day (by simp))
  have hHour := readNumber?_pair (hPairs hour (by simp))
  have hMinute := readNumber?_pair (hPairs minute (by simp))
  have hSecond := readNumber?_pair (hPairs second (by simp))
  have hFraction := readFraction?_digits hMillis.1 hMillis.2
  have hText : layout years month day hour minute second millis =
      years ++ '-' :: (month ++ '-' :: (day ++ 'T' :: (hour ++ ':' :: (minute ++ ':' ::
        (second ++ '.' :: millis))))) := by
    simp only [layout, List.append_assoc, List.cons_append]
  rw [hText]
  refine Option.bind_eq_some_iff.mpr ⟨_, hYear _, ?_⟩
  refine Option.bind_eq_some_iff.mpr ⟨_, readMark?_cons '-' _, ?_⟩
  refine Option.bind_eq_some_iff.mpr ⟨_, hMonth _, ?_⟩
  refine Option.bind_eq_some_iff.mpr ⟨_, readMark?_cons '-' _, ?_⟩
  refine Option.bind_eq_some_iff.mpr ⟨_, hDay _, ?_⟩
  refine Option.bind_eq_some_iff.mpr ⟨_, readMark?_cons 'T' _, ?_⟩
  refine Option.bind_eq_some_iff.mpr ⟨_, hHour _, ?_⟩
  refine Option.bind_eq_some_iff.mpr ⟨_, readMark?_cons ':' _, ?_⟩
  refine Option.bind_eq_some_iff.mpr ⟨_, hMinute _, ?_⟩
  refine Option.bind_eq_some_iff.mpr ⟨_, readMark?_cons ':' _, ?_⟩
  refine Option.bind_eq_some_iff.mpr ⟨_, hSecond _, ?_⟩
  exact Option.bind_eq_some_iff.mpr ⟨_, hFraction, rfl⟩

theorem read?_write {c : Civil} (h : c.Exists) :
    read? c.write = some { c with nanos := c.nanos / 1000000 * 1000000 } := by
  rcases h with ⟨hDate, hHour, hMinute, hSecond, hNanos⟩
  rcases Date.month_day_le hDate with ⟨hMonth, hDay⟩
  have hPairs : forall ds, ds ∈ [padded 2 c.date.month, padded 2 c.date.day, padded 2 c.hour,
      padded 2 c.minute, padded 2 c.second] -> AllDigits ds ∧ ds.length = 2 := by
    have hPadded : forall n, n < 100 -> AllDigits (padded 2 n) ∧ (padded 2 n).length = 2 :=
      fun n hn => ⟨allDigits_padded 2 n, length_padded (by decide) hn⟩
    simp only [List.forall_mem_cons]
    exact ⟨hPadded _ (by omega), hPadded _ (by omega), hPadded _ (by omega),
      hPadded _ (by omega), hPadded _ (by omega), fun _ hNone => absurd hNone List.not_mem_nil⟩
  have hMillis : (padded 3 (c.nanos / 1000000)).length = 3 := by
    apply length_padded (by decide)
    unfold Timestamp.nanosPerSecond at hNanos
    omega
  rw [write_eq_layout,
    read?_layout (readYear?_writeYear c.date.year) hPairs ⟨allDigits_padded 3 _, hMillis⟩]
  simp only [digitsValue_padded]

/-!
# Instants and their fields
-/

theorem exists_civil (t : Timestamp) : t.civil.Exists := by
  refine ⟨(Date.ofDay_spec _).1, ?_, ?_, ?_, ?_⟩
  · show (t.seconds % 86400).toNat / 3600 < 24
    omega
  · show (t.seconds % 86400).toNat / 60 % 60 < 60
    omega
  · show (if t.isLeap then _ else _) ≤ 60
    split <;> omega
  · exact Nat.mod_lt _ (by decide)

theorem toTimestamp?_civil (t : Timestamp) : t.civil.toTimestamp? = some t := by
  have hDay : t.civil.date.toDay = t.seconds / 86400 := (Date.ofDay_spec _).2
  have hHour : t.civil.hour = (t.seconds % 86400).toNat / 3600 := rfl
  have hMinute : t.civil.minute = (t.seconds % 86400).toNat / 60 % 60 := rfl
  have hNanos : t.civil.nanos = t.nanos % Timestamp.nanosPerSecond := rfl
  have hSelf := Timestamp.ofParts?_self t
  unfold toTimestamp?
  rw [if_pos (exists_civil t)]
  dsimp only
  by_cases hLeap : t.isLeap = true
  · -- A leap second follows the last second of a minute.
    have hAfter := Timestamp.isLeap_iff.mp hLeap
    rcases t.valid with ⟨_, _, hBelow, hLast⟩
    have hMinuteEnd := hLast hAfter
    have hSecond : t.civil.second = 60 := by
      show (if t.isLeap then (t.seconds % 86400).toNat % 60 + 1 else _) = 60
      rw [if_pos hLeap]
      omega
    have hWhole : t.civil.date.toDay * 86400 +
        (t.civil.hour * 3600 + t.civil.minute * 60 : Nat) + 59 = t.seconds := by
      rw [hDay, hHour, hMinute]
      omega
    have hPart : t.civil.nanos + Timestamp.nanosPerSecond = t.nanos := by
      rw [hNanos]
      unfold Timestamp.nanosPerSecond at hAfter hBelow ⊢
      omega
    rw [if_pos hSecond, hWhole, hPart, hSelf]
  · have hBefore := mt Timestamp.isLeap_iff.mpr hLeap
    have hSecond : t.civil.second = (t.seconds % 86400).toNat % 60 := if_neg hLeap
    have hWhole : t.civil.date.toDay * 86400 +
        (t.civil.hour * 3600 + t.civil.minute * 60 : Nat) + t.civil.second = t.seconds := by
      rw [hDay, hHour, hMinute, hSecond]
      omega
    have hPart : t.civil.nanos = t.nanos := Nat.mod_eq_of_lt (Nat.not_le.mp hBefore)
    rw [if_neg (by omega), hWhole, hPart, hSelf]

theorem civil_of_parts {d : Date} (hDate : d.Exists) {hour minute second : Nat} (hHour : hour < 24)
    (hMinute : minute < 60) (hSecond : second < 60) {t : Timestamp}
    (hWhole : t.seconds = d.toDay * 86400 + (hour * 3600 + minute * 60 : Nat) + second) :
    t.civil = ⟨d, hour, minute, if t.isLeap then second + 1 else second,
      t.nanos % Timestamp.nanosPerSecond⟩ := by
  have hDay : t.seconds / 86400 = d.toDay := by omega
  have hOfDay : (t.seconds % 86400).toNat = hour * 3600 + minute * 60 + second := by omega
  unfold Timestamp.civil
  dsimp only
  rw [hDay, hOfDay, Date.ofDay_toDay hDate]
  have hHours : (hour * 3600 + minute * 60 + second) / 3600 = hour := by omega
  have hMinutes : (hour * 3600 + minute * 60 + second) / 60 % 60 = minute := by omega
  have hSeconds : (hour * 3600 + minute * 60 + second) % 60 = second := by omega
  rw [hHours, hMinutes, hSeconds]

theorem civil_of_toTimestamp?_eq_some {c : Civil} {t : Timestamp}
    (h : c.toTimestamp? = some t) : t.civil = c := by
  unfold toTimestamp? at h
  split at h
  · rename_i hExists
    rcases hExists with ⟨hDate, hHour, hMinute, hSecond, hBelow⟩
    dsimp only at h
    by_cases hLeap : c.second = 60
    · rw [if_pos hLeap] at h
      rcases Timestamp.parts_of_ofParts?_eq_some h with ⟨hWhole, hNanos⟩
      have hAfter : t.isLeap = true := Timestamp.isLeap_iff.mpr (by omega)
      have hSixty : 59 + 1 = c.second := hLeap.symm
      rw [civil_of_parts hDate hHour hMinute (by decide : 59 < 60) hWhole, if_pos hAfter, hNanos,
        Nat.add_mod_right, Nat.mod_eq_of_lt hBelow, hSixty]
    · rw [if_neg hLeap] at h
      rcases Timestamp.parts_of_ofParts?_eq_some h with ⟨hWhole, hNanos⟩
      have hBefore : t.isLeap ≠ true := by
        rw [Ne, Timestamp.isLeap_iff, hNanos]
        exact Nat.not_le.mpr hBelow
      rw [civil_of_parts hDate hHour hMinute (by omega) hWhole, if_neg hBefore, hNanos,
        Nat.mod_eq_of_lt hBelow]
  · cases h

theorem exists_toTimestamp?_eq_some {c : Civil} (h : c.Exists) (hFirst : 0 ≤ c.date.year)
    (hLast : c.date.year ≤ 9999) : exists t, c.toTimestamp? = some t := by
  rcases Date.toDay_within_year h.1 with ⟨hAfter, hBefore⟩
  rcases h with ⟨hDate, hHour, hMinute, hSecond, hNanos⟩
  have hDays : -719528 ≤ c.date.toDay ∧ c.date.toDay < 2932897 := by
    unfold Calendar.daysBeforeYear Calendar.epochDay at hAfter hBefore
    dsimp only at hAfter hBefore
    omega
  have hValid : exists seconds nanos, c.toTimestamp? = Timestamp.ofParts? seconds nanos ∧
      Timestamp.Valid seconds nanos := by
    unfold toTimestamp?
    rw [if_pos ⟨hDate, hHour, hMinute, hSecond, hNanos⟩]
    unfold Timestamp.Valid Timestamp.firstSecond Timestamp.lastSecond
    unfold Timestamp.nanosPerSecond at *
    dsimp only
    by_cases hLeap : c.second = 60
    · exact ⟨_, _, if_pos hLeap, by omega⟩
    · exact ⟨_, _, if_neg hLeap, by omega⟩
  rcases hValid with ⟨seconds, nanos, hParts, hValid⟩
  exact ⟨⟨seconds, nanos, hValid⟩, hParts.trans (dif_pos hValid)⟩

end Civil

namespace Timestamp

def truncate (t : Timestamp) : Timestamp where
  seconds := t.seconds
  nanos := t.nanos / 1000000 * 1000000
  valid := by
    rcases t.valid with ⟨hFirst, hLast, hNanos, hLeap⟩
    unfold nanosPerSecond at hNanos hLeap
    refine ⟨hFirst, hLast, ?_, ?_⟩
    · unfold nanosPerSecond
      omega
    · intro hAfter
      unfold nanosPerSecond at hAfter
      exact hLeap (by omega)

theorem isLeap_truncate (t : Timestamp) : t.truncate.isLeap = t.isLeap := by
  have hSecond : nanosPerSecond ≤ t.nanos / 1000000 * 1000000 <-> nanosPerSecond ≤ t.nanos := by
    unfold nanosPerSecond
    omega
  exact decide_eq_decide.mpr hSecond

theorem civil_truncate (t : Timestamp) :
    t.truncate.civil = { t.civil with nanos := t.civil.nanos / 1000000 * 1000000 } := by
  have hNanos : t.nanos / 1000000 * 1000000 % nanosPerSecond =
      t.nanos % nanosPerSecond / 1000000 * 1000000 := by
    unfold nanosPerSecond
    omega
  unfold civil
  rw [isLeap_truncate]
  simp only [truncate, hNanos]

theorem read?_write (t : Timestamp) : read? t.write = some t.truncate := by
  unfold read? write
  rw [dropLast?_append, Option.bind_eq_bind, Option.bind_some,
    Civil.read?_write (Civil.exists_civil t), Option.bind_eq_bind, Option.bind_some,
    ← civil_truncate]
  exact Civil.toTimestamp?_civil t.truncate

theorem write_truncate (t : Timestamp) : t.truncate.write = t.write := by
  have hMillis : t.civil.nanos / 1000000 * 1000000 / 1000000 = t.civil.nanos / 1000000 :=
    Nat.mul_div_cancel _ (by decide)
  unfold write Civil.write
  rw [civil_truncate]
  simp only [hMillis]

theorem mem_write {t : Timestamp} {c : Char} (h : c ∈ t.write) :
    c.isDigit = true ∨ c ∈ ['-', '+', 'T', ':', '.', 'Z'] := by
  have hPadded : forall width n, c ∈ padded width n -> c.isDigit = true :=
    fun width n hc => allDigits_padded width n c hc
  have hYear : c ∈ Civil.writeYear t.civil.date.year -> c.isDigit = true ∨ c = '-' ∨ c = '+' := by
    unfold Civil.writeYear
    split_ifs <;> grind
  unfold write at h
  rw [Civil.write_eq_layout] at h
  unfold Civil.layout at h
  grind

/-!
# Texts of full length
-/

def Field (length : Nat) : Type :=
  { ds : List Char // AllDigits ds ∧ ds.length = length }

def Field.value {length : Nat} (field : Field length) : Nat :=
  digitsValue field.val

end Timestamp

/-- The fields of a text `yyyy-MM-ddTHH:mm:ss.SSSZ`. -/
structure TimeText where
  year : Timestamp.Field 4
  month : Timestamp.Field 2
  day : Timestamp.Field 2
  hour : Timestamp.Field 2
  minute : Timestamp.Field 2
  second : Timestamp.Field 2
  millis : Timestamp.Field 3

namespace Timestamp

theorem Field.padded_value {length : Nat} (field : Field length) (hLength : 0 < length) :
    padded length field.value = field.val := by
  rcases field with ⟨ds, hDigits, rfl⟩
  exact padded_digitsValue hDigits hLength

theorem Field.value_lt {length : Nat} (field : Field length) : field.value < 10 ^ length := by
  rcases field with ⟨ds, hDigits, rfl⟩
  exact digitsValue_lt hDigits

end Timestamp

namespace TimeText

def civil (text : TimeText) : Civil where
  date := ⟨text.year.value, text.month.value, text.day.value⟩
  hour := text.hour.value
  minute := text.minute.value
  second := text.second.value
  nanos := text.millis.value * 1000000

def chars (text : TimeText) : List Char :=
  Civil.layout text.year.val text.month.val text.day.val text.hour.val text.minute.val
    text.second.val text.millis.val ++ ['Z']

def token (text : TimeText) : String :=
  String.ofList text.chars

theorem read?_chars (text : TimeText) :
    Timestamp.read? text.chars = text.civil.toTimestamp? := by
  have hYear := Civil.readYear?_of_digits text.year.property.1 text.year.property.2
  have hPairs : forall ds, ds ∈ [text.month.val, text.day.val, text.hour.val, text.minute.val,
      text.second.val] -> AllDigits ds ∧ ds.length = 2 := by
    simp only [List.forall_mem_cons]
    exact ⟨text.month.property, text.day.property, text.hour.property, text.minute.property,
      text.second.property, fun _ hNone => absurd hNone List.not_mem_nil⟩
  have hFields := Civil.read?_layout (fun rest => hYear _) hPairs text.millis.property
  unfold Timestamp.read? chars
  rw [dropLast?_append, Option.bind_eq_bind, Option.bind_some, hFields,
    Option.bind_eq_bind, Option.bind_some]
  rfl

theorem write_civil (text : TimeText) : text.civil.write ++ ['Z'] = text.chars := by
  have hYear : Civil.writeYear text.year.value = text.year.val := by
    have hLast := text.year.value_lt
    unfold Civil.writeYear
    rw [if_neg (by omega), if_neg (by omega), List.nil_append, Int.natAbs_natCast,
      text.year.padded_value (by decide)]
  have hMillis : text.civil.nanos / 1000000 = text.millis.value :=
    Nat.mul_div_cancel _ (by decide)
  rw [Civil.write_eq_layout, hMillis]
  unfold chars
  show Civil.layout (Civil.writeYear text.year.value) (padded 2 text.month.value)
    (padded 2 text.day.value) (padded 2 text.hour.value) (padded 2 text.minute.value)
    (padded 2 text.second.value) (padded 3 text.millis.value) ++ ['Z'] = _
  rw [hYear, Timestamp.Field.padded_value _ (by decide), Timestamp.Field.padded_value _ (by decide),
    Timestamp.Field.padded_value _ (by decide), Timestamp.Field.padded_value _ (by decide),
    Timestamp.Field.padded_value _ (by decide), Timestamp.Field.padded_value _ (by decide)]

end TimeText

namespace Timestamp

/--
A written instant reads back as the start of its millisecond, a leap second as a
leap second, and a text of full length is written again as it was read.
-/
theorem written_times_read_back :
    (forall t : Timestamp, parse? t.format = some t.truncate ∧
      t.truncate.seconds = t.seconds ∧ t.truncate.nanos = t.nanos / 1000000 * 1000000 ∧
      t.truncate.isLeap = t.isLeap) ∧
    forall text : TimeText,
      text.civil.Exists <-> exists t, parse? text.token = some t ∧ t.format = text.token := by
  constructor
  · intro t
    refine ⟨?_, rfl, rfl, isLeap_truncate t⟩
    unfold parse? format
    rw [String.toList_ofList, read?_write]
  · intro text
    have hParse : parse? text.token = text.civil.toTimestamp? := by
      unfold parse? TimeText.token
      rw [String.toList_ofList, TimeText.read?_chars]
    rw [hParse]
    constructor
    · intro hExists
      have hYear := text.year.value_lt
      rcases Civil.exists_toTimestamp?_eq_some hExists (Int.natCast_nonneg _)
        (show (text.year.value : Int) ≤ 9999 by omega) with ⟨t, ht⟩
      refine ⟨t, ht, ?_⟩
      unfold format write TimeText.token
      rw [Civil.civil_of_toTimestamp?_eq_some ht, TimeText.write_civil]
    · intro hRead
      rcases hRead with ⟨t, ht, _⟩
      unfold Civil.toTimestamp? at ht
      by_cases hExists : text.civil.Exists
      · exact hExists
      · rw [if_neg hExists] at ht
        cases ht

end Timestamp
end LayerAxes
