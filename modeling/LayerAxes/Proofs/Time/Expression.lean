import LayerAxes.Error
import LayerAxes.Proofs.Text.Cut
import LayerAxes.Proofs.Time.Items

/-!
# The grammar of durations

A duration is written as the letter `P`, any number of date items in any order, and
after a `T` any number of time items; one item at least is needed.  An expression is
such a text as a tree, and no text is that of two.  Reading a duration succeeds just for
the texts of expressions, and adds up what their items stand for.
-/

namespace LayerAxes
namespace Duration

/-!
# The parts before and after the separator
-/

def dateChars (items : List DateItem) : List Char :=
  (items.map DateItem.component).flatMap spell

def timeChars (items : List TimeItem) : List Char :=
  (items.map TimeItem.component).flatMap spell

def timePart : List TimeItem -> List Char
  | [] => []
  | item :: items => 'T' :: timeChars (item :: items)

theorem separator_notMem_dateChars (items : List DateItem) : 'T' ∉ dateChars items := by
  intro h
  rcases List.mem_flatMap.mp h with ⟨c, hc, hChar⟩
  rcases List.mem_map.mp hc with ⟨i, _, rfl⟩
  rcases i with ⟨n, unit⟩
  rcases List.mem_append.mp hChar with hDigit | hLetter
  · exact absurd (n.all_digits 'T' hDigit) (by decide)
  · cases unit <;> simp [DateItem.component, DateUnit.letter] at hLetter

theorem dateChars_ne_append_separator (date : List DateItem) (before after : List Char) :
    dateChars date ≠ before ++ 'T' :: after := by
  intro h
  apply separator_notMem_dateChars date
  rw [h]
  exact List.mem_append_right _ List.mem_cons_self

theorem timeChars_cons_ne_nil (item : TimeItem) (items : List TimeItem) :
    timeChars (item :: items) ≠ [] := by
  simp [timeChars, spell]

theorem dateChars_injective : Function.Injective dateChars := fun _ _ h =>
  List.map_injective_iff.mpr DateItem.component_injective
    (map_component_eq_of_spell_eq DateItem.isComponent h)

theorem timeChars_injective : Function.Injective timeChars := fun _ _ h =>
  List.map_injective_iff.mpr TimeItem.component_injective
    (map_component_eq_of_spell_eq TimeItem.isComponent h)

def sharesOf (date : List DateItem) (time : List TimeItem) : List Share :=
  date.map DateItem.share ++ time.map TimeItem.share

theorem dates_eq_ok_iff {cs : List Char} {d : Duration} :
    addComponents dateComponent? zero cs = .ok d <->
      exists date, dateChars date = cs ∧ Fits (date.map DateItem.share) ∧
        d = totalOf (date.map DateItem.share) :=
  DateItem.reads.addComponents_eq_ok_iff fits_nil

theorem times_eq_ok_iff {date : List DateItem} (hDate : Fits (date.map DateItem.share))
    {cs : List Char} {d : Duration} :
    addComponents timeComponent? (totalOf (date.map DateItem.share)) cs = .ok d <->
      exists time, timeChars time = cs ∧ Fits (sharesOf date time) ∧
        d = totalOf (sharesOf date time) :=
  TimeItem.reads.addComponents_eq_ok_iff hDate

theorem sum_of_cut {cs date time : List Char} (h : Text.cutAt? 'T' cs = some (date, time)) :
    sum cs =
      if time.isEmpty then .error .malformed
      else addComponents dateComponent? zero date >>= fun dates =>
        addComponents timeComponent? dates time := by
  unfold sum
  rw [h]

theorem sum_eq_ok_iff {cs : List Char} {d : Duration} :
    sum cs = .ok d <->
      exists date time, dateChars date ++ timePart time = cs ∧ Fits (sharesOf date time) ∧
        d = totalOf (sharesOf date time) := by
  rcases Text.cutAt?_cases 'T' cs with ⟨hNone, hNot⟩ | ⟨before, after, hCut, hBefore, rfl⟩
  · have hDates : sum cs = addComponents dateComponent? zero cs := by
      unfold sum
      rw [hNone]
    rw [hDates, dates_eq_ok_iff]
    constructor
    · rintro ⟨date, rfl, hFits, rfl⟩
      have hShares : sharesOf date [] = date.map DateItem.share := List.append_nil _
      exact ⟨date, [], List.append_nil _, hShares.symm ▸ hFits, by rw [hShares]⟩
    · rintro ⟨date, time, rfl, hFits, rfl⟩
      cases time with
      | nil =>
          have hShares : sharesOf date [] = date.map DateItem.share := List.append_nil _
          rw [hShares] at hFits ⊢
          exact ⟨date, (List.append_nil _).symm, hFits, rfl⟩
      | cons item items => simp [timePart] at hNot
  · rw [sum_of_cut hCut]
    constructor
    · intro h
      split at h
      · cases h
      · rename_i hSome
        rcases Answer.exists_of_bind_eq_ok h with ⟨dates, hDates, hTimes⟩
        rcases dates_eq_ok_iff.mp hDates with ⟨date, rfl, hFits, rfl⟩
        rcases (times_eq_ok_iff hFits).mp hTimes with ⟨time, rfl, hAll, rfl⟩
        cases time with
        | nil => exact absurd rfl hSome
        | cons item items => exact ⟨date, item :: items, rfl, hAll, rfl⟩
    · rintro ⟨date, time, hText, hFits, rfl⟩
      cases time with
      | nil =>
          rw [timePart, List.append_nil] at hText
          exact absurd hText (dateChars_ne_append_separator _ _ _)
      | cons item items =>
          rcases Text.eq_and_eq_of_append_cons_eq (separator_notMem_dateChars date) hBefore hText
            with ⟨rfl, rfl⟩
          have hSome : (timeChars (item :: items)).isEmpty = false :=
            List.isEmpty_eq_false_iff.mpr (timeChars_cons_ne_nil item items)
          have hDates := dates_eq_ok_iff.mpr ⟨date, rfl, hFits.of_append, rfl⟩
          rw [hSome, if_neg Bool.false_ne_true, hDates]
          exact (times_eq_ok_iff hFits.of_append).mpr ⟨_, rfl, hFits, rfl⟩

/-!
# Expressions
-/

/-- A duration as a tree of items, one of which at least is there. -/
structure Expression where
  date : List DateItem
  time : List TimeItem
  some_item : date ≠ [] ∨ time ≠ []

namespace Expression

def chars (e : Expression) : List Char :=
  'P' :: (dateChars e.date ++ timePart e.time)

def shares (e : Expression) : List Share :=
  sharesOf e.date e.time

def months (e : Expression) : Nat :=
  monthsOf e.shares

def millis (e : Expression) : Nat :=
  (e.shares.map Share.millis).sum

theorem body_not_isEmpty (e : Expression) :
    ¬ (dateChars e.date ++ timePart e.time).isEmpty = true := by
  rw [List.isEmpty_iff, List.append_eq_nil_iff]
  rintro ⟨hDate, hTime⟩
  rcases e with ⟨date, time, hDates | hTimes⟩
  · cases date with
    | nil => exact hDates rfl
    | cons item items => simp [dateChars, spell] at hDate
  · cases time with
    | nil => exact hTimes rfl
    | cons item items => cases hTime

theorem chars_injective : Function.Injective chars := by
  rintro ⟨date, time, hItem⟩ ⟨date', time', hItem'⟩ h
  have hBody : dateChars date ++ timePart time = dateChars date' ++ timePart time' :=
    List.tail_eq_of_cons_eq h
  have hItems : date = date' ∧ time = time' := by
    cases time with
    | nil =>
        rw [timePart, List.append_nil] at hBody
        cases time' with
        | nil =>
            rw [timePart, List.append_nil] at hBody
            exact ⟨dateChars_injective hBody, rfl⟩
        | cons item' items' => exact absurd hBody (dateChars_ne_append_separator _ _ _)
    | cons item items =>
        cases time' with
        | nil =>
            rw [timePart, List.append_nil] at hBody
            exact absurd hBody.symm (dateChars_ne_append_separator _ _ _)
        | cons item' items' =>
            rcases Text.eq_and_eq_of_append_cons_eq (separator_notMem_dateChars date)
              (separator_notMem_dateChars date') hBody with ⟨hDate, hTime⟩
            exact ⟨dateChars_injective hDate, timeChars_injective hTime⟩
  cases hItems.1
  cases hItems.2
  rfl

end Expression

/-!
# Reading
-/

theorem read_eq_ok_iff {cs : List Char} {d : Duration} :
    read cs = .ok d <->
      exists e : Expression, e.chars = cs ∧ Fits e.shares ∧ d = totalOf e.shares ∧
        d.isZero = false := by
  unfold read
  split
  · rename_i cs
    constructor
    · intro h
      split at h
      · cases h
      · rename_i hSome
        rcases Answer.exists_of_bind_eq_ok h with ⟨total, hTotal, hMore⟩
        rcases sum_eq_ok_iff.mp hTotal with ⟨date, time, rfl, hFits, rfl⟩
        have hItem : date ≠ [] ∨ time ≠ [] := by
          by_contra hNone
          rw [not_or, not_not, not_not] at hNone
          rw [hNone.1, hNone.2] at hSome
          exact hSome rfl
        split at hMore
        · cases hMore
        · rename_i hZero
          cases hMore
          exact ⟨⟨date, time, hItem⟩, rfl, hFits, rfl, Bool.eq_false_iff.mpr hZero⟩
    · rintro ⟨e, hChars, hFits, rfl, hZero⟩
      have hBody : dateChars e.date ++ timePart e.time = cs := List.tail_eq_of_cons_eq hChars
      rw [if_neg (hBody ▸ e.body_not_isEmpty), sum_eq_ok_iff.mpr ⟨_, _, hBody, hFits, rfl⟩]
      exact if_neg (Bool.eq_false_iff.mp hZero)
  · rename_i hOther
    constructor
    · intro h
      cases h
    · rintro ⟨e, rfl, _⟩
      exact absurd rfl (hOther _)

theorem parse?_eq_some_iff {s : String} {d : Duration} :
    parse? s = some d <->
      exists e : Expression, e.chars = s.toList ∧ Fits e.shares ∧ d = totalOf e.shares ∧
        d.isZero = false :=
  parse?_eq_some_iff_parse.trans read_eq_ok_iff

theorem zero_le_millis_of_parse?_eq_some {s : String} {d : Duration} (h : parse? s = some d) :
    0 ≤ d.millis.toInt := by
  rcases parse?_eq_some_iff.mp h with ⟨e, _, hFits, rfl, _⟩
  show 0 ≤ (Int64.ofInt (countedOf e.shares)).toInt
  rw [toInt_ofInt_natCast hFits.counted_le]
  exact Int.natCast_nonneg _

end Duration
end LayerAxes
