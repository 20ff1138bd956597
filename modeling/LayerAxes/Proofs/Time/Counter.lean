import LayerAxes.Proofs.Time.Expression
import Mathlib.Algebra.Order.BigOperators.Group.List

/-!
# The counter of milliseconds

Months that find no room make a text malformed, but reading breaks off when the counter
of milliseconds would leave its word.  It does so at the first item that is too much,
whatever comes after that item, and so just for the texts that open with such items.
-/

namespace LayerAxes
namespace Duration

/-- The items that a text opens with; time items are reached only from date items all along. -/
inductive Leads : List Share -> List Char -> Prop where
  | date {items cs} (hOpens : Opens DateItem.component items cs) (hNone : 'T' ∉ cs) :
      Leads (items.map DateItem.share) ('P' :: cs)
  | beforeTime {items date time} (hOpens : Opens DateItem.component items date)
      (hNone : 'T' ∉ date) (hSome : time ≠ []) :
      Leads (items.map DateItem.share) ('P' :: (date ++ 'T' :: time))
  | time {date items time} (hOpens : Opens TimeItem.component items time) (hSome : time ≠ []) :
      Leads (sharesOf date items) ('P' :: (dateChars date ++ 'T' :: time))

theorem leads_iff_of_notMem {shares : List Share} {cs : List Char} (hNone : 'T' ∉ cs) :
    Leads shares ('P' :: cs) <->
      exists items, shares = items.map DateItem.share ∧ Opens DateItem.component items cs := by
  constructor
  · intro h
    cases h with
    | date hOpens _ => exact ⟨_, rfl, hOpens⟩
    | beforeTime _ _ _ => simp at hNone
    | time _ _ => simp at hNone
  · rintro ⟨items, rfl, hOpens⟩
    exact .date hOpens hNone

theorem leads_iff_of_cut {shares : List Share} {before after : List Char}
    (hBefore : 'T' ∉ before) :
    Leads shares ('P' :: (before ++ 'T' :: after)) <->
      after ≠ [] ∧
        ((exists items, shares = items.map DateItem.share ∧
            Opens DateItem.component items before) ∨
          exists date items, shares = sharesOf date items ∧ dateChars date = before ∧
            Opens TimeItem.component items after) := by
  constructor
  · intro h
    generalize hText : 'P' :: (before ++ 'T' :: after) = cs at h
    cases h with
    | date _ hNone =>
        cases hText
        simp at hNone
    | beforeTime hOpens hNone hSome =>
        rcases Text.eq_and_eq_of_append_cons_eq hBefore hNone (List.tail_eq_of_cons_eq hText)
          with ⟨rfl, rfl⟩
        exact ⟨hSome, Or.inl ⟨_, rfl, hOpens⟩⟩
    | time hOpens hSome =>
        rcases Text.eq_and_eq_of_append_cons_eq hBefore (separator_notMem_dateChars _)
          (List.tail_eq_of_cons_eq hText) with ⟨rfl, rfl⟩
        exact ⟨hSome, Or.inr ⟨_, _, rfl, rfl, hOpens⟩⟩
  · rintro ⟨hSome, ⟨items, rfl, hOpens⟩ | ⟨date, items, rfl, rfl, hOpens⟩⟩
    · exact .beforeTime hOpens hBefore hSome
    · exact .time hOpens hSome

theorem opens_flatMap_spell {ι : Type} (component : ι -> List Char × Char) (items : List ι) :
    Opens component items ((items.map component).flatMap spell) :=
  ⟨[], fun _ h => absurd h List.not_mem_nil, by rw [List.append_nil]⟩

theorem Expression.leads (e : Expression) : Leads e.shares e.chars := by
  rcases e with ⟨date, time, hSome⟩
  cases time with
  | nil =>
      have hShares : sharesOf date [] = date.map DateItem.share := List.append_nil _
      show Leads (sharesOf date []) ('P' :: (dateChars date ++ []))
      rw [hShares, List.append_nil]
      exact .date (opens_flatMap_spell _ date) (separator_notMem_dateChars date)
  | cons item items =>
      exact .time (opens_flatMap_spell _ (item :: items)) (timeChars_cons_ne_nil item items)

/-!
# Overflow
-/

theorem dates_eq_overflow_iff {cs : List Char} :
    addComponents dateComponent? zero cs = .error .overflow <->
      exists items, Opens DateItem.component items cs ∧ Overflows (items.map DateItem.share) :=
  DateItem.reads.addComponents_eq_overflow_iff fits_nil

theorem times_eq_overflow_iff {date : List DateItem} (hDate : Fits (date.map DateItem.share))
    {cs : List Char} :
    addComponents timeComponent? (totalOf (date.map DateItem.share)) cs = .error .overflow <->
      exists items, Opens TimeItem.component items cs ∧ Overflows (sharesOf date items) :=
  TimeItem.reads.addComponents_eq_overflow_iff hDate

theorem dates_and_times_eq_overflow_iff {date time : List Char} :
    (addComponents dateComponent? zero date >>= fun dates =>
        addComponents timeComponent? dates time) = .error .overflow <->
      (exists items, Opens DateItem.component items date ∧
          Overflows (items.map DateItem.share)) ∨
        exists dates items, dateChars dates = date ∧ Opens TimeItem.component items time ∧
          Overflows (sharesOf dates items) := by
  constructor
  · intro h
    cases hDates : addComponents dateComponent? zero date with
    | error fault =>
        rw [hDates] at h
        cases h
        exact Or.inl (dates_eq_overflow_iff.mp hDates)
    | ok total =>
        rw [hDates] at h
        rcases dates_eq_ok_iff.mp hDates with ⟨dates, rfl, hFits, rfl⟩
        rcases (times_eq_overflow_iff hFits).mp h with ⟨items, hOpens, hMore⟩
        exact Or.inr ⟨dates, items, rfl, hOpens, hMore⟩
  · rintro (hDates | ⟨dates, items, rfl, hOpens, hMore⟩)
    · rw [dates_eq_overflow_iff.mpr hDates]
      rfl
    · have hMonths := monthsOf_le_of_append hMore.months_le
      by_cases hRoom : countedOf (dates.map DateItem.share) ≤ maxMillis
      · rw [dates_eq_ok_iff.mpr ⟨dates, rfl, ⟨hMonths, hRoom⟩, rfl⟩]
        exact (times_eq_overflow_iff ⟨hMonths, hRoom⟩).mpr ⟨items, hOpens, hMore⟩
      · have hOver : Overflows (dates.map DateItem.share) := ⟨hMonths, Nat.not_le.mp hRoom⟩
        have hDates : addComponents dateComponent? zero (dateChars dates) = .error .overflow :=
          dates_eq_overflow_iff.mpr ⟨dates, opens_flatMap_spell _ dates, hOver⟩
        rw [hDates]
        rfl

theorem sum_eq_overflow_iff {cs : List Char} :
    sum cs = .error .overflow <-> exists shares, Leads shares ('P' :: cs) ∧ Overflows shares := by
  rcases Text.cutAt?_cases 'T' cs with ⟨hNone, hNot⟩ | ⟨before, after, hCut, hBefore, rfl⟩
  · have hDates : sum cs = addComponents dateComponent? zero cs := by
      unfold sum
      rw [hNone]
    rw [hDates, dates_eq_overflow_iff]
    constructor
    · rintro ⟨items, hOpens, hMore⟩
      exact ⟨_, .date hOpens hNot, hMore⟩
    · rintro ⟨shares, hLeads, hMore⟩
      rcases (leads_iff_of_notMem hNot).mp hLeads with ⟨items, rfl, hOpens⟩
      exact ⟨items, hOpens, hMore⟩
  · rw [sum_of_cut hCut]
    constructor
    · intro h
      split at h
      · cases h
      · rename_i hSome
        rw [List.isEmpty_iff] at hSome
        rcases dates_and_times_eq_overflow_iff.mp h with
          ⟨items, hOpens, hMore⟩ | ⟨dates, items, rfl, hOpens, hMore⟩
        · exact ⟨_, .beforeTime hOpens hBefore hSome, hMore⟩
        · exact ⟨_, .time hOpens hSome, hMore⟩
    · rintro ⟨shares, hLeads, hMore⟩
      rcases (leads_iff_of_cut hBefore).mp hLeads with ⟨hSome, hFront⟩
      rw [if_neg (by rwa [List.isEmpty_iff])]
      apply dates_and_times_eq_overflow_iff.mpr
      rcases hFront with ⟨items, rfl, hOpens⟩ | ⟨dates, items, rfl, hDates, hOpens⟩
      · exact Or.inl ⟨items, hOpens, hMore⟩
      · exact Or.inr ⟨dates, items, hDates, hOpens, hMore⟩

theorem read_cons_eq_overflow_iff {cs : List Char} :
    read ('P' :: cs) = .error .overflow <-> sum cs = .error .overflow := by
  cases cs with
  | nil =>
      constructor
      · intro h
        cases h
      · intro h
        cases h
  | cons c cs =>
      show (sum (c :: cs) >>= fun total =>
        if total.isZero then Except.error Fault.malformed else .ok total) = _ <-> _
      cases sum (c :: cs) with
      | error fault => rfl
      | ok total =>
          dsimp only [bind, Except.bind]
          cases total.isZero <;> simp

/-- The counter overflows in reading a text. -/
theorem read_eq_overflow_iff {cs : List Char} :
    read cs = .error .overflow <-> exists shares, Leads shares cs ∧ Overflows shares := by
  by_cases hFirst : exists rest, cs = 'P' :: rest
  · rcases hFirst with ⟨rest, rfl⟩
    exact read_cons_eq_overflow_iff.trans sum_eq_overflow_iff
  · constructor
    · intro h
      unfold read at h
      split at h
      · rename_i rest
        exact absurd ⟨rest, rfl⟩ hFirst
      · cases h
    · rintro ⟨shares, hLeads, _⟩
      cases hLeads with
      | date _ _ => exact absurd ⟨_, rfl⟩ hFirst
      | beforeTime _ _ _ => exact absurd ⟨_, rfl⟩ hFirst
      | time _ _ => exact absurd ⟨_, rfl⟩ hFirst

theorem countedOf_take_le (shares : List Share) (k : Nat) :
    countedOf (shares.take k) ≤ countedOf shares :=
  ((List.take_sublist k shares).map Share.counted).sum_le_sum fun _ _ => Nat.zero_le _

/--
Reading a text breaks off just when it opens with items whose months find room but whose
milliseconds, added up, do not.  For the text of an expression these are all of its items.
What is read is the exact sum, which is not negative, and so were all sums on the way.
-/
theorem counter_overflows_iff (s : String) :
    (parse s = .error .overflow <->
      exists shares, Leads shares s.toList ∧ monthsOf shares ≤ wholeLimit ∧
        maxMillis < countedOf shares) ∧
      (forall e : Expression, e.chars = s.toList -> e.months ≤ wholeLimit ->
        (parse s = .error .overflow <-> maxMillis < countedOf e.shares)) ∧
      forall d, parse s = .ok d ->
        exists e : Expression, e.chars = s.toList ∧ d.months = e.months ∧
          d.millis.toInt = (countedOf e.shares : Nat) ∧
          forall k, countedOf (e.shares.take k) ≤ maxMillis := by
  refine ⟨?_, ?_, ?_⟩
  · refine read_eq_overflow_iff.trans (exists_congr fun shares => and_congr_right fun _ => ?_)
    exact ⟨fun h => ⟨h.months_le, h.lt_counted⟩, fun h => ⟨h.1, h.2⟩⟩
  · intro e hText hMonths
    constructor
    · intro hOver
      by_contra hRoom
      have hSum : sum (dateChars e.date ++ timePart e.time) = .ok (totalOf e.shares) :=
        sum_eq_ok_iff.mpr ⟨_, _, rfl, ⟨hMonths, Nat.not_lt.mp hRoom⟩, rfl⟩
      unfold parse at hOver
      rw [← hText] at hOver
      rw [read_cons_eq_overflow_iff.mp hOver] at hSum
      cases hSum
    · intro hMore
      exact read_eq_overflow_iff.mpr ⟨e.shares, hText ▸ e.leads, hMonths, hMore⟩
  · intro d hRead
    rcases read_eq_ok_iff.mp hRead with ⟨e, hText, hFits, rfl, _⟩
    refine ⟨e, hText, rfl, toInt_ofInt_natCast hFits.counted_le, ?_⟩
    intro k
    exact Nat.le_trans (countedOf_take_le e.shares k) hFits.counted_le

def Expression.mostWeeks (n : Nat) : Expression where
  date := List.replicate (n + 1)
    ⟨⟨"4294967295".toList, by decide, by decide, by decide⟩, .week⟩
  time := []
  some_item := .inl (List.cons_ne_nil _ _)

theorem three_times_most_weeks_fit :
    parse "P4294967295W4294967295W4294967295W" = .ok ⟨0, 7792788660048000000⟩ ∧
      countedOf (Expression.mostWeeks 2).shares = 7792788660048000000 ∧
      forall k, countedOf ((Expression.mostWeeks 2).shares.take k) ≤ maxMillis := by
  have hText : (Expression.mostWeeks 2).chars =
      "P4294967295W4294967295W4294967295W".toList := by
    decide
  have hRead : parse "P4294967295W4294967295W4294967295W" = .ok ⟨0, 7792788660048000000⟩ := by
    decide +kernel
  rcases (counter_overflows_iff "P4294967295W4294967295W4294967295W").2.2 _ hRead with
    ⟨e, he, _, hExact, hSums⟩
  cases Expression.chars_injective (he.trans hText.symm)
  have hSum : (7792788660048000000 : Int) = (countedOf (Expression.mostWeeks 2).shares : Nat) :=
    hExact
  exact ⟨hRead, by exact_mod_cast hSum.symm, hSums⟩

/-- A fourth time is too much, though nothing else is wrong with the text. -/
theorem four_times_most_weeks_overflow :
    (Expression.mostWeeks 3).chars =
        "P4294967295W4294967295W4294967295W4294967295W".toList ∧
      maxMillis < countedOf (Expression.mostWeeks 3).shares ∧
      parse "P4294967295W4294967295W4294967295W4294967295W" = .error .overflow := by
  decide +kernel

end Duration
end LayerAxes
