import LayerAxes.Proofs.Dimension.Kinds
import LayerAxes.Proofs.Number.Written
import LayerAxes.Proofs.Order.Value
import LayerAxes.Proofs.Text.Blank
import LayerAxes.Proofs.Time.Written

/-!
# Tokens and the values written for them

The token written for a value is the normal form of all tokens that are read as
this value.  It reads back as the same value, except that of times only whole
milliseconds are written, and it is written for what is read back.

The slash of a range is found again because no instant on its first side has
one: a text instant is what stands before the first slash, and numbers and times
are written without.
-/

namespace LayerAxes

open Std Text

/-!
# Plain characters
-/

namespace Text

def Plain (c : Char) : Prop :=
  isBlank c = false ∧ c ≠ '/'

instance (c : Char) : Decidable (Plain c) :=
  inferInstanceAs (Decidable (_ ∧ _))

theorem plain_of_isDigit {c : Char} (h : c.isDigit = true) : Plain c := by
  refine ⟨isBlank_of_isDigit h, ?_⟩
  rintro rfl
  cases h

theorem plain_of_isDigit_or_mem {marks : List Char}
    (hMarks : marks.all (fun mark => Plain mark) = true) {c : Char}
    (h : c.isDigit = true ∨ c ∈ marks) : Plain c := by
  rcases h with hDigit | hMark
  · exact plain_of_isDigit hDigit
  · exact of_decide_eq_true (List.all_eq_true.mp hMarks c hMark)

theorem trimmed_of_plain {cs : List Char} (h : forall c, c ∈ cs -> Plain c) :
    Trimmed cs ∧ '/' ∉ cs :=
  ⟨trimmed_of_forall fun c hc => (h c hc).1, fun hSlash => (h '/' hSlash).2 rfl⟩

end Text

/-!
# Points of an axis
-/

namespace Timestamp

variable {s t : Timestamp}

theorem truncate_le_truncate (h : s ≤ t) : s.truncate ≤ t.truncate := by
  rw [le_iff] at h ⊢
  show s.seconds < t.seconds ∨
    (s.seconds = t.seconds ∧ s.nanos / 1000000 * 1000000 ≤ t.nanos / 1000000 * 1000000)
  omega

theorem plain_of_mem_write {c : Char} (h : c ∈ t.write) : Plain c :=
  plain_of_isDigit_or_mem (by decide) (mem_write h)

end Timestamp

namespace Binary64

variable {x : Binary64}

theorem plain_of_mem_write (hFinite : x.isFinite = true) {c : Char} (h : c ∈ x.write) :
    Plain c :=
  plain_of_isDigit_or_mem (by decide) (mem_write hFinite h)

end Binary64

/-!
# Values as they are written
-/

namespace Extent

def map {α β : Type} (f : α -> β) : Extent α -> Extent β
  | instant x => instant (f x)
  | range lo hi => range (f lo) (f hi)

theorem between?_eq_some_iff {α : Type} [Ord α] {lo hi : α} {e : Extent α} :
    between? lo hi = some e <-> (compare lo hi).isLE = true ∧ range lo hi = e := by
  unfold between?
  rw [Ordering.isLE_iff_ne_gt]
  by_cases h : compare lo hi = .gt
  · simp [h]
  · simp [h]

end Extent

namespace Value

/-- The value with its times at the start of their milliseconds. -/
def truncate : Value -> Value
  | time e => time (e.map Timestamp.truncate)
  | v => v

def IsFinite : Value -> Prop
  | number e => e.lower.isFinite = true ∧ e.upper.isFinite = true
  | _ => True

def WithoutNaN : Value -> Prop
  | number e => e.lower.isNaN = false ∧ e.upper.isNaN = false
  | _ => True

instance : DecidablePred WithoutNaN
  | number e => inferInstanceAs (Decidable (e.lower.isNaN = false ∧ e.upper.isNaN = false))
  | time _ => isTrue trivial
  | text _ => isTrue trivial

variable {a b v : Value}

theorem isRange_truncate (v : Value) : v.truncate.isRange = v.isRange := by
  rcases v with (_ | _) | _ | _
  all_goals rfl

theorem write_truncate (v : Value) : v.truncate.write = v.write := by
  rcases v with (t | ⟨lo, hi⟩) | e | e
  · exact t.write_truncate
  · show lo.truncate.write ++ ['/'] ++ hi.truncate.write = _
    rw [lo.write_truncate, hi.write_truncate]
    rfl
  · rfl
  · rfl

theorem between?_cases (h : between? a b = some v) :
    (exists lo hi, a = time (.instant lo) ∧ b = time (.instant hi) ∧ v = time (.range lo hi) ∧
      (compare lo hi).isLE = true) ∨
    (exists lo hi, a = number (.instant lo) ∧ b = number (.instant hi) ∧
      v = number (.range lo hi) ∧ (compare lo hi).isLE = true) ∨
    exists lo hi, a = text (.instant lo) ∧ b = text (.instant hi) ∧ v = text (.range lo hi) ∧
      (compare lo hi).isLE = true := by
  unfold between? at h
  split at h
  · rename_i lo hi
    rcases Option.map_eq_some_iff.mp h with ⟨e, he, rfl⟩
    rcases Extent.between?_eq_some_iff.mp he with ⟨hLE, rfl⟩
    exact Or.inl ⟨lo, hi, rfl, rfl, rfl, hLE⟩
  · rename_i lo hi
    rcases Option.map_eq_some_iff.mp h with ⟨e, he, rfl⟩
    rcases Extent.between?_eq_some_iff.mp he with ⟨hLE, rfl⟩
    exact Or.inr (Or.inl ⟨lo, hi, rfl, rfl, rfl, hLE⟩)
  · rename_i lo hi
    rcases Option.map_eq_some_iff.mp h with ⟨e, he, rfl⟩
    rcases Extent.between?_eq_some_iff.mp he with ⟨hLE, rfl⟩
    exact Or.inr (Or.inr ⟨lo, hi, rfl, rfl, rfl, hLE⟩)
  · cases h

theorem range_of_between?_eq_some (h : between? a b = some v) :
    v.lower = a ∧ v.upper = b ∧ (compare a b).isLE = true ∧
      v.write = a.write ++ '/' :: b.write := by
  rcases between?_cases h with ⟨lo, hi, rfl, rfl, rfl, hLE⟩ | ⟨lo, hi, rfl, rfl, rfl, hLE⟩ |
    ⟨lo, hi, rfl, rfl, rfl, hLE⟩
  all_goals
    rw [← Extent.compareBounds_instant] at hLE
    refine ⟨rfl, rfl, hLE, ?_⟩
    simp only [write, Extent.write, List.append_assoc, List.singleton_append]

theorem between?_truncate (h : between? a b = some v) :
    between? a.truncate b.truncate = some v.truncate := by
  rcases between?_cases h with ⟨lo, hi, rfl, rfl, rfl, hLE⟩ | ⟨lo, hi, rfl, rfl, rfl, hLE⟩ |
    ⟨lo, hi, rfl, rfl, rfl, hLE⟩
  · have hKept : (compare lo.truncate hi.truncate).isLE = true :=
      Timestamp.truncate_le_truncate hLE
    exact Option.map_eq_some_iff.mpr ⟨_, Extent.between?_eq_some_iff.mpr ⟨hKept, rfl⟩, rfl⟩
  · exact h
  · exact h

theorem isFinite_of_between?_eq_some (h : between? a b = some v) (ha : a.IsFinite)
    (hb : b.IsFinite) : v.IsFinite := by
  rcases between?_cases h with ⟨lo, hi, rfl, rfl, rfl, _⟩ | ⟨lo, hi, rfl, rfl, rfl, _⟩ |
    ⟨lo, hi, rfl, rfl, rfl, _⟩
  · exact trivial
  · exact ⟨ha.1, hb.2⟩
  · exact trivial

end Value

/-!
# Instants and ranges that are read
-/

namespace Token

section

variable {kind : Kind} {cs lo hi : List Char} {v : Value}

/-- What is written for an instant is read as the start of its millisecond. -/
theorem readInstant?_write (hTrimmed : Trimmed cs) (h : readInstant? kind cs = some v) :
    readInstant? kind v.write = some v.truncate ∧ Trimmed v.write ∧ v.IsFinite ∧
      v.lower = v.upper ∧ ('/' ∉ cs -> '/' ∉ v.write) := by
  cases kind with
  | temporal =>
      rcases Option.map_eq_some_iff.mp h with ⟨t, _, rfl⟩
      have hAgain : readInstant? .temporal t.write = some (.time (.instant t.truncate)) := by
        unfold readInstant?
        dsimp only
        rw [t.read?_write, Option.map_some]
      rcases trimmed_of_plain fun _ => Timestamp.plain_of_mem_write (t := t) with ⟨hPlain, hNot⟩
      exact ⟨hAgain, hPlain, trivial, rfl, fun _ => hNot⟩
  | numeric =>
      rcases Option.map_eq_some_iff.mp h with ⟨x, hRead, rfl⟩
      have hFinite : x.isFinite = true := (Option.filter_eq_some_iff.mp hRead).2
      have hAgain : readInstant? .numeric x.write = some (.number (.instant x)) := by
        unfold readInstant?
        dsimp only
        rw [Binary64.read?_write hFinite, Option.filter_some, if_pos hFinite, Option.map_some]
      rcases trimmed_of_plain fun _ => Binary64.plain_of_mem_write hFinite with ⟨hPlain, hNot⟩
      exact ⟨hAgain, hPlain, ⟨hFinite, hFinite⟩, rfl, fun _ => hNot⟩
  | text =>
      cases h
      have hText : (Value.text (.instant (String.ofList cs))).write = cs := String.toList_ofList
      rw [hText]
      exact ⟨rfl, hTrimmed, trivial, rfl, fun hNot => hNot⟩

theorem readInstant_eq_ok_iff : readInstant kind cs = .ok v <-> readInstant? kind cs = some v := by
  unfold readInstant
  cases readInstant? kind cs <;> simp

theorem read_instant (hTrimmed : Trimmed cs) (hNot : '/' ∉ cs) :
    read kind cs = readInstant kind cs := by
  unfold read sides?
  dsimp only
  rw [hTrimmed.trim_eq_self, cutAt?_eq_none hNot]
  rfl

theorem read_range {a b : Value} (hNot : '/' ∉ lo) (hLower : Trimmed lo) (hUpper : Trimmed hi)
    (ha : readInstant? kind lo = some a) (hb : readInstant? kind hi = some b)
    (hRange : Value.between? a b = some v) : read kind (lo ++ '/' :: hi) = .ok v := by
  have hTrimmed := hLower.append_cons (c := '/') hUpper (by decide)
  unfold read sides?
  dsimp only
  rw [hTrimmed.trim_eq_self, cutAt?_append hNot, Option.map_some, hLower.trim_eq_self,
    hUpper.trim_eq_self]
  dsimp only
  rw [readInstant_eq_ok_iff.mpr ha, readInstant_eq_ok_iff.mpr hb]
  dsimp only [bind, Except.bind]
  rw [hRange]
  rfl

theorem read_cases (h : read kind cs = .ok v) :
    (exists own, Trimmed own ∧ '/' ∉ own ∧ readInstant? kind own = some v) ∨
      exists lo hi a b, '/' ∉ lo ∧ Trimmed lo ∧ Trimmed hi ∧ readInstant? kind lo = some a ∧
        readInstant? kind hi = some b ∧ Value.between? a b = some v := by
  unfold read sides? at h
  dsimp only at h
  rcases cutAt?_cases '/' (trim cs) with ⟨hNone, hNot⟩ | ⟨before, after, hCut, hNot, _⟩
  · rw [hNone] at h
    exact Or.inl ⟨trim cs, trimmed_trim cs, hNot, readInstant_eq_ok_iff.mp h⟩
  · rw [hCut] at h
    rcases Answer.exists_of_bind_eq_ok h with ⟨a, ha, hMore⟩
    rcases Answer.exists_of_bind_eq_ok hMore with ⟨b, hb, hRange⟩
    refine Or.inr ⟨trim before, trim after, a, b, fun hSlash => hNot (mem_of_mem_trim hSlash),
      trimmed_trim before, trimmed_trim after, readInstant_eq_ok_iff.mp ha,
      readInstant_eq_ok_iff.mp hb, ?_⟩
    split at hRange
    · rename_i hBetween
      cases hRange
      exact hBetween
    · cases hRange

theorem read_write (h : read kind cs = .ok v) :
    read kind v.write = .ok v.truncate ∧ v.IsFinite ∧ (compare v.lower v.upper).isLE = true := by
  rcases read_cases h with ⟨own, hTrimmed, hNot, hOwn⟩ |
    ⟨lo, hi, a, b, hNot, hLower, hUpper, ha, hb, hRange⟩
  · rcases readInstant?_write hTrimmed hOwn with ⟨hAgain, hWritten, hFinite, hBounds, hPlain⟩
    refine ⟨?_, hFinite, ?_⟩
    · rw [read_instant hWritten (hPlain hNot)]
      exact readInstant_eq_ok_iff.mpr hAgain
    · rw [hBounds, ReflOrd.compare_self]
      rfl
  · rcases readInstant?_write hLower ha with ⟨haAgain, haWritten, haFinite, _, haPlain⟩
    rcases readInstant?_write hUpper hb with ⟨hbAgain, hbWritten, hbFinite, _, _⟩
    rcases Value.range_of_between?_eq_some hRange with ⟨hLo, hHi, hLE, hWrite⟩
    refine ⟨?_, Value.isFinite_of_between?_eq_some hRange haFinite hbFinite, ?_⟩
    · rw [hWrite]
      exact read_range (haPlain hNot) haWritten hbWritten haAgain hbAgain
        (Value.between?_truncate hRange)
    · rw [hLo, hHi]
      exact hLE

end

/-!
# Normal forms
-/

/--
A token that is read is written in a form that is read again, as the value with
its times at the start of their milliseconds, and that is written for this value too.
-/
theorem tokens_have_a_normal_form {kind : Kind} {token : String} {v : Value}
    (h : parse kind token = .ok v) :
    v.kind = kind ∧
      (forall e, v = .number e ->
        e.lower.isFinite = true ∧ e.upper.isFinite = true ∧ e.lower ≤ e.upper) ∧
      (compare v.lower v.upper).isLE = true ∧
      parse kind v.format = .ok v.truncate ∧ v.truncate.isRange = v.isRange ∧
      v.truncate.format = v.format := by
  have hKind := kind_of_read_eq_ok h
  rcases read_write h with ⟨hAgain, hFinite, hBounds⟩
  refine ⟨hKind, ?_, hBounds, ?_, v.isRange_truncate, ?_⟩
  · rintro e rfl
    rcases hFinite with ⟨hLower, hUpper⟩
    have hLE : (compare e.lower e.upper).isLE = true := by
      rw [← Extent.compareBounds_instant]
      exact hBounds
    exact ⟨hLower, hUpper, Binary64.le_of_isLE_compare hLower hUpper hLE⟩
  · unfold parse Value.format
    rw [String.toList_ofList, hAgain]
  · unfold Value.format
    rw [v.write_truncate]

def leapRange : Value :=
  .time (.range ⟨-62167219201, 1123456700, by decide⟩ ⟨253402300800, 0, by decide⟩)

theorem leap_range_has_a_normal_form :
    parse .temporal "\u3000-0001-12-31T23:59:60.1234567Z / +10000-1-1T00:00:00Z " = .ok leapRange ∧
      leapRange.format = "-0001-12-31T23:59:60.123Z/+10000-01-01T00:00:00.000Z" ∧
      parse .temporal leapRange.format = .ok leapRange.truncate ∧
      leapRange.truncate ≠ leapRange ∧ leapRange.truncate.format = leapRange.format := by
  have hRead : parse .temporal "\u3000-0001-12-31T23:59:60.1234567Z / +10000-1-1T00:00:00Z " =
      .ok leapRange := by
    decide +kernel
  rcases tokens_have_a_normal_form hRead with ⟨_, _, _, hAgain, _, hFormat⟩
  exact ⟨hRead, by decide +kernel, hAgain, by decide, hFormat⟩

end Token
end LayerAxes
