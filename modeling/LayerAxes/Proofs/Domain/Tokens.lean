import LayerAxes.Proofs.Domain.Codec

/-!
# Values that share a token

A token does not tell all of the value that it is written for.  Of a time it has
whole milliseconds only, of what is no number only that it is none, and of a text
with slashes it does not tell which of them parts a range.  Nothing else is lost:
values on one axis share a token exactly if they agree in the rest.

What is written between two bounds is found again because the slash of a range is
the first one of its token, as long as its lower bound is written without.
-/

namespace LayerAxes

open Text

/-!
# Bounds and the slash between them
-/

namespace Extent

section

variable {α β γ : Type} {a b : Extent α}

theorem map_eq_map_iff {f : α -> β} {g : α -> γ} (h : forall x y, f x = f y <-> g x = g y) :
    a.map f = b.map f <-> a.map g = b.map g := by
  cases a <;> cases b <;> simp only [map, instant.injEq, range.injEq, reduceCtorEq, h]

theorem map_eq_self {f : α -> α} (hLower : f a.lower = a.lower) (hUpper : f a.upper = a.upper) :
    a.map f = a := by
  cases a with
  | instant x => exact congrArg instant hLower
  | range lo hi => exact congrArg₂ range hLower hUpper

theorem write_range (f : α -> List Char) (lo hi : α) :
    (range lo hi).write f = f lo ++ '/' :: f hi :=
  (List.append_cons ..).symm

theorem slash_mem_write_range (f : α -> List Char) (lo hi : α) :
    '/' ∈ (range lo hi).write f := by
  rw [write_range]
  exact List.mem_append_right _ List.mem_cons_self

theorem write_eq_iff {f : α -> List Char} (ha : '/' ∉ f a.lower) (hb : '/' ∉ f b.lower) :
    a.write f = b.write f <-> a.map f = b.map f := by
  cases a with
  | instant x =>
      cases b with
      | instant y => exact (instant.injEq ..).symm.to_iff
      | range lo hi =>
          constructor
          · intro h
            have hSlash := slash_mem_write_range f lo hi
            rw [← h] at hSlash
            exact absurd hSlash ha
          · intro h
            cases h
  | range lo hi =>
      cases b with
      | instant y =>
          constructor
          · intro h
            have hSlash := slash_mem_write_range f lo hi
            rw [h] at hSlash
            exact absurd hSlash hb
          · intro h
            cases h
      | range lo' hi' =>
          change '/' ∉ f lo at ha
          change '/' ∉ f lo' at hb
          rw [write_range, write_range]
          constructor
          · intro h
            have hCut := congrArg (cutAt? '/') h
            rw [cutAt?_append ha, cutAt?_append hb] at hCut
            rcases Prod.mk.inj (Option.some.inj hCut) with ⟨hLower, hUpper⟩
            exact congrArg₂ range hLower hUpper
          · intro h
            rcases range.inj h with ⟨hLower, hUpper⟩
            rw [hLower, hUpper]

end

end Extent

/-!
# Points that share a text
-/

namespace Timestamp

theorem write_eq_iff (s t : Timestamp) : s.write = t.write <-> s.truncate = t.truncate := by
  constructor
  · intro h
    have hRead := s.read?_write
    rw [h, t.read?_write] at hRead
    exact (Option.some.inj hRead).symm
  · intro h
    rw [← s.write_truncate, h, t.write_truncate]

theorem slash_notMem_write (t : Timestamp) : '/' ∉ t.write :=
  (trimmed_of_plain fun _ => plain_of_mem_write).2

end Timestamp

namespace Binary64

variable {x : Binary64}

def canonical (x : Binary64) : Binary64 :=
  if x.isNaN then nan else x

theorem canonical_of_isNaN (h : x.isNaN = false) : x.canonical = x := by
  unfold canonical
  rw [h, if_neg Bool.false_ne_true]

theorem write_of_isNaN (h : x.isNaN = true) : x.write = nan.write := by
  unfold write
  rw [if_pos h]
  rfl

theorem write_canonical (x : Binary64) : x.canonical.write = x.write := by
  cases h : x.isNaN with
  | false => rw [canonical_of_isNaN h]
  | true =>
      unfold canonical
      rw [if_pos h, write_of_isNaN h]

theorem finite_or_nan_or_infinity (x : Binary64) :
    x.isFinite = true ∨ x.isNaN = true ∨ exists negative, x = infinity.withSign negative := by
  rcases x with ⟨negative, rank, hRank⟩
  rcases Nat.lt_trichotomy rank infinityRank with hBelow | rfl | hAbove
  · exact Or.inl (decide_eq_true hBelow)
  · exact Or.inr (Or.inr ⟨negative, rfl⟩)
  · exact Or.inr (Or.inl (decide_eq_true hAbove))

theorem read?_write_canonical (x : Binary64) : read? x.write = some x.canonical := by
  rcases finite_or_nan_or_infinity x with hFinite | hNaN | ⟨negative, rfl⟩
  · rw [canonical_of_isNaN (isNaN_of_isFinite hFinite), read?_write hFinite]
  · unfold canonical
    rw [if_pos hNaN, write_of_isNaN hNaN]
    decide +kernel
  · cases negative <;> decide +kernel

theorem slash_notMem_write (x : Binary64) : '/' ∉ x.write := by
  rcases finite_or_nan_or_infinity x with hFinite | hNaN | ⟨negative, rfl⟩
  · exact (trimmed_of_plain fun _ => plain_of_mem_write hFinite).2
  · rw [write_of_isNaN hNaN]
    decide +kernel
  · cases negative <;> decide +kernel

theorem write_eq_iff (x y : Binary64) : x.write = y.write <-> x.canonical = y.canonical := by
  constructor
  · intro h
    have hRead := read?_write_canonical x
    rw [h, read?_write_canonical] at hRead
    exact (Option.some.inj hRead).symm
  · intro h
    rw [← write_canonical x, h, write_canonical]

end Binary64

/-!
# Values that share a token
-/

namespace Value

/-- What the token of a value tells of it. -/
def asWritten : Value -> Value
  | time e => time (e.map Timestamp.truncate)
  | number e => number (e.map Binary64.canonical)
  | text e => text (.instant (String.ofList (e.write String.toList)))

/--
A value whose token tells all of it: a time at the start of a millisecond, a
number, or a text that has its first slash between the bounds of a range.
-/
def Exact : Value -> Prop
  | time e => e.lower.truncate = e.lower ∧ e.upper.truncate = e.upper
  | number e => (number e).WithoutNaN
  | text e => '/' ∉ e.lower.toList

section

variable {a b : Value}

theorem format_eq_iff_write : a.format = b.format <-> a.write = b.write :=
  String.ofList_inj

/-- Values on one axis share a token exactly if they agree in what it tells. -/
theorem format_eq_iff (hKind : a.kind = b.kind) :
    a.format = b.format <-> a.asWritten = b.asWritten := by
  rw [format_eq_iff_write]
  cases a <;> cases b <;> simp only [kind, reduceCtorEq] at hKind
  · rename_i e f
    have hBounds := Extent.map_eq_map_iff (a := e) (b := f) Timestamp.write_eq_iff
    have hWritten := Extent.write_eq_iff (e.lower.slash_notMem_write) (f.lower.slash_notMem_write)
    exact (hWritten.trans hBounds).trans (time.injEq ..).symm.to_iff
  · rename_i e f
    have hBounds := Extent.map_eq_map_iff (a := e) (b := f) Binary64.write_eq_iff
    have hWritten := Extent.write_eq_iff (e.lower.slash_notMem_write) (f.lower.slash_notMem_write)
    exact (hWritten.trans hBounds).trans (number.injEq ..).symm.to_iff
  · rename_i e f
    unfold asWritten
    rw [text.injEq, Extent.instant.injEq, String.ofList_inj]
    exact Iff.rfl

theorem asWritten_time {e : Extent Timestamp} (h : (time e).Exact) :
    (time e).asWritten = time e :=
  congrArg time (Extent.map_eq_self h.1 h.2)

theorem asWritten_number {e : Extent Binary64} (h : (number e).Exact) :
    (number e).asWritten = number e :=
  congrArg number (Extent.map_eq_self (Binary64.canonical_of_isNaN h.1)
    (Binary64.canonical_of_isNaN h.2))

theorem eq_of_format_eq (hKind : a.kind = b.kind) (ha : a.Exact) (hb : b.Exact)
    (h : a.format = b.format) : a = b := by
  have hWritten := (format_eq_iff hKind).mp h
  cases a <;> cases b <;> simp only [kind, reduceCtorEq] at hKind
  · rw [asWritten_time ha, asWritten_time hb] at hWritten
    exact hWritten
  · rw [asWritten_number ha, asWritten_number hb] at hWritten
    exact hWritten
  · rename_i e f
    have hBounds := (Extent.write_eq_iff ha hb).mp (format_eq_iff_write.mp h)
    have hSame : e.map id = f.map id :=
      (Extent.map_eq_map_iff fun s t => String.toList_inj).mp hBounds
    rw [Extent.map_eq_self rfl rfl, Extent.map_eq_self rfl rfl] at hSame
    rw [hSame]

end

end Value
end LayerAxes
