import LayerAxes.Envelope
import LayerAxes.Proofs.Number.Order

/-!
# Points of envelopes

An envelope stands for the points in it, its edges included.  Two envelopes touch just
when they have a point in common.  One that has its bounds in order holds its corners,
so it is covered by another one exactly when its bounds lie between those of the other.
-/

namespace LayerAxes
namespace Envelope

variable {e part : Envelope} {x y : Binary64}

theorem containsPoint_iff :
    e.containsPoint x y = true <->
      (e.minX ≤ x ∧ x ≤ e.maxX) ∧ (e.minY ≤ y ∧ y ≤ e.maxY) := by
  simp [containsPoint, and_assoc]

theorem isEmpty_eq_false_iff :
    e.isEmpty = false <-> ¬ e.maxX < e.minX ∧ ¬ e.maxY < e.minY := by
  simp [isEmpty]

theorem containsPoint_of_isEmpty (h : e.isEmpty = true) (x y : Binary64) :
    e.containsPoint x y = false := by
  rw [Bool.eq_false_iff]
  intro hPoint
  rcases containsPoint_iff.mp hPoint with ⟨hX, hY⟩
  have hFull : e.isEmpty = false :=
    isEmpty_eq_false_iff.mpr
      ⟨Binary64.not_lt_of_le (Binary64.le_trans hX.1 hX.2),
        Binary64.not_lt_of_le (Binary64.le_trans hY.1 hY.2)⟩
  rw [hFull] at h
  cases h

/-!
# Common points
-/

theorem intersects_iff {a b : Envelope} :
    a.intersects b = true <->
      ((a.minX ≤ a.maxX ∧ b.minX ≤ b.maxX) ∧ a.minX ≤ b.maxX ∧ b.minX ≤ a.maxX) ∧
      ((a.minY ≤ a.maxY ∧ b.minY ≤ b.maxY) ∧ a.minY ≤ b.maxY ∧ b.minY ≤ a.maxY) := by
  have hIntersects : a.intersects b = true <->
      ((((a.isEmpty = false ∧ b.isEmpty = false) ∧ a.minX ≤ b.maxX) ∧ b.minX ≤ a.maxX) ∧
        a.minY ≤ b.maxY) ∧ b.minY ≤ a.maxY := by
    simp [intersects]
  rw [hIntersects, isEmpty_eq_false_iff, isEmpty_eq_false_iff]
  constructor
  · rintro ⟨⟨⟨⟨⟨⟨hAX, hAY⟩, hBX, hBY⟩, hX⟩, hX'⟩, hY⟩, hY'⟩
    exact ⟨⟨⟨Binary64.le_of_not_lt hX.1 hX'.2.1 hAX, Binary64.le_of_not_lt hX'.1 hX.2.1 hBX⟩,
        hX, hX'⟩,
      ⟨Binary64.le_of_not_lt hY.1 hY'.2.1 hAY, Binary64.le_of_not_lt hY'.1 hY.2.1 hBY⟩, hY, hY'⟩
  · rintro ⟨⟨⟨hAX, hBX⟩, hX, hX'⟩, ⟨hAY, hBY⟩, hY, hY'⟩
    exact ⟨⟨⟨⟨⟨⟨Binary64.not_lt_of_le hAX, Binary64.not_lt_of_le hAY⟩,
      Binary64.not_lt_of_le hBX, Binary64.not_lt_of_le hBY⟩, hX⟩, hX'⟩, hY⟩, hY'⟩

/-- Envelopes touch just when some point is in both, whatever their bounds are. -/
theorem intersects_iff_exists_containsPoint (a b : Envelope) :
    a.intersects b = true <->
      exists x y, a.containsPoint x y = true ∧ b.containsPoint x y = true := by
  rw [intersects_iff, ← Binary64.exists_between_iff, ← Binary64.exists_between_iff]
  constructor
  · rintro ⟨⟨x, hAX, hBX⟩, y, hAY, hBY⟩
    exact ⟨x, y, containsPoint_iff.mpr ⟨hAX, hAY⟩, containsPoint_iff.mpr ⟨hBX, hBY⟩⟩
  · rintro ⟨x, y, hA, hB⟩
    rcases containsPoint_iff.mp hA with ⟨hAX, hAY⟩
    rcases containsPoint_iff.mp hB with ⟨hBX, hBY⟩
    exact ⟨⟨x, hAX, hBX⟩, y, hAY, hBY⟩

/-!
# Covering
-/

structure WithoutNaN (e : Envelope) : Prop where
  minX : e.minX.isNaN = false
  minY : e.minY.isNaN = false
  maxX : e.maxX.isNaN = false
  maxY : e.maxY.isNaN = false

/-- All points of `part` are points of `e`. -/
def Covers (e part : Envelope) : Prop :=
  forall x y, part.containsPoint x y = true -> e.containsPoint x y = true

theorem Covers.refl (e : Envelope) : e.Covers e :=
  fun _ _ h => h

theorem Covers.trans {whole : Envelope} (h : whole.Covers e) (hPart : e.Covers part) :
    whole.Covers part :=
  fun x y hPoint => h x y (hPart x y hPoint)

theorem covers_of_isEmpty (h : part.isEmpty = true) (e : Envelope) : e.Covers part := by
  intro x y hPoint
  rw [containsPoint_of_isEmpty h] at hPoint
  cases hPoint

theorem bounds_le_of_isEmpty_eq_false (hNumbers : e.WithoutNaN) (h : e.isEmpty = false) :
    e.minX ≤ e.maxX ∧ e.minY ≤ e.maxY := by
  rcases isEmpty_eq_false_iff.mp h with ⟨hX, hY⟩
  exact ⟨Binary64.le_of_not_lt hNumbers.minX hNumbers.maxX hX,
    Binary64.le_of_not_lt hNumbers.minY hNumbers.maxY hY⟩

theorem covers_of_bounds_le (hMinX : e.minX ≤ part.minX) (hMinY : e.minY ≤ part.minY)
    (hMaxX : part.maxX ≤ e.maxX) (hMaxY : part.maxY ≤ e.maxY) : e.Covers part := by
  intro x y hPoint
  rcases containsPoint_iff.mp hPoint with ⟨⟨hLowX, hHighX⟩, hLowY, hHighY⟩
  exact containsPoint_iff.mpr
    ⟨⟨Binary64.le_trans hMinX hLowX, Binary64.le_trans hHighX hMaxX⟩,
      Binary64.le_trans hMinY hLowY, Binary64.le_trans hHighY hMaxY⟩

theorem covers_iff_bounds_le (hNumbers : part.WithoutNaN) (hPoints : part.isEmpty = false) :
    e.Covers part <->
      (e.minX ≤ part.minX ∧ e.minY ≤ part.minY) ∧ part.maxX ≤ e.maxX ∧ part.maxY ≤ e.maxY := by
  rcases bounds_le_of_isEmpty_eq_false hNumbers hPoints with ⟨hX, hY⟩
  constructor
  · intro h
    have hLower := containsPoint_iff.mp (h part.minX part.minY (containsPoint_iff.mpr
      ⟨⟨Binary64.le_self hNumbers.minX, hX⟩, Binary64.le_self hNumbers.minY, hY⟩))
    have hUpper := containsPoint_iff.mp (h part.maxX part.maxY (containsPoint_iff.mpr
      ⟨⟨hX, Binary64.le_self hNumbers.maxX⟩, hY, Binary64.le_self hNumbers.maxY⟩))
    exact ⟨⟨hLower.1.1, hLower.2.1⟩, hUpper.1.2, hUpper.2.2⟩
  · rintro ⟨⟨hMinX, hMinY⟩, hMaxX, hMaxY⟩
    exact covers_of_bounds_le hMinX hMinY hMaxX hMaxY

theorem isEmpty_iff_covers (hNumbers : e.WithoutNaN) :
    e.isEmpty = true <-> Envelope.empty.Covers e := by
  refine ⟨fun h => covers_of_isEmpty h _, fun h => ?_⟩
  cases hPoints : e.isEmpty with
  | true => rfl
  | false =>
      have hBounds := (covers_iff_bounds_le hNumbers hPoints).mp h
      have hOrder := (bounds_le_of_isEmpty_eq_false hNumbers hPoints).1
      have hReversed : Binary64.infinity ≤ -Binary64.infinity :=
        Binary64.le_trans hBounds.1.1 (Binary64.le_trans hOrder hBounds.2.1)
      exact absurd hReversed (by decide)

theorem isEmpty_congr_of_covers (hNumbers : e.WithoutNaN) (hPart : part.WithoutNaN)
    (h : e.Covers part) (hBack : part.Covers e) : e.isEmpty = part.isEmpty := by
  rw [Bool.eq_iff_iff, isEmpty_iff_covers hNumbers, isEmpty_iff_covers hPart]
  exact ⟨fun hEmpty => hEmpty.trans h, fun hEmpty => hEmpty.trans hBack⟩

theorem sameBounds_or_isEmpty (hNumbers : e.WithoutNaN) (hPart : part.WithoutNaN)
    (h : e.Covers part) (hBack : part.Covers e) :
    e.sameBounds part = true ∨ e.isEmpty = true ∧ part.isEmpty = true := by
  have hEmpty := isEmpty_congr_of_covers hNumbers hPart h hBack
  cases hPoints : e.isEmpty with
  | true => exact Or.inr ⟨rfl, hEmpty ▸ hPoints⟩
  | false =>
      rcases (covers_iff_bounds_le hPart (hEmpty ▸ hPoints)).mp h with
        ⟨⟨hMinX, hMinY⟩, hMaxX, hMaxY⟩
      rcases (covers_iff_bounds_le hNumbers hPoints).mp hBack with
        ⟨⟨hMinX', hMinY'⟩, hMaxX', hMaxY'⟩
      refine Or.inl ?_
      unfold sameBounds
      rw [Binary64.sameNumber_of_le_of_le hMinX hMinX',
        Binary64.sameNumber_of_le_of_le hMinY hMinY',
        Binary64.sameNumber_of_le_of_le hMaxX' hMaxX,
        Binary64.sameNumber_of_le_of_le hMaxY' hMaxY]
      rfl

end Envelope
end LayerAxes
