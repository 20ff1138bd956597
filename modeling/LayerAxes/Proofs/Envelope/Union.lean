import LayerAxes.Feature.Attribute
import LayerAxes.Proofs.Envelope.Points
import Mathlib.Data.List.Basic

/-!
# The envelope of rows

What covers the union of two envelopes is what covers both of them, so the union is
the smallest envelope around them.  An envelope without points is left out of a union
and cannot widen it.  The bounds of rows are a union of unions, and therefore the
smallest envelope around all geometries of the rows, whatever their order is.
-/

namespace LayerAxes
namespace Envelope

variable {a b other : Envelope}

theorem union_of_isEmpty_left (h : a.isEmpty = true) (b : Envelope) : a.union b = b :=
  if_pos h

theorem union_of_isEmpty_right (h : a.isEmpty = false) (hOther : b.isEmpty = true) :
    a.union b = a := by
  unfold union
  rw [h, hOther]
  rfl

theorem union_of_points (h : a.isEmpty = false) (hOther : b.isEmpty = false) :
    a.union b =
      ⟨a.minX.lesser b.minX, a.minY.lesser b.minY, a.maxX.greater b.maxX,
        a.maxY.greater b.maxY⟩ := by
  unfold union
  rw [h, hOther]
  rfl

theorem WithoutNaN.union (ha : a.WithoutNaN) (hb : b.WithoutNaN) : (a.union b).WithoutNaN := by
  cases hPoints : a.isEmpty with
  | true => rwa [union_of_isEmpty_left hPoints]
  | false =>
      cases hOther : b.isEmpty with
      | true => rwa [union_of_isEmpty_right hPoints hOther]
      | false =>
          rw [union_of_points hPoints hOther]
          exact ⟨(Binary64.lesser_le ha.minX hb.minX).1.1,
            (Binary64.lesser_le ha.minY hb.minY).1.1,
            (Binary64.le_greater ha.maxX hb.maxX).1.2.1,
            (Binary64.le_greater ha.maxY hb.maxY).1.2.1⟩

/-- What covers a union is what covers both of its parts. -/
theorem covers_union_iff (ha : a.WithoutNaN) (hb : b.WithoutNaN) :
    other.Covers (a.union b) <-> other.Covers a ∧ other.Covers b := by
  cases hPoints : a.isEmpty with
  | true =>
      rw [union_of_isEmpty_left hPoints]
      exact ⟨fun h => ⟨covers_of_isEmpty hPoints other, h⟩, And.right⟩
  | false =>
      cases hOther : b.isEmpty with
      | true =>
          rw [union_of_isEmpty_right hPoints hOther]
          exact ⟨fun h => ⟨h, covers_of_isEmpty hOther other⟩, And.left⟩
      | false =>
          have hMinX := Binary64.lesser_le ha.minX hb.minX
          have hMinY := Binary64.lesser_le ha.minY hb.minY
          have hMaxX := Binary64.le_greater ha.maxX hb.maxX
          have hMaxY := Binary64.le_greater ha.maxY hb.maxY
          rw [union_of_points hPoints hOther]
          constructor
          · intro h
            exact ⟨h.trans (covers_of_bounds_le hMinX.1 hMinY.1 hMaxX.1 hMaxY.1),
              h.trans (covers_of_bounds_le hMinX.2 hMinY.2 hMaxX.2 hMaxY.2)⟩
          · rintro ⟨hCoversA, hCoversB⟩
            have hA := (covers_iff_bounds_le ha hPoints).mp hCoversA
            have hB := (covers_iff_bounds_le hb hOther).mp hCoversB
            exact covers_of_bounds_le (Binary64.le_lesser hA.1.1 hB.1.1)
              (Binary64.le_lesser hA.1.2 hB.1.2) (Binary64.greater_le hA.2.1 hB.2.1)
              (Binary64.greater_le hA.2.2 hB.2.2)

/-!
# Unions of lists
-/

def unionOf (parts : List Envelope) : Envelope :=
  parts.foldl union empty

theorem withoutNaN_empty : Envelope.empty.WithoutNaN :=
  ⟨by decide, by decide, by decide, by decide⟩

theorem withoutNaN_foldl_union {parts : List Envelope} (ha : a.WithoutNaN)
    (h : forall part, part ∈ parts -> part.WithoutNaN) : (parts.foldl union a).WithoutNaN := by
  induction parts generalizing a with
  | nil => exact ha
  | cons part parts ih =>
      rw [List.forall_mem_cons] at h
      exact ih (ha.union h.1) h.2

theorem covers_foldl_union_iff {parts : List Envelope} (ha : a.WithoutNaN)
    (h : forall part, part ∈ parts -> part.WithoutNaN) :
    other.Covers (parts.foldl union a) <->
      other.Covers a ∧ forall part, part ∈ parts -> other.Covers part := by
  induction parts generalizing a with
  | nil => simp
  | cons part parts ih =>
      rw [List.forall_mem_cons] at h
      rw [List.foldl_cons, ih (ha.union h.1) h.2, covers_union_iff ha h.1, List.forall_mem_cons,
        and_assoc]

theorem withoutNaN_unionOf {parts : List Envelope}
    (h : forall part, part ∈ parts -> part.WithoutNaN) : (unionOf parts).WithoutNaN :=
  withoutNaN_foldl_union withoutNaN_empty h

theorem covers_unionOf_iff {parts : List Envelope}
    (h : forall part, part ∈ parts -> part.WithoutNaN) :
    other.Covers (unionOf parts) <-> forall part, part ∈ parts -> other.Covers part := by
  have hEmpty : other.Covers Envelope.empty := covers_of_isEmpty (by decide) other
  unfold unionOf
  rw [covers_foldl_union_iff withoutNaN_empty h]
  exact and_iff_right hEmpty

end Envelope

/-!
# Bounds of rows
-/

namespace Feature

/-- The geometries that the row has as its own attributes. -/
def geometries (row : Feature) : List Envelope :=
  row.attributes.filterMap fun entry => entry.2.envelope?

theorem mem_geometries_iff {row : Feature} {e : Envelope} :
    e ∈ row.geometries <-> exists name, (name, Attribute.geometry e) ∈ row.attributes := by
  unfold geometries
  rw [List.mem_filterMap]
  constructor
  · rintro ⟨⟨name, cell⟩, hEntry, hEnvelope⟩
    cases cell <;> cases hEnvelope
    exact ⟨name, hEntry⟩
  · rintro ⟨name, hEntry⟩
    exact ⟨_, hEntry, rfl⟩

theorem bounds_eq_unionOf (row : Feature) : row.bounds = Envelope.unionOf row.geometries := by
  unfold bounds Envelope.unionOf geometries
  rw [List.foldl_filterMap]
  congr 1
  funext e entry
  cases entry.2.envelope? <;> rfl

theorem boundsOf_eq_unionOf (rows : List Feature) :
    boundsOf rows = Envelope.unionOf (rows.map bounds) := by
  unfold boundsOf Envelope.unionOf
  rw [List.foldl_map]

def ShowGeometry (rows : List Feature) (e : Envelope) : Prop :=
  exists row, row ∈ rows ∧ exists name, (name, Attribute.geometry e) ∈ row.attributes

variable {rows others : List Feature}

theorem showGeometry_of_perm (hPerm : others.Perm rows) {e : Envelope} :
    ShowGeometry others e <-> ShowGeometry rows e := by
  unfold ShowGeometry
  simp only [hPerm.mem_iff]

section

variable (hNumbers : forall e, ShowGeometry rows e -> e.WithoutNaN)
include hNumbers

theorem withoutNaN_of_mem_geometries {row : Feature} (hRow : row ∈ rows) {e : Envelope}
    (he : e ∈ row.geometries) : e.WithoutNaN :=
  hNumbers e ⟨row, hRow, mem_geometries_iff.mp he⟩

theorem withoutNaN_of_mem_map_bounds {e : Envelope} (he : e ∈ rows.map bounds) :
    e.WithoutNaN := by
  rcases List.mem_map.mp he with ⟨row, hRow, rfl⟩
  rw [bounds_eq_unionOf]
  exact Envelope.withoutNaN_unionOf fun e he => withoutNaN_of_mem_geometries hNumbers hRow he

theorem withoutNaN_boundsOf : (boundsOf rows).WithoutNaN := by
  rw [boundsOf_eq_unionOf]
  exact Envelope.withoutNaN_unionOf fun e he => withoutNaN_of_mem_map_bounds hNumbers he

theorem covers_boundsOf_iff {other : Envelope} :
    other.Covers (boundsOf rows) <-> forall e, ShowGeometry rows e -> other.Covers e := by
  rw [boundsOf_eq_unionOf,
    Envelope.covers_unionOf_iff fun e he => withoutNaN_of_mem_map_bounds hNumbers he,
    List.forall_mem_map]
  have hRow : forall row, row ∈ rows ->
      (other.Covers row.bounds <-> forall e, e ∈ row.geometries -> other.Covers e) := by
    intro row hRow
    rw [bounds_eq_unionOf,
      Envelope.covers_unionOf_iff fun e he => withoutNaN_of_mem_geometries hNumbers hRow he]
  constructor
  · rintro h e ⟨row, hMem, hEntry⟩
    exact (hRow row hMem).mp (h row hMem) e (mem_geometries_iff.mpr hEntry)
  · intro h row hMem
    refine (hRow row hMem).mpr fun e he => h e ⟨row, hMem, mem_geometries_iff.mp he⟩

theorem boundsOf_covers {e : Envelope} (he : ShowGeometry rows e) : (boundsOf rows).Covers e :=
  (covers_boundsOf_iff hNumbers).mp (Envelope.Covers.refl _) e he

theorem isEmpty_boundsOf_iff :
    (boundsOf rows).isEmpty = true <-> forall e, ShowGeometry rows e -> e.isEmpty = true := by
  rw [Envelope.isEmpty_iff_covers (withoutNaN_boundsOf hNumbers), covers_boundsOf_iff hNumbers]
  exact forall₂_congr fun e he => (Envelope.isEmpty_iff_covers (hNumbers e he)).symm

theorem boundsOf_covers_boundsOf_of_perm (hPerm : others.Perm rows) :
    (boundsOf rows).Covers (boundsOf others) := by
  have hOthers : forall e, ShowGeometry others e -> e.WithoutNaN :=
    fun e he => hNumbers e ((showGeometry_of_perm hPerm).mp he)
  refine (covers_boundsOf_iff hOthers).mpr fun e he => ?_
  exact boundsOf_covers hNumbers ((showGeometry_of_perm hPerm).mp he)

end

/--
The union of two envelopes is the smallest one that has the points of both.  So the
bounds of rows are the smallest envelope with the points of all their geometries: they
are empty just when all of these are, and do not depend on the order of the rows.
-/
theorem bounds_are_least_upper_bounds :
    (forall a b : Envelope, a.WithoutNaN -> b.WithoutNaN ->
      (a.union b).Covers a ∧ (a.union b).Covers b ∧
        forall other : Envelope, other.Covers a -> other.Covers b -> other.Covers (a.union b)) ∧
    forall rows : List Feature, (forall e, ShowGeometry rows e -> e.WithoutNaN) ->
      (boundsOf rows).WithoutNaN ∧
      (forall e, ShowGeometry rows e -> (boundsOf rows).Covers e) ∧
      (forall other : Envelope, (forall e, ShowGeometry rows e -> other.Covers e) ->
        other.Covers (boundsOf rows)) ∧
      ((boundsOf rows).isEmpty = true <->
        forall e, ShowGeometry rows e -> e.isEmpty = true) ∧
      forall others : List Feature, others.Perm rows ->
        (boundsOf others).sameBounds (boundsOf rows) = true ∨
          (boundsOf others).isEmpty = true ∧ (boundsOf rows).isEmpty = true := by
  constructor
  · intro a b ha hb
    have hBoth := (Envelope.covers_union_iff ha hb).mp (Envelope.Covers.refl (a.union b))
    exact ⟨hBoth.1, hBoth.2,
      fun other hA hB => (Envelope.covers_union_iff ha hb).mpr ⟨hA, hB⟩⟩
  · intro rows hNumbers
    refine ⟨withoutNaN_boundsOf hNumbers, fun e he => boundsOf_covers hNumbers he,
      fun other h => (covers_boundsOf_iff hNumbers).mpr h, isEmpty_boundsOf_iff hNumbers, ?_⟩
    intro others hPerm
    have hOthers : forall e, ShowGeometry others e -> e.WithoutNaN :=
      fun e he => hNumbers e ((showGeometry_of_perm hPerm).mp he)
    exact Envelope.sameBounds_or_isEmpty (withoutNaN_boundsOf hOthers)
      (withoutNaN_boundsOf hNumbers) (boundsOf_covers_boundsOf_of_perm hOthers hPerm.symm)
      (boundsOf_covers_boundsOf_of_perm hNumbers hPerm)

def coast : List Feature :=
  [⟨"shore", [("shape", .geometry ⟨.zero, .zero, .infinity, .zero⟩)]⟩,
    ⟨"reef", [("mark", .geometry ⟨.infinity, .zero, .zero, .zero⟩),
      ("shape", .geometry ⟨-.zero, -.zero, .zero, .zero⟩)]⟩]

theorem coast_has_same_bounds_in_reverse :
    (forall e, ShowGeometry coast e -> e.WithoutNaN) ∧
      (Envelope.union ⟨-.zero, -.zero, .zero, .zero⟩ ⟨.zero, .zero, .infinity, .zero⟩).Covers
        ⟨.zero, .zero, .infinity, .zero⟩ ∧
      (boundsOf coast).isEmpty = false ∧
      (boundsOf coast).Covers ⟨-.zero, -.zero, .zero, .zero⟩ ∧
      (boundsOf coast.reverse).sameBounds (boundsOf coast) = true := by
  have hNumbers : forall e, ShowGeometry coast e -> e.WithoutNaN := by
    rintro e ⟨row, hRow, name, hEntry⟩
    have hGeometry : e ∈ coast.flatMap geometries :=
      List.mem_flatMap.mpr ⟨row, hRow, mem_geometries_iff.mpr ⟨name, hEntry⟩⟩
    have hAll : forall e, e ∈ coast.flatMap geometries ->
        e.minX.isNaN = false ∧ e.minY.isNaN = false ∧ e.maxX.isNaN = false ∧
          e.maxY.isNaN = false := by decide
    rcases hAll e hGeometry with ⟨hMinX, hMinY, hMaxX, hMaxY⟩
    exact ⟨hMinX, hMinY, hMaxX, hMaxY⟩
  have hPoint : ShowGeometry coast ⟨-.zero, -.zero, .zero, .zero⟩ :=
    ⟨_, List.mem_cons_of_mem _ List.mem_cons_self, "shape",
      List.mem_cons_of_mem _ List.mem_cons_self⟩
  have hLine : ShowGeometry coast ⟨.zero, .zero, .infinity, .zero⟩ :=
    ⟨_, List.mem_cons_self, "shape", List.mem_cons_self⟩
  have hUnion := bounds_are_least_upper_bounds.1 _ _ (hNumbers _ hPoint) (hNumbers _ hLine)
  rcases bounds_are_least_upper_bounds.2 coast hNumbers with
    ⟨_, hCovers, _, hEmpty, hOrder⟩
  have hSome : (boundsOf coast).isEmpty = false := by
    rw [Bool.eq_false_iff]
    intro hNone
    exact absurd (hEmpty.mp hNone _ hPoint) (by decide)
  refine ⟨hNumbers, hUnion.2.1, hSome, hCovers _ hPoint, ?_⟩
  rcases hOrder coast.reverse (List.reverse_perm coast) with hSame | ⟨_, hNone⟩
  · exact hSame
  · rw [hSome] at hNone
    cases hNone

end Feature
end LayerAxes
