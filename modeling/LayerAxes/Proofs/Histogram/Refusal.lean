import LayerAxes.Proofs.Dimension.FlatRaster
import LayerAxes.Proofs.Histogram.Temporal
import LayerAxes.Proofs.Number.Order
import LayerAxes.Proofs.Time.Counter
import Mathlib.Data.Set.List

/-!
# Reasons to refuse a histogram

On values of one kind with finite numbers and ordered bounds, no value lies
outside the span of the domain, so that a histogram can only be refused for its
resolution.  The domain of a flat raster always has such values, unless one of its
tokens is not read at all.  What remains is that a histogram breaks off: where the
milliseconds of a step overflow, or there is no room for the counts.
-/

namespace LayerAxes

open Std

namespace Histogram

open Answer

/-!
# The span of numbers
-/

def Within (bounds : Binary64 × Binary64) (e : Extent Binary64) : Prop :=
  bounds.1 ≤ e.lower ∧ e.upper ≤ bounds.2

def extend (bounds : Binary64 × Binary64) (e : Extent Binary64) : Binary64 × Binary64 :=
  (bounds.1.lesser e.lower, bounds.2.greater e.upper)

theorem within_foldl_extend {extents : List (Extent Binary64)} {bounds : Binary64 × Binary64}
    (hBounds : bounds.1.isNaN = false ∧ bounds.2.isNaN = false)
    (hNumbers : forall e, e ∈ extents -> e.lower.isNaN = false ∧ e.upper.isNaN = false) :
    (extents.foldl extend bounds).1 ≤ bounds.1 ∧ bounds.2 ≤ (extents.foldl extend bounds).2 ∧
      forall e, e ∈ extents -> Within (extents.foldl extend bounds) e := by
  induction extents generalizing bounds with
  | nil =>
      exact ⟨Binary64.le_self hBounds.1, Binary64.le_self hBounds.2,
        fun e he => absurd he List.not_mem_nil⟩
  | cons e extents ih =>
      rcases List.forall_mem_cons.mp hNumbers with ⟨hFirst, hRest⟩
      rcases Binary64.lesser_le hBounds.1 hFirst.1 with ⟨hMin, hLower⟩
      rcases Binary64.le_greater hBounds.2 hFirst.2 with ⟨hMax, hUpper⟩
      have hLater := @ih (extend bounds e) ⟨hMin.1, hMax.2.1⟩ hRest
      rcases hLater with ⟨hLess, hMore, hWithin⟩
      refine ⟨Binary64.le_trans hLess hMin, Binary64.le_trans hMax hMore, ?_⟩
      intro other hOther
      rcases List.mem_cons.mp hOther with rfl | hRestMem
      · exact ⟨Binary64.le_trans hLess hLower, Binary64.le_trans hUpper hMore⟩
      · exact hWithin other hRestMem

theorem within_numericBounds {extents : List (Extent Binary64)}
    (hNumbers : forall e, e ∈ extents -> e.lower.isNaN = false ∧ e.upper.isNaN = false)
    {e : Extent Binary64} (he : e ∈ extents) : Within (numericBounds extents) e := by
  have hBounds : Binary64.infinity.isNaN = false ∧ (-Binary64.infinity).isNaN = false := by decide
  have hWithin := @within_foldl_extend extents (Binary64.infinity, -Binary64.infinity) hBounds
    hNumbers
  exact hWithin.2.2 e he

/-!
# Histograms that break off
-/

section

variable {resolution : String} {limit : Nat}

def bucketsOf (extents : List (Extent Binary64)) (width : Binary64) : Nat :=
  numericBuckets (numericBounds extents).1 (numericBounds extents).2 width

/--
The resolution makes the histogram of some values break off: it opens with items that
overflow the counter of milliseconds, or it asks for more counts than there is room for
though the limit allows them.
-/
inductive BreaksOff (resolution : String) (limit : Nat) : List Value -> Prop where
  | counter {extents shares} (hSome : extents ≠ [])
      (hLeads : Duration.Leads shares (trimmed resolution).toList)
      (hMore : Duration.Overflows shares) : BreaksOff resolution limit (extents.map .time)
  | room {extents width} (hSome : extents ≠ [])
      (hWidth : readWidth (trimmed resolution) = .ok width)
      (hLimit : bucketsOf extents width ≤ limit) (hMore : roomLimit < bucketsOf extents width) :
      BreaksOff resolution limit (extents.map .number)

theorem breaksOff_time_iff {extents : List (Extent Timestamp)} (hSome : extents ≠ []) :
    BreaksOff resolution limit (extents.map .time) <->
      Duration.parse (trimmed resolution) = .error .overflow := by
  constructor
  · intro h
    generalize hValues : extents.map Value.time = values at h
    cases h with
    | counter _ hLeads hMore => exact Duration.read_eq_overflow_iff.mpr ⟨_, hLeads, hMore⟩
    | @room numbers _ hNumbers _ _ _ =>
        cases extents with
        | nil => exact absurd rfl hSome
        | cons _ _ => cases numbers <;> cases hValues
  · intro h
    rcases Duration.read_eq_overflow_iff.mp h with ⟨shares, hLeads, hMore⟩
    exact .counter hSome hLeads hMore

theorem breaksOff_number_iff {extents : List (Extent Binary64)} (hSome : extents ≠ []) :
    BreaksOff resolution limit (extents.map .number) <->
      exists width, readWidth (trimmed resolution) = .ok width ∧
        bucketsOf extents width ≤ limit ∧ roomLimit < bucketsOf extents width := by
  constructor
  · intro h
    generalize hValues : extents.map Value.number = values at h
    cases h with
    | @counter times _ _ _ _ =>
        cases extents with
        | nil => exact absurd rfl hSome
        | cons _ _ => cases times <;> cases hValues
    | room _ hWidth hLimit hMore =>
        have hInjective : Function.Injective Value.number := fun _ _ => Value.number.inj
        rw [hInjective.list_map hValues]
        exact ⟨_, hWidth, hLimit, hMore⟩
  · rintro ⟨width, hWidth, hLimit, hMore⟩
    exact .room hSome hWidth hLimit hMore

theorem not_breaksOff_nil : ¬ BreaksOff resolution limit [] := by
  intro h
  generalize hValues : ([] : List Value) = values at h
  cases h with
  | counter hSome _ _ => exact hSome (List.map_eq_nil_iff.mp hValues.symm)
  | room hSome _ _ _ => exact hSome (List.map_eq_nil_iff.mp hValues.symm)

theorem not_breaksOff_text {e : Extent String} {values : List Value} :
    ¬ BreaksOff resolution limit (.text e :: values) := by
  intro h
  generalize hValues : Value.text e :: values = all at h
  cases h with
  | @counter extents _ _ _ _ => cases extents <;> cases hValues
  | @room extents _ _ _ _ _ => cases extents <;> cases hValues

end

/-!
# Histograms of regular values
-/

theorem mem_range_number {v : Value} (h : v.kind = .numeric) : v ∈ Set.range Value.number := by
  cases v with
  | number e => exact ⟨e, rfl⟩
  | time e => cases h
  | text e => cases h

theorem mem_range_time {v : Value} (h : v.kind = .temporal) : v ∈ Set.range Value.time := by
  cases v with
  | time e => exact ⟨e, rfl⟩
  | number e => cases h
  | text e => cases h

theorem exists_map_eq_of_mem_range {α : Type} {make : α -> Value} {values : List Value}
    (h : forall v, v ∈ values -> v ∈ Set.range make) :
    exists extents : List α, extents.map make = values := by
  have hRange : values ∈ Set.range (List.map make) := by
    rw [Set.range_list_map]
    exact h
  exact hRange

def Settled (outcome : Attempt Histogram) : Prop :=
  (exists h, outcome = .ok h) ∨ exists message, outcome = .error (badResolution message)

def Settles (breaksOff : Prop) (outcome : Attempt Histogram) : Prop :=
  (breaksOff ∧ outcome = .error .overflow) ∨ (¬ breaksOff ∧ Settled outcome)

theorem Settles.settled {breaksOff : Prop} {outcome : Attempt Histogram}
    (h : Settles breaksOff outcome) (hNot : ¬ breaksOff) : Settled outcome := by
  rcases h with ⟨hOff, _⟩ | ⟨_, hSettled⟩
  · exact absurd hOff hNot
  · exact hSettled

theorem exists_badResolution_of_readWidth_eq_error {resolution : String} {e : Failure}
    (h : readWidth resolution = .error e) : exists message, e = badResolution message := by
  unfold readWidth at h
  split at h
  · cases h
    exact ⟨_, rfl⟩
  · split at h
    · cases h
    · cases h
      exact ⟨_, rfl⟩

theorem checkLimit_of_lt {buckets limit : Nat} (h : limit < buckets) :
    checkLimit buckets limit = .error (tooMany buckets limit) :=
  if_pos h

theorem noCounts_of_lt {buckets : Nat} (h : roomLimit < buckets) :
    noCounts buckets = .error .overflow :=
  if_pos h

theorem settles_counted (histogram : Array Nat -> Histogram) (buckets limit : Nat) :
    Settles (buckets ≤ limit ∧ roomLimit < buckets)
      ((checkLimit buckets limit).bind fun _ =>
        (noCounts buckets).bind fun counts => .ok (histogram counts)) := by
  by_cases hLimit : buckets ≤ limit
  · rw [checkLimit_eq_ok_iff.mpr hLimit]
    by_cases hRoom : buckets ≤ roomLimit
    · rw [noCounts_of_le hRoom]
      exact Or.inr ⟨fun hOff => Nat.not_le.mpr hOff.2 hRoom, Or.inl ⟨_, rfl⟩⟩
    · have hMore := Nat.not_le.mp hRoom
      rw [noCounts_of_lt hMore]
      exact Or.inl ⟨⟨hLimit, hMore⟩, rfl⟩
  · rw [checkLimit_of_lt (Nat.not_le.mp hLimit)]
    exact Or.inr ⟨fun hOff => hLimit hOff.1, Or.inr ⟨_, rfl⟩⟩

section

variable {resolution : String} {limit : Nat}

theorem exists_locateNumber_eq_ok {extents : List (Extent Binary64)}
    (hRegular : Value.Regular (extents.map .number)) (width : Binary64) :
    exists indices, extents.mapM (fun e =>
      locateNumber (numericBounds extents).1 (numericBounds extents).2 width e.lower) =
        .ok indices := by
  have hFinite : forall e, e ∈ extents -> e.lower.isFinite = true ∧ e.upper.isFinite = true :=
    fun e he => hRegular.finite _ (List.mem_map_of_mem he)
  apply Answer.exists_mapM_eq_ok
  intro e he
  have hWithin : Within (numericBounds extents) e := by
    apply within_numericBounds _ he
    intro other hOther
    rcases hFinite other hOther with ⟨hLower, hUpper⟩
    exact ⟨Binary64.isNaN_of_isFinite hLower, Binary64.isNaN_of_isFinite hUpper⟩
  have hLE := hRegular.ordered _ (List.mem_map_of_mem he)
  change ((Extent.instant e.lower).compareBounds (.instant e.upper)).isLE = true at hLE
  rw [Extent.compareBounds_instant] at hLE
  have hOrdered := Binary64.le_of_isLE_compare (hFinite e he).1 (hFinite e he).2 hLE
  exact ⟨_, if_pos ⟨hWithin.1, Binary64.le_trans hOrdered hWithin.2⟩⟩

theorem build_map_number {extents : List (Extent Binary64)} (hSome : extents ≠ []) :
    build (extents.map .number) resolution limit =
      ofNumbers (extents.map .number) (trimmed resolution) limit := by
  cases extents with
  | nil => exact absurd rfl hSome
  | cons e extents => rfl

theorem build_map_number_eq_error {extents : List (Extent Binary64)} (hSome : extents ≠ [])
    {e : Failure} (hWidth : readWidth (trimmed resolution) = .error e) :
    build (extents.map .number) resolution limit = .error e := by
  rw [build_map_number hSome]
  unfold ofNumbers
  rw [hWidth]
  rfl

theorem exists_build_map_number_eq {extents : List (Extent Binary64)} (hSome : extents ≠ [])
    (hRegular : Value.Regular (extents.map .number)) {width : Binary64}
    (hWidth : readWidth (trimmed resolution) = .ok width) :
    exists histogram : Array Nat -> Histogram,
      build (extents.map .number) resolution limit =
        (checkLimit (bucketsOf extents width) limit).bind fun _ =>
          (noCounts (bucketsOf extents width)).bind fun counts => .ok (histogram counts) := by
  have hExtents : (extents.map Value.number).mapM numericExtent = .ok extents := by
    rw [Answer.mapM_eq_ok_iff, List.forall₂_map_left_iff, List.forall₂_same]
    intro e _
    rfl
  rcases exists_locateNumber_eq_ok hRegular width with ⟨indices, hIndices⟩
  let domain := (numericBounds extents).1.format ++ "/" ++ (numericBounds extents).2.format ++
    "/" ++ trimmed resolution
  refine ⟨fun counts => ⟨domain, tally counts indices⟩, ?_⟩
  rw [build_map_number hSome]
  unfold ofNumbers
  rw [hWidth, hExtents]
  dsimp only [bind, Except.bind]
  rw [hIndices]
  rfl

theorem settles_build_map_number {extents : List (Extent Binary64)} (hSome : extents ≠ [])
    (hRegular : Value.Regular (extents.map .number)) (resolution : String) (limit : Nat) :
    Settles (BreaksOff resolution limit (extents.map .number))
      (build (extents.map .number) resolution limit) := by
  rw [breaksOff_number_iff hSome]
  cases hWidth : readWidth (trimmed resolution) with
  | error e =>
      rcases exists_badResolution_of_readWidth_eq_error hWidth with ⟨message, rfl⟩
      rw [build_map_number_eq_error hSome hWidth]
      refine Or.inr ⟨?_, Or.inr ⟨message, rfl⟩⟩
      rintro ⟨width, hOk, _⟩
      cases hOk
  | ok width =>
      rcases exists_build_map_number_eq hSome hRegular hWidth with ⟨histogram, hBuild⟩
      rw [hBuild]
      simp only [Except.ok.injEq, exists_eq_left']
      exact settles_counted histogram (bucketsOf extents width) limit

theorem build_map_time_of_readStep_eq_error {extents : List (Extent Timestamp)}
    (hSome : extents ≠ []) {e : Failure} (hStep : readStep (trimmed resolution) = .error e) :
    build (extents.map .time) resolution limit = .error e := by
  have hTimes : ofTimes (extents.map .time) (trimmed resolution) limit = .error e := by
    unfold ofTimes
    rw [hStep]
    rfl
  cases extents with
  | nil => exact absurd rfl hSome
  | cons first rest => exact hTimes

/-- Once a step is read the calendar ends before room for the counts does. -/
theorem settled_build_map_time {extents : List (Extent Timestamp)} (hSome : extents ≠ [])
    (hRegular : Value.Regular (extents.map .time)) {step : Duration}
    (hStep : Duration.parse? (trimmed resolution) = some step) :
    Settled (build (extents.map .time) resolution limit) := by
  have hOrdered : forall e, e ∈ extents -> e.lower ≤ e.upper := by
    intro e he
    have hLE := hRegular.ordered _ (List.mem_map_of_mem he)
    change ((Extent.instant e.lower).compareBounds (.instant e.upper)).isLE = true at hLE
    rwa [Extent.compareBounds_instant] at hLE
  rcases List.exists_cons_of_ne_nil hSome with ⟨first, rest, rfl⟩
  have hSpans := spans_temporalBounds first rest
  have hOutcome := edgeOutcome_extendEdges step (temporalBounds first rest).1
    (temporalBounds first rest).2 limit
  rw [build_map_time hSpans hOrdered hStep]
  generalize extendEdges step _ _ _ _ _ = answer at hOutcome ⊢
  cases hOutcome with
  | @reached last edges edge _ hEdges hBelow hEnd =>
      have hRoom := hEdges.max_le_roomLimit (forward_of_parse?_eq_some hStep)
      have hBuckets : Nat.max 1 (edges.size - 1) = Nat.max 1 last := by
        rw [hEdges.size, Nat.add_sub_cancel]
      refine (settles_counted _ (Nat.max 1 (edges.size - 1)) limit).settled ?_
      rw [hBuckets]
      exact fun hOff => Nat.not_le.mpr hOff.2 hRoom
  | full hBelow => exact Or.inr ⟨_, rfl⟩
  | overflow hRoom hBelow hNone => exact Or.inr ⟨_, rfl⟩

theorem settles_build_map_time {extents : List (Extent Timestamp)} (hSome : extents ≠ [])
    (hRegular : Value.Regular (extents.map .time)) (resolution : String) (limit : Nat) :
    Settles (BreaksOff resolution limit (extents.map .time))
      (build (extents.map .time) resolution limit) := by
  rw [breaksOff_time_iff hSome]
  cases hRead : Duration.parse (trimmed resolution) with
  | ok step =>
      refine Or.inr ⟨by simp, ?_⟩
      exact settled_build_map_time hSome hRegular (Duration.parse?_eq_some_iff_parse.mpr hRead)
  | error fault =>
      cases fault with
      | malformed =>
          have hStep : readStep (trimmed resolution) =
              .error (badResolution (Duration.unreadable (trimmed resolution))) := by
            unfold readStep
            rw [hRead]
          exact Or.inr ⟨by simp, Or.inr ⟨_, build_map_time_of_readStep_eq_error hSome hStep⟩⟩
      | overflow =>
          have hStep : readStep (trimmed resolution) = .error .overflow := by
            unfold readStep
            rw [hRead]
          exact Or.inl ⟨rfl, build_map_time_of_readStep_eq_error hSome hStep⟩

theorem settles_build {values : List Value} (hRegular : Value.Regular values)
    (resolution : String) (limit : Nat) :
    Settles (BreaksOff resolution limit values) (build values resolution limit) := by
  cases values with
  | nil => exact Or.inr ⟨not_breaksOff_nil, Or.inl ⟨empty, rfl⟩⟩
  | cons first rest =>
      have hKind : forall v, v ∈ first :: rest -> v.kind = first.kind :=
        fun v hv => hRegular.oneKind v hv first List.mem_cons_self
      cases first with
      | text e => exact Or.inr ⟨not_breaksOff_text, Or.inr ⟨_, rfl⟩⟩
      | number e =>
          rcases exists_map_eq_of_mem_range fun v hv => mem_range_number (hKind v hv) with
            ⟨extents, hExtents⟩
          have hSome : extents ≠ [] := by
            rintro rfl
            cases hExtents
          rw [← hExtents] at hRegular ⊢
          exact settles_build_map_number hSome hRegular resolution limit
      | time e =>
          rcases exists_map_eq_of_mem_range fun v hv => mem_range_time (hKind v hv) with
            ⟨extents, hExtents⟩
          have hSome : extents ≠ [] := by
            rintro rfl
            cases hExtents
          rw [← hExtents] at hRegular ⊢
          exact settles_build_map_time hSome hRegular resolution limit

end

end Histogram

namespace Dimension

open MetadataSource

/-- There is a histogram, or an error about a token or about the resolution. -/
def Answered (kind : Kind) (outcome : Attempt Histogram) : Prop :=
  (exists h, outcome = .ok h) ∨
    (exists token, outcome = .error (.refused (.unreadableValue kind.name token))) ∨
    exists message, outcome = .error (.refused (.invalidParameter "resolution" message))

theorem answered_iff_of_settles {breaksOff : Prop} {outcome : Attempt Histogram} (kind : Kind)
    (h : Histogram.Settles breaksOff outcome) :
    (Answered kind outcome <-> ¬ breaksOff) ∧ (outcome = .error .overflow <-> breaksOff) ∧
      forall token, outcome ≠ .error (.refused (.unreadableValue kind.name token)) := by
  rcases h with ⟨hOff, rfl⟩ | ⟨hNot, ⟨h, rfl⟩ | ⟨message, rfl⟩⟩
  · simp [Answered, hOff]
  · simp [Answered, hNot]
  · simp [Answered, hNot, Histogram.badResolution]

theorem answered_unreadable (kind : Kind) (token : String) :
    Answered kind (.error (.refused (.unreadableValue kind.name token))) :=
  Or.inr (Or.inl ⟨token, rfl⟩)

/--
The histogram of a flat raster is answered unless it breaks off for its resolution.  It is
refused for a token just when one is not read, whatever the filter; what is read is of one
kind, finite and in order, so that no value is outside the span or of another kind.
-/
theorem flat_histogram_breaks_off_iff (layer : String) (axis : Axis) (config : DimensionConfig)
    (settings : Settings) (entries : NameMap String) (filter : Filter) (resolution : String) :
    let d : Dimension := { layer, axis, config, reader := .flat (.ofMap entries), settings }
    let domain? := entries.find? (domainKey axis.name)
    let kind := listedKind axis.dataType domain?
    let outcome := d.histogram filter resolution
    let breaksOff := exists domain, d.readAll filter .ascending = .ok domain ∧
      Histogram.BreaksOff resolution settings.maxHistogramBuckets domain.values
    (Answered kind outcome <-> ¬ breaksOff) ∧
      (outcome = .error .overflow <-> breaksOff) ∧
      ((exists token, outcome = .error (.refused (.unreadableValue kind.name token))) <->
        exists token, token ∈ listed domain? ∧ forall v, Token.read kind token ≠ .ok v) ∧
      forall domain, d.readAll filter .ascending = .ok domain ->
        Value.Regular domain.values := by
  intro d domain? kind outcome breaksOff
  have hValue : (MetadataSource.ofMap entries).value (domainKey axis.name) = .ok domain? := rfl
  have hOutcome : outcome = ((d.readAll filter .ascending).attempt >>= fun domain =>
      Histogram.build domain.values resolution settings.maxHistogramBuckets) := rfl
  rcases Reader.readAll_flat_cases hValue axis.dataType filter .ascending with
    ⟨hTokens, domain, hRead, hRegular⟩ | ⟨hToken, part, hError⟩
  · change d.readAll filter .ascending = .ok domain at hRead
    have hBreaks : breaksOff <->
        Histogram.BreaksOff resolution settings.maxHistogramBuckets domain.values := by
      constructor
      · rintro ⟨own, hOwn, hOff⟩
        cases hRead.symm.trans hOwn
        exact hOff
      · intro hOff
        exact ⟨domain, hRead, hOff⟩
    have hSettles : Histogram.Settles breaksOff outcome := by
      rw [hBreaks, hOutcome, hRead]
      exact Histogram.settles_build hRegular resolution settings.maxHistogramBuckets
    rcases answered_iff_of_settles kind hSettles with ⟨hAnswered, hOver, hReadable⟩
    refine ⟨hAnswered, hOver, ?_, ?_⟩
    · constructor
      · rintro ⟨token, hUnread⟩
        exact absurd hUnread (hReadable token)
      · rintro ⟨token, hListed, hUnread⟩
        rcases hTokens token hListed with ⟨v, hv⟩
        exact absurd hv (hUnread v)
    · intro own hOwn
      cases hRead.symm.trans hOwn
      exact hRegular
  · change d.readAll filter .ascending = .error (.unreadableValue kind.name (String.ofList part))
      at hError
    have hRefused : outcome =
        .error (.refused (.unreadableValue kind.name (String.ofList part))) := by
      rw [hOutcome, hError]
      rfl
    have hNot : ¬ breaksOff := by
      rintro ⟨own, hOwn, _⟩
      cases hError.symm.trans hOwn
    rw [hRefused]
    refine ⟨⟨fun _ => hNot, fun _ => answered_unreadable _ _⟩,
      ⟨fun hOver => ?_, fun hOff => absurd hOff hNot⟩, ⟨fun _ => hToken, fun _ => ⟨_, rfl⟩⟩, ?_⟩
    · cases hOver
    · intro own hOwn
      cases hError.symm.trans hOwn

/--
Nothing is wrong with the tokens here, and still there is neither a histogram nor an error:
a step of four times the most weeks overflows the counter of milliseconds, and unit steps
down to a depth of 2e18 take more counts than there is room for.
-/
theorem flat_histograms_that_break_off :
    let scene : Dimension := {
      layer := "scene", axis := .time, config := {}, settings := {}
      reader := .flat (.ofMap (.ofList [("TIME_DOMAIN", "2012-02-11T00:00:00Z")])) }
    let sea : Dimension := {
      layer := "sea", axis := .elevation, config := {}
      settings := { maxHistogramBuckets := 2000000000000000000 }
      reader := .flat (.ofMap (.ofList [("ELEVATION_DOMAIN", "0/2e18")])) }
    scene.histogram .everything "P4294967295W4294967295W4294967295W4294967295W" =
        .error .overflow ∧
      sea.histogram .everything "1" = .error .overflow := by
  decide +kernel

end Dimension
end LayerAxes
