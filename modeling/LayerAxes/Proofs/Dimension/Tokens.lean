import LayerAxes.Proofs.Dimension.Interval
import LayerAxes.Proofs.Domain.Tokens
import LayerAxes.Proofs.Order.Distinct

/-!
# Tokens that are listed for a domain

The values of a domain are listed in order and without repetitions, each by its
token.  Values are distinguished by all that they are, but their tokens only by what
is written, so that a token is repeated for values that share it.  Tokens of exact
values are not repeated.
-/

namespace LayerAxes
namespace Dimension

open Value

section

variable {d : Dimension} {filter : Filter} {values : List Value} {tokens : List String}

theorem increasing_of_values_eq_ok (h : d.values filter = .ok values) :
    OneKind values ∧ values.Pairwise (Before .ascending) := by
  rcases Answer.exists_of_bind_eq_ok h with ⟨_, hDistinct, _⟩
  rcases Answer.exists_of_bind_eq_ok hDistinct with ⟨domain, hRead, _⟩
  rw [values_eq_ok hRead] at h
  cases h
  rcases Reader.exists_sort_eq_ok hRead with ⟨read, hSort⟩
  have hKept := List.destutter_sublist Differ domain.values
  constructor
  · exact (oneKind_of_sort_eq_ok hSort).mono hKept.subset
  · exact pairwise_before_of_isChain ((stableOrder_of_sort_eq_ok hSort).ordered.sublist hKept)
      (List.isChain_destutter Differ _)

theorem present_eq_map_format (hList : d.config.presentation = .list) (values : List Value) :
    d.present values = values.map Value.format := by
  cases values with
  | nil => rfl
  | cons first rest =>
      unfold present
      rw [List.head?_cons, List.getLast?_cons]
      dsimp only
      rw [hList]

theorem exists_values_of_representation_eq_ok (hList : d.config.presentation = .list)
    (hShown : d.representation filter = .ok tokens) :
    exists values, d.values filter = .ok values ∧ tokens = values.map Value.format := by
  rcases Answer.exists_of_bind_eq_ok hShown with ⟨values, hValues, hTokens⟩
  cases hTokens
  exact ⟨values, hValues, present_eq_map_format hList values⟩

/--
The tokens that are listed are those of the values of the domain in order.  They
are distinct exactly if no two values agree in what is written of them, and so
they are if all of the values are exact.
-/
theorem listed_tokens_nodup_iff (hList : d.config.presentation = .list)
    (hShown : d.representation filter = .ok tokens) :
    exists values, d.values filter = .ok values ∧ values.Pairwise (Before .ascending) ∧
      tokens = values.map Value.format ∧
      (tokens.Nodup <-> (values.map Value.asWritten).Nodup) ∧
      ((forall v, v ∈ values -> v.Exact) -> tokens.Nodup) := by
  rcases exists_values_of_representation_eq_ok hList hShown with ⟨values, hValues, rfl⟩
  rcases increasing_of_values_eq_ok hValues with ⟨hKind, hIncreasing⟩
  refine ⟨values, hValues, hIncreasing, rfl, ?_, ?_⟩
  · unfold List.Nodup
    rw [List.pairwise_map, List.pairwise_map]
    apply List.Pairwise.iff_of_mem
    intro v w hv hw
    rw [Ne, format_eq_iff (hKind v hv w hw)]
  · intro hExact
    unfold List.Nodup
    rw [List.pairwise_map]
    refine hIncreasing.imp_of_mem ?_
    intro v w hv hw hBefore hTokens
    have hNot := hBefore.not_same
    rw [eq_of_format_eq (hKind v hv w hw) (hExact v hv) (hExact w hw) hTokens, same_self] at hNot
    cases hNot

end

def tides (ebb flood : Timestamp) : Dimension where
  layer := "sea"
  axis := .time
  config := {}
  reader := .vector
    (waterTable [⟨"ebb", [("at", .time ebb)]⟩, ⟨"flood", [("at", .time flood)]⟩]).source
    ⟨some "at", none⟩
  settings := {}

theorem values_tides {s t : Timestamp} (h : compare s t = .lt) :
    (tides s t).values .everything = .ok [.time (.instant s), .time (.instant t)] := by
  have hBefore : compare (Value.time (.instant s)) (.time (.instant t)) = .lt :=
    (Extent.compareBounds_instant s t).trans h
  have hKind : OneKind [Value.time (.instant s), .time (.instant t)] :=
    oneKind_cons_iff.mpr (List.forall_mem_singleton.mpr rfl)
  have hOrdered : precedes .ascending (.time (.instant s)) (.time (.instant t)) = true := by
    show (compare (Value.time (.instant s)) (.time (.instant t))).isLE = true
    rw [hBefore]
    rfl
  have hDiffer : Differ (.time (.instant s)) (.time (.instant t)) := by
    unfold Differ
    rw [hBefore]
    decide
  have hRead : exists bounds, (tides s t).readAll .everything .ascending =
      .ok ⟨bounds, [.time (.instant s), .time (.instant t)]⟩ :=
    Reader.exists_readAll_vector_table_eq_ok (waterTable _) rfl
      (sort_eq_self hKind (List.pairwise_pair.mpr hOrdered))
  rcases hRead with ⟨bounds, hRead⟩
  rw [values_eq_ok hRead, List.destutter_pair, if_pos hDiffer]

theorem representation_tides {s t : Timestamp} (h : compare s t = .lt) :
    (tides s t).representation .everything =
      .ok [format (.time (.instant s)), format (.time (.instant t))] := by
  unfold representation
  rw [values_tides h]
  rfl

def midnight : Timestamp :=
  ⟨1328918400, 0, by decide⟩

def afterMidnight : Timestamp :=
  ⟨1328918400, 1000000, by decide⟩

theorem tides_at_milliseconds_nodup :
    exists tokens, (tides midnight afterMidnight).representation .everything = .ok tokens ∧
      tokens.Nodup := by
  have hBefore : compare midnight afterMidnight = .lt := by decide
  have hShown := representation_tides hBefore
  rcases listed_tokens_nodup_iff rfl hShown with ⟨values, hValues, _, _, _, hNodup⟩
  rw [values_tides hBefore] at hValues
  cases hValues
  refine ⟨_, hShown, hNodup ?_⟩
  intro v hv
  rcases List.mem_pair.mp hv with rfl | rfl
  · exact ⟨by decide, by decide⟩
  · exact ⟨by decide, by decide⟩

theorem tides_within_a_millisecond_share_token :
    (tides ⟨1328918400, 100000, by decide⟩ ⟨1328918400, 200000, by decide⟩).representation
        .everything =
      .ok ["2012-02-11T00:00:00.000Z", "2012-02-11T00:00:00.000Z"] ∧
    ¬ ["2012-02-11T00:00:00.000Z", "2012-02-11T00:00:00.000Z"].Nodup := by
  refine ⟨?_, by decide⟩
  rw [representation_tides (by decide)]
  decide +kernel

end Dimension
end LayerAxes
