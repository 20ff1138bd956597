import LayerAxes.NameMap
import Mathlib.Data.List.Pairwise
import Mathlib.Data.List.Perm.Basic

/-!
# Entries in the order of their names

Entries with increasing names are a map: what is found under a name is the one entry
with this name, and two such lists are the same when they have the same entries.  A
list of entries in order is what inserting its entries gives.
-/

namespace LayerAxes
namespace Entries

variable {α : Type}

theorem lookup_eq_none_of_notMem {name : String} {entries : List (String × α)}
    (h : name ∉ entries.map Prod.fst) : entries.lookup name = none := by
  rw [List.lookup_eq_none_iff]
  intro entry hEntry
  have hne : name ≠ entry.1 := by
    intro heq
    exact h (heq ▸ List.mem_map_of_mem hEntry)
  simpa using hne

theorem find?_eq_some_iff {entries : Entries α} (h : entries.Ordered)
    {name : String} {value : α} :
    entries.find? name = some value <-> (name, value) ∈ entries := by
  induction entries with
  | nil => simp [find?]
  | cons entry rest ih =>
      rcases entry with ⟨key, first⟩
      rcases List.pairwise_cons.mp h with ⟨hFirst, hRest⟩
      show ((key, first) :: rest).lookup name = _ <-> _
      rw [List.lookup_cons, List.mem_cons]
      by_cases hName : name = key
      · have hLater : (name, value) ∉ rest := by
          intro hMem
          exact String.lt_irrefl key (hName ▸ hFirst _ hMem)
        rw [or_iff_left hLater, hName]
        simp [eq_comm]
      · have hOther : (name == key) = false := by simpa using hName
        have hKey : (name, value) ≠ (key, first) := fun heq => hName (congrArg Prod.fst heq)
        rw [hOther, or_iff_right hKey]
        exact ih hRest

theorem Ordered.nodup {entries : Entries α} (h : entries.Ordered) : entries.Nodup := by
  refine h.imp ?_
  rintro a b hLess rfl
  exact String.lt_irrefl _ hLess

theorem Ordered.eq_of_mem_iff {entries others : Entries α} (h : entries.Ordered)
    (hOthers : others.Ordered) (hMem : forall entry, entry ∈ entries <-> entry ∈ others) :
    entries = others := by
  have hPerm : entries.Perm others := (List.perm_ext_iff_of_nodup h.nodup hOthers.nodup).mpr hMem
  exact hPerm.eq_of_pairwise (fun _ _ _ _ hab hba => absurd hba (String.lt_asymm hab)) h hOthers

theorem filter_eq_of_find?_eq {names : List String} {entries others : Entries α}
    (h : entries.Ordered) (hOthers : others.Ordered)
    (hFind : forall name, name ∈ names -> entries.find? name = others.find? name) :
    (entries.filter fun entry => names.contains entry.1) =
      others.filter fun entry => names.contains entry.1 := by
  refine Ordered.eq_of_mem_iff (List.Pairwise.filter _ h) (List.Pairwise.filter _ hOthers) ?_
  rintro ⟨name, value⟩
  rw [List.mem_filter, List.mem_filter]
  refine and_congr_left fun hName => ?_
  rw [← find?_eq_some_iff h, ← find?_eq_some_iff hOthers,
    hFind name (List.contains_iff_mem.mp hName)]

/-!
# Insertion
-/

theorem find?_insertAll (name : String) (more : List (String × α)) (entries : Entries α) :
    find? name (insertAll entries more) = (more.reverse.lookup name).or (find? name entries) := by
  induction more generalizing entries with
  | nil => rfl
  | cons entry rest ih =>
      rcases entry with ⟨key, value⟩
      show find? name (insertAll (insert key value entries) rest) = _
      rw [ih, List.reverse_cons, List.lookup_append, Option.or_assoc]
      congr 1
      by_cases hName : name = key
      · rw [hName, find?_insert_self]
        simp
      · have hOther : (name == key) = false := by simpa using hName
        rw [find?_insert_of_ne hName]
        simp [List.lookup_cons, hOther]

theorem insert_of_forall_lt {name : String} {entries : Entries α}
    (h : forall entry, entry ∈ entries -> entry.1 < name) (value : α) :
    insert name value entries = entries ++ [(name, value)] := by
  induction entries with
  | nil => rfl
  | cons entry rest ih =>
      rcases List.forall_mem_cons.mp h with ⟨hFirst, hRest⟩
      unfold insert
      split
      · rename_i hCompare
        exact absurd (lt_of_compare_eq_lt hCompare) (String.lt_asymm hFirst)
      · rename_i hCompare
        rw [Std.LawfulEqOrd.eq_of_compare hCompare] at hFirst
        exact absurd hFirst (String.lt_irrefl _)
      · rw [ih hRest]
        rfl

theorem insertAll_of_ordered {entries more : Entries α} (h : (entries ++ more).Ordered) :
    insertAll entries more = entries ++ more := by
  induction more generalizing entries with
  | nil => exact (List.append_nil entries).symm
  | cons entry rest ih =>
      have hLast : forall other, other ∈ entries -> other.1 < entry.1 := by
        intro other hOther
        exact (List.pairwise_append.mp h).2.2 other hOther entry List.mem_cons_self
      show insertAll (insert entry.1 entry.2 entries) rest = _
      rw [insert_of_forall_lt hLast, List.append_cons entries entry rest]
      apply ih
      rw [← List.append_cons]
      exact h

theorem ordered_insertAll {entries : Entries α} (h : entries.Ordered) (more : List (String × α)) :
    (insertAll entries more).Ordered := by
  induction more generalizing entries with
  | nil => exact h
  | cons entry rest ih => exact ih (ordered_insert entry.1 entry.2 h)

end Entries

namespace NameMap

variable {α : Type}

theorem entries_ofList (entries : List (String × α)) :
    (ofList entries).entries = Entries.insertAll [] entries := by
  have hFold : forall (more : List (String × α)) (map : NameMap α),
      (more.foldl (fun map entry => map.insert entry.1 entry.2) map).entries =
        Entries.insertAll map.entries more := by
    intro more
    induction more with
    | nil =>
        intro map
        rfl
    | cons entry rest ih =>
        intro map
        exact ih (map.insert entry.1 entry.2)
  exact hFold entries empty

theorem ext_entries {map other : NameMap α} (h : map.entries = other.entries) : map = other := by
  cases map
  cases other
  cases h
  rfl

theorem ofList_entries (map : NameMap α) : ofList map.entries = map := by
  apply ext_entries
  rw [entries_ofList]
  exact Entries.insertAll_of_ordered map.ordered

end NameMap
end LayerAxes
