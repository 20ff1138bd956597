/-!
# Maps from names

Attributes, tables and configured dimensions are listed by name.  `Entries` is
such a list, with insertion at the place of a name, and a `NameMap` is a list
of entries whose names increase, so that no name occurs twice.
-/

namespace LayerAxes

abbrev Entries (α : Type) := List (String × α)

namespace Entries

variable {α : Type}

def insert (name : String) (value : α) : Entries α -> Entries α
  | [] => [(name, value)]
  | entry :: rest =>
      match compare name entry.1 with
      | .lt => (name, value) :: entry :: rest
      | .eq => (name, value) :: rest
      | .gt => entry :: insert name value rest

/-- Insert entries one after the other; of two entries for a name the later counts. -/
def insertAll (entries : Entries α) (more : List (String × α)) : Entries α :=
  more.foldl (fun map entry => insert entry.1 entry.2 map) entries

def find? (name : String) (entries : Entries α) : Option α :=
  entries.lookup name

def Ordered (entries : Entries α) : Prop :=
  entries.Pairwise fun a b => a.1 < b.1

theorem find?_insert_self (name : String) (value : α) (entries : Entries α) :
    find? name (insert name value entries) = some value := by
  induction entries with
  | nil => simp [insert, find?]
  | cons entry rest ih =>
      rcases entry with ⟨key, old⟩
      unfold insert
      split
      · simp [find?]
      · simp [find?]
      · rename_i h
        have hne : (name == key) = false := by
          simp only [beq_eq_false_iff_ne, ne_eq]
          intro heq
          rw [heq, Std.ReflOrd.compare_self] at h
          cases h
        simpa [find?, List.lookup_cons, hne] using ih

theorem find?_insert_of_ne {name other : String} (h : other ≠ name) (value : α)
    (entries : Entries α) : find? other (insert name value entries) = find? other entries := by
  have hb : (other == name) = false := by simpa using h
  induction entries with
  | nil => simp [insert, find?, List.lookup_cons, hb]
  | cons entry rest ih =>
      rcases entry with ⟨key, old⟩
      unfold insert
      split
      · simp [find?, List.lookup_cons, hb]
      · rename_i heq
        have hname : name = key := Std.LawfulEqOrd.eq_of_compare heq
        simp [find?, List.lookup_cons, hb, ← hname]
      · simp only [find?, List.lookup_cons] at ih ⊢
        split <;> simp_all

theorem lt_of_compare_eq_lt {a b : String} (h : compare a b = .lt) : a < b :=
  compareOfLessAndEq_eq_lt.1 h

theorem lt_of_compare_eq_gt {a b : String} (h : compare a b = .gt) : b < a :=
  lt_of_compare_eq_lt (Std.OrientedCmp.gt_iff_lt.1 h)

/-- An entry of the list after an insertion is the new one or an old one. -/
theorem mem_insert {name : String} {value : α} {entry : String × α} {entries : Entries α}
    (h : entry ∈ insert name value entries) : entry = (name, value) ∨ entry ∈ entries := by
  induction entries with
  | nil => simpa [insert] using h
  | cons head rest ih =>
      unfold insert at h
      split at h
      · simpa using h
      · simp only [List.mem_cons] at h ⊢
        exact h.imp_right Or.inr
      · simp only [List.mem_cons] at h ⊢
        rcases h with h | h
        · exact Or.inr (Or.inl h)
        · exact (ih h).imp_right Or.inr

theorem ordered_insert (name : String) (value : α) {entries : Entries α}
    (h : entries.Ordered) : (insert name value entries).Ordered := by
  induction entries with
  | nil => simp [insert, Ordered]
  | cons head rest ih =>
      have hhead : forall b, b ∈ rest -> head.1 < b.1 := (List.pairwise_cons.1 h).1
      have hrest : Ordered rest := (List.pairwise_cons.1 h).2
      unfold insert
      split
      · rename_i hlt
        have hlt := lt_of_compare_eq_lt hlt
        refine List.pairwise_cons.2 ⟨fun b hb => ?_, h⟩
        rcases List.mem_cons.1 hb with rfl | hb
        · exact hlt
        · exact String.lt_trans hlt (hhead b hb)
      · rename_i heq
        have heq : name = head.1 := Std.LawfulEqOrd.eq_of_compare heq
        exact List.pairwise_cons.2 ⟨fun b hb => heq ▸ hhead b hb, hrest⟩
      · rename_i hgt
        have hgt := lt_of_compare_eq_gt hgt
        refine List.pairwise_cons.2 ⟨fun b hb => ?_, ih hrest⟩
        rcases mem_insert hb with rfl | hb
        · exact hgt
        · exact hhead b hb

end Entries

/-- A map from names, as the list of its entries in the order of their names. -/
structure NameMap (α : Type) where
  entries : Entries α
  ordered : entries.Ordered
deriving DecidableEq

namespace NameMap

variable {α : Type}

def empty : NameMap α :=
  ⟨[], List.Pairwise.nil⟩

instance : Inhabited (NameMap α) := ⟨empty⟩

def find? (map : NameMap α) (name : String) : Option α :=
  Entries.find? name map.entries

/-- The map with a value under a name, in place of the value that was there. -/
def insert (map : NameMap α) (name : String) (value : α) : NameMap α :=
  ⟨Entries.insert name value map.entries, Entries.ordered_insert name value map.ordered⟩

/-- The map of a list of entries; of two entries for a name the later counts. -/
def ofList (entries : List (String × α)) : NameMap α :=
  entries.foldl (fun map entry => map.insert entry.1 entry.2) empty

theorem find?_insert_self (map : NameMap α) (name : String) (value : α) :
    (map.insert name value).find? name = some value :=
  Entries.find?_insert_self name value map.entries

theorem find?_insert_of_ne (map : NameMap α) {name other : String} (h : other ≠ name)
    (value : α) : (map.insert name value).find? other = map.find? other :=
  Entries.find?_insert_of_ne h value map.entries

end NameMap
end LayerAxes
