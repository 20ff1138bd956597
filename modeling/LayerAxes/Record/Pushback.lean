import LayerAxes.Error

/-!
# Sequences with pushback

Items are read one after the other.  The item that was read last can be handed
back, once, and is then the next one to be read.
-/

namespace LayerAxes

/-- What happened last in a sequence. -/
inductive Phase where
  | fresh
  | read
  | pushedBack
  | exhausted
deriving DecidableEq, Repr

def Phase.name : Phase -> String
  | fresh => "Fresh"
  | read => "Read"
  | pushedBack => "PushedBack"
  | exhausted => "Exhausted"

/-- A sequence that is being read: the items never read, and a slot for the one handed back. -/
structure Pushback (α : Type) where
  rest : List α
  slot : Option α := none
  phase : Phase := .fresh
deriving DecidableEq, Repr

namespace Pushback

variable {α : Type}

def ofList (items : List α) : Pushback α :=
  { rest := items }

def toList (s : Pushback α) : List α :=
  s.slot.toList ++ s.rest

def size (s : Pushback α) : Nat :=
  s.rest.length + if s.slot.isSome then 1 else 0

/-- Read the next item, if there is one. -/
def next (s : Pushback α) : Option α × Pushback α :=
  match s.slot, s.rest with
  | some item, rest => (some item, ⟨rest, none, .read⟩)
  | none, item :: rest => (some item, ⟨rest, none, .read⟩)
  | none, [] => (none, ⟨[], none, .exhausted⟩)

/-- Hand an item back; the last thing that happened has to be reading one. -/
def pushBack (s : Pushback α) (item : α) : Answer (Pushback α) :=
  match s.phase with
  | .read => .ok { s with slot := some item, phase := .pushedBack }
  | _ => .error .pushbackViolation

section

variable {s after : Pushback α} {item : α}

theorem length_toList (s : Pushback α) : s.toList.length = s.size := by
  rcases s with ⟨rest, slot, phase⟩
  cases slot with
  | none => rfl
  | some item => rfl

theorem next_of_toList_eq_nil (h : s.toList = []) : s.next = (none, ⟨[], none, .exhausted⟩) := by
  rcases s with ⟨rest, slot, phase⟩
  cases slot with
  | none =>
      cases h
      rfl
  | some item => cases h

theorem next_of_toList_eq_cons {rest : List α} (h : s.toList = item :: rest) :
    s.next = (some item, ⟨rest, none, .read⟩) := by
  rcases s with ⟨own, slot, phase⟩
  cases slot with
  | none =>
      cases h
      rfl
  | some item =>
      cases h
      rfl

theorem toList_of_next_eq_some (h : s.next = (some item, after)) :
    s.toList = item :: after.toList ∧ after.slot = none ∧ after.phase = .read := by
  cases hList : s.toList with
  | nil =>
      rw [next_of_toList_eq_nil hList] at h
      cases h
  | cons first rest =>
      rw [next_of_toList_eq_cons hList] at h
      cases h
      exact ⟨rfl, rfl, rfl⟩

theorem toList_of_next_eq_none (h : s.next = (none, after)) :
    s.toList = [] ∧ after.toList = [] := by
  cases hList : s.toList with
  | nil =>
      rw [next_of_toList_eq_nil hList] at h
      cases h
      exact ⟨rfl, rfl⟩
  | cons first rest =>
      rw [next_of_toList_eq_cons hList] at h
      cases h

theorem pushBack_eq_ok_iff :
    s.pushBack item = .ok after <->
      s.phase = .read ∧ after = { s with slot := some item, phase := .pushedBack } := by
  unfold pushBack
  cases s.phase <;> simp [eq_comm]

theorem pushBack_of_phase_eq_read (h : s.phase = .read) (item : α) :
    s.pushBack item = .ok { s with slot := some item, phase := .pushedBack } :=
  pushBack_eq_ok_iff.mpr ⟨h, rfl⟩

theorem toList_of_pushBack_eq_ok (hSlot : s.slot = none) (h : s.pushBack item = .ok after) :
    after.toList = item :: s.toList := by
  rcases pushBack_eq_ok_iff.mp h with ⟨_, rfl⟩
  unfold toList
  rw [hSlot]
  rfl

theorem size_of_next_eq_none (h : s.next = (none, after)) : after.size = 0 := by
  rw [← length_toList, (toList_of_next_eq_none h).2]
  rfl

theorem size_of_next_eq_some (h : s.next = (some item, after)) : s.size = after.size + 1 := by
  rw [← length_toList, (toList_of_next_eq_some h).1, List.length_cons, length_toList]

/-- Handing an item back takes the slot, whether it was free or not. -/
theorem size_le_of_pushBack_eq_ok (h : s.pushBack item = .ok after) :
    after.size ≤ s.size + 1 := by
  rcases pushBack_eq_ok_iff.mp h with ⟨_, rfl⟩
  exact Nat.add_le_add_right (Nat.le_add_right _ _) 1

end

end Pushback
end LayerAxes
