import LayerAxes.Record.Pushback
import Mathlib.Data.List.Induction

/-!
# The protocol of pushback

A caller reads items and hands items back, in any order and as often as it likes.
This module follows such a run of calls and keeps a history of what they came to.

The last event that counts, a refusal being none, is all that the phase of a
sequence knows of its history.  A caller that hands back only what it has just
read is therefore never served an item twice or out of order: what it has read
and kept is at any time the part of the items before those still to come.
-/

namespace LayerAxes
namespace Pushback

variable {α : Type}

/-!
# Calls and their histories
-/

inductive Call (α : Type) where
  | next
  | pushBack (item : α)

inductive Event (α : Type) where
  | read (item : α)
  | ended
  | handedBack (item : α)
  | refused (item : α)

def Event.counts : Event α -> Bool
  | .refused _ => false
  | _ => true

/-- One call; a sequence that refuses an item stays as it is. -/
def call (s : Pushback α) : Call α -> Event α × Pushback α
  | .next =>
      match s.next with
      | (some item, after) => (.read item, after)
      | (none, after) => (.ended, after)
  | .pushBack item =>
      match s.pushBack item with
      | .ok after => (.handedBack item, after)
      | .error _ => (.refused item, s)

/-- The events of some calls, one for each, and the sequence after them. -/
def run (s : Pushback α) : List (Call α) -> List (Event α) × Pushback α
  | [] => ([], s)
  | c :: calls =>
      let first := s.call c
      let later := run first.2 calls
      (first.1 :: later.1, later.2)

theorem run_append (s : Pushback α) (calls more : List (Call α)) :
    s.run (calls ++ more) =
      ((s.run calls).1 ++ ((s.run calls).2.run more).1, ((s.run calls).2.run more).2) := by
  induction calls generalizing s with
  | nil => rfl
  | cons c calls ih =>
      show ((s.call c).1 :: ((s.call c).2.run (calls ++ more)).1,
        ((s.call c).2.run (calls ++ more)).2) = _
      rw [ih]
      rfl

/-- The last event of a history that is no refusal. -/
def lastEvent (events : List (Event α)) : Option (Event α) :=
  (events.filter Event.counts).getLast?

theorem lastEvent_snoc (events : List (Event α)) (e : Event α) :
    lastEvent (events ++ [e]) = if e.counts then some e else lastEvent events := by
  unfold lastEvent
  rw [List.filter_append]
  cases hCounts : e.counts with
  | true => simp [hCounts]
  | false => simp [hCounts]

def keepEvent (kept : List α) : Event α -> List α
  | .read item => kept ++ [item]
  | .handedBack _ => kept.dropLast
  | _ => kept

/-- The items that were read and have not been handed back. -/
def keptItems (events : List (Event α)) : List α :=
  events.foldl keepEvent []

theorem keptItems_snoc (events : List (Event α)) (e : Event α) :
    keptItems (events ++ [e]) = keepEvent (keptItems events) e := by
  unfold keptItems
  rw [List.foldl_append]
  rfl

/-- Every item that was handed back is the one that had just been read. -/
def HandsBackOwn (events : List (Event α)) : Prop :=
  forall before item, before ++ [.handedBack item] <+: events ->
    lastEvent before = some (.read item)

theorem HandsBackOwn.of_snoc {events : List (Event α)} {e : Event α}
    (h : HandsBackOwn (events ++ [e])) :
    HandsBackOwn events ∧ forall item, e = .handedBack item ->
      lastEvent events = some (.read item) := by
  constructor
  · intro before item hBefore
    exact h before item (hBefore.trans (List.prefix_append _ _))
  · rintro item rfl
    exact h events item (List.prefix_refl _)

/-!
# Single calls
-/

section

variable {s : Pushback α} {item : α}

theorem pushBack_eq_error {e : ServiceError} (h : s.pushBack item = .error e) :
    e = .pushbackViolation ∧ s.call (.pushBack item) = (.refused item, s) := by
  constructor
  · unfold pushBack at h
    split at h
    · cases h
    · cases h
      rfl
  · unfold call
    dsimp only
    rw [h]

/-- Everything that a call can do. -/
theorem call_cases (s : Pushback α) (c : Call α) :
    (exists item rest, s.toList = item :: rest ∧ s.call c = (.read item, ⟨rest, none, .read⟩)) ∨
      (s.toList = [] ∧ s.call c = (.ended, ⟨[], none, .exhausted⟩)) ∨
      (exists item, s.phase = .read ∧
        s.call c = (.handedBack item, ⟨s.rest, some item, .pushedBack⟩)) ∨
      exists item, s.phase ≠ .read ∧ s.call c = (.refused item, s) := by
  cases c with
  | next =>
      unfold call
      dsimp only
      cases hList : s.toList with
      | nil =>
          rw [next_of_toList_eq_nil hList]
          exact Or.inr (Or.inl ⟨rfl, rfl⟩)
      | cons item rest =>
          rw [next_of_toList_eq_cons hList]
          exact Or.inl ⟨item, rest, rfl, rfl⟩
  | pushBack item =>
      cases hAnswer : s.pushBack item with
      | ok after =>
          rcases pushBack_eq_ok_iff.mp hAnswer with ⟨hPhase, rfl⟩
          refine Or.inr (Or.inr (Or.inl ⟨item, hPhase, ?_⟩))
          unfold call
          dsimp only
          rw [hAnswer]
      | error e =>
          refine Or.inr (Or.inr (Or.inr ⟨item, ?_, (pushBack_eq_error hAnswer).2⟩))
          intro hPhase
          rw [pushBack_of_phase_eq_read hPhase] at hAnswer
          cases hAnswer

end

/-!
# Runs
-/

def phaseAfter : Option (Event α) -> Phase
  | some (.read _) => .read
  | some (.handedBack _) => .pushedBack
  | some .ended => .exhausted
  | _ => .fresh

def slotAfter : Option (Event α) -> Option α
  | some (.handedBack item) => some item
  | _ => none

/-- What holds between a history and the sequence after it, if the items were `items` at first. -/
structure Follows (items : List α) (events : List (Event α)) (s : Pushback α) : Prop where
  phase : s.phase = phaseAfter (lastEvent events)
  slot : s.slot = slotAfter (lastEvent events)
  last : forall item, lastEvent events = some (.read item) ->
    HandsBackOwn events -> (keptItems events).getLast? = some item
  kept : HandsBackOwn events -> keptItems events ++ s.toList = items
  size : s.size ≤ items.length
  room : s.phase = .read -> s.size < items.length

theorem follows_ofList (items : List α) : Follows items [] (ofList items) where
  phase := rfl
  slot := rfl
  last := by
    intro item hLast
    cases hLast
  kept := fun _ => rfl
  size := Nat.le_refl _
  room := by
    intro hPhase
    cases hPhase

namespace Follows

variable {items : List α} {events : List (Event α)} {s : Pushback α}

theorem slot_eq_some_iff (h : Follows items events s) {item : α} :
    s.slot = some item <-> lastEvent events = some (.handedBack item) := by
  rw [h.slot]
  rcases lastEvent events with _ | e
  · simp [slotAfter]
  · cases e <;> simp [slotAfter]

theorem isSome_slot_iff (h : Follows items events s) :
    s.slot.isSome = true <-> s.phase = .pushedBack := by
  rw [h.slot, h.phase]
  rcases lastEvent events with _ | e
  · simp [slotAfter, phaseAfter]
  · cases e <;> simp [slotAfter, phaseAfter]

theorem phase_eq_read_iff (h : Follows items events s) :
    s.phase = .read <-> exists own, lastEvent events = some (.read own) := by
  rw [h.phase]
  rcases lastEvent events with _ | e
  · simp [phaseAfter]
  · cases e <;> simp [phaseAfter]

theorem slot_eq_none (h : Follows items events s) (hPhase : s.phase = .read) :
    s.slot = none := by
  rcases h.phase_eq_read_iff.mp hPhase with ⟨own, hLast⟩
  rw [h.slot, hLast]
  rfl

theorem pushBack_succeeds_iff (h : Follows items events s) (item : α) :
    (exists after, s.pushBack item = .ok after) <->
      exists own, lastEvent events = some (.read own) := by
  rw [← h.phase_eq_read_iff]
  constructor
  · rintro ⟨after, hAfter⟩
    exact (pushBack_eq_ok_iff.mp hAfter).1
  · intro hRead
    exact ⟨_, pushBack_of_phase_eq_read hRead item⟩

protected theorem call (h : Follows items events s) (c : Call α) :
    Follows items (events ++ [(s.call c).1]) (s.call c).2 := by
  have hSize := h.size
  rw [← length_toList] at hSize
  rcases call_cases s c with
    ⟨item, rest, hList, hCall⟩ | ⟨hList, hCall⟩ | ⟨item, hPhase, hCall⟩ | ⟨item, hPhase, hCall⟩
  all_goals rw [hCall]
  · rw [hList, List.length_cons] at hSize
    refine ⟨?_, ?_, ?_, ?_, Nat.le_of_succ_le hSize, fun _ => hSize⟩
    · rw [lastEvent_snoc]
      rfl
    · rw [lastEvent_snoc]
      rfl
    · intro other hLast _
      rw [lastEvent_snoc] at hLast
      cases hLast
      rw [keptItems_snoc]
      exact List.getLast?_concat
    · intro hOwn
      have hKept := h.kept hOwn.of_snoc.1
      rw [hList] at hKept
      rw [keptItems_snoc]
      show (keptItems events ++ [item]) ++ rest = items
      rw [List.append_assoc]
      exact hKept
  · refine ⟨?_, ?_, ?_, ?_, Nat.zero_le _, ?_⟩
    · rw [lastEvent_snoc]
      rfl
    · rw [lastEvent_snoc]
      rfl
    · intro other hLast
      rw [lastEvent_snoc] at hLast
      cases hLast
    · intro hOwn
      have hKept := h.kept hOwn.of_snoc.1
      rw [hList] at hKept
      rw [keptItems_snoc]
      exact hKept
    · intro hRead
      cases hRead
  · have hRoom := h.room hPhase
    have hRest : s.toList = s.rest := by
      unfold toList
      rw [h.slot_eq_none hPhase]
      rfl
    rw [← length_toList, hRest] at hRoom
    refine ⟨?_, ?_, ?_, ?_, hRoom, ?_⟩
    · rw [lastEvent_snoc]
      rfl
    · rw [lastEvent_snoc]
      rfl
    · intro other hLast
      rw [lastEvent_snoc] at hLast
      cases hLast
    · intro hOwn
      rcases hOwn.of_snoc with ⟨hBefore, hItem⟩
      have hKept := h.kept hBefore
      have hLast := h.last item (hItem item rfl) hBefore
      rw [hRest] at hKept
      rw [keptItems_snoc]
      show (keptItems events).dropLast ++ ([item] ++ s.rest) = items
      rcases List.getLast?_eq_some_iff.mp hLast with ⟨front, hFront⟩
      rw [hFront, List.dropLast_concat, ← List.append_assoc, ← hFront]
      exact hKept
    · intro hRead
      cases hRead
  · refine ⟨?_, ?_, ?_, ?_, h.size, h.room⟩
    · rw [lastEvent_snoc]
      exact h.phase
    · rw [lastEvent_snoc]
      exact h.slot
    · intro other hLast hOwn
      rw [lastEvent_snoc] at hLast
      rw [keptItems_snoc]
      exact h.last other hLast hOwn.of_snoc.1
    · intro hOwn
      rw [keptItems_snoc]
      exact h.kept hOwn.of_snoc.1

end Follows

theorem follows_run (items : List α) (calls : List (Call α)) :
    Follows items ((ofList items).run calls).1 ((ofList items).run calls).2 := by
  induction calls using List.reverseRecOn with
  | nil => exact follows_ofList items
  | append_singleton calls c ih =>
      rw [run_append]
      exact ih.call c

/-- A refused item leaves no trace in what comes after it. -/
theorem run_of_refused {s : Pushback α} {item : α} {e : ServiceError}
    (h : s.pushBack item = .error e) (more : List (Call α)) :
    s.run (.pushBack item :: more) = (.refused item :: (s.run more).1, (s.run more).2) := by
  show (_ :: ((s.call (.pushBack item)).2.run more).1, ((s.call (.pushBack item)).2.run more).2) = _
  rw [(pushBack_eq_error h).2]

theorem run_replicate_next (s : Pushback α) (n : Nat) :
    (s.run (List.replicate n .next)).1 =
      (s.toList.take n).map .read ++ List.replicate (n - s.size) .ended := by
  induction n generalizing s with
  | zero => simp [run]
  | succ n ih =>
      rw [List.replicate_succ]
      show (s.call .next).1 :: ((s.call .next).2.run (List.replicate n .next)).1 = _
      rw [ih]
      rw [← length_toList, ← length_toList]
      unfold call
      dsimp only
      cases hList : s.toList with
      | nil =>
          rw [next_of_toList_eq_nil hList]
          simp [toList, List.replicate_succ]
      | cons item rest =>
          rw [next_of_toList_eq_cons hList]
          simp [toList]

/--
Along every run of calls the slot is filled just when an item was handed back
last, and items are taken back just when one was read last.  Refused items are
without effect, an item taken back comes next and the unread ones after it, and
the size counts exactly the reads that still give an item.  A caller that hands
back only what it has just read has kept the items before those still to come.
-/
theorem every_run_follows_protocol (items : List α) (calls : List (Call α)) :
    let events := ((ofList items).run calls).1
    let s := ((ofList items).run calls).2
    (s.slot.isSome = true <-> s.phase = .pushedBack) ∧
    (forall item, s.slot = some item <-> lastEvent events = some (.handedBack item)) ∧
    (forall item, (exists after, s.pushBack item = .ok after) <->
      exists own, lastEvent events = some (.read own)) ∧
    (forall item e, s.pushBack item = .error e ->
      e = .pushbackViolation ∧
        forall more, s.run (.pushBack item :: more) =
          (.refused item :: (s.run more).1, (s.run more).2)) ∧
    (forall item after, s.pushBack item = .ok after ->
      after.next = (some item, ⟨s.rest, none, .read⟩) ∧
        forall n, (after.run (List.replicate (n + 1) .next)).1 =
          .read item :: ((s.rest.take n).map .read ++
            List.replicate (n - s.rest.length) .ended)) ∧
    (HandsBackOwn events -> keptItems events ++ s.toList = items) ∧
    (forall n, (s.run (List.replicate n .next)).1 =
      (s.toList.take n).map .read ++ List.replicate (n - s.size) .ended) ∧
    s.size = s.toList.length ∧ s.size ≤ items.length := by
  have h := follows_run items calls
  refine ⟨h.isSome_slot_iff, fun item => h.slot_eq_some_iff, h.pushBack_succeeds_iff, ?_, ?_,
    h.kept, fun n => run_replicate_next _ n, (length_toList _).symm, h.size⟩
  · intro item e hError
    exact ⟨(pushBack_eq_error hError).1, run_of_refused hError⟩
  · intro item after hAfter
    rcases pushBack_eq_ok_iff.mp hAfter with ⟨_, rfl⟩
    refine ⟨rfl, ?_⟩
    intro n
    rw [run_replicate_next]
    simp [toList, size]

end Pushback
end LayerAxes
