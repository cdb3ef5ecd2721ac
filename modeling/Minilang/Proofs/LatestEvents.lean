import Minilang.Trace.Tracer

/-! The ring of a tracer against a history that forgets nothing: however often the buffer went
round, a look at the ring shows the end of the history. -/

namespace Minilang.Trace

/-- The end of a history, oldest event first: as much of it as fits. -/
structure Newest (capacity : Nat) (history shown : List Event) : Prop where
  suffix : shown <:+ history
  length : shown.length = min history.length capacity

namespace Ring

@[simp] theorem capacity_ofCapacity (wanted : Int) :
    (ofCapacity wanted).capacity = capacityFor wanted := by
  simp [ofCapacity, capacity]

@[simp] theorem snapshot_ofCapacity (wanted : Int) : (ofCapacity wanted).snapshot = [] := by
  simp [ofCapacity, snapshot]

@[simp] theorem capacity_add (ring : Ring) (event : Event) :
    (ring.add event).capacity = ring.capacity := by
  simp only [add, capacity]
  split <;> simp

theorem length_snapshot (ring : Ring) :
    ring.snapshot.length = if ring.full then ring.capacity else ring.next := by
  have inside := ring.inside
  unfold snapshot capacity
  split <;> simp <;> omega

theorem snapshot_add (ring : Ring) (event : Event) :
    (ring.add event).snapshot =
      (if ring.full then ring.snapshot.tail else ring.snapshot) ++ [event] := by
  obtain ⟨slots, next, full, inside⟩ := ring
  have room : next < slots.toList.length := inside
  have written : (slots.toList.set next event).take (next + 1) =
      slots.toList.take next ++ [event] := by
    rw [List.take_add_one, List.getElem?_set_self room, List.take_set_of_le (Nat.le_refl _)]
    rfl
  have unwritten : (slots.toList.set next event).drop (next + 1) =
      slots.toList.drop (next + 1) := List.drop_set_of_lt (Nat.lt_succ_self _)
  have oldest : (slots.toList.drop next ++ slots.toList.take next).tail =
      slots.toList.drop (next + 1) ++ slots.toList.take next := by
    rw [List.drop_eq_getElem_cons room, List.cons_append, List.tail_cons]
  simp only [add, snapshot, Array.size_set]
  split
  next last =>
    -- The buffer is written to its end, and what it holds starts at its first slot.
    have behind : slots.toList.drop (next + 1) = [] := by simp [last]
    have whole := List.take_append_drop (next + 1) (slots.toList.set next event)
    rw [written, unwritten, behind, List.append_nil] at whole
    cases full <;> simp [oldest, behind, whole]
  · cases full <;> simp [oldest, written, unwritten]

theorem newest_ofCapacity (wanted : Int) :
    Newest (capacityFor wanted) [] (ofCapacity wanted).snapshot := by
  rw [snapshot_ofCapacity]
  exact ⟨List.suffix_refl _, by simp⟩

theorem newest_add {ring : Ring} {history : List Event}
    (newest : Newest ring.capacity history ring.snapshot) (event : Event) :
    Newest ring.capacity (history ++ [event]) (ring.add event).snapshot := by
  have inside : ring.next < ring.capacity := ring.inside
  have length := ring.length_snapshot
  obtain ⟨suffix, bounded⟩ := newest
  rw [snapshot_add]
  split at length
  next full =>
    rw [if_pos full]
    refine ⟨List.suffix_append_self_iff.mpr ((List.tail_suffix _).trans suffix), ?_⟩
    simp only [List.length_append, List.length_tail, List.length_singleton]
    omega
  next room =>
    rw [if_neg room]
    refine ⟨List.suffix_append_self_iff.mpr suffix, ?_⟩
    simp only [List.length_append, List.length_singleton]
    omega

end Ring

/-- What is done with a tracer that keeps events: it takes one in, or what it keeps is looked at. -/
inductive Use where
  | emit (event : Event)
  | look

def emitted : List Use → List Event
  | [] => []
  | .emit event :: rest => event :: emitted rest
  | .look :: rest => emitted rest

namespace Tracer

def use (tracer : Tracer) : Use → Tracer
  | .emit event => (tracer.emit event).1
  | .look => tracer

def after (tracer : Tracer) (uses : List Use) : Tracer := uses.foldl use tracer

/-- What the looks of a run show, one after the other. -/
def shown (tracer : Tracer) : List Use → List (List Event)
  | [] => []
  | .emit event :: rest => (tracer.emit event).1.shown rest
  | .look :: rest => (tracer.ring.map Ring.snapshot).toList ++ tracer.shown rest

theorem shown_append (tracer : Tracer) (before rest : List Use) :
    tracer.shown (before ++ rest) = tracer.shown before ++ (tracer.after before).shown rest := by
  induction before generalizing tracer with
  | nil => rfl
  | cons use before ih => cases use <;> simp [shown, after, Tracer.use, ih]

/-- A tracer that is on, and whose ring holds the end of a history. -/
structure Keeps (capacity : Nat) (history : List Event) (tracer : Tracer) : Prop where
  on : tracer.level.isOn = true
  ring : ∃ ring, tracer.ring = some ring ∧ ring.capacity = capacity ∧
    Newest capacity history ring.snapshot

theorem Keeps.emit {capacity : Nat} {history : List Event} {tracer : Tracer}
    (keeps : Keeps capacity history tracer) (event : Event) :
    Keeps capacity (history ++ [event]) (tracer.emit event).1 := by
  obtain ⟨on, ring, holds, rfl, newest⟩ := keeps
  have started : tracer.level ≠ .off := by simpa [Level.isOn] using on
  rw [Tracer.emit, if_neg started]
  exact ⟨on, ring.add event, by rw [holds, Option.map_some], ring.capacity_add event,
    Ring.newest_add newest event⟩

theorem Keeps.after {capacity : Nat} {history : List Event} {tracer : Tracer}
    (keeps : Keeps capacity history tracer) (uses : List Use) :
    Keeps capacity (history ++ emitted uses) (tracer.after uses) := by
  induction uses generalizing history tracer with
  | nil => simpa [emitted, Tracer.after] using keeps
  | cons use uses ih =>
    cases use with
    | emit event => simpa [emitted, Tracer.after, Tracer.use] using ih (keeps.emit event)
    | look => exact ih keeps

/-- Looks leave no trace: a run ends as the run of its events alone does. -/
theorem after_emitted (tracer : Tracer) (uses : List Use) :
    tracer.after ((emitted uses).map .emit) = tracer.after uses := by
  induction uses generalizing tracer with
  | nil => rfl
  | cons use uses ih =>
    cases use with
    | emit event => exact ih _
    | look => exact ih _

/-- The ring keeps exactly the newest events. At the end of a run and at each look on the way it
shows the end of what was emitted so far, oldest first, and the looks change nothing. -/
theorem ring_shows_newest {tracer : Tracer} {wanted : Int} (on : tracer.level.isOn = true)
    (fresh : tracer.ring = some (.ofCapacity wanted)) (uses : List Use) :
    (∃ ring, (tracer.after uses).ring = some ring ∧
      Newest (Ring.capacityFor wanted) (emitted uses) ring.snapshot) ∧
    (∀ before rest, uses = before ++ .look :: rest → ∃ snapshot later,
      tracer.shown uses = tracer.shown before ++ snapshot :: later ∧
      Newest (Ring.capacityFor wanted) (emitted before) snapshot) ∧
    tracer.after ((emitted uses).map .emit) = tracer.after uses := by
  have start : Keeps (Ring.capacityFor wanted) [] tracer :=
    ⟨on, _, fresh, Ring.capacity_ofCapacity wanted, Ring.newest_ofCapacity wanted⟩
  refine ⟨?_, ?_, after_emitted tracer uses⟩
  · obtain ⟨ring, holds, -, newest⟩ := (start.after uses).ring
    exact ⟨ring, holds, newest⟩
  · rintro before rest rfl
    obtain ⟨ring, holds, -, newest⟩ := (start.after before).ring
    refine ⟨ring.snapshot, (tracer.after before).shown rest, ?_, newest⟩
    rw [shown_append, shown, holds]
    rfl

theorem two_slots_show_newest :
    let tracer : Tracer := { level := .error, ring := some (.ofCapacity 2) }
    let event (name : Bytes) : Event := { kind := .point, scope := .pass, name }
    let uses : List Use :=
      [.emit (event "a"), .emit (event "b"), .emit (event "c"), .look, .emit (event "d")]
    (tracer.level.isOn = true ∧ tracer.ring = some (.ofCapacity 2)) ∧
      tracer.shown uses = [[event "b", event "c"]] ∧
      ∃ ring, (tracer.after uses).ring = some ring ∧ Newest 2 (emitted uses) ring.snapshot := by
  intro tracer event uses
  have on : tracer.level.isOn = true := rfl
  have fresh : tracer.ring = some (.ofCapacity 2) := rfl
  obtain ⟨kept, -⟩ := ring_shows_newest on fresh uses
  exact ⟨⟨on, fresh⟩, rfl, kept⟩

end Tracer

end Minilang.Trace
