import Mathlib

/-! One direction of a reliable, acknowledged stream. What was written is either
with the receiver's transport or still on its way; a lost connection takes the
part that is on its way and leaves what has arrived. -/
variable {α : Type*}

structure Wire (α : Type*) where
  /-- With the receiver's transport, oldest first: acknowledged, not yet read. -/
  arrived : List α
  /-- On its way. -/
  flight : List α
  /-- The sender has ended the stream. -/
  finished : Bool
  /-- The end has arrived, and with it everything before it. -/
  acked : Bool
  whole : acked = true → finished = true ∧ flight = []

inductive Reading (α : Type*) where
  | item (x : α)
  | ended
  | waiting
  | broken
  deriving DecidableEq

namespace Wire

def empty : Wire α := ⟨[], [], false, false, fun h => absurd h Bool.false_ne_true⟩

/-- Everything that was written and not yet read, oldest first. -/
def content (w : Wire α) : List α := w.arrived ++ w.flight

theorem acked_of_finished (w : Wire α) (h : w.acked = true) : w.finished = true := (w.whole h).1

theorem write_whole (w : Wire α) (opened : w.finished = false) (x : α) :
    w.acked = true → w.finished = true ∧ w.flight ++ [x] = [] :=
  fun h => absurd (w.whole h).1 (by rw [opened]; exact Bool.false_ne_true)

def write (w : Wire α) (x : α) : Wire α :=
  if opened : w.finished = false then { w with flight := w.flight ++ [x], whole := w.write_whole opened x } else w

def finish (w : Wire α) : Wire α := { w with finished := true, whole := fun h => ⟨rfl, (w.whole h).2⟩ }

theorem deliver_whole (w : Wire α) {x : α} {flight : List α} (next : w.flight = x :: flight) :
    w.acked = true → w.finished = true ∧ flight = [] :=
  fun h => absurd ((w.whole h).2.symm.trans next) (List.cons_ne_nil x flight).symm

/-- The network moves one item, or else the end. -/
def deliver (w : Wire α) : Wire α :=
  match next : w.flight with
  | x :: flight => { w with arrived := w.arrived ++ [x], flight := flight, whole := w.deliver_whole next }
  | [] => { w with acked := w.finished, whole := fun h => ⟨h, next⟩ }

/-- The connection is gone: what is on its way is dropped. -/
def cut (w : Wire α) : Wire α := { w with flight := [], whole := fun h => ⟨(w.whole h).1, rfl⟩ }

/-- What the receiver reads next, over a connection that stands or is gone. -/
def reading (w : Wire α) (connected : Bool) : Reading α :=
  match w.arrived with
  | x :: _ => .item x
  | [] => if w.acked then .ended else if connected then .waiting else .broken

def drop (w : Wire α) : Wire α := { w with arrived := w.arrived.tail }

variable {w : Wire α}

theorem write_of_open (opened : w.finished = false) (x : α) :
    (w.write x).content = w.content ++ [x] ∧ (w.write x).finished = false ∧ (w.write x).acked = w.acked := by
  rw [write, dif_pos opened]
  exact ⟨(List.append_assoc ..).symm, opened, rfl⟩

@[simp] theorem content_finish : w.finish.content = w.content := rfl

@[simp] theorem finished_finish : w.finish.finished = true := rfl

@[simp] theorem acked_finish : w.finish.acked = w.acked := rfl

/-- The two moves of the network. -/
theorem deliver_cases (w : Wire α) :
    (∃ x flight, w.flight = x :: flight ∧ w.deliver.arrived = w.arrived ++ [x] ∧ w.deliver.flight = flight ∧
      w.deliver.finished = w.finished ∧ w.deliver.acked = w.acked) ∨
    (w.flight = [] ∧ w.deliver.arrived = w.arrived ∧ w.deliver.flight = [] ∧
      w.deliver.finished = w.finished ∧ w.deliver.acked = w.finished) := by
  unfold deliver
  split
  case h_1 x flight next => exact .inl ⟨x, flight, next, rfl, rfl, rfl, rfl⟩
  case h_2 next => exact .inr ⟨next, rfl, next, rfl, rfl⟩

@[simp] theorem content_deliver : w.deliver.content = w.content := by
  obtain ⟨x, flight, next, arrived, left, _, _⟩ | ⟨next, arrived, left, _, _⟩ := w.deliver_cases
  · rw [content, content, arrived, left, next, List.append_assoc]
    rfl
  · rw [content, content, arrived, left, next]

@[simp] theorem finished_deliver : w.deliver.finished = w.finished := by
  obtain ⟨_, _, _, _, _, same, _⟩ | ⟨_, _, _, same, _⟩ := w.deliver_cases <;> exact same

theorem acked_deliver (h : w.acked = true) : w.deliver.acked = true := by
  obtain ⟨_, _, _, _, _, _, same⟩ | ⟨_, _, _, _, same⟩ := w.deliver_cases
  · exact same.trans h
  · exact same.trans (w.whole h).1

/-- A lost connection costs an acknowledged stream nothing. -/
theorem content_cut (h : w.acked = true) : w.cut.content = w.content := by
  rw [content, content, (w.whole h).2]
  rfl

@[simp] theorem finished_cut : w.cut.finished = w.finished := rfl

@[simp] theorem acked_cut : w.cut.acked = w.acked := rfl

@[simp] theorem finished_drop : w.drop.finished = w.finished := rfl

@[simp] theorem acked_drop : w.drop.acked = w.acked := rfl

theorem arrived_of_item {connected : Bool} {x : α} (h : w.reading connected = .item x) :
    w.arrived = x :: w.drop.arrived := by
  unfold reading at h
  split at h
  case h_1 y rest arrived =>
    rw [Reading.item.injEq] at h
    rw [drop, arrived, h]
    rfl
  case h_2 =>
    split at h
    · cases h
    · split at h <;> cases h

theorem content_of_item {connected : Bool} {x : α} (h : w.reading connected = .item x) :
    w.content = x :: w.drop.content := by
  rw [content, arrived_of_item h]
  rfl

/-- The end is read only after everything before it. -/
theorem content_of_ended {connected : Bool} (h : w.reading connected = .ended) :
    w.content = [] ∧ w.acked = true := by
  unfold reading at h
  split at h
  case h_1 => cases h
  case h_2 arrived =>
    split at h
    case isTrue acked =>
      rw [content, arrived, (w.whole acked).2]
      exact ⟨rfl, acked⟩
    case isFalse =>
      split at h <;> cases h

/-- An acknowledged stream has something to read, or its end. -/
theorem reading_of_acked {connected : Bool} (h : w.acked = true) : w.reading connected ≠ .waiting := by
  unfold reading
  split
  · intro same
    cases same
  · rw [if_pos h]
    intro same
    cases same

/-- Only a stream whose end has not arrived breaks, and only with its connection. -/
theorem broken_iff {connected : Bool} :
    w.reading connected = .broken ↔ w.arrived = [] ∧ w.acked = false ∧ connected = false := by
  unfold reading
  split
  case h_1 x rest arrived => simp [arrived]
  case h_2 arrived => cases w.acked <;> cases connected <;> simp [arrived]

/-- Every item is delivered and read, and the end delivered. -/
def left (w : Wire α) : ℕ := 2 * w.flight.length + w.arrived.length + (!w.acked).toNat

theorem left_write_le (w : Wire α) (x : α) : (w.write x).left ≤ w.left + 2 := by
  unfold write
  split
  · simp only [left, List.length_append, List.length_singleton]
    omega
  · omega

@[simp] theorem left_finish : w.finish.left = w.left := rfl

theorem left_cut_le : w.cut.left ≤ w.left := by
  have fewer : w.cut.left = w.arrived.length + (!w.acked).toNat := by simp [left, cut]
  rw [fewer, left]
  omega

theorem eq_of_marks {v : Wire α} (arrived : v.arrived = w.arrived) (flight : v.flight = w.flight)
    (finished : v.finished = w.finished) (acked : v.acked = w.acked) : v = w := by
  cases v
  cases w
  dsimp only at arrived flight finished acked
  subst arrived flight finished acked
  rfl

/-- The network moves something, or there is nothing to move. -/
theorem deliver_eq_or_left (w : Wire α) : w.deliver = w ∨ w.deliver.left < w.left := by
  obtain ⟨x, flight, next, arrived, rest, finished, acked⟩ | ⟨none_, arrived, rest, finished, acked⟩ := w.deliver_cases
  · right
    simp only [left, arrived, rest, acked, next, List.length_append, List.length_cons, List.length_nil]
    omega
  · by_cases same : w.finished = w.acked
    · exact .inl (eq_of_marks arrived (rest.trans none_.symm) finished (acked.trans same))
    · -- an acknowledged end is a finished one, so the end is on its way
      have ended : w.finished = true ∧ w.acked = false := by
        cases acked : w.acked
        · exact ⟨Bool.eq_true_of_not_eq_false fun opened => same (opened.trans acked.symm), rfl⟩
        · exact absurd ((w.acked_of_finished acked).trans acked.symm) same
      right
      simp [left, arrived, rest, acked, none_, ended.1, ended.2]

/-- What nothing more can be delivered of is acknowledged, or unfinished and delivered. -/
theorem acked_of_deliver_eq (h : w.deliver = w) (finished : w.finished = true) : w.acked = true := by
  obtain ⟨x, flight, next, arrived, -⟩ | ⟨-, -, -, -, acked⟩ := w.deliver_cases
  · rw [h] at arrived
    exact absurd (congrArg List.length arrived) (by simp)
  · rw [h] at acked
    exact acked.trans finished

theorem left_drop_lt {connected : Bool} {x : α} (h : w.reading connected = .item x) : w.drop.left < w.left := by
  have read := congrArg List.length (arrived_of_item h)
  rw [List.length_cons] at read
  change 2 * w.flight.length + w.drop.arrived.length + (!w.acked).toNat < w.left
  rw [left]
  omega

end Wire
