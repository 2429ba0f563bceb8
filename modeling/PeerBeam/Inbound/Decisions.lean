import PeerBeam.Inbound.Endings

/-! Every transfer ends once, and a decision reaches the transfer it was made for. The prompt is put under its id
only after it was announced, the registry lets go of an id before the prompt under it is gone, and a task that was
cancelled does not look again before it speaks. -/
namespace PeerBeam.Inbound
open Trust (DeviceId Records)
open Transfer (Path TransferPreview TransferSession)

def Phase.undecided : Phase → Bool
  | .queued .prompt false | .waiting .asked => true
  | _ => false

namespace Manager
variable {s : Manager}

def decision (s : Manager) : Event → Option (String × AcceptDecision)
  | .reject id => some (id, .reject)
  | .go k _ =>
    match s.calls[k]? with
    | some (.accept id d) => some (id, d)
    | _ => none
  | _ => none

/-- A decision on a registered transfer that waits for one becomes that transfer's, and no other's. -/
def Resolves (s : Manager) (event : Event) : Prop :=
  ∀ (id : String) (d : AcceptDecision), s.decision event = some (id, d) → ∀ (t : Nat) (task : Task),
    s.active id = some t → s.tasks[t]? = some task → task.phase.undecided = true →
      (s.step event).tasks = s.tasks.set t { task with phase := .waiting (.answered d) }

/-- The terminal event comes at most once, has come when the task is done and no `cancel` is still to announce it,
and can always be reached. -/
def EndsOnce (s : Manager) : Prop :=
  ∀ (t : Nat) (task : Task), s.tasks[t]? = some task → task.phase.known = true →
    s.ended t ≤ 1 ∧ (task.phase = .done → (∀ call ∈ s.calls, call.ends ≠ some t) → s.ended t = 1) ∧ s.Finishes t

/-- Transfers end once, are silent then, and are decided as the user said. -/
structure Settles (s : Manager) (event : Event) : Prop where
  once : s.EndsOnce
  quiet : s.Quiet
  resolves : s.Resolves event

/-- No decision comes between a prompt's announcement and its insertion. -/
def InTime (s : Manager) (event : Event) : Prop :=
  match s.decision event with
  | some (id, _) => ∀ task ∈ s.tasks, task.id = id → task.phase ≠ .queued .prompt false
  | none => True

instance (s : Manager) (event : Event) : Decidable (s.InTime event) := by
  unfold InTime
  split <;> infer_instance

def Orderly (s : Manager) (event : Event) : Prop := s.Reuse event ∧ s.Current event ∧ s.InTime event

instance (s : Manager) (event : Event) : Decidable (s.Orderly event) := inferInstanceAs (Decidable (_ ∧ _ ∧ _))

def offer : TransferPreview := ⟨"x", "f".toList, 5, false⟩

/-- Bob is met, offers a file, and the user is asked about it. -/
def asking : List Event :=
  [.lookup "bob" "key" "Bob", .pin 0 0, .register 0 offer "1-0", .mark 0, .announce 0 0]

end Manager
end PeerBeam.Inbound
