import PeerBeam.Notes.Sessions

/-! Convergence of note stores. Versions that stamps and deletion tell apart are merged alike in
every order; of two that they do not, the order of arrival decides. -/
namespace PeerBeam.Notes
open TransitionRun

def Untied (versions : Set Note) : Prop :=
  ∀ a ∈ versions, ∀ b ∈ versions, a.id = b.id → a.updatedAt = b.updatedAt →
    a.deleted = b.deleted → a = b

namespace NoteStore

def Within (s : NoteStore) (versions : Set Note) : Prop := ∀ n ∈ s.all, n ∈ versions

end NoteStore

namespace Delivery

/-- The handler's store takes the place of the old one, unless it returns an error. -/
def deliver (stores : DeviceId → NoteStore) (d : Delivery) : DeviceId → NoteStore :=
  match (stores d.device).handle d.permitted d.size d.batch with
  | .error _ => stores
  | .ok (s, _) => Function.update stores d.device s

theorem deliver_eq (stores : DeviceId → NoteStore) (d : Delivery) :
    deliver stores d =
      Function.update stores d.device ((stores d.device).mergeAll d.merged) := by
  rw [deliver, NoteStore.handle, merged]
  cases d.permitted with
  | false =>
    rw [if_neg Bool.false_ne_true, if_neg Bool.false_ne_true]
    rfl
  | true =>
    rw [if_pos rfl, if_pos rfl]
    cases d.batch.fromFrame d.size with
    | error e => exact (Function.update_eq_self d.device stores).symm
    | ok batch => rfl

end Delivery

/-- The versions a device has met: those it started with and those it merged. -/
def met (start : DeviceId → NoteStore) (run : List Delivery) (device : DeviceId) : Set Note :=
  {n | n ∈ (start device).all ∨ n ∈ (run.filter (·.device = device)).flatMap (·.merged)}

namespace NoteStore

end NoteStore

theorem Untied.mono {versions fewer : Set Note} (h : Untied versions) (sub : fewer ⊆ versions) :
    Untied fewer := fun a memA b memB => h a (sub memA) b (sub memB)

end PeerBeam.Notes
