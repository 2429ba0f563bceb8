import Mathlib.Data.BitVec
import Mathlib.Data.String.Basic

/-! A device's trust record: the pinned key, and what the user decided about the device. -/
namespace PeerBeam.Trust

abbrev DeviceId := String

inductive Permission where
  | files | chat | clipboard | presence | pipe | browse | notes
  deriving DecidableEq, Repr

/-- A bit position that is assigned once and never reused. -/
def Permission.slot : Permission → Nat
  | .files => 0
  | .chat => 1
  | .clipboard => 2
  | .presence => 3
  | .pipe => 4
  | .notes => 5
  | .browse => 6

def Permission.mask (p : Permission) : BitVec 32 := .twoPow 32 p.slot

structure PermissionSet where
  bits : BitVec 32
  deriving DecidableEq

namespace PermissionSet

def grantedOnApproval : PermissionSet :=
  ⟨Permission.files.mask ||| Permission.chat.mask ||| Permission.clipboard.mask |||
    Permission.presence.mask ||| Permission.pipe.mask⟩

def none : PermissionSet := ⟨0⟩

def grants (s : PermissionSet) (p : Permission) : Bool := s.bits &&& p.mask != 0

def set (s : PermissionSet) (p : Permission) (granted : Bool) : PermissionSet :=
  if granted then ⟨s.bits ||| p.mask⟩ else ⟨s.bits &&& ~~~p.mask⟩

def intersect (s t : PermissionSet) : PermissionSet := ⟨s.bits &&& t.bits⟩

theorem grants_eq (s : PermissionSet) (p : Permission) : s.grants p = s.bits.getLsbD p.slot := by
  have nonzero : BitVec.twoPow 32 p.slot ≠ 0 := by cases p <;> decide
  rw [grants, Permission.mask, BitVec.and_twoPow]
  split
  · next on => rw [on, bne_iff_ne.mpr nonzero]
  · next off => rw [Bool.eq_false_iff.mpr off]; rfl

@[simp] theorem grants_none (p : Permission) : none.grants p = false := by
  rw [grants_eq]
  exact BitVec.getLsbD_zero

@[simp] theorem grants_intersect (s t : PermissionSet) (p : Permission) :
    (s.intersect t).grants p = (s.grants p && t.grants p) := by
  simp only [grants_eq]
  exact BitVec.getLsbD_and

theorem grants_set (s : PermissionSet) (p q : Permission) (granted : Bool) :
    (s.set p granted).grants q = if q = p then granted else s.grants q := by
  have own : ∀ p : Permission, p.mask.getLsbD p.slot = true := by intro p; cases p <;> decide
  have other : q ≠ p → p.mask.getLsbD q.slot = false := by cases p <;> cases q <;> decide
  have bound : q.slot < 32 := by cases q <;> decide
  rw [grants_eq, grants_eq, set]
  by_cases same : q = p
  · subst same
    rw [if_pos rfl]
    cases granted
    · simp [own]
    · simp [own]
  · rw [if_neg same]
    cases granted
    · simp [BitVec.getLsbD_and, BitVec.getLsbD_not, bound, other same, -BitVec.getLsbD_eq_getElem]
    · simp [BitVec.getLsbD_or, other same, -BitVec.getLsbD_eq_getElem]

end PermissionSet

structure TrustRecord where
  device : DeviceId
  fingerprint : String
  name : String
  /-- Instants are nanoseconds. -/
  trustedAt : Int
  approved : Bool
  permissions : PermissionSet
  expiresAt : Option Int
  mine : Bool
  autoAccept : Bool
  deriving DecidableEq

namespace TrustRecord

def hasExpired (r : TrustRecord) (now : Int) : Bool := r.expiresAt.any fun deadline => deadline ≤ now

def isApprovedAt (r : TrustRecord) (now : Int) : Bool := r.approved && !r.hasExpired now

def effectivePermissionsAt (r : TrustRecord) (now : Int) : PermissionSet :=
  if r.isApprovedAt now then r.permissions else .none

end TrustRecord

/-- What a lookup in the trust store answers: an error, or the record there may be. -/
abbrev Lookup := Option (Option TrustRecord)

def isApproved (l : Lookup) (now : Int) : Bool :=
  match l with
  | some (some r) => r.isApprovedAt now
  | _ => false

def may (l : Lookup) (now : Int) (p : Permission) : Bool :=
  match l with
  | some (some r) => (r.effectivePermissionsAt now).grants p
  | _ => false

/-- A permission presupposes approval. -/
theorem isApproved_of_may {l : Lookup} {now : Int} {p : Permission} (h : may l now p = true) :
    isApproved l now = true := by
  match l with
  | some (some r) =>
    by_contra unapproved
    have unapproved : r.isApprovedAt now = false := Bool.not_eq_true _ ▸ unapproved
    simp [may, TrustRecord.effectivePermissionsAt, unapproved] at h
  | some none => cases h
  | none => cases h

end PeerBeam.Trust
