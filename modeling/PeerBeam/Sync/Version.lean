import Mathlib

/-! Version vectors: per-device edit counters of one file, and how two of them relate. -/
namespace PeerBeam.Sync
open Std

/-- How two versions of one file relate. -/
inductive Relation where
  | same
  | behind
  | ahead
  | diverged
  deriving DecidableEq, Repr

/-- The edits a file has seen, counted by device. -/
structure VersionVector where
  counters : ExtTreeMap String UInt64 compare

namespace VersionVector

instance : DecidableEq VersionVector := fun a b =>
  decidable_of_iff (a.counters = b.counters) ⟨fun h => by cases a; cases b; cases h; rfl, fun h => h ▸ rfl⟩

def new : VersionVector := ⟨∅⟩

def get (v : VersionVector) (device : String) : UInt64 := v.counters[device]?.getD 0

/-- Record one edit made by `device`. A counter at `u64::MAX` wraps, as it does in
a release build. -/
def bump (v : VersionVector) (device : String) : VersionVector :=
  ⟨v.counters.insert device (v.get device + 1)⟩

def merge (v other : VersionVector) : VersionVector :=
  ⟨other.counters.toList.foldl (fun out entry =>
    out.insert entry.1 (max (out[entry.1]?.getD 0) entry.2)) v.counters⟩

def devices (v other : VersionVector) : List String := v.counters.keys ++ other.counters.keys

def relate (v other : VersionVector) : Relation :=
  let selfHigher := (v.devices other).any fun device => other.get device < v.get device
  let otherHigher := (v.devices other).any fun device => v.get device < other.get device
  match selfHigher, otherHigher with
  | false, false => .same
  | true, false => .ahead
  | false, true => .behind
  | true, true => .diverged

@[simp] theorem get_new (device : String) : new.get device = 0 := by
  simp [get, new]

@[simp] theorem get_bump (v : VersionVector) (device other : String) :
    (v.bump device).get other = if device = other then v.get device + 1 else v.get other := by
  simp only [get, bump, ExtTreeMap.getElem?_insert, LawfulEqCmp.compare_eq_iff_eq]
  exact apply_ite (Option.getD · 0) ..

/-- A device neither side names counts zero on both. -/
theorem get_eq_zero {v : VersionVector} {device : String} (h : device ∉ v.counters.keys) :
    v.get device = 0 := by
  rw [ExtTreeMap.mem_keys] at h
  rw [get, ExtTreeMap.getElem?_eq_none h]
  rfl

/-- `v` has seen every edit that `other` has. -/
def Covers (v other : VersionVector) : Prop := ∀ device, other.get device ≤ v.get device

theorem any_lt_eq_false (v other : VersionVector) :
    ((v.devices other).any fun device => v.get device < other.get device) = false ↔ v.Covers other := by
  simp only [List.any_eq_false, decide_eq_true_eq, UInt64.not_lt]
  constructor
  · intro h device
    by_cases mem : device ∈ v.devices other
    · exact h device mem
    · have absent := fun side => mem (List.mem_append.mpr side)
      rw [get_eq_zero (fun h => absent (.inr h)), get_eq_zero (fun h => absent (.inl h))]
      exact UInt64.le_refl 0
  · exact fun h device _ => h device

theorem devices_any_comm (v other : VersionVector) (f : String → Bool) :
    (v.devices other).any f = (other.devices v).any f := by
  simp only [devices, List.any_append, Bool.or_comm]

instance (v other : VersionVector) : Decidable (v.Covers other) :=
  decidable_of_iff _ (any_lt_eq_false v other)

/-- The two comparisons of `relate`, as coverings. -/
theorem relate_eq (v other : VersionVector) :
    v.relate other = if v.Covers other then if other.Covers v then .same else .ahead
      else if other.Covers v then .behind else .diverged := by
  have low := any_lt_eq_false v other
  have high := any_lt_eq_false other v
  rw [devices_any_comm] at high
  unfold relate
  cases hl : (v.devices other).any fun device => v.get device < other.get device <;>
    cases hh : (v.devices other).any fun device => other.get device < v.get device <;>
    rw [hl] at low <;> rw [hh] at high <;>
    simp only [true_iff, false_iff, reduceCtorEq] at low high <;>
    simp only [low, high, if_true, if_false]

theorem relate_eq_behind {v other : VersionVector} :
    v.relate other = .behind ↔ ¬ v.Covers other ∧ other.Covers v := by
  rw [relate_eq]
  split <;> split <;> simp_all

/-- `v` has seen everything `other` has, and more. -/
def Dominates (v other : VersionVector) : Prop := v.Covers other ∧ ¬ other.Covers v

def Concurrent (v other : VersionVector) : Prop := ¬ v.Covers other ∧ ¬ other.Covers v

instance (v other : VersionVector) : Decidable (v.Dominates other) :=
  inferInstanceAs (Decidable (_ ∧ _))

instance (v other : VersionVector) : Decidable (v.Concurrent other) :=
  inferInstanceAs (Decidable (_ ∧ _))

theorem behind_iff_dominates {v other : VersionVector} : v.relate other = .behind ↔ other.Dominates v := by
  rw [relate_eq_behind]
  exact and_comm

theorem relate_eq_ahead {v other : VersionVector} : v.relate other = .ahead ↔ v.Dominates other := by
  rw [relate_eq, Dominates]
  split <;> split <;> simp_all

theorem relate_eq_diverged {v other : VersionVector} :
    v.relate other = .diverged ↔ v.Concurrent other := by
  rw [relate_eq, Concurrent]
  split <;> split <;> simp_all

theorem concurrent_comm {v other : VersionVector} : v.Concurrent other ↔ other.Concurrent v :=
  and_comm

/-- The vector of a device that cannot say what it changed is covered by every
other one. -/
theorem covers_new (v : VersionVector) : v.Covers new := by
  intro device
  rw [get_new]
  exact UInt64.zero_le

end VersionVector

end PeerBeam.Sync
