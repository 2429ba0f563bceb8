import PeerBeam.Lib.KeyedFold
import PeerBeam.Lib.SortedMap
import PeerBeam.Sync.Version

/-! A version vector stands for a function from devices to counters: comparing two vectors
follows the pointwise order of these functions and merging is their join. An edit goes up in
that order, unless the counter of its device is full. -/
namespace PeerBeam.Sync
open Std (ExtTreeMap)

namespace Relation

def mirror : Relation → Relation
  | .same => .same
  | .behind => .ahead
  | .ahead => .behind
  | .diverged => .diverged

end Relation

namespace VersionVector

/-- Every device's counter. A device that is not named counts zero. -/
def counts (v : VersionVector) (device : String) : ℕ := (v.get device).toNat

theorem covers_iff_counts {v other : VersionVector} : v.Covers other ↔ other.counts ≤ v.counts :=
  forall_congr' fun _ => UInt64.le_iff_toNat_le

theorem relate_same_iff {v other : VersionVector} :
    v.relate other = .same ↔ v.counts = other.counts := by
  have unfolded : v.relate other = .same ↔ v.Covers other ∧ other.Covers v := by
    rw [relate_eq]
    split <;> split <;> simp_all
  rw [unfolded, covers_iff_counts, covers_iff_counts]
  constructor
  · intro ⟨ge, le⟩
    exact le_antisymm le ge
  · intro same
    exact ⟨same.ge, same.le⟩

theorem relate_ahead_iff {v other : VersionVector} :
    v.relate other = .ahead ↔ other.counts < v.counts := by
  rw [relate_eq_ahead, Dominates, covers_iff_counts, covers_iff_counts]
  exact lt_iff_le_not_ge.symm

theorem relate_behind_iff {v other : VersionVector} :
    v.relate other = .behind ↔ v.counts < other.counts := by
  rw [behind_iff_dominates, Dominates, covers_iff_counts, covers_iff_counts]
  exact lt_iff_le_not_ge.symm

theorem relate_diverged_iff {v other : VersionVector} :
    v.relate other = .diverged ↔ ¬ v.counts ≤ other.counts ∧ ¬ other.counts ≤ v.counts := by
  rw [relate_eq_diverged, Concurrent, covers_iff_counts, covers_iff_counts]
  exact and_comm

theorem relate_mirror (v other : VersionVector) : other.relate v = (v.relate other).mirror := by
  cases h : v.relate other with
  | same => exact relate_same_iff.mpr (relate_same_iff.mp h).symm
  | behind => exact relate_ahead_iff.mpr (relate_behind_iff.mp h)
  | ahead => exact relate_behind_iff.mpr (relate_ahead_iff.mp h)
  | diverged => exact relate_diverged_iff.mpr (relate_diverged_iff.mp h).symm

theorem toNat_max (a b : UInt64) : (max a b).toNat = max a.toNat b.toNat := by
  change (if a ≤ b then b else a).toNat = _
  split
  · next le => exact (max_eq_right (UInt64.le_iff_toNat_le.mp le)).symm
  · next not_le => exact (max_eq_left (Nat.le_of_not_le fun le =>
      not_le (UInt64.le_iff_toNat_le.mpr le))).symm

instance : Std.Commutative (max : UInt64 → UInt64 → UInt64) where
  comm a b := by
    apply UInt64.toNat_inj.mp
    rw [toNat_max, toNat_max, max_comm]

instance : Std.Associative (max : UInt64 → UInt64 → UInt64) where
  assoc a b c := by
    apply UInt64.toNat_inj.mp
    rw [toNat_max, toNat_max, toNat_max, toNat_max, max_assoc]

instance : Std.IdempotentOp (max : UInt64 → UInt64 → UInt64) where
  idempotent a := by
    apply UInt64.toNat_inj.mp
    rw [toNat_max, max_self]

/-- The slot of one device, in the loop of `merge`. -/
private def lift (out : ExtTreeMap String UInt64 compare) (entry : String × UInt64) :
    ExtTreeMap String UInt64 compare :=
  out.insert entry.1 (max (out[entry.1]?.getD 0) entry.2)

private theorem lift_local : KeyedFold.Local lift Prod.fst fun out device => out[device]? := by
  intro out entry device differ
  exact (SortedMap.get_insert ..).trans (if_neg differ)

/-- Merging works device by device: where both sides name it the higher counter stays. -/
theorem counters_merge (v other : VersionVector) (device : String) :
    (v.merge other).counters[device]? =
      Option.merge max v.counters[device]? other.counters[device]? := by
  change (other.counters.toList.foldl lift v.counters)[device]? = _
  cases named : other.counters[device]? with
  | none =>
    rw [Option.merge_none_right]
    refine KeyedFold.look_of_absent lift_local _ fun entry mem same => ?_
    have held := ExtTreeMap.mem_toList_iff_getElem?_eq_some.mp
      (show (entry.1, entry.2) ∈ other.counters.toList from mem)
    rw [same, named] at held
    cases held
  | some count =>
    obtain ⟨out, begun, ended⟩ := KeyedFold.look_of_mem lift_local v.counters
      (SortedMap.distinct_toList other.counters)
      (ExtTreeMap.mem_toList_iff_getElem?_eq_some.mpr named)
    rw [ended, lift, SortedMap.get_insert, if_pos rfl, begun]
    cases v.counters[device]? with
    | none =>
      refine congrArg some (UInt64.toNat_inj.mp ?_)
      rw [toNat_max]
      exact max_eq_right (Nat.zero_le _)
    | some held => rfl

theorem counts_merge (v other : VersionVector) : (v.merge other).counts = v.counts ⊔ other.counts := by
  funext device
  rw [Pi.sup_apply, counts, counts, counts, get, get, get, counters_merge]
  cases v.counters[device]? with
  | none =>
    rw [Option.merge_none_left]
    exact (max_eq_right (Nat.zero_le _)).symm
  | some count =>
    cases other.counters[device]? with
    | none => exact (max_eq_left (Nat.zero_le _)).symm
    | some held => exact toNat_max count held

theorem ext_counters {v other : VersionVector}
    (same : ∀ device : String, v.counters[device]? = other.counters[device]?) : v = other := by
  cases v
  cases other
  exact congrArg VersionVector.mk (ExtTreeMap.ext_getElem? same)

theorem merge_comm (v other : VersionVector) : v.merge other = other.merge v := by
  apply ext_counters
  intro device
  rw [counters_merge, counters_merge]
  exact Std.Commutative.comm ..

theorem merge_assoc (a b c : VersionVector) : (a.merge b).merge c = a.merge (b.merge c) := by
  apply ext_counters
  intro device
  rw [counters_merge, counters_merge, counters_merge, counters_merge]
  exact Std.Associative.assoc ..

theorem merge_self (v : VersionVector) : v.merge v = v := by
  apply ext_counters
  intro device
  rw [counters_merge]
  exact Std.IdempotentOp.idempotent _

theorem counters_bump (v : VersionVector) (device other : String) (differ : device ≠ other) :
    (v.bump device).counters[other]? = v.counters[other]? := by
  rw [bump, SortedMap.get_insert, if_neg differ]

theorem counts_bump_of_lt {v : VersionVector} {device : String}
    (room : v.counts device + 1 < UInt64.size) (other : String) :
    (v.bump device).counts other = if device = other then v.counts device + 1 else v.counts other := by
  rw [counts, get_bump]
  split
  · exact (UInt64.toNat_add ..).trans (Nat.mod_eq_of_lt room)
  · rfl

/-- The edit after the last one a counter can hold sets it back to zero. -/
theorem counts_bump_of_full {v : VersionVector} {device : String}
    (full : v.counts device + 1 = UInt64.size) (other : String) :
    (v.bump device).counts other = if device = other then 0 else v.counts other := by
  rw [counts, get_bump]
  split
  · refine (UInt64.toNat_add ..).trans ?_
    change (v.counts device + 1) % UInt64.size = 0
    rw [full, Nat.mod_self]
  · rfl

theorem bump_ahead {v : VersionVector} {device : String} (room : v.counts device + 1 < UInt64.size) :
    (v.bump device).relate v = .ahead := by
  rw [relate_ahead_iff, Pi.lt_def]
  refine ⟨fun other => ?_, device, ?_⟩
  · rw [counts_bump_of_lt room]
    split
    · next same => exact same ▸ Nat.le_succ _
    · exact le_rfl
  · rw [counts_bump_of_lt room, if_pos rfl]
    exact Nat.lt_succ_self _

theorem bump_behind {v : VersionVector} {device : String} (full : v.counts device + 1 = UInt64.size) :
    (v.bump device).relate v = .behind := by
  rw [relate_behind_iff, Pi.lt_def]
  refine ⟨fun other => ?_, device, ?_⟩
  · rw [counts_bump_of_full full]
    split
    · exact Nat.zero_le _
    · exact le_rfl
  · rw [counts_bump_of_full full, if_pos rfl]
    apply Nat.pos_of_ne_zero
    intro zero
    rw [zero] at full
    exact absurd full (by decide)

/-- What the sync decisions take for granted of any three vectors. -/
structure OrderLaws (a b c : VersionVector) : Prop where
  same : a.relate b = .same ↔ a.counts = b.counts
  ahead : a.relate b = .ahead ↔ b.counts < a.counts
  behind : a.relate b = .behind ↔ a.counts < b.counts
  diverged : a.relate b = .diverged ↔ ¬ a.counts ≤ b.counts ∧ ¬ b.counts ≤ a.counts
  mirror : b.relate a = (a.relate b).mirror
  trans : a.relate b ∈ [.same, .behind] → b.relate c ∈ [.same, .behind] →
    a.relate c ∈ [.same, .behind]
  upper : a.relate (a.merge b) ∈ [.same, .behind] ∧ b.relate (a.merge b) ∈ [.same, .behind]
  least : a.relate c ∈ [.same, .behind] → b.relate c ∈ [.same, .behind] →
    (a.merge b).relate c ∈ [.same, .behind]
  comm : a.merge b = b.merge a
  assoc : (a.merge b).merge c = a.merge (b.merge c)
  idem : a.merge a = a

theorem relate_le_iff {v other : VersionVector} :
    v.relate other ∈ [.same, .behind] ↔ v.counts ≤ other.counts := by
  rw [List.mem_pair, relate_same_iff, relate_behind_iff]
  exact le_iff_eq_or_lt.symm

theorem order_laws (a b c : VersionVector) : OrderLaws a b c where
  same := relate_same_iff
  ahead := relate_ahead_iff
  behind := relate_behind_iff
  diverged := relate_diverged_iff
  mirror := relate_mirror a b
  trans := by
    simp only [relate_le_iff]
    exact le_trans
  upper := by
    simp only [relate_le_iff, counts_merge]
    exact ⟨le_sup_left, le_sup_right⟩
  least := by
    simp only [relate_le_iff, counts_merge]
    exact sup_le
  comm := merge_comm a b
  assoc := merge_assoc a b c
  idem := merge_self a

/-- The vectors are ordered as their counters are and `merge` joins them; an edit of `device` goes
ahead, and changes nothing else, exactly where its counter is not full. -/
theorem vectors_ordered_iff (a b c : VersionVector) (device : String) :
    OrderLaws a b c ∧
      ((a.bump device).relate a = .ahead ∧
        (∀ other : String, other ≠ device → (a.bump device).counters[other]? = a.counters[other]?) ↔
      a.counts device + 1 < UInt64.size) := by
  refine ⟨order_laws a b c, fun climbs => ?_, fun room => ?_⟩
  · by_contra full
    have held := (a.get device).toNat_lt_size
    have last : a.counts device + 1 = UInt64.size := by
      rw [counts] at full ⊢
      omega
    rw [bump_behind last] at climbs
    cases climbs.1
  · exact ⟨bump_ahead room, fun other differ => counters_bump a device other differ.symm⟩

/-- An edit at `u64::MAX` falls behind the vector it was made on. -/
theorem bump_at_max_behind :
    let full : VersionVector := ⟨ExtTreeMap.empty.insert "pb-a" 18446744073709551615⟩
    (full.bump "pb-a").relate full = .behind := by
  apply bump_behind
  rfl

end VersionVector

end PeerBeam.Sync
