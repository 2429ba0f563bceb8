import Mathlib.Data.Sym.Sym2.Order
import Mathlib.Data.String.Basic
import PeerBeam.Session.Resume

/-! Which tokens `verify` accepts: what the MAC covers, the binding, the validity window and the
single-use epoch. -/
namespace PeerBeam.Session

theorem saturatingAdd_toNat (a b : UInt64) :
    (saturatingAdd a b).toNat = min (a.toNat + b.toNat) (2 ^ 64 - 1) := by
  rw [saturatingAdd]
  cases sum : checkedAdd a b with
  | none =>
    have big := checkedAdd_eq_none.mp sum
    have top : (UInt64.ofNat (2 ^ 64 - 1)).toNat = 2 ^ 64 - 1 := rfl
    rw [Option.getD_none, top]
    omega
  | some c =>
    obtain ⟨fits, value⟩ := checkedAdd_eq_some.mp sum
    rw [Option.getD_some, value]
    omega

theorem deviceBytes_injective : Function.Injective deviceBytes := TextBytes.toUTF8_injective

theorem orderedPair_eq (a b : DeviceId) : orderedPair a b = (s(a, b).inf, s(a, b).sup) := by
  rw [orderedPair, Sym2.inf_mk, Sym2.sup_mk]
  split
  · next le => rw [inf_of_le_left le, sup_of_le_right le]
  · next gt =>
    have le : b ≤ a := le_of_not_ge gt
    rw [inf_of_le_right le, sup_of_le_left le]

/-- The canonical order forgets which id was named first, and nothing else. -/
theorem orderedPair_eq_iff {a b c d : DeviceId} : orderedPair a b = orderedPair c d ↔ s(a, b) = s(c, d) := by
  rw [orderedPair_eq, orderedPair_eq, Prod.mk.injEq, Sym2.inf_eq_inf_and_sup_eq_sup]

def ShortId (d : DeviceId) : Prop := (deviceBytes d).length < 256 ^ 4

instance (d : DeviceId) : Decidable (ShortId d) := inferInstanceAs (Decidable (_ < _))

namespace ResumeToken

/-- All fields the MAC covers are the same, but for the order of the two ids. -/
structure SameFields (t t' : ResumeToken) : Prop where
  sessionId : t.sessionId = t'.sessionId
  devices : s(t.local, t.peer) = s(t'.local, t'.peer)
  version : t.version = t'.version
  epoch : t.epoch = t'.epoch
  createdAtMs : t.createdAtMs = t'.createdAtMs
  expiresAtMs : t.expiresAtMs = t'.expiresAtMs

def swap (t : ResumeToken) : ResumeToken := { t with «local» := t.peer, peer := t.local }

theorem input_eq_of_sameFields {t t' : ResumeToken} (same : SameFields t t') : t.input = t'.input := by
  rw [input, input, macInput, macInput, orderedPair_eq_iff.mpr same.devices, same.sessionId, same.version,
    same.epoch, same.createdAtMs, same.expiresAtMs]

/-- The ordered ids of a token are its own two. -/
private theorem short_orderedPair {a b : DeviceId} (ha : ShortId a) (hb : ShortId b) :
    ShortId (orderedPair a b).1 ∧ ShortId (orderedPair a b).2 := by
  rw [orderedPair]
  split
  · exact ⟨ha, hb⟩
  · exact ⟨hb, ha⟩

/-- Every field has its own width or its length before it. -/
theorem input_injective {t t' : ResumeToken} (short : ShortId t.local ∧ ShortId t.peer)
    (short' : ShortId t'.local ∧ ShortId t'.peer) (h : t.input = t'.input) : SameFields t t' := by
  obtain ⟨lo, hi⟩ := short_orderedPair short.1 short.2
  obtain ⟨lo', hi'⟩ := short_orderedPair short'.1 short'.2
  obtain ⟨session, h⟩ := List.append_inj h (by simp)
  obtain ⟨first, h⟩ := BigEndian.append_framed_inj lo lo' h
  obtain ⟨second, h⟩ := BigEndian.append_framed_inj hi hi' h
  obtain ⟨major, h⟩ := BigEndian.append_write_inj t.version.major.toNat_lt t'.version.major.toNat_lt h
  obtain ⟨minor, h⟩ := BigEndian.append_write_inj t.version.minor.toNat_lt t'.version.minor.toNat_lt h
  obtain ⟨epoch, h⟩ := BigEndian.append_write_inj t.epoch.toNat_lt t'.epoch.toNat_lt h
  obtain ⟨created, h⟩ := BigEndian.append_write_inj t.createdAtMs.toNat_lt t'.createdAtMs.toNat_lt h
  have expires := BigEndian.write_injective t.expiresAtMs.toNat_lt t'.expiresAtMs.toNat_lt h
  have devices := Prod.ext (deviceBytes_injective first) (deviceBytes_injective second)
  exact {
    sessionId := Vector.toList_inj.mp session
    devices := orderedPair_eq_iff.mp devices
    version := by
      cases hv : t.version
      cases hv' : t'.version
      rw [hv, hv'] at major minor
      exact (Version.mk.injEq ..).mpr ⟨UInt16.toNat_inj.mp major, UInt16.toNat_inj.mp minor⟩
    epoch := UInt64.toNat_inj.mp epoch
    createdAtMs := UInt64.toNat_inj.mp created
    expiresAtMs := UInt64.toNat_inj.mp expires }

theorem input_eq_iff {t t' : ResumeToken} (short : ShortId t.local ∧ ShortId t.peer)
    (short' : ShortId t'.local ∧ ShortId t'.peer) : t.input = t'.input ↔ SameFields t t' :=
  ⟨input_injective short short', input_eq_of_sameFields⟩

section Verify
variable {hmac : Hmac} {t : ResumeToken} {key : Key} {expected : ResumeBinding} {now consumed : UInt64}

theorem verify_ok_iff : t.verify hmac key expected now consumed = .ok () ↔
    hmac key.toList t.input = t.mac ∧ t.sessionId = expected.sessionId ∧
      s(t.local, t.peer) = s(expected.local, expected.peer) ∧ t.version = expected.version ∧
      now < t.expiresAtMs ∧ consumed < t.epoch := by
  rw [← orderedPair_eq_iff, ← UInt64.not_le, ← UInt64.not_le, verify]
  constructor
  · intro h
    repeat' split at h
    all_goals try cases h
    next mac session devices version fresh unused =>
      exact ⟨not_not.mp mac, not_not.mp session, not_not.mp devices, not_not.mp version, fresh, unused⟩
  · rintro ⟨mac, session, devices, version, fresh, unused⟩
    rw [if_neg (not_not.mpr mac), if_neg (not_not.mpr session), if_neg (not_not.mpr devices),
      if_neg (not_not.mpr version), if_neg fresh, if_neg unused]

theorem verify_of_mac (mismatch : hmac key.toList t.input ≠ t.mac) :
    t.verify hmac key expected now consumed =
      .error (.resumeRejected "token MAC mismatch (tampered or forged)") :=
  if_pos mismatch

theorem verify_swap : t.swap.verify hmac key expected now consumed = t.verify hmac key expected now consumed := by
  have same : t.swap.input = t.input :=
    input_eq_of_sameFields ⟨rfl, Sym2.eq_swap, rfl, rfl, rfl, rfl⟩
  have devices : orderedPair t.swap.local t.swap.peer = orderedPair t.local t.peer :=
    orderedPair_eq_iff.mpr Sym2.eq_swap
  rw [verify, verify, same, devices]
  rfl

end Verify
end ResumeToken

def TellsApart (hmac : Hmac) (k k' : Key) (message message' : Bytes) : Prop :=
  hmac k.toList message = hmac k'.toList message' → k = k' ∧ message = message'

/-- A token with all that it takes to resume but the time: the key it was minted with, its fields as
they were minted, the binding the accepter expects, and an epoch not consumed yet. -/
structure Entitled (k k' : Key) (minted t : ResumeToken) (expected : ResumeBinding) (consumed : UInt64) :
    Prop where
  key : k = k'
  fields : minted.SameFields t
  sessionId : minted.sessionId = expected.sessionId
  devices : s(minted.local, minted.peer) = s(expected.local, expected.peer)
  version : minted.version = expected.version
  unused : consumed < minted.epoch

open ResumeToken in
theorem verify_minted_iff {hmac : Hmac} {k k' : Key} {minted t : ResumeToken} {expected : ResumeBinding}
    {now consumed : UInt64} (genuine : minted.mac = hmac k.toList minted.input)
    (short : ShortId minted.local ∧ ShortId minted.peer) (short' : ShortId t.local ∧ ShortId t.peer)
    (carried : t.mac = minted.mac) (apart : TellsApart hmac k k' minted.input t.input) :
    t.verify hmac k' expected now consumed = .ok () ↔
      Entitled k k' minted t expected consumed ∧ now < minted.expiresAtMs := by
  rw [verify_ok_iff]
  constructor
  · rintro ⟨mac, session, devices, version, fresh, unused⟩
    obtain ⟨key, input⟩ := apart (genuine.symm.trans (carried.symm.trans mac.symm))
    have fields := input_injective short short' input
    exact ⟨⟨key, fields, fields.sessionId.trans session, fields.devices.trans devices,
      fields.version.trans version, fields.epoch ▸ unused⟩, fields.expiresAtMs ▸ fresh⟩
  · rintro ⟨⟨rfl, fields, session, devices, version, unused⟩, fresh⟩
    refine ⟨?_, fields.sessionId.symm.trans session, fields.devices.symm.trans devices,
      fields.version.symm.trans version, fields.expiresAtMs ▸ fresh, fields.epoch ▸ unused⟩
    rw [← input_eq_of_sameFields fields, carried, genuine]

/-- Over every token that carries a minted MAC, acceptance is what it should be exactly where the token
is not used before it was created: `verify` looks at its expiry only. Whatever a field is changed to,
the MAC fails, and the two ids may be swapped. -/
theorem verify_exact_iff {hmac : Hmac} {k k' : Key} {binding expected : ResumeBinding}
    {epoch createdMs ttlMs now consumed : UInt64} {t : ResumeToken}
    (short : ShortId binding.local ∧ ShortId binding.peer) (short' : ShortId t.local ∧ ShortId t.peer)
    (carried : t.mac = (ResumeToken.mint hmac k binding epoch createdMs ttlMs).mac)
    (apart : TellsApart hmac k k' (ResumeToken.mint hmac k binding epoch createdMs ttlMs).input t.input) :
    let minted := ResumeToken.mint hmac k binding epoch createdMs ttlMs
    ((t.verify hmac k' expected now consumed = .ok () ↔ Entitled k k' minted t expected consumed ∧
        createdMs.toNat ≤ now.toNat ∧ now.toNat < min (createdMs.toNat + ttlMs.toNat) (2 ^ 64 - 1)) ↔
      (now < createdMs → ¬ Entitled k k' minted t expected consumed)) ∧
    (¬ minted.SameFields t → t.verify hmac k' expected now consumed =
      .error (.resumeRejected "token MAC mismatch (tampered or forged)")) ∧
    t.swap.verify hmac k' expected now consumed = t.verify hmac k' expected now consumed ∧
    (minted.input = t.input ↔ minted.SameFields t) := by
  intro minted
  have expiry : now < minted.expiresAtMs ↔ now.toNat < min (createdMs.toNat + ttlMs.toNat) (2 ^ 64 - 1) := by
    rw [UInt64.lt_iff_toNat_lt, ← saturatingAdd_toNat]
    rfl
  refine ⟨?_, ?_, ResumeToken.verify_swap, ResumeToken.input_eq_iff short short'⟩
  · rw [verify_minted_iff rfl short short' carried apart, expiry, UInt64.lt_iff_toNat_lt]
    constructor
    · intro exactly early entitled
      have lives : now.toNat < min (createdMs.toNat + ttlMs.toNat) (2 ^ 64 - 1) := by
        have bound := createdMs.toNat_lt
        omega
      exact absurd (exactly.mp ⟨entitled, lives⟩).2.1 (Nat.not_le.mpr early)
    · intro punctual
      refine and_congr_right fun entitled => ?_
      have started : createdMs.toNat ≤ now.toNat := Nat.not_lt.mp fun early => punctual early entitled
      exact (and_iff_right started).symm
  · intro altered
    apply ResumeToken.verify_of_mac
    intro mac
    exact altered (ResumeToken.input_injective short short' (apart (carried.symm.trans mac.symm)).2)

private def sumTag : Hmac := fun key message =>
  copyFromSlice 32 (BigEndian.write 32 (BigEndian.read (key ++ message)))

private def heldKey : Key := Vector.replicate 32 7

private def ownBinding : ResumeBinding := ⟨Vector.replicate 16 1, "device-me", "peer-a", ⟨1, 0⟩⟩

private theorem ownBinding_short : ShortId ownBinding.local ∧ ShortId ownBinding.peer := by decide +kernel

/-- A second before it runs out. -/
theorem token_accepted_in_time :
    let minted := ResumeToken.mint sumTag heldKey ownBinding 1 1000000 30000
    minted.swap.verify sumTag heldKey ownBinding 1029000 0 = .ok () := by
  intro minted
  have apart : TellsApart sumTag heldKey heldKey minted.input minted.input := fun _ => ⟨rfl, rfl⟩
  obtain ⟨exactly, -, swapped, -⟩ := @verify_exact_iff sumTag heldKey heldKey ownBinding ownBinding
    1 1000000 30000 1029000 0 minted ownBinding_short ownBinding_short rfl apart
  refine swapped.trans ((exactly.mpr fun early => absurd early (by decide)).mpr ⟨?_, by decide, by decide⟩)
  exact ⟨rfl, ⟨rfl, rfl, rfl, rfl, rfl, rfl⟩, rfl, rfl, rfl, by decide⟩

/-- A second before it was minted: the window is open at that end. -/
theorem token_accepted_before_created :
    let minted := ResumeToken.mint sumTag heldKey ownBinding 1 1000000 30000
    minted.verify sumTag heldKey ownBinding 999000 0 = .ok () ∧ 999000 < minted.createdAtMs :=
  ⟨ResumeToken.verify_ok_iff.mpr ⟨rfl, rfl, rfl, rfl, by decide, by decide⟩, by decide⟩

end PeerBeam.Session
