import PeerBeam.Devices.Replica
import PeerBeam.Lib.KeyedFold

/-! The change stream over whole runs of the store: when a replica shows exactly the snapshot, and
what it shows in any case. -/
namespace PeerBeam.Devices

namespace Tracks
variable {s : DeviceStore} {r : Replica}

theorem own (h : Tracks s r) {id : DeviceId} {e : Entry} (known : s.devices.lookup id = some e) :
    e.device.id = id := by
  obtain ⟨m, _, follows⟩ := h.view known
  exact follows.own

theorem mem_snapshot {m : ManagedDevice} :
    m ∈ s.snapshot ↔ ∃ id e, s.devices.lookup id = some e ∧ s.toManaged e = m := by
  rw [DeviceStore.snapshot, List.mem_mergeSort, List.mem_map]
  constructor
  · rintro ⟨⟨id, e⟩, mem, rfl⟩
    exact ⟨id, e, AList.mem_lookup_iff.mpr mem, rfl⟩
  · rintro ⟨id, e, known, rfl⟩
    exact ⟨⟨id, e⟩, AList.mem_lookup_iff.mp known, rfl⟩

theorem nodup_snapshot (h : Tracks s r) : (s.snapshot.map (·.device.id)).Nodup := by
  have perm : (s.snapshot.map (·.device.id)).Perm s.devices.keys := by
    refine ((List.mergeSort_perm _ _).map _).trans (List.Perm.of_eq ?_)
    rw [AList.keys, List.keys, List.map_map]
    apply List.map_congr_left
    intro entry mem
    exact h.own (AList.mem_lookup_iff.mpr mem)
  exact perm.nodup_iff.mpr s.devices.keys_nodup

theorem find_snapshot (h : Tracks s r) (id : DeviceId) :
    s.snapshot.find? (·.device.id = id) = (s.devices.lookup id).map s.toManaged := by
  have only : ∀ m ∈ s.snapshot, m.device.id = id →
      (s.devices.lookup id).map s.toManaged = some m := by
    intro m mem same
    obtain ⟨id', e, known, rfl⟩ := mem_snapshot.mp mem
    have : id' = id := (h.own known).symm.trans same
    rw [← this, known]
    rfl
  cases found : s.snapshot.find? (·.device.id = id) with
  | some m =>
    exact (only m (List.mem_of_find?_eq_some found) (by simpa using List.find?_some found)).symm
  | none =>
    rw [List.find?_eq_none] at found
    cases known : s.devices.lookup id with
    | none => rfl
    | some e =>
      have absent := found (s.toManaged e) (mem_snapshot.mpr ⟨id, e, known, rfl⟩)
      simp [DeviceStore.toManaged, h.own known] at absent

/-- A replica in step mirrors the snapshot as soon as each view does what is asked of it. -/
theorem mirrors_iff (h : Tracks s r) {same : ManagedDevice → ManagedDevice → Prop} :
    Mirrors same r s.snapshot ↔
      ∀ id e m, s.devices.lookup id = some e → r id = some m → same m (s.toManaged e) := by
  constructor
  · intro mirrored id e m known seen
    have rel := mirrored.2 id
    rw [h.find_snapshot, known, seen] at rel
    cases rel with
    | some shown => exact shown
  · intro each
    refine ⟨h.nodup_snapshot, fun id => ?_⟩
    rw [h.find_snapshot]
    have rel := h.follows id
    cases known : s.devices.lookup id with
    | none =>
      rw [known] at rel
      cases seen : r id with
      | none => exact .none
      | some m => rw [seen] at rel; cases rel
    | some e =>
      obtain ⟨m, seen, _⟩ := h.view known
      rw [seen]
      exact .some (each id e m known seen)

theorem sameState {id : DeviceId} {e : Entry} {m : ManagedDevice}
    (follows : Follows s.capabilitiesFor id e m) : m.SameState (s.toManaged e) :=
  ⟨follows.identity, follows.online, follows.latency⟩

theorem mirrors_online (h : Tracks s r) :
    Mirrors ManagedDevice.SameWhileOnline r s.snapshot := by
  apply h.mirrors_iff.mpr
  intro id e m known seen
  obtain ⟨m', seen', follows⟩ := h.view known
  obtain rfl : m = m' := Option.some.inj (seen.symm.trans seen')
  exact ⟨sameState follows, follows.current⟩

end Tracks

def AllOnline (s : DeviceStore) : Prop := ∀ id e, s.devices.lookup id = some e → e.online = true

/-- The replica is exact just while no device is offline: nothing tells it that an offline
device has lost its capabilities. -/
theorem Tracks.mirrors_iff_allOnline {s : DeviceStore} {r : Replica} (h : Tracks s r) :
    Mirrors ManagedDevice.SameShown r s.snapshot ↔ AllOnline s := by
  rw [h.mirrors_iff]
  constructor
  · intro each id e known
    obtain ⟨m, seen, follows⟩ := h.view known
    by_contra off
    have off : e.online = false := Bool.not_eq_true _ ▸ off
    have unclaimed : e.providers = ∅ := by
      rw [← Finset.not_nonempty_iff_eq_empty, ← follows.claimed, off]
      exact Bool.false_ne_true
    apply follows.outdated off
    rw [(each id e m known seen).capabilities]
    show (s.capabilitiesFor e.providers).providers = []
    rw [unclaimed, DeviceStore.capabilitiesFor_providers, Finset.sort_empty]
  · intro online id e m known seen
    obtain ⟨m', seen', follows⟩ := h.view known
    obtain rfl : m = m' := Option.some.inj (seen.symm.trans seen')
    exact ⟨Tracks.sameState follows, follows.current (online id e known)⟩

/-- The condition on an operation: no device loses its last claim. A lost device keeps the claim
of a provider other than the one that lost it, and of one that crosses subnets if that one did
not; nobody is online when discovery stops. -/
def KeepsAClaim (w : Watched) : Op → Prop
  | .observe provider (.lost id) => ∀ e, w.store.devices.lookup id = some e →
      ∃ p ∈ e.providers, p ≠ provider ∧ (w.store.isLan provider = true → w.store.crosses p = true)
  | .offlineAll _ => ∀ id e, w.store.devices.lookup id = some e → e.online = false
  | _ => True

namespace DeviceStore
variable {s : DeviceStore}

theorem remaining_nonempty_iff {provider : ProviderId} {providers : Finset ProviderId} :
    (s.remaining provider providers).Nonempty ↔
      ∃ p ∈ providers, p ≠ provider ∧ (s.isLan provider = true → s.crosses p = true) := by
  unfold remaining
  constructor
  · rintro ⟨p, mem⟩
    split at mem
    · next lan =>
      obtain ⟨rest, crossing⟩ := Finset.mem_filter.mp mem
      obtain ⟨other, claim⟩ := Finset.mem_erase.mp rest
      exact ⟨p, claim, other, fun _ => crossing⟩
    · next notLan =>
      obtain ⟨other, claim⟩ := Finset.mem_erase.mp mem
      exact ⟨p, claim, other, fun lan => absurd lan notLan⟩
  · rintro ⟨p, claim, other, crossing⟩
    refine ⟨p, ?_⟩
    split
    · next lan => exact Finset.mem_filter.mpr ⟨Finset.mem_erase.mpr ⟨other, claim⟩, crossing lan⟩
    · exact Finset.mem_erase.mpr ⟨other, claim⟩

theorem AllOnline.setEntry (h : AllOnline s) (id : DeviceId) {e : Entry} (online : e.online = true) :
    AllOnline (s.setEntry id e) := by
  intro id' e' known
  rw [lookup_setEntry] at known
  split at known
  · rw [← Option.some.inj known]
    exact online
  · exact h id' e' known

theorem upsert_allOnline (h : AllOnline s) (provider : ProviderId) (device : Device) :
    AllOnline (s.upsert provider device).1 := by
  rcases s.upsert_cases provider device with full | ⟨_, _, new⟩ | ⟨e, _, again⟩
  · rw [full]
    exact h
  · rw [new]
    exact AllOnline.setEntry h _ rfl
  · rw [again]
    exact AllOnline.setEntry h _ rfl

theorem dropProvider_allOnline (h : AllOnline s) (provider : ProviderId) (id : DeviceId) :
    AllOnline (s.dropProvider provider id).1 ↔ ∀ e, s.devices.lookup id = some e →
      (s.remaining provider e.providers).Nonempty := by
  rcases s.dropProvider_cases provider id with ⟨unknown, same⟩ | ⟨e, known, ⟨empty, out⟩ | ⟨claims, left⟩⟩
  · rw [same, unknown]
    exact iff_of_true h fun e absent => by cases absent
  · rw [out, known]
    constructor
    · intro online
      have off := online id _ (by rw [lookup_setEntry, if_pos rfl])
      cases off
    · intro claims
      have claims := claims e rfl
      rw [empty] at claims
      exact absurd claims Finset.not_nonempty_empty
  · rw [left, known]
    refine iff_of_true (AllOnline.setEntry h id (h id e known)) fun e' same => ?_
    rw [← Option.some.inj same]
    exact claims

private def withdrawn (e : Entry) : Entry :=
  if e.online then { e with online := false, providers := ∅ } else e

private theorem withdrawn_online (e : Entry) : (withdrawn e).online = false := by
  unfold withdrawn
  split
  · rfl
  · next off => exact Bool.not_eq_true _ ▸ off

/-- One turn of the loop touches no other device. -/
private theorem lookup_offlineOne (acc : DeviceStore × List DeviceChange) (id id' : DeviceId) :
    (offlineOne acc id).1.devices.lookup id' =
      if id' = id then (acc.1.devices.lookup id').map withdrawn else acc.1.devices.lookup id' := by
  by_cases same : id' = id
  · subst same
    rw [if_pos rfl]
    unfold offlineOne
    cases known : acc.1.devices.lookup id' with
    | none => exact known
    | some e =>
      by_cases on : e.online = true
      · simp only [on, if_true, lookup_setEntry, Option.map_some, withdrawn]
      · simp only [on, if_false, known, Option.map_some, withdrawn, Bool.false_eq_true]
  · rw [if_neg same]
    unfold offlineOne
    split
    · rfl
    · split
      · rw [lookup_setEntry, if_neg same]
      · rfl

/-- Stopping discovery takes every flag down. -/
theorem offlineAll_offline {iter : IterOrder} {id : DeviceId} {e : Entry}
    (known : (s.offlineAll iter).1.devices.lookup id = some e) : e.online = false := by
  have isLocal : KeyedFold.Local offlineOne (fun id : DeviceId => id)
      (fun (acc : DeviceStore × List DeviceChange) id => acc.1.devices.lookup id) := by
    intro acc i k other
    show (offlineOne acc i).1.devices.lookup k = acc.1.devices.lookup k
    rw [lookup_offlineOne, if_neg (Ne.symm other)]
  have perm := iter.perm s.devices.keys
  have distinct : (iter.order s.devices.keys).Pairwise (· ≠ ·) :=
    perm.nodup_iff.mpr s.devices.keys_nodup
  by_cases tracked : id ∈ iter.order s.devices.keys
  · obtain ⟨acc, _, ended⟩ := KeyedFold.look_of_mem isLocal (s, []) distinct tracked
    have ended : some e = (acc.1.devices.lookup id).map withdrawn := by
      rw [← known, offlineAll, ended, lookup_offlineOne, if_pos rfl]
    obtain ⟨e₀, _, rfl⟩ := Option.map_eq_some_iff.mp ended.symm
    exact withdrawn_online e₀
  · have kept := KeyedFold.look_of_absent isLocal (s, []) (k := id) fun i mem same =>
      tracked (same ▸ mem)
    have untracked : s.devices.lookup id = none :=
      AList.lookup_eq_none.mpr fun mem => tracked (perm.mem_iff.mpr (AList.mem_keys.mp mem))
    have : (s.offlineAll iter).1.devices.lookup id = none := kept.trans untracked
    rw [known] at this
    cases this

/-- Stopping discovery forgets nobody. -/
theorem tracked_offlineAll (iter : IterOrder) (id : DeviceId) :
    ((s.offlineAll iter).1.devices.lookup id).isSome = (s.devices.lookup id).isSome := by
  apply KeyedFold.foldl_unchanged
    (fun acc : DeviceStore × List DeviceChange => (acc.1.devices.lookup id).isSome)
  intro i _ acc
  rw [lookup_offlineOne]
  split <;> simp

/-- What `prune` leaves of a device. -/
theorem lookup_prune (iter : IterOrder) (now ttl : Int) (keep : DeviceId → Bool) (id : DeviceId) :
    (s.prune iter now ttl keep).1.devices.lookup id =
      if s.stale now ttl keep id then none else s.devices.lookup id := by
  have isLocal : KeyedFold.Local removeOne (fun id : DeviceId => id)
      (fun (acc : DeviceStore × List DeviceChange) id => acc.1.devices.lookup id) := by
    intro acc i k other
    exact AList.lookup_erase_ne (Ne.symm other)
  have perm := iter.perm s.devices.keys
  have distinct : ((iter.order s.devices.keys).filter (s.stale now ttl keep)).Pairwise (· ≠ ·) :=
    (perm.nodup_iff.mpr s.devices.keys_nodup).filter _
  split
  · next stale =>
    have tracked : id ∈ s.devices.keys := by
      rw [← AList.mem_keys, ← AList.lookup_isSome]
      unfold DeviceStore.stale at stale
      split at stale
      · cases stale
      · next known => rw [known]; rfl
    have mem : id ∈ (iter.order s.devices.keys).filter (s.stale now ttl keep) :=
      List.mem_filter.mpr ⟨perm.mem_iff.mpr tracked, stale⟩
    obtain ⟨acc, _, ended⟩ := KeyedFold.look_of_mem isLocal (s, []) distinct mem
    exact ended.trans (AList.lookup_erase ..)
  · next fresh =>
    apply KeyedFold.look_of_absent isLocal (s, [])
    rintro i mem rfl
    exact fresh (List.mem_filter.mp mem).2

end DeviceStore

namespace DeviceStore
variable {s : DeviceStore}

theorem upsert_genuine (provider : ProviderId) (device : Device) :
    Genuine s (s.upsert provider device).2 := by
  intro id online mem
  rcases s.upsert_cases provider device with full | ⟨_, _, new⟩ | ⟨e, known, again⟩
  · rw [full] at mem
    cases mem
  · rw [new] at mem
    cases List.mem_singleton.mp mem
  · rw [again] at mem
    rcases List.mem_append.mp mem with status | update
    · split at status
      · cases status
      · next off =>
        cases List.mem_singleton.mp status
        exact ⟨e, known, by simpa using off⟩
    · split at update
      · cases List.mem_singleton.mp update
      · cases update

/-- A status change that takes a flag down is about a tracked device. -/
theorem dropProvider_status {provider : ProviderId} {id id' : DeviceId} {online : Bool}
    (mem : .statusChanged id' online ∈ (s.dropProvider provider id).2) :
    online = false ∧ ∃ e, s.devices.lookup id' = some e := by
  rcases s.dropProvider_cases provider id with ⟨_, same⟩ | ⟨e, known, ⟨_, out⟩ | ⟨_, left⟩⟩
  · rw [same] at mem
    cases mem
  · rw [out] at mem
    cases List.mem_singleton.mp mem
    exact ⟨rfl, e, known⟩
  · rw [left] at mem
    cases List.mem_singleton.mp mem

theorem offlineAll_status {iter : IterOrder} {id : DeviceId} {online : Bool}
    (mem : .statusChanged id online ∈ (s.offlineAll iter).2) :
    online = false ∧ ∃ e, s.devices.lookup id = some e := by
  -- The loop only reports ids it was given, and these are the tracked ones.
  have reported : ∀ ids : List DeviceId, ∀ acc : DeviceStore × List DeviceChange,
      .statusChanged id online ∈ (ids.foldl offlineOne acc).2 →
      .statusChanged id online ∈ acc.2 ∨ (online = false ∧ id ∈ ids) := by
    intro ids
    induction ids with
    | nil => intro acc mem; exact .inl mem
    | cons i ids ih =>
      intro acc mem
      rcases ih _ mem with before | ⟨down, later⟩
      · unfold offlineOne at before
        split at before
        · exact .inl before
        · split at before
          · rcases List.mem_append.mp before with old | new
            · exact .inl old
            · cases List.mem_singleton.mp new
              exact .inr ⟨rfl, List.mem_cons_self⟩
          · exact .inl before
      · exact .inr ⟨down, List.mem_cons_of_mem _ later⟩
  rcases reported _ _ mem with start | ⟨down, visited⟩
  · cases start
  · have tracked : id ∈ s.devices := AList.mem_keys.mpr ((iter.perm _).mem_iff.mp visited)
    exact ⟨down, Option.isSome_iff_exists.mp (AList.lookup_isSome.mpr tracked)⟩

theorem prune_no_status {iter : IterOrder} {now ttl : Int} {keep : DeviceId → Bool} {id : DeviceId}
    {online : Bool} : .statusChanged id online ∉ (s.prune iter now ttl keep).2 := by
  refine TransitionRun.invariant (I := fun acc : DeviceStore × List DeviceChange =>
    DeviceChange.statusChanged id online ∉ acc.2) List.not_mem_nil ?_ _
  intro acc i before mem
  rcases List.mem_append.mp mem with old | new
  · exact before old
  · cases List.mem_singleton.mp new

/-- While every device is online, an operation reports only flags that turn. -/
theorem perform_genuine (h : AllOnline s) (op : Op) : Genuine s (s.perform op).2 := by
  have falling : ∀ {id online}, (online = false ∧ ∃ e, s.devices.lookup id = some e) →
      ∃ e, s.devices.lookup id = some e ∧ e.online = !online := by
    rintro id online ⟨rfl, e, known⟩
    exact ⟨e, known, h id e known⟩
  cases op with
  | observe provider event =>
    cases event with
    | found device => exact upsert_genuine provider device
    | updated device => exact upsert_genuine provider device
    | lost id => exact fun id' online mem => falling (dropProvider_status mem)
  | offlineAll iter => exact fun id online mem => falling (offlineAll_status mem)
  | recordLatency id latencyMs =>
    intro id' online mem
    have mem : .statusChanged id' online ∈ (s.recordLatency id latencyMs).2 := mem
    rcases s.recordLatency_cases id latencyMs with same | ⟨e, _, changed⟩
    · rw [same] at mem
      cases mem
    · rw [changed] at mem
      cases List.mem_singleton.mp mem
  | prune iter now ttl keep => exact fun id online mem => absurd mem prune_no_status

/-- Every device stays online exactly where no device loses its last claim. -/
theorem perform_allOnline {w : Watched} (h : AllOnline w.store) (op : Op) :
    AllOnline (w.store.perform op).1 ↔ KeepsAClaim w op := by
  cases op with
  | observe provider event =>
    cases event with
    | found device => exact iff_of_true (upsert_allOnline h provider device) trivial
    | updated device => exact iff_of_true (upsert_allOnline h provider device) trivial
    | lost id =>
      apply (dropProvider_allOnline h provider id).trans
      exact forall₂_congr fun e _ => remaining_nonempty_iff
  | offlineAll iter =>
    constructor
    · intro online id e known
      have tracked : ((w.store.offlineAll iter).1.devices.lookup id).isSome := by
        rw [tracked_offlineAll, known]
        rfl
      obtain ⟨e', known'⟩ := Option.isSome_iff_exists.mp tracked
      have up : e'.online = true := online id e' known'
      rw [offlineAll_offline known'] at up
      cases up
    · intro offline id e known
      have tracked : (w.store.devices.lookup id).isSome := by
        rw [← tracked_offlineAll iter]
        exact Option.isSome_iff_exists.mpr ⟨e, known⟩
      obtain ⟨e', known'⟩ := Option.isSome_iff_exists.mp tracked
      have up := h id e' known'
      rw [offline id e' known'] at up
      cases up
  | recordLatency id latencyMs =>
    apply iff_of_true _ trivial
    show AllOnline (w.store.recordLatency id latencyMs).1
    rcases w.store.recordLatency_cases id latencyMs with same | ⟨e, known, changed⟩
    · rw [same]
      exact h
    · rw [changed]
      exact AllOnline.setEntry h id (h id e known)
  | prune iter now ttl keep =>
    apply iff_of_true _ trivial
    intro id e known
    have known : (w.store.prune iter now ttl keep).1.devices.lookup id = some e := known
    rw [lookup_prune] at known
    split at known
    · cases known
    · exact h id e known

/-- Only `prune` removes a device, and only one that is offline, out of date and not kept. -/
theorem removed_by_prune {op : Op} {id : DeviceId} {e : Entry}
    (known : s.devices.lookup id = some e) (gone : (s.perform op).1.devices.lookup id = none) :
    ∃ iter now ttl keep, op = .prune iter now ttl keep ∧ e.online = false ∧
      ttl < now - e.lastSeen ∧ keep id = false := by
  have kept : ∀ id' e', (s.setEntry id' e').devices.lookup id ≠ none := by
    intro id' e' absent
    rw [lookup_setEntry, known] at absent
    split at absent <;> cases absent
  have stays : s.devices.lookup id ≠ none := by
    rw [known]
    exact Option.some_ne_none e
  have sighted : ∀ provider device, (s.upsert provider device).1.devices.lookup id ≠ none := by
    intro provider device
    rcases s.upsert_cases provider device with full | ⟨_, _, new⟩ | ⟨e, _, again⟩
    · rw [full]
      exact stays
    · rw [new]
      exact kept _ _
    · rw [again]
      exact kept _ _
  cases op with
  | observe provider event =>
    cases event with
    | found device => exact absurd gone (sighted provider device)
    | updated device => exact absurd gone (sighted provider device)
    | lost id' =>
      have gone : (s.dropProvider provider id').1.devices.lookup id = none := gone
      rcases s.dropProvider_cases provider id' with ⟨_, same⟩ | ⟨e, _, ⟨_, out⟩ | ⟨_, left⟩⟩
      · rw [same] at gone
        exact absurd gone stays
      · rw [out] at gone
        exact absurd gone (kept _ _)
      · rw [left] at gone
        exact absurd gone (kept _ _)
  | offlineAll iter =>
    have tracked := tracked_offlineAll (s := s) iter id
    have gone : (s.offlineAll iter).1.devices.lookup id = none := gone
    rw [gone, known] at tracked
    cases tracked
  | recordLatency id' latencyMs =>
    have gone : (s.recordLatency id' latencyMs).1.devices.lookup id = none := gone
    rcases s.recordLatency_cases id' latencyMs with same | ⟨e, _, changed⟩
    · rw [same] at gone
      exact absurd gone stays
    · rw [changed] at gone
      exact absurd gone (kept _ _)
  | prune iter now ttl keep =>
    have gone : (s.prune iter now ttl keep).1.devices.lookup id = none := gone
    rw [lookup_prune] at gone
    split at gone
    · next stale =>
      simp only [DeviceStore.stale, known, Bool.and_eq_true, Bool.not_eq_true',
        decide_eq_true_eq] at stale
      exact ⟨iter, now, ttl, keep, rfl, stale.1.1, stale.1.2, stale.2⟩
    · exact absurd gone stays

end DeviceStore

/-- In every state of the run the replica shows exactly the snapshot, and every status change
reported on the way turns a flag. -/
def Exact : Watched → List Op → Prop
  | w, [] => Mirrors ManagedDevice.SameShown w.replica w.store.snapshot
  | w, op :: rest => Mirrors ManagedDevice.SameShown w.replica w.store.snapshot ∧
      Genuine w.store (w.store.perform op).2 ∧ Exact (w.step op) rest

theorem Exact.mirrors {w : Watched} {ops : List Op} (h : Exact w ops) :
    Mirrors ManagedDevice.SameShown w.replica w.store.snapshot := by
  cases ops with
  | nil => exact h
  | cons op rest => exact h.1

theorem exact_iff {w : Watched} (h : Tracks w.store w.replica) (online : AllOnline w.store)
    (ops : List Op) : Exact w ops ↔ TransitionRun.Along Watched.step KeepsAClaim w ops := by
  induction ops generalizing w with
  | nil => exact iff_of_true (h.mirrors_iff_allOnline.mpr online) trivial
  | cons op rest ih =>
    have next : Tracks (w.step op).store (w.step op).replica := DeviceStore.perform_tracks h op
    constructor
    · rintro ⟨_, _, later⟩
      have online' : AllOnline (w.step op).store := next.mirrors_iff_allOnline.mp later.mirrors
      exact ⟨(DeviceStore.perform_allOnline online op).mp online', (ih next online').mp later⟩
    · rintro ⟨keeps, later⟩
      have online' : AllOnline (w.step op).store :=
        (DeviceStore.perform_allOnline online op).mpr keeps
      exact ⟨h.mirrors_iff_allOnline.mpr online, DeviceStore.perform_genuine online op,
        (ih next online').mpr later⟩

theorem tracks_start (caps : ProviderId → Option DiscoveryCaps) :
    Tracks (DeviceStore.new caps) fun _ => none := by
  refine ⟨fun id => ?_, Nat.zero_le _⟩
  have unknown : (DeviceStore.new caps).devices.lookup id = none := AList.lookup_empty id
  rw [unknown]
  exact .none

theorem run_tracks (caps : ProviderId → Option DiscoveryCaps) (ops : List Op) :
    Tracks (ops.foldl Watched.step (.start caps)).store
      (ops.foldl Watched.step (.start caps)).replica := by
  apply TransitionRun.invariant (I := fun w : Watched => Tracks w.store w.replica) (tracks_start caps)
  intro w op h
  exact DeviceStore.perform_tracks h op

/-- The change stream of every run of the store is exact just as long as no device loses its last
claim. In all runs a replica agrees with the snapshot in everything but the capabilities of
offline devices, a device is online exactly while some provider claims it, the table is bounded,
and only `prune` removes a device. -/
theorem change_stream_exact_iff (caps : ProviderId → Option DiscoveryCaps) (ops : List Op) :
    (Exact (.start caps) ops ↔
      TransitionRun.Along Watched.step KeepsAClaim (.start caps) ops) ∧
    let w := ops.foldl Watched.step (.start caps)
    Mirrors ManagedDevice.SameWhileOnline w.replica w.store.snapshot ∧
    (∀ id e, w.store.devices.lookup id = some e → (e.online = true ↔ e.providers.Nonempty)) ∧
    w.store.devices.keys.length ≤ maxDevices ∧
    ∀ op id e, w.store.devices.lookup id = some e →
      (w.store.perform op).1.devices.lookup id = none →
      ∃ iter now ttl keep, op = .prune iter now ttl keep ∧ e.online = false ∧
        ttl < now - e.lastSeen ∧ keep id = false := by
  have start : Tracks (Watched.start caps).store (Watched.start caps).replica := tracks_start caps
  have nobody : AllOnline (Watched.start caps).store := by
    intro id e known
    have unknown : (Watched.start caps).store.devices.lookup id = none := AList.lookup_empty id
    rw [unknown] at known
    cases known
  have tracked := run_tracks caps ops
  refine ⟨exact_iff start nobody ops, tracked.mirrors_online, ?_, tracked.bounded, ?_⟩
  · intro id e known
    obtain ⟨m, _, follows⟩ := tracked.view known
    exact follows.claimed
  · intro op id e known gone
    exact DeviceStore.removed_by_prune known gone

private def udpOnly : ProviderId → Option DiscoveryCaps := fun _ => some ⟨false, false⟩

private def laptop : Device := ⟨"pb-laptop", "Laptop", .laptop, .linux, ["10.0.0.2"], 49500, 0⟩

/-- Found and lost again by the only provider that saw it, the laptop is offline and has no
capabilities left, of which the replica is not told; lost once more, it is reported offline a
second time. -/
theorem offline_capabilities_untold :
    ¬ Exact (.start udpOnly) [.observe "udp" (.found laptop), .observe "udp" (.lost "pb-laptop")] ∧
    let w := [.observe "udp" (.found laptop), .observe "udp" (.lost "pb-laptop")].foldl
      Watched.step (.start udpOnly)
    .statusChanged "pb-laptop" false ∈ (w.store.perform (.observe "udp" (.lost "pb-laptop"))).2 ∧
      ¬ Genuine w.store (w.store.perform (.observe "udp" (.lost "pb-laptop"))).2 := by
  have reported : .statusChanged "pb-laptop" false ∈ (([.observe "udp" (.found laptop),
      .observe "udp" (.lost "pb-laptop")].foldl Watched.step (.start udpOnly)).store.perform
        (.observe "udp" (.lost "pb-laptop"))).2 := by decide
  have offline : (([.observe "udp" (.found laptop), .observe "udp" (.lost "pb-laptop")].foldl
      Watched.step (.start udpOnly)).store.devices.lookup "pb-laptop").map (·.online) =
        some false := by decide
  obtain ⟨e, known, off⟩ := Option.map_eq_some_iff.mp offline
  refine ⟨?_, reported, ?_⟩
  · intro exact
    have online := (run_tracks udpOnly [_, _]).mirrors_iff_allOnline.mp exact.2.2.2.2
    exact Bool.false_ne_true (off.symm.trans (online "pb-laptop" e known))
  · intro genuine
    obtain ⟨e', known', online⟩ := genuine _ _ reported
    obtain rfl : e = e' := Option.some.inj (known.symm.trans known')
    exact Bool.false_ne_true (off.symm.trans online)

end PeerBeam.Devices
