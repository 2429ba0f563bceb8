import PeerBeam.Devices.Store
import PeerBeam.Lib.Run

/-! A user interface that only applies the changes it is told, and the invariant that ties what
it knows to the store that returned them. -/
namespace PeerBeam.Devices

abbrev Replica := DeviceId → Option ManagedDevice

def DeviceChange.apply (r : Replica) : DeviceChange → Replica
  | .added m => Function.update r m.device.id (some m)
  | .updated m => Function.update r m.device.id (some m)
  | .statusChanged id online => Function.update r id ((r id).map fun m => { m with online := online })
  | .latencyChanged id latencyMs =>
    Function.update r id ((r id).map fun m => { m with latencyMs := latencyMs })
  | .removed id => Function.update r id none

structure ManagedDevice.SameState (a b : ManagedDevice) : Prop where
  identity : a.device.sameIdentity b.device = true
  online : a.online = b.online
  latency : a.latencyMs = b.latencyMs

/-- Equal in everything but the times of the last sighting. -/
structure ManagedDevice.SameShown (a b : ManagedDevice) : Prop extends a.SameState b where
  capabilities : a.capabilities = b.capabilities

/-- Equal in everything but these times, and in the capabilities only while online. -/
structure ManagedDevice.SameWhileOnline (a b : ManagedDevice) : Prop extends a.SameState b where
  capabilities : b.online = true → a.capabilities = b.capabilities

/-- The replica has an entry for each device of the snapshot and no other, and the two are the
same in the given sense. -/
def Mirrors (same : ManagedDevice → ManagedDevice → Prop) (r : Replica)
    (snapshot : List ManagedDevice) : Prop :=
  (snapshot.map (·.device.id)).Nodup ∧
    ∀ id, Option.Rel same (r id) (snapshot.find? (·.device.id = id))

inductive Op where
  | observe (provider : ProviderId) (event : DiscoveryEvent)
  | offlineAll (iter : IterOrder)
  | recordLatency (id : DeviceId) (latencyMs : Option UInt32)
  | prune (iter : IterOrder) (now ttl : Int) (keep : DeviceId → Bool)

def DeviceStore.perform (s : DeviceStore) : Op → DeviceStore × List DeviceChange
  | .observe provider event => s.observe provider event
  | .offlineAll iter => s.offlineAll iter
  | .recordLatency id latencyMs => s.recordLatency id latencyMs
  | .prune iter now ttl keep => s.prune iter now ttl keep

/-- The store and a listener that has applied every change so far. -/
structure Watched where
  store : DeviceStore
  replica : Replica

def Watched.step (w : Watched) (op : Op) : Watched :=
  ⟨(w.store.perform op).1, (w.store.perform op).2.foldl DeviceChange.apply w.replica⟩

def Watched.start (caps : ProviderId → Option DiscoveryCaps) : Watched :=
  ⟨.new caps, fun _ => none⟩

/-- Every status change an operation reports turns the flag of a tracked device. -/
def Genuine (s : DeviceStore) (changes : List DeviceChange) : Prop :=
  ∀ id online, .statusChanged id online ∈ changes →
    ∃ e, s.devices.lookup id = some e ∧ e.online = !online

/-- How a replica's view stands to the entry it mirrors. While the device is online it is
complete; the capabilities of an offline device are those it last had. -/
structure Follows (caps : Finset ProviderId → DeviceCapabilities) (id : DeviceId) (e : Entry)
    (m : ManagedDevice) : Prop where
  own : e.device.id = id
  identity : m.device.sameIdentity e.device = true
  online : m.online = e.online
  latency : m.latencyMs = e.latencyMs
  claimed : e.online = true ↔ e.providers.Nonempty
  current : e.online = true → m.capabilities = caps e.providers
  outdated : e.online = false → m.capabilities.providers ≠ []

structure Tracks (s : DeviceStore) (r : Replica) : Prop where
  follows : ∀ id, Option.Rel (Follows s.capabilitiesFor id) (s.devices.lookup id) (r id)
  bounded : s.devices.keys.length ≤ maxDevices

theorem sameIdentity_iff {a b : Device} : a.sameIdentity b = true ↔
    a.id = b.id ∧ a.name = b.name ∧ a.platform = b.platform ∧ a.deviceType = b.deviceType ∧
      a.addresses = b.addresses ∧ a.port = b.port := by
  simp [Device.sameIdentity, and_assoc]

theorem sameIdentity_refl (a : Device) : a.sameIdentity a = true := by simp [sameIdentity_iff]

theorem sameIdentity_trans {a b c : Device} (h : a.sameIdentity b = true)
    (h' : b.sameIdentity c = true) : a.sameIdentity c = true := by
  rw [sameIdentity_iff] at *
  obtain ⟨h₁, h₂, h₃, h₄, h₅, h₆⟩ := h
  obtain ⟨g₁, g₂, g₃, g₄, g₅, g₆⟩ := h'
  exact ⟨h₁.trans g₁, h₂.trans g₂, h₃.trans g₃, h₄.trans g₄, h₅.trans g₅, h₆.trans g₆⟩

@[simp] theorem merge_id (existing incoming : Device) (takeIdentity : Bool) :
    (merge existing incoming takeIdentity).id = existing.id := by
  unfold merge
  split <;> rfl

namespace DeviceStore
variable {s : DeviceStore} {r : Replica}

@[simp] theorem capabilitiesFor_providers (providers : Finset ProviderId) :
    (s.capabilitiesFor providers).providers = providers.sort (· ≤ ·) := rfl

theorem capabilitiesFor_ne_nil {providers : Finset ProviderId} (h : providers.Nonempty) :
    (s.capabilitiesFor providers).providers ≠ [] := by
  obtain ⟨p, mem⟩ := h
  intro empty
  have listed : p ∈ providers.sort (· ≤ ·) := (Finset.mem_sort (· ≤ ·)).mpr mem
  rw [← capabilitiesFor_providers (s := s), empty] at listed
  exact List.not_mem_nil listed

/-- An entry and the view built from it. -/
theorem follows_toManaged {id : DeviceId} {e : Entry} (own : e.device.id = id)
    (online : e.online = true) (claimed : e.providers.Nonempty) :
    Follows s.capabilitiesFor id e (s.toManaged e) where
  own := own
  identity := sameIdentity_refl _
  online := rfl
  latency := rfl
  claimed := ⟨fun _ => claimed, fun _ => online⟩
  current _ := rfl
  outdated off := by simp [online] at off

@[simp] theorem setEntry_capabilitiesFor (id : DeviceId) (e : Entry) :
    (s.setEntry id e).capabilitiesFor = s.capabilitiesFor := rfl

theorem lookup_setEntry (id id' : DeviceId) (e : Entry) :
    (s.setEntry id e).devices.lookup id' = if id' = id then some e else s.devices.lookup id' := by
  split
  · next same => subst same; exact AList.lookup_insert _
  · next other => exact AList.lookup_insert_ne other

theorem length_setEntry_of_some {id : DeviceId} {e₀ : Entry} (known : s.devices.lookup id = some e₀)
    (e : Entry) : (s.setEntry id e).devices.keys.length = s.devices.keys.length := by
  have mem : id ∈ s.devices.keys :=
    AList.mem_keys.mp (AList.lookup_isSome.mp (by rw [known]; rfl))
  have := List.length_erase_of_mem mem
  have := List.length_pos_of_mem mem
  simp only [setEntry, AList.keys_insert, List.length_cons]
  omega

theorem length_setEntry_of_none {id : DeviceId} (unknown : s.devices.lookup id = none) (e : Entry) :
    (s.setEntry id e).devices.keys.length = s.devices.keys.length + 1 := by
  have absent : id ∉ s.devices.keys := fun mem =>
    AList.lookup_eq_none.mp unknown (AList.mem_keys.mpr mem)
  simp only [setEntry, AList.keys_insert, List.length_cons, List.erase_of_not_mem absent]

end DeviceStore

namespace Tracks
variable {s : DeviceStore} {r : Replica}

/-- An entry and its view are replaced together. -/
theorem put (h : Tracks s r) {id : DeviceId} {e : Entry} {m : ManagedDevice}
    (follows : Follows s.capabilitiesFor id e m)
    (bounded : (s.setEntry id e).devices.keys.length ≤ maxDevices) :
    Tracks (s.setEntry id e) (Function.update r id (some m)) := by
  refine ⟨?_, bounded⟩
  intro id'
  rw [DeviceStore.lookup_setEntry, DeviceStore.setEntry_capabilitiesFor]
  by_cases same : id' = id
  · subst same
    rw [if_pos rfl, Function.update_self]
    exact .some follows
  · rw [if_neg same, Function.update_of_ne same]
    exact h.follows id'

/-- A known device's entry changes and the replica's view of it with it. -/
theorem alter (h : Tracks s r) {id : DeviceId} {e₀ e : Entry} (known : s.devices.lookup id = some e₀)
    {view : ManagedDevice → ManagedDevice}
    (follows : ∀ m, r id = some m → Follows s.capabilitiesFor id e₀ m →
      Follows s.capabilitiesFor id e (view m)) :
    Tracks (s.setEntry id e) (Function.update r id ((r id).map view)) := by
  have bounded : (s.setEntry id e).devices.keys.length ≤ maxDevices := by
    rw [DeviceStore.length_setEntry_of_some known]
    exact h.bounded
  have rel := h.follows id
  rw [known] at rel
  cases seen : r id with
  | none => rw [seen] at rel; cases rel
  | some m =>
    rw [seen] at rel
    cases rel with
    | some before => exact h.put (follows m seen before) bounded

/-- The view of a tracked device. -/
theorem view (h : Tracks s r) {id : DeviceId} {e : Entry} (known : s.devices.lookup id = some e) :
    ∃ m, r id = some m ∧ Follows s.capabilitiesFor id e m := by
  have rel := h.follows id
  rw [known] at rel
  cases seen : r id with
  | none => rw [seen] at rel; cases rel
  | some m =>
    rw [seen] at rel
    cases rel with
    | some before => exact ⟨m, rfl, before⟩

theorem forget (h : Tracks s r) (id : DeviceId) :
    Tracks { s with devices := s.devices.erase id } (Function.update r id none) := by
  refine ⟨?_, ?_⟩
  · intro id'
    by_cases same : id' = id
    · subst same
      rw [Function.update_self]
      show Option.Rel _ (AList.lookup id' (AList.erase id' s.devices)) none
      rw [AList.lookup_erase]
      exact .none
    · rw [Function.update_of_ne same]
      show Option.Rel _ (AList.lookup id' (AList.erase id s.devices)) (r id')
      rw [AList.lookup_erase_ne same]
      exact h.follows id'
  · show (AList.erase id s.devices).keys.length ≤ maxDevices
    rw [AList.keys_erase]
    exact le_trans (List.length_erase_le ..) h.bounded

end Tracks

/-- The changes an operation returns take a listener along. -/
def InStep (r : Replica) (out : DeviceStore × List DeviceChange) : Prop :=
  Tracks out.1 (out.2.foldl DeviceChange.apply r)

namespace DeviceStore
variable {s : DeviceStore} {r : Replica}

@[simp] theorem resighted_id (provider : ProviderId) (device : Device) (e : Entry) :
    (resighted provider device e).device.id = e.device.id := merge_id ..

/-- A re-sighting without a new claim or a new identity is silent, since nothing it shows
changed. -/
theorem follows_resighted {id : DeviceId} {provider : ProviderId} {device : Device} {e : Entry}
    {m : ManagedDevice} (before : Follows s.capabilitiesFor id e m)
    (same : e.device.sameIdentity (resighted provider device e).device = true)
    (known : provider ∈ e.providers) :
    Follows s.capabilitiesFor id (resighted provider device e) m where
  own := (resighted_id ..).trans before.own
  identity := sameIdentity_trans before.identity same
  online := before.online.trans (before.claimed.mpr ⟨provider, known⟩)
  latency := before.latency
  claimed := ⟨fun _ => ⟨provider, Finset.mem_insert_self ..⟩, fun _ => rfl⟩
  current _ := by
    have online := before.claimed.mpr ⟨provider, known⟩
    have same : (resighted provider device e).providers = e.providers :=
      Finset.insert_eq_of_mem known
    rw [same]
    exact before.current online
  outdated off := by simp [resighted] at off

theorem remaining_subset (provider : ProviderId) (providers : Finset ProviderId) :
    s.remaining provider providers ⊆ providers := by
  unfold remaining
  split
  · exact (Finset.filter_subset ..).trans (Finset.erase_subset ..)
  · exact Finset.erase_subset ..

theorem upsert_tracks (h : Tracks s r) (provider : ProviderId) (device : Device) :
    InStep r (s.upsert provider device) := by
  rcases s.upsert_cases provider device with full | ⟨known, room, new⟩ | ⟨e, known, again⟩
  · rw [full]
    exact h
  · rw [new]
    have follows : Follows s.capabilitiesFor device.id (sighted provider device)
        (s.toManaged (sighted provider device)) :=
      follows_toManaged rfl rfl (Finset.singleton_nonempty provider)
    apply h.put follows
    rw [length_setEntry_of_none known]
    exact room
  · rw [again]
    obtain ⟨m, seen, before⟩ := h.view known
    have claims : (resighted provider device e).providers.Nonempty :=
      ⟨provider, Finset.mem_insert_self ..⟩
    have own : (resighted provider device e).device.id = device.id :=
      (resighted_id ..).trans before.own
    have bounded : (s.setEntry device.id (resighted provider device e)).devices.keys.length ≤
        maxDevices := by
      rw [length_setEntry_of_some known]
      exact h.bounded
    by_cases silent : e.device.sameIdentity (resighted provider device e).device = true ∧
        provider ∈ e.providers
    · have online : e.online = true := before.claimed.mpr ⟨provider, silent.2⟩
      have unchanged : Function.update r device.id (some m) = r := by
        rw [← seen]
        exact Function.update_eq_self ..
      rw [silent.1, online]
      simp only [silent.2, not_true, decide_false, Bool.not_true, Bool.or_self, if_true,
        Bool.false_eq_true, if_false, List.append_nil]
      rw [← unchanged]
      exact h.put (follows_resighted before silent.1 silent.2) bounded
    · have loud : (!e.device.sameIdentity (resighted provider device e).device ||
          decide (provider ∉ e.providers)) = true := by
        rcases not_and_or.mp silent with changed | unclaimed
        · simp [changed]
        · simp [unclaimed]
      rw [if_pos loud]
      -- The view is replaced whole, so what the status change did before it does not matter.
      have replaced : ∀ status : List DeviceChange,
          (status = [] ∨ status = [.statusChanged device.id true]) →
          (status ++ [DeviceChange.updated (s.toManaged (resighted provider device e))]).foldl
            DeviceChange.apply r =
          Function.update r device.id (some (s.toManaged (resighted provider device e))) := by
        intro status cases
        rcases cases with rfl | rfl
        · simp [DeviceChange.apply, toManaged, before.own]
        · simp [DeviceChange.apply, toManaged, before.own]
      rw [InStep, replaced _ (by split <;> simp)]
      exact h.put (follows_toManaged own rfl claims) bounded

theorem dropProvider_tracks (h : Tracks s r) (provider : ProviderId) (id : DeviceId) :
    InStep r (s.dropProvider provider id) := by
  rcases s.dropProvider_cases provider id with ⟨_, same⟩ | ⟨e, known, ⟨empty, out⟩ | ⟨claims, left⟩⟩
  · rw [same]
    exact h
  · rw [out]
    -- Only the flag is told: the replica keeps the capabilities of the claims just lost.
    apply Tracks.alter h known
    intro m _ before
    exact {
      own := before.own
      identity := before.identity
      online := rfl
      latency := before.latency
      claimed := by simp [empty]
      current := by simp
      outdated := fun _ => by
        by_cases on : e.online = true
        · show m.capabilities.providers ≠ []
          rw [before.current on]
          exact capabilitiesFor_ne_nil (before.claimed.mp on)
        · exact before.outdated (Bool.not_eq_true _ ▸ on) }
  · rw [left]
    obtain ⟨m, seen, before⟩ := h.view known
    have some_claim : e.providers.Nonempty := claims.mono (remaining_subset provider e.providers)
    have bounded : (s.setEntry id { e with providers := s.remaining provider e.providers
        }).devices.keys.length ≤ maxDevices := by
      rw [length_setEntry_of_some known]
      exact h.bounded
    have shown : Function.update r id (some (s.toManaged
          { e with providers := s.remaining provider e.providers })) =
        DeviceChange.apply r (.updated (s.toManaged
          { e with providers := s.remaining provider e.providers })) := by
      rw [← before.own]
      rfl
    show Tracks _ (DeviceChange.apply r (.updated _))
    rw [← shown]
    exact h.put (follows_toManaged before.own (before.claimed.mpr some_claim) claims) bounded

theorem observe_tracks (h : Tracks s r) (provider : ProviderId) (event : DiscoveryEvent) :
    InStep r (s.observe provider event) := by
  cases event with
  | found device => exact upsert_tracks h provider device
  | updated device => exact upsert_tracks h provider device
  | lost id => exact dropProvider_tracks h provider id

theorem offlineOne_tracks (r : Replica) (acc : DeviceStore × List DeviceChange) (id : DeviceId)
    (h : InStep r acc) : InStep r (offlineOne acc id) := by
  unfold offlineOne
  cases known : acc.1.devices.lookup id with
  | none => exact h
  | some e =>
    dsimp only
    split
    · next on =>
      rw [InStep, List.foldl_append]
      apply Tracks.alter h known
      intro m _ before
      exact {
        own := before.own
        identity := before.identity
        online := rfl
        latency := before.latency
        claimed := by simp
        current := by simp
        outdated := fun _ => by
          show m.capabilities.providers ≠ []
          rw [before.current on]
          exact capabilitiesFor_ne_nil (before.claimed.mp on) }
    · exact h

theorem offlineAll_tracks (h : Tracks s r) (iter : IterOrder) :
    InStep r (s.offlineAll iter) := by
  have start : InStep r (s, []) := h
  exact TransitionRun.invariant start (fun acc id => offlineOne_tracks r acc id) _

theorem recordLatency_tracks (h : Tracks s r) (id : DeviceId) (latencyMs : Option UInt32) :
    InStep r (s.recordLatency id latencyMs) := by
  rcases s.recordLatency_cases id latencyMs with same | ⟨e, known, changed⟩
  · rw [same]
    exact h
  · rw [changed]
    apply h.alter known
    intro m _ before
    exact { before with latency := rfl }

theorem prune_tracks (h : Tracks s r) (iter : IterOrder) (now ttl : Int) (keep : DeviceId → Bool) :
    InStep r (s.prune iter now ttl keep) := by
  have start : InStep r (s, []) := h
  refine TransitionRun.invariant start ?_ _
  intro acc id tracked
  rw [InStep, removeOne, List.foldl_append]
  exact tracked.forget id

/-- Every operation keeps its listener in step. -/
theorem perform_tracks (h : Tracks s r) (op : Op) :
    InStep r (s.perform op) := by
  cases op with
  | observe provider event => exact observe_tracks h provider event
  | offlineAll iter => exact offlineAll_tracks h iter
  | recordLatency id latencyMs => exact recordLatency_tracks h id latencyMs
  | prune iter now ttl keep => exact prune_tracks h iter now ttl keep

end DeviceStore

end PeerBeam.Devices
