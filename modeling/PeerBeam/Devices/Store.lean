import Mathlib.Data.Finset.Sort
import Mathlib.Data.List.AList
import Mathlib.Data.String.Basic

/-! The device tracking reducer: provider sightings folded into one entry per device, each
operation returning the changes it tells the user interface about. -/
namespace PeerBeam.Devices

abbrev DeviceId := String
abbrev ProviderId := String

inductive DeviceType where
  | desktop | laptop | phone | tablet | server | webBrowser
  deriving DecidableEq, Repr

inductive Platform where
  | windows | macOS | linux | android | iOS | web
  deriving DecidableEq, Repr

structure Device where
  id : DeviceId
  name : String
  deviceType : DeviceType
  platform : Platform
  addresses : List String
  port : UInt16
  /-- Instants and durations are nanoseconds. -/
  lastSeen : Int
  deriving DecidableEq

/-- Equal in everything but the time of the sighting. -/
def Device.sameIdentity (a b : Device) : Bool :=
  a.id == b.id && a.name == b.name && a.platform == b.platform && a.deviceType == b.deviceType &&
    a.addresses == b.addresses && a.port == b.port

structure DiscoveryCaps where
  crossesSubnet : Bool
  requiresTailscale : Bool
  deriving DecidableEq

inductive DiscoveryEvent where
  | found (device : Device)
  | updated (device : Device)
  | lost (id : DeviceId)

structure DeviceCapabilities where
  reachableLan : Bool
  reachableRemote : Bool
  requiresTailscale : Bool
  providers : List ProviderId
  deriving DecidableEq

structure ManagedDevice where
  device : Device
  online : Bool
  lastSeen : Int
  latencyMs : Option UInt32
  capabilities : DeviceCapabilities
  deriving DecidableEq

inductive DeviceChange where
  | added (m : ManagedDevice)
  | updated (m : ManagedDevice)
  | statusChanged (id : DeviceId) (online : Bool)
  | latencyChanged (id : DeviceId) (latencyMs : Option UInt32)
  | removed (id : DeviceId)
  deriving DecidableEq

structure Entry where
  device : Device
  online : Bool
  lastSeen : Int
  latencyMs : Option UInt32
  /-- The providers that report the device now. -/
  providers : Finset ProviderId
  /-- The one that may change its identity fields. -/
  identityProvider : ProviderId

def maxDevices : Nat := 512

structure DeviceStore where
  providerCaps : ProviderId → Option DiscoveryCaps
  devices : AList fun _ : DeviceId => Entry

/-- The order in which a hash map's keys are visited is its own. -/
structure IterOrder where
  order : List DeviceId → List DeviceId
  perm : ∀ ids, (order ids).Perm ids

def mergeAddresses (known incoming : List String) : List String :=
  incoming.foldl (fun addresses a => if a ∈ addresses then addresses else addresses ++ [a]) known

def merge (existing incoming : Device) (takeIdentity : Bool) : Device :=
  let addresses := mergeAddresses existing.addresses incoming.addresses
  if takeIdentity then
    { id := existing.id
      name := if incoming.name.isEmpty then existing.name else incoming.name
      deviceType := incoming.deviceType
      platform := incoming.platform
      port := if incoming.port = 0 then existing.port else incoming.port
      addresses := addresses
      lastSeen := incoming.lastSeen }
  else
    { id := existing.id
      name := if existing.name.isEmpty then incoming.name else existing.name
      deviceType := existing.deviceType
      platform := existing.platform
      port := if existing.port = 0 then incoming.port else existing.port
      addresses := addresses
      lastSeen := incoming.lastSeen }

namespace DeviceStore
variable (s : DeviceStore)

def new (providerCaps : ProviderId → Option DiscoveryCaps) : DeviceStore := ⟨providerCaps, ∅⟩

/-- What the claiming providers say about reaching a device; an unknown provider counts as
plain local reach. -/
def capabilitiesFor (providers : Finset ProviderId) : DeviceCapabilities :=
  let provs := providers.sort (· ≤ ·)
  { reachableLan := provs.any fun p => (s.providerCaps p).elim true fun c => !c.crossesSubnet
    reachableRemote := provs.any fun p => (s.providerCaps p).elim false (·.crossesSubnet)
    requiresTailscale := !provs.isEmpty &&
      provs.all fun p => (s.providerCaps p).elim false (·.requiresTailscale)
    providers := provs }

def toManaged (e : Entry) : ManagedDevice :=
  ⟨e.device, e.online, e.lastSeen, e.latencyMs, s.capabilitiesFor e.providers⟩

def setEntry (id : DeviceId) (e : Entry) : DeviceStore := { s with devices := s.devices.insert id e }

def sighted (provider : ProviderId) (device : Device) : Entry :=
  ⟨device, true, device.lastSeen, none, {provider}, provider⟩

/-- The entry a re-sighting leaves. The provider has already been added to the claims when the
owner of the identity fields is looked for among them. -/
def resighted (provider : ProviderId) (device : Device) (e : Entry) : Entry :=
  let providers := insert provider e.providers
  let takeIdentity := provider == e.identityProvider || !decide (e.identityProvider ∈ providers)
  { device := merge e.device device takeIdentity
    online := true
    lastSeen := device.lastSeen
    latencyMs := e.latencyMs
    providers := providers
    identityProvider := if takeIdentity then provider else e.identityProvider }

def upsert (provider : ProviderId) (device : Device) : DeviceStore × List DeviceChange :=
  match s.devices.lookup device.id with
  | none =>
    -- A full table admits nobody new, so that a flood of ids pushes nobody out.
    if maxDevices ≤ s.devices.keys.length then (s, [])
    else
      let e := sighted provider device
      (s.setEntry device.id e, [.added (s.toManaged e)])
  | some e =>
    let e' := resighted provider device e
    let status := if e.online then [] else [.statusChanged device.id true]
    let update := if !e.device.sameIdentity e'.device || decide (provider ∉ e.providers)
      then [.updated (s.toManaged e')] else []
    (s.setEntry device.id e', status ++ update)

def isLan (provider : ProviderId) : Bool := (s.providerCaps provider).any fun c => !c.crossesSubnet

def crosses (provider : ProviderId) : Bool := (s.providerCaps provider).any (·.crossesSubnet)

/-- The claims left when a provider loses a device: a local provider takes the other local
claims with it. -/
def remaining (provider : ProviderId) (providers : Finset ProviderId) : Finset ProviderId :=
  let rest := providers.erase provider
  if s.isLan provider then rest.filter fun p => s.crosses p = true else rest

def dropProvider (provider : ProviderId) (id : DeviceId) : DeviceStore × List DeviceChange :=
  match s.devices.lookup id with
  | none => (s, [])
  | some e =>
    let rest := s.remaining provider e.providers
    if rest = ∅ then
      (s.setEntry id { e with online := false, providers := rest }, [.statusChanged id false])
    else
      let e' := { e with providers := rest }
      (s.setEntry id e', [.updated (s.toManaged e')])

def observe (provider : ProviderId) : DiscoveryEvent → DeviceStore × List DeviceChange
  | .found device => s.upsert provider device
  | .updated device => s.upsert provider device
  | .lost id => s.dropProvider provider id

/-- One turn of the loop of `offlineAll`. -/
def offlineOne (acc : DeviceStore × List DeviceChange) (id : DeviceId) :
    DeviceStore × List DeviceChange :=
  match acc.1.devices.lookup id with
  | none => acc
  | some e =>
    if e.online then
      (acc.1.setEntry id { e with online := false, providers := ∅ },
        acc.2 ++ [.statusChanged id false])
    else acc

def offlineAll (iter : IterOrder) : DeviceStore × List DeviceChange :=
  (iter.order s.devices.keys).foldl offlineOne (s, [])

def recordLatency (id : DeviceId) (latencyMs : Option UInt32) : DeviceStore × List DeviceChange :=
  match s.devices.lookup id with
  | none => (s, [])
  | some e =>
    if e.latencyMs = latencyMs then (s, [])
    else (s.setEntry id { e with latencyMs := latencyMs }, [.latencyChanged id latencyMs])

/-- A device `prune` removes: offline for longer than the time to live and not kept. -/
def stale (now ttl : Int) (keep : DeviceId → Bool) (id : DeviceId) : Bool :=
  match s.devices.lookup id with
  | none => false
  | some e => !e.online && decide (ttl < now - e.lastSeen) && !keep id

def removeOne (acc : DeviceStore × List DeviceChange) (id : DeviceId) :
    DeviceStore × List DeviceChange :=
  ({ acc.1 with devices := acc.1.devices.erase id }, acc.2 ++ [.removed id])

def prune (iter : IterOrder) (now ttl : Int) (keep : DeviceId → Bool) :
    DeviceStore × List DeviceChange :=
  ((iter.order s.devices.keys).filter (s.stale now ttl keep)).foldl removeOne (s, [])

def snapshotLe (a b : ManagedDevice) : Bool :=
  if a.online = b.online then decide (a.device.name ≤ b.device.name) else a.online

def snapshot : List ManagedDevice :=
  (s.devices.entries.map fun e => s.toManaged e.2).mergeSort snapshotLe

/-- Nothing where the table is full, or else one entry is new or seen again. -/
theorem upsert_cases (provider : ProviderId) (device : Device) :
    s.upsert provider device = (s, []) ∨
    (s.devices.lookup device.id = none ∧ s.devices.keys.length < maxDevices ∧
      s.upsert provider device = (s.setEntry device.id (sighted provider device),
        [.added (s.toManaged (sighted provider device))])) ∨
    ∃ e, s.devices.lookup device.id = some e ∧
      s.upsert provider device = (s.setEntry device.id (resighted provider device e),
        (if e.online then [] else [.statusChanged device.id true]) ++
          if !e.device.sameIdentity (resighted provider device e).device ||
            decide (provider ∉ e.providers)
          then [.updated (s.toManaged (resighted provider device e))] else []) := by
  rw [upsert]
  cases known : s.devices.lookup device.id with
  | none =>
    by_cases full : maxDevices ≤ s.devices.keys.length
    · exact .inl (if_pos full)
    · exact .inr (.inl ⟨rfl, Nat.not_le.mp full, if_neg full⟩)
  | some e => exact .inr (.inr ⟨e, rfl, rfl⟩)

/-- A known device goes offline with its last claim, and else shows those that are left. -/
theorem dropProvider_cases (provider : ProviderId) (id : DeviceId) :
    (s.devices.lookup id = none ∧ s.dropProvider provider id = (s, [])) ∨
    ∃ e, s.devices.lookup id = some e ∧
      ((s.remaining provider e.providers = ∅ ∧ s.dropProvider provider id =
          (s.setEntry id { e with online := false, providers := s.remaining provider e.providers },
            [.statusChanged id false])) ∨
        ((s.remaining provider e.providers).Nonempty ∧ s.dropProvider provider id =
          (s.setEntry id { e with providers := s.remaining provider e.providers },
            [.updated (s.toManaged { e with providers := s.remaining provider e.providers })]))) := by
  rw [dropProvider]
  cases known : s.devices.lookup id with
  | none => exact .inl ⟨rfl, rfl⟩
  | some e =>
    refine .inr ⟨e, rfl, ?_⟩
    by_cases empty : s.remaining provider e.providers = ∅
    · exact .inl ⟨empty, if_pos empty⟩
    · exact .inr ⟨Finset.nonempty_iff_ne_empty.mpr empty, if_neg empty⟩

theorem recordLatency_cases (id : DeviceId) (latencyMs : Option UInt32) :
    s.recordLatency id latencyMs = (s, []) ∨
    ∃ e, s.devices.lookup id = some e ∧ s.recordLatency id latencyMs =
      (s.setEntry id { e with latencyMs := latencyMs }, [.latencyChanged id latencyMs]) := by
  rw [recordLatency]
  cases known : s.devices.lookup id with
  | none => exact .inl rfl
  | some e =>
    by_cases same : e.latencyMs = latencyMs
    · exact .inl (if_pos same)
    · exact .inr ⟨e, rfl, if_neg same⟩

end DeviceStore

end PeerBeam.Devices
