import Mathlib.Data.List.DropRight
import PeerBeam.Devices.Discovery
import PeerBeam.Lib.Presence

/-! The discovery providers, each as a tracker of the devices its inputs present: announcements on the local network,
snapshots of the tailnet, and services that are resolved and removed. -/
namespace PeerBeam.Discovery
open Devices Presence TransitionRun

def news : DiscoveryEvent → News DeviceId
  | .found device => .here device.id
  | .updated device => .here device.id
  | .lost id => .gone id

theorem map_news_lost (ids : List DeviceId) : (ids.map DiscoveryEvent.lost).map news = ids.map .gone :=
  List.map_map

namespace Udp

def drainIds (peers : PeerTable) (iter : IterOrder) : PeerTable × List DeviceId := (.new, iter.order peers.map.keys)

inductive Input
  | announce (device : Device) (now : Int)
  | expire (iter : IterOrder) (now : Int)
  | stop (iter : IterOrder)

variable (own : DeviceId) (ttl : ℕ)

def step (peers : PeerTable) : Input → PeerTable × List DiscoveryEvent
  | .announce device now =>
    if device.id = own then (peers, [])
    else
      let (peers, event) := peers.observe device now
      (peers, event.toList)
  | .expire iter now =>
    let (peers, lost) := peers.expire iter now ttl
    (peers, lost.map .lost)
  | .stop iter =>
    let (peers, lost) := drainIds peers iter
    (peers, lost.map .lost)

/-- When the peers that are there announced themselves last. -/
abbrev Heard := DeviceId → Option Int

/-- A peer is there from an announcement on, until one is too long ago when the peers are looked through. -/
def hear (heard : Heard) : Input → Heard
  | .announce device now => if device.id = own then heard else Function.update heard device.id (some now)
  | .expire _ now => fun id => (heard id).filter fun last => now - last ≤ ttl
  | .stop _ => fun _ => none

def tracker : Tracker PeerTable Heard Input DeviceId where
  step peers a := (step own ttl peers a).1
  news peers a := (step own ttl peers a).2.map news
  next := hear own ttl
  present heard := {id | (heard id).isSome}

def start : Followed PeerTable Heard DeviceId := ⟨.new, fun _ => none, ∅⟩

def Fits (peers : PeerTable) (heard : Heard) : Prop := ∀ id, (peers.map.lookup id).map Peer.lastSeen = heard id

variable {own ttl} {peers : PeerTable} {heard : Heard}

theorem Fits.isSome (h : Fits peers heard) (id : DeviceId) : (heard id).isSome = (peers.map.lookup id).isSome := by
  rw [← h id, Option.isSome_map]

theorem Fits.step (h : Fits peers heard) (a : Input) :
    Fits ((tracker own ttl).step peers a) ((tracker own ttl).next heard a) := by
  intro id
  cases a with
  | announce device now =>
    by_cases echo : device.id = own
    · simp only [tracker, Udp.step, hear, if_pos echo]
      exact h id
    · simp only [tracker, Udp.step, hear, if_neg echo, PeerTable.lookup_observe, Function.update_apply]
      split
      · rfl
      · exact h id
  | expire iter now =>
    simp only [tracker, Udp.step, hear, PeerTable.lookup_expire, ← h id]
    cases peers.map.lookup id with
    | none => rfl
    | some p =>
      simp only [Option.any_some, Peer.stale, decide_eq_true_eq, Option.map_some, Option.filter_some]
      by_cases old : (ttl : Int) < now - p.lastSeen
      · rw [if_pos old, if_neg (Int.not_le.mpr old)]
        rfl
      · rw [if_neg old, if_pos (Int.not_lt.mp old)]
        rfl
  | stop iter => rfl

/-- Who announces itself is there. -/
theorem present_hear {device : Device} {now : Int} (other : device.id ≠ own) :
    (tracker own ttl).present ((tracker own ttl).next heard (.announce device now)) =
      insert device.id ((tracker own ttl).present heard) := by
  ext id
  simp only [tracker, hear, if_neg other, Set.mem_insert_iff, Set.mem_ofPred_eq, Function.update_apply]
  by_cases same : id = device.id
  · simp [same]
  · simp [same]

theorem Fits.faithful (h : Fits peers heard) (a : Input) : Faithful ((tracker own ttl).present heard)
    ((tracker own ttl).news peers a) ((tracker own ttl).present ((tracker own ttl).next heard a)) := by
  cases a with
  | announce device now =>
    by_cases echo : device.id = own
    · simp only [tracker, Udp.step, hear, if_pos echo]
      exact Faithful.nil_iff.mpr rfl
    · rw [present_hear echo]
      simp only [tracker, Udp.step, if_neg echo, PeerTable.observe]
      have known := h.isSome device.id
      cases here : peers.map.lookup device.id with
      | none => exact Faithful.here_iff.mpr rfl
      | some entry =>
        cases silent : entry.device.sameIdentity device with
        | true =>
          simp only [silent, ite_true]
          refine Faithful.nil_iff.mpr (Set.insert_eq_of_mem ?_).symm
          rw [here] at known
          exact known
        | false =>
          simp only [silent, Bool.false_eq_true, ite_false]
          exact Faithful.here_iff.mpr rfl
  | expire iter now =>
    simp only [tracker, Udp.step, map_news_lost]
    refine Faithful.gone fun id => ?_
    rw [PeerTable.mem_expire]
    simp only [Set.mem_ofPred_eq, hear, ← h id]
    cases peers.map.lookup id with
    | none => simp
    | some p => simp [Peer.stale]
  | stop iter =>
    simp only [tracker, Udp.step, map_news_lost]
    refine Faithful.gone fun id => ?_
    simp only [Set.mem_ofPred_eq, hear, drainIds, (iter.perm _).mem_iff]
    rw [h.isSome, AList.lookup_isSome, AList.mem_keys]
    simp

theorem start_right : (tracker own ttl).Right Fits start := by
  refine ⟨fun _ => rfl, Set.ext fun id => iff_of_false (Set.notMem_empty id) fun there => ?_⟩
  cases there

end Udp

namespace Tailscale

structure PeerJson where
  id : String
  hostName : String
  dnsName : String
  os : String
  tailscaleIps : List String
  online : Bool

def platformForOs (os : String) : Platform :=
  match os.toLower with
  | "windows" => .windows
  | "macos" => .macOS
  | "ios" => .iOS
  | "android" => .android
  | _ => .linux

def deviceTypeForOs (os : String) : DeviceType :=
  match os.toLower with
  | "ios" => .phone
  | "android" => .phone
  | _ => .desktop

structure Config where
  includeOffline : Bool
  peerPort : UInt16

/-- The peers of a status that can be reached, under the names of their nodes or else of their hosts. -/
def parseStatus (config : Config) (now : Int) (peers : List PeerJson) : List Device :=
  peers.filterMap fun peer =>
    if !config.includeOffline && !peer.online then none
    else
      let magic := String.ofList (peer.dnsName.toList.rdropWhile (· = '.'))
      let addresses := peer.tailscaleIps ++ if magic ≠ "" ∧ magic ∉ peer.tailscaleIps then [magic] else []
      if addresses = [] then none
      else
        let rawId := if peer.id ≠ "" then peer.id else magic
        if rawId = "" then none
        else some {
          id := "ts:" ++ rawId
          name := if peer.hostName ≠ "" then peer.hostName else magic
          deviceType := deviceTypeForOs peer.os
          platform := platformForOs peer.os
          addresses
          port := config.peerPort
          lastSeen := now }

structure SnapshotDiffer where
  known : AList fun _ : DeviceId => Device

namespace SnapshotDiffer

def new : SnapshotDiffer := ⟨∅⟩

def sight (acc : SnapshotDiffer × List DiscoveryEvent) (device : Device) : SnapshotDiffer × List DiscoveryEvent :=
  let (d, events) := acc
  match d.known.lookup device.id with
  | none => (⟨d.known.insert device.id device⟩, events ++ [.found device])
  | some prev =>
    if prev.sameIdentity device then (d, events)
    else (⟨d.known.insert device.id device⟩, events ++ [.updated device])

def lost (d : SnapshotDiffer) (iter : IterOrder) (current : List Device) : List DeviceId :=
  (iter.order d.known.keys).filter (· ∉ current.map Device.id)

def diff (d : SnapshotDiffer) (iter : IterOrder) (current : List Device) : SnapshotDiffer × List DiscoveryEvent :=
  let (d, events) := current.foldl sight (d, [])
  let lost := d.lost iter current
  (⟨lost.foldl (fun known id => known.erase id) d.known⟩, events ++ lost.map .lost)

def drainIds (d : SnapshotDiffer) (iter : IterOrder) : SnapshotDiffer × List DeviceId :=
  (.new, iter.order d.known.keys)

def ids (d : SnapshotDiffer) : Set DeviceId := {id | (d.known.lookup id).isSome}

theorem ids_insert (d : SnapshotDiffer) (device : Device) :
    ids ⟨d.known.insert device.id device⟩ = insert device.id d.ids := by
  ext id
  by_cases same : id = device.id
  · subst same
    simp [ids, AList.lookup_insert]
  · simp [ids, AList.lookup_insert_ne same, same]

theorem sight_cases (acc : SnapshotDiffer × List DiscoveryEvent) (device : Device) :
    device.id ∈ acc.1.ids ∧ sight acc device = acc ∨
      ∃ event, news event = .here device.id ∧
        sight acc device = (⟨acc.1.known.insert device.id device⟩, acc.2 ++ [event]) := by
  rw [sight]
  split
  next => exact .inr ⟨.found device, rfl, rfl⟩
  next prev known =>
    split
    · exact .inl ⟨Option.isSome_of_eq_some known, rfl⟩
    · exact .inr ⟨.updated device, rfl, rfl⟩

/-- The news so far take the view to the devices that are known, and call none of them gone. -/
structure Told (before : Set DeviceId) (acc : SnapshotDiffer × List DiscoveryEvent) : Prop where
  view_eq : (acc.2.map news).foldl follow before = acc.1.ids
  quiet : ∀ id, .gone id ∉ acc.2.map news

theorem Told.sight {before : Set DeviceId} {acc : SnapshotDiffer × List DiscoveryEvent} (h : Told before acc)
    (device : Device) : Told before (sight acc device) := by
  rcases sight_cases acc device with ⟨-, same⟩ | ⟨event, here, new⟩
  · rw [same]
    exact h
  · rw [new]
    refine ⟨?_, fun id gone => ?_⟩
    · rw [List.map_append, List.foldl_append, h.view_eq, ids_insert, List.map_singleton, here]
      rfl
    · rw [List.map_append, List.mem_append, List.map_singleton, here] at gone
      rcases gone with early | last
      · exact h.quiet id early
      · cases List.mem_singleton.mp last

theorem ids_sight (acc : SnapshotDiffer × List DiscoveryEvent) (device : Device) :
    (SnapshotDiffer.sight acc device).1.ids = insert device.id acc.1.ids := by
  rcases sight_cases acc device with ⟨known, same⟩ | ⟨event, -, new⟩
  · rw [same, Set.insert_eq_of_mem known]
  · rw [new, ids_insert]

theorem mem_ids_foldl {current : List Device} {acc : SnapshotDiffer × List DiscoveryEvent} {id : DeviceId} :
    id ∈ (current.foldl SnapshotDiffer.sight acc).1.ids ↔ id ∈ acc.1.ids ∨ id ∈ current.map Device.id := by
  induction current generalizing acc with
  | nil => exact (or_iff_left List.not_mem_nil).symm
  | cons device current ih =>
    rw [List.foldl_cons, ih, ids_sight, Set.mem_insert_iff, List.map_cons, List.mem_cons]
    exact or_assoc.trans or_left_comm

variable {d : SnapshotDiffer} {iter : IterOrder} {current : List Device}

theorem mem_lost {id : DeviceId} : id ∈ d.lost iter current ↔ id ∈ d.ids ∧ id ∉ current.map Device.id := by
  rw [lost, List.mem_filter, (iter.perm _).mem_iff, decide_eq_true_eq, ← AList.mem_keys, ← AList.lookup_isSome]
  exact Iff.rfl

/-- What the snapshot shows is known, and nothing else. -/
theorem mem_ids_diff {id : DeviceId} : id ∈ (d.diff iter current).1.ids ↔ id ∈ current.map Device.id := by
  show (AList.lookup id ((SnapshotDiffer.lost _ iter current).foldl _ _)).isSome ↔ _
  rw [lookup_eraseAll]
  split
  next gone => exact iff_of_false Bool.false_ne_true (mem_lost.mp gone).2
  next kept =>
    rw [mem_lost, not_and, not_not] at kept
    exact ⟨kept, fun shown => mem_ids_foldl.mpr (.inr shown)⟩

theorem faithful_diff : Faithful d.ids ((d.diff iter current).2.map news) {id | id ∈ current.map Device.id} := by
  set acc := current.foldl SnapshotDiffer.sight (d, [])
  have told : Told d.ids acc :=
    TransitionRun.invariant ⟨rfl, fun _ => List.not_mem_nil⟩ (fun _ device h => h.sight device) current
  have split : (d.diff iter current).2.map news = acc.2.map news ++ (acc.1.lost iter current).map .gone := by
    rw [← map_news_lost, ← List.map_append]
    rfl
  rw [split]
  refine Faithful.of_gone told.quiet fun id => ?_
  have shown (mem : id ∈ current.map Device.id) : id ∈ acc.1.ids := mem_ids_foldl.mpr (.inr mem)
  rw [told.view_eq, mem_lost, Set.mem_ofPred_eq]
  tauto

end SnapshotDiffer

inductive Input
  /-- A round of the poll; `none` where the status is not to be had or makes no sense. -/
  | poll (iter : IterOrder) (status : Option (List PeerJson)) (now : Int)
  | stop (iter : IterOrder)

variable (config : Config)

def step (d : SnapshotDiffer) : Input → SnapshotDiffer × List DiscoveryEvent
  | .poll _ none _ => (d, [])
  | .poll iter (some status) now => d.diff iter (parseStatus config now status)
  | .stop iter =>
    let (d, lost) := d.drainIds iter
    (d, lost.map .lost)

def latest (ids : List DeviceId) : Input → List DeviceId
  | .poll _ none _ => ids
  | .poll _ (some status) now => (parseStatus config now status).map Device.id
  | .stop _ => []

def tracker : Tracker SnapshotDiffer (List DeviceId) Input DeviceId where
  step d a := (step config d a).1
  news d a := (step config d a).2.map news
  next := latest config
  present ids := {id | id ∈ ids}

def start : Followed SnapshotDiffer (List DeviceId) DeviceId := ⟨.new, [], ∅⟩

def Fits (d : SnapshotDiffer) (ids : List DeviceId) : Prop := d.ids = {id | id ∈ ids}

variable {config} {d : SnapshotDiffer} {ids : List DeviceId}

theorem Fits.step (h : Fits d ids) (a : Input) :
    Fits ((tracker config).step d a) ((tracker config).next ids a) := by
  match a with
  | .poll _ none _ => exact h
  | .poll iter (some status) now => exact Set.ext fun id => SnapshotDiffer.mem_ids_diff
  | .stop _ => exact Set.ext fun id => iff_of_false Bool.false_ne_true List.not_mem_nil

theorem Fits.faithful (h : Fits d ids) (a : Input) : Faithful ((tracker config).present ids)
    ((tracker config).news d a) ((tracker config).present ((tracker config).next ids a)) := by
  rw [show (tracker config).present ids = d.ids from h.symm]
  match a with
  | .poll _ none _ => exact Faithful.nil_iff.mpr h
  | .poll iter (some status) now => exact SnapshotDiffer.faithful_diff
  | .stop iter =>
    show Faithful _ (((d.drainIds iter).2.map DiscoveryEvent.lost).map news) _
    rw [map_news_lost]
    refine Faithful.gone fun id => iff_of_false List.not_mem_nil fun ⟨known, left⟩ => left ?_
    rw [SnapshotDiffer.drainIds, (iter.perm _).mem_iff, ← AList.mem_keys, ← AList.lookup_isSome]
    exact known

theorem start_right : (tracker config).Right Fits start := by
  refine ⟨Set.ext fun id => iff_of_false (fun known => ?_) List.not_mem_nil, Set.ext fun id => ?_⟩
  · cases known
  · exact iff_of_false (Set.notMem_empty id) List.not_mem_nil

end Tailscale

namespace Mdns

structure ServiceInfo where
  fullname : String
  /-- `get_property_val_str`. -/
  property : String → Option String
  addresses : List String
  port : UInt16

def decodeDeviceType : String → DeviceType
  | "Laptop" => .laptop
  | "Phone" => .phone
  | "Tablet" => .tablet
  | "Server" => .server
  | "WebBrowser" => .webBrowser
  | _ => .desktop

def decodePlatform : String → Platform
  | "windows" => .windows
  | "macos" => .macOS
  | "android" => .android
  | "ios" => .iOS
  | "web" => .web
  | _ => .linux

/-- The device a service says it is, unless it lacks an id or has no address. -/
def parseService (info : ServiceInfo) (now : Int) : Option Device :=
  let id := (info.property "id").getD ""
  if id = "" then none
  else if info.addresses = [] then none
  else some {
    id
    name := (info.property "name").getD "Unknown Device"
    deviceType := decodeDeviceType ((info.property "device_type").getD "")
    platform := decodePlatform ((info.property "platform").getD "")
    addresses := info.addresses
    port := info.port
    lastSeen := now }

/-- The map from a service's name to its device id, by which its removal finds what is lost. -/
abbrev Fullnames := AList fun _ : String => DeviceId

inductive Input
  | resolved (info : ServiceInfo) (now : Int)
  | removed (fullname : String)
  | stop (iter : IterOrder)

variable (own : DeviceId)

/-- A service that cannot be read or is this device's own leaves the map as it is. -/
def step (fullnames : Fullnames) : Input → Fullnames × List DiscoveryEvent
  | .resolved info now =>
    match parseService info now with
    | none => (fullnames, [])
    | some device =>
      if device.id = own then (fullnames, [])
      else (fullnames.insert info.fullname device.id, [.found device])
  | .removed fullname => (fullnames.erase fullname, (fullnames.lookup fullname).toList.map .lost)
  | .stop iter => (∅, ((iter.order fullnames.keys).filterMap fullnames.lookup).map .lost)

abbrev Services := String → Option DeviceId

def identOf (info : ServiceInfo) (now : Int) : Option DeviceId :=
  ((parseService info now).map Device.id).filter (· ≠ own)

def resolve (services : Services) : Input → Services
  | .resolved info now => Function.update services info.fullname (identOf own info now)
  | .removed fullname => Function.update services fullname none
  | .stop _ => fun _ => none

def tracker : Tracker Fullnames Services Input DeviceId where
  step fullnames a := (step own fullnames a).1
  news fullnames a := (step own fullnames a).2.map news
  next := resolve own
  present services := {id | ∃ fullname, services fullname = some id}

def start : Followed Fullnames Services DeviceId := ⟨∅, fun _ => none, ∅⟩

def Shared (services : Services) (fullname : String) (id : DeviceId) : Prop :=
  ∃ other, other ≠ fullname ∧ services other = some id

/-- A service that is resolved again keeps its id or leaves it to another service, and one that is removed has an id
of its own. -/
def Clear (fullnames : Fullnames) (services : Services) : Input → Prop
  | .resolved info now => ∀ old, services info.fullname = some old →
    identOf own info now = some old ∨ Shared services info.fullname old
  | .removed fullname => ∀ id, fullnames.lookup fullname = some id → ¬ Shared services fullname id
  | .stop _ => True

def Fits (fullnames : Fullnames) (services : Services) : Prop :=
  ∀ fullname id, services fullname = some id → fullnames.lookup fullname = some id

variable {own} {fullnames : Fullnames} {services : Services}

theorem step_resolved (info : ServiceInfo) (now : Int) :
    (step own fullnames (.resolved info now)).1 =
        (identOf own info now).elim fullnames (fullnames.insert info.fullname) ∧
      (step own fullnames (.resolved info now)).2.map news = (identOf own info now).toList.map .here := by
  rw [step, identOf]
  cases parseService info now with
  | none => exact ⟨rfl, rfl⟩
  | some device =>
    by_cases echo : device.id = own
    · simp [echo, Option.filter_some]
    · simp [echo, news, Option.filter_some]

theorem Fits.step (h : Fits fullnames services) (a : Input) :
    Fits ((tracker own).step fullnames a) ((tracker own).next services a) := by
  intro fullname id found
  cases a with
  | resolved info now =>
    show AList.lookup fullname (Mdns.step own fullnames (.resolved info now)).1 = _
    rw [(step_resolved info now).1]
    simp only [tracker, resolve, Function.update_apply] at found
    by_cases same : fullname = info.fullname
    · rw [if_pos same] at found
      rw [found, same]
      exact AList.lookup_insert _
    · rw [if_neg same] at found
      cases identOf own info now with
      | none => exact h fullname id found
      | some id' => exact (AList.lookup_insert_ne same).trans (h fullname id found)
  | removed fullname' =>
    simp only [tracker, resolve, Function.update_apply] at found
    split at found
    next => cases found
    next other => exact (AList.lookup_erase_ne other).trans (h fullname id found)
  | stop iter => cases found

theorem present_split (fullname : String) {id : DeviceId} : id ∈ (tracker own).present services ↔
    services fullname = some id ∨ Shared services fullname id := by
  constructor
  · rintro ⟨other, found⟩
    by_cases same : other = fullname
    · exact .inl (same ▸ found)
    · exact .inr ⟨other, same, found⟩
  · rintro (found | ⟨other, -, found⟩)
    · exact ⟨fullname, found⟩
    · exact ⟨other, found⟩

theorem present_update {fullname : String} {ident : Option DeviceId} {id : DeviceId} :
    id ∈ (tracker own).present (Function.update services fullname ident) ↔
      ident = some id ∨ Shared services fullname id := by
  rw [present_split fullname, Function.update_self]
  refine or_congr_right (exists_congr fun other => and_congr_right fun apart => ?_)
  rw [Function.update_of_ne apart]

theorem faithful_resolved_iff (info : ServiceInfo) (now : Int) :
    Faithful ((tracker own).present services) ((tracker own).news fullnames (.resolved info now))
        ((tracker own).present ((tracker own).next services (.resolved info now))) ↔
      Clear own fullnames services (.resolved info now) := by
  show Faithful _ ((step own fullnames _).2.map news) _ ↔ _
  rw [(step_resolved info now).2]
  constructor
  · intro h old found
    have kept := Set.ext_iff.mp h.view_eq old
    have there : old ∈ (tracker own).present services := ⟨_, found⟩
    refine present_update.mp (kept.mp ?_)
    cases identOf own info now with
    | none => exact there
    | some id => exact Set.mem_insert_of_mem id there
  · intro clear
    have same (id : DeviceId) : id ∈ (tracker own).present ((tracker own).next services (.resolved info now)) ↔
        identOf own info now = some id ∨ id ∈ (tracker own).present services := by
      rw [@present_split own services info.fullname]
      refine present_update.trans ⟨fun h => h.imp_right Or.inr, fun h => ?_⟩
      rcases h with here | found | shared
      · exact .inl here
      · exact clear id found
      · exact .inr shared
    cases here : identOf own info now with
    | none =>
      refine Faithful.nil_iff.mpr (Set.ext fun id => ?_)
      rw [same, here]
      exact (or_iff_right (nomatch ·)).symm
    | some id' =>
      refine Faithful.here_iff.mpr (Set.ext fun id => ?_)
      rw [same, here, Set.mem_insert_iff, Option.some_inj, eq_comm]

theorem faithful_removed_iff (h : Fits fullnames services) (fullname : String) :
    Faithful ((tracker own).present services) ((tracker own).news fullnames (.removed fullname))
        ((tracker own).present ((tracker own).next services (.removed fullname))) ↔
      Clear own fullnames services (.removed fullname) := by
  have left (id : DeviceId) : id ∈ (tracker own).present ((tracker own).next services (.removed fullname)) ↔
      Shared services fullname id := present_update.trans (or_iff_right (nomatch ·))
  show Faithful _ (((fullnames.lookup fullname).toList.map DiscoveryEvent.lost).map news) _ ↔ _
  cases known : fullnames.lookup fullname with
  | none =>
    refine iff_of_true (Faithful.nil_iff.mpr (Set.ext fun id => ?_)) fun id found => nomatch known.symm.trans found
    rw [left, present_split fullname]
    exact or_iff_right fun found => nomatch known.symm.trans (h fullname id found)
  | some id' =>
    have own_ (id : DeviceId) (found : services fullname = some id) : id = id' :=
      Option.some_inj.mp ((h fullname id found).symm.trans known)
    refine Faithful.gone_iff.trans ⟨fun gone id found => ?_, fun clear => ?_⟩
    · cases known.symm.trans found
      exact fun shared => gone.1 ((left id').mpr shared)
    · have apart : ¬ Shared services fullname id' := clear id' known
      refine ⟨fun there => apart ((left id').mp there), Set.ext fun id => ?_⟩
      rw [left, Set.mem_sdiff, present_split fullname, Set.mem_singleton_iff]
      constructor
      · rintro ⟨found | shared, other⟩
        · exact absurd (own_ id found) other
        · exact shared
      · exact fun shared => ⟨.inr shared, fun same => apart (same ▸ shared)⟩

theorem Fits.faithful_iff (h : Fits fullnames services) (a : Input) :
    Faithful ((tracker own).present services) ((tracker own).news fullnames a)
        ((tracker own).present ((tracker own).next services a)) ↔ Clear own fullnames services a := by
  cases a with
  | resolved info now => exact faithful_resolved_iff info now
  | removed fullname => exact faithful_removed_iff h fullname
  | stop iter =>
    refine iff_of_true ?_ trivial
    show Faithful _ ((((iter.order fullnames.keys).filterMap fullnames.lookup).map DiscoveryEvent.lost).map news) _
    rw [map_news_lost]
    refine Faithful.gone fun id => iff_of_false (fun ⟨_, none_⟩ => nomatch none_) fun ⟨⟨fullname, found⟩, left⟩ => left ?_
    have known := h fullname id found
    refine List.mem_filterMap.mpr ⟨fullname, (iter.perm _).mem_iff.mpr ?_, known⟩
    exact AList.mem_keys.mp (AList.lookup_isSome.mp (Option.isSome_of_eq_some known))

theorem start_right : (tracker own).Right Fits start := by
  refine ⟨fun fullname id found => ?_, Set.ext fun id => iff_of_false (Set.notMem_empty id) fun there => ?_⟩
  · cases found
  · obtain ⟨fullname, found⟩ := there
    cases found

end Mdns

/-- Announcements and snapshots are always told of as they are. Services are for as long as each that is resolved again
keeps its id or leaves it to another, and each that is removed has an id of its own. -/
theorem providers_tell_iff (own : DeviceId) :
    (∀ ttl inputs, Along (Udp.tracker own ttl).watch (Udp.tracker own ttl).Describes Udp.start inputs) ∧
      (∀ config inputs, Along (Tailscale.tracker config).watch (Tailscale.tracker config).Describes
        Tailscale.start inputs) ∧
      ∀ inputs, Along (Mdns.tracker own).watch (Mdns.tracker own).Describes Mdns.start inputs ↔
        Along (Mdns.tracker own).watch (fun f a => Mdns.Clear own f.tracker f.world a) Mdns.start inputs := by
  refine ⟨fun ttl inputs => ?_, fun config inputs => ?_, fun inputs => ?_⟩
  · exact Tracker.describes_along (fun _ _ a h => h.step a) (fun _ _ a h => h.faithful a) Udp.start_right inputs
  · exact Tracker.describes_along (fun _ _ a h => h.step a) (fun _ _ a h => h.faithful a) Tailscale.start_right inputs
  · exact Tracker.describes_along_iff (fun _ _ a h => h.step a) (fun _ _ a h => h.faithful_iff a) Mdns.start_right inputs

private def service (fullname id : String) : Mdns.ServiceInfo :=
  ⟨fullname, fun key => if key = "id" then some id else none, ["10.0.0.7"], 49500⟩

/-- Of two services of one device one is removed: the device is said to be lost that the other still presents. And a
service that is resolved with another id leaves in view the one it had. -/
theorem services_mistold :
    ¬ Along (Mdns.tracker "pb-me").watch (Mdns.tracker "pb-me").Describes Mdns.start
        [.resolved (service "a" "pb-desk") 0, .resolved (service "b" "pb-desk") 1, .removed "a"] ∧
      ¬ Along (Mdns.tracker "pb-me").watch (Mdns.tracker "pb-me").Describes Mdns.start
        [.resolved (service "a" "pb-desk") 0, .resolved (service "a" "pb-den") 1] := by
  constructor
  · intro ⟨_, _, third, _⟩
    exact third.kept "pb-desk" (.head _) ⟨"b", rfl⟩
  · intro ⟨_, second, _⟩
    obtain ⟨fullname, found⟩ := (Set.ext_iff.mp second.view_eq "pb-desk").mp (Or.inr (Or.inl rfl))
    by_cases same : fullname = "a"
    · subst same
      revert found
      decide
    · have missing := (Function.update_of_ne same _ _).symm.trans found
      cases (Function.update_of_ne same _ _).symm.trans missing

end PeerBeam.Discovery
