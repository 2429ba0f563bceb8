import Mathlib.Data.Option.Basic
import PeerBeam.Lib.SortedVec
import PeerBeam.Session.Control

/-! Version and capability negotiation: what each side makes of the two announcements. -/
namespace PeerBeam.Session

/-- `Ord` of a channel type. -/
def Capability.place (cap : Capability) : ℕ := cap.channel.toNat

inductive VersionNegotiation
  | agreed (version : Version)
  | incompatible (local_ peer : Version)
  deriving DecidableEq

def negotiateVersion (local_ peer : Version) : VersionNegotiation :=
  if local_.major = peer.major then .agreed ⟨local_.major, if peer.minor < local_.minor then peer.minor else local_.minor⟩
  else .incompatible local_ peer

namespace CapabilitySet

def new : CapabilitySet := ⟨[]⟩

def insert (s : CapabilitySet) (cap : Capability) : CapabilitySet := ⟨SortedVec.upsert Capability.place cap s.caps⟩

/-- `Deserialize`: a wire array is rebuilt by inserts, whatever its order. -/
def deserialize (raw : List Capability) : CapabilitySet := raw.foldl insert new

def features (s : CapabilitySet) (channel : ChannelType) : Option UInt32 :=
  (SortedVec.get Capability.place channel.toNat s.caps).map (·.features)

def supports (s : CapabilitySet) (channel : ChannelType) : Bool := (s.features channel).isSome

/-- One capability of an intersection: dropped unless the other side has its channel. -/
def meet (other out : CapabilitySet) (cap : Capability) : CapabilitySet :=
  match other.features cap.channel with
  | some theirs => out.insert ⟨cap.channel, cap.features &&& theirs⟩
  | none => out

def intersect (s other : CapabilitySet) : CapabilitySet := s.caps.foldl (meet other) new

/-- The sets a device comes to hold: built by inserts, or read off the wire. -/
inductive Built : CapabilitySet → Prop
  | new : Built new
  | insert {s : CapabilitySet} (cap : Capability) : Built s → Built (s.insert cap)
  | deserialize (raw : List Capability) : Built (deserialize raw)

def Ordered (s : CapabilitySet) : Prop := SortedVec.Sorted Capability.place s.caps

variable {s t u : CapabilitySet} {channel : ChannelType}

theorem ordered_new : Ordered new := List.Pairwise.nil

theorem ordered_insert (ordered : Ordered s) (cap : Capability) : Ordered (s.insert cap) :=
  SortedVec.sorted_upsert ordered cap

theorem ordered_foldl_insert (raw : List Capability) (ordered : Ordered s) : Ordered (raw.foldl insert s) := by
  induction raw generalizing s with
  | nil => exact ordered
  | cons cap raw ih => exact ih (ordered_insert ordered cap)

theorem ordered_meet (other : CapabilitySet) (ordered : Ordered s) (cap : Capability) : Ordered (meet other s cap) := by
  rw [meet]
  split
  · exact ordered_insert ordered _
  · exact ordered

theorem ordered_foldl_meet (other : CapabilitySet) (caps : List Capability) (ordered : Ordered s) :
    Ordered (caps.foldl (meet other) s) := by
  induction caps generalizing s with
  | nil => exact ordered
  | cons cap caps ih => exact ih (ordered_meet other ordered cap)

theorem ordered_intersect (s other : CapabilitySet) : Ordered (s.intersect other) :=
  ordered_foldl_meet other s.caps ordered_new

theorem ordered_deserialize (raw : List Capability) : Ordered (deserialize raw) :=
  ordered_foldl_insert raw ordered_new

theorem Built.ordered (built : Built s) : Ordered s := by
  induction built with
  | new => exact ordered_new
  | insert cap _ ih => exact ordered_insert ih cap
  | deserialize raw => exact ordered_deserialize raw

theorem place_eq {cap : Capability} : cap.place = channel.toNat ↔ cap.channel = channel := UInt16.toNat_inj

/-- The lookup answers what stands in the vector. -/
theorem features_eq_some (ordered : Ordered s) {features : UInt32} :
    s.features channel = some features ↔ ⟨channel, features⟩ ∈ s.caps := by
  rw [CapabilitySet.features, SortedVec.get_eq_lookup ordered, Option.map_eq_some_iff]
  constructor
  · rintro ⟨cap, found, rfl⟩
    obtain ⟨mem, place⟩ := (SortedVec.lookup_eq_some ordered).mp found
    exact place_eq.mp place ▸ mem
  · intro mem
    exact ⟨_, (SortedVec.lookup_eq_some ordered).mpr ⟨mem, rfl⟩, rfl⟩

theorem supports_iff (ordered : Ordered s) : s.supports channel = true ↔ ∃ cap ∈ s.caps, cap.channel = channel := by
  rw [supports, Option.isSome_iff_exists]
  constructor
  · rintro ⟨features, found⟩
    exact ⟨_, (features_eq_some ordered).mp found, rfl⟩
  · rintro ⟨cap, mem, rfl⟩
    exact ⟨cap.features, (features_eq_some ordered).mpr mem⟩

theorem ext_features (orderedS : Ordered s) (orderedT : Ordered t)
    (same : ∀ channel, s.features channel = t.features channel) : s = t := by
  have members (cap : Capability) : cap ∈ s.caps ↔ cap ∈ t.caps := by
    have answers := same cap.channel
    exact (features_eq_some orderedS).symm.trans (answers ▸ features_eq_some orderedT)
  have caps : s.caps = t.caps := by
    apply SortedVec.ext_lookup orderedS orderedT
    intro k
    apply Option.ext
    intro cap
    rw [SortedVec.lookup_eq_some orderedS, SortedVec.lookup_eq_some orderedT, members]
  cases s
  cases t
  exact congrArg CapabilitySet.mk caps

theorem features_insert (ordered : Ordered s) (cap : Capability) :
    (s.insert cap).features channel = if channel = cap.channel then some cap.features else s.features channel := by
  apply Option.ext
  intro features
  have members := (SortedVec.mem_upsert ordered : ⟨channel, features⟩ ∈ SortedVec.upsert Capability.place cap s.caps ↔ _)
  rw [features_eq_some (ordered_insert ordered cap), insert, members]
  split
  · next same =>
    subst same
    constructor
    · rintro (same | ⟨-, other⟩)
      · rw [← same]
      · exact absurd rfl other
    · intro same
      exact .inl (by rw [← Option.some.inj same])
  · next other =>
    rw [features_eq_some ordered]
    constructor
    · rintro (same | ⟨mem, -⟩)
      · exact absurd (congrArg Capability.channel same) other
      · exact mem
    · intro mem
      exact .inr ⟨mem, fun same => other (UInt16.toNat_inj.mp same)⟩

/-- The features of a channel that both sides have. -/
def common : Option UInt32 → Option UInt32 → Option UInt32
  | some ours, some theirs => some (ours &&& theirs)
  | _, _ => none

theorem features_meet (other : CapabilitySet) (ordered : Ordered s) (cap : Capability) :
    (meet other s cap).features channel =
      if channel = cap.channel then (common (some cap.features) (other.features channel)).or (s.features channel)
      else s.features channel := by
  rw [meet]
  by_cases same : channel = cap.channel
  · subst same
    rw [if_pos rfl]
    cases other.features cap.channel with
    | none => rfl
    | some theirs =>
      dsimp only
      rw [features_insert ordered, if_pos rfl]
      rfl
  · rw [if_neg same]
    split
    · rw [features_insert ordered, if_neg same]
    · rfl

theorem features_foldl_meet (other : CapabilitySet) {caps : List Capability}
    (sorted : SortedVec.Sorted Capability.place caps) (ordered : Ordered s) :
    (caps.foldl (meet other) s).features channel =
      (common ((SortedVec.lookup Capability.place channel.toNat caps).map (·.features)) (other.features channel)).or
        (s.features channel) := by
  induction caps generalizing s with
  | nil => rfl
  | cons cap caps ih =>
    obtain ⟨above, sorted⟩ := List.pairwise_cons.mp sorted
    rw [List.foldl_cons, ih sorted (ordered_meet other ordered cap), features_meet other ordered]
    by_cases same : channel = cap.channel
    · have first : SortedVec.lookup Capability.place channel.toNat (cap :: caps) = some cap :=
        List.find?_cons_of_pos (by simp [same, Capability.place])
      have rest : SortedVec.lookup Capability.place channel.toNat caps = none := by
        rw [SortedVec.lookup, List.find?_eq_none]
        intro later mem
        have apart : later.place ≠ cap.channel.toNat := (above later mem).ne'
        rw [same]
        simpa using apart
      rw [if_pos same, first, rest]
      rfl
    · have skip : SortedVec.lookup Capability.place channel.toNat (cap :: caps) =
          SortedVec.lookup Capability.place channel.toNat caps :=
        List.find?_cons_of_neg (by simpa using fun place => same (place_eq.mp place).symm)
      rw [if_neg same, skip]

theorem features_intersect (orderedS : Ordered s) (t : CapabilitySet) :
    (s.intersect t).features channel = common (s.features channel) (t.features channel) := by
  rw [intersect, features_foldl_meet t orderedS ordered_new, ← SortedVec.get_eq_lookup orderedS]
  exact Option.or_none

theorem common_comm (a b : Option UInt32) : common a b = common b a := by
  cases a <;> cases b <;> first | rfl | exact congrArg some (UInt32.and_comm _ _)

theorem common_assoc (a b c : Option UInt32) : common (common a b) c = common a (common b c) := by
  cases a <;> cases b <;> cases c <;> first | rfl | exact congrArg some (UInt32.and_assoc _ _ _)

theorem common_self (a : Option UInt32) : common a a = a := by
  cases a with
  | none => rfl
  | some features => exact congrArg some UInt32.and_self

theorem intersect_comm (orderedS : Ordered s) (orderedT : Ordered t) : s.intersect t = t.intersect s := by
  apply ext_features (ordered_intersect s t) (ordered_intersect t s)
  intro channel
  rw [features_intersect orderedS, features_intersect orderedT, common_comm]

theorem intersect_assoc (orderedS : Ordered s) (orderedT : Ordered t) (u : CapabilitySet) :
    (s.intersect t).intersect u = s.intersect (t.intersect u) := by
  apply ext_features (ordered_intersect _ u) (ordered_intersect s _)
  intro channel
  rw [features_intersect (ordered_intersect s t), features_intersect orderedS, features_intersect orderedS,
    features_intersect orderedT, common_assoc]

theorem intersect_self (ordered : Ordered s) : s.intersect s = s := by
  apply ext_features (ordered_intersect s s) ordered
  intro channel
  rw [features_intersect ordered, common_self]

/-- Of several entries of a channel the last one counts. -/
theorem features_deserialize (raw : List Capability) :
    (deserialize raw).features channel = (raw.reverse.find? (·.channel = channel)).map (·.features) := by
  induction raw using List.reverseRecOn with
  | nil => rfl
  | append_singleton raw cap ih =>
    have last : deserialize (raw ++ [cap]) = (deserialize raw).insert cap := List.foldl_append ..
    rw [last, features_insert (ordered_deserialize raw), ih, List.reverse_append,
      List.reverse_singleton, List.singleton_append]
    by_cases same : channel = cap.channel
    · rw [if_pos same, List.find?_cons_of_pos (by simp [same])]
      rfl
    · rw [if_neg same, List.find?_cons_of_neg (by simpa using fun eq => same eq.symm)]

/-- What is read off the wire is the set that was written. -/
theorem deserialize_caps (ordered : Ordered s) : deserialize s.caps = s := by
  apply ext_features (ordered_deserialize s.caps) ordered
  intro channel
  rw [features_deserialize]
  cases found : s.caps.reverse.find? (·.channel = channel) with
  | none =>
    symm
    rw [Option.map_none, Option.eq_none_iff_forall_ne_some]
    intro features held
    have mem := List.mem_reverse.mpr ((features_eq_some ordered).mp held)
    simpa using List.find?_eq_none.mp found _ mem
  | some cap =>
    have same : cap.channel = channel := by simpa using List.find?_some found
    have mem := List.mem_reverse.mp (List.mem_of_find?_eq_some found)
    exact ((features_eq_some ordered).mpr (same ▸ mem)).symm

end CapabilitySet

/-- The part of `SessionConfig` that a session announces. -/
structure AnnouncedConfig where
  version : Version
  capabilities : CapabilitySet
  deriving DecidableEq

namespace AnnouncedConfig

/-- `Version::CURRENT`. -/
def currentVersion : Version := ⟨1, 0⟩

def new (capabilities : CapabilitySet) : AnnouncedConfig := ⟨currentVersion, capabilities.insert ⟨0, 0⟩⟩

def hello (config : AnnouncedConfig) (sessionId : SessionId) : SessionHello :=
  ⟨config.version, config.capabilities, sessionId⟩

/-- What a hello decodes to at the peer: its capabilities are an array on the wire. -/
def received (hello : SessionHello) : SessionHello :=
  { hello with capabilities := .deserialize hello.capabilities.caps }

/-- What a side makes of the peer's hello; the error names both versions. -/
def negotiate (config : AnnouncedConfig) (peerHello : SessionHello) :
    Except (Version × Version) (Version × CapabilitySet) :=
  match negotiateVersion config.version peerHello.version with
  | .agreed version => .ok (version, config.capabilities.intersect peerHello.capabilities)
  | .incompatible local_ peer => .error (local_, peer)

theorem negotiateVersion_swap (a b : Version) :
    negotiateVersion b a = match negotiateVersion a b with
      | .agreed version => .agreed version
      | .incompatible local_ peer => .incompatible peer local_ := by
  rw [negotiateVersion, negotiateVersion]
  by_cases same : a.major = b.major
  · rw [if_pos same, if_pos same.symm, same]
    dsimp only
    congr 2
    split
    · next lt =>
      rw [if_neg (UInt16.lt_asymm lt)]
    · next ge =>
      split
      · rfl
      · next le => exact UInt16.le_antisymm (UInt16.not_lt.mp ge) (UInt16.not_lt.mp le)
  · rw [if_neg same, if_neg fun eq => same eq.symm]

theorem received_hello {config : AnnouncedConfig} (ordered : config.capabilities.Ordered) (id : SessionId) :
    received (config.hello id) = config.hello id :=
  congrArg (SessionHello.mk config.version · id) (CapabilitySet.deserialize_caps ordered)

/-- Two sides that each intersect with what they received come to one agreement. -/
theorem negotiate_swap {a b : AnnouncedConfig} (orderedA : a.capabilities.Ordered) (orderedB : b.capabilities.Ordered)
    (id id' : SessionId) :
    b.negotiate (received (a.hello id')) = (a.negotiate (received (b.hello id))).mapError Prod.swap := by
  rw [received_hello orderedA, received_hello orderedB, negotiate, negotiate, hello, hello,
    negotiateVersion_swap a.version, CapabilitySet.intersect_comm orderedB orderedA]
  cases negotiateVersion a.version b.version <;> rfl

end AnnouncedConfig

open CapabilitySet in
/-- Sets that are built or received are looked up as lists are, their intersection is an intersection, and the two
ends of a session come to one agreement, whose channels they both support. -/
theorem negotiation_agrees (s t u : CapabilitySet) (builtS : Built s) (builtT : Built t) :
    s.Ordered ∧
    (∀ channel, (s.supports channel = true ↔ ∃ cap ∈ s.caps, cap.channel = channel) ∧
      ∀ features, s.features channel = some features ↔ ⟨channel, features⟩ ∈ s.caps) ∧
    (∀ channel, (s.intersect t).features channel = common (s.features channel) (t.features channel)) ∧
    s.intersect t = t.intersect s ∧
    (s.intersect t).intersect u = s.intersect (t.intersect u) ∧
    s.intersect s = s ∧
    (∀ channel, (s.intersect (deserialize t.caps)).supports channel = (t.intersect (deserialize s.caps)).supports channel) ∧
    ∀ (a b : AnnouncedConfig) (id id' : SessionId), a.capabilities = s → b.capabilities = t →
      b.negotiate (AnnouncedConfig.received (a.hello id')) =
        (a.negotiate (AnnouncedConfig.received (b.hello id))).mapError Prod.swap := by
  have orderedS := builtS.ordered
  have orderedT := builtT.ordered
  refine ⟨orderedS, fun channel => ⟨supports_iff orderedS, fun features => features_eq_some orderedS⟩,
    fun channel => features_intersect orderedS t, intersect_comm orderedS orderedT,
    intersect_assoc orderedS orderedT u, intersect_self orderedS, fun channel => ?_, ?_⟩
  · rw [deserialize_caps orderedS, deserialize_caps orderedT, intersect_comm orderedS orderedT]
  · rintro a b id id' rfl rfl
    exact AnnouncedConfig.negotiate_swap orderedS orderedT id id'

/-- Two arrays off the wire, one unsorted with a channel twice, and one with a channel nobody knows. -/
theorem control_agreed :
    let s := CapabilitySet.deserialize [⟨256, 0⟩, ⟨0, 1⟩, ⟨0, 3⟩]
    let t := CapabilitySet.deserialize [⟨0xABCD, 7⟩, ⟨0, 6⟩]
    s.caps = [⟨0, 3⟩, ⟨256, 0⟩] ∧ s.intersect t = ⟨[⟨0, 2⟩]⟩ ∧ s.intersect t = t.intersect s :=
  ⟨by decide, by decide, (negotiation_agrees _ _ .new (.deserialize _) (.deserialize _)).2.2.2.1⟩

end PeerBeam.Session
