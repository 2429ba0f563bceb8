import PeerBeam.Devices.Replica
import PeerBeam.Lib.KeyedFold

/-! Announcements heard on the local network: the table of the peers they name, and what the store
learns of it through a channel that may drop any event. -/
namespace PeerBeam.Devices

structure Peer where
  device : Device
  lastSeen : Int

structure PeerTable where
  map : AList fun _ : DeviceId => Peer

theorem lookup_eraseAll {β : Type*} (ids : List DeviceId) (map : AList fun _ : DeviceId => β)
    (id : DeviceId) :
    (ids.foldl (fun map id => map.erase id) map).lookup id = if id ∈ ids then none else map.lookup id := by
  induction ids generalizing map with
  | nil => exact (if_neg List.not_mem_nil).symm
  | cons i ids ih =>
    rw [List.foldl_cons, ih]
    by_cases same : id = i
    · subst same
      rw [AList.lookup_erase, if_pos List.mem_cons_self, ite_self]
    · rw [AList.lookup_erase_ne same]
      exact if_congr (List.mem_cons.trans (or_iff_right same)).symm rfl rfl

def Peer.stale (now : Int) (ttl : ℕ) (p : Peer) : Bool := decide ((ttl : Int) < now - p.lastSeen)

namespace PeerTable
variable (t : PeerTable)

def new : PeerTable := ⟨∅⟩

/-- An announcement is news where its peer is new or changed, and else a silent refresh. -/
def observe (device : Device) (now : Int) : PeerTable × Option DiscoveryEvent :=
  match t.map.lookup device.id with
  | none => (⟨t.map.insert device.id ⟨device, now⟩⟩, some (.found device))
  | some entry =>
    (⟨t.map.insert device.id ⟨device, now⟩⟩,
      if entry.device.sameIdentity device then none else some (.updated device))

/-- The peers not heard for longer than `ttl` leave the table. -/
def expire (iter : IterOrder) (now : Int) (ttl : ℕ) : PeerTable × List DeviceId :=
  let stale := (iter.order t.map.keys).filter fun id => (t.map.lookup id).any (·.stale now ttl)
  (⟨stale.foldl (fun map id => map.erase id) t.map⟩, stale)

variable {t}

theorem lookup_observe (device : Device) (now : Int) (id : DeviceId) :
    (t.observe device now).1.map.lookup id =
      if id = device.id then some ⟨device, now⟩ else t.map.lookup id := by
  have inserted : (t.observe device now).1.map = t.map.insert device.id ⟨device, now⟩ := by
    unfold observe
    split <;> rfl
  rw [inserted]
  split
  · next same => subst same; exact AList.lookup_insert _
  · next other => exact AList.lookup_insert_ne other

theorem mem_expire {iter : IterOrder} {now : Int} {ttl : ℕ} {id : DeviceId} :
    id ∈ (t.expire iter now ttl).2 ↔ (t.map.lookup id).any (·.stale now ttl) = true := by
  show id ∈ List.filter _ _ ↔ _
  rw [List.mem_filter, (iter.perm _).mem_iff]
  refine ⟨And.right, fun old => ⟨?_, old⟩⟩
  rw [← AList.mem_keys, ← AList.lookup_isSome]
  cases known : t.map.lookup id with
  | none =>
    rw [known] at old
    cases old
  | some p => rfl

theorem lookup_expire (iter : IterOrder) (now : Int) (ttl : ℕ) (id : DeviceId) :
    (t.expire iter now ttl).1.map.lookup id =
      if (t.map.lookup id).any (·.stale now ttl) = true then none else t.map.lookup id := by
  exact (lookup_eraseAll (t.expire iter now ttl).2 t.map id).trans (if_congr mem_expire rfl rfl)

end PeerTable

namespace DeviceStore
variable (udp : ProviderId) (s : DeviceStore)

def shows (id : DeviceId) : Bool :=
  (s.devices.lookup id).any fun e => e.online && decide (udp ∈ e.providers)

variable {udp s}

theorem shows_setEntry (id id' : DeviceId) (e : Entry) : (s.setEntry id e).shows udp id' =
    if id' = id then e.online && decide (udp ∈ e.providers) else s.shows udp id' := by
  rw [shows, lookup_setEntry]
  split <;> rfl

/-- Below the cap, what is seen is shown. -/
theorem shows_upsert (room : s.devices.keys.length < maxDevices) (device : Device) (id : DeviceId) :
    (s.upsert udp device).1.shows udp id = if id = device.id then true else s.shows udp id := by
  unfold upsert
  split
  · rw [if_neg (Nat.not_le.mpr room)]
    refine (shows_setEntry ..).trans (if_ctx_congr Iff.rfl (fun _ => ?_) fun _ => rfl)
    simp [sighted]
  · refine (shows_setEntry ..).trans (if_ctx_congr Iff.rfl (fun _ => ?_) fun _ => rfl)
    simp [resighted]

theorem remaining_lost (provider : ProviderId) (providers : Finset ProviderId) :
    provider ∉ s.remaining provider providers := by
  intro mem
  unfold remaining at mem
  split at mem
  · exact Finset.notMem_erase _ _ (Finset.mem_filter.mp mem).1
  · exact Finset.notMem_erase _ _ mem

theorem shows_dropProvider (i id : DeviceId) :
    (s.dropProvider udp i).1.shows udp id = if id = i then false else s.shows udp id := by
  have lost (providers : Finset ProviderId) (online : Bool) :
      (online && decide (udp ∈ s.remaining udp providers)) = false := by
    rw [decide_eq_false (remaining_lost udp providers), Bool.and_false]
  rcases s.dropProvider_cases udp i with ⟨unknown, same⟩ | ⟨e, known, ⟨-, gone⟩ | ⟨-, left⟩⟩
  · rw [same]
    split
    · next eq => rw [eq, shows, unknown]; rfl
    · rfl
  · rw [gone]
    exact (shows_setEntry ..).trans (if_ctx_congr Iff.rfl (fun _ => lost ..) fun _ => rfl)
  · rw [left]
    exact (shows_setEntry ..).trans (if_ctx_congr Iff.rfl (fun _ => lost ..) fun _ => rfl)

theorem shows_loseAll (ids : List DeviceId) (id : DeviceId) :
    (ids.foldl (fun s i => (s.dropProvider udp i).1) s).shows udp id =
      if id ∈ ids then false else s.shows udp id := by
  induction ids generalizing s with
  | nil => exact (if_neg List.not_mem_nil).symm
  | cons i ids ih =>
    rw [List.foldl_cons, ih, shows_dropProvider]
    by_cases same : id = i
    · subst same
      rw [if_pos rfl, if_pos List.mem_cons_self, ite_self]
    · rw [if_neg same]
      exact if_congr (List.mem_cons.trans (or_iff_right same)).symm rfl rfl

end DeviceStore

structure Feed where
  table : PeerTable
  store : DeviceStore

structure Announcement where
  device : Device
  now : Int

/-- What happens to the table, and which of the events it gives rise to a lag drops. The table does not read the
store, so that an event reaches the store when it is sent or not at all. -/
inductive Heard
  | announce (a : Announcement) (dropped : Bool)
  | reap (iter : IterOrder) (now : Int) (ttl : ℕ) (dropped : DeviceId → Bool)

namespace Feed
variable (udp : ProviderId)

def deliver (store : DeviceStore) (dropped : Bool) (event : DiscoveryEvent) : DeviceStore :=
  if dropped then store else (store.observe udp event).1

def step (f : Feed) : Heard → Feed
  | .announce a dropped =>
    let (table, event) := f.table.observe a.device a.now
    ⟨table, event.elim f.store (deliver udp f.store dropped)⟩
  | .reap iter now ttl dropped =>
    let (table, lost) := f.table.expire iter now ttl
    ⟨table, lost.foldl (fun store id => deliver udp store (dropped id) (.lost id)) f.store⟩

/-- The devices shown online through the provider are the peers of the table. -/
def Exact (f : Feed) : Prop := ∀ id, f.store.shows udp id = (f.table.map.lookup id).isSome

def Room (f : Feed) (_ : Heard) : Prop := f.store.devices.keys.length < maxDevices

instance (f : Feed) (h : Heard) : Decidable (f.Room h) := inferInstanceAs (Decidable (_ < _))

def view (f : Feed) (id : DeviceId) : Option Peer × Bool := (f.table.map.lookup id, f.store.shows udp id)

end Feed

/-- What is heard of a peer makes it known, and shown where it is news. -/
def Announcement.hear (a : Announcement) (v : Option Peer × Bool) : Option Peer × Bool :=
  (some ⟨a.device, a.now⟩, v.2 || !v.1.any fun p => p.device.sameIdentity a.device)

def reaped (now : Int) (ttl : ℕ) (v : Option Peer × Bool) : Option Peer × Bool :=
  if v.1.any (·.stale now ttl) = true then (none, false) else v

namespace Feed
variable {udp : ProviderId} {f : Feed}

theorem shows_deliver (room : f.store.devices.keys.length < maxDevices) (a : Announcement) (id : DeviceId) :
    (f.step udp (.announce a false)).store.shows udp id =
      if id = a.device.id then (a.hear (f.view udp id)).2 else f.store.shows udp id := by
  have heard (event : DiscoveryEvent) (news : event = .found a.device ∨ event = .updated a.device) :
      (f.store.observe udp event).1.shows udp id =
        if id = a.device.id then true else f.store.shows udp id := by
    rcases news with rfl | rfl <;> exact DeviceStore.shows_upsert room a.device id
  show DeviceStore.shows udp (Option.elim (f.table.observe a.device a.now).2 _ _) id = _
  unfold PeerTable.observe
  cases known : f.table.map.lookup a.device.id with
  | none =>
    refine (heard _ (.inl rfl)).trans (if_ctx_congr Iff.rfl (fun same => ?_) fun _ => rfl)
    rw [Announcement.hear, view, same, known]
    exact (Bool.or_true _).symm
  | some p =>
    by_cases silent : p.device.sameIdentity a.device = true
    · simp only [silent, ite_true, Option.elim_none]
      split
      · next same =>
        rw [Announcement.hear, view, same, known, Option.any_some, silent]
        exact (Bool.or_false _).symm
      · rfl
    · simp only [silent, Bool.false_eq_true, ite_false, Option.elim_some]
      refine (heard _ (.inr rfl)).trans (if_ctx_congr Iff.rfl (fun same => ?_) fun _ => rfl)
      rw [Announcement.hear, view, same, known, Option.any_some, Bool.eq_false_iff.mpr silent]
      exact (Bool.or_true _).symm

theorem view_announce (room : f.store.devices.keys.length < maxDevices) (a : Announcement) (id : DeviceId) :
    (f.step udp (.announce a false)).view udp id =
      if id = a.device.id then a.hear (f.view udp id) else f.view udp id := by
  have table := PeerTable.lookup_observe (t := f.table) a.device a.now id
  rw [view, shows_deliver room]
  split
  · next same =>
    rw [if_pos same] at table
    exact Prod.ext table rfl
  · next other =>
    rw [if_neg other] at table
    exact Prod.ext table rfl

theorem view_reap (iter : IterOrder) (now : Int) (ttl : ℕ) (id : DeviceId) :
    (f.step udp (.reap iter now ttl fun _ => false)).view udp id = reaped now ttl (f.view udp id) := by
  have table := PeerTable.lookup_expire (t := f.table) iter now ttl id
  have lost := @DeviceStore.shows_loseAll udp f.store (f.table.expire iter now ttl).2 id
  rw [if_congr PeerTable.mem_expire rfl rfl] at lost
  unfold reaped
  split
  · next old =>
    rw [view, if_pos old] at *
    exact Prod.ext table lost
  · next recent =>
    rw [view, if_neg recent] at *
    exact Prod.ext table lost

/-- Each of the peers that announce is heard once, and nobody else. -/
theorem view_announceAll {heard : List Announcement} (each : (heard.map (·.device.id)).Nodup)
    (room : TransitionRun.Along (step udp) Room f (heard.map (.announce · false))) :
    let f' := (heard.map (.announce · false)).foldl (step udp) f
    (∀ a ∈ heard, f'.view udp a.device.id = a.hear (f.view udp a.device.id)) ∧
      ∀ id, id ∉ heard.map (·.device.id) → f'.view udp id = f.view udp id := by
  induction heard generalizing f with
  | nil => exact ⟨fun _ => nofun, fun _ _ => rfl⟩
  | cons first heard ih =>
    obtain ⟨new, each⟩ := List.nodup_cons.mp each
    obtain ⟨own, others⟩ := ih each room.2
    have stepped := @view_announce udp f room.1 first
    constructor
    · intro a mem
      rcases List.mem_cons.mp mem with rfl | later
      · exact (others _ new).trans ((stepped _).trans (if_pos rfl))
      · have apart : a.device.id ≠ first.device.id := fun same =>
        new (List.mem_map.mpr ⟨a, later, same⟩)
        exact (own a later).trans (congrArg a.hear ((stepped _).trans (if_neg apart)))
    · intro id absent
      obtain ⟨apart, absent⟩ := not_or.mp (List.mem_cons.not.mp absent)
      exact (others id absent).trans ((stepped id).trans (if_neg apart))

end Feed

structure Round where
  before : List Announcement
  after : List Announcement
  iter : IterOrder
  now : Int
  ttl : ℕ

namespace Round
variable (udp : ProviderId) (r : Round) (f : Feed)

def announcing : List DeviceId := (r.before ++ r.after).map (·.device.id)

def steps : List Heard :=
  r.before.map (.announce · false) ++
    .reap r.iter r.now r.ttl (fun _ => false) :: r.after.map (.announce · false)

structure Full : Prop where
  once : r.announcing.Nodup
  all : ∀ id, (f.table.map.lookup id).isSome → id ∈ r.announcing

/-- A peer of whom the round brings no news is shown already, and who is shown announces. -/
structure Repairable : Prop where
  early : ∀ a ∈ r.before, ∀ p, f.table.map.lookup a.device.id = some p → p.device.sameIdentity a.device →
    (r.ttl : Int) < r.now - a.now ∨ f.store.shows udp a.device.id
  late : ∀ a ∈ r.after, ∀ p, f.table.map.lookup a.device.id = some p → p.device.sameIdentity a.device →
    p.stale r.now r.ttl ∨ f.store.shows udp a.device.id
  heard : ∀ id, f.store.shows udp id → id ∈ r.announcing

variable {udp r f}

/-- What a round makes of each device. -/
theorem view_steps (once : r.announcing.Nodup)
    (room : TransitionRun.Along (Feed.step udp) Feed.Room f r.steps) :
    let f' := r.steps.foldl (Feed.step udp) f
    (∀ a ∈ r.before, f'.view udp a.device.id = reaped r.now r.ttl (a.hear (f.view udp a.device.id))) ∧
      (∀ a ∈ r.after, f'.view udp a.device.id = a.hear (reaped r.now r.ttl (f.view udp a.device.id))) ∧
      ∀ id, id ∉ r.announcing → f'.view udp id = reaped r.now r.ttl (f.view udp id) := by
  obtain ⟨room₁, -, room₂⟩ := TransitionRun.along_append.mp room
  rw [announcing, List.map_append] at once
  obtain ⟨once₁, once₂, apart⟩ := List.nodup_append.mp once
  obtain ⟨own₁, others₁⟩ := Feed.view_announceAll once₁ room₁
  obtain ⟨own₂, others₂⟩ := Feed.view_announceAll once₂ room₂
  have split : r.steps.foldl (Feed.step udp) f = (r.after.map (.announce · false)).foldl (Feed.step udp)
      (((r.before.map (.announce · false)).foldl (Feed.step udp) f).step udp
        (.reap r.iter r.now r.ttl fun _ => false)) := by
    rw [steps, List.foldl_append, List.foldl_cons]
  rw [split]
  refine ⟨fun a mem => ?_, fun a mem => ?_, fun id absent => ?_⟩
  · have early : a.device.id ∈ r.before.map (·.device.id) := List.mem_map_of_mem mem
    have quiet : a.device.id ∉ r.after.map (·.device.id) := fun late => apart _ early _ late rfl
    rw [others₂ _ quiet, Feed.view_reap, own₁ a mem]
  · have late : a.device.id ∈ r.after.map (·.device.id) := List.mem_map_of_mem mem
    have quiet : a.device.id ∉ r.before.map (·.device.id) := fun early => apart _ early _ late rfl
    rw [own₂ a mem, Feed.view_reap, others₁ _ quiet]
  · rw [announcing, List.map_append, List.mem_append, not_or] at absent
    rw [others₂ _ absent.2, Feed.view_reap, others₁ _ absent.1]

theorem Full.unknown (h : r.Full f) {id : DeviceId} (absent : id ∉ r.announcing) :
    f.table.map.lookup id = none :=
  Option.not_isSome_iff_eq_none.mp fun known => absent (h.all id known)

/-- Both sides have the device, or neither does. -/
def Agrees (v : Option Peer × Bool) : Prop := v.2 = v.1.isSome

theorem agrees_early {a : Announcement} {v : Option Peer × Bool} {now : Int} {ttl : ℕ} :
    Agrees (reaped now ttl (a.hear v)) ↔ ∀ p, v.1 = some p → p.device.sameIdentity a.device = true →
      (ttl : Int) < now - a.now ∨ v.2 = true := by
  obtain ⟨p, shown⟩ := v
  by_cases old : (ttl : Int) < now - a.now
  · cases p <;> simp [Agrees, reaped, Announcement.hear, Peer.stale, old]
  · cases p with
    | none => simp [Agrees, reaped, Announcement.hear, Peer.stale, old]
    | some p => cases same : p.device.sameIdentity a.device <;>
        simp [Agrees, reaped, Announcement.hear, Peer.stale, old, same]

theorem agrees_late {a : Announcement} {v : Option Peer × Bool} {now : Int} {ttl : ℕ} :
    Agrees (a.hear (reaped now ttl v)) ↔ ∀ p, v.1 = some p → p.device.sameIdentity a.device = true →
      p.stale now ttl = true ∨ v.2 = true := by
  obtain ⟨p, shown⟩ := v
  cases p with
  | none => simp [Agrees, reaped, Announcement.hear]
  | some p =>
    cases old : p.stale now ttl <;> cases same : p.device.sameIdentity a.device <;>
      simp [Agrees, reaped, Announcement.hear, old, same]

/-- After any run through a channel that drops what it will, a round without a drop makes the store show exactly
the peers of the table if and only if it brings news of all that the two do not have in common. -/
theorem repaired_iff (udp : ProviderId) (store : DeviceStore) (history : List Heard) (r : Round)
    (full : r.Full (history.foldl (Feed.step udp) ⟨.new, store⟩))
    (room : TransitionRun.Along (Feed.step udp) Feed.Room (history.foldl (Feed.step udp) ⟨.new, store⟩) r.steps) :
    Feed.Exact udp ((history ++ r.steps).foldl (Feed.step udp) ⟨.new, store⟩) ↔
      r.Repairable udp (history.foldl (Feed.step udp) ⟨.new, store⟩) := by
  rw [List.foldl_append]
  set f := history.foldl (Feed.step udp) ⟨.new, store⟩
  obtain ⟨early, late, quiet⟩ := view_steps full.once room
  have exact (id : DeviceId) : (r.steps.foldl (Feed.step udp) f).store.shows udp id =
      ((r.steps.foldl (Feed.step udp) f).table.map.lookup id).isSome ↔
        Agrees ((r.steps.foldl (Feed.step udp) f).view udp id) := Iff.rfl
  constructor
  · intro all
    refine ⟨fun a mem p known same => ?_, fun a mem p known same => ?_, fun id shown => ?_⟩
    · have agrees := (exact a.device.id).mp (all _)
      rw [early a mem] at agrees
      exact agrees_early.mp agrees p known same
    · have agrees := (exact a.device.id).mp (all _)
      rw [late a mem] at agrees
      exact agrees_late.mp agrees p known same
    · by_contra absent
      have agrees := (exact id).mp (all id)
      rw [quiet id absent, Feed.view, full.unknown absent, shown] at agrees
      cases agrees
  · intro h id
    rw [exact id]
    by_cases announces : id ∈ r.announcing
    · obtain ⟨a, mem, rfl⟩ := List.mem_map.mp announces
      rcases List.mem_append.mp mem with mem | mem
      · rw [early a mem]
        exact agrees_early.mpr (h.early a mem)
      · rw [late a mem]
        exact agrees_late.mpr (h.late a mem)
    · have hidden : f.store.shows udp id = false := Bool.eq_false_iff.mpr fun shown => announces (h.heard id shown)
      rw [quiet id announces, Feed.view, full.unknown announces, hidden]
      rfl

end Round

private def speaker : Device := ⟨"pb-speaker", "Speaker", .desktop, .linux, ["10.0.0.7"], 49500, 0⟩

private def later : Round := ⟨[⟨speaker, 2⟩], [], ⟨id, fun _ => .rfl⟩, 2, 6⟩

private def nobody : DeviceStore := .new fun _ => some ⟨false, false⟩

private theorem later_full (dropped : Bool) :
    later.Full ([Heard.announce ⟨speaker, 0⟩ dropped].foldl (Feed.step "udp") ⟨.new, nobody⟩) := by
  refine ⟨by decide, fun id known => ?_⟩
  have table := PeerTable.lookup_observe (t := .new) speaker 0 id
  by_cases same : id = speaker.id
  · rw [same]
    decide
  · rw [if_neg same] at table
    cases (congrArg Option.isSome table).symm.trans known

/-- The event by which the speaker was found is dropped: it announces itself again, unchanged, and the store does
not have it after all. -/
theorem missed_device_stays_missed :
    let f := [Heard.announce ⟨speaker, 0⟩ true].foldl (Feed.step "udp") ⟨.new, nobody⟩
    later.Full f ∧ TransitionRun.Along (Feed.step "udp") Feed.Room f later.steps ∧
      ¬ Feed.Exact "udp" (later.steps.foldl (Feed.step "udp") f) := by
  refine ⟨later_full true, by decide, fun exact => ?_⟩
  have shown := exact "pb-speaker"
  revert shown
  decide

/-- Had the event arrived, the round would have kept the two in step. -/
theorem heard_device_stays_shown :
    Feed.Exact "udp" (([Heard.announce ⟨speaker, 0⟩ false] ++ later.steps).foldl (Feed.step "udp") ⟨.new, nobody⟩) := by
  refine (Round.repaired_iff "udp" nobody [.announce ⟨speaker, 0⟩ false] later (later_full false)
    (by decide)).mpr ⟨?_, ?_, fun id shown => ?_⟩
  · intro a mem p _ _
    obtain rfl := List.mem_singleton.mp mem
    exact .inr (by decide)
  · exact fun _ => nofun
  · by_contra absent
    have other : id ≠ speaker.id := fun same => absent (List.mem_singleton.mpr same)
    have seen := @Feed.shows_deliver "udp" ⟨.new, nobody⟩ (by decide) ⟨speaker, 0⟩ id
    cases shown.symm.trans (seen.trans (if_neg other))

end PeerBeam.Devices
