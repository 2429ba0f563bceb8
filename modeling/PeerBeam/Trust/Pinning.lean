import PeerBeam.Trust.Store

/-! Trust on first use: handshakes that look a device up and pin its key as two separate calls,
interleaved with each other and with the user's operations on instances of one file. -/
namespace PeerBeam.Trust

/-- A handshake whose lookup found nothing and that has yet to pin the key it was shown. -/
structure FirstContact where
  process : Nat
  device : DeviceId
  fingerprint : String
  name : String

/-- The instances on a file and the handshakes under way, by number. -/
structure Handshakes where
  world : World
  waiting : Nat → Option FirstContact

inductive AuthEvent where
  | operate (e : Event)
  /-- A handshake looks up the device that has just proved to hold the key. -/
  | lookup (h : Nat) (contact : FirstContact)
  /-- A handshake that found nothing pins the key. -/
  | pin (h : Nat) (io : Io) (now : Int)

def FirstContact.record (c : FirstContact) (now : Int) : TrustRecord :=
  ⟨c.device, c.fingerprint, c.name, now, false, .none, none, false, false⟩

/-- The operation by which a handshake pins a key. -/
def FirstContact.pinning (c : FirstContact) (io : Io) (now : Int) : Event :=
  ⟨c.process, io, .record (c.record now)⟩

namespace Handshakes
variable (s : Handshakes)

def cached (process : Nat) (d : DeviceId) : Option TrustRecord := (s.world.caches process).bind (· d)

def step : AuthEvent → Handshakes
  | .operate e => { s with world := s.world.step e }
  | .lookup h contact =>
    match s.world.caches contact.process with
    | none => s
    | some cache =>
      match cache contact.device with
      -- A known key ends the exchange, well or badly; an unknown one is pinned next.
      | some _ => s
      | none => { s with waiting := Function.update s.waiting h (some contact) }
  | .pin h io now =>
    match s.waiting h with
    | none => s
    | some contact =>
      ⟨s.world.step (contact.pinning io now), Function.update s.waiting h none⟩

/-- The handshake that succeeds in an event: the device and the fingerprint it presented. -/
def accepts : AuthEvent → Option (DeviceId × String)
  | .operate _ => none
  | .lookup _ contact =>
    match s.cached contact.process contact.device with
    | some r => if r.fingerprint = contact.fingerprint then some (contact.device, r.fingerprint) else none
    | none => none
  | .pin h io _ =>
    match s.waiting h with
    | none => none
    | some contact =>
      -- The pin may fail to be written, and the handshake with it.
      if (s.world.caches contact.process).isSome && io.mergeReads && io.commits then
        some (contact.device, contact.fingerprint)
      else none

end Handshakes

def AuthEvent.Removes (e : AuthEvent) (d : DeviceId) : Prop :=
  ∃ process io, e = .operate ⟨process, io, .remove d⟩

/-- The fingerprint an operation would leave for the device it names is the stored one. -/
def Agrees (w : World) (e : Event) : Prop :=
  ∀ cache, w.caches e.process = some cache → e.op.Writes e.io ⟨w.file, cache⟩ →
    ∀ d disk, e.op.target = some d → w.file d = some disk →
      (∀ r, e.op = .record r → r.fingerprint = disk.fingerprint) ∧
      ∀ c, e.op.copy e.io ⟨w.file, cache⟩ = some c → c.fingerprint = disk.fingerprint

/-- The stored fingerprint of every device that is not removed stays. -/
def KeepsPins (w : World) (e : Event) : Prop :=
  ∀ d disk, w.file d = some disk → e.op ≠ .remove d →
    ∃ r, (w.step e).file d = some r ∧ r.fingerprint = disk.fingerprint

@[simp] theorem change_fingerprint (op : Op) (c : TrustRecord) :
    (op.change c).fingerprint = c.fingerprint := by
  cases op <;> rfl

theorem keepsPins_of_same {w : World} {e : Event} (same : (w.step e).file = w.file) :
    KeepsPins w e := by
  intro d disk stored _
  rw [same]
  exact ⟨disk, stored, rfl⟩

/-- A device the operation does not name keeps the fingerprint of the file. -/
theorem Stored.Wrote.keeps {io : Io} {s : Stored} {op : Op} {file : Records}
    (wrote : Stored.Wrote io s op file) {d : DeviceId} {disk : TrustRecord}
    (stored : s.file d = some disk) (other : op.target ≠ some d) :
    ∃ r, file d = some r ∧ r.fingerprint = disk.fingerprint := by
  rw [wrote.others d other, stored]
  cases s.cache d with
  | none => exact ⟨disk, rfl, rfl⟩
  | some cached => exact ⟨mergeRecord cached disk, rfl, rfl⟩

theorem keepsPins_iff {w : World} {e : Event} : KeepsPins w e ↔ Agrees w e := by
  cases opened : w.caches e.process with
  | none =>
    refine iff_of_true (keepsPins_of_same (World.step_of_closed opened)) ?_
    intro cache unopened
    rw [opened] at unopened
    cases unopened
  | some cache =>
    have stepped := World.step_of_open opened
    obtain ⟨written, unwritten⟩ := Stored.perform_file e.io ⟨w.file, cache⟩ e.op
    by_cases writes : e.op.Writes e.io ⟨w.file, cache⟩
    · have wrote := written writes
      rw [← stepped] at wrote
      constructor
      · intro keeps cache' opened' _ d disk target stored
        obtain rfl : cache = cache' := Option.some.inj (opened.symm.trans opened')
        have leaves := wrote.own d target
        refine ⟨fun r isRecord => ?_, fun c copy => ?_⟩
        · obtain ⟨r', there, same⟩ := keeps d disk stored (by rw [isRecord]; exact Op.noConfusion)
          rw [isRecord] at leaves
          rw [← same, Option.some.inj (there.symm.trans leaves)]
        · obtain ⟨r', there, same⟩ := keeps d disk stored (by rintro isRemove; rw [isRemove] at copy; cases copy)
          unfold Op.Leaves at leaves
          split at leaves
          · next isRecord => rw [isRecord] at copy; cases copy
          · next isRemove => rw [isRemove] at copy; cases copy
          · obtain ⟨c', copy', left⟩ := leaves
            rw [← same, Option.some.inj (there.symm.trans left), change_fingerprint,
              Option.some.inj (copy'.symm.trans copy)]
      · intro agrees d disk stored unremoved
        by_cases target : e.op.target = some d
        · obtain ⟨recorded, copied⟩ := agrees cache opened writes d disk target stored
          have leaves := wrote.own d target
          unfold Op.Leaves at leaves
          split at leaves
          · next r isRecord => exact ⟨r, leaves, recorded r isRecord⟩
          · next d' isRemove =>
            rw [isRemove] at target
            exact absurd (isRemove.trans (congrArg _ (Option.some.inj target))) unremoved
          · obtain ⟨c, copy, left⟩ := leaves
            exact ⟨_, left, (change_fingerprint ..).trans (copied c copy)⟩
        · exact wrote.keeps stored target
    · refine iff_of_true (keepsPins_of_same (stepped.trans (unwritten writes))) ?_
      intro cache' opened' writes'
      obtain rfl : cache = cache' := Option.some.inj (opened.symm.trans opened')
      exact absurd writes' writes

/-- The condition on an event: an operation or a first contact that is written leaves the stored
fingerprint of its device, and a lookup that finds the presented fingerprint finds the stored
one. -/
def PinSafe (s : Handshakes) : AuthEvent → Prop
  | .operate e => Agrees s.world e
  | .lookup _ contact => ∀ r disk, s.cached contact.process contact.device = some r →
      r.fingerprint = contact.fingerprint → s.world.file contact.device = some disk →
      contact.fingerprint = disk.fingerprint
  | .pin h io now => ∀ contact, s.waiting h = some contact → Agrees s.world (contact.pinning io now)

/-- An event that does not remove a pinned device leaves its fingerprint, and no handshake that
succeeds in it presented another. -/
def KeepsKey (s : Handshakes) (e : AuthEvent) : Prop :=
  ∀ d disk, s.world.file d = some disk → ¬ e.Removes d →
    (∃ r, (s.step e).world.file d = some r ∧ r.fingerprint = disk.fingerprint) ∧
    ∀ fingerprint, s.accepts e = some (d, fingerprint) → fingerprint = disk.fingerprint

theorem not_removes_operate {e : Event} {d : DeviceId} :
    ¬ (AuthEvent.operate e).Removes d ↔ e.op ≠ .remove d := by
  constructor
  · intro spared isRemove
    exact spared ⟨e.process, e.io, by rw [← isRemove]⟩
  · rintro spared ⟨process, io, same⟩
    exact spared (congrArg Event.op (AuthEvent.operate.inj same))

theorem keepsKey_operate {s : Handshakes} {e : Event} :
    KeepsKey s (.operate e) ↔ PinSafe s (.operate e) := by
  apply Iff.trans _ keepsPins_iff
  constructor
  · intro keeps d disk stored spared
    exact (keeps d disk stored (not_removes_operate.mpr spared)).1
  · intro keeps d disk stored spared
    refine ⟨keeps d disk stored (not_removes_operate.mp spared), fun fingerprint accepted => ?_⟩
    cases accepted

theorem keepsKey_lookup {s : Handshakes} {h : Nat} {contact : FirstContact} :
    KeepsKey s (.lookup h contact) ↔ PinSafe s (.lookup h contact) := by
  have unremoved : ∀ d, ¬ (AuthEvent.lookup h contact).Removes d := by
    rintro d ⟨_, _, same⟩
    cases same
  have same : (s.step (.lookup h contact)).world = s.world := by
    rw [Handshakes.step]
    split
    · rfl
    · split <;> rfl
  constructor
  · intro keeps r disk found matching stored
    apply (keeps _ disk stored (unremoved _)).2
    rw [Handshakes.accepts, found]
    dsimp only
    rw [if_pos matching, matching]
  · intro safe d disk stored _
    rw [same]
    refine ⟨⟨disk, stored, rfl⟩, fun fingerprint accepted => ?_⟩
    rw [Handshakes.accepts] at accepted
    split at accepted
    · next r found =>
      split at accepted
      · next matching =>
        obtain ⟨rfl, rfl⟩ := Prod.mk.inj (Option.some.inj accepted)
        exact matching.trans (safe r disk found matching stored)
      · cases accepted
    · cases accepted

theorem keepsKey_pin {s : Handshakes} {h : Nat} {io : Io} {now : Int} :
    KeepsKey s (.pin h io now) ↔ PinSafe s (.pin h io now) := by
  have unremoved : ∀ d, ¬ (AuthEvent.pin h io now).Removes d := by
    rintro d ⟨_, _, same⟩
    cases same
  cases waiting : s.waiting h with
  | none =>
    refine iff_of_true ?_ ?_
    · intro d disk stored _
      rw [Handshakes.step, Handshakes.accepts, waiting]
      exact ⟨⟨disk, stored, rfl⟩, fun fingerprint accepted => by cases accepted⟩
    · intro contact found
      rw [waiting] at found
      cases found
  | some contact =>
    have stepped : (s.step (.pin h io now)).world = s.world.step (contact.pinning io now) := by
      rw [Handshakes.step, waiting]
    constructor
    · intro keeps contact' found
      obtain rfl : contact = contact' := Option.some.inj (waiting.symm.trans found)
      apply keepsPins_iff.mp
      intro d disk stored _
      rw [← stepped]
      exact (keeps d disk stored (unremoved d)).1
    · intro safe d disk stored _
      have agrees := safe contact waiting
      rw [stepped]
      refine ⟨keepsPins_iff.mpr agrees d disk stored Op.noConfusion, fun fingerprint accepted => ?_⟩
      rw [Handshakes.accepts, waiting] at accepted
      dsimp only at accepted
      split at accepted
      · next goes =>
        obtain ⟨rfl, rfl⟩ := Prod.mk.inj (Option.some.inj accepted)
        simp only [Bool.and_eq_true] at goes
        obtain ⟨cache, opened⟩ := Option.isSome_iff_exists.mp goes.1.1
        exact (agrees cache opened ⟨goes.1.2, goes.2, trivial⟩ _ disk rfl stored).1 _ rfl
      · cases accepted

theorem keepsKey_iff {s : Handshakes} {e : AuthEvent} : KeepsKey s e ↔ PinSafe s e := by
  cases e with
  | operate e => exact keepsKey_operate
  | lookup h contact => exact keepsKey_lookup
  | pin h io now => exact keepsKey_pin

def Handshakes.start (file : Records) : Handshakes := ⟨⟨file, fun _ => none⟩, fun _ => none⟩

/-- Once a device is pinned, its stored fingerprint stays and every handshake for it that succeeds
presented that fingerprint, until it is removed. -/
def PinsKept (file : Records) (events : List AuthEvent) : Prop :=
  ∀ pre mid post, events = pre ++ mid ++ post → ∀ d disk,
    (pre.foldl Handshakes.step (.start file)).world.file d = some disk → (∀ e ∈ mid, ¬ e.Removes d) →
    (∃ r, ((pre ++ mid).foldl Handshakes.step (.start file)).world.file d = some r ∧
      r.fingerprint = disk.fingerprint) ∧
    ∀ e rest, post = e :: rest → ¬ e.Removes d → ∀ fingerprint,
      ((pre ++ mid).foldl Handshakes.step (.start file)).accepts e = some (d, fingerprint) →
      fingerprint = disk.fingerprint

theorem pin_stays {s : Handshakes} {events : List AuthEvent} {d : DeviceId} {disk : TrustRecord}
    (keeps : TransitionRun.Along Handshakes.step KeepsKey s events)
    (stored : s.world.file d = some disk) (spared : ∀ e ∈ events, ¬ e.Removes d) :
    ∃ r, (events.foldl Handshakes.step s).world.file d = some r ∧
      r.fingerprint = disk.fingerprint := by
  induction events generalizing s disk with
  | nil => exact ⟨disk, stored, rfl⟩
  | cons e events ih =>
    obtain ⟨⟨r, next, same⟩, _⟩ := keeps.1 d disk stored (spared e List.mem_cons_self)
    obtain ⟨r', last, same'⟩ := ih keeps.2 next fun e' mem => spared e' (List.mem_cons_of_mem _ mem)
    exact ⟨r', last, same'.trans same⟩

/-- For every interleaving of handshakes and operations, pins are kept exactly where every event
agrees with the stored fingerprint. -/
theorem pins_kept_iff (file : Records) (events : List AuthEvent) :
    PinsKept file events ↔
      TransitionRun.Along Handshakes.step PinSafe (.start file) events := by
  have steps : TransitionRun.Along Handshakes.step PinSafe (.start file) events ↔
      TransitionRun.Along Handshakes.step KeepsKey (.start file) events := by
    simp only [TransitionRun.along_iff, keepsKey_iff]
  rw [steps]
  constructor
  · intro kept
    apply TransitionRun.along_iff.mpr
    rintro pre e post rfl d disk stored spared
    have before := kept pre [] (e :: post) (by simp) d disk stored fun _ mem =>
      absurd mem List.not_mem_nil
    have after := kept pre [e] post (by simp) d disk stored
      fun e' mem => List.mem_singleton.mp mem ▸ spared
    rw [List.foldl_append] at after
    rw [List.append_nil] at before
    exact ⟨after.1, before.2 e post rfl spared⟩
  · rintro keeps pre mid post rfl d disk stored spared
    obtain ⟨front, back⟩ := TransitionRun.along_append.mp keeps
    have middle := (TransitionRun.along_append.mp front).2
    obtain ⟨r, there, same⟩ := pin_stays middle stored spared
    rw [← List.foldl_append] at there
    refine ⟨⟨r, there, same⟩, ?_⟩
    rintro e rest rfl spared' fingerprint accepted
    exact ((back.1 d r there spared').2 fingerprint accepted).trans same

private def disk : Io := ⟨true, true, true⟩

private def caller (fingerprint : String) : FirstContact := ⟨0, "pb-a", fingerprint, "Peer"⟩

private def firstPin : List AuthEvent :=
  [.operate ⟨0, disk, .open⟩, .lookup 1 (caller "fp-1"), .lookup 2 (caller "fp-2"), .pin 1 disk 0]

/-- Two connections claim the same unknown device under different keys. Both are looked up before
either is pinned; the second pin replaces the first, and both handshakes succeed. -/
theorem second_first_contact_replaces_pin :
    ¬ PinsKept (fun _ => none) (firstPin ++ [.pin 2 disk 0]) := by
  intro kept
  have stored : (firstPin.foldl Handshakes.step (.start fun _ => none)).world.file "pb-a" =
      some ((caller "fp-1").record 0) := by decide
  have accepted : (firstPin.foldl Handshakes.step (.start fun _ => none)).accepts (.pin 2 disk 0) =
      some ("pb-a", "fp-2") := by decide
  have replaced := (kept firstPin [] [.pin 2 disk 0] (by simp) "pb-a" _ stored
    fun _ mem => absurd mem List.not_mem_nil).2 (.pin 2 disk 0) [] rfl
      (by rintro ⟨_, _, same⟩; cases same) "fp-2" (by rw [List.append_nil]; exact accepted)
  revert replaced
  decide

end PeerBeam.Trust
