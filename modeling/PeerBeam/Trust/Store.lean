import PeerBeam.Lib.Run
import PeerBeam.Trust.Record

/-! Trust stores on one file: each instance has a cache of its own and writes the whole file,
merged with what it finds there. -/
namespace PeerBeam.Trust

abbrev Records := DeviceId → Option TrustRecord

/-- How the file system answers an operation: whether each read finds a file that parses, and
whether the new file is put in place. -/
structure Io where
  refreshReads : Bool
  mergeReads : Bool
  commits : Bool
  deriving DecidableEq

/-- The earlier of two deadlines, where one that is absent does not count. -/
def earlier : Option Int → Option Int → Option Int
  | some a, some b => some (min a b)
  | some a, none => some a
  | none, b => b

def mergeRecord (cached disk : TrustRecord) : TrustRecord where
  device := disk.device
  fingerprint := disk.fingerprint
  name := if cached.trustedAt ≤ disk.trustedAt then disk.name else cached.name
  trustedAt := min cached.trustedAt disk.trustedAt
  approved := cached.approved && disk.approved
  permissions := cached.permissions.intersect disk.permissions
  expiresAt := earlier cached.expiresAt disk.expiresAt
  mine := if cached.trustedAt ≤ disk.trustedAt then disk.mine else cached.mine
  autoAccept := cached.autoAccept && disk.autoAccept

/-- One device of `merge_from_disk`: what only the cache has stays. -/
def mergeEntry : Option TrustRecord → Option TrustRecord → Option TrustRecord
  | cached, none => cached
  | none, some disk => some disk
  | some cached, some disk => some (mergeRecord cached disk)

/-- The device an operation is about is excluded from the merge: the cache decides. -/
def mergeFromDisk (file cache : Records) (exclude : DeviceId) : Records := fun d =>
  if d = exclude then cache d else mergeEntry (cache d) (file d)

def refreshOne (io : Io) (file cache : Records) (d : DeviceId) : Records :=
  if io.refreshReads then Function.update cache d (file d) else cache

structure Stored where
  file : Records
  cache : Records

/-- Every operation leaves the cache it worked on behind, also when the write fails. -/
def persist (io : Io) (file cache : Records) (exclude : DeviceId) : Stored × Bool :=
  if io.mergeReads then
    let merged := mergeFromDisk file cache exclude
    (⟨if io.commits then merged else file, merged⟩, io.commits)
  else (⟨file, cache⟩, false)

namespace Stored
variable (io : Io) (s : Stored)

/-- An operation and what it answers, where `none` is an error. -/
abbrev Answered := Stored × Option Bool

def answered (out : Stored × Bool) : Answered := (out.1, if out.2 then some true else none)

def record (r : TrustRecord) : Answered :=
  answered (persist io s.file (Function.update s.cache r.device (some r)) r.device)

def lookup (d : DeviceId) : Option TrustRecord := s.cache d

def remove (d : DeviceId) : Answered :=
  if (s.cache d).isSome then answered (persist io s.file (Function.update s.cache d none) d)
  else (s, some false)

/-- The cached record with an approval; an approved one keeps its permissions. -/
def approved (expiresAt : Option Int) (grant : PermissionSet) (r : TrustRecord) : TrustRecord :=
  { r with
    approved := true
    permissions := if r.approved then r.permissions else grant
    expiresAt := expiresAt }

/-- What the operations that change a record do with the cached one: nothing unless there is one
and it changes. `unchanged` is the answer where it does not. -/
def update (file cache : Records) (d : DeviceId) (change : TrustRecord → TrustRecord)
    (unchanged : Bool) : Answered :=
  match cache d with
  | none => (⟨file, cache⟩, some false)
  | some r =>
    if change r = r then (⟨file, cache⟩, some unchanged)
    else answered (persist io file (Function.update cache d (some (change r))) d)

def approveWith (d : DeviceId) (pinSatisfied : Bool) (expiresAt : Option Int)
    (grant : PermissionSet) : Answered :=
  if pinSatisfied then update io s.file s.cache d (approved expiresAt grant) true else (s, none)

def setPermission (d : DeviceId) (p : Permission) (granted : Bool) : Answered :=
  update io s.file (refreshOne io s.file s.cache d) d
    (fun r => { r with permissions := r.permissions.set p granted }) false

def setMine (d : DeviceId) (mine : Bool) : Answered :=
  update io s.file (refreshOne io s.file s.cache d) d (fun r => { r with mine := mine }) false

def setAutoAccept (d : DeviceId) (autoAccept : Bool) : Answered :=
  update io s.file (refreshOne io s.file s.cache d) d
    (fun r => { r with autoAccept := autoAccept }) false

end Stored

inductive Op where
  | open
  | record (r : TrustRecord)
  | approveWith (d : DeviceId) (pinSatisfied : Bool) (expiresAt : Option Int) (grant : PermissionSet)
  | setPermission (d : DeviceId) (p : Permission) (granted : Bool)
  | setMine (d : DeviceId) (mine : Bool)
  | setAutoAccept (d : DeviceId) (autoAccept : Bool)
  | remove (d : DeviceId)

def Op.target : Op → Option DeviceId
  | .open => none
  | .record r => some r.device
  | .approveWith d .. => some d
  | .setPermission d .. => some d
  | .setMine d _ => some d
  | .setAutoAccept d _ => some d
  | .remove d => some d

def Stored.perform (io : Io) (s : Stored) : Op → Answered
  | .open => (s, some true)
  | .record r => s.record io r
  | .approveWith d pinSatisfied expiresAt grant => s.approveWith io d pinSatisfied expiresAt grant
  | .setPermission d p granted => s.setPermission io d p granted
  | .setMine d mine => s.setMine io d mine
  | .setAutoAccept d autoAccept => s.setAutoAccept io d autoAccept
  | .remove d => s.remove io d

def Op.change : Op → TrustRecord → TrustRecord
  | .approveWith _ _ expiresAt grant, c => Stored.approved expiresAt grant c
  | .setPermission _ p granted, c => { c with permissions := c.permissions.set p granted }
  | .setMine _ mine, c => { c with mine := mine }
  | .setAutoAccept _ autoAccept, c => { c with autoAccept := autoAccept }
  | _, c => c

/-- The copy of its device's record that an operation starts from: the cached one, which all
but an approval bring up to date first if the file can be read. -/
def Op.copy (io : Io) (s : Stored) : Op → Option TrustRecord
  | .approveWith d pinSatisfied _ _ => if pinSatisfied then s.cache d else none
  | .setPermission d _ _ => refreshOne io s.file s.cache d d
  | .setMine d _ => refreshOne io s.file s.cache d d
  | .setAutoAccept d _ => refreshOne io s.file s.cache d d
  | _ => none

/-- The operation has something to write, and the file system lets it. -/
def Op.Writes (io : Io) (s : Stored) (op : Op) : Prop :=
  io.mergeReads = true ∧ io.commits = true ∧ match op with
    | .open => False
    | .record _ => True
    | .remove d => (s.cache d).isSome = true
    | op => ∃ c, op.copy io s = some c ∧ op.change c ≠ c

/-- What an operation that writes leaves for the device it names. -/
def Op.Leaves (io : Io) (s : Stored) (op : Op) (left : Option TrustRecord) : Prop :=
  match op with
  | .record r => left = some r
  | .remove _ => left = none
  | op => ∃ c, op.copy io s = some c ∧ left = some (op.change c)

namespace Stored
variable {io : Io} {s : Stored}

theorem persist_file (file cache : Records) (d : DeviceId) :
    (persist io file cache d).1.file =
      if io.mergeReads = true ∧ io.commits = true then mergeFromDisk file cache d else file := by
  rw [persist]
  cases io.mergeReads <;> cases io.commits <;> rfl

theorem refreshOne_of_ne {file cache : Records} {d d' : DeviceId} (other : d' ≠ d) :
    refreshOne io file cache d d' = cache d' := by
  rw [refreshOne]
  split
  · exact Function.update_of_ne other ..
  · rfl

/-- What a record-changing operation leaves of the file. -/
theorem update_file (file cache : Records) (d : DeviceId) (change : TrustRecord → TrustRecord)
    (unchanged : Bool) :
    (update io file cache d change unchanged).1.file =
      if io.mergeReads = true ∧ io.commits = true ∧ ∃ c, cache d = some c ∧ change c ≠ c then
        fun d' => if d' = d then (cache d).map change else mergeEntry (cache d') (file d')
      else file := by
  rw [update]
  cases copy : cache d with
  | none => rw [if_neg (by simp)]
  | some c =>
    dsimp only
    by_cases same : change c = c
    · rw [if_pos same, if_neg (by simp [same])]
    · rw [if_neg same, answered, persist_file]
      by_cases written : io.mergeReads = true ∧ io.commits = true
      · rw [if_pos written, if_pos ⟨written.1, written.2, c, rfl, same⟩]
        funext d'
        rw [mergeFromDisk]
        by_cases own : d' = d
        · rw [if_pos own, if_pos own, own, Function.update_self]
          rfl
        · rw [if_neg own, if_neg own, Function.update_of_ne own]
      · rw [if_neg written, if_neg fun h => written ⟨h.1, h.2.1⟩]

/-- Every operation writes the merge of its cache with the file, and its own device apart. -/
structure Wrote (io : Io) (s : Stored) (op : Op) (file : Records) : Prop where
  others : ∀ d, op.target ≠ some d → file d = mergeEntry (s.cache d) (s.file d)
  own : ∀ d, op.target = some d → op.Leaves io s (file d)

theorem record_file (r : TrustRecord) :
    ((Op.record r).Writes io s → Wrote io s (.record r) (s.record io r).1.file) ∧
    (¬ (Op.record r).Writes io s → (s.record io r).1.file = s.file) := by
  rw [record, answered, persist_file]
  constructor
  · rintro ⟨reads, commits, _⟩
    rw [if_pos ⟨reads, commits⟩]
    refine ⟨fun d other => ?_, fun d own => ?_⟩
    · have other : d ≠ r.device := fun same => other (congrArg some same.symm)
      rw [mergeFromDisk, if_neg other, Function.update_of_ne other]
    · obtain rfl : r.device = d := Option.some.inj own
      show mergeFromDisk .. = some r
      rw [mergeFromDisk, if_pos rfl, Function.update_self]
  · intro quiet
    exact if_neg fun h => quiet ⟨h.1, h.2, trivial⟩

theorem remove_file (d : DeviceId) :
    ((Op.remove d).Writes io s → Wrote io s (.remove d) (s.remove io d).1.file) ∧
    (¬ (Op.remove d).Writes io s → (s.remove io d).1.file = s.file) := by
  rw [remove]
  constructor
  · rintro ⟨reads, commits, known⟩
    rw [if_pos known, answered, persist_file, if_pos ⟨reads, commits⟩]
    refine ⟨fun d' other => ?_, fun d' own => ?_⟩
    · have other : d' ≠ d := fun same => other (congrArg some same.symm)
      rw [mergeFromDisk, if_neg other, Function.update_of_ne other]
    · obtain rfl : d = d' := Option.some.inj own
      show mergeFromDisk .. = none
      rw [mergeFromDisk, if_pos rfl, Function.update_self]
  · intro quiet
    split
    · next known =>
      rw [answered, persist_file]
      exact if_neg fun h => quiet ⟨h.1, h.2, known⟩
    · rfl

/-- The record-changing operations, from the cache they work on. -/
theorem change_file (op : Op) {d : DeviceId} {cache : Records} (target : op.target = some d)
    (unchanged : Bool) (same : ∀ d', d' ≠ d → cache d' = s.cache d')
    (copy : cache d = op.copy io s)
    (writes : op.Writes io s ↔ io.mergeReads = true ∧ io.commits = true ∧
      ∃ c, op.copy io s = some c ∧ op.change c ≠ c)
    (leaves : ∀ left, op.Leaves io s left ↔ ∃ c, op.copy io s = some c ∧ left = some (op.change c)) :
    (op.Writes io s → Wrote io s op (update io s.file cache d op.change unchanged).1.file) ∧
    (¬ op.Writes io s → (update io s.file cache d op.change unchanged).1.file = s.file) := by
  rw [update_file, writes, copy]
  constructor
  · intro h
    rw [if_pos h]
    refine ⟨fun d' other => ?_, fun d' own => ?_⟩
    · have other : d' ≠ d := fun eq => other (target.trans (congrArg some eq.symm))
      rw [if_neg other, same d' other]
    · obtain rfl : d = d' := Option.some.inj (target.symm.trans own)
      obtain ⟨_, _, c, start, _⟩ := h
      rw [if_pos rfl, start]
      exact (leaves _).mpr ⟨c, start, rfl⟩
  · intro h
    exact if_neg h

theorem perform_file (io : Io) (s : Stored) (op : Op) :
    (op.Writes io s → Wrote io s op (s.perform io op).1.file) ∧
    (¬ op.Writes io s → (s.perform io op).1.file = s.file) := by
  cases op with
  | «open» => exact ⟨fun h => h.2.2.elim, fun _ => rfl⟩
  | record r => exact record_file r
  | remove d => exact remove_file d
  | approveWith d pinSatisfied expiresAt grant =>
    cases pinSatisfied with
    | false =>
      refine ⟨?_, fun _ => rfl⟩
      rintro ⟨_, _, c, start, _⟩
      cases start
    | true =>
      exact change_file (.approveWith d true expiresAt grant) rfl true (fun _ _ => rfl) rfl
        Iff.rfl fun _ => Iff.rfl
  | setPermission d p granted =>
    exact change_file (.setPermission d p granted) rfl false
      (fun _ other => refreshOne_of_ne other) rfl Iff.rfl fun _ => Iff.rfl
  | setMine d mine =>
    exact change_file (.setMine d mine) rfl false
      (fun _ other => refreshOne_of_ne other) rfl Iff.rfl fun _ => Iff.rfl
  | setAutoAccept d autoAccept =>
    exact change_file (.setAutoAccept d autoAccept) rfl false
      (fun _ other => refreshOne_of_ne other) rfl Iff.rfl fun _ => Iff.rfl

end Stored

structure World where
  file : Records
  caches : Nat → Option Records

structure Event where
  process : Nat
  io : Io
  op : Op

/-- Opening reads the file into a new cache or fails; every other operation needs an instance
that was opened. -/
def World.step (w : World) (e : Event) : World :=
  match e.op with
  | .open =>
    if e.io.refreshReads then { w with caches := Function.update w.caches e.process (some w.file) }
    else w
  | op =>
    match w.caches e.process with
    | none => w
    | some cache =>
      let s := (Stored.perform e.io ⟨w.file, cache⟩ op).1
      ⟨s.file, Function.update w.caches e.process (some s.cache)⟩

namespace World
variable {w : World} {e : Event}

theorem step_of_closed (closed : w.caches e.process = none) : (w.step e).file = w.file := by
  rw [step]
  split
  · split <;> rfl
  · rw [closed]

theorem step_of_open {cache : Records} (opened : w.caches e.process = some cache) :
    (w.step e).file = (Stored.perform e.io ⟨w.file, cache⟩ e.op).1.file := by
  rw [step]
  split
  · next isOpen =>
    rw [isOpen]
    split <;> rfl
  · rw [opened]

end World

end PeerBeam.Trust
