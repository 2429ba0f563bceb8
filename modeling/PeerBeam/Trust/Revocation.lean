import PeerBeam.Trust.Store

/-! Whether what was withdrawn from a device stays withdrawn, over every run of operations by any
number of instances on one file. -/
namespace PeerBeam.Trust

inductive Thing where
  | pinned
  | approved
  | permission (p : Permission)
  /-- Trust that has not run out at an instant. -/
  | lasts (t : Int)
  | autoAccept

def Thing.HeldBy : Thing → TrustRecord → Prop
  | .pinned, _ => True
  | .approved, r => r.approved = true
  | .permission p, r => r.permissions.grants p = true
  | .lasts t, r => ∀ deadline, r.expiresAt = some deadline → t < deadline
  | .autoAccept, r => r.autoAccept = true

def Granted (records : Records) (d : DeviceId) (x : Thing) : Prop :=
  ∃ r, records d = some r ∧ x.HeldBy r

def Op.Grants : Op → DeviceId → Thing → Prop
  | .record r, d, x => r.device = d ∧ x.HeldBy r
  | .approveWith d' _ expiresAt grant, d, x => d' = d ∧ match x with
    | .approved => True
    | .permission p => grant.grants p = true
    | .lasts t => ∀ deadline, expiresAt = some deadline → t < deadline
    | _ => False
  | .setPermission d' p granted, d, x => d' = d ∧ x = .permission p ∧ granted = true
  | .setAutoAccept d' autoAccept, d, x => d' = d ∧ x = .autoAccept ∧ autoAccept = true
  | _, _, _ => False

/-- The operation decides the thing itself, whatever the record it starts from says. -/
def Op.Overwrites : Op → TrustRecord → Thing → Prop
  | .approveWith .., c, x => match x with
    | .approved => True
    | .permission _ => c.approved = false
    | .lasts _ => True
    | _ => False
  | .setPermission _ p _, _, x => x = .permission p
  | .setAutoAccept .., _, x => x = .autoAccept
  | _, _, _ => False

theorem Op.target_of_grants {op : Op} {d : DeviceId} {x : Thing} (h : op.Grants d x) :
    op.target = some d := by
  cases op with
  | «open» => exact h.elim
  | record r => exact congrArg some h.1
  | approveWith d' _ _ _ => exact congrArg some h.1
  | setPermission d' _ _ => exact congrArg some h.1
  | setMine d' _ => exact h.elim
  | setAutoAccept d' _ => exact congrArg some h.1
  | remove d' => exact h.elim

/-- What a changed record holds it was granted by the operation or held before. -/
theorem Op.kept_of_change {io : Io} {s : Stored} {op : Op} {d : DeviceId} {c : TrustRecord}
    {x : Thing} (target : op.target = some d) (copy : op.copy io s = some c)
    (held : x.HeldBy (op.change c)) (ungranted : ¬ op.Grants d x) :
    x.HeldBy c ∧ ¬ op.Overwrites c x := by
  cases op with
  | «open» => cases copy
  | record r => cases copy
  | remove d' => cases copy
  | approveWith d' pinSatisfied expiresAt grant =>
    obtain rfl : d' = d := Option.some.inj target
    cases x with
    | pinned => exact ⟨trivial, id⟩
    | approved => exact absurd ⟨rfl, trivial⟩ ungranted
    | permission p =>
      cases before : c.approved with
      | true =>
        have held : (if c.approved then c.permissions else grant).grants p = true := held
        rw [before, if_pos rfl] at held
        exact ⟨held, by simp [Op.Overwrites, before]⟩
      | false =>
        have held : (if c.approved then c.permissions else grant).grants p = true := held
        rw [before, if_neg Bool.false_ne_true] at held
        exact absurd ⟨rfl, held⟩ ungranted
    | lasts t => exact absurd ⟨rfl, held⟩ ungranted
    | autoAccept => exact ⟨held, id⟩
  | setPermission d' p granted =>
    obtain rfl : d' = d := Option.some.inj target
    cases x with
    | permission q =>
      have held : (c.permissions.set p granted).grants q = true := held
      rw [PermissionSet.grants_set] at held
      split at held
      · next same => exact absurd ⟨rfl, congrArg _ same, held⟩ ungranted
      · next other => exact ⟨held, fun same => other (Thing.permission.inj same)⟩
    | pinned => exact ⟨held, Thing.noConfusion⟩
    | approved => exact ⟨held, Thing.noConfusion⟩
    | lasts t => exact ⟨held, Thing.noConfusion⟩
    | autoAccept => exact ⟨held, Thing.noConfusion⟩
  | setMine d' mine => exact ⟨by cases x <;> exact held, id⟩
  | setAutoAccept d' autoAccept =>
    obtain rfl : d' = d := Option.some.inj target
    cases x with
    | autoAccept => exact absurd ⟨rfl, rfl, held⟩ ungranted
    | pinned => exact ⟨held, Thing.noConfusion⟩
    | approved => exact ⟨held, Thing.noConfusion⟩
    | permission p => exact ⟨held, Thing.noConfusion⟩
    | lasts t => exact ⟨held, Thing.noConfusion⟩

/-- What an operation does not decide stays as the record had it. -/
theorem Op.change_of_kept {op : Op} {c : TrustRecord} {x : Thing} (held : x.HeldBy c)
    (kept : ¬ op.Overwrites c x) : x.HeldBy (op.change c) := by
  cases op with
  | «open» => exact held
  | record r => exact held
  | remove d => exact held
  | approveWith d pinSatisfied expiresAt grant =>
    cases x with
    | pinned => trivial
    | approved => exact absurd trivial kept
    | permission p =>
      have before : c.approved = true := by simpa [Op.Overwrites] using kept
      show (if c.approved then c.permissions else grant).grants p = true
      rw [before]
      exact held
    | lasts t => exact absurd trivial kept
    | autoAccept => exact held
  | setPermission d p granted =>
    cases x with
    | permission q =>
      have other : q ≠ p := fun same => kept (congrArg _ same)
      show (c.permissions.set p granted).grants q = true
      rw [PermissionSet.grants_set, if_neg other]
      exact held
    | pinned => trivial
    | approved => exact held
    | lasts t => exact held
    | autoAccept => exact held
  | setMine d mine => cases x <;> exact held
  | setAutoAccept d autoAccept =>
    cases x with
    | autoAccept => exact absurd rfl kept
    | pinned => trivial
    | approved => exact held
    | permission p => exact held
    | lasts t => exact held

/-- A merge grants no more than the file does. -/
theorem heldBy_of_merge {cached disk : TrustRecord} {x : Thing}
    (held : x.HeldBy (mergeRecord cached disk)) : x.HeldBy disk := by
  cases x with
  | pinned => trivial
  | approved => exact (Bool.and_eq_true_iff.mp held).2
  | permission p =>
    have held : (cached.permissions.intersect disk.permissions).grants p = true := held
    rw [PermissionSet.grants_intersect] at held
    exact (Bool.and_eq_true_iff.mp held).2
  | lasts t =>
    intro deadline there
    have held : ∀ deadline, earlier cached.expiresAt disk.expiresAt = some deadline →
        t < deadline := held
    rw [there] at held
    cases own : cached.expiresAt with
    | none => exact held deadline (by rw [own]; rfl)
    | some mine => exact lt_of_lt_of_le (held (min mine deadline) (by rw [own]; rfl)) (min_le_right ..)
  | autoAccept => exact (Bool.and_eq_true_iff.mp held).2

/-- The instances on a file, and what the file has held before. -/
structure Logged where
  world : World
  past : List Records

def Logged.start (file : Records) : Logged := ⟨⟨file, fun _ => none⟩, []⟩

def Logged.step (l : Logged) (e : Event) : Logged := ⟨l.world.step e, l.world.file :: l.past⟩

def Logged.Withdrawn (l : Logged) (d : DeviceId) (x : Thing) : Prop :=
  ¬ Granted l.world.file d x ∧ ∃ f ∈ l.past, Granted f d x

/-- The condition on an operation that writes: its instance has cached no record of a removed
device, except perhaps of the one it names, and the copy of that one's record it starts from
holds nothing withdrawn beyond what the operation decides itself. -/
def Current (l : Logged) (e : Event) : Prop :=
  ∀ cache, l.world.caches e.process = some cache → e.op.Writes e.io ⟨l.world.file, cache⟩ →
    (∀ d, e.op.target ≠ some d → (cache d).isSome = true → ¬ l.Withdrawn d .pinned) ∧
    ∀ d c x, e.op.target = some d → e.op.copy e.io ⟨l.world.file, cache⟩ = some c →
      x.HeldBy c → ¬ e.op.Overwrites c x → ¬ e.op.Grants d x → ¬ l.Withdrawn d x

/-- Nothing withdrawn comes back by a step that does not grant it. -/
def Final (l : Logged) (e : Event) : Prop :=
  ∀ d x, l.Withdrawn d x → ¬ e.op.Grants d x → ¬ Granted (l.step e).world.file d x

section Step
variable {l : Logged} {e : Event} {cache : Records}

theorem final_of_unwritten (same : (l.step e).world.file = l.world.file) : Final l e := by
  intro d x withdrawn _
  rw [same]
  exact withdrawn.1

/-- Whatever a write leaves for a device it does not name. -/
theorem final_others {file : Records} (wrote : Stored.Wrote e.io ⟨l.world.file, cache⟩ e.op file)
    {d : DeviceId} {x : Thing} (other : e.op.target ≠ some d) (withdrawn : l.Withdrawn d x)
    (fresh : (cache d).isSome = true → ¬ l.Withdrawn d .pinned) : ¬ Granted file d x := by
  rintro ⟨r, written, held⟩
  have written : mergeEntry (cache d) (l.world.file d) = some r := (wrote.others d other).symm.trans written
  cases stored : l.world.file d with
  | none =>
    rw [stored] at written
    have cached : cache d = some r := written
    have removed : l.Withdrawn d .pinned := by
      obtain ⟨_, f, earlier, r', was, _⟩ := withdrawn
      refine ⟨?_, f, earlier, r', was, trivial⟩
      rintro ⟨_, still, _⟩
      rw [stored] at still
      cases still
    exact fresh (by rw [cached]; rfl) removed
  | some disk =>
    rw [stored] at written
    apply withdrawn.1
    cases copy : cache d with
    | none =>
      rw [copy] at written
      exact ⟨r, stored.trans written, held⟩
    | some cached =>
      rw [copy] at written
      rw [← Option.some.inj written] at held
      exact ⟨disk, stored, heldBy_of_merge held⟩

/-- Whatever a write leaves for the device it names. -/
theorem final_own {file : Records} (wrote : Stored.Wrote e.io ⟨l.world.file, cache⟩ e.op file)
    {d : DeviceId} {x : Thing} (target : e.op.target = some d) (withdrawn : l.Withdrawn d x)
    (ungranted : ¬ e.op.Grants d x)
    (fresh : ∀ c, e.op.copy e.io ⟨l.world.file, cache⟩ = some c → x.HeldBy c →
      ¬ e.op.Overwrites c x → ¬ l.Withdrawn d x) : ¬ Granted file d x := by
  rintro ⟨r, written, held⟩
  have leaves := wrote.own d target
  rw [written] at leaves
  have changed : ∀ c, e.op.copy e.io ⟨l.world.file, cache⟩ = some c →
      some r = some (e.op.change c) → False := by
    intro c copy same
    rw [Option.some.inj same] at held
    obtain ⟨before, kept⟩ := Op.kept_of_change target copy held ungranted
    exact fresh c copy before kept withdrawn
  unfold Op.Leaves at leaves
  split at leaves
  · next r' isRecord =>
    rw [isRecord] at ungranted target
    exact ungranted ⟨Option.some.inj target, Option.some.inj leaves ▸ held⟩
  · cases leaves
  · obtain ⟨c, copy, same⟩ := leaves
    exact changed c copy same

/-- A step is final exactly where its instance is current. -/
theorem final_iff_current : Final l e ↔ Current l e := by
  cases opened : l.world.caches e.process with
  | none =>
    refine iff_of_true (final_of_unwritten (World.step_of_closed opened)) ?_
    intro cache unopened
    rw [opened] at unopened
    cases unopened
  | some cache =>
    have stepped : (l.step e).world.file =
        (Stored.perform e.io ⟨l.world.file, cache⟩ e.op).1.file := World.step_of_open opened
    obtain ⟨written, unwritten⟩ := Stored.perform_file e.io ⟨l.world.file, cache⟩ e.op
    by_cases writes : e.op.Writes e.io ⟨l.world.file, cache⟩
    · have wrote := written writes
      rw [← stepped] at wrote
      constructor
      · intro final cache' opened' _
        obtain rfl : cache = cache' := Option.some.inj (opened.symm.trans opened')
        refine ⟨fun d other cached removed => ?_, fun d c x target copy held kept ungranted gone => ?_⟩
        · obtain ⟨r, cached⟩ := Option.isSome_iff_exists.mp cached
          have absent : l.world.file d = none := by
            by_contra present
            obtain ⟨disk, stored⟩ := Option.ne_none_iff_exists'.mp present
            exact removed.1 ⟨disk, stored, trivial⟩
          have back : (l.step e).world.file d = some r := by
            rw [wrote.others d other]
            show mergeEntry (cache d) (l.world.file d) = some r
            rw [absent, cached]
            rfl
          exact final d .pinned removed (fun grants => other (Op.target_of_grants grants))
            ⟨r, back, trivial⟩
        · have leaves := wrote.own d target
          have back : (l.step e).world.file d = some (e.op.change c) := by
            unfold Op.Leaves at leaves
            split at leaves
            · next isRecord => rw [isRecord] at copy; cases copy
            · next isRemove => rw [isRemove] at copy; cases copy
            · obtain ⟨c', copy', same⟩ := leaves
              rw [same, Option.some.inj (copy'.symm.trans copy)]
          exact final d x gone ungranted ⟨_, back, Op.change_of_kept held kept⟩
      · intro current d x withdrawn ungranted
        obtain ⟨others, own⟩ := current cache opened writes
        by_cases target : e.op.target = some d
        · exact final_own wrote target withdrawn ungranted fun c copy held kept =>
            own d c x target copy held kept ungranted
        · exact final_others wrote target withdrawn (others d target)
    · refine iff_of_true (final_of_unwritten (stepped.trans (unwritten writes))) ?_
      intro cache' opened' writes'
      obtain rfl : cache = cache' := Option.some.inj (opened.symm.trans opened')
      exact absurd writes' writes

end Step

/-- Over a stretch of a run in which no operation grants it, a thing stays withdrawn. -/
theorem withdrawn_stays {l : Logged} {events : List Event} {d : DeviceId} {x : Thing}
    (final : TransitionRun.Along Logged.step Final l events) (withdrawn : l.Withdrawn d x)
    (quiet : ∀ e ∈ events, ¬ e.op.Grants d x) : (events.foldl Logged.step l).Withdrawn d x := by
  induction events generalizing l with
  | nil => exact withdrawn
  | cons e events ih =>
    have ungranted := quiet e List.mem_cons_self
    obtain ⟨f, earlier, granted⟩ := withdrawn.2
    have next : (l.step e).Withdrawn d x :=
      ⟨final.1 d x withdrawn ungranted, f, List.mem_cons_of_mem _ earlier, granted⟩
    exact ih final.2 next fun e' mem => quiet e' (List.mem_cons_of_mem _ mem)

/-- Revocation is final in a run: once the file has withdrawn something, it does not grant it
again before an operation that names the device and grants it. -/
def RevocationFinal (file : Records) (events : List Event) : Prop :=
  ∀ pre mid post, events = pre ++ mid ++ post → ∀ d x,
    (pre.foldl Logged.step (.start file)).Withdrawn d x → (∀ e ∈ mid, ¬ e.op.Grants d x) →
    ¬ Granted ((pre ++ mid).foldl Logged.step (.start file)).world.file d x

/-- For every run of any number of instances on one file, revocation is final exactly where
every operation is made by an instance that is current. -/
theorem revocation_final_iff (file : Records) (events : List Event) :
    RevocationFinal file events ↔
      TransitionRun.Along Logged.step Current (.start file) events := by
  have steps : TransitionRun.Along Logged.step Current (.start file) events ↔
      TransitionRun.Along Logged.step Final (.start file) events := by
    simp only [TransitionRun.along_iff, final_iff_current]
  rw [steps]
  constructor
  · intro final
    apply TransitionRun.along_iff.mpr
    rintro pre e post rfl d x withdrawn ungranted
    have after := final pre [e] post (by simp) d x withdrawn
      fun e' mem => List.mem_singleton.mp mem ▸ ungranted
    rw [List.foldl_append] at after
    exact after
  · rintro final pre mid post rfl d x withdrawn quiet
    have middle := (TransitionRun.along_append.mp (TransitionRun.along_append.mp final).1).2
    rw [List.foldl_append]
    exact (withdrawn_stays middle withdrawn quiet).1

private def working : Io := ⟨true, true, true⟩

private def known (d : DeviceId) : TrustRecord := ⟨d, "fp", "Peer", 0, true, .grantedOnApproval, none, false, false⟩

private def twoKnown : Records := fun d => if d = "pb-a" ∨ d = "pb-b" then some (known d) else none

private def staleRun : List Event :=
  [⟨0, working, .open⟩, ⟨1, working, .open⟩, ⟨0, working, .remove "pb-a"⟩]

private def lateWrite : Event := ⟨1, working, .setMine "pb-b" true⟩

/-- The user removes a device in one process; a second process, which opened the store before,
marks another device as the user's own and writes the removed record back. -/
theorem removed_record_reappears :
    ¬ RevocationFinal twoKnown (staleRun ++ [lateWrite]) := by
  intro final
  have gone : ((staleRun.foldl Logged.step (.start twoKnown)).world.file "pb-a").isSome = false := by
    decide
  have back : (((staleRun ++ [lateWrite]).foldl Logged.step (.start twoKnown)).world.file
      "pb-a").isSome = true := by decide
  have withdrawn : (staleRun.foldl Logged.step (.start twoKnown)).Withdrawn "pb-a" .pinned := by
    refine ⟨?_, twoKnown, ?_, known "pb-a", rfl, trivial⟩
    · rintro ⟨r, there, _⟩
      rw [there] at gone
      cases gone
    · exact .tail _ (.tail _ (.head _))
  obtain ⟨r, there⟩ := Option.isSome_iff_exists.mp back
  refine final staleRun [lateWrite] [] (List.append_nil _).symm "pb-a" .pinned withdrawn ?_ ⟨r, there, trivial⟩
  intro e mem grants
  rw [List.mem_singleton.mp mem] at grants
  exact grants

end PeerBeam.Trust
