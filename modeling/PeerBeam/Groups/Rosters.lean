import PeerBeam.Groups.Store
import PeerBeam.Lib.Checked
import PeerBeam.Lib.SortedMap

/-! Rosters under concurrent calls: what every state and every write of a run has to keep, and
the writes that do not. -/
namespace PeerBeam.Groups

structure Group.Fits (me : DeviceId) (g : Group) : Prop where
  nodup : g.members.Nodup
  self : me ∈ g.members
  length : g.members.length ≤ maxMembers

/-- Every record is stored under its id with a roster as it should be. -/
def Sound (me : DeviceId) (rows : Rows) : Prop :=
  ∀ (id : String) (g : Group), rows[id]? = some g → g.id = id ∧ g.Fits me

def Member (rows : Rows) (id : String) (device : DeviceId) : Prop :=
  ∃ g, rows[id]? = some g ∧ device ∈ g.members

namespace Effect

def Drops (id : String) (device : DeviceId) : Effect → Prop
  | .removed d g => g.id = id ∧ d = device
  | .forgot gone => gone = id
  | _ => False

def Brings (id : String) : Effect → Prop
  | .created g | .adopted _ g => g.id = id
  | _ => False

/-- A new record leaves nobody out whom the stored one names; an adopted list repeats nobody; a
record that was read is written back only while it is still stored, and this device is never
taken out of it. -/
def Allowed (me : DeviceId) (rows : Rows) : Effect → Prop
  | .created g => ∀ d, Member rows g.id d → d = me
  | .adopted members g => members.Nodup ∧ ∀ d, Member rows g.id d → d ∈ members ∨ d = me
  | .added _ g | .renamed g => rows[g.id]?.isSome
  | .removed d g => d ≠ me ∧ rows[g.id]?.isSome
  | .forgot _ => True

end Effect

section Writes
variable {me : DeviceId} {rows : Rows}

theorem member_insert {g : Group} {id : String} {d : DeviceId} :
    Member (rows.insert g.id g) id d ↔ if g.id = id then d ∈ g.members else Member rows id d := by
  rw [Member, SortedMap.get_insert]
  split
  · exact ⟨fun ⟨h, same, mem⟩ => Option.some.inj same ▸ mem, fun mem => ⟨g, rfl, mem⟩⟩
  · exact Iff.rfl

theorem sound_insert (sound : Sound me rows) {g : Group} :
    Sound me (rows.insert g.id g) ↔ g.Fits me := by
  constructor
  · intro h
    exact (h g.id g (by rw [SortedMap.get_insert, if_pos rfl])).2
  · intro fits id h found
    rw [SortedMap.get_insert] at found
    split at found
    · cases found
      exact ⟨‹g.id = id›, fits⟩
    · exact sound id h found

/-- What a write has to leave: sound rows, every member it does not drop, and no group that it
does not bring. -/
structure Effect.Keeps (me : DeviceId) (rows : Rows) (e : Effect) : Prop where
  sound : Sound me (e.write rows)
  members : ∀ id d, Member rows id d → Member (e.write rows) id d ∨ e.Drops id d
  absent : ∀ id : String, rows[id]? = none → (e.write rows)[id]? ≠ none → e.Brings id

/-- For a record that is put in, only its own id matters. -/
theorem keeps_insert_iff (sound : Sound me rows) {e : Effect} {g : Group}
    (put : e.write rows = rows.insert g.id g) :
    e.Keeps me rows ↔ g.Fits me ∧ (∀ d, Member rows g.id d → d ∈ g.members ∨ e.Drops g.id d) ∧
      (rows[g.id]? = none → e.Brings g.id) := by
  constructor
  · rintro ⟨fits, members, absent⟩
    rw [put] at fits absent
    refine ⟨(sound_insert sound).mp fits, fun d mem => ?_, fun none => absent g.id none ?_⟩
    · have kept := members g.id d mem
      rw [put, member_insert, if_pos rfl] at kept
      exact kept
    · rw [SortedMap.get_insert, if_pos rfl]
      exact Option.some_ne_none g
  · rintro ⟨fits, members, absent⟩
    refine ⟨put ▸ (sound_insert sound).mpr fits, fun id d mem => ?_, fun id none some => ?_⟩
    · rw [put, member_insert]
      by_cases same : g.id = id
      · subst same
        rw [if_pos rfl]
        exact members d mem
      · rw [if_neg same]
        exact .inl mem
    · rw [put, SortedMap.get_insert] at some
      by_cases same : g.id = id
      · subst same
        exact absent none
      · rw [if_neg same] at some
        exact absurd none some

theorem keeps_forgot (sound : Sound me rows) (gone : String) : (Effect.forgot gone).Keeps me rows where
  sound := by
    intro id g found
    rw [Effect.write, SortedMap.get_erase] at found
    split at found
    · cases found
    · exact sound id g found
  members := by
    rintro id d ⟨g, found, mem⟩
    by_cases same : gone = id
    · exact .inr same
    · refine .inl ⟨g, ?_, mem⟩
      rw [Effect.write, SortedMap.get_erase, if_neg same]
      exact found
  absent := by
    intro id none some
    rw [Effect.write, SortedMap.get_erase] at some
    split at some
    · exact absurd rfl some
    · exact absurd none some

end Writes

/-- The record that is about to be written back still names all that are stored. -/
def Current (rows : Rows) (g : Group) (except : DeviceId → Prop) : Prop :=
  ∀ d, Member rows g.id d → d ∈ g.members ∨ except d

def Effect.Due (me : DeviceId) (rows : Rows) : Effect → Prop
  | .created g => g.members = [me]
  | .adopted members g => g.members = (if me ∈ members then members else members ++ [me]) ∧
      g.members.length ≤ maxMembers
  | .added _ g | .renamed g => g.Fits me ∧ Current rows g fun _ => False
  | .removed d g => g.members.Nodup ∧ g.members.length ≤ maxMembers ∧
      (me ∈ g.members ↔ d ≠ me) ∧ Current rows g (· = d)
  | .forgot _ => True

def Task.Holds (me : DeviceId) (rows : Rows) (lock : Option ThreadId) (t : ThreadId) : Task → Prop
  | .begin _ => True
  | .created g => (Effect.created g).Due me rows
  | .relabel g _ => lock = some t ∧ g.Fits me ∧ Current rows g fun _ => False
  | .writing e => lock = some t ∧ e.Due me rows

structure World.Inv (me : DeviceId) (w : World) : Prop where
  sound : Sound me w.rows
  tasks : ∀ t task, w.threads t = some task → task.Holds me w.rows w.lock t

section Due
variable {me : DeviceId} {rows rows' : Rows} {e : Effect}

theorem fits_singleton {g : Group} (own : g.members = [me]) : g.Fits me := by
  refine ⟨?_, ?_, ?_⟩
  · rw [own]
    exact List.nodup_singleton me
  · rw [own]
    exact List.mem_singleton_self me
  · rw [own]
    exact Nat.le_add_left 1 63

theorem mem_roster {members : List DeviceId} {d : DeviceId} :
    d ∈ (if me ∈ members then members else members ++ [me]) ↔ d ∈ members ∨ d = me := by
  split
  · exact ⟨.inl, fun h => h.elim id fun same => same ▸ ‹me ∈ members›⟩
  · rw [List.mem_append, List.mem_singleton]

theorem nodup_roster {members : List DeviceId} :
    (if me ∈ members then members else members ++ [me]).Nodup ↔ members.Nodup := by
  split
  · exact Iff.rfl
  · refine ⟨List.Nodup.of_append_left, fun distinct => ?_⟩
    exact List.Nodup.append distinct (List.nodup_singleton me)
      (List.disjoint_singleton.mpr ‹me ∉ members›)

/-- A write that is due keeps the rosters exactly if it is allowed. -/
theorem keeps_iff_allowed (sound : Sound me rows) (due : e.Due me rows) :
    e.Keeps me rows ↔ e.Allowed me rows := by
  have stored {id : String} : (rows[id]? = none → False) ↔ rows[id]?.isSome := by
    rw [Option.isSome_iff_ne_none]
  cases e with
  | created g =>
    have own : g.members = [me] := due
    rw [keeps_insert_iff sound rfl, Effect.Allowed, own]
    simp only [List.mem_singleton, Effect.Drops, Effect.Brings, or_false, implies_true, and_true]
    exact and_iff_right (fits_singleton own)
  | adopted members g =>
    obtain ⟨roster, short⟩ := due
    have distinct : g.members.Nodup ↔ members.Nodup := by
      rw [roster]
      exact nodup_roster
    have fits : g.Fits me ↔ members.Nodup := by
      rw [← distinct]
      exact ⟨Group.Fits.nodup, fun nodup => ⟨nodup, roster ▸ mem_roster.mpr (.inr rfl), short⟩⟩
    rw [keeps_insert_iff sound rfl, fits, Effect.Allowed, roster]
    simp only [mem_roster, Effect.Drops, Effect.Brings, or_false, implies_true, and_true]
  | added d g =>
    rw [keeps_insert_iff sound rfl, Effect.Allowed]
    refine (and_iff_right due.1).trans ((and_iff_right due.2).trans ?_)
    exact stored
  | renamed g =>
    rw [keeps_insert_iff sound rfl, Effect.Allowed]
    refine (and_iff_right due.1).trans ((and_iff_right due.2).trans ?_)
    exact stored
  | removed d g =>
    obtain ⟨nodup, short, self, current⟩ := due
    have fits : g.Fits me ↔ d ≠ me := by
      rw [← self]
      exact ⟨Group.Fits.self, fun mem => ⟨nodup, mem, short⟩⟩
    rw [keeps_insert_iff sound rfl, fits, Effect.Allowed]
    refine and_congr_right fun _ => (and_iff_right ?_).trans stored
    exact fun m mem => (current m mem).imp_right fun same => ⟨rfl, same.symm⟩
  | forgot id => exact iff_of_true (keeps_forgot sound id) trivial

/-- Rows that gained at most this device do not disturb a write that is due. -/
theorem Effect.Due.mono (due : e.Due me rows)
    (fewer : ∀ id d, Member rows' id d → Member rows id d ∨ d = me) : e.Due me rows' := by
  cases e with
  | created g => exact due
  | adopted members g => exact due
  | added d g =>
    refine ⟨due.1, fun m mem => ?_⟩
    rcases fewer g.id m mem with old | rfl
    · exact due.2 m old
    · exact .inl due.1.self
  | renamed g =>
    refine ⟨due.1, fun m mem => ?_⟩
    rcases fewer g.id m mem with old | rfl
    · exact due.2 m old
    · exact .inl due.1.self
  | removed d g =>
    obtain ⟨nodup, short, self, current⟩ := due
    refine ⟨nodup, short, self, fun m mem => ?_⟩
    rcases fewer g.id m mem with old | rfl
    · exact current m old
    · by_cases same : d = m
      · exact .inr same.symm
      · exact .inl (self.mpr same)
  | forgot id => trivial

end Due

section Reads
variable {toLowercase : String → String} {me : DeviceId} {w : World} {t : ThreadId}

theorem get_ok {rows : Rows} {id : String} {g : Group} (h : rows.get id = .ok g) :
    rows[id]? = some g := by
  rw [Rows.get] at h
  split at h
  · cases h
    assumption
  · cases h

theorem current_of_read {rows : Rows} (sound : Sound me rows) {id : String} {g : Group}
    (read : rows[id]? = some g) {d : DeviceId} : Member rows g.id d ↔ d ∈ g.members := by
  rw [(sound id g read).1, Member, read]
  exact ⟨fun ⟨h, same, mem⟩ => Option.some.inj same ▸ mem, fun mem => ⟨g, rfl, mem⟩⟩

theorem addMember_task {rows : Rows} (sound : Sound me rows) {id : String} {d : DeviceId}
    {task : Task} (h : addMember rows id d = .ok (some task)) :
    task.Holds me rows (some t) t := by
  rw [addMember] at h
  obtain ⟨_, -, h⟩ := Outcome.ok_of_bind h
  obtain ⟨g, read, h⟩ := Outcome.ok_of_bind h
  split at h
  · cases h
  · rename_i mem
    split at h
    · cases h
    · rename_i full
      cases h
      have stored := get_ok read
      have fits := (sound id g stored).2
      refine ⟨rfl, ⟨?_, List.mem_append_left [d] fits.self, ?_⟩, fun m held => ?_⟩
      · exact fits.nodup.append (List.nodup_singleton d) (List.disjoint_singleton.mpr mem)
      · rw [List.length_append]
        exact Nat.not_lt.mp full
      · exact .inl (List.mem_append_left [d] ((current_of_read sound stored).mp held))

theorem removeMember_task {rows : Rows} (sound : Sound me rows) {id : String} {d : DeviceId}
    {task : Task} (h : removeMember rows id d = .ok (some task)) :
    task.Holds me rows (some t) t := by
  rw [removeMember] at h
  obtain ⟨g, read, h⟩ := Outcome.ok_of_bind h
  cases h
  have stored := get_ok read
  have fits := (sound id g stored).2
  refine ⟨rfl, fits.nodup.filter _, ?_, ?_, fun m held => ?_⟩
  · exact Nat.le_trans (List.length_filter_le _ g.members) fits.length
  · rw [List.mem_filter, and_iff_right fits.self, decide_eq_true_eq]
    exact ne_comm
  · by_cases same : m = d
    · exact .inr same
    · refine .inl (List.mem_filter.mpr ⟨?_, decide_eq_true same⟩)
      exact (current_of_read sound stored).mp held

theorem rename_task {rows : Rows} (sound : Sound me rows) {id name : String} {task : Task}
    (h : rename rows id name = .ok (some task)) : task.Holds me rows (some t) t := by
  rw [rename] at h
  obtain ⟨_, -, h⟩ := Outcome.ok_of_bind h
  obtain ⟨g, read, h⟩ := Outcome.ok_of_bind h
  cases h
  have stored := get_ok read
  exact ⟨rfl, (sound id g stored).2, fun m held => .inl ((current_of_read sound stored).mp held)⟩

theorem createGroup_ok {rows : Rows} {name minted : String} {g : Group}
    (h : createGroup toLowercase me rows name minted = .ok g) : g.id = minted ∧ g.members = [me] := by
  rw [createGroup] at h
  obtain ⟨_, -, h⟩ := Outcome.ok_of_bind h
  split at h
  · cases h
  · cases h
    exact ⟨rfl, rfl⟩

theorem adoptGroup_ok {id name : String} {members : List DeviceId} {g : Group}
    (h : adoptGroup me id name members = .ok g) :
    g.id = id ∧ g.members = (if me ∈ members then members else members ++ [me]) ∧
      g.members.length ≤ maxMembers := by
  rw [adoptGroup] at h
  obtain ⟨_, -, h⟩ := Outcome.ok_of_bind h
  obtain ⟨_, -, h⟩ := Outcome.ok_of_bind h
  by_cases large : maxMembers < (if me ∈ members then members else members ++ [me]).length
  · rw [if_pos large] at h
    cases h
  · rw [if_neg large] at h
    cases h
    exact ⟨rfl, rfl, Nat.not_lt.mp large⟩

/-- Every access of a call: it leaves rows and lock alone, takes or gives back the lock, or
writes. Only the writes of `create` and `forget` are made without the lock. -/
inductive Accessed (me : DeviceId) (w : World) (t : ThreadId) (task : Task) : Access → Prop
  | go (next : Option Task) (free : ∀ n, next = some n → n.Holds me w.rows w.lock t) :
      Accessed me w t task (w.go next)
  | take (next : Task) (free : w.lock = none) (holds : next.Holds me w.rows (some t) t) :
      Accessed me w t task ⟨none, some t, some next⟩
  | release (held : w.lock = some t) : Accessed me w t task ⟨none, none, none⟩
  | write (e : Effect) (due : e.Due me w.rows) (owned : w.lock = none ∨ w.lock = some t) :
      Accessed me w t task ⟨some e, none, none⟩
  | create (g : Group) (due : (Effect.created g).Due me w.rows) :
      Accessed me w t task ⟨some (.created g), w.lock, none⟩
  | forget (id : String) : Accessed me w t task ⟨some (.forgot id), w.lock, none⟩

/-- A call that reads under the lock waits, ends, or goes on with the lock. -/
theorem locked_accessed {task : Task} {call : Call} {outcome : Except GroupError (Option Task)}
    (holds : ∀ next, outcome = .ok (some next) → next.Holds me w.rows (some t) t) :
    Accessed me w t task (w.locked t call outcome) := by
  have begun : ∀ n, some (Task.begin call) = some n → n.Holds me w.rows w.lock t := by
    rintro n ⟨⟩
    trivial
  have ended : ∀ n : Task, none = some n → n.Holds me w.rows w.lock t := by
    rintro n ⟨⟩
  rw [World.locked.eq_def]
  by_cases held : w.lock.isSome
  · rw [if_pos held]
    exact .go _ begun
  · rw [if_neg held]
    match outcome, holds with
    | .error e, _ => exact .go _ ended
    | .ok none, _ => exact .go _ ended
    | .ok (some next), holds =>
      exact .take next (Option.not_isSome_iff_eq_none.mp held) (holds next rfl)

theorem accessed (sound : Sound me w.rows) {task : Task} (holds : task.Holds me w.rows w.lock t) :
    Accessed me w t task (w.access toLowercase me t task) := by
  -- a call that has only begun is free of any condition
  have begun (next : Option Call) :
      ∀ n, next.map Task.begin = some n → n.Holds me w.rows w.lock t := by
    rintro n same
    obtain ⟨call, -, rfl⟩ := Option.map_eq_some_iff.mp same
    trivial
  cases task with
  | begin call =>
    cases call with
    | create name minted =>
      refine .go _ ?_
      intro n made
      obtain ⟨g, ok, rfl⟩ := Option.map_eq_some_iff.mp made
      cases create : createGroup toLowercase me w.rows name minted with
      | error e => rw [create] at ok; cases ok
      | ok g => rw [create] at ok; cases ok; exact (createGroup_ok create).2
    | adopt id name members =>
      rw [World.access]
      split
      · exact .go _ (begun (some (.adopt id name members)))
      · have free : w.lock = none := Option.not_isSome_iff_eq_none.mp ‹_›
        cases adopt : adoptGroup me id name members with
        | error e =>
          have idle : Accessed me w t (.begin (.adopt id name members)) (w.go none) :=
            .go none (begun none)
          rw [World.go, free] at idle
          exact idle
        | ok g => exact .write (.adopted members g) (adoptGroup_ok adopt).2 (.inl free)
    | addMember id d => exact locked_accessed fun next ok => addMember_task sound ok
    | removeMember id d => exact locked_accessed fun next ok => removeMember_task sound ok
    | rename id name => exact locked_accessed fun next ok => rename_task sound ok
    | forget id => exact .forget id
    | apply sender message =>
      cases message with
      | joined group =>
        refine .go _ ?_
        split
        · exact begun (some (.addMember group sender))
        · exact begun none
      | left group =>
        refine .go _ ?_
        split
        · exact begun (some (.removeMember group sender))
        · exact begun none
      | invite group name members => exact .go none (begun none)
      | other => exact .go none (begun none)
  | created g => exact .create g holds
  | relabel g name =>
    rw [World.access]
    split
    · exact .release holds.1
    · refine .go _ ?_
      rintro n ⟨⟩
      exact ⟨holds.1, ⟨holds.2.1.nodup, holds.2.1.self, holds.2.1.length⟩, holds.2.2⟩
  | writing e => exact .write e holds.2 (.inr holds.1)

end Reads

section Runs
variable {toLowercase : String → String} {me : DeviceId} {w : World}

/-- A call in progress is undisturbed as long as its lock is respected and the rows gain at most
this device. -/
theorem Task.Holds.frame {rows rows' : Rows} {lock lock' : Option ThreadId} {t : ThreadId}
    {task : Task} (h : task.Holds me rows lock t)
    (keep : lock = some t → lock' = some t ∧ ∀ id d, Member rows' id d → Member rows id d ∨ d = me) :
    task.Holds me rows' lock' t := by
  cases task with
  | begin call => trivial
  | created g => exact h
  | relabel g name =>
    obtain ⟨locked, fewer⟩ := keep h.1
    exact ⟨locked, Effect.Due.mono (e := .renamed g) h.2 fewer⟩
  | writing e =>
    obtain ⟨locked, fewer⟩ := keep h.1
    exact ⟨locked, h.2.mono fewer⟩

theorem member_erase {rows : Rows} {gone id : String} {d : DeviceId}
    (h : Member (rows.erase gone) id d) : Member rows id d := by
  obtain ⟨g, found, mem⟩ := h
  rw [SortedMap.get_erase] at found
  split at found
  · cases found
  · exact ⟨g, found, mem⟩

/-- The effect of an access and what is left to do, from the list of all accesses. -/
theorem run_inv {t : ThreadId} {task : Task} (inv : w.Inv me) (found : w.threads t = some task)
    {a : Access} (accessed : Accessed me w t task a)
    (ok : ∀ e, a.effect = some e → e.Allowed me w.rows) :
    World.Inv me
      ⟨a.effect.elim w.rows (·.write w.rows), a.lock, Function.update w.threads t a.task⟩ := by
  have written (e : Effect) (due : e.Due me w.rows) (allowed : e.Allowed me w.rows) :
      Sound me (e.write w.rows) := ((keeps_iff_allowed inv.sound due).mpr allowed).sound
  -- the other calls keep what they rely on, and the new state of this one is checked by itself
  have assemble {rows' : Rows} {lock' : Option ThreadId} {next : Option Task}
      (sound : Sound me rows') (own : ∀ n, next = some n → n.Holds me rows' lock' t)
      (others : ∀ u, u ≠ t → w.lock = some u →
        lock' = some u ∧ ∀ id d, Member rows' id d → Member w.rows id d ∨ d = me) :
      World.Inv me ⟨rows', lock', Function.update w.threads t next⟩ := by
    refine ⟨sound, fun u n (here : Function.update w.threads t next u = some n) => ?_⟩
    by_cases same : u = t
    · subst same
      rw [Function.update_self] at here
      exact own n here
    · rw [Function.update_of_ne same] at here
      exact (inv.tasks u n here).frame (others u same)
  have ended {rows' : Rows} {lock' : Option ThreadId} :
      ∀ n : Task, none = some n → n.Holds me rows' lock' t := by
    rintro n ⟨⟩
  cases accessed with
  | go next free => exact assemble inv.sound free fun u _ locked => ⟨locked, fun _ _ => .inl⟩
  | take next free holds =>
    refine assemble inv.sound ?_ fun u _ locked => ?_
    · rintro n ⟨⟩
      exact holds
    · rw [free] at locked
      cases locked
  | release held =>
    refine assemble inv.sound ended fun u other locked => ?_
    rw [held] at locked
    exact absurd (Option.some.inj locked).symm other
  | write e due owned =>
    refine assemble (written e due (ok e rfl)) ended fun u other locked => ?_
    rcases owned with free | held
    · rw [free] at locked
      cases locked
    · rw [held] at locked
      exact absurd (Option.some.inj locked).symm other
  | create g due =>
    refine assemble (written _ due (ok _ rfl)) ended
      fun u _ locked => ⟨locked, fun id d (mem : Member (w.rows.insert g.id g) id d) => ?_⟩
    have own : g.members = [me] := due
    rw [member_insert, own, List.mem_singleton] at mem
    split at mem
    · exact .inr mem
    · exact .inl mem
  | forget id =>
    exact assemble (written (.forgot id) trivial trivial) ended
      fun u _ locked => ⟨locked, fun _ _ mem => .inl (member_erase mem)⟩

/-- A write of a reachable world is one that was due. -/
theorem effect_due (inv : w.Inv me) {event : World.Event} {e : Effect}
    (h : w.effect toLowercase me event = some e) : e.Due me w.rows := by
  cases event with
  | call t call => cases h
  | run t =>
    obtain ⟨task, found, effect⟩ := Option.bind_eq_some_iff.mp h
    have one : Accessed me w t task (w.access toLowercase me t task) :=
      accessed inv.sound (inv.tasks t task found)
    generalize w.access toLowercase me t task = a at one effect
    cases one with
    | go next free => cases effect
    | take next free holds => cases effect
    | release held => cases effect
    | write e' due owned => cases effect; exact due
    | create g due => cases effect; exact due
    | forget id => cases effect; trivial

/-- The condition on an event: its write, if it makes one, is allowed. -/
def World.Allowed (toLowercase : String → String) (me : DeviceId) (w : World) (event : World.Event) :
    Prop := ∀ e, w.effect toLowercase me event = some e → e.Allowed me w.rows

theorem step_inv (inv : w.Inv me) {event : World.Event} (ok : w.Allowed toLowercase me event) :
    (w.step toLowercase me event).Inv me := by
  cases event with
  | call t call =>
    rw [World.step]
    split
    · exact inv
    · refine ⟨inv.sound,
        fun u n (here : Function.update w.threads t (some (.begin call)) u = some n) => ?_⟩
      by_cases same : u = t
      · subst same
        rw [Function.update_self] at here
        cases here
        trivial
      · rw [Function.update_of_ne same] at here
        exact inv.tasks u n here
  | run t =>
    rw [World.step]
    cases found : w.threads t with
    | none => exact inv
    | some task =>
      refine run_inv inv found (accessed inv.sound (inv.tasks t task found)) fun e made => ?_
      refine ok e ?_
      rw [World.effect, found]
      exact made

/-- The rows change by the write of the event alone. -/
theorem step_rows (event : World.Event) :
    (w.step toLowercase me event).rows =
      (w.effect toLowercase me event).elim w.rows (·.write w.rows) := by
  cases event with
  | call t call =>
    rw [World.step]
    split <;> rfl
  | run t =>
    rw [World.step, World.effect]
    cases w.threads t <;> rfl

/-- One event does to the rosters what a whole run may do. -/
structure World.Kept (me : DeviceId) (before after : Rows) (effects : List Effect) : Prop where
  sound : Sound me after
  members : ∀ id d, Member before id d → Member after id d ∨ ∃ e ∈ effects, e.Drops id d
  absent : ∀ id : String, before[id]? = none → after[id]? ≠ none → ∃ e ∈ effects, e.Brings id

theorem World.Kept.trans {rows mid after : Rows} {early late : List Effect}
    (h : Kept me rows mid early) (h' : Kept me mid after late) :
    Kept me rows after (early ++ late) where
  sound := h'.sound
  members := by
    intro id d mem
    have later := fun e (h : e ∈ late) => List.mem_append_right early h
    rcases h.members id d mem with kept | ⟨e, made, drops⟩
    · exact (h'.members id d kept).imp_right fun ⟨e, made, drops⟩ => ⟨e, later e made, drops⟩
    · exact .inr ⟨e, List.mem_append_left late made, drops⟩
  absent := by
    intro id none some
    by_cases still : mid[id]? = Option.none
    · obtain ⟨e, made, brings⟩ := h'.absent id still some
      exact ⟨e, List.mem_append_right early made, brings⟩
    · obtain ⟨e, made, brings⟩ := h.absent id none still
      exact ⟨e, List.mem_append_left late made, brings⟩

/-- For one event of a reachable world, keeping the rosters is the condition on its write. -/
theorem kept_step_iff (inv : w.Inv me) (event : World.Event) :
    World.Kept me w.rows (w.step toLowercase me event).rows (w.effects toLowercase me [event]) ↔
      w.Allowed toLowercase me event := by
  have single : w.effects toLowercase me [event] = (w.effect toLowercase me event).toList :=
    List.append_nil _
  rw [step_rows, single, World.Allowed]
  cases made : w.effect toLowercase me event with
  | none =>
    refine iff_of_true ⟨inv.sound, fun id d mem => .inl mem, fun id none some => ?_⟩ ?_
    · exact absurd none some
    · rintro e ⟨⟩
  | some e =>
    have one {P : Effect → Prop} : (∃ x ∈ (some e).toList, P x) ↔ P e := by simp
    rw [show (∀ x, some e = some x → x.Allowed me w.rows) ↔ e.Allowed me w.rows by simp,
      ← keeps_iff_allowed inv.sound (effect_due inv made)]
    exact ⟨fun ⟨sound, members, absent⟩ => ⟨sound, fun id d mem => (members id d mem).imp_right one.mp,
        fun id none some => one.mp (absent id none some)⟩,
      fun ⟨sound, members, absent⟩ => ⟨sound, fun id d mem => (members id d mem).imp_right one.mpr,
        fun id none some => one.mpr (absent id none some)⟩⟩

end Runs

section Claims
variable (toLowercase : String → String) (me : DeviceId)

def World.idle (rows : Rows) : World := ⟨rows, none, fun _ => none⟩

/-- In every state of the run the rosters are sound, and from any state to any later one no
member is missing that was not removed or forgotten with its group in between, and no group is
there that was absent and neither created nor adopted in between. -/
def RostersKept (start : World) (events : List World.Event) : Prop :=
  ∀ pre mid post, events = pre ++ mid ++ post →
    let w := pre.foldl (World.step toLowercase me) start
    World.Kept me w.rows (mid.foldl (World.step toLowercase me) w).rows (w.effects toLowercase me mid)

variable {toLowercase me}

theorem kept_run {w : World} {events : List World.Event} (inv : w.Inv me)
    (ok : TransitionRun.Along (World.step toLowercase me) (World.Allowed toLowercase me) w events) :
    World.Kept me w.rows (events.foldl (World.step toLowercase me) w).rows
      (w.effects toLowercase me events) := by
  induction events generalizing w with
  | nil => exact ⟨inv.sound, fun id d mem => .inl mem, fun id none some => absurd none some⟩
  | cons event events ih =>
    have first := (kept_step_iff inv event).mpr ok.1
    have split : w.effects toLowercase me (event :: events) =
        w.effects toLowercase me [event] ++ (w.step toLowercase me event).effects toLowercase me events := by
      show _ = (w.effect toLowercase me event).toList ++ [] ++ _
      rw [List.append_nil]
      rfl
    rw [split]
    exact first.trans (ih (step_inv inv ok.1) ok.2)

theorem rostersKept_of_along {w : World} {events : List World.Event} (inv : w.Inv me)
    (ok : TransitionRun.Along (World.step toLowercase me) (World.Allowed toLowercase me) w events) :
    RostersKept toLowercase me w events := by
  rintro pre mid post rfl
  rw [TransitionRun.along_append, TransitionRun.along_append] at ok
  exact kept_run (ok.1.1.invariant inv fun w event inv ok => step_inv inv ok) ok.1.2

theorem along_of_rostersKept {w : World} {events : List World.Event} (inv : w.Inv me)
    (kept : RostersKept toLowercase me w events) :
    TransitionRun.Along (World.step toLowercase me) (World.Allowed toLowercase me) w events := by
  induction events generalizing w with
  | nil => trivial
  | cons event events ih =>
    have ok := (kept_step_iff inv event).mp (kept [] [event] events rfl)
    refine ⟨ok, ih (step_inv inv ok) ?_⟩
    rintro pre mid post rfl
    exact kept (event :: pre) mid post rfl

/-- From any sound store, the rosters are kept throughout a run exactly if each of its writes is
allowed where it is made. -/
theorem rosters_kept_iff (rows : {rows : Rows // Sound me rows}) (events : List World.Event) :
    RostersKept toLowercase me (.idle rows) events ↔
      TransitionRun.Along (World.step toLowercase me) (World.Allowed toLowercase me)
        (.idle rows) events := by
  have inv : (World.idle rows).Inv me := ⟨rows.2, fun t task found => nomatch found⟩
  exact ⟨along_of_rostersKept inv, rostersKept_of_along inv⟩

/-- An invitation that names a device twice is stored so; accepting an invitation again loses who
joined since; and a join that read the group before it was forgotten brings it back. -/
theorem adopted_rosters_not_kept :
    let lower := fun s : String => String.ofList (s.toList.map Char.toLower)
    let accept := [World.Event.call 0 (.adopt "abc" "Trip" ["pb-a"]), .run 0]
    let join := [World.Event.call 0 (.apply "pb-b" (.joined "abc")), .run 0, .run 0]
    ¬ RostersKept lower "pb-me" (.idle ∅) [.call 0 (.adopt "abc" "Trip" ["pb-a", "pb-a"]), .run 0] ∧
      ¬ RostersKept lower "pb-me" (.idle ∅) (accept ++ join ++ [.run 0] ++ accept) ∧
      ¬ RostersKept lower "pb-me" (.idle ∅)
        (accept ++ join ++ [.call 1 (.forget "abc"), .run 1] ++ [.run 0]) := by
  refine ⟨fun h => ?_, fun h => ?_, fun h => ?_⟩
  · have stored := (h [] _ [] (List.append_nil _).symm).sound "abc"
      ⟨"abc", "Trip", ["pb-a", "pb-a", "pb-me"]⟩ (by decide)
    exact absurd stored.2.nodup (by decide)
  · have joined := (h _ _ [] (List.append_nil _).symm).members "abc" "pb-b"
      ⟨⟨"abc", "Trip", ["pb-a", "pb-me", "pb-b"]⟩, by decide, by decide⟩
    rcases joined with ⟨g, found, mem⟩ | ⟨e, made, drops⟩
    · have now : some g = some ⟨"abc", "Trip", ["pb-a", "pb-me"]⟩ := found.symm.trans (by decide)
      rw [Option.some.inj now] at mem
      exact absurd mem (by decide)
    · have only : e ∈ [Effect.adopted ["pb-a"] ⟨"abc", "Trip", ["pb-a", "pb-me"]⟩] := made
      rw [List.mem_singleton.mp only] at drops
      exact drops
  · obtain ⟨e, made, brings⟩ := (h _ _ [] (List.append_nil _).symm).absent "abc" (by decide) (by decide)
    have only : e ∈ [Effect.added "pb-b" ⟨"abc", "Trip", ["pb-a", "pb-me", "pb-b"]⟩] := made
    rw [List.mem_singleton.mp only] at brings
    exact brings

end Claims

end PeerBeam.Groups
