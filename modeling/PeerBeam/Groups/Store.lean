import PeerBeam.Groups.Record
import PeerBeam.Lib.Run

/-! The group store under concurrent calls. A call is a sequence of accesses to the rows; those
that read a record in order to write it back hold the process's lock in between. -/
namespace PeerBeam.Groups

abbrev Rows := Std.ExtTreeMap String Group

namespace Rows

def get (rows : Rows) (id : String) : Except GroupError Group :=
  match rows[id]? with
  | some g => .ok g
  | none => .error (.unknownGroup id)

/-- Whether a group other than `id` bears the name. -/
def nameTaken (toLowercase : String → String) (rows : Rows) (id : Option String) (name : String) :
    Bool :=
  rows.toList.any fun row =>
    some row.2.id ≠ id && normalise toLowercase row.2.name = normalise toLowercase name

end Rows

/-- A membership message as it decodes; `other` is one of another type or malformed. -/
inductive Message
  | invite (group name : String) (members : List DeviceId)
  | joined (group : String)
  | left (group : String)
  | other
  deriving DecidableEq

inductive Call
  | create (name minted : String)
  | adopt (id name : String) (members : List DeviceId)
  | addMember (id : String) (device : DeviceId)
  | removeMember (id : String) (device : DeviceId)
  | forget (id : String)
  | rename (id name : String)
  | apply (sender : DeviceId) (message : Message)

/-- An access that changes the rows, with the record it writes. -/
inductive Effect
  | created (g : Group)
  | adopted (members : List DeviceId) (g : Group)
  | added (device : DeviceId) (g : Group)
  | removed (device : DeviceId) (g : Group)
  | renamed (g : Group)
  | forgot (id : String)
  deriving DecidableEq

/-- The rows after a write; every record is stored under its own id. -/
def Effect.write (rows : Rows) : Effect → Rows
  | .created g | .adopted _ g | .added _ g | .removed _ g | .renamed g => rows.insert g.id g
  | .forgot id => rows.erase id

/-- Where a call stands. `created` has listed the groups, `relabel` and `writing` hold the lock:
one before its second read, the other before its write. -/
inductive Task
  | begin (call : Call)
  | created (g : Group)
  | relabel (g : Group) (name : String)
  | writing (effect : Effect)

abbrev ThreadId := Nat

structure World where
  rows : Rows
  lock : Option ThreadId
  threads : ThreadId → Option Task

structure Access where
  effect : Option Effect
  lock : Option ThreadId
  task : Option Task

section Calls
variable (toLowercase : String → String) (me : DeviceId) (rows : Rows)

/-- The record `create` will write. -/
def createGroup (name minted : String) : Except GroupError Group := do
  let name ← validateName name
  if rows.nameTaken toLowercase none name then .error (.duplicateName name)
  else .ok ⟨minted, name, [me]⟩

/-- The record `adopt` writes, whatever was stored before. -/
def adoptGroup (id name : String) (members : List DeviceId) : Except GroupError Group := do
  let name ← validateName name
  members.forM validateMember
  let roster := if me ∈ members then members else members ++ [me]
  if maxMembers < roster.length then .error .tooManyMembers else .ok ⟨id, name, roster⟩

/-- The write `add_member` has to do after its read, if any. -/
def addMember (id : String) (device : DeviceId) : Except GroupError (Option Task) := do
  validateMember device
  let g ← rows.get id
  if device ∈ g.members then .ok none
  else if maxMembers < g.members.length + 1 then .error .tooManyMembers
  else .ok (some (.writing (.added device { g with members := g.members ++ [device] })))

def removeMember (id : String) (device : DeviceId) : Except GroupError (Option Task) := do
  let g ← rows.get id
  .ok (some (.writing (.removed device { g with members := g.members.filter (· ≠ device) })))

def rename (id name : String) : Except GroupError (Option Task) := do
  let name ← validateName name
  let g ← rows.get id
  .ok (some (.relabel g name))

end Calls

namespace World
variable (toLowercase : String → String) (me : DeviceId) (w : World)

/-- An access that leaves everything but its own call as it is. -/
def go (task : Option Task) : Access := ⟨none, w.lock, task⟩

/-- A read under the lock, which a call that has nothing to write gives back at once. -/
def locked (t : ThreadId) (call : Call) (outcome : Except GroupError (Option Task)) : Access :=
  if w.lock.isSome then w.go (some (.begin call))
  else
    match outcome with
    | .ok (some task) => ⟨none, some t, some task⟩
    | _ => w.go none

def access (t : ThreadId) : Task → Access
  | .begin (.create name minted) =>
    w.go ((createGroup toLowercase me w.rows name minted).toOption.map .created)
  | .created g => ⟨some (.created g), w.lock, none⟩
  | .begin (.adopt id name members) =>
    if w.lock.isSome then w.go (some (.begin (.adopt id name members)))
    else ⟨(adoptGroup me id name members).toOption.map (.adopted members), none, none⟩
  | .begin (.addMember id device) => w.locked t (.addMember id device) (addMember w.rows id device)
  | .begin (.removeMember id device) =>
    w.locked t (.removeMember id device) (removeMember w.rows id device)
  | .begin (.forget id) => ⟨some (.forgot id), w.lock, none⟩
  | .begin (.rename id name) => w.locked t (.rename id name) (rename w.rows id name)
  | .relabel g name =>
    if w.rows.nameTaken toLowercase (some g.id) name then ⟨none, none, none⟩
    else w.go (some (.writing (.renamed { g with name := name })))
  | .writing effect => ⟨some effect, none, none⟩
  -- a message is about its sender and about a group that is held; nothing else is looked at
  | .begin (.apply sender (.joined group)) =>
    w.go (if w.rows[group]?.isSome then some (.begin (.addMember group sender)) else none)
  | .begin (.apply sender (.left group)) =>
    w.go (if w.rows[group]?.isSome then some (.begin (.removeMember group sender)) else none)
  | .begin (.apply _ (.invite ..)) | .begin (.apply _ .other) => w.go none

/-- A thread starts a call, or makes the next access of the one it is in. -/
inductive Event
  | call (t : ThreadId) (call : Call)
  | run (t : ThreadId)

def effect : Event → Option Effect
  | .call _ _ => none
  | .run t => (w.threads t).bind fun task => (w.access toLowercase me t task).effect

def step : Event → World
  | .call t call =>
    if (w.threads t).isSome then w
    else { w with threads := Function.update w.threads t (some (.begin call)) }
  | .run t =>
    match w.threads t with
    | none => w
    | some task =>
      let a := w.access toLowercase me t task
      ⟨a.effect.elim w.rows (·.write w.rows), a.lock, Function.update w.threads t a.task⟩

def effects : World → List Event → List Effect
  | _, [] => []
  | w, e :: es => (w.effect toLowercase me e).toList ++ (w.step toLowercase me e).effects es

end World

end PeerBeam.Groups
