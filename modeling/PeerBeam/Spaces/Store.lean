import PeerBeam.Groups.Record
import PeerBeam.Lib.Pool
import PeerBeam.Lib.SortedMap

/-! Spaces: named sets of devices, kept as one record each. An edit reads the record, changes one field
and writes the whole record back; nothing holds it in between. -/
namespace PeerBeam.Spaces
open Groups (isWhitespace isControl trim)

abbrev DeviceId := String

def maxName : ℕ := 128
def maxDeviceId : ℕ := 128

inductive SpaceError
  | emptyName (raw : String)
  | nameTooLong (len : ℕ)
  | undisplayableName (position : ℕ)
  | nameTaken (wanted existing : String)
  | badMember (id reason : String)
  | unknownMember (id : String)
  | trustUnreadable (id reason : String)
  | notFound (id : String)
  | storage (reason : String)
  | serialization (reason : String)
  deriving DecidableEq

structure Space where
  id : String
  name : String
  members : List DeviceId
  deriving DecidableEq

/-- A space with its members sorted by whether they are trusted now. -/
structure SpaceView where
  id : String
  name : String
  live : List DeviceId
  stale : List DeviceId
  deriving DecidableEq

def Space.view (s : Space) (isTrusted : DeviceId → Bool) : SpaceView :=
  ⟨s.id, s.name, s.members.filter isTrusted, s.members.filter fun m => !isTrusted m⟩

def normalise (toLowercase : String → String) (name : String) : String := toLowercase (trim name)

def undisplayable (c : Char) : Bool :=
  isControl c || c.toNat = 0x200e || c.toNat = 0x200f || (0x202a ≤ c.toNat && c.toNat ≤ 0x202e) ||
    (0x2066 ≤ c.toNat && c.toNat ≤ 0x2069)

def validateName (raw : String) : Except SpaceError String :=
  let name := trim raw
  if name.toList = [] then .error (.emptyName raw)
  else if maxName < name.utf8ByteSize then .error (.nameTooLong name.utf8ByteSize)
  else
    match name.toList.findIdx? undisplayable with
    | some position => .error (.undisplayableName position)
    | none => .ok name

def validateMember (id : DeviceId) : Except SpaceError Unit :=
  if id.toList = [] then .error (.badMember id "empty")
  else if maxDeviceId < id.utf8ByteSize then
    .error (.badMember id (toString id.utf8ByteSize ++ " bytes (max " ++ toString maxDeviceId ++ ")"))
  else
    match id.toList.findIdx? fun c => isControl c || isWhitespace c with
    | some position =>
      .error (.badMember id ("whitespace or a control character at char " ++ toString position))
    | none => .ok ()

/-- A stored value: a space, or why it does not decode. -/
abbrev Row := Except String Space

abbrev Rows := Std.ExtTreeMap String Row

inductive Call
  | get (id : String)
  | list
  | put (s : Space)
  | delete (id : String)

abbrev Call.Answer : Call → Type
  | .get _ => Option Row
  | .list => List (String × Row)
  | .put _ => Unit
  | .delete _ => Bool

def Rows.exec (rows : Rows) : (c : Call) → Except SpaceError c.Answer × Rows
  | .get id => (.ok rows[id]?, rows)
  | .list => (.ok rows.toList, rows)
  | .put s => (.ok (), rows.insert s.id (.ok s))
  | .delete id => (.ok rows[id]?.isSome, rows.erase id)

abbrev Prog := Program Call Call.Answer SpaceError

inductive Reply
  | space (view : SpaceView)
  | changed (yes : Bool)
  deriving DecidableEq

namespace Prog
open Program (ret fail)

def ask (c : Call) : Prog c.Answer := Program.ask c

def lift {α : Type} : Except SpaceError α → Prog α
  | .ok a => ret a
  | .error e => fail e

def record (id : String) : Prog Space := do
  match ← ask (.get id) with
  | none => fail (.notFound id)
  | some (.error e) => fail (.serialization e)
  | some (.ok s) => ret s

section
variable (toLowercase : String → String)

/-- By name, ignoring case, and then by id; what does not decode is skipped. -/
def listed (rows : List (String × Row)) : List Space :=
  (rows.filterMap fun row => row.2.toOption).mergeSort fun a b =>
    let (x, y) := (normalise toLowercase a.name, normalise toLowercase b.name)
    if x = y then decide (a.id ≤ b.id) else decide (x ≤ y)

def refuseNameClash (name : String) (keep : Option String) : Prog Unit := do
  let rows ← ask .list
  let clash := (listed toLowercase rows).find? fun existing =>
    some existing.id ≠ keep && normalise toLowercase existing.name = normalise toLowercase name
  match clash with
  | some existing => fail (.nameTaken name existing.name)
  | none => ret ()

/-- `minted` is the id drawn for the space, `isTrusted` what the trust store says when it is viewed. -/
def create (name minted : String) (isTrusted : DeviceId → Bool) : Prog Reply := do
  let name ← lift (validateName name)
  refuseNameClash toLowercase name none
  let space : Space := ⟨minted, name, []⟩
  ask (.put space)
  ret (.space (space.view isTrusted))

def rename (id name : String) (isTrusted : DeviceId → Bool) : Prog Reply := do
  let name ← lift (validateName name)
  let space ← record id
  refuseNameClash toLowercase name (some id)
  ask (.put { space with name })
  ret (.space (Space.view { space with name } isTrusted))

end

def delete (id : String) : Prog Reply := do
  let existed ← ask (.delete id)
  ret (.changed existed)

/-- `lookup` is what the trust store says of the member. -/
def addMember (id : String) (member : DeviceId) (lookup : Except String Bool) : Prog Reply := do
  lift (validateMember member)
  let space ← record id
  match lookup with
  | .ok false => fail (.unknownMember member)
  | .error reason => fail (.trustUnreadable member reason)
  | .ok true =>
    if member ∈ space.members then ret (.changed false)
    else do
      ask (.put { space with members := space.members ++ [member] })
      ret (.changed true)

def removeMember (id : String) (member : DeviceId) : Prog Reply := do
  let space ← record id
  let members := space.members.filter (· ≠ member)
  if members.length = space.members.length then ret (.changed false)
  else do
    ask (.put { space with members })
    ret (.changed true)

end Prog

/-- An edit of the spaces, with what it hears from outside the store. -/
inductive Edit
  | create (name minted : String) (isTrusted : DeviceId → Bool)
  | rename (id name : String) (isTrusted : DeviceId → Bool)
  | delete (id : String)
  | addMember (id : String) (member : DeviceId) (lookup : Except String Bool)
  | removeMember (id : String) (member : DeviceId)

def Edit.program (toLowercase : String → String) : Edit → Prog Reply
  | .create name minted isTrusted => Prog.create toLowercase name minted isTrusted
  | .rename id name isTrusted => Prog.rename toLowercase id name isTrusted
  | .delete id => Prog.delete id
  | .addMember id member lookup => Prog.addMember id member lookup
  | .removeMember id member => Prog.removeMember id member

end PeerBeam.Spaces
