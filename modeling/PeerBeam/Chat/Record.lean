import Mathlib

/-! Chat records, queued entries, and the window after which they disappear. Instants are counted
in nanoseconds. -/
namespace PeerBeam.Chat

abbrev DeviceId := String

/-- What is asked of the date library: the instant an RFC 3339 text names, an instant moved back
by seconds where both are in range, and the earliest instant there is. -/
structure Chrono where
  parse : String → Option Int
  checkedSub : Int → Nat → Option Int
  minUtc : Int

structure Retention where
  ttlSecs : Option Nat
  deriving DecidableEq

namespace Retention
variable (c : Chrono) (r : Retention)

/-- Keep history; also what an absent policy means. -/
def off : Retention := ⟨none⟩

def isOff : Bool := r.ttlSecs.isNone

/-- Seconds that do not fit a signed word keep history, like an instant out of range. -/
def cutoff (now : Int) : Option Int :=
  r.ttlSecs.bind fun secs => if secs < 2 ^ 63 then c.checkedSub now secs else none

/-- Gone at the deadline, and where a window is set also if the age is unknown. -/
def closedOn (basis : Option Int) (now : Int) : Bool :=
  match r.cutoff c now with
  | none => false
  | some cutoff => basis.elim true (· ≤ cutoff)

end Retention

inductive Direction
  | out
  | inn
  deriving DecidableEq

inductive Status
  | pending
  | sent
  | received
  | pendingApproval
  | transferring
  | declined
  | failed
  | interrupted
  | staging
  deriving DecidableEq

inductive Kind
  | text
  | file
  | decline
  deriving DecidableEq

structure ChatMessage where
  id : String
  timestamp : String
  body : String
  inReplyTo : Option String
  group : Option String
  deriving DecidableEq

structure FileRef where
  id : String
  timestamp : String
  name : String
  size : Nat
  deriving DecidableEq

structure FileDecline where
  id : String
  timestamp : String
  deriving DecidableEq

/-- Control and direction-changing characters, which a shown name must not have. -/
def isDisplayHostile (c : Char) : Bool :=
  c.toNat ≤ 0x1f || (0x7f ≤ c.toNat && c.toNat ≤ 0x9f) || c.toNat = 0x200e || c.toNat = 0x200f ||
    (0x202a ≤ c.toNat && c.toNat ≤ 0x202e) || (0x2066 ≤ c.toNat && c.toNat ≤ 0x2069)

def displayName (raw : String) : String :=
  String.ofList (raw.toList.map fun c => if isDisplayHostile c then Char.ofNat 0xfffd else c)

structure FileMeta where
  name : String
  size : Nat
  localPath : Option String
  deriving DecidableEq

structure StoredReaction where
  emoji : String
  «by» : Direction
  timestamp : String
  deriving DecidableEq

structure ChatRecord where
  id : String
  peerId : DeviceId
  direction : Direction
  timestamp : String
  body : String
  status : Status
  kind : Kind
  file : Option FileMeta
  readAt : Option String := none
  reactions : List StoredReaction := []
  inReplyTo : Option String
  group : Option String
  storedAt : Option Int
  deriving DecidableEq

namespace ChatRecord

/-- A text of ours, written at `now`. -/
def out (now : Int) (peer : DeviceId) (msg : ChatMessage) (status : Status) : ChatRecord where
  id := msg.id
  peerId := peer
  direction := .out
  timestamp := msg.timestamp
  body := msg.body
  status := status
  kind := .text
  file := none
  inReplyTo := msg.inReplyTo
  group := msg.group
  storedAt := some now

/-- A text of the peer's, received at `now`. -/
def received (now : Int) (peer : DeviceId) (msg : ChatMessage) : ChatRecord where
  id := msg.id
  peerId := peer
  direction := .inn
  timestamp := msg.timestamp
  body := msg.body
  status := .received
  kind := .text
  file := none
  inReplyTo := msg.inReplyTo
  group := msg.group
  storedAt := some now

def fileOut (now : Int) (peer : DeviceId) (r : FileRef) (file : FileMeta) (status : Status) :
    ChatRecord where
  id := r.id
  peerId := peer
  direction := .out
  timestamp := r.timestamp
  body := ""
  status := status
  kind := .file
  file := some file
  inReplyTo := none
  group := none
  storedAt := some now

def fileIn (now : Int) (peer : DeviceId) (r : FileRef) : ChatRecord where
  id := r.id
  peerId := peer
  direction := .inn
  timestamp := r.timestamp
  body := ""
  status := .pendingApproval
  kind := .file
  file := some ⟨displayName r.name, r.size, none⟩
  inReplyTo := none
  group := none
  storedAt := some now

def ageBasis (c : Chrono) (rec : ChatRecord) : Option Int := rec.storedAt.orElse fun _ =>
  c.parse rec.timestamp

def hasDisappeared (c : Chrono) (rec : ChatRecord) (r : Retention) (now : Int) : Bool :=
  r.closedOn c (rec.ageBasis c) now

def isSettleableFileRow (rec : ChatRecord) (expected : Direction) : Bool :=
  rec.kind = .file && rec.direction = expected &&
    (rec.status = .transferring || rec.status = .pendingApproval)

def land (rec : ChatRecord) (name : String) (size : Nat) : ChatRecord :=
  { rec with file := rec.file.map fun file => { file with name := displayName name, size := size } }

@[simp]
theorem ageBasis_land (c : Chrono) (rec : ChatRecord) (name : String) (size : Nat) :
    (rec.land name size).ageBasis c = rec.ageBasis c := rfl

end ChatRecord

structure StagedFile where
  name : String
  size : Nat
  stagedPath : String
  deriving DecidableEq

structure OutboxEntry where
  peerId : DeviceId
  messageId : String
  body : String
  timestamp : String
  kind : Kind
  file : Option StagedFile
  offersRefused : Nat
  inReplyTo : Option String
  group : Option String
  deriving DecidableEq

namespace OutboxEntry

def hasDisappeared (c : Chrono) (e : OutboxEntry) (r : Retention) (now : Int) : Bool :=
  r.closedOn c (c.parse e.timestamp) now

/-- A decline carries no content and is exempt from every window. -/
def expired (c : Chrono) (e : OutboxEntry) (r : Retention) (now : Int) : Bool :=
  e.kind ≠ .decline && e.hasDisappeared c r now

end OutboxEntry

end PeerBeam.Chat
