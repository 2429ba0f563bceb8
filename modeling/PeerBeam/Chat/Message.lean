import PeerBeam.Chat.Record
import PeerBeam.Session.Frame
import PeerBeam.Transfer.Names

/-! The messages of the chat channel, and what a peer's frame must satisfy to be read as one. -/
namespace PeerBeam.Chat
open Session (SessionFrame MessageType)

def maxBody : Nat := 16384
def maxName : Nat := 255
def maxId : Nat := 128
def maxReaction : Nat := 64

def msgText : MessageType := 1
def msgFileRef : MessageType := 2
def msgFileDecline : MessageType := 3
def msgReaction : MessageType := 4
def msgReceipt : MessageType := 5

inductive MessageError
  | tooLarge (len : Nat)
  | serialization (why : String)
  | wrongType (got : MessageType)
  | badName (why : String)
  | badReaction (why : String)
  | badReceipt (why : String)
  | badId (why : String)
  | badReply (why : String)
  deriving DecidableEq

def MessageError.text : MessageError → String
  | .tooLarge len => s!"chat body too large: {len} bytes (max {maxBody})"
  | .serialization why => s!"chat serialization: {why}"
  | .wrongType got =>
    let got := got.toNat
    s!"unexpected chat message type {got}"
  | .badName why => s!"bad file name: {why}"
  | .badReaction why => s!"bad reaction: {why}"
  | .badReceipt why => s!"bad receipt: {why}"
  | .badId why => s!"bad file id: {why}"
  | .badReply why => s!"bad reply reference: {why}"

structure Reaction where
  targetId : String
  emoji : String
  remove : Bool
  timestamp : String
  deriving DecidableEq

structure Receipt where
  readThrough : String
  timestamp : String
  deriving DecidableEq

/-- How a payload reads as each kind of message, or the reader's complaint. -/
structure Wire where
  text : Session.Bytes → Except String ChatMessage
  fileRef : Session.Bytes → Except String FileRef
  fileDecline : Session.Bytes → Except String FileDecline
  reaction : Session.Bytes → Except String Reaction
  receipt : Session.Bytes → Except String Receipt

def validateReplyRef (inReplyTo : Option String) (ownId : String) : Except MessageError Unit :=
  match inReplyTo with
  | none => .ok ()
  | some parent =>
    let len := parent.utf8ByteSize
    if len = 0 ∨ maxId < len then .error (.badReply s!"reply reference length {len} (max {maxId})")
    else if parent = ownId then .error (.badReply s!"a message cannot answer itself: {parent}")
    else .ok ()

def validateName (name : String) : Except MessageError Unit :=
  let len := name.utf8ByteSize
  if len = 0 ∨ maxName < len then .error (.badName s!"bad length: {len}")
  else if Transfer.fileName name.toList ≠ some name.toList then
    .error (.badName s!"not a bare filename: {name}")
  else .ok ()

def validateId (id : String) : Except MessageError Unit :=
  let len := id.utf8ByteSize
  if len = 0 ∨ maxId < len then .error (.badId s!"bad length: {len}")
  else if id = "." ∨ id = ".." then .error (.badId s!"reserved name: {id}")
  else if id.toList.all fun c => c.isAlphanum || c = '-' || c = '_' || c = '.' then .ok ()
  else .error (.badId s!"not a bare [A-Za-z0-9._-] token: {id}")

def fromFrame {α : Type} (type : MessageType) (read : Session.Bytes → Except String α)
    (frame : SessionFrame) : Except MessageError α :=
  if frame.messageType ≠ type then .error (.wrongType frame.messageType)
  else (read frame.payload).mapError .serialization

section
variable (wire : Wire) (frame : SessionFrame)

def ChatMessage.fromFrame : Except MessageError ChatMessage := do
  let msg ← Chat.fromFrame msgText wire.text frame
  if maxBody < msg.body.utf8ByteSize then .error (.tooLarge msg.body.utf8ByteSize)
  validateReplyRef msg.inReplyTo msg.id
  return msg

def FileRef.fromFrame : Except MessageError FileRef := do
  let r ← Chat.fromFrame msgFileRef wire.fileRef frame
  validateName r.name
  validateId r.id
  return r

def FileDecline.fromFrame : Except MessageError FileDecline :=
  Chat.fromFrame msgFileDecline wire.fileDecline frame

def Reaction.fromFrame : Except MessageError Reaction := do
  let r ← Chat.fromFrame msgReaction wire.reaction frame
  let target := r.targetId.utf8ByteSize
  let emoji := r.emoji.utf8ByteSize
  if target = 0 ∨ maxId < target then .error (.badReaction s!"target id length {target} (max {maxId})")
  if emoji = 0 ∨ maxReaction < emoji then
    .error (.badReaction s!"reaction length {emoji} (max {maxReaction})")
  return r

def Receipt.fromFrame : Except MessageError Receipt := do
  let r ← Chat.fromFrame msgReceipt wire.receipt frame
  let len := r.readThrough.utf8ByteSize
  if len = 0 ∨ maxId < len then .error (.badReceipt s!"read_through length {len} (max {maxId})")
  return r

end

end PeerBeam.Chat
