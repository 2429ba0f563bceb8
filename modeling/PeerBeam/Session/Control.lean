import PeerBeam.Session.Frame
import PeerBeam.Session.Resume

/-! Control-channel messages: the session's own protocol. -/
namespace PeerBeam.Session

structure Capability where
  channel : ChannelType
  features : UInt32
  deriving DecidableEq, Repr

structure CapabilitySet where
  caps : List Capability
  deriving DecidableEq, Repr

structure SessionHello where
  version : Version
  capabilities : CapabilitySet
  sessionId : SessionId
  deriving DecidableEq

inductive ControlMessage where
  | hello (body : SessionHello)
  | ping (nonce : UInt64)
  | pong (nonce : UInt64)
  | shutdown (reason : String)
  | resumeRequest (token : ResumeToken)
  | resumeAck (accepted : Bool) (reason : String)
  | unsupported (messageType : UInt16)
  | channelOpen (channel : ChannelId) (channelType : ChannelType)
  | channelAccept (channel : ChannelId)
  | channelReject (channel : ChannelId) (reason : String)
  | channelClose (channel : ChannelId)
  | channelClosed (channel : ChannelId)
  | protocolError (detail : String)
  | channelError (channel : ChannelId) (detail : String)
  deriving DecidableEq

/-- `serde_json` on the body types of control messages, and the `Debug` text that
goes into error details. -/
structure ControlCodec where
  encode : ControlMessage → Except String Bytes
  decodeHello : Bytes → Except String SessionHello
  decodeU64 : Bytes → Except String UInt64
  decodeU16 : Bytes → Except String UInt16
  decodeString : Bytes → Except String String
  decodeToken : Bytes → Except String ResumeToken
  decodeAck : Bytes → Except String (Bool × String)
  decodeOpen : Bytes → Except String (ChannelId × ChannelType)
  decodeChannelText : Bytes → Except String (ChannelId × String)
  debug : ControlMessage → String

/-- `decode` in the control module: a JSON error becomes a serialization error. -/
def ControlCodec.body {α β : Type} (decoded : Except String α) (message : α → β) :
    Except SessionError β :=
  match decoded with
  | .ok value => .ok (message value)
  | .error e => .error (.serialization e)

namespace ControlMessage

def messageType : ControlMessage → MessageType
  | hello _ => 1
  | ping _ => 6
  | pong _ => 7
  | shutdown _ => 8
  | resumeRequest _ => 9
  | resumeAck .. => 10
  | unsupported _ => 11
  | channelOpen .. => 2
  | channelAccept _ => 3
  | channelReject .. => 4
  | channelClose _ => 5
  | channelClosed _ => 13
  | protocolError _ => 14
  | channelError .. => 15

def toFrame (codec : ControlCodec) (message : ControlMessage) : Except SessionError SessionFrame :=
  match codec.encode message with
  | .ok payload => .ok ⟨controlChannel, message.messageType, .endOfMessage, payload⟩
  | .error e => .error (.serialization e)

def fromFrame (codec : ControlCodec) (frame : SessionFrame) : Except SessionError ControlMessage :=
  let bytes := frame.payload
  match frame.messageType.toNat with
  | 1 => ControlCodec.body (codec.decodeHello bytes) hello
  | 6 => ControlCodec.body (codec.decodeU64 bytes) ping
  | 7 => ControlCodec.body (codec.decodeU64 bytes) pong
  | 8 => ControlCodec.body (codec.decodeString bytes) shutdown
  | 9 => ControlCodec.body (codec.decodeToken bytes) resumeRequest
  | 10 => ControlCodec.body (codec.decodeAck bytes) fun (accepted, reason) => resumeAck accepted reason
  | 11 => ControlCodec.body (codec.decodeU16 bytes) unsupported
  | 2 => ControlCodec.body (codec.decodeOpen bytes) fun (channel, type) => channelOpen channel type
  | 3 => ControlCodec.body (codec.decodeU64 bytes) channelAccept
  | 4 => ControlCodec.body (codec.decodeChannelText bytes) fun (channel, reason) => channelReject channel reason
  | 5 => ControlCodec.body (codec.decodeU64 bytes) channelClose
  | 13 => ControlCodec.body (codec.decodeU64 bytes) channelClosed
  | 14 => ControlCodec.body (codec.decodeString bytes) protocolError
  | 15 => ControlCodec.body (codec.decodeChannelText bytes) fun (channel, detail) => channelError channel detail
  | other => .error (.frameDecode s!"unknown control message type {other}")

theorem body_ok {α β : Type} {decoded : Except String α} {message : α → β} {m : β}
    (h : ControlCodec.body decoded message = .ok m) : ∃ value, decoded = .ok value ∧ message value = m := by
  cases decoded with
  | error e => cases h
  | ok value => exact ⟨value, rfl, by simpa [ControlCodec.body] using h⟩

/-- A frame is read as the message its type names. -/
theorem messageType_of_fromFrame {codec : ControlCodec} {frame : SessionFrame} {m : ControlMessage}
    (h : fromFrame codec frame = .ok m) : m.messageType.toNat = frame.messageType.toNat := by
  unfold fromFrame at h
  split at h
  all_goals first
    | cases h
    | obtain ⟨value, _, rfl⟩ := body_ok h
      simp_all [messageType]

end ControlMessage

end PeerBeam.Session
