import PeerBeam.Lib.Bytes
import PeerBeam.Session.Basic

/-! The session-layer frame and its wire codec: a fixed header, then the payload. -/
namespace PeerBeam.Session

structure MessageFlags where
  bits : UInt8
  deriving DecidableEq, Repr

namespace MessageFlags

def none : MessageFlags := ⟨0⟩
def optional : MessageFlags := ⟨1⟩
def endOfMessage : MessageFlags := ⟨2⟩

end MessageFlags

/-- `channel(8) + message_type(2) + flags(1) + length(4)`. -/
def headerLen : Nat := 8 + 2 + 1 + 4

structure SessionFrame where
  channel : ChannelId
  messageType : MessageType
  flags : MessageFlags
  payload : Bytes
  deriving DecidableEq, Repr

namespace SessionFrame

def encode (f : SessionFrame) : Bytes :=
  -- a payload longer than `u32::MAX` is announced as `u32::MAX`
  let len := if f.payload.length < 2 ^ 32 then f.payload.length else 2 ^ 32 - 1
  BigEndian.write 8 f.channel.toNat ++ (BigEndian.write 2 f.messageType.toNat ++
    f.flags.bits :: (BigEndian.write 4 len ++ f.payload))

def decode (buf : Bytes) : Except SessionError SessionFrame :=
  if buf.length < headerLen then
    let got := buf.length
    .error (.frameDecode s!"frame too short: {got} < {headerLen} header bytes")
  else
    let channel := BigEndian.read (buf.take 8)
    let messageType := BigEndian.read ((buf.drop 8).take 2)
    let flags := buf.getD 10 0
    let len := BigEndian.read ((buf.drop 11).take 4)
    let body := buf.drop headerLen
    if body.length ≠ len then
      let got := body.length
      .error (.frameDecode s!"payload length mismatch: header says {len}, got {got}")
    else .ok ⟨UInt64.ofNat channel, UInt16.ofNat messageType, ⟨flags⟩, body⟩

/-- A frame whose payload fits its length word is read back. -/
theorem decode_encode (f : SessionFrame) (fits : f.payload.length < 2 ^ 32) :
    decode f.encode = .ok f := by
  let a := BigEndian.write 8 f.channel.toNat
  let b := BigEndian.write 2 f.messageType.toNat
  let c := BigEndian.write 4 f.payload.length
  have layout : f.encode = a ++ (b ++ ([f.flags.bits] ++ (c ++ f.payload))) := by
    simp only [encode, if_pos fits]
    rfl
  have channel : f.encode.take 8 = a := by simp [layout, a]
  have type : (f.encode.drop 8).take 2 = b := by simp [layout, a, b]
  have flags : f.encode.getD 10 0 = f.flags.bits := by
    simp [layout, a, b, List.getElem?_append]
  have length : (f.encode.drop 11).take 4 = c := by
    simp [layout, a, b, c, List.drop_append, List.drop_eq_nil_of_le]
  have body : f.encode.drop headerLen = f.payload := by
    simp [layout, headerLen, a, b, c, List.drop_append, List.drop_eq_nil_of_le]
  have long : ¬ f.encode.length < headerLen := by
    simp [layout, headerLen, a, b, c]
    omega
  have word : BigEndian.read c = f.payload.length := BigEndian.read_write_of_lt fits
  have channelWord : BigEndian.read a = f.channel.toNat := BigEndian.read_write_of_lt f.channel.toNat_lt
  have typeWord : BigEndian.read b = f.messageType.toNat :=
    BigEndian.read_write_of_lt f.messageType.toNat_lt
  simp only [decode, if_neg long, channel, type, flags, length, body, word, channelWord, typeWord]
  simp

/-- The message type sits in the ninth and tenth byte of what decodes. -/
theorem messageType_of_decode {buf : Bytes} {f : SessionFrame} (h : decode buf = .ok f) :
    headerLen ≤ buf.length ∧ f.messageType = UInt16.ofNat (BigEndian.read ((buf.drop 8).take 2)) := by
  simp only [decode] at h
  split at h
  · cases h
  · rename_i long
    split at h
    · cases h
    · cases h
      exact ⟨Nat.not_lt.mp long, rfl⟩

end SessionFrame

end PeerBeam.Session
