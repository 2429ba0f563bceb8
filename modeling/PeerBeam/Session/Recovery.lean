import PeerBeam.Session.ChannelManager
import PeerBeam.Lib.Checked

/-! Resuming a lost session over a fresh transport, and the manager that drives it.
What the transport, the clock and the peer contribute enters as a value. -/
namespace PeerBeam.Session
variable {Link : Type}

structure SessionConfig where
  channelLimit : Nat := defaultChannelLimit
  streamChannelTypes : List ChannelType := []

/-- A live session, as far as recovery reads it. -/
structure PeerSession (Link : Type) where
  id : SessionId
  role : SessionRole
  «local» : DeviceId
  peer : DeviceId
  state : SessionState
  version : Version
  controlCrypto : ChannelCrypto
  manager : ChannelManager Link
  controlOut : List ControlMessage
  /-- Highest resume epoch this endpoint has consumed. -/
  consumedEpoch : UInt64

structure PreservedSession where
  sessionId : SessionId
  «local» : DeviceId
  peer : DeviceId
  role : SessionRole
  version : Version
  /-- `supports` of the negotiated capability set. -/
  negotiated : ChannelType → Bool
  crypto : SessionCrypto
  consumedEpoch : UInt64
  /-- Message channels to re-attach. -/
  channels : List (ChannelId × ChannelType)

namespace PeerSession

def preserve (s : PeerSession Link) : PreservedSession where
  sessionId := s.id
  «local» := s.local
  peer := s.peer
  role := s.role
  version := s.version
  negotiated := s.manager.negotiated
  crypto := s.manager.crypto
  consumedEpoch := s.consumedEpoch
  channels := s.manager.reattachableChannels

/-- Build a live session from keyed parts, after a handshake or a resume. -/
def assemble (role : SessionRole) (id : SessionId) («local» peer : DeviceId) (version : Version)
    (negotiated : ChannelType → Bool) (sessionCrypto : SessionCrypto) (controlCrypto : ChannelCrypto)
    (config : SessionConfig) (consumedEpoch : UInt64) : PeerSession Link where
  id := id
  role := role
  «local» := «local»
  peer := peer
  state := .active
  version := version
  controlCrypto := controlCrypto
  manager := .new sessionCrypto version role negotiated config.channelLimit config.streamChannelTypes
  controlOut := []
  consumedEpoch := consumedEpoch

/-- Re-open the preserved channels; one that cannot be re-opened is skipped. -/
def reattachChannels (hmac : Hmac) (s : PeerSession Link)
    (openStream : ChannelId → Except SessionError Link) :
    List (ChannelId × ChannelType) → PeerSession Link
  | [] => s
  | (id, type) :: rest =>
    match s.manager.reopenChannel hmac id type (openStream id) with
    | (.ok message, manager) =>
      { s with manager, controlOut := s.controlOut ++ [message] }.reattachChannels hmac openStream rest
    | (.error _, manager) => { s with manager }.reattachChannels hmac openStream rest

end PeerSession

namespace PreservedSession

def binding (p : PreservedSession) : ResumeBinding := ⟨p.sessionId, p.local, p.peer, p.version⟩

def assembled (p : PreservedSession) (config : SessionConfig) (epoch : UInt64)
    (controlCrypto : ChannelCrypto) (consumedEpoch : UInt64) : PeerSession Link :=
  .assemble p.role p.sessionId p.local p.peer p.version p.negotiated (p.crypto.withEpoch epoch)
    controlCrypto config consumedEpoch

end PreservedSession

inductive ResumeReply where
  | accepted
  | rejected (reason : String)
  deriving DecidableEq, Repr

def replyFrom (accepted : Bool) (reason : String) : ResumeReply :=
  if accepted then .accepted else .rejected reason

/-- What reading one frame from a link gives: an error, its end, or a payload. -/
abbrev LinkRead := Except SessionError (Option Bytes)

section Handshake
variable (codec : ControlCodec) (enc : EncryptionProvider)

/-- The answer to a resume request: sealed under the epoch control key, or else
read as plaintext. Returns the control context as it is left behind. -/
def recvResumeReply (read : LinkRead) (crypto : ChannelCrypto) :
    Except SessionError ResumeReply × ChannelCrypto :=
  match read with
  | .error e => (.error e, crypto)
  | .ok none => (.error (.link "link closed awaiting resume ack"), crypto)
  | .ok (some payload) =>
    match crypto.openFrame enc payload with
    | (.ok plain, crypto) =>
      match SessionFrame.decode plain with
      | .error _ => (.error (.resumeRejected "malformed sealed resume ack"), crypto)
      | .ok frame =>
        match ControlMessage.fromFrame codec frame with
        | .ok (.resumeAck accepted reason) => (.ok (replyFrom accepted reason), crypto)
        | _ => (.error (.resumeRejected "malformed sealed resume ack"), crypto)
    | (.error _, crypto) =>
      match SessionFrame.decode payload with
      | .error e => (.error e, crypto)
      | .ok frame =>
        match ControlMessage.fromFrame codec frame with
        | .error e => (.error e, crypto)
        | .ok (.resumeAck accepted reason) => (.ok (replyFrom accepted reason), crypto)
        | .ok other =>
          let got := codec.debug other
          (.error (.unexpectedMessage .recovering s!"expected ResumeAck, got {got}"), crypto)

def recvControlPlain (read : LinkRead) : Except SessionError ControlMessage :=
  match read with
  | .error e => .error e
  | .ok none => .error (.link "link closed during resume")
  | .ok (some payload) =>
    match SessionFrame.decode payload with
    | .error e => .error e
    | .ok frame => ControlMessage.fromFrame codec frame

/-- Send an unsealed control message over a link that answers `sent`. -/
def sendControlPlain (message : ControlMessage) (sent : Except SessionError Unit) :
    Except SessionError Unit :=
  match message.toFrame codec with
  | .error e => .error e
  | .ok _ => sent

/-- Seal a control message and send it; the context left behind is returned. -/
def sendControl (crypto : ChannelCrypto) (message : ControlMessage)
    (sent : Except SessionError Unit) : Except SessionError ChannelCrypto := do
  let frame ← message.toFrame codec
  let _ ← crypto.sealFrame enc frame.encode
  sent
  crypto.advanceSend

structure ResumeIo (Link : Type) where
  /-- Opening the new control stream. -/
  control : Except SessionError Unit
  nowMs : UInt64
  /-- Sending the request. -/
  sent : Except SessionError Unit
  reply : LinkRead
  openStream : ChannelId → Except SessionError Link

/-- The redialling side: mint a token for `epoch`, ask, and re-attach. -/
def resume (hmac : Hmac) (preserved : PreservedSession) (epoch : UInt64) (config : SessionConfig)
    (tokenTtlMs : UInt64) (io : ResumeIo Link) : Except SessionError (PeerSession Link) := do
  io.control
  let sessionCrypto := preserved.crypto.withEpoch epoch
  let controlCrypto ← sessionCrypto.control hmac
  let resumeKey ← sessionCrypto.resumeKey hmac
  let token := ResumeToken.mint hmac resumeKey preserved.binding epoch io.nowMs tokenTtlMs
  sendControlPlain codec (.resumeRequest token) io.sent
  match recvResumeReply codec enc io.reply controlCrypto with
  | (.error e, _) => .error e
  | (.ok (.rejected reason), _) => .error (.resumeRejected reason)
  | (.ok .accepted, controlCrypto) =>
    let session := preserved.assembled config epoch controlCrypto preserved.consumedEpoch
    pure (session.reattachChannels hmac io.openStream preserved.channels)

structure AcceptIo where
  /-- Accepting the peer's control stream, if the transport still has one. -/
  control : Except SessionError (Option Unit)
  request : LinkRead
  nowMs : UInt64
  /-- Sending the sealed acknowledgement. -/
  acked : Except SessionError Unit

/-- The accepting side: verify the token, answer, and rebuild at its epoch. -/
def acceptResume (hmac : Hmac) (preserved : PreservedSession) (config : SessionConfig)
    (io : AcceptIo) : Except SessionError (PeerSession Link × UInt64) := do
  match ← io.control with
  | none => .error (.link "transport closed before resume control stream")
  | some () =>
    match ← recvControlPlain codec io.request with
    | .resumeRequest token =>
      let resumeKey ← preserved.crypto.resumeKey hmac
      -- a refusal is also sent in plaintext; whether that arrives changes nothing here
      token.verify hmac resumeKey preserved.binding io.nowMs preserved.consumedEpoch
      let controlCrypto ← (preserved.crypto.withEpoch token.epoch).control hmac
      let controlCrypto ← sendControl codec enc controlCrypto (.resumeAck true "") io.acked
      pure (preserved.assembled config token.epoch controlCrypto token.epoch, token.epoch)
    | other =>
      let got := codec.debug other
      .error (.unexpectedMessage .recovering s!"expected ResumeRequest, got {got}")

end Handshake

structure RecoveryConfig where
  maxAttempts : UInt32
  tokenTtlMs : UInt64

/-- Where a recovery manager is in `run`: with a live session, inside `recover`
after some attempts, or done. -/
inductive RecoveryState (Link : Type) where
  | running (session : PeerSession Link)
  | recovering (preserved : PreservedSession) (attempt : UInt32)
  | ended

structure AttemptIo (Link : Type) where
  /-- A transport was obtained in time. -/
  connected : Bool
  /-- The handshake ended within the attempt's timeout. -/
  finished : Bool
  resume : ResumeIo Link
  accept : AcceptIo

/-- How the program was built and configured. `overflowChecks` is the build's: with
them an overflowing `+` panics, without them it wraps. -/
structure Deployment where
  overflowChecks : Bool
  hmac : Hmac
  codec : ControlCodec
  enc : EncryptionProvider
  recovery : RecoveryConfig
  session : SessionConfig

namespace Deployment
variable (d : Deployment)

/-- `attempt + 1`. -/
def nextAttempt (attempt : UInt32) : Option UInt32 :=
  if attempt.toNat + 1 < 2 ^ 32 ∨ d.overflowChecks = false then some (attempt + 1) else none

/-- `epoch + attempt as u64`. -/
def attemptEpoch (epoch : UInt64) (attempt : UInt32) : Option UInt64 :=
  if epoch.toNat + attempt.toNat < 2 ^ 64 ∨ d.overflowChecks = false then
    some (epoch + attempt.toUInt64)
  else none

/-- The token an attempt mints, if it comes that far. An attempt that is cut by its
timeout counts as having minted. -/
def mintedToken (preserved : PreservedSession) (attempt : UInt32) (io : AttemptIo Link) :
    Option ResumeToken :=
  match d.nextAttempt attempt with
  | none => none
  | some attempt =>
    if d.recovery.maxAttempts < attempt ∨ io.connected = false then none
    else
      match d.attemptEpoch preserved.crypto.epoch attempt, io.resume.control with
      | some epoch, .ok () =>
        match (preserved.crypto.withEpoch epoch).resumeKey d.hmac with
        | .ok key => some (.mint d.hmac key preserved.binding epoch io.resume.nowMs d.recovery.tokenTtlMs)
        | .error _ => none
      | _, _ => none

/-- One round of the loop of `recover`. -/
def recoverAttempt (preserved : PreservedSession) (attempt : UInt32) (io : AttemptIo Link) :
    RecoveryState Link :=
  match d.nextAttempt attempt with
  | none => .ended
  | some attempt =>
    if d.recovery.maxAttempts < attempt then .ended
    else if io.connected = false then .recovering preserved attempt
    else
      match preserved.role with
      | .initiator =>
        match d.attemptEpoch preserved.crypto.epoch attempt with
        | none => .ended
        | some epoch =>
          if io.finished = false then .recovering preserved attempt
          else
            match resume d.codec d.enc d.hmac preserved epoch d.session d.recovery.tokenTtlMs
              io.resume with
            | .ok session => .running session
            -- a refused credential of our own keeps failing: fail closed
            | .error (.resumeRejected _) | .error .resumeExpired | .error .resumeReplayed => .ended
            | .error _ => .recovering preserved attempt
      | .responder =>
        if io.finished = false then .recovering preserved attempt
        else
          match acceptResume d.codec d.enc d.hmac preserved d.session io.accept with
          | .ok (session, _) => .running session
          | .error _ => .recovering preserved attempt

end Deployment

namespace RecoveryState

def lose : RecoveryState Link → RecoveryState Link
  | running session => recovering session.preserve 0
  | other => other

def call (hmac : Hmac) (managerCall : ManagerCall Link) : RecoveryState Link → RecoveryState Link
  | running session => running { session with manager := session.manager.step hmac managerCall }
  | other => other

def close : RecoveryState Link → RecoveryState Link
  | running _ => ended
  | other => other

end RecoveryState

end PeerBeam.Session
