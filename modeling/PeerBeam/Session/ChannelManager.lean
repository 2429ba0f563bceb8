import Mathlib
import PeerBeam.Session.Control

/-! The channel manager: one session's data channels and their lifecycle. The
calls return the control messages the pump writes; `history` is a record of what
they did outside the manager, oldest first, that no call reads. -/
namespace PeerBeam.Session
open Std (ExtTreeMap)

/-- Cap on concurrently open channels per session. -/
def defaultChannelLimit : Nat := 256

def usizeMax : Nat := 2 ^ 64 - 1

inductive ChannelState where
  | opening
  | «open»
  | closing
  | closed
  | rejected
  | errored
  deriving DecidableEq, Repr

structure Channel where
  channelType : ChannelType
  state : ChannelState
  deriving DecidableEq, Repr

inductive ChannelEvent where
  | opened (channel : ChannelId) (channelType : ChannelType)
  | closed (channel : ChannelId)
  | rejected (channel : ChannelId) (reason : String)
  | error (channel : ChannelId) (detail : String)
  deriving DecidableEq, Repr

inductive ActorEvent where
  | closed (channel : ChannelId)
  | errored (channel : ChannelId) (detail : String)
  deriving DecidableEq, Repr

def ActorEvent.channel : ActorEvent → ChannelId
  | closed channel | errored channel _ => channel

/-- A queued peer open awaiting its stream; refused ones are only counted. -/
inductive PendingOpen where
  | accept (channel : ChannelId) (channelType : ChannelType)
  | skip (owed : Nat)
  deriving DecidableEq, Repr

def PendingOpen.isAccept : PendingOpen → Bool
  | accept .. => true
  | skip _ => false

def PendingOpen.names (channel : ChannelId) : PendingOpen → Bool
  | accept id _ => id = channel
  | skip _ => false

/-- Own ids: odd for the initiator, even for the responder. -/
structure ChannelIdAllocator where
  next : UInt64
  parity : UInt64
  deriving DecidableEq, Repr

namespace ChannelIdAllocator

def new (role : SessionRole) : ChannelIdAllocator :=
  let next := match role with
    | .initiator => 1
    | .responder => 2
  ⟨next, next % 2⟩

/-- The allocation loop. Every round moves `next`, so `2^64 - next` rounds reach
the end of the id space. -/
def allocateLoop (isTaken : ChannelId → Bool) :
    Nat → ChannelIdAllocator → Option ChannelId × ChannelIdAllocator
  | 0, a => (none, a)
  | rounds + 1, a =>
    match checkedAdd a.next 2 with
    | none => (none, a)
    | some next =>
      if a.next ≠ 0 ∧ isTaken a.next = false then (some a.next, { a with next })
      else allocateLoop isTaken rounds { a with next }

def allocate (a : ChannelIdAllocator) (isTaken : ChannelId → Bool) :
    Option ChannelId × ChannelIdAllocator :=
  allocateLoop isTaken (2 ^ 64 - a.next.toNat) a

/-- Never hand out an id this side did not allocate. -/
def reserve (a : ChannelIdAllocator) (id : ChannelId) : ChannelIdAllocator :=
  if id % 2 = a.parity then
    match checkedAdd id 2 with
    | some next => if a.next < next then { a with next } else a
    | none => a
  else a

end ChannelIdAllocator

inductive Effect (Link : Type) where
  /-- A peer open passed every check. -/
  | permittedOpen (channel : ChannelId) (channelType : ChannelType)
  | refusedOpen (channel : ChannelId)
  | streamArrived (link : Link)
  /-- `SessionCrypto::derive` was invoked. -/
  | derived (channel : ChannelId)
  /-- A locally opened stream was bound to the channel. -/
  | attached (channel : ChannelId) (link : Link)
  /-- An accepted stream was bound to the channel. -/
  | spawned (channel : ChannelId) (link : Link)
  /-- An accepted stream was dropped for a refused open. -/
  | discarded (link : Link)
  /-- An accepted stream was dropped because nobody receives stream channels. -/
  | unreceived (channel : ChannelId) (link : Link)
  | event (event : ChannelEvent)
  | stopped
  deriving DecidableEq

structure ChannelManager (Link : Type) where
  crypto : SessionCrypto
  version : Version
  channels : ExtTreeMap ChannelId Channel compare
  /-- `supports` of the negotiated capability set. -/
  negotiated : ChannelType → Bool
  ids : ChannelIdAllocator
  limit : Nat
  streamTypes : List ChannelType
  /-- Whether the receiver of incoming stream channels still exists. -/
  receiving : Bool
  pendingOpens : List PendingOpen
  pendingStreams : List Link
  /-- What the application was told it has and was not told it lost. -/
  resumable : ExtTreeMap ChannelId ChannelType compare
  /-- Channels whose actor died, awaiting proof of which death it was. -/
  pendingForget : List ChannelId
  history : List (Effect Link)

namespace ChannelManager
variable {Link : Type}

def new (crypto : SessionCrypto) (version : Version) (role : SessionRole)
    (negotiated : ChannelType → Bool) (limit : Nat) (streamTypes : List ChannelType) :
    ChannelManager Link where
  crypto := crypto
  version := version
  channels := ∅
  negotiated := negotiated
  ids := .new role
  limit := limit
  streamTypes := streamTypes
  receiving := true
  pendingOpens := []
  pendingStreams := []
  resumable := ∅
  pendingForget := []
  history := []

/-- The message channels eligible for re-attachment on resume. -/
def reattachableChannels (m : ChannelManager Link) : List (ChannelId × ChannelType) :=
  m.resumable.toList.filter fun entry => !m.streamTypes.contains entry.2

def record (m : ChannelManager Link) (effect : Effect Link) : ChannelManager Link :=
  { m with history := m.history ++ [effect] }

def emit (m : ChannelManager Link) (event : ChannelEvent) : ChannelManager Link :=
  m.record (.event event)

def inUse (m : ChannelManager Link) (id : ChannelId) : Bool :=
  m.channels.contains id || m.pendingOpens.any (PendingOpen.names id)

def allocateId (m : ChannelManager Link) : Except SessionError ChannelId × ChannelManager Link :=
  match m.ids.allocate m.inUse with
  | (some id, ids) => (.ok id, { m with ids })
  | (none, ids) => (.error (.channel "channel id space exhausted"), { m with ids })

def derive (hmac : Hmac) (m : ChannelManager Link) (id : ChannelId) :
    Except SessionError ChannelCrypto × ChannelManager Link :=
  (m.crypto.derive hmac id m.version, m.record (.derived id))

def hexDigit (n : Nat) : Char := "0123456789abcdef".toList.getD n '0'

/-- `{:#06x}`: `0x` and four hexadecimal digits. -/
def hexType (type : ChannelType) : String :=
  let n := type.toNat
  String.ofList ['0', 'x', hexDigit (n / 4096 % 16), hexDigit (n / 256 % 16), hexDigit (n / 16 % 16),
    hexDigit (n % 16)]

def pendingAccepts (m : ChannelManager Link) : Nat := m.pendingOpens.countP PendingOpen.isAccept

def permit (m : ChannelManager Link) (type : ChannelType) : Except String Unit :=
  if !m.negotiated type then .error ("capability " ++ hexType type ++ " not negotiated")
  else if m.limit ≤ m.channels.size + m.pendingAccepts then .error "channel limit reached"
  else .ok ()

def forgetResumable (m : ChannelManager Link) (channel : ChannelId) : ChannelManager Link :=
  { m with
    resumable := m.resumable.erase channel
    pendingForget := m.pendingForget.filter (· ≠ channel) }

/-- The eviction loop of `announce_open`; each round drops one entry. -/
def evict : Nat → ChannelManager Link → ChannelManager Link
  | 0, m => m
  | rounds + 1, m =>
    if m.limit ≤ m.resumable.size then
      match m.resumable.keys.head? with
      | none => m
      | some oldest => evict rounds (m.forgetResumable oldest)
    else m

/-- Tell the application a channel is open and remember it as re-attachable. -/
def announceOpen (m : ChannelManager Link) (channel : ChannelId) (type : ChannelType) :
    ChannelManager Link :=
  let m := m.evict m.resumable.size
  { m with resumable := m.resumable.insert channel type }.emit (.opened channel type)

def parkForget (m : ChannelManager Link) (channel : ChannelId) : ChannelManager Link :=
  if m.pendingForget.contains channel then m
  else { m with pendingForget := m.pendingForget ++ [channel] }

def confirmLinkAlive (m : ChannelManager Link) : ChannelManager Link :=
  { m with
    resumable := m.pendingForget.foldl (fun r channel => r.erase channel) m.resumable
    pendingForget := [] }

def insertChannel (m : ChannelManager Link) (id : ChannelId) (channel : Channel) :
    ChannelManager Link :=
  { m with channels := m.channels.insert id channel }

def removeChannel (m : ChannelManager Link) (id : ChannelId) : ChannelManager Link :=
  { m with channels := m.channels.erase id }

/-- Derive, open a stream, register: what the three local opens have in common.
`stream` is what the transport's `open_stream` gives. -/
def attach (hmac : Hmac) (m : ChannelManager Link) (id : ChannelId) (channel : Channel)
    (stream : Except SessionError Link) : Except SessionError Link × ChannelManager Link :=
  match m.derive hmac id with
  | (.error e, m) => (.error e, m)
  | (.ok _, m) =>
    match stream with
    | .error e => (.error e, m)
    | .ok link => (.ok link, (m.record (.attached id link)).insertChannel id channel)

def openChannel (hmac : Hmac) (m : ChannelManager Link) (type : ChannelType)
    (stream : Except SessionError Link) :
    Except SessionError (ChannelId × ControlMessage) × ChannelManager Link :=
  match m.permit type with
  | .error reason => (.error (.channel reason), m)
  | .ok () =>
    match m.allocateId with
    | (.error e, m) => (.error e, m)
    | (.ok id, m) =>
      match m.attach hmac id ⟨type, .opening⟩ stream with
      | (.error e, m) => (.error e, m)
      | (.ok _, m) => (.ok (id, .channelOpen id type), m)

/-- The caller owns the sealed stream; the channel is open at once. -/
def openStreamChannel (hmac : Hmac) (m : ChannelManager Link) (type : ChannelType)
    (stream : Except SessionError Link) :
    Except SessionError (ChannelId × Link × ControlMessage) × ChannelManager Link :=
  match m.permit type with
  | .error reason => (.error (.channel reason), m)
  | .ok () =>
    match m.allocateId with
    | (.error e, m) => (.error e, m)
    | (.ok id, m) =>
      match m.attach hmac id ⟨type, .open⟩ stream with
      | (.error e, m) => (.error e, m)
      | (.ok link, m) => (.ok (id, link, .channelOpen id type), m.announceOpen id type)

def reopenChannel (hmac : Hmac) (m : ChannelManager Link) (id : ChannelId) (type : ChannelType)
    (stream : Except SessionError Link) : Except SessionError ControlMessage × ChannelManager Link :=
  match m.permit type with
  | .error reason => (.error (.channel reason), m)
  | .ok () =>
    match m.attach hmac id ⟨type, .opening⟩ stream with
    | (.error e, m) => (.error e, m)
    | (.ok _, m) => (.ok (.channelOpen id type), { m with ids := m.ids.reserve id })

def pairAccepted (hmac : Hmac) (m : ChannelManager Link) (id : ChannelId) (type : ChannelType)
    (link : Link) : ChannelManager Link × List ControlMessage :=
  match { m with ids := m.ids.reserve id }.derive hmac id with
  | (.error e, m) => (m.emit (.error id e.display), [.channelReject id "key derivation failed"])
  | (.ok _, m) =>
    if m.streamTypes.contains type && !m.receiving then
      ((m.record (.unreceived id link)).emit (.rejected id "no stream receiver"),
        [.channelReject id "no stream receiver"])
    else
      -- a stream channel is handed to its receiver, a message channel to its actor
      (((m.record (.spawned id link)).insertChannel id ⟨type, .open⟩).announceOpen id type,
        [.channelAccept id])

/-- One round of `try_pair`, with the front entry and the front stream popped. -/
def pairOne (hmac : Hmac) (m : ChannelManager Link) (pending : PendingOpen) (link : Link) :
    ChannelManager Link × List ControlMessage :=
  match pending with
  | .skip owed =>
    let m := m.record (.discarded link)
    (if 1 < owed then { m with pendingOpens := .skip (owed - 1) :: m.pendingOpens } else m, [])
  | .accept id type => m.pairAccepted hmac id type link

/-- The loop of `try_pair`, over the streams that are waiting. -/
def tryPairLoop (hmac : Hmac) : List Link → ChannelManager Link →
    ChannelManager Link × List ControlMessage
  | [], m => (m, [])
  | link :: streams, m =>
    match m.pendingOpens with
    | [] => (m, [])
    | pending :: opens =>
      let (m, first) :=
        { m with pendingOpens := opens, pendingStreams := streams }.pairOne hmac pending link
      let (m, rest) := tryPairLoop hmac streams m
      (m, first ++ rest)

def tryPair (hmac : Hmac) (m : ChannelManager Link) : ChannelManager Link × List ControlMessage :=
  tryPairLoop hmac m.pendingStreams m

/-- One more stream is owed to a refused open. A run of refusals shares an entry
until its count is at the ceiling. -/
def oweStream : List PendingOpen → List PendingOpen
  | [] => [.skip 1]
  | [.skip owed] => if owed < usizeMax then [.skip (owed + 1)] else [.skip owed, .skip 1]
  | [.accept id type] => [.accept id type, .skip 1]
  | first :: second :: rest => first :: oweStream (second :: rest)

def refuse (hmac : Hmac) (m : ChannelManager Link) (channel : ChannelId) (reason : String) :
    ChannelManager Link × List ControlMessage :=
  let m := (m.record (.refusedOpen channel)).emit (.rejected channel reason)
  let (m, paired) := { m with pendingOpens := oweStream m.pendingOpens }.tryPair hmac
  (m, .channelReject channel reason :: paired)

def handleChannelOpen (hmac : Hmac) (m : ChannelManager Link) (channel : ChannelId)
    (type : ChannelType) : ChannelManager Link × List ControlMessage :=
  if channel = controlChannel then m.refuse hmac channel "reserved control channel id"
  else
    match m.permit type with
    | .error reason => m.refuse hmac channel reason
    | .ok () =>
      if m.inUse channel then m.refuse hmac channel "duplicate channel id"
      else
        let m := m.record (.permittedOpen channel type)
        { m with pendingOpens := m.pendingOpens ++ [PendingOpen.accept channel type] }.tryPair hmac

def onStreamAccepted (hmac : Hmac) (m : ChannelManager Link) (link : Link) :
    ChannelManager Link × List ControlMessage :=
  let m := m.record (.streamArrived link)
  { m with pendingStreams := m.pendingStreams ++ [link] }.tryPair hmac

def handleChannelAccept (m : ChannelManager Link) (channel : ChannelId) : ChannelManager Link :=
  match m.channels[channel]? with
  | none => m
  | some ch =>
    if ch.state = .opening then
      (m.insertChannel channel { ch with state := .open }).announceOpen channel ch.channelType
    else m

/-- Forget and unregister, telling the application whether or not it was live. -/
def dropWith (m : ChannelManager Link) (channel : ChannelId) (event : ChannelEvent) :
    ChannelManager Link :=
  ((m.forgetResumable channel).removeChannel channel).emit event

def handleChannelReject (m : ChannelManager Link) (channel : ChannelId) (reason : String) :
    ChannelManager Link :=
  m.dropWith channel (.rejected channel reason)

def handleChannelError (m : ChannelManager Link) (channel : ChannelId) (detail : String) :
    ChannelManager Link :=
  m.dropWith channel (.error channel detail)

/-- Forget, and close if the channel is live; the second component says whether
it was. -/
def closeLive (m : ChannelManager Link) (channel : ChannelId) : ChannelManager Link × Bool :=
  let m := m.forgetResumable channel
  if m.channels.contains channel then ((m.removeChannel channel).emit (.closed channel), true)
  else (m, false)

def handleChannelClose (m : ChannelManager Link) (channel : ChannelId) :
    ChannelManager Link × List ControlMessage :=
  let (m, live) := m.closeLive channel
  (m, if live then [.channelClosed channel] else [])

def handleChannelClosed (m : ChannelManager Link) (channel : ChannelId) : ChannelManager Link :=
  (m.closeLive channel).1

def closeChannel (m : ChannelManager Link) (channel : ChannelId) :
    ChannelManager Link × Option ControlMessage :=
  let (m, live) := m.closeLive channel
  (m, if live then some (.channelClose channel) else none)

/-- The actor of a live channel ended: unregister it and park it. -/
def actorEnded (m : ChannelManager Link) (channel : ChannelId) (event : ChannelEvent) :
    ChannelManager Link × Bool :=
  if m.channels.contains channel then
    (((m.removeChannel channel).parkForget channel).emit event, true)
  else (m, false)

def onActorEvent (m : ChannelManager Link) : ActorEvent → ChannelManager Link × List ControlMessage
  | .closed channel => ((m.actorEnded channel (.closed channel)).1, [])
  | .errored channel detail =>
    let (m, live) := m.actorEnded channel (.error channel detail)
    (m, if live then [.channelError channel detail] else [])

def stopAll (m : ChannelManager Link) : ChannelManager Link :=
  { m with
    channels := ∅
    pendingOpens := []
    pendingStreams := []
    resumable := ∅
    pendingForget := [] }.record .stopped

end ChannelManager

/-- The calls a manager receives, with what the transport gives them, and the
loss of the receiver of incoming stream channels. -/
inductive ManagerCall (Link : Type) where
  | openChannel (type : ChannelType) (stream : Except SessionError Link)
  | openStreamChannel (type : ChannelType) (stream : Except SessionError Link)
  | reopenChannel (id : ChannelId) (type : ChannelType) (stream : Except SessionError Link)
  | closeChannel (id : ChannelId)
  | handleChannelOpen (id : ChannelId) (type : ChannelType)
  | handleChannelAccept (id : ChannelId)
  | handleChannelReject (id : ChannelId) (reason : String)
  | handleChannelClose (id : ChannelId)
  | handleChannelClosed (id : ChannelId)
  | handleChannelError (id : ChannelId) (detail : String)
  | onStreamAccepted (link : Link)
  | onActorEvent (event : ActorEvent)
  | confirmLinkAlive
  | stopAll
  | receiverDropped

def ChannelManager.step {Link : Type} (hmac : Hmac) (m : ChannelManager Link) :
    ManagerCall Link → ChannelManager Link
  | .openChannel type stream => (m.openChannel hmac type stream).2
  | .openStreamChannel type stream => (m.openStreamChannel hmac type stream).2
  | .reopenChannel id type stream => (m.reopenChannel hmac id type stream).2
  | .closeChannel id => (m.closeChannel id).1
  | .handleChannelOpen id type => (m.handleChannelOpen hmac id type).1
  | .handleChannelAccept id => m.handleChannelAccept id
  | .handleChannelReject id reason => m.handleChannelReject id reason
  | .handleChannelClose id => (m.handleChannelClose id).1
  | .handleChannelClosed id => m.handleChannelClosed id
  | .handleChannelError id detail => m.handleChannelError id detail
  | .onStreamAccepted link => (m.onStreamAccepted hmac link).1
  | .onActorEvent event => (m.onActorEvent event).1
  | .confirmLinkAlive => m.confirmLinkAlive
  | .stopAll => m.stopAll
  | .receiverDropped => { m with receiving := false }

def ChannelManager.run {Link : Type} (hmac : Hmac) (m : ChannelManager Link)
    (calls : List (ManagerCall Link)) : ChannelManager Link :=
  calls.foldl (ChannelManager.step hmac) m

end PeerBeam.Session
