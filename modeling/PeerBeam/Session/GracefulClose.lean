import PeerBeam.Lib.Run
import PeerBeam.Lib.Wire
import PeerBeam.Session.Actor
import PeerBeam.Session.ManagerCalls

/-! A session that one side closes while its channels still carry frames: both
pumps, the actors of every channel, and the streams between them, step by step.
The channels are established; none is opened here, and no wait runs into its
timeout. -/
namespace PeerBeam.Session

inductive Side where
  | closer
  | peer
  deriving DecidableEq, Repr

def Side.other : Side → Side
  | closer => peer
  | peer => closer

structure Both (α : Type) where
  closer : α
  peer : α

namespace Both
variable {α : Type}

def get (b : Both α) : Side → α
  | .closer => b.closer
  | .peer => b.peer

def set (b : Both α) (s : Side) (x : α) : Both α :=
  match s with
  | .closer => { b with closer := x }
  | .peer => { b with peer := x }

end Both

inductive CloseReason where
  | «local»
  | peer (reason : String)
  | timeout
  | error (detail : String)
  deriving DecidableEq, Repr

/-- What both sides run on: the AEAD, and the text of a lost connection's error. -/
structure Wiring where
  enc : EncryptionProvider
  lostText : String

structure ChannelPair where
  actors : Both Actor
  /-- The channel's stream, as each side writes it. -/
  wires : Both (Wire Bytes)

namespace ChannelPair

def setActor (p : ChannelPair) (s : Side) (a : Actor) : ChannelPair := { p with actors := p.actors.set s a }

def setWire (p : ChannelPair) (s : Side) (wire : Wire Bytes) : ChannelPair := { p with wires := p.wires.set s wire }

def signal (p : ChannelPair) (s : Side) (command : ActorCommand) : ChannelPair :=
  p.setActor s ((p.actors.get s).signal command)

/-- The actor's task ends and its stream is dropped, which finishes it. -/
def stopActor (p : ChannelPair) (s : Side) (a : Actor) : ChannelPair :=
  (p.setWire s (p.wires.get s).finish).setActor s a.stop

def readerGone (p : ChannelPair) (s : Side) : Bool := (p.actors.get s.other).phase = .stopped

/-- Whether a write goes out. With `lucky` it does although its reader is gone. -/
def up (p : ChannelPair) (connected : Bool) (s : Side) (lucky : Bool) : Bool :=
  connected && (!p.readerGone s || lucky)

section Steps
variable (d : Wiring) (connected : Bool)

/-- An actor takes its next command. What it reports is returned beside the pair. -/
def command (p : ChannelPair) (s : Side) (id : ChannelId) (lucky : Bool) : ChannelPair × Option ActorEvent :=
  let a := p.actors.get s
  if a.phase ≠ .running then (p, none)
  else
    match a.queue with
    | [] => (p, none)
    | .send frame :: rest =>
      let (a, written, failure) := { a with queue := rest }.writeFrame d.enc frame (p.up connected s lucky)
      let p := p.setWire s (written.foldl Wire.write (p.wires.get s))
      match failure with
      | none => (p.setActor s a, none)
      | some detail => (p.stopActor s a, some (.errored id detail))
    | .close :: rest =>
      ((p.setWire s (p.wires.get s).finish).setActor s { a with queue := rest, phase := .flushing }, none)
    | .drain :: rest => (p.setActor s { a with queue := rest, phase := .draining }, none)

def inbound (p : ChannelPair) (s : Side) (id : ChannelId) : ChannelPair × Option ActorEvent :=
  let a := p.actors.get s
  if a.phase = .flushing ∨ a.phase = .stopped then (p, none)
  else
    match (p.wires.get s.other).reading connected with
    | .waiting => (p, none)
    | .item payload =>
      let p := p.setWire s.other (p.wires.get s.other).drop
      let (a, failure) := a.deliver d.enc payload
      match failure with
      | none => (p.setActor s a, none)
      | some detail => (p.stopActor s a, some (.errored id detail))
    -- a drain ends without a report
    | .ended => (p.stopActor s a, if a.phase = .draining then none else some (.closed id))
    | .broken => (p.stopActor s a, if a.phase = .draining then none else some (.errored id d.lostText))

/-- `finish_send` returns once the stream is acknowledged, or nobody will. -/
def flushed (p : ChannelPair) (s : Side) : ChannelPair :=
  let a := p.actors.get s
  if a.phase = .flushing ∧ ((p.wires.get s).acked || !connected || p.readerGone s) then p.stopActor s a else p

end Steps

/-- The network moves one frame of this side's, or its end. -/
def carry (p : ChannelPair) (s : Side) : ChannelPair := p.setWire s (p.wires.get s).deliver

def cut (p : ChannelPair) : ChannelPair := { p with wires := ⟨p.wires.closer.cut, p.wires.peer.cut⟩ }

end ChannelPair

structure SessionEnd where
  state : SessionState
  manager : ChannelManager Unit
  /-- Reported by actors and not yet seen by the pump. -/
  actorEvents : List ActorEvent
  /-- Why the pump is closing, once it is. -/
  closing : Option CloseReason
  /-- The channels whose tasks a closing pump waits for. -/
  tasks : List ChannelId
  /-- The reason of the `Closed` event. -/
  closed : Option CloseReason

structure Net where
  ends : Both SessionEnd
  channels : ChannelId → Option ChannelPair
  /-- The control stream, as each side writes it. -/
  control : Both (Wire ControlMessage)
  connected : Bool

inductive Move where
  | sendOnChannel (s : Side) (id : ChannelId) (messageType : MessageType) (flags : MessageFlags) (payload : Bytes)
  | closeChannel (s : Side) (id : ChannelId)
  | close (s : Side)
  | readControl (s : Side)
  | actorEvent (s : Side)
  /-- The tasks a closing pump waits for have ended. -/
  | tasksEnded (s : Side)
  | closeConnection (s : Side)
  | command (s : Side) (id : ChannelId) (lucky : Bool)
  | inbound (s : Side) (id : ChannelId)
  /-- `finish_send` returns. -/
  | flushed (s : Side) (id : ChannelId)
  | carry (s : Side) (id : ChannelId)
  | carryControl (s : Side)
  deriving DecidableEq

namespace Net

def setEnd (w : Net) (s : Side) (e : SessionEnd) : Net := { w with ends := w.ends.set s e }

def setPair (w : Net) (id : ChannelId) (p : ChannelPair) : Net :=
  { w with channels := Function.update w.channels id (some p) }

def settle (w : Net) (s : Side) (id : ChannelId) (result : ChannelPair × Option ActorEvent) : Net :=
  let e := w.ends.get s
  (w.setPair id result.1).setEnd s { e with actorEvents := e.actorEvents ++ result.2.toList }

def actorStep (w : Net) (s : Side) (id : ChannelId) (step : ChannelPair → ChannelPair × Option ActorEvent) : Net :=
  match w.channels id with
  | none => w
  | some p => w.settle s id (step p)

def signal (w : Net) (s : Side) (id : ChannelId) (command : ActorCommand) : Net :=
  match w.channels id with
  | none => w
  | some p => w.setPair id (p.signal s command)

/-- `stop_all`: every registered channel is signalled, and the registry cleared. -/
def stopAll (w : Net) (s : Side) (command : ActorCommand) : Net :=
  let e := w.ends.get s
  let channels := fun id =>
    if e.manager.channels.contains id then (w.channels id).map (·.signal s command) else w.channels id
  { w with channels }.setEnd s { e with tasks := e.manager.channels.keys, manager := e.manager.stopAll }

def sendOnChannel (w : Net) (s : Side) (id : ChannelId) (messageType : MessageType) (flags : MessageFlags)
    (payload : Bytes) : Except SessionError Unit × Net :=
  match (w.ends.get s).manager.channels[id]? with
  | none => let n := id.toNat; (.error (.channel s!"no such channel {n}"), w)
  | some ch =>
    if ch.state ≠ .open then (.error (.channel "channel not open"), w)
    else
      match w.channels id with
      | none => (.error (.channel "channel actor stopped"), w)
      | some p =>
        if (p.actors.get s).phase = .stopped then (.error (.channel "channel actor stopped"), w)
        else (.ok (), w.setPair id (p.signal s (.send ⟨id, messageType, flags, payload⟩)))

def unregister (w : Net) (s : Side) (id : ChannelId) (manager : ChannelManager Unit) : Net :=
  let e := w.ends.get s
  (if e.manager.channels.contains id then w.signal s id .close else w).setEnd s { e with manager }

/-- The transport is gone: everything is stopped, and the session recovers. -/
def captureLoss (w : Net) (s : Side) : Net :=
  let w := w.stopAll s .close
  let e := w.ends.get s
  w.setEnd s { e with state := if e.state = .active then .recovering else e.state }

def finishClose (w : Net) (s : Side) (reason : CloseReason) : Net :=
  w.setEnd s { w.ends.get s with state := .closed, closed := some reason }

/-- The first half of a close that waits for its channels. -/
def beginClose (w : Net) (s : Side) (command : ActorCommand) (reason : CloseReason) : Net :=
  let w := w.stopAll s command
  w.setEnd s { w.ends.get s with state := .shuttingDown, closing := some reason }

/-- The rest of a pump turn: what it queued is written, or the loss is noticed. -/
def flushControl (w : Net) (s : Side) (out : List ControlMessage) : Net :=
  if out = [] then w
  else if w.connected then { w with control := w.control.set s (out.foldl Wire.write (w.control.get s)) }
  else w.captureLoss s

/-- One control message of the peer's. The answers to opens are left out with the opens. -/
def routeControl (w : Net) (s : Side) : ControlMessage → Net
  | .ping nonce => w.flushControl s [.pong nonce]
  | .shutdown reason => w.beginClose s .drain (.peer reason)
  -- `mark_closed`: an abrupt close, with no orderly flush
  | .protocolError detail => (w.stopAll s .close).finishClose s (.error detail)
  | .channelReject id reason => w.unregister s id ((w.ends.get s).manager.handleChannelReject id reason)
  | .channelClose id =>
    let (manager, out) := (w.ends.get s).manager.handleChannelClose id
    (w.unregister s id manager).flushControl s out
  | .channelClosed id => w.unregister s id ((w.ends.get s).manager.handleChannelClosed id)
  | .channelError id detail => w.unregister s id ((w.ends.get s).manager.handleChannelError id detail)
  | _ => w

def readControl (w : Net) (s : Side) : Net :=
  match (w.control.get s.other).reading w.connected with
  | .waiting => w
  | .item message =>
    let e := w.ends.get s
    let w := { w with control := w.control.set s.other (w.control.get s.other).drop }
    (w.setEnd s { e with manager := e.manager.confirmLinkAlive }).routeControl s message
  | .ended | .broken => w.captureLoss s

def actorEvent (w : Net) (s : Side) : Net :=
  match (w.ends.get s).actorEvents with
  | [] => w
  | event :: rest =>
    let (manager, out) := (w.ends.get s).manager.onActorEvent event
    (w.setEnd s { w.ends.get s with manager, actorEvents := rest }).flushControl s out

/-- `close_gracefully` up to its wait. -/
def close (w : Net) (s : Side) : Net :=
  let shutdown := ControlMessage.shutdown "local close"
  let w := if w.connected then { w with control := w.control.set s ((w.control.get s).write shutdown) } else w
  w.beginClose s .close .local

def tasksDone (w : Net) (s : Side) : Bool :=
  (w.ends.get s).tasks.all fun id => (w.channels id).all fun p => (p.actors.get s).phase = .stopped

def tasksEnded (w : Net) (s : Side) : Net :=
  let e := w.ends.get s
  if e.state = .shuttingDown ∧ w.tasksDone s then
    match e.closing with
    | none => w
    -- `graceful_close` of the control stream comes first
    | some .local => { w with control := w.control.set s (w.control.get s).finish }
    | some reason => w.finishClose s reason
  else w

/-- The connection closes: what is on its way, either way, is lost. -/
def disconnect (w : Net) : Net where
  ends := w.ends
  channels := fun id => (w.channels id).map ChannelPair.cut
  control := ⟨w.control.closer.cut, w.control.peer.cut⟩
  connected := false

def closeConnection (w : Net) (s : Side) : Net :=
  let e := w.ends.get s
  let control := w.control.get s
  if e.state = .shuttingDown ∧ e.closing = some .local ∧ control.finished ∧ (control.acked || !w.connected) then
    w.disconnect.finishClose s .local
  else w

/-- A pump turn happens in a live session only. -/
def step (d : Wiring) (w : Net) : Move → Net
  | .sendOnChannel s id messageType flags payload =>
    if (w.ends.get s).state = .active then (w.sendOnChannel s id messageType flags payload).2 else w
  | .closeChannel s id =>
    if (w.ends.get s).state = .active then
      let (manager, out) := (w.ends.get s).manager.closeChannel id
      (w.unregister s id manager).flushControl s out.toList
    else w
  | .close s => if (w.ends.get s).state = .active then w.close s else w
  | .readControl s => if (w.ends.get s).state = .active then w.readControl s else w
  | .actorEvent s => if (w.ends.get s).state = .active then w.actorEvent s else w
  | .tasksEnded s => w.tasksEnded s
  | .closeConnection s => w.closeConnection s
  | .command s id lucky => w.actorStep s id fun p => p.command d w.connected s id lucky
  | .inbound s id => w.actorStep s id fun p => p.inbound d w.connected s id
  | .flushed s id => w.actorStep s id fun p => (p.flushed w.connected s, none)
  | .carry s id => w.actorStep s id fun p => (p.carry s, none)
  | .carryControl s => { w with control := w.control.set s (w.control.get s).deliver }

@[simp] theorem settle_none (w : Net) (s : Side) (id : ChannelId) (p : ChannelPair) :
    w.settle s id (p, none) = w.setPair id p := by
  have silent : (w.ends.get s).actorEvents ++ (none : Option ActorEvent).toList = (w.ends.get s).actorEvents :=
    List.append_nil _
  rw [settle]
  dsimp only
  rw [silent]
  cases s <;> rfl

end Net

end PeerBeam.Session
