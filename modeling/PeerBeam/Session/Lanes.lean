import PeerBeam.Lib.Held
import PeerBeam.Lib.Run
import PeerBeam.Session.ChannelIds

/-! One long-lived channel per lane: the tasks of a session that share its channels, their calls of
`send`, the queue of commands to the session's pump, and the pump. -/
namespace PeerBeam.Session
open Std (ExtTreeMap)
open Held

namespace ChannelType

def notes : ChannelType := 0x0105
def sync : ChannelType := 0x0104
def browse : ChannelType := 0x0108

end ChannelType

/-- Which of a session's long-lived channels a frame travels on. -/
inductive Lane
  | browseAsk
  | browseAnswer
  | syncAsk
  | syncManifest
  | syncChunkMap
  | syncChunks
  | notes
  deriving DecidableEq, Repr

namespace Lane

def channelType : Lane → ChannelType
  | browseAsk | browseAnswer => .browse
  | syncAsk | syncManifest | syncChunkMap | syncChunks => .sync
  | notes => .notes

def label : Lane → String
  | browseAsk => "browse request"
  | browseAnswer => "browse answer"
  | syncAsk => "sync request"
  | syncManifest => "manifest answer"
  | syncChunkMap => "chunk map answer"
  | syncChunks => "chunk answer"
  | notes => "notes"

def all : List Lane := [browseAsk, browseAnswer, syncAsk, syncManifest, syncChunkMap, syncChunks, notes]

theorem mem_all (lane : Lane) : lane ∈ all := by
  cases lane <;> decide

theorem nodup_all : all.Nodup := by decide

end Lane

def channelOpenBudget : ℕ := 5000
def channelOpenPoll : ℕ := 10

/-- How a call of a session's handle fails: the pump is gone, or it refused. -/
inductive HandleError
  | closed
  | session (error : SessionError)
  deriving DecidableEq, Repr

def HandleError.display : HandleError → String
  | closed => "session is closed"
  | session error => error.display

/-- The codes `send` answers with. -/
inductive Code
  | connection
  | internal
  deriving DecidableEq, Repr

structure SendError where
  code : Code
  text : String
  deriving DecidableEq, Repr

/-- Hand a frame to a channel's actor; `takes` is whether the actor still takes frames. -/
def ChannelManager.sendOnChannel {Link : Type} (m : ChannelManager Link) (channel : ChannelId)
    (messageType : MessageType) (flags : MessageFlags) (payload : Bytes) (takes : Bool) :
    Except SessionError SessionFrame :=
  match m.channels[channel]? with
  | none => .error (.channel ("no such channel " ++ toString channel.toNat))
  | some ch =>
    if ch.state ≠ .open then .error (.channel "channel not open")
    else if takes then .ok ⟨channel, messageType, flags, payload⟩
    else .error (.channel "channel actor stopped")

/-- A command to the pump; `reply` is the task that awaits the answer. -/
inductive SessionCommand (ι : Type)
  | openChannel (channelType : ChannelType) (reply : ι)
  | sendOnChannel (channel : ChannelId) (messageType : MessageType) (flags : MessageFlags) (payload : Bytes) (reply : ι)
  | closeChannel (channel : ChannelId)
  | snapshot (reply : ι)

namespace SessionCommand
variable {ι : Type}

def reply : SessionCommand ι → Option ι
  | openChannel _ i | sendOnChannel _ _ _ _ i | snapshot i => some i
  | closeChannel _ => none

def closes : SessionCommand ι → Option ChannelId
  | closeChannel channel => some channel
  | _ => none

end SessionCommand

abbrev Snapshot := ExtTreeMap ChannelId Channel compare

/-- Where a call of `send` stands. From `mustOpen` to `sleeping` its task holds the lock of the lanes. -/
inductive SendPhase
  | locking
  | mustOpen
  | opening (reply : Option (Except SessionError ChannelId))
  | mustPoll (channel : ChannelId) (deadline : ℕ)
  | polling (channel : ChannelId) (deadline : ℕ) (reply : Option Snapshot)
  | sleeping (channel : ChannelId) (deadline wake : ℕ)
  | ready (channel : ChannelId)
  | sending (channel : ChannelId) (reply : Option (Except SessionError Unit))

namespace SendPhase

def holding : SendPhase → Bool
  | mustOpen | opening _ | mustPoll .. | polling .. | sleeping .. => true
  | locking | ready _ | sending .. => false

def pending : SendPhase → Option ChannelId
  | opening (some (.ok channel)) | mustPoll channel _ | polling channel _ _ | sleeping channel _ _ => some channel
  | _ => none

end SendPhase

abbrev FrameBuilder := ChannelId → Except String SessionFrame

/-- A call of `send`, with the number it was made under. -/
structure LaneSend where
  serial : ℕ
  lane : Lane
  build : FrameBuilder
  stale : Option ChannelId
  phase : SendPhase

/-- A session whose tasks are `ι`. The fields from `calls` on record what happened and are never read. -/
structure LaneSession (ι Link : Type) where
  manager : ChannelManager Link
  running : Bool
  commands : List (SessionCommand ι)
  lanes : Lane → Option ChannelId
  lock : Option ι
  sends : ι → Option LaneSend
  now : ℕ
  calls : List (ι × Lane × FrameBuilder)
  /-- The channels `send` had opened, and for which lane. -/
  opened : List (Lane × ChannelId)
  /-- Those a lane held and let go of. -/
  replaced : List ChannelId
  /-- Those that were never known to be open. -/
  givenUp : List ChannelId
  /-- Those the pump closed when told to. -/
  closed : List ChannelId
  refused : List (ℕ × ChannelId)
  /-- The calls whose frame an actor took. -/
  queued : List (ℕ × Lane × SessionFrame)
  outcomes : List (ℕ × Except SendError Unit)

namespace LaneSession
variable {ι Link : Type} [DecidableEq ι]

def start (manager : ChannelManager Link) : LaneSession ι Link :=
  ⟨manager, true, [], fun _ => none, none, fun _ => none, 0, [], [], [], [], [], [], [], []⟩

def put (s : LaneSession ι Link) (i : ι) (send : LaneSend) : LaneSession ι Link :=
  { s with sends := Function.update s.sends i (some send) }

def goTo (s : LaneSession ι Link) (i : ι) (send : LaneSend) (phase : SendPhase) : LaneSession ι Link :=
  s.put i { send with phase }

def push (s : LaneSession ι Link) (command : SessionCommand ι) : LaneSession ι Link :=
  if s.running then { s with commands := s.commands ++ [command] } else s

def acquired (s : LaneSession ι Link) (i : ι) : LaneSession ι Link := { s with lock := some i }

def release (s : LaneSession ι Link) : LaneSession ι Link := { s with lock := none }

def finish (s : LaneSession ι Link) (i : ι) (send : LaneSend) (outcome : Except SendError Unit) : LaneSession ι Link :=
  { s with sends := Function.update s.sends i none, outcomes := s.outcomes ++ [(send.serial, outcome)] }

def fail (s : LaneSession ι Link) (i : ι) (send : LaneSend) (text : String) : LaneSession ι Link :=
  s.release.finish i send (.error ⟨.connection, text⟩)

def giveUp (s : LaneSession ι Link) (i : ι) (send : LaneSend) (channel : ChannelId) (text : String) :
    LaneSession ι Link :=
  fail { s with givenUp := s.givenUp ++ [channel] } i send text

/-- The part of `lane_channel` up to the open, once the lock is held. -/
def laneChannel (s : LaneSession ι Link) (i : ι) (send : LaneSend) : LaneSession ι Link :=
  match s.lanes send.lane with
  | some live =>
    if some live ≠ send.stale then s.goTo i send (.ready live)
    else
      -- a channel this session will never speak on again
      (({ s with lanes := Function.update s.lanes send.lane none, replaced := s.replaced ++ [live] }.push
        (.closeChannel live)).acquired i).goTo i send .mustOpen
  | none => (s.acquired i).goTo i send .mustOpen

def acquire (s : LaneSession ι Link) (i : ι) : LaneSession ι Link :=
  match s.lock, s.sends i with
  | none, some ⟨serial, lane, build, stale, .locking⟩ => s.laneChannel i ⟨serial, lane, build, stale, .locking⟩
  | _, _ => s

/-- `send_on_channel` failed: once more on another channel, or never. -/
def retry (s : LaneSession ι Link) (i : ι) (send : LaneSend) (channel : ChannelId) (error : HandleError) :
    LaneSession ι Link :=
  let s := { s with refused := s.refused ++ [(send.serial, channel)] }
  match send.stale with
  | none => s.put i { send with stale := some channel, phase := .locking }
  | some _ => s.finish i send (.error ⟨.connection, send.lane.label ++ " channel: " ++ error.display⟩)

/-- What `await_open` makes of a snapshot. -/
def polled (s : LaneSession ι Link) (i : ι) (send : LaneSend) (channel : ChannelId) (deadline : ℕ)
    (snapshot : Snapshot) : LaneSession ι Link :=
  match snapshot[channel]?.map Channel.state with
  | some .opening =>
    if deadline ≤ s.now then
      s.giveUp i send channel (send.lane.label ++ " channel did not open within 5s")
    else s.goTo i send (.sleeping channel deadline (s.now + channelOpenPoll))
  | some .open =>
    ({ s with lanes := Function.update s.lanes send.lane (some channel) }.release).goTo i send (.ready channel)
  | _ => s.giveUp i send channel (send.lane.label ++ " channel was refused by the device")

/-- A task goes on, as far as it can without an answer. -/
def resume (s : LaneSession ι Link) (i : ι) : LaneSession ι Link :=
  match s.sends i with
  | none => s
  | some send =>
    match send.phase with
    | .locking => s
    | .mustOpen =>
      if s.running then (s.push (.openChannel send.lane.channelType i)).goTo i send (.opening none)
      else s.fail i send ("open " ++ send.lane.label ++ " channel: " ++ HandleError.closed.display)
    | .opening none =>
      if s.running then s
      else s.fail i send ("open " ++ send.lane.label ++ " channel: " ++ HandleError.closed.display)
    | .opening (some (.error e)) =>
      s.fail i send ("open " ++ send.lane.label ++ " channel: " ++ (HandleError.session e).display)
    | .opening (some (.ok channel)) => s.goTo i send (.mustPoll channel (s.now + channelOpenBudget))
    | .mustPoll channel deadline =>
      if s.running then (s.push (.snapshot i)).goTo i send (.polling channel deadline none)
      else s.giveUp i send channel (send.lane.label ++ ": " ++ HandleError.closed.display)
    | .polling channel _ none =>
      if s.running then s
      else s.giveUp i send channel (send.lane.label ++ ": " ++ HandleError.closed.display)
    | .polling channel deadline (some snapshot) => s.polled i send channel deadline snapshot
    | .sleeping channel deadline wake => if wake ≤ s.now then s.goTo i send (.mustPoll channel deadline) else s
    | .ready channel =>
      match send.build channel with
      | .error e => s.finish i send (.error ⟨.internal, e⟩)
      | .ok frame =>
        if s.running then
          (s.push (.sendOnChannel channel frame.messageType frame.flags frame.payload i)).goTo i send
            (.sending channel none)
        else s.retry i send channel .closed
    | .sending channel none => if s.running then s else s.retry i send channel .closed
    | .sending channel (some (.error e)) => s.retry i send channel (.session e)
    | .sending _ (some (.ok ())) => s.finish i send (.ok ())

def replyOpen (s : LaneSession ι Link) (i : ι) (answer : Except SessionError ChannelId) : LaneSession ι Link :=
  match s.sends i with
  | some ⟨serial, lane, build, stale, .opening none⟩ =>
    put { s with opened := s.opened ++ answer.toOption.toList.map fun channel => (lane, channel) } i
      ⟨serial, lane, build, stale, .opening (some answer)⟩
  | _ => s

def replySnapshot (s : LaneSession ι Link) (i : ι) (snapshot : Snapshot) : LaneSession ι Link :=
  match s.sends i with
  | some ⟨serial, lane, build, stale, .polling channel deadline none⟩ =>
    s.put i ⟨serial, lane, build, stale, .polling channel deadline (some snapshot)⟩
  | _ => s

def replySend (s : LaneSession ι Link) (i : ι) (answer : Except SessionError SessionFrame) : LaneSession ι Link :=
  match s.sends i with
  | some ⟨serial, lane, build, stale, .sending channel none⟩ =>
    put { s with queued := s.queued ++ answer.toOption.toList.map fun frame => (serial, lane, frame) } i
      ⟨serial, lane, build, stale, .sending channel (some (answer.map fun _ => ()))⟩
  | _ => s

/-- `handle_command`; `stream` is what the transport gives an open, `takes` whether the actor asked takes frames. -/
def handleCommand (hmac : Hmac) (s : LaneSession ι Link) (stream : Except SessionError Link) (takes : Bool) :
    SessionCommand ι → LaneSession ι Link
  | .openChannel type i =>
    replyOpen { s with manager := (s.manager.openChannel hmac type stream).2 } i
      ((s.manager.openChannel hmac type stream).1.map Prod.fst)
  | .sendOnChannel channel messageType flags payload i =>
    s.replySend i (s.manager.sendOnChannel channel messageType flags payload takes)
  | .closeChannel channel =>
    { s with manager := (s.manager.closeChannel channel).1, closed := s.closed ++ [channel] }
  | .snapshot i => s.replySnapshot i s.manager.channels

def serve (hmac : Hmac) (s : LaneSession ι Link) (stream : Except SessionError Link) (takes : Bool) :
    LaneSession ι Link :=
  match s.commands with
  | [] => s
  | command :: commands => handleCommand hmac { s with commands } stream takes command

def stop (s : LaneSession ι Link) : LaneSession ι Link := { s with running := false, commands := [] }

/-- A task that is in no call of `send` makes one. -/
def call (s : LaneSession ι Link) (i : ι) (lane : Lane) (build : FrameBuilder) : LaneSession ι Link :=
  match s.sends i with
  | some _ => s
  | none => put { s with calls := s.calls ++ [(i, lane, build)] } i ⟨s.calls.length, lane, build, none, .locking⟩

end LaneSession

inductive LaneStep (ι Link : Type)
  | call (task : ι) (lane : Lane) (build : FrameBuilder)
  /-- The lock is given to a task that waits for it. -/
  | acquire (task : ι)
  | resume (task : ι)
  /-- The pump handles the oldest command. -/
  | serve (stream : Except SessionError Link) (takes : Bool)
  /-- What the peer, the transport and the session's other users make of the manager. -/
  | elsewhere (call : ManagerCall Link)
  | tick (elapsed : ℕ)
  | stop

namespace LaneSession
variable {ι Link : Type} [DecidableEq ι]

def step (hmac : Hmac) (s : LaneSession ι Link) : LaneStep ι Link → LaneSession ι Link
  | .call i lane build => s.call i lane build
  | .acquire i => s.acquire i
  | .resume i => s.resume i
  | .serve stream takes => s.serve hmac stream takes
  | .elsewhere call => { s with manager := s.manager.step hmac call }
  | .tick elapsed => { s with now := s.now + elapsed }
  | .stop => s.stop

def run (hmac : Hmac) (manager : ChannelManager Link) (steps : List (LaneStep ι Link)) : LaneSession ι Link :=
  steps.foldl (step hmac) (start manager)

def cached (s : LaneSession ι Link) : List ChannelId := held Lane.all s.lanes

def pending (s : LaneSession ι Link) : List ChannelId :=
  (s.lock.bind fun i => (s.sends i).bind fun send => send.phase.pending).toList

end LaneSession
end PeerBeam.Session
