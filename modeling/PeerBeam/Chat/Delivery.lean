import Mathlib.Data.Finset.Insert
import PeerBeam.Chat.FileQueue

/-! Queued files on their way: delivery attempts, declines, cancels and pruning, with the calls each
makes in turn, of the store, of the peers' slots and of the sessions. -/
namespace PeerBeam.Chat

namespace Delivery

inductive LinkCall
  | claimFileSlot (peer : DeviceId)
  | releaseFileSlot (peer : DeviceId)
  | supportsFileRef (peer : DeviceId)
  | sendFileRef (peer : DeviceId) (r : FileRef)
  | registerVacant (id : String)
  | runSendOnSession (peer : DeviceId) (id : String)
  | claim (id : String)
  | cancelStage (peer : DeviceId) (id : String)
  | cancelTransfer (peer : DeviceId) (id : String)

abbrev LinkCall.Answer : LinkCall → Type
  | releaseFileSlot _ => Unit
  | runSendOnSession .. => LegOutcome
  | _ => Bool

abbrev Op : Type := Call ⊕ LinkCall

abbrev Op.Answer : Op → Type := Sum.elim Call.Answer LinkCall.Answer

/-- What a device keeps for the files it sends: `inFlight` are the peers whose slot is taken. The rest
of the world is the news there is next. -/
structure Sender where
  disk : Disk
  inFlight : Finset DeviceId
  news : ℕ → Bool × LegOutcome

namespace Sender
variable (s : Sender)

def heard : Sender := { s with news := fun n => s.news (n + 1) }

def exec : (op : Op) → Except CallError op.Answer × Sender
  | .inl call => ((s.disk.exec call).1, { s with disk := (s.disk.exec call).2 })
  | .inr (.claimFileSlot peer) =>
    (.ok (decide (peer ∉ s.inFlight)), { s with inFlight := insert peer s.inFlight })
  | .inr (.releaseFileSlot peer) => (.ok (), { s with inFlight := s.inFlight.erase peer })
  | .inr (.runSendOnSession ..) => (.ok (s.news 0).2, s.heard)
  | .inr (.supportsFileRef _) | .inr (.sendFileRef ..) | .inr (.registerVacant _) | .inr (.claim _)
  | .inr (.cancelStage ..) | .inr (.cancelTransfer ..) => (.ok (s.news 0).1, s.heard)

end Sender

end Delivery

namespace ChatRecord

def isCancellableOutgoingFile (rec : ChatRecord) : Bool :=
  rec.kind = .file && rec.direction = .out && !(rec.status = .sent || rec.status = .declined)

end ChatRecord

/-- What a row reads when its transfer ends. -/
def LegOutcome.settled : LegOutcome → Status
  | .delivered => .sent
  | .cancelled | .failed .. => .failed

namespace Prog
open Program (ret fail)
variable (c : Chrono) (now : Int)

/-- `Path::exists`, where a failure to look is a no. -/
def blobExists (path : String) : Prog Bool := do
  match ← (ask .listBlobs).attempt with
  | .ok blobs => ret (blobs.contains path)
  | .error _ => ret false

def dropSpareLanding (peer : DeviceId) (id : String) : Prog Unit := do
  match ← (get c now peer id).attempt with
  | .ok (some _) => ret ()
  | _ =>
    let _ ← (ask (.deleteLanding peer id)).attempt
    ret ()

def finish (peer : DeviceId) (id : String) (leg : LegOutcome) : Prog Unit := do
  match leg with
  | .delivered => dropSpareLanding c now peer id
  | _ => ret ()
  let _ ← (settleFileRow c now peer id .out leg.settled).attempt
  ret ()

def settleCancelled (peer : DeviceId) (id : String) : Prog Bool := do
  match ← (get c now peer id).attempt with
  | .ok (some rec) =>
    if rec.isCancellableOutgoingFile && rec.status ≠ .failed then
      failChatFile peer id
      ret true
    else ret false
  | _ => ret false

def dropEntry (id : String) : Option StagedFile → Prog Unit
  | some staged => dropQueuedFile id staged.stagedPath
  | none => do
    let _ ← (ask (.deleteOutbox id)).attempt
    ret ()

/-- The third part of `chat_cancel`; the outbox counts as empty where it does not read. -/
def dequeue (peer : DeviceId) (id : String) : Prog Bool := do
  let queued ← (outboxFor c now peer).attempt
  match (queued.toOption.getD []).find? (·.messageId = id) with
  | none => ret false
  | some e =>
    dropEntry id e.file
    ret true

end Prog

namespace Delivery

abbrev Async (α : Type) : Type := Program Op Op.Answer CallError α

namespace Async
open Program (ret fail)
variable (c : Chrono) (now : Int)

def disk {α : Type} (p : Prog α) : Async α := p.among

def link (call : LinkCall) : Async call.Answer := Program.ask (R := Op.Answer) (.inr call)

/-- The rest of `run_queued_file`, once the id is registered: the row must be in flight before the bytes are. -/
def sendRegistered (peer : DeviceId) (id path : String) : Async Unit := do
  match ← disk (Prog.reopenForRetry c now peer id).attempt with
  | .ok true => do
    let leg ← link (.runSendOnSession peer id)
    if ← link (.claim id) then disk (Prog.finish c now peer id leg)
    disk (Prog.settleQueuedFile c now peer id path leg)
    link (.releaseFileSlot peer)
  | .ok false => do
    let _ ← link (.claim id)
    link (.releaseFileSlot peer)
    if ← disk (Prog.rowMayStillDeliver c now peer id) then ret ()
    else disk (Prog.dropQueuedFile id path)
  | .error _ => do
    let _ ← link (.claim id)
    link (.releaseFileSlot peer)

def runQueuedFile (peer : DeviceId) (e : OutboxEntry) (staged : StagedFile) : Async Unit := do
  let id := e.messageId
  if ← disk (Prog.blobExists staged.stagedPath) then
    if ← link (.supportsFileRef peer) then
      if ← disk (Prog.stillQueued c now peer id) then
        if ← link (.sendFileRef peer ⟨id, e.timestamp, staged.name, staged.size⟩) then
          if ← link (.registerVacant id) then sendRegistered c now peer id staged.stagedPath
          else link (.releaseFileSlot peer)
        else do
          link (.releaseFileSlot peer)
          disk (Prog.failChatFile peer id)
      else link (.releaseFileSlot peer)
    else do
      link (.releaseFileSlot peer)
      disk (Prog.failChatFile peer id)
  else link (.releaseFileSlot peer)

/-- The second half of `chat_flush_peer`, once a session is there and the texts are gone. -/
def flushFile (peer : DeviceId) : Async Unit := do
  match ← disk (Prog.nextFileFor c now peer).attempt with
  | .ok (some (e, staged)) =>
    if ← link (.claimFileSlot peer) then runQueuedFile c now peer e staged
    else ret ()
  | _ => ret ()

def chatCancel (peer : DeviceId) (id : String) : Async Bool := do
  match ← disk (Prog.get c now peer id) with
  | none => ret false
  | some rec =>
    if rec.isCancellableOutgoingFile then do
      let stoppedStage ← link (.cancelStage peer id)
      let stoppedTransfer ← link (.cancelTransfer peer id)
      if stoppedTransfer then
        let _ ← disk (Prog.settleFileRow c now peer id .out .failed).attempt
      let dequeued ← disk (Prog.dequeue c now peer id)
      let settled ← if stoppedStage then ret false else disk (Prog.settleCancelled c now peer id)
      ret (stoppedStage || stoppedTransfer || dequeued || settled)
    else ret false

end Async

inductive Deed
  | deliver (now : Int) (peer : DeviceId)
  | decline (now : Int) (peer : DeviceId) (id : String)
  | cancel (now : Int) (peer : DeviceId) (id : String)
  | prune (now : Int) (peer : DeviceId)

def Deed.peer : Deed → DeviceId
  | deliver _ peer | decline _ peer _ | cancel _ peer _ | prune _ peer => peer

def Deed.program (c : Chrono) : Deed → Async Unit
  | deliver now peer => Async.flushFile c now peer
  | decline now peer id => do let _ ← Async.disk (Prog.settleFileRow c now peer id .out .declined)
  | cancel now peer id => do let _ ← Async.chatCancel c now peer id
  | prune now peer => do let _ ← Async.disk (Prog.pruneConversation c now peer)

end Delivery

end PeerBeam.Chat
