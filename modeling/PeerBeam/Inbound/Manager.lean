import PeerBeam.Transfer.Checkpoint
import PeerBeam.Transfer.FolderReceive
import PeerBeam.Trust.Store

/-! Inbound transfers, from the handshake to their last event. A task takes one step at a time, and so do
the calls of the user; they meet in maps keyed by a transfer id that the peer may choose. -/
namespace PeerBeam.Inbound
open Trust (DeviceId Lookup PermissionSet Records TrustRecord)
open Transfer (Path TransferOutcome TransferPreview TransferSession)

inductive FileAdmission
  /-- The user approved the device and took its `files` permission away. -/
  | refused
  | prompt
  | autoAccept
  deriving DecidableEq

def admitTransfer (autoAccept : Bool) (trust : Lookup) (now : Int) : FileAdmission :=
  let mayFiles := Trust.may trust now .files
  if Trust.isApproved trust now && !mayFiles then .refused
  else if autoAccept && mayFiles then .autoAccept
  else .prompt

def admitTransferFor (globalAutoAccept perDeviceAutoAccept : Bool) (trust : Lookup) (now : Int) : FileAdmission :=
  admitTransfer (globalAutoAccept || perDeviceAutoAccept) trust now

def autoAccepts (trust : Lookup) (now : Int) : Bool :=
  match trust with
  | some (some r) => r.autoAccept && r.isApprovedAt now
  | _ => false

inductive PairingGate
  | proceed
  | confirmed
  | blocked
  deriving DecidableEq

def pairingGate (firstContact require confirmed : Bool) : PairingGate :=
  if !firstContact || !require then .proceed else if confirmed then .confirmed else .blocked

inductive AcceptDecision
  | acceptOnce
  | acceptAndTrust
  | reject
  deriving DecidableEq

inductive AcceptOutcome
  | accepted
  | rejected
  /-- The prompt timed out, or its sending half was dropped. -/
  | unanswered
  deriving DecidableEq

inductive Prompt
  | asked
  | answered (d : AcceptDecision)
  | dropped
  deriving DecidableEq

inductive Note
  | queued (needsDecision : Bool)
  | started
  | progress
  | completed
  | failed
  | cancelled
  /-- A checkpoint is left of it. -/
  | interrupted
  deriving DecidableEq

def Note.terminal : Note → Bool
  | .completed | .failed | .cancelled => true
  | _ => false

/-- Where a task of `handle_incoming` stands. -/
inductive Phase
  /-- The handshake knows no key of this peer and is about to pin the one it was shown. -/
  | meeting (key name : String)
  | greeted
  /-- The connection carried no transfer. -/
  | gone
  | registered
  /-- First contact, if it is one, is on record. -/
  | marked
  | queued (admission : FileAdmission) (resuming : Bool)
  | waiting (prompt : Prompt)
  /-- `wait_for_accept` has its outcome and is about to remove its prompt. -/
  | woken (outcome : AcceptOutcome)
  | decided (outcome : AcceptOutcome)
  /-- The record of first contact is taken. -/
  | settled (outcome : AcceptOutcome)
  | started
  | driven (result : Option TransferOutcome)
  /-- The task has claimed the registration of a transfer that is not wanted, and is about to say so. -/
  | turnedDown
  /-- The task has claimed its registration and is about to say how it ended. -/
  | claimed (result : Option TransferOutcome)
  /-- The receive's end is said, and the task is about to look for its checkpoint. -/
  | finished
  | done
  deriving DecidableEq

/-- The transfer goes on, or will as soon as its task looks. -/
def Phase.passed : Phase → Bool
  | .queued .autoAccept _ | .queued .prompt true => true
  | .waiting (.answered d) => d ≠ .reject
  | .woken outcome | .decided outcome | .settled outcome => outcome = .accepted
  | .started | .driven _ => true
  | _ => false

structure Task where
  peer : DeviceId
  newlyTrusted : Bool
  id : String
  preview : TransferPreview
  phase : Phase
  deriving DecidableEq

inductive Call
  /-- `accept` or `accept_trust`, past the pairing check. -/
  | accept (id : String) (decision : AcceptDecision)
  /-- `reject` has answered a prompt. -/
  | rejected (id : String)
  /-- It has taken the record of first contact. -/
  | unpinning (d : DeviceId)
  /-- `cancel` has claimed a transfer. -/
  | cancelling (t : Nat) (id : String)
  /-- It has taken the transfer's prompt. -/
  | cancelled (t : Nat)
  deriving DecidableEq

structure Consent where
  peer : DeviceId
  name : Path
  size : Nat
  deriving DecidableEq

def Task.consent (task : Task) : Consent := ⟨task.peer, task.preview.name, task.preview.size⟩

structure Manager where
  tasks : List Task
  active : String → Option Nat
  pending : String → Option Nat
  firstContact : String → Option DeviceId
  trust : Records
  autoAccept : Bool
  /-- `require_pairing_confirmation`. -/
  require : Bool
  store : String → Option TransferSession
  calls : List Call
  log : List (Nat × Note)
  /-- The devices of which an accept passed the pairing gate with its code. -/
  verified : List DeviceId
  /-- What was accepted by auto-accept or by a call, from devices that were not removed since. -/
  consents : List Consent

inductive Event
  /-- A handshake looks up the peer that has just proved to hold a key. -/
  | lookup (peer : DeviceId) (key name : String)
  /-- A handshake that found nothing pins the key. -/
  | pin (t : Nat) (now : Int)
  | hangUp (t : Nat)
  /-- The first frame was looked at; `fresh` is what `next_id` comes to. -/
  | register (t : Nat) (preview : TransferPreview) (fresh : String)
  | mark (t : Nat)
  /-- The gates are asked, and the transfer is announced. -/
  | announce (t : Nat) (now : Int)
  | insert (t : Nat)
  /-- Nobody is asked. -/
  | skip (t : Nat)
  /-- The prompt's channel has resolved. The trust store takes the approval, and the write after it, or not. -/
  | wake (t : Nat) (now : Int) (approves writes : Bool)
  | timeout (t : Nat) (writes : Bool)
  /-- The prompt under the id is removed. -/
  | forget (t : Nat)
  | settle (t : Nat)
  | start (t : Nat)
  | progress (t : Nat)
  /-- The receive's checkpoint is written. -/
  | save (t : Nat) (path : Path) (transferred : Nat) (now : Int)
  | finishDrive (t : Nat) (result : Option TransferOutcome)
  | claim (t : Nat)
  /-- The claimed end is announced. -/
  | emit (t : Nat)
  | announceIfInterrupted (t : Nat)
  /-- `accept` or `accept_trust`: the pairing check. -/
  | accept (id : String) (trusting confirmed : Bool)
  | reject (id : String)
  | cancel (id : String)
  /-- The `k`-th call takes its next step. -/
  | go (k : Nat) (writes : Bool)
  /-- The user approves a device, sets a permission of it, …: its record changes. -/
  | edit (d : DeviceId) (r : TrustRecord)
  | remove (d : DeviceId)
  | setAutoAccept (on : Bool)
  | setRequire (on : Bool)
  /-- A checkpoint is cleared, or a send of ours saves one. -/
  | clear (id : String)
  | saveSend (session : TransferSession)
  | restart

def Event.task : Event → Option Nat
  | .pin t _ | .hangUp t | .register t _ _ | .mark t | .announce t _ | .insert t | .skip t | .wake t _ _ _
  | .timeout t _ | .forget t | .settle t | .start t | .progress t | .save t _ _ _ | .finishDrive t _
  | .claim t | .emit t | .announceIfInterrupted t => some t
  | _ => none

namespace Manager
variable (s : Manager)

def fresh (trust : Records) (store : String → Option TransferSession) : Manager :=
  ⟨[], fun _ => none, fun _ => none, fun _ => none, trust, false, true, store, [], [], [], []⟩

def move (t : Nat) (task : Task) (phase : Phase) : Manager :=
  { s with tasks := s.tasks.set t { task with phase := phase } }

def dropPrompt (u : Nat) : Manager :=
  match s.tasks[u]? with
  | some task => if task.phase = .waiting .asked then s.move u task (.waiting .dropped) else s
  | none => s

/-- Whatever was under the id in `pending` is replaced, and dropped with that. -/
def setPending (id : String) (prompt : Option Nat) : Manager :=
  let s' := match s.pending id with
    | some u => s.dropPrompt u
    | none => s
  { s' with pending := Function.update s.pending id prompt }

/-- The prompt under an id is taken and answered; whether anybody heard it. -/
def answer (id : String) (d : AcceptDecision) : Manager × Bool :=
  match s.pending id with
  | none => (s, false)
  | some u =>
    let taken : Manager := { s with pending := Function.update s.pending id none }
    match s.tasks[u]? with
    | some task =>
      if task.phase = .waiting .asked then
        let consents := if d = .reject then s.consents else task.consent :: s.consents
        ({ taken.move u task (.waiting (.answered d)) with consents := consents }, true)
      else (taken, false)
    | none => (taken, false)

def unpin (d : DeviceId) (writes : Bool) : Manager :=
  if writes then
    { s with
      trust := Function.update s.trust d none
      consents := if (s.trust d).isSome then s.consents.filter fun c => c.peer ≠ d else s.consents }
  else s

/-- `accept_trust`'s half of the trust store: the approval keeps a deadline that is still ahead. -/
def remember (peer : DeviceId) (now : Int) (approves writes : Bool) : Manager :=
  match s.trust peer with
  | some r =>
    let deadline := r.expiresAt.filter fun deadline => now < deadline
    let r := if approves then Trust.Stored.approved deadline .grantedOnApproval r else r
    let r := if writes then { r with autoAccept := true } else r
    { s with trust := Function.update s.trust peer (some r) }
  | none => s

/-- Nobody answered: a first contact that was to be confirmed is given back. -/
def giveBack (id : String) (writes : Bool) : Manager :=
  match s.firstContact id with
  | some d => if s.require then { s.unpin d writes with firstContact := Function.update s.firstContact id none } else s
  | none => s

def emit (t : Nat) (note : Note) : Manager := { s with log := s.log ++ [(t, note)] }

def idFor (preview : TransferPreview) (fresh : String) : String :=
  if Transfer.isValidTransferId preview.transferId && (s.active preview.transferId).isNone then preview.transferId
  else fresh

def admission (peer : DeviceId) (now : Int) : FileAdmission :=
  admitTransferFor s.autoAccept (autoAccepts (some (s.trust peer)) now) (some (s.trust peer)) now

def resuming (task : Task) : Bool := Transfer.resumesAcceptedReceive (s.store task.id) task.peer task.preview

def admitted (task : Task) (admission : FileAdmission) : Manager :=
  if admission = .autoAccept then { s with consents := task.consent :: s.consents } else s

def noteOf : Option TransferOutcome → Note
  | some .completed => .completed
  | some .cancelled => .cancelled
  | none => .failed

def goOn (k : Nat) (writes : Bool) : Call → Manager
  | .accept id d => { (s.answer id d).1 with calls := s.calls.eraseIdx k }
  | .rejected id =>
    match s.firstContact id with
    | some d =>
      { s with
        firstContact := Function.update s.firstContact id none
        calls := s.calls.set k (.unpinning d) }
    | none => { s with calls := s.calls.eraseIdx k }
  | .unpinning d => { s.unpin d writes with calls := s.calls.eraseIdx k }
  | .cancelling t id => { (s.answer id .reject).1 with calls := s.calls.set k (.cancelled t) }
  | .cancelled t => { s.emit t .cancelled with calls := s.calls.eraseIdx k }

def advance (t : Nat) (task : Task) : Phase → Event → Manager
  | .meeting key name, .pin _ now =>
    { s.move t task .greeted with
      trust := Function.update s.trust task.peer
        (some ⟨task.peer, key, name, now, false, .none, none, false, false⟩) }
  | .greeted, .hangUp _ => s.move t task .gone
  | .greeted, .register _ preview fresh =>
    let id := s.idFor preview fresh
    if (s.active id).isNone then
      { s.move t { task with id := id, preview := preview } .registered with
        active := Function.update s.active id (some t) }
    else s
  | .registered, .mark _ =>
    let marked := s.move t task .marked
    if task.newlyTrusted then { marked with firstContact := Function.update s.firstContact task.id (some task.peer) }
    else marked
  | .marked, .announce _ now =>
    let admission := s.admission task.peer now
    let resuming := s.resuming task
    ((s.admitted task admission).move t task (.queued admission resuming)).emit t
      (.queued (admission = .prompt && !resuming))
  | .queued .prompt false, .insert _ => (s.setPending task.id (some t)).move t task (.waiting .asked)
  | .queued .prompt true, .skip _ => s.move t task (.decided .accepted)
  | .queued .autoAccept _, .skip _ => s.move t task (.decided .accepted)
  | .queued .refused _, .skip _ => s.move t task (.decided .rejected)
  | .waiting (.answered .acceptOnce), .wake .. => s.move t task (.woken .accepted)
  | .waiting (.answered .acceptAndTrust), .wake _ now approves writes =>
    (s.remember task.peer now approves writes).move t task (.woken .accepted)
  | .waiting (.answered .reject), .wake .. => s.move t task (.woken .rejected)
  | .waiting .dropped, .wake _ _ _ writes => (s.giveBack task.id writes).move t task (.woken .unanswered)
  | .waiting .asked, .timeout _ writes => (s.giveBack task.id writes).move t task (.woken .unanswered)
  | .woken outcome, .forget _ => (s.setPending task.id none).move t task (.decided outcome)
  | .decided outcome, .settle _ =>
    { s.move t task (.settled outcome) with firstContact := Function.update s.firstContact task.id none }
  | .settled .accepted, .start _ => (s.move t task .started).emit t .started
  | .started, .progress _ => s.emit t .progress
  | .started, .save _ path transferred now =>
    if task.preview.isFolder then s
    else
      let session := Transfer.newCheckpoint (s.store task.id) task.id task.peer .receiving path task.preview.name
        task.preview.size true now
      { s with store := Function.update s.store task.id (some { session with transferredBytes := transferred }) }
  | .started, .finishDrive _ result => s.move t task (.driven result)
  | .settled .accepted, .claim _ => s
  | .settled _, .claim _ =>
    if s.active task.id = some t then
      { s.move t task .turnedDown with active := Function.update s.active task.id none }
    else s.move t task .done
  | .driven result, .claim _ =>
    if s.active task.id = some t then
      { s.move t task (.claimed result) with active := Function.update s.active task.id none }
    else s.move t task .finished
  | .turnedDown, .emit _ => (s.move t task .done).emit t .cancelled
  | .claimed result, .emit _ => (s.move t task .finished).emit t (noteOf result)
  | .finished, .announceIfInterrupted _ =>
    if (s.store task.id).isSome then (s.move t task .done).emit t .interrupted else s.move t task .done
  | _, _ => s

def step (event : Event) : Manager :=
  match event with
  | .lookup peer key name =>
    match s.trust peer with
    | some r =>
      if r.fingerprint = key then { s with tasks := s.tasks ++ [⟨peer, false, "", .default, .greeted⟩] } else s
    | none => { s with tasks := s.tasks ++ [⟨peer, true, "", .default, .meeting key name⟩] }
  | .accept id trusting confirmed =>
    match pairingGate (s.firstContact id).isSome s.require confirmed with
    | .blocked => s
    | .proceed => { s with calls := s.calls ++ [.accept id (if trusting then .acceptAndTrust else .acceptOnce)] }
    | .confirmed =>
      { s with
        calls := s.calls ++ [.accept id (if trusting then .acceptAndTrust else .acceptOnce)]
        verified := (s.firstContact id).toList ++ s.verified }
  | .reject id =>
    if (s.answer id .reject).2 then
      { (s.answer id .reject).1 with calls := s.calls ++ [.rejected id] }
    else (s.answer id .reject).1
  | .cancel id =>
    match s.active id with
    | some t => { s with active := Function.update s.active id none, calls := s.calls ++ [.cancelling t id] }
    | none => s
  | .go k writes =>
    match s.calls[k]? with
    | some call => s.goOn k writes call
    | none => s
  | .edit d r => { s with trust := Function.update s.trust d (some r) }
  | .remove d => s.unpin d true
  | .setAutoAccept on => { s with autoAccept := on }
  | .setRequire on => { s with require := on }
  | .clear id => { s with store := Function.update s.store id none }
  | .saveSend session =>
    if session.direction = .sending then { s with store := Function.update s.store session.id (some session) } else s
  | .restart =>
    { s with
      tasks := []
      active := fun _ => none
      pending := fun _ => none
      firstContact := fun _ => none
      calls := []
      log := [] }
  | event =>
    match event.task with
    | some t =>
      match s.tasks[t]? with
      | some task => s.advance t task task.phase event
      | none => s
    | none => s

end Manager
end PeerBeam.Inbound
