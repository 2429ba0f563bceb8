import Mathlib
import PeerBeam.Lib.SortedMap
import PeerBeam.Transfer.Stream
import PeerBeam.Trust.Record

/-! What a transfer leaves on disk when it is interrupted, and when a later attempt may go on from
there. -/
namespace PeerBeam.Transfer
open Trust (DeviceId)

inductive Direction
  | sending
  | receiving
  deriving DecidableEq

structure FileEntry where
  path : Path
  name : Path
  size : Nat
  deriving DecidableEq

structure TransferSession where
  id : String
  peer : DeviceId
  direction : Direction
  files : List FileEntry
  totalBytes : Nat
  transferredBytes : Nat
  /-- Nanoseconds. -/
  startedAt : Int
  isResume : Bool
  /-- The user consented to this transfer. -/
  accepted : Bool
  deriving DecidableEq

/-- What the attempt at hand says about itself. -/
structure ResumeClaim where
  peer : DeviceId
  name : Path
  totalBytes : Nat
  direction : Direction

inductive ResumeRefusal
  | direction
  | peer
  | name
  | size
  | unbound
  | notAccepted
  deriving DecidableEq

def ResumeRefusal.message : ResumeRefusal → String
  | .direction => "the checkpoint is for a transfer in the other direction"
  | .peer => "the checkpoint belongs to a transfer with a different device"
  | .name => "the checkpoint is for a different file"
  | .size => "the file's size has changed since the transfer was interrupted"
  | .unbound => "the checkpoint records no file to resume"
  | .notAccepted => "this transfer was never accepted, so it cannot resume"

def checkResume (checkpoint : TransferSession) (claim : ResumeClaim) : Except ResumeRefusal Unit :=
  if checkpoint.direction ≠ claim.direction then .error .direction
  -- Consent before identity: what nobody accepted is refused whether or not it matches.
  else if !checkpoint.accepted then .error .notAccepted
  else if checkpoint.peer ≠ claim.peer then .error .peer
  else
    match checkpoint.files with
    | [] => .error .unbound
    | file :: _ =>
      if file.name ≠ claim.name then .error .name
      else if file.size ≠ claim.totalBytes ∨ checkpoint.totalBytes ≠ claim.totalBytes then .error .size
      else .ok ()

/-- All the fields that make up a transfer's identity, and the consent. -/
theorem checkResume_ok_iff {checkpoint : TransferSession} {claim : ResumeClaim} :
    checkResume checkpoint claim = .ok () ↔
      checkpoint.direction = claim.direction ∧ checkpoint.accepted = true ∧ checkpoint.peer = claim.peer ∧
        ∃ file ∈ checkpoint.files.head?, file.name = claim.name ∧ file.size = claim.totalBytes ∧
          checkpoint.totalBytes = claim.totalBytes := by
  unfold checkResume
  by_cases direction : checkpoint.direction = claim.direction
  · by_cases accepted : checkpoint.accepted = true
    · by_cases peer : checkpoint.peer = claim.peer
      · cases files : checkpoint.files with
        | nil => simp [direction, accepted, peer]
        | cons file rest =>
          by_cases name : file.name = claim.name <;> by_cases size : file.size = claim.totalBytes <;>
            by_cases total : checkpoint.totalBytes = claim.totalBytes <;>
            simp [direction, accepted, peer, name, size, total]
      · simp [direction, accepted, peer]
    · simp [direction, accepted]
  · simp [direction]

/-- The file a checkpoint holds open: a send has none. -/
def partialFile (checkpoint : TransferSession) : Option Path :=
  if checkpoint.direction ≠ .receiving then none
  else
    match checkpoint.files with
    | [] => none
    | file :: _ => if file.path = [] then none else some (partPath file.path)

def checkpointMaxAgeDays : Int := 14

def isExpiredAfter (checkpoint : TransferSession) (now days : Int) : Bool :=
  now - checkpoint.startedAt > days * 86400000000000

def isExpired (checkpoint : TransferSession) (now : Int) : Bool :=
  isExpiredAfter checkpoint now checkpointMaxAgeDays

/-- `Manager::checkpoint`: `prior` is what lies under the id. -/
def newCheckpoint (prior : Option TransferSession) (id : String) (peer : DeviceId) (direction : Direction)
    (path name : Path) (size : Nat) (accepted : Bool) (now : Int) : TransferSession where
  id := id
  peer := peer
  direction := direction
  files := [⟨path, name, size⟩]
  totalBytes := size
  transferredBytes := 0
  startedAt := now
  isResume := prior.isSome
  accepted := accepted

/-- What the first frame of an inbound transfer says, all of it chosen by the peer; nothing at all
where no such frame was read in time. -/
structure TransferPreview where
  transferId : String
  name : Path
  size : Nat
  isFolder : Bool
  deriving DecidableEq

def TransferPreview.default : TransferPreview := ⟨"", [], 0, false⟩

def maxTransferId : Nat := 128

def isValidTransferId (id : String) : Bool :=
  id ≠ "" && id.utf8ByteSize ≤ maxTransferId && id ≠ "." && id ≠ ".." &&
    id.toList.all fun c => c.isAlphanum || c = '-' || c = '_' || c = '.'

def TransferPreview.claim (preview : TransferPreview) (peer : DeviceId) : ResumeClaim :=
  ⟨peer, preview.name, preview.size, .receiving⟩

/-- `resumes_accepted_receive`, on what is stored under the offer's id. -/
def resumesAcceptedReceive (stored : Option TransferSession) (peer : DeviceId) (preview : TransferPreview) : Bool :=
  match stored with
  | none => false
  | some checkpoint =>
    match checkResume checkpoint (preview.claim peer) with
    | .ok () => true
    | .error _ => false

theorem resumesAcceptedReceive_iff {stored : Option TransferSession} {peer : DeviceId} {preview : TransferPreview} :
    resumesAcceptedReceive stored peer preview = true ↔
      ∃ checkpoint, stored = some checkpoint ∧ checkResume checkpoint (preview.claim peer) = .ok () := by
  unfold resumesAcceptedReceive
  cases stored with
  | none => simp
  | some checkpoint =>
    cases checked : checkResume checkpoint (preview.claim peer) <;> simp [checked]

/-- `resume_destination`: the directory the checkpoint's file went to. -/
def resumeDestination (stored : Option TransferSession) (peer : DeviceId) (preview : TransferPreview) : Option Path :=
  if !resumesAcceptedReceive stored peer preview then none
  else
    match stored.bind fun checkpoint => checkpoint.files.head? with
    | none => none
    | some file => if parent file.path = [] then none else some (parent file.path)

/-- Where `handle_incoming` writes down that an offer goes: `local_path` skips an empty name. -/
def recordedPath (dir name : Path) : Path := if name = [] then dir else localPath dir name

end PeerBeam.Transfer
