import PeerBeam.Transfer.FolderReceive

/-! Sending a folder over a faithful link, and what the receiver's answer makes of the
entries it had to skip. -/
namespace PeerBeam.Transfer

/-- A file of the source folder, unchanged while it is sent. -/
structure SourceFile where
  rel : Path
  content : Bytes
  /-- Whether `open_read` succeeds when the file's turn comes. -/
  readable : Bool
  fits : content.length < 2 ^ 64

def SourceFile.size (f : SourceFile) : UInt64 := UInt64.ofNat f.content.length

/-- A folder to send. Its manifest fits a frame, so the files are fewer than `2 ^ 32`. -/
structure SourceFolder where
  files : List SourceFile
  few : files.length < 2 ^ 32

/-- A header, the file from `already` on, and its end. -/
def entryFrames (hash : Bytes → String) (chunk i : Nat) (f : SourceFile) (already : UInt64) : List Incoming :=
  let rest := f.content.drop already.toNat
  let chunks := readChunks chunk rest.length rest
  .message (.fileHeader (UInt32.ofNat i) f.rel f.size already) ::
    (chunks.map .chunk ++ [.message (.fileEnd (UInt32.ofNat i) (some (hash chunks.flatten)))])

def sentFiles (files : List SourceFile) : List SourceFile := files.filter SourceFile.readable

/-- What `receive_folder` answers when it is done. -/
def FolderReceiver.answer (s : FolderReceiver) (ack : Bool) : List Incoming :=
  match s.ended, ack with
  | some (.ok .completed), true =>
    [.message (.received (UInt32.ofNat s.filesCompleted).toUInt64 (UInt64.ofNat s.corrupt))]
  | _, _ => []

def pausing : Incoming → Bool
  | .message .pause | .message .resume => true
  | _ => false

/-- The turns bring the frames in order, with pauses and resumes anywhere between them. -/
def Carries (turns : List (Incoming × Env)) (frames : List Incoming) : Prop :=
  (turns.map Prod.fst).filter (!pausing ·) = frames

def Env.Steady (env : Env) : Prop := env.writeError = none ∧ env.flushError = none ∧ env.closeError = none

def skips (setup : FolderSetup) : FolderReceiver → List (Incoming × Env) → List Bool
  | _, [] => []
  | s, turn :: turns =>
    match turn.1 with
    | .message (.fileHeader _ path _ _) =>
      (s.placement setup turn.2 path).isNone :: skips setup (s.step setup turn) turns
    | _ => skips setup (s.step setup turn) turns

def taken (f : SourceFile) (skipped : Bool) : Bytes := if skipped then [] else f.content

section
variable {setup : FolderSetup} {s : FolderReceiver}

/-- Between two entries: nothing is open, and what was counted was published. -/
structure Ready (s : FolderReceiver) : Prop where
  alive : s.ended = none
  closed : s.current = none ∧ s.currentPaths = none
  fresh : s.entryHash = []
  counted : s.filesCompleted = s.published.length

/-- Within an entry that is open and has `held` staged. -/
def FolderReceiver.staging (s : FolderReceiver) (written : List Path) (size : UInt64) (dest part : Path) (held : Bytes) :
    FolderReceiver :=
  { s with
    written := written
    entryLimit := size.toNat
    entryWritten := held.length
    done := s.done + held.length
    entryHash := held
    disk := Function.update s.disk part (some held)
    current := some part
    currentPaths := some (part, dest)
    currentSkipped := false }

/-- The entry's bytes, as far as the receiver took them, do not have the entry's checksum. -/
def spoiled (hash : Bytes → String) (fate : SourceFile × Bool) : Bool :=
  hash (taken fate.1 fate.2) ≠ hash fate.1.content

end

/-- The staging file cannot be created. -/
def Env.blocked : Env := { Env.clear with openError := some "Not a directory (os error 20)" }

end PeerBeam.Transfer
