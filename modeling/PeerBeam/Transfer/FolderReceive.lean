import PeerBeam.Transfer.Staging

/-! Receiving a folder: a state machine driven by whatever a sender puts on the link. -/
namespace PeerBeam.Transfer

structure FileMeta where
  path : Path
  size : UInt64
  deriving DecidableEq

inductive FolderMessage where
  | manifest (transferId root : Path) (files : List FileMeta)
  | resumeState (have' : List UInt64)
  | fileHeader (index : UInt32) (path : Path) (size offset : UInt64)
  | fileEnd (index : UInt32) (checksum : Option String)
  | complete
  | received (files corrupt : UInt64)
  | cancel
  | pause
  | resume
  deriving DecidableEq

/-- What one turn of the receive loop gets. -/
inductive Incoming where
  | chunk (payload : Bytes)
  | message (m : FolderMessage)
  /-- A control frame that is no folder message. -/
  | malformed (detail : String)
  /-- A frame of another kind. -/
  | other
  /-- The link ended. -/
  | closed
  /-- The link failed. -/
  | broken (e : DomainError)
  /-- The user cancelled on this side. -/
  | cancelled
  deriving DecidableEq

/-- Reduce an arbitrary name to a single safe path component. -/
def sanitizeName (name : Path) : Path :=
  match fileName name with
  | some base => base
  | none => ['f', 'o', 'l', 'd', 'e', 'r']

/-- The pieces `str::split` cuts at both separators. -/
def components (rel : Path) : List Path := rel.splitOnP fun c => c = '/' ∨ c = '\\'

/-- A relative path with empty and `.` components dropped; none where a component is `..`
or holds a NUL, or where nothing is left. -/
def sanitizeRel (rel : Path) : Option Path :=
  if (components rel).any fun comp => comp.contains '\x00' || comp = ['.', '.'] then none
  else
    match (components rel).filter fun comp => comp ≠ [] ∧ comp ≠ ['.'] with
    | [] => none
    | parts => some (['/'].intercalate parts)

def baseDir (destDir root : Path) : Path := (destDir.reverse.dropWhile (· = '/')).reverse ++ '/' :: root

def destPath (destDir root rel : Path) : Option Path :=
  (sanitizeRel rel).map fun safe => baseDir destDir root ++ '/' :: safe

/-- What a round of `size` calls meets: files that others put there, and failures. -/
structure Probe where
  foreign : Path → Option Nat
  fails : Path → Option String

def Probe.stat (probe : Probe) (disk : Path → Option Bytes) : Stat := fun p =>
  match probe.fails p, disk p with
  | some e, _ => .error (.storage ("stat " ++ p.text ++ ": " ++ e))
  | none, some bytes => .ok (some bytes.length)
  | none, none => .ok (probe.foreign p)

/-- How `finalize_replacing` ends. -/
inductive Publishing where
  | landed
  | refused
  /-- The destination was removed to make room and the second rename failed too. -/
  | removed
  deriving DecidableEq

/-- What the storage and the other receives of the process contribute to one turn. -/
structure Env where
  collision : Probe
  claim : Probe
  /-- Staging paths other live receives hold, at the first and at the second take. -/
  heldFirst : List Path
  heldSecond : List Path
  openError : Option String
  /-- A write that fails, after how many bytes. -/
  writeError : Option (Nat × String)
  flushError : Option String
  closeError : Option String
  publishing : Publishing

def Env.clear : Env := ⟨⟨fun _ => none, fun _ => none⟩, ⟨fun _ => none, fun _ => none⟩, [], [], none, none, none, none, .landed⟩

inductive TransferOutcome where
  | completed
  | cancelled
  deriving DecidableEq

/-- The locals of `receive_folder`, with the disk. `published` records what was put under
its real name. -/
structure FolderReceiver where
  disk : Path → Option Bytes
  /-- Destinations chosen so far, folded to lower case. -/
  written : List Path
  /-- The staging file that the open writer appends to. -/
  current : Option Path
  /-- Staging path and destination of the open entry. -/
  currentPaths : Option (Path × Path)
  currentSkipped : Bool
  /-- What the rolling digest has been fed. -/
  entryHash : Bytes
  entryLimit : Nat
  entryWritten : Nat
  done : Nat
  filesCompleted : Nat
  corrupt : Nat
  published : List (Path × Bytes)
  ended : Option (Except DomainError TransferOutcome)

def FolderReceiver.start (disk : Path → Option Bytes) : FolderReceiver :=
  ⟨disk, [], none, none, false, [], 0, 0, 0, 0, 0, [], none⟩

/-- The parts of the receive that never change. -/
structure FolderSetup where
  hash : Bytes → String
  /-- `str::to_lowercase`. -/
  lower : Path → Path
  destDir : Path
  root : Path

namespace FolderReceiver
variable (s : FolderReceiver)

def fail (e : DomainError) : FolderReceiver := { s with ended := some (.error e) }

/-- The same once the open entry has been taken out to be finished. -/
def failTaken (e : DomainError) : FolderReceiver :=
  { s with current := none, currentPaths := none, ended := some (.error e) }

def closeWriter (env : Env) (writer : Option Path) : Except DomainError Unit :=
  match writer, env.flushError, env.closeError with
  | none, _, _ => .ok ()
  | some _, some e, _ => .error (.storage ("flush: " ++ e))
  | some _, none, some e => .error (.storage ("close: " ++ e))
  | some _, none, none => .ok ()

/-- `finalize_replacing` of the open entry. -/
def publish (env : Env) (part dest : Path) : FolderReceiver × Bool :=
  match env.publishing, s.disk part with
  | .landed, some bytes =>
    ({ s with
      disk := Function.update (Function.update s.disk dest (some bytes)) part none
      published := s.published ++ [(dest, bytes)] }, true)
  | .removed, _ => ({ s with disk := Function.update s.disk dest none }, false)
  | _, _ => (s, false)

/-- Close the open entry and publish it: whether it landed. -/
def finishEntry (env : Env) : Except DomainError (FolderReceiver × Bool) :=
  let taken := { s with current := none, currentPaths := none }
  match closeWriter env s.current, s.currentPaths with
  | .error e, _ => .error e
  | .ok (), none => .ok (taken, false)
  | .ok (), some (part, dest) => .ok (taken.publish env part dest)

/-- The entry just announced is not written. -/
def skip : FolderReceiver := { s with current := none, currentPaths := none, currentSkipped := true }

/-- The name for an entry: its own, or a free one beside an earlier entry's. -/
def settleCase (setup : FolderSetup) (env : Env) (dp : Path) : Option Path × FolderReceiver :=
  if setup.lower dp ∉ s.written then (some dp, { s with written := setup.lower dp :: s.written })
  else
    match freeDestination (env.collision.stat s.disk) dp with
    | .ok free => (some free, { s with written := setup.lower free :: s.written })
    | .error _ => (none, s)

def openEntry (env : Env) (dp : Path) : FolderReceiver :=
  match claimDestination env.heldFirst (env.claim.stat s.disk) env.heldSecond dp, env.openError with
  | .ok (dest, part), none =>
    { s with
      disk := Function.update s.disk part (some [])
      current := some part
      currentPaths := some (part, dest)
      currentSkipped := false }
  | _, _ => s.skip

/-- A `FileHeader`, once the entry before it is finished. -/
def beginEntry (setup : FolderSetup) (env : Env) (path : Path) : FolderReceiver :=
  match destPath setup.destDir setup.root path with
  | none => s.skip
  | some dp =>
    match s.settleCase setup env dp with
    | (none, s) => s.skip
    | (some dp, s) => openEntry { s with entryHash := [] } env dp

def onChunk (env : Env) (payload : Bytes) : FolderReceiver :=
  match s.current with
  | none => s
  | some part =>
    if s.entryLimit < s.entryWritten + payload.length then
      s.fail (.transfer "sender exceeded the size its manifest declared")
    else
      match env.writeError with
      | some (wrote, e) =>
        { s with
          disk := Function.update s.disk part (some ((s.disk part).getD [] ++ payload.take wrote))
          ended := some (.error (.storage ("write chunk: " ++ e))) }
      | none =>
        { s with
          disk := Function.update s.disk part (some ((s.disk part).getD [] ++ payload))
          entryHash := s.entryHash ++ payload
          entryWritten := s.entryWritten + payload.length
          done := s.done + payload.length }

def onHeader (setup : FolderSetup) (env : Env) (path : Path) (size offset : UInt64) : FolderReceiver :=
  let s := { s with entryLimit := size.toNat - offset.toNat, entryWritten := 0 }
  match s.finishEntry env with
  | .error e => s.failTaken e
  | .ok (s, _) => s.beginEntry setup env path

def onFileEnd (setup : FolderSetup) (env : Env) (checksum : Option String) : FolderReceiver :=
  let digest := setup.hash s.entryHash
  let s := { s with entryHash := [] }
  if checksum.any (· ≠ digest) then
    -- closed, but not published
    { s with corrupt := s.corrupt + 1, current := none, currentPaths := none, currentSkipped := false }
  else
    match s.finishEntry env with
    | .error e => s.failTaken e
    | .ok (s, landed) =>
      { s with
        filesCompleted := if !s.currentSkipped && landed then s.filesCompleted + 1 else s.filesCompleted
        currentSkipped := false }

def onMessage (setup : FolderSetup) (env : Env) : FolderMessage → FolderReceiver
  | .fileHeader _ path size offset => s.onHeader setup env path size offset
  | .fileEnd _ checksum => s.onFileEnd setup env checksum
  | .complete =>
    match s.finishEntry env with
    | .error e => s.failTaken e
    | .ok (s, _) => { s with ended := some (.ok .completed) }
  -- closed, but not published
  | .cancel => { s with current := none, ended := some (.ok .cancelled) }
  | .received _ _ | .pause | .resume | .manifest _ _ _ | .resumeState _ => s

def step (setup : FolderSetup) (turn : Incoming × Env) : FolderReceiver :=
  match s.ended with
  | some _ => s
  | none =>
    match turn.1 with
    | .chunk payload => s.onChunk turn.2 payload
    | .message m => s.onMessage setup turn.2 m
    | .malformed detail => s.fail (.transfer ("bad folder message: " ++ detail))
    | .other => s
    | .closed => s.fail (.transfer "link closed before folder completed")
    | .broken e => s.fail e
    | .cancelled => { s with ended := some (.ok .cancelled) }

def run (setup : FolderSetup) (turns : List (Incoming × Env)) : FolderReceiver :=
  turns.foldl (fun s turn => s.step setup turn) s

theorem run_append (setup : FolderSetup) (earlier later : List (Incoming × Env)) :
    s.run setup (earlier ++ later) = (s.run setup earlier).run setup later :=
  List.foldl_append ..

/-- Nothing is read after the end. -/
theorem step_of_ended {setup : FolderSetup} {r : Except DomainError TransferOutcome} (h : s.ended = some r)
    (turn : Incoming × Env) : s.step setup turn = s := by
  unfold step
  rw [h]

theorem run_of_ended {setup : FolderSetup} {r : Except DomainError TransferOutcome} (h : s.ended = some r)
    (turns : List (Incoming × Env)) : s.run setup turns = s := by
  induction turns with
  | nil => rfl
  | cons turn turns ih =>
    rw [run, List.foldl_cons, s.step_of_ended h]
    exact ih

/-- A receive that goes on after more turns went on before them. -/
theorem alive_before {setup : FolderSetup} {earlier later : List (Incoming × Env)}
    (alive : (s.run setup (earlier ++ later)).ended = none) : (s.run setup earlier).ended = none := by
  cases ended : (s.run setup earlier).ended with
  | none => rfl
  | some r =>
    rw [run_append, run_of_ended _ ended, ended] at alive
    cases alive

variable {s} {s' : FolderReceiver} {env : Env}

/-- An entry that was finished is no longer open. It may have landed, may have lost what
was at its destination, or has changed nothing. -/
theorem finishEntry_ok {landed : Bool} (h : s.finishEntry env = .ok (s', landed)) :
    s' = { s with current := none, currentPaths := none, disk := s'.disk, published := s'.published } ∧
    (landed = false ∧ s'.published = s.published ∧ s'.disk = s.disk ∨
     (∃ part dest, s.currentPaths = some (part, dest) ∧ landed = false ∧ s'.published = s.published ∧
      s'.disk = Function.update s.disk dest none) ∨
     ∃ part dest bytes, s.currentPaths = some (part, dest) ∧ landed = true ∧ s.disk part = some bytes ∧
      s'.published = s.published ++ [(dest, bytes)] ∧
      s'.disk = Function.update (Function.update s.disk dest (some bytes)) part none) := by
  unfold finishEntry at h
  split at h
  · cases h
  · cases h
    exact ⟨rfl, .inl ⟨rfl, rfl, rfl⟩⟩
  · next part dest _ paths =>
    unfold publish at h
    dsimp only at h
    split at h
    · next bytes _ held =>
      cases h
      exact ⟨rfl, .inr (.inr ⟨part, dest, bytes, paths, rfl, held, rfl, rfl⟩)⟩
    · cases h
      exact ⟨rfl, .inr (.inl ⟨part, dest, paths, rfl, rfl, rfl⟩)⟩
    · cases h
      exact ⟨rfl, .inl ⟨rfl, rfl, rfl⟩⟩

/-- Where an announced entry goes, if it can be opened: destination and staging path. -/
def placement (s : FolderReceiver) (setup : FolderSetup) (env : Env) (path : Path) : Option (Path × Path) :=
  match destPath setup.destDir setup.root path with
  | none => none
  | some dp =>
    match (s.settleCase setup env dp).1 with
    | none => none
    | some dp =>
      match claimDestination env.heldFirst (env.claim.stat s.disk) env.heldSecond dp, env.openError with
      | .ok (dest, part), none => some (dest, part)
      | _, _ => none

/-- The names an entry may be placed under: its own, one beside an earlier entry, and one
beside a receive that holds its staging path. -/
theorem placement_cases {s : FolderReceiver} {setup : FolderSetup} {env : Env} {path dest part : Path}
    (h : s.placement setup env path = some (dest, part)) :
    ∃ dp name, destPath setup.destDir setup.root path = some dp ∧
      (name = dp ∨ freeDestination (env.collision.stat s.disk) dp = .ok name) ∧
      claimDestination env.heldFirst (env.claim.stat s.disk) env.heldSecond name = .ok (dest, part) := by
  unfold placement at h
  split at h
  · cases h
  · next dp safe =>
    split at h
    · cases h
    · next name settled =>
      have named : name = dp ∨ freeDestination (env.collision.stat s.disk) dp = .ok name := by
        unfold settleCase at settled
        split at settled
        · cases settled
          exact .inl rfl
        · split at settled
          · next found =>
            cases settled
            exact .inr found
          · cases settled
      split at h
      · next claimed _ =>
        cases h
        exact ⟨dp, name, safe, named, claimed⟩
      · cases h

/-- A placement depends on the names given out and on the disk. -/
theorem placement_congr {s₁ s₂ : FolderReceiver} (written : s₁.written = s₂.written) (disk : s₁.disk = s₂.disk)
    (setup : FolderSetup) (env : Env) (path : Path) : s₁.placement setup env path = s₂.placement setup env path := by
  have names (dp : Path) : (s₁.settleCase setup env dp).1 = (s₂.settleCase setup env dp).1 := by
    unfold settleCase
    rw [written, disk]
    split
    · rfl
    · split
      · rfl
      · rfl
  unfold placement
  simp only [names, disk]

/-- Settling a name only records it. -/
theorem settleCase_snd (s : FolderReceiver) (setup : FolderSetup) (env : Env) (dp : Path) :
    ∃ written, (s.settleCase setup env dp).2 = { s with written := written } := by
  unfold settleCase
  split
  · exact ⟨_, rfl⟩
  · split
    · exact ⟨_, rfl⟩
    · exact ⟨s.written, rfl⟩

/-- An announced entry is skipped, or opened with an empty staging file. -/
theorem beginEntry_eq (s : FolderReceiver) (setup : FolderSetup) (env : Env) (path : Path) :
    ∃ written hashed, (hashed = s.entryHash ∨ hashed = []) ∧ s.beginEntry setup env path =
      match s.placement setup env path with
      | none => { s.skip with written := written, entryHash := hashed }
      | some (dest, part) =>
        { s with
          written := written
          entryHash := []
          disk := Function.update s.disk part (some [])
          current := some part
          currentPaths := some (part, dest)
          currentSkipped := false } := by
  unfold beginEntry placement
  split
  · exact ⟨s.written, s.entryHash, .inl rfl, rfl⟩
  · next dp _ =>
    obtain ⟨written, kept⟩ := s.settleCase_snd setup env dp
    cases settled : s.settleCase setup env dp with
    | mk name s₁ =>
      obtain rfl : s₁ = { s with written := written } := by rw [← kept, settled]
      cases name with
      | none => exact ⟨written, s.entryHash, .inl rfl, rfl⟩
      | some name =>
        refine ⟨written, [], .inr rfl, ?_⟩
        dsimp only
        unfold openEntry
        dsimp only
        split
        · rfl
        · rfl

end FolderReceiver

def receiveFolder (setup : FolderSetup) (disk : Path → Option Bytes) (turns : List (Incoming × Env)) :
    FolderReceiver :=
  (FolderReceiver.start disk).run setup turns

/-- The sum `manifest_preview` reports: saturating. -/
def previewTotal (files : List FileMeta) : UInt64 :=
  files.foldl (fun total f => if total.toNat + f.size.toNat < 2 ^ 64 then total + f.size else UInt64.ofNat (2 ^ 64 - 1)) 0

def manifestPreview : FolderMessage → Option (Path × Path × UInt64)
  | .manifest transferId root files => some (transferId, sanitizeName root, previewTotal files)
  | _ => none

end PeerBeam.Transfer
