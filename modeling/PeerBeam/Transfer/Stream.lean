import PeerBeam.Transfer.FolderReceive

/-! Sending and receiving one file with resume and a checksum of the whole. -/
namespace PeerBeam.Transfer

inductive Control where
  | resumeAck (offset : UInt64)
  | complete (checksum : String)
  | verify (ok : Bool)
  | cancel
  | pause
  | resume
  deriving DecidableEq

inductive StreamIncoming where
  | chunk (payload : Bytes)
  | control (c : Control)
  /-- A control frame that does not parse. -/
  | malformed (detail : String)
  /-- A frame of another kind. -/
  | other
  | closed
  | broken (e : DomainError)
  /-- The user cancelled on this side. -/
  | cancelled
  deriving DecidableEq

structure FileReceiver where
  /-- The staging file as it was opened. -/
  base : Bytes
  /-- What the writer accepted since. -/
  written : Bytes
  /-- What the digest has been fed. -/
  hashed : Bytes
  received : Nat
  /-- Whether the loop told the sender that the user cancelled. -/
  told : Bool
  /-- How the loop ended: with an error, or with an outcome and `integrity_ok`. -/
  ended : Option (Except DomainError (TransferOutcome × Bool))

namespace FileReceiver
variable (hash : Bytes → String) (size : Nat) (s : FileReceiver)

def fail (e : DomainError) : FileReceiver := { s with ended := some (.error e) }

/-- One turn of the loop; a write may fail after some bytes. -/
def step (turn : StreamIncoming × Option (Nat × String)) : FileReceiver :=
  match s.ended with
  | some _ => s
  | none =>
    match turn.1 with
    | .chunk payload =>
      if size < s.received + payload.length then s.fail (.transfer "sender exceeded the size it declared")
      else
        match turn.2 with
        | some (wrote, e) =>
          { s with written := s.written ++ payload.take wrote, ended := some (.error (.storage ("write chunk: " ++ e))) }
        | none =>
          { s with
            written := s.written ++ payload
            hashed := s.hashed ++ payload
            received := s.received + payload.length }
    | .control (.complete checksum) => { s with ended := some (.ok (.completed, hash s.hashed = checksum)) }
    | .control .cancel => { s with ended := some (.ok (.cancelled, true)) }
    | .control (.resumeAck _) | .control (.verify _) | .control .pause | .control .resume => s
    | .malformed detail => s.fail (.transfer ("bad control: " ++ detail))
    | .other => s
    | .closed => s.fail (.transfer "link closed before transfer completed")
    | .broken e => s.fail e
    | .cancelled => { s with told := true, ended := some (.ok (.cancelled, true)) }

def run (turns : List (StreamIncoming × Option (Nat × String))) : FileReceiver := turns.foldl (step hash size) s

end FileReceiver

def sanitizeFileName (name : Path) : Path := (fileName name).getD "received.bin".toList

/-- `local_path` of a single name: `Path::push`. -/
def localPath (root base : Path) : Path :=
  if root = [] then base else if root.getLast? = some '/' then root ++ base else root ++ '/' :: base

/-- What the storage and the other receives of the process do around one receive. -/
structure FileEnv where
  /-- No `Meta` arrives, or no link is there at all. -/
  metaError : Option DomainError
  /-- Staging paths other live receives hold, at the first and at the second take. -/
  heldFirst : List Path
  probe : Probe
  heldSecond : List Path
  sizeError : Option String
  ackError : Option DomainError
  /-- Reading the prefix back, or opening the staging file, fails. -/
  openError : Option String
  /-- How many of the bytes written survive a receive that does not get to close its file. -/
  kept : Nat
  flushError : Option String
  closeError : Option String
  /-- Whether a poisoned staging file can be removed. -/
  removable : Bool
  /-- How `finalize` ends: at which of the names it tries. -/
  finalizing : Except String Nat

structure Receipt where
  disk : Path → Option Bytes
  sent : List Control
  finalized : Option (Path × Bytes)
  result : Except DomainError TransferOutcome

/-- A receive that has claimed and opened its staging file. -/
structure Opened where
  disk : Path → Option Bytes
  dest : Path
  part : Path
  existing : Nat

def Opened.prior (o : Opened) : Bytes := (o.disk o.part).getD []

/-- From `recv_meta` to the open writer. -/
def openPart (env : FileEnv) (dest : Path) (size : Nat) (disk : Path → Option Bytes) : Except Receipt Opened :=
  match env.metaError with
  | some e => .error ⟨disk, [], none, .error e⟩
  | none =>
    match claimDestination env.heldFirst (env.probe.stat disk) env.heldSecond dest with
    | .error e => .error ⟨disk, [], none, .error e⟩
    | .ok (dest, part) =>
      let existing := min ((disk part).getD []).length size
      match env.sizeError, env.ackError, env.openError with
      | some e, _, _ => .error ⟨disk, [], none, .error (.storage e)⟩
      | none, some e, _ => .error ⟨disk, [], none, .error e⟩
      | none, none, some e => .error ⟨disk, [.resumeAck (UInt64.ofNat existing)], none, .error (.storage e)⟩
      | none, none, none => .ok ⟨disk, dest, part, existing⟩

/-- The loop's start: an existing prefix is hashed and appended to, else the file is emptied. -/
def Opened.start (o : Opened) : FileReceiver :=
  ⟨if 0 < o.existing then o.prior else [], [], o.prior.take o.existing, o.existing, false, none⟩

def Opened.finish (o : Opened) (env : FileEnv) (name : Path) (s : FileReceiver) : Receipt :=
  let ack := Control.resumeAck (UInt64.ofNat o.existing)
  let cut := Function.update o.disk o.part (some (s.base ++ s.written.take env.kept))
  let whole := Function.update o.disk o.part (some (s.base ++ s.written))
  match s.ended with
  | none => ⟨cut, [ack], none, .error (.transfer "link closed before transfer completed")⟩
  | some (.error e) => ⟨cut, [ack], none, .error e⟩
  | some (.ok (outcome, integrityOk)) =>
    -- the verdict is sent only for a transfer that completed
    let told := if s.told then [ack, .cancel] else [ack]
    let verdict (ok : Bool) : List Control := if outcome = .completed then [ack, .verify ok] else told
    match env.flushError, env.closeError with
    | some e, _ => ⟨cut, verdict false, none, .error (.storage ("flush: " ++ e))⟩
    | none, some e => ⟨cut, verdict false, none, .error (.storage ("close: " ++ e))⟩
    | none, none =>
      match outcome, integrityOk, env.finalizing with
      | .cancelled, _, _ => ⟨whole, told, none, .ok .cancelled⟩
      | .completed, false, _ =>
        ⟨if env.removable then Function.update whole o.part none else whole, [ack, .verify false], none,
          .error (.integrity ("checksum mismatch for " ++ name.text))⟩
      | .completed, true, .error e => ⟨whole, [ack, .verify false], none, .error (.storage e)⟩
      | .completed, true, .ok n =>
        let path := uniqueCandidate o.dest n
        match whole path with
        | some _ => ⟨whole, [ack, .verify false], none, .error (.storage ("finalize " ++ path.text ++ ": exists"))⟩
        | none =>
          ⟨Function.update (Function.update whole path (some (s.base ++ s.written))) o.part none, [ack, .verify true],
            some (path, s.base ++ s.written), .ok .completed⟩

/-- A file to send, unchanged while it is sent. -/
structure SendRequest where
  name : Path
  content : Bytes
  chunkSize : UInt32
  fits : content.length < 2 ^ 64

/-- The chunks from `offset` on. -/
def SendRequest.chunks (req : SendRequest) (offset : Nat) : List Bytes :=
  readChunks (max 1 req.chunkSize.toNat) (req.content.drop offset).length (req.content.drop offset)

def SendRequest.checksum (req : SendRequest) (hash : Bytes → String) (offset : Nat) : String :=
  hash (req.content.take offset ++ (req.chunks offset).flatten)

/-- How a send stops before its end: after some frames, by an error or by the user. -/
inductive SendStop where
  | failed (frames : Nat) (e : DomainError)
  | cancelled (chunks : Nat)

/-- What is put on the link after `ResumeAck`. -/
def SendRequest.frames (req : SendRequest) (hash : Bytes → String) (stop : Option SendStop) (offset : Nat) :
    List StreamIncoming :=
  let complete := StreamIncoming.control (.complete (req.checksum hash offset))
  match stop with
  | none => (req.chunks offset).map StreamIncoming.chunk ++ [complete]
  | some (.failed n _) => ((req.chunks offset).map StreamIncoming.chunk ++ [complete]).take n
  | some (.cancelled n) => ((req.chunks offset).take n).map StreamIncoming.chunk ++ [.control .cancel]

def recvResumeAck : List StreamIncoming → Except DomainError (UInt64 × List StreamIncoming)
  | [] | .closed :: _ => .error (.transfer "link closed before resume ack")
  | .control (.resumeAck offset) :: rest => .ok (offset, rest)
  | .malformed detail :: _ => .error (.transfer ("bad control: " ++ detail))
  | .broken e :: _ => .error e
  | _ :: rest => recvResumeAck rest

def recvVerify : List StreamIncoming → Except DomainError Bool
  | [] | .closed :: _ => .error (.transfer "link closed before verify")
  | .control (.verify ok) :: _ => .ok ok
  | .control .cancel :: _ => .error .cancelled
  | .malformed detail :: _ => .error (.transfer ("bad control: " ++ detail))
  | .broken e :: _ => .error e
  | _ :: rest => recvVerify rest

/-- How `send_file` ends, on what it reads. -/
def sendFile (stop : Option SendStop) (answers : List StreamIncoming) : Except DomainError TransferOutcome :=
  match recvResumeAck answers with
  | .error e => .error e
  | .ok (_, answers) =>
    match stop with
    | some (.failed _ e) => .error e
    | some (.cancelled _) => .ok .cancelled
    | none =>
      match recvVerify answers with
      | .error e => .error e
      | .ok true => .ok .completed
      | .ok false => .error (.integrity "receiver reported checksum mismatch")

/-- What the receiver's next read of the link meets. -/
inductive Slot where
  /-- The sender's next frame, and how writing it ends. -/
  | next (write : Option (Nat × String))
  | pause
  | resume
  | closed
  | broken (e : DomainError)
  /-- Nothing is read: the user cancels on the receiving side. -/
  | cancelled

/-- The turns of a receiver whose sender puts `frames` on the link. -/
def deliver : List Slot → List StreamIncoming → List (StreamIncoming × Option (Nat × String))
  | [], _ => [(.closed, none)]
  | .next write :: slots, x :: frames => (x, write) :: deliver slots frames
  | .next _ :: slots, [] => deliver slots []
  | .pause :: slots, frames => (.control .pause, none) :: deliver slots frames
  | .resume :: slots, frames => (.control .resume, none) :: deliver slots frames
  | .closed :: _, _ => [(.closed, none)]
  | .broken e :: _, _ => [(.broken e, none)]
  | .cancelled :: _, _ => [(.cancelled, none)]

/-- One link: both sides, with everything that may go wrong. -/
structure Attempt where
  env : FileEnv
  slots : List Slot
  stop : Option SendStop
  /-- How many of the receiver's frames reach the sender. -/
  heard : Nat

/-- The receive loop over this link. A sender that never hears the offset sends nothing. -/
def Attempt.loop (a : Attempt) (hash : Bytes → String) (req : SendRequest) (o : Opened) : FileReceiver :=
  let offset := min (UInt64.ofNat o.existing).toNat req.content.length
  let frames := if a.heard = 0 then [] else req.frames hash a.stop offset
  o.start.run hash req.content.length (deliver a.slots frames)

structure Exchange where
  receipt : Receipt
  sender : Except DomainError TransferOutcome

def SendRequest.dest (req : SendRequest) (destDir : Path) : Path := localPath destDir (sanitizeFileName req.name)

/-- `receive_file` and `send_file` over one link. -/
def Attempt.exchange (a : Attempt) (hash : Bytes → String) (req : SendRequest) (destDir : Path)
    (disk : Path → Option Bytes) : Exchange :=
  let receipt :=
    match openPart a.env (req.dest destDir) req.content.length disk with
    | .error receipt => receipt
    | .ok o => o.finish a.env (sanitizeFileName req.name) (a.loop hash req o)
  ⟨receipt, sendFile a.stop ((receipt.sent.take a.heard).map .control)⟩

/-- What a sender with some chunks left still puts on the link. -/
inductive Sends (checksum : String) : List Bytes → List StreamIncoming → Prop where
  | cut (chunks : List Bytes) : Sends checksum chunks []
  | cancel (chunks : List Bytes) : Sends checksum chunks [.control .cancel]
  | complete : Sends checksum [] [.control (.complete checksum)]
  | chunk (payload : Bytes) {chunks : List Bytes} {frames : List StreamIncoming} (rest : Sends checksum chunks frames) :
    Sends checksum (payload :: chunks) (.chunk payload :: frames)

theorem sends_whole (checksum : String) (chunks : List Bytes) :
    Sends checksum chunks (chunks.map StreamIncoming.chunk ++ [.control (.complete checksum)]) := by
  induction chunks with
  | nil => exact .complete
  | cons payload chunks ih => exact .chunk payload ih

theorem Sends.take {checksum : String} {chunks : List Bytes} {frames : List StreamIncoming}
    (h : Sends checksum chunks frames) (n : Nat) : Sends checksum chunks (frames.take n) := by
  induction h generalizing n with
  | cut chunks => rw [List.take_nil]; exact .cut chunks
  | cancel chunks =>
    cases n with
    | zero => exact .cut chunks
    | succ n => rw [List.take_succ_cons, List.take_nil]; exact .cancel chunks
  | complete =>
    cases n with
    | zero => exact .cut []
    | succ n => rw [List.take_succ_cons, List.take_nil]; exact .complete
  | chunk payload rest ih =>
    cases n with
    | zero => exact .cut _
    | succ n => exact .chunk payload (ih n)

theorem sends_cancelled (checksum : String) (chunks : List Bytes) (n : Nat) :
    Sends checksum chunks ((chunks.take n).map StreamIncoming.chunk ++ [.control .cancel]) := by
  induction chunks generalizing n with
  | nil => rw [List.take_nil]; exact .cancel []
  | cons payload chunks ih =>
    cases n with
    | zero => exact .cancel _
    | succ n => exact .chunk payload (ih n)

theorem frames_sends (req : SendRequest) (hash : Bytes → String) (stop : Option SendStop) (offset : Nat) :
    Sends (req.checksum hash offset) (req.chunks offset) (req.frames hash stop offset) := by
  cases stop with
  | none => exact sends_whole _ _
  | some stop =>
    cases stop with
    | failed n e => exact (sends_whole _ _).take n
    | cancelled n => exact sends_cancelled _ _ n

namespace FileReceiver
variable {hash : Bytes → String} {size : Nat} {s : FileReceiver}

theorem run_cons (turn : StreamIncoming × Option (Nat × String)) (turns : List (StreamIncoming × Option (Nat × String))) :
    s.run hash size (turn :: turns) = (s.step hash size turn).run hash size turns := rfl

theorem run_of_ended {r : Except DomainError (TransferOutcome × Bool)} (h : s.ended = some r)
    (turns : List (StreamIncoming × Option (Nat × String))) : s.run hash size turns = s := by
  induction turns with
  | nil => rfl
  | cons turn turns ih =>
    have same : s.step hash size turn = s := by
      unfold step
      rw [h]
    rw [run_cons, same]
    exact ih

/-- A loop that ended within a chunk list wrote a part of it; if it completed, all of it. -/
structure Took (hash : Bytes → String) (checksum : String) (chunks : List Bytes) (s s' : FileReceiver) : Prop where
  base : s'.base = s.base
  written : ∃ n, s'.written = s.written ++ chunks.flatten.take n
  whole : ∀ ok, s'.ended = some (.ok (.completed, ok)) →
    s'.written = s.written ++ chunks.flatten ∧ ok = decide (hash (s.hashed ++ chunks.flatten) = checksum)

variable {checksum : String} {chunks : List Bytes}

/-- A turn that ends the loop without a further byte, and not with `Complete`. -/
theorem took_last {turn : StreamIncoming × Option (Nat × String)} (told : Bool)
    (r : Except DomainError (TransferOutcome × Bool)) (other : ∀ ok, r ≠ .ok (.completed, ok))
    (ends : s.step hash size turn = { s with told := told, ended := some r })
    (turns : List (StreamIncoming × Option (Nat × String))) :
    Took hash checksum chunks s (s.run hash size (turn :: turns)) := by
  rw [run_cons, ends, run_of_ended rfl]
  refine ⟨rfl, ⟨0, ?_⟩, fun ok ended => absurd (Option.some.inj ended) (other ok)⟩
  rw [List.take_zero, List.append_nil]

theorem took_failed {turn : StreamIncoming × Option (Nat × String)} {e : DomainError}
    (failed : s.step hash size turn = s.fail e) (turns : List (StreamIncoming × Option (Nat × String))) :
    Took hash checksum chunks s (s.run hash size (turn :: turns)) :=
  took_last s.told (.error e) nofun failed turns

/-- `Complete` ends the loop with everything written. -/
theorem took_complete (alive : s.ended = none) (write : Option (Nat × String))
    (turns : List (StreamIncoming × Option (Nat × String))) :
    Took hash checksum [] s (s.run hash size ((.control (.complete checksum), write) :: turns)) := by
  have ends : s.step hash size (.control (.complete checksum), write) =
      { s with ended := some (.ok (.completed, hash s.hashed = checksum)) } := by
    simp only [step, alive]
  rw [run_cons, ends, run_of_ended rfl]
  refine ⟨rfl, ⟨0, by simp⟩, ?_⟩
  rintro ok ⟨rfl⟩
  simp

/-- A chunk is refused as too large, written in part, or taken; in the last case the rest
decides. -/
theorem took_chunk (alive : s.ended = none) (payload : Bytes) (write : Option (Nat × String))
    {turns : List (StreamIncoming × Option (Nat × String))}
    (rest : ∀ s' : FileReceiver, s'.ended = none → Took hash checksum chunks s' (s'.run hash size turns)) :
    Took hash checksum (payload :: chunks) s (s.run hash size ((.chunk payload, write) :: turns)) := by
  by_cases large : size < s.received + payload.length
  · have refused : s.step hash size (.chunk payload, write) = s.fail (.transfer "sender exceeded the size it declared") := by
      simp only [step, alive, large, if_true]
    exact took_failed refused turns
  · cases write with
    | some failure =>
      obtain ⟨wrote, e⟩ := failure
      have stopped : s.step hash size (.chunk payload, some (wrote, e)) =
          { s with
            written := s.written ++ payload.take wrote
            ended := some (.error (.storage ("write chunk: " ++ e))) } := by
        simp only [step, alive, large, if_false]
      rw [run_cons, stopped, run_of_ended rfl]
      refine ⟨rfl, ⟨min wrote payload.length, ?_⟩, fun ok ended => by cases ended⟩
      dsimp only
      rw [List.flatten_cons, List.take_append_of_le_length (Nat.min_le_right ..), ← List.take_eq_take_min]
    | none =>
      let next : FileReceiver :=
        { s with
          written := s.written ++ payload
          hashed := s.hashed ++ payload
          received := s.received + payload.length }
      have accepted : s.step hash size (.chunk payload, none) = next := by
        simp only [step, alive, large, if_false, next]
      rw [run_cons, accepted]
      obtain ⟨base, ⟨n, written⟩, whole⟩ := rest next alive
      refine ⟨base, ⟨payload.length + n, ?_⟩, fun ok ended => ?_⟩
      · rw [written, List.flatten_cons, List.take_length_add_append, List.append_assoc]
      · obtain ⟨all, agreed⟩ := whole ok ended
        rw [all, agreed, List.flatten_cons, List.append_assoc, List.append_assoc]
        exact ⟨rfl, rfl⟩

theorem step_closed (alive : s.ended = none) : s.step hash size (.closed, none) =
    s.fail (.transfer "link closed before transfer completed") := by
  simp only [step, alive]

theorem took_of_deliver {frames : List StreamIncoming} (h : Sends checksum chunks frames) (slots : List Slot)
    (alive : s.ended = none) : Took hash checksum chunks s (s.run hash size (deliver slots frames)) := by
  induction slots generalizing s chunks frames with
  | nil => exact took_failed (step_closed alive) []
  | cons slot slots ih =>
    cases slot with
    | pause =>
      have quiet : s.step hash size (.control .pause, none) = s := by simp only [step, alive]
      rw [deliver, run_cons, quiet]
      exact ih h alive
    | resume =>
      have quiet : s.step hash size (.control .resume, none) = s := by simp only [step, alive]
      rw [deliver, run_cons, quiet]
      exact ih h alive
    | closed => exact took_failed (step_closed alive) []
    | broken e =>
      have failed : s.step hash size (.broken e, none) = s.fail e := by simp only [step, alive]
      exact took_failed failed []
    | cancelled => exact took_last true (.ok (.cancelled, true)) nofun (by simp only [step, alive]) []
    | next write =>
      cases h with
      | cut chunks => exact ih (.cut chunks) alive
      | cancel chunks => exact took_last s.told (.ok (.cancelled, true)) nofun (by simp only [step, alive]) _
      | complete => exact took_complete alive write _
      | chunk payload rest => exact took_chunk alive payload write fun _ going => ih rest going

end FileReceiver

end PeerBeam.Transfer
