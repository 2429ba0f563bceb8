import PeerBeam.Lib.Bytes
import PeerBeam.Lib.Run

/-! Cooperative pause: the loops of a sender and a receiver, the main stream between them, and the progress back-channel
that mirrors the receiver's pauses to the sender. -/
namespace PeerBeam.Transfer

/-- Values of the back-channel that are no byte counts. -/
def backPause : ℕ := 2 ^ 64 - 1

def backResume : ℕ := 2 ^ 64 - 2

/-- Whether a value says that the receiver has paused, or that it goes on. -/
def sentinel (value : ℕ) : Option Bool :=
  if value = backPause then some true else if value = backResume then some false else none

/-- What the receive loop reads from the main stream. -/
inductive MainFrame
  | pause
  | resume
  | chunk (len : ℕ)
  | complete
  | cancel
  deriving DecidableEq

/-- What a `Progress` of the receive loop says. -/
structure Progress where
  paused : Bool
  transferred : ℕ
  deriving DecidableEq

/-- Where the send loop is: before its edge check, in `wait_while_paused`, or at its chunk. -/
inductive SendPhase
  | top
  | waiting
  | sending
  | ended
  deriving DecidableEq

inductive ReceivePhase
  | top
  | waiting
  | reading
  /-- After `Complete`. -/
  | landing
  | ended
  deriving DecidableEq

/-- The task that reads the back-channel: until the first byte count or the grace, after it, or gone. -/
inductive BackReader
  | waiting
  | driving
  | gone
  deriving DecidableEq

structure PauseSender where
  /-- `ctrl.is_paused()`. -/
  paused : Bool
  signalled : Bool
  phase : SendPhase
  reader : BackReader
  /-- What `read_exact` has of the next report. -/
  buf : List UInt8
  /-- The reports handled so far. -/
  heard : List ℕ
  sent : List MainFrame
  /-- Whether the user has pressed since the last sentinel was handled. -/
  pressed : Bool

structure PauseReceiver where
  paused : Bool
  signalled : Bool
  phase : ReceivePhase
  received : ℕ
  /-- What the loop has reported so far. -/
  emitted : List Progress
  /-- What the pump has not taken yet. -/
  prx : List Progress
  wasPaused : Bool
  /-- No report has found its interval passed yet; the first that is no pause always does. -/
  fresh : Bool
  /-- What the mirror task has not taken yet. -/
  out : List ℕ
  last : Option ℕ
  mirroring : Bool

structure PauseLink where
  sender : PauseSender
  receiver : PauseReceiver
  main : List MainFrame
  /-- The back-channel. -/
  wire : List UInt8

def PauseLink.start (offset : ℕ) : PauseLink where
  sender := ⟨false, false, .top, .waiting, [], [], [], false⟩
  receiver := ⟨false, false, .top, offset, [], [], false, true, [], none, true⟩
  main := []
  wire := []

inductive PauseStep
  | pressSender (pause : Bool)
  | pressReceiver (pause : Bool)
  /-- The send loop checks for an edge. -/
  | signal
  | unparkSender
  | sendChunk (len : ℕ)
  /-- The send loop reads the end of its file. -/
  | complete
  /-- The send loop ends early; `told` is whether it sends `Cancel`. -/
  | stopSender (told : Bool)
  /-- The receive loop checks for an edge. -/
  | edge
  | unparkReceiver
  | receive
  | land (ok : Bool)
  | stopReceiver
  /-- The pump takes a report; `due` is whether its interval has passed. -/
  | pump (due : Bool)
  /-- The mirror task takes a value; `ok` is whether the sink takes it. -/
  | mirror (ok : Bool)
  /-- A byte of the back-channel is read. -/
  | arrive
  /-- The heartbeat, which drops a read that is not done. -/
  | beat
  /-- The grace for the first byte count runs out. -/
  | grace
  /-- The back-channel ends. -/
  | cut

namespace PauseSender
variable (s : PauseSender)

/-- `signal_pause_edge`, with the frame it sends. -/
def signal : PauseSender × List MainFrame :=
  if s.paused && !s.signalled then ({ s with signalled := true, sent := s.sent ++ [.pause] }, [.pause])
  else if !s.paused && s.signalled then ({ s with signalled := false, sent := s.sent ++ [.resume] }, [.resume])
  else (s, [])

/-- `handle_back_channel`, and what the reader makes of a byte count. -/
def handle (value : ℕ) : PauseSender :=
  match sentinel value with
  | some pause => { s with paused := pause, heard := s.heard ++ [value], pressed := false }
  | none => { s with reader := .driving, heard := s.heard ++ [value] }

/-- `read_exact` gets its next byte. -/
def arrive (b : UInt8) : PauseSender :=
  let buf := s.buf ++ [b]
  if buf.length = 8 then { s with buf := [] }.handle (BigEndian.read buf) else { s with buf := buf }

end PauseSender

namespace PauseReceiver
variable (size : ℕ) (r : PauseReceiver)

def report (paused : Bool) : PauseReceiver :=
  let p : Progress := ⟨paused, r.received⟩
  { r with emitted := r.emitted ++ [p], prx := r.prx ++ [p] }

def edge : PauseReceiver :=
  if r.paused && !r.signalled then { r with signalled := true }.report true
  else if !r.paused && r.signalled then { r with signalled := false }.report false
  else r

def receive (frame : MainFrame) : PauseReceiver :=
  match frame with
  | .chunk len =>
    if size < r.received + len then { r with phase := .ended }
    else { r with received := r.received + len, phase := .top }.report false
  | .pause => { r with phase := .top }.report true
  | .resume => { r with phase := .top }.report false
  | .complete => { r with phase := .landing }
  | .cancel => { r with phase := .ended }

/-- `out_tx.send`. -/
def push (values : List ℕ) : PauseReceiver :=
  { r with out := if r.mirroring then r.out ++ values else r.out }

/-- What the pump sends for one report: its edge, and its count when that is due. -/
def values (due : Bool) (p : Progress) : List ℕ :=
  if p.paused then (if r.wasPaused then [] else [backPause])
  else
    (if r.wasPaused then [backResume] else []) ++
      (if decide (0 < size ∧ size ≤ p.transferred) || due then [p.transferred] else [])

def pump (due : Bool) : PauseReceiver :=
  match r.prx with
  | [] => r
  | p :: prx => { r with prx := prx, wasPaused := p.paused, fresh := r.fresh && p.paused }.push
      (r.values size (due || r.fresh) p)

/-- `out_task`, with what it writes. A sink that fails ends it. -/
def mirror (ok : Bool) : PauseReceiver × List UInt8 :=
  match r.out with
  | [] => (r, [])
  | value :: out =>
    if r.last = some value then ({ r with out := out }, [])
    else if ok then ({ r with out := out, last := some value }, BigEndian.write 8 value)
    else ({ r with out := [], last := some value, mirroring := false }, [])

end PauseReceiver

namespace PauseLink
variable (size : ℕ) (s : PauseLink)

def step : PauseStep → PauseLink
  | .pressSender pause => { s with sender := { s.sender with paused := pause, pressed := true } }
  | .pressReceiver pause => { s with receiver := { s.receiver with paused := pause } }
  | .signal =>
    if s.sender.phase = .top then
      { s with sender := { s.sender.signal.1 with phase := .waiting }, main := s.main ++ s.sender.signal.2 }
    else s
  | .unparkSender =>
    if s.sender.phase = .waiting ∧ s.sender.paused = false then { s with sender := { s.sender with phase := .sending } }
    else s
  | .sendChunk len =>
    if s.sender.phase = .sending then
      { s with
        sender := { s.sender with phase := .top, sent := s.sender.sent ++ [.chunk len] }
        main := s.main ++ [.chunk len] }
    else s
  | .complete =>
    if s.sender.phase = .sending then
      { s with
        sender := { s.sender with phase := .ended, sent := s.sender.sent ++ [.complete] }
        main := s.main ++ [.complete] }
    else s
  | .stopSender told =>
    if s.sender.phase = .ended then s
    else
      let frames := if told then [MainFrame.cancel] else []
      { s with sender := { s.sender with phase := .ended, sent := s.sender.sent ++ frames }, main := s.main ++ frames }
  | .edge =>
    if s.receiver.phase = .top then { s with receiver := { s.receiver.edge with phase := .waiting } } else s
  | .unparkReceiver =>
    if s.receiver.phase = .waiting ∧ s.receiver.paused = false then
      { s with receiver := { s.receiver with phase := .reading } }
    else s
  | .receive =>
    if s.receiver.phase = .reading then
      match s.main with
      | [] => s
      | frame :: main => { s with receiver := s.receiver.receive size frame, main := main }
    else s
  | .land ok =>
    if s.receiver.phase = .landing then
      { s with receiver := if ok then { s.receiver with phase := .ended }.report false else { s.receiver with phase := .ended } }
    else s
  | .stopReceiver => { s with receiver := { s.receiver with phase := .ended } }
  | .pump due => { s with receiver := s.receiver.pump size due }
  | .mirror ok => { s with receiver := (s.receiver.mirror ok).1, wire := s.wire ++ (s.receiver.mirror ok).2 }
  | .arrive =>
    if s.sender.reader = .gone then s
    else
      match s.wire with
      | [] => s
      | b :: wire => { s with sender := s.sender.arrive b, wire := wire }
  | .beat => if s.sender.reader = .driving then { s with sender := { s.sender with buf := [] } } else s
  | .grace => if s.sender.reader = .waiting then { s with sender := { s.sender with reader := .gone } } else s
  | .cut => { s with sender := { s.sender with reader := .gone } }

def run (offset : ℕ) (steps : List PauseStep) : PauseLink := steps.foldl (step size) (start offset)

/-- The heartbeat never fires in the middle of a report. -/
def Calm (s : PauseLink) : PauseStep → Prop
  | .beat => s.sender.buf = []
  | _ => True

instance instDecidableCalm (s : PauseLink) : DecidablePred s.Calm := by
  intro x
  induction x using PauseStep.casesOn <;> dsimp only [Calm] <;> infer_instance

/-- The back-channel is intact and nothing is under way on it. -/
def Drained : Prop :=
  s.receiver.prx = [] ∧ s.receiver.out = [] ∧ s.receiver.mirroring = true ∧ s.wire = [] ∧ s.sender.buf = [] ∧
    s.sender.reader ≠ .gone

instance instDecidableDrained : Decidable s.Drained := by
  unfold Drained
  infer_instance

end PauseLink

end PeerBeam.Transfer
