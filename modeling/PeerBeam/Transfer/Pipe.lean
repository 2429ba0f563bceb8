import PeerBeam.Transfer.Stream

/-! A byte stream of unknown length over a link, as it is sent and received. Only an explicit end with
the right checksum ends it well. Counters are natural numbers: no stream exhausts them. -/
namespace PeerBeam.Transfer

structure ControlCodec where
  toVec : Control → Bytes
  fromSlice : Bytes → Except String Control

namespace ControlCodec
variable (codec : ControlCodec)

def controlFrame (c : Control) : Frame := ⟨.control, codec.toVec c⟩

/-- What a read of the link tells a loop that looks at control messages. -/
def incoming : Except DomainError (Option Frame) → StreamIncoming
  | .error e => .broken e
  | .ok none => .closed
  | .ok (some frame) =>
    match frame.kind with
    | .chunk => .chunk frame.payload
    | .control =>
      match codec.fromSlice frame.payload with
      | .ok c => .control c
      | .error detail => .malformed detail
    | _ => .other

def Faithful : Prop := ∀ c, codec.fromSlice (codec.toVec c) = .ok c

end ControlCodec

def chunkFrame (payload : Bytes) : Frame := ⟨.chunk, payload⟩

structure PipeStats where
  bytes : Nat
  chunks : Nat
  deriving DecidableEq

/-- A reader: what it still has, how much more than one byte each read is willing to give, and which
read fails. -/
structure Reader where
  left : Bytes
  gives : Nat → Nat
  fails : Nat → Option String
  reads : Nat

namespace Reader

/-- A read into a buffer that is not empty; nothing is read only at the end. -/
def read (r : Reader) (room : Nat) : Except DomainError (Bytes × Reader) :=
  match r.fails r.reads with
  | some e => .error (.storage ("read chunk: " ++ e))
  | none =>
    let n := min room (r.gives r.reads + 1)
    .ok (r.left.take n, { r with left := r.left.drop n, reads := r.reads + 1 })

/-- Reads until the buffer is full or the stream ends. -/
def readFill (r : Reader) (room : Nat) (filled : Bytes) : Except DomainError (Bytes × Reader) :=
  if room = 0 then .ok (filled, r)
  else
    match r.read room with
    | .error e => .error e
    | .ok ([], r) => .ok (filled, r)
    | .ok (b :: bytes, r) => r.readFill (room - (bytes.length + 1)) (filled ++ b :: bytes)
  termination_by room

variable {r r' : Reader} {room : Nat} {filled bytes : Bytes}

theorem read_ok (h : r.read room = .ok (bytes, r')) :
    r.left = bytes ++ r'.left ∧ bytes.length ≤ room ∧ (bytes = [] → room = 0 ∨ r.left = []) := by
  rw [read] at h
  split at h
  next => cases h
  next =>
    cases h
    refine ⟨(List.take_append_drop ..).symm, ?_, fun none => ?_⟩
    · rw [List.length_take]
      omega
    · rcases List.take_eq_nil_iff.mp none with zero | ended
      · exact .inl (by omega)
      · exact .inr ended

/-- What is read is the stream's next bytes, as many as there is room for. -/
theorem readFill_ok (h : r.readFill room filled = .ok (bytes, r')) :
    bytes = filled ++ r.left.take room ∧ r'.left = r.left.drop room := by
  induction room using Nat.strong_induction_on generalizing r filled with
  | h room ih =>
    rw [readFill] at h
    split at h
    next zero =>
      cases h
      rw [zero, List.take_zero, List.drop_zero, List.append_nil]
      exact ⟨rfl, rfl⟩
    next space =>
      split at h
      next => cases h
      next r₁ got =>
        cases h
        obtain ⟨split, -, ended⟩ := read_ok got
        have none := (ended rfl).resolve_left space
        rw [none] at split ⊢
        rw [List.take_nil, List.drop_nil, List.append_nil]
        exact ⟨rfl, split.symm⟩
      next b some r₁ got =>
        obtain ⟨split, fits, -⟩ := read_ok got
        rw [List.length_cons] at fits
        obtain ⟨whole, rest⟩ := ih (room - (some.length + 1)) (by omega) h
        rw [split]
        have taken : (b :: some ++ r₁.left).take room =
            b :: some ++ r₁.left.take (room - (some.length + 1)) := by
          rw [List.take_append, List.take_of_length_le fits, List.length_cons]
        have dropped : (b :: some ++ r₁.left).drop room = r₁.left.drop (room - (some.length + 1)) := by
          rw [List.drop_append, List.drop_of_length_le fits, List.length_cons, List.nil_append]
        rw [taken, dropped, whole, List.append_assoc]
        exact ⟨rfl, rest⟩

/-- A reader that does not fail fills the buffer. -/
theorem readFill_total (sound : ∀ n, r.fails n = none) (room : Nat) (filled : Bytes) :
    ∃ r', (∀ n, r'.fails n = none) ∧
      r.readFill room filled = .ok (filled ++ r.left.take room, r') ∧ r'.left = r.left.drop room := by
  have goes : ∃ bytes r', (∀ n, r'.fails n = none) ∧ r.readFill room filled = .ok (bytes, r') := by
    induction room using Nat.strong_induction_on generalizing r filled with
    | h room ih =>
      rw [readFill]
      split
      next => exact ⟨_, r, sound, rfl⟩
      next space =>
        obtain ⟨bytes, r₁, sound₁, got⟩ : ∃ bytes r₁, (∀ n, r₁.fails n = none) ∧
            r.read room = .ok (bytes, r₁) := by
          rw [read, sound]
          refine ⟨_, _, ?_, rfl⟩
          exact sound
        rw [got]
        cases bytes with
        | nil => exact ⟨filled, r₁, sound₁, rfl⟩
        | cons b bytes => exact ih (room - (bytes.length + 1)) (by omega) sound₁ _
  obtain ⟨bytes, r', sound', got⟩ := goes
  obtain ⟨rfl, rest⟩ := readFill_ok got
  exact ⟨r', sound', got, rest⟩

end Reader

structure PipeSending where
  sent : List Frame
  outcome : Except DomainError PipeStats

section
variable (codec : ControlCodec) (hash : Bytes → String) (chunk : Nat) (sendFails : Nat → Option DomainError)

/-- The send loop: the chunk buffer is filled, hashed and sent. It ends with the checksum of it all. The
link fails at whichever frame it will. -/
def sendLoop (r : Reader) (hashed : Bytes) (stats : PipeStats) (sent : List Frame) : PipeSending :=
  match _ : r.readFill chunk [] with
  | .error e => ⟨sent, .error e⟩
  | .ok ([], _) =>
    match sendFails sent.length with
    | some e => ⟨sent, .error e⟩
    | none => ⟨sent ++ [codec.controlFrame (.complete (hash hashed))], .ok stats⟩
  | .ok (b :: bytes, r') =>
    match sendFails sent.length with
    | some e => ⟨sent, .error e⟩
    | none =>
      sendLoop r' (hashed ++ b :: bytes) ⟨stats.bytes + (bytes.length + 1), stats.chunks + 1⟩
        (sent ++ [chunkFrame (b :: bytes)])
  termination_by r.left.length
  decreasing_by
    have got : r.readFill chunk [] = .ok (b :: bytes, r') := by assumption
    obtain ⟨whole, rest⟩ := Reader.readFill_ok got
    have some : 0 < (r.left.take chunk).length := by
      rw [List.nil_append] at whole
      rw [← whole]
      exact Nat.zero_lt_succ _
    rw [rest, List.length_drop]
    rw [List.length_take] at some
    omega

def sendStream (r : Reader) (chunkSize : UInt32) : PipeSending :=
  sendLoop codec hash (max chunkSize.toNat 1) sendFails r [] ⟨0, 0⟩ []

/-- How `send_pipe` ends, on what it then hears. -/
def sendPipe (r : Reader) (chunkSize : UInt32) (answers : List (Except DomainError (Option Frame))) :
    Except DomainError PipeStats :=
  match (sendStream codec hash sendFails r chunkSize).outcome with
  | .error e => .error e
  | .ok stats =>
    match recvVerify (answers.map codec.incoming) with
    | .error e => .error e
    | .ok true => .ok stats
    | .ok false => .error (.integrity ("the receiver reported a checksum mismatch — what it wrote out " ++
        "is not what was piped in"))

end

/-- Where writing out fails: after some bytes of a payload, or when it is flushed. -/
inductive SinkFault where
  | write (wrote : Nat) (why : String)
  | flush (why : String)

def SinkFault.text : SinkFault → String
  | .write _ why => "write piped bytes: " ++ why
  | .flush why => "flush piped bytes: " ++ why

def SinkFault.wrote : SinkFault → Bytes → Bytes
  | .write wrote _, payload => payload.take wrote
  | .flush _, payload => payload

/-- What the link gives next, and how writing out goes then. -/
abbrev PipeTurn := Except DomainError (Option Frame) × Option SinkFault

structure PipeReceipt where
  written : Bytes
  back : List Frame
  result : Except DomainError PipeStats

def PipeStats.add (stats : PipeStats) (payload : Bytes) : PipeStats :=
  ⟨stats.bytes + payload.length, stats.chunks + 1⟩

section
variable (codec : ControlCodec) (hash : Bytes → String)

/-- The receive loop. A link that has nothing more to say is closed. -/
def receivePipe (written hashed : Bytes) (stats : PipeStats) : List PipeTurn → PipeReceipt
  | [] => ⟨written, [], .error (.transfer ("the pipe closed before the sender finished — what was written " ++
      "out is incomplete"))⟩
  | (x, fault) :: rest =>
    match codec.incoming x with
    | .closed => ⟨written, [], .error (.transfer ("the pipe closed before the sender finished — what was " ++
        "written out is incomplete"))⟩
    | .broken e => ⟨written, [], .error e⟩
    | .chunk payload =>
      match fault with
      | some fault => ⟨written ++ fault.wrote payload, [], .error (.storage fault.text)⟩
      | none => receivePipe (written ++ payload) (hashed ++ payload) (stats.add payload) rest
    | .control (.complete checksum) =>
      match fault with
      | some fault => ⟨written, [], .error (.storage fault.text)⟩
      | none =>
        let ok := decide (hash hashed = checksum)
        ⟨written, [codec.controlFrame (.verify ok)],
          if ok then .ok stats
          else .error (.integrity ("the piped bytes did not match the sender's checksum — what was written " ++
            "out is corrupt"))⟩
    | .control .cancel => ⟨written, [], .error .cancelled⟩
    | .malformed detail => ⟨written, [], .error (.transfer ("bad control: " ++ detail))⟩
    -- a link never reports a cancel of this side
    | .control (.resumeAck _) | .control (.verify _) | .control .pause | .control .resume | .other | .cancelled =>
      receivePipe written hashed stats rest

def passes (turn : PipeTurn) : Bool :=
  match codec.incoming turn.1 with
  | .chunk _ => turn.2.isNone
  | .control (.resumeAck _) | .control (.verify _) | .control .pause | .control .resume | .other | .cancelled =>
    true
  | _ => false

def payload (turn : PipeTurn) : Option Bytes :=
  match codec.incoming turn.1 with
  | .chunk payload => some payload
  | _ => none

def payloads (turns : List PipeTurn) : List Bytes := turns.filterMap (payload codec)

def cutShort : List PipeTurn → Bytes
  | turn :: _ => (payload codec turn).elim [] fun payload => turn.2.elim [] fun fault => fault.wrote payload
  | [] => []

variable {codec hash}

/-- The loop comes to the first turn it does not go on after, with what the turns before it brought. -/
theorem receivePipe_eq (written hashed : Bytes) (stats : PipeStats) (turns : List PipeTurn) :
    receivePipe codec hash written hashed stats turns =
      receivePipe codec hash (written ++ (payloads codec (turns.takeWhile (passes codec))).flatten)
        (hashed ++ (payloads codec (turns.takeWhile (passes codec))).flatten)
        ((payloads codec (turns.takeWhile (passes codec))).foldl PipeStats.add stats)
        (turns.dropWhile (passes codec)) := by
  induction turns generalizing written hashed stats with
  | nil => simp [payloads]
  | cons turn turns ih =>
    rcases turn with ⟨x, fault⟩
    cases going : passes codec (x, fault) with
    | false =>
      rw [List.takeWhile_cons_of_neg (by simp [going]), List.dropWhile_cons_of_neg (by simp [going])]
      simp [payloads]
    | true =>
      rw [List.takeWhile_cons_of_pos going, List.dropWhile_cons_of_pos going]
      rw [receivePipe]
      rw [passes] at going
      cases shape : codec.incoming x with
      | chunk bytes =>
        rw [shape] at going
        cases fault with
        | some fault => cases going
        | none =>
          have here : payload codec (x, none) = some bytes := by rw [payload, shape]
          simp only [payloads, List.filterMap_cons, here, List.flatten_cons, List.foldl_cons]
          rw [ih, List.append_assoc, List.append_assoc]
          rfl
      | control c =>
        rw [shape] at going
        have here : payload codec (x, fault) = none := by rw [payload, shape]
        simp only [payloads, List.filterMap_cons, here]
        cases c with
        | complete checksum => cases going
        | cancel => cases going
        | _ => exact ih written hashed stats
      | other | cancelled =>
        have here : payload codec (x, fault) = none := by rw [payload, shape]
        simp only [payloads, List.filterMap_cons, here]
        exact ih written hashed stats
      | closed | malformed detail | broken e =>
        rw [shape] at going
        cases going

/-- How the loop ends at a turn it does not go on after. -/
theorem receivePipe_ends (written hashed : Bytes) (stats : PipeStats) {turns : List PipeTurn}
    (ends : ∀ turn ∈ turns.head?, passes codec turn = false) :
    (receivePipe codec hash written hashed stats turns).written = written ++ cutShort codec turns ∧
      ((receivePipe codec hash written hashed stats turns).back = [] ∧
          (∀ out, (receivePipe codec hash written hashed stats turns).result ≠ .ok out) ∨
        ∃ x rest checksum, turns = (x, none) :: rest ∧ codec.incoming x = .control (.complete checksum) ∧
          (receivePipe codec hash written hashed stats turns).back =
            [codec.controlFrame (.verify (hash hashed = checksum))] ∧
          ∀ out, (receivePipe codec hash written hashed stats turns).result = .ok out ↔
            hash hashed = checksum ∧ out = stats) := by
  cases turns with
  | nil => exact ⟨(List.append_nil _).symm, .inl ⟨rfl, nofun⟩⟩
  | cons turn turns =>
    rcases turn with ⟨x, fault⟩
    have ends := ends (x, fault) rfl
    rw [passes] at ends
    rw [receivePipe, cutShort, payload]
    cases shape : codec.incoming x with
    | chunk bytes =>
      rw [shape] at ends
      cases fault with
      | none => cases ends
      | some fault => exact ⟨rfl, .inl ⟨rfl, nofun⟩⟩
    | control c =>
      rw [shape] at ends
      cases c with
      | complete checksum =>
        cases fault with
        | some fault => exact ⟨(List.append_nil _).symm, .inl ⟨rfl, nofun⟩⟩
        | none =>
          refine ⟨(List.append_nil _).symm, .inr ⟨x, turns, checksum, rfl, shape, rfl, fun out => ?_⟩⟩
          show (if decide (hash hashed = checksum) = true then Except.ok stats else _) = _ ↔ _
          by_cases same : hash hashed = checksum
          · rw [if_pos (decide_eq_true same)]
            exact ⟨fun h => ⟨same, (Except.ok.inj h).symm⟩, fun h => congrArg Except.ok h.2.symm⟩
          · rw [if_neg (by simpa using same)]
            exact iff_of_false nofun fun h => same h.1
      | cancel => exact ⟨(List.append_nil _).symm, .inl ⟨rfl, nofun⟩⟩
      | resumeAck | verify | pause | resume => cases ends
    | other | cancelled =>
      rw [shape] at ends
      cases ends
    | closed | malformed detail | broken e => exact ⟨(List.append_nil _).symm, .inl ⟨rfl, nofun⟩⟩

theorem dropWhile_ends (turns : List PipeTurn) :
    ∀ turn ∈ (turns.dropWhile (passes codec)).head?, passes codec turn = false := by
  intro turn first
  exact Bool.eq_false_iff.mpr fun going => by
    have := List.head?_dropWhile_not (passes codec) turns
    rw [Option.mem_def] at first
    rw [first] at this
    simp [going] at this

end

theorem chunks_succ {length chunk : Nat} (pos : 0 < chunk) (more : 0 < length) :
    (length + chunk - 1) / chunk = (length - min chunk length + chunk - 1) / chunk + 1 := by
  rcases Nat.le_total chunk length with le | le
  · rw [Nat.min_eq_left le, Nat.sub_add_cancel le, ← Nat.add_div_right _ pos]
    congr 1
    omega
  · rw [Nat.min_eq_right le, Nat.sub_self, Nat.zero_add, Nat.div_eq_of_lt (by omega : chunk - 1 < chunk)]
    exact Nat.div_eq_of_lt_le (by omega) (by omega)

section
variable {codec : ControlCodec} {hash : Bytes → String} {chunk : Nat} {sendFails : Nat → Option DomainError}
  {r : Reader} {hashed : Bytes} {stats out : PipeStats} {sent : List Frame}

theorem sendLoop_error {e : DomainError} (got : r.readFill chunk [] = .error e) :
    sendLoop codec hash chunk sendFails r hashed stats sent = ⟨sent, .error e⟩ := by
  rw [sendLoop]
  split
  next e' failed => cases got.symm.trans failed; rfl
  next read => cases got.symm.trans read
  next read => cases got.symm.trans read

theorem sendLoop_nil {r' : Reader} (got : r.readFill chunk [] = .ok ([], r')) :
    sendLoop codec hash chunk sendFails r hashed stats sent = match sendFails sent.length with
      | some e => ⟨sent, .error e⟩
      | none => ⟨sent ++ [codec.controlFrame (.complete (hash hashed))], .ok stats⟩ := by
  rw [sendLoop]
  split
  next failed => cases got.symm.trans failed
  next => rfl
  next read => cases got.symm.trans read

theorem sendLoop_cons {r' : Reader} {b : UInt8} {bytes : Bytes}
    (got : r.readFill chunk [] = .ok (b :: bytes, r')) :
    sendLoop codec hash chunk sendFails r hashed stats sent = match sendFails sent.length with
      | some e => ⟨sent, .error e⟩
      | none => sendLoop codec hash chunk sendFails r' (hashed ++ b :: bytes)
          ⟨stats.bytes + (bytes.length + 1), stats.chunks + 1⟩ (sent ++ [chunkFrame (b :: bytes)]) := by
  rw [sendLoop]
  split
  next failed => cases got.symm.trans failed
  next read => cases got.symm.trans read
  next read =>
    obtain ⟨same, rfl⟩ := Prod.mk.inj (Except.ok.inj (got.symm.trans read))
    cases same
    rfl

/-- A chunk that is read is the next of the stream. -/
theorem readFill_cons {r' : Reader} {b : UInt8} {bytes : Bytes}
    (got : r.readFill chunk [] = .ok (b :: bytes, r')) : r.left = b :: bytes ++ r'.left ∧
      r.left.length = bytes.length + 1 + r'.left.length ∧ bytes.length + 1 = min chunk r.left.length := by
  obtain ⟨whole, rest⟩ := Reader.readFill_ok got
  have split : r.left = b :: bytes ++ r'.left := by
    rw [whole, rest, List.nil_append, List.take_append_drop]
  refine ⟨split, ?_, ?_⟩
  · have length := congrArg List.length split
    rwa [List.length_append, List.length_cons] at length
  · have taken := congrArg List.length whole
    rwa [List.nil_append, List.length_cons, List.length_take] at taken

/-- The loop that ends well has sent the stream and the checksum of all of it. -/
theorem sendLoop_ok (pos : 0 < chunk)
    (h : (sendLoop codec hash chunk sendFails r hashed stats sent).outcome = .ok out) :
    ∃ chunks : List Bytes, chunks.flatten = r.left ∧
      (sendLoop codec hash chunk sendFails r hashed stats sent).sent = sent ++ chunks.map chunkFrame ++
        [codec.controlFrame (.complete (hash (hashed ++ r.left)))] ∧
      out = ⟨stats.bytes + r.left.length, stats.chunks + chunks.length⟩ ∧
      chunks.length = (r.left.length + chunk - 1) / chunk := by
  induction size : r.left.length using Nat.strong_induction_on generalizing r hashed stats sent with
  | h n ih =>
    cases got : r.readFill chunk [] with
    | error e =>
      rw [sendLoop_error got] at h
      cases h
    | ok read =>
      obtain ⟨buf, r'⟩ := read
      cases buf with
      | nil =>
        rw [sendLoop_nil got] at h ⊢
        have none : r.left = [] := by
          rcases List.take_eq_nil_iff.mp (Reader.readFill_ok got).1.symm with zero | ended
          · omega
          · exact ended
        cases sound : sendFails sent.length with
        | some e =>
          rw [sound] at h
          cases h
        | none =>
          rw [sound] at h
          cases h
          refine ⟨[], none.symm, ?_, ?_, ?_⟩
          · rw [none, List.append_nil, List.map_nil, List.append_nil]
          · rw [← size, none]
            rfl
          · rw [← size, none]
            show 0 = (0 + chunk - 1) / chunk
            rw [Nat.zero_add, Nat.div_eq_of_lt (by omega : chunk - 1 < chunk)]
      | cons b bytes =>
        rw [sendLoop_cons got] at h ⊢
        obtain ⟨split, length, taken⟩ := readFill_cons got
        cases sound : sendFails sent.length with
        | some e =>
          rw [sound] at h
          cases h
        | none =>
          rw [sound] at h
          obtain ⟨chunks, flat, frames, total, count⟩ := ih r'.left.length (by omega) h rfl
          refine ⟨(b :: bytes) :: chunks, ?_, ?_, ?_, ?_⟩
          · rw [List.flatten_cons, flat, split]
          · show (sendLoop codec hash chunk sendFails r' _ _ _).sent = _
            rw [frames, split]
            simp only [List.map_cons, List.append_assoc, List.cons_append, List.nil_append]
          · rw [total, List.length_cons]
            show PipeStats.mk (stats.bytes + (bytes.length + 1) + r'.left.length) (stats.chunks + 1 + _) = _
            congr 1 <;> omega
          · have left : n - min chunk n = r'.left.length := by omega
            rw [chunks_succ pos (by omega : 0 < n), left, List.length_cons, count]

/-- Where neither the reader nor the link fails the loop ends well. -/
theorem sendLoop_total (reads : ∀ n, r.fails n = none) (sends : ∀ n, sendFails n = none) :
    ∃ out, (sendLoop codec hash chunk sendFails r hashed stats sent).outcome = .ok out := by
  induction size : r.left.length using Nat.strong_induction_on generalizing r hashed stats sent with
  | h n ih =>
    obtain ⟨r', reads', got, -⟩ := Reader.readFill_total reads chunk []
    rw [List.nil_append] at got
    cases buf : r.left.take chunk with
    | nil =>
      rw [buf] at got
      rw [sendLoop_nil got, sends]
      exact ⟨stats, rfl⟩
    | cons b bytes =>
      rw [buf] at got
      rw [sendLoop_cons got, sends]
      obtain ⟨-, length, taken⟩ := readFill_cons got
      exact ih r'.left.length (by omega) reads' rfl

end

/-- What the other end of a link reads of the frames put on it: they arrive in order, and the link may
close or break at any of them. -/
inductive Delivers : List Frame → List (Except DomainError (Option Frame)) → Prop where
  | silent (frames : List Frame) : Delivers frames []
  | closed (frames : List Frame) (rest : List (Except DomainError (Option Frame))) :
    Delivers frames (.ok none :: rest)
  | broken (frames : List Frame) (e : DomainError) (rest : List (Except DomainError (Option Frame))) :
    Delivers frames (.error e :: rest)
  | frame (frame : Frame) {frames : List Frame} {rest : List (Except DomainError (Option Frame))}
    (later : Delivers frames rest) : Delivers (frame :: frames) (.ok (some frame) :: rest)

section
variable {codec : ControlCodec} {hash : Bytes → String}

theorem incoming_control (faithful : codec.Faithful) (c : Control) :
    codec.incoming (.ok (some (codec.controlFrame c))) = .control c := by
  show (match codec.fromSlice (codec.toVec c) with | .ok c => _ | .error detail => _) = _
  rw [faithful]

/-- The end of a stream that the receiver comes to is the one the sender put there. -/
theorem delivered_complete (faithful : codec.Faithful) {chunks : List Bytes} {checksum checksum' : String}
    {turns rest : List PipeTurn} {x : Except DomainError (Option Frame)} {fault : Option SinkFault}
    (delivered : Delivers (chunks.map chunkFrame ++ [codec.controlFrame (.complete checksum)])
      (turns.map Prod.fst))
    (ends : turns.dropWhile (passes codec) = (x, fault) :: rest)
    (complete : codec.incoming x = .control (.complete checksum')) : checksum' = checksum := by
  have stops {y : Except DomainError (Option Frame)} {fault' : Option SinkFault} {more : List PipeTurn}
      (stop : passes codec (y, fault') = false)
      (here : ((y, fault') :: more).dropWhile (passes codec) = (x, fault) :: rest) : x = y := by
    rw [List.dropWhile_cons_of_neg (by simp [stop])] at here
    cases here
    rfl
  induction chunks generalizing turns with
  | nil =>
    cases turns with
    | nil => cases ends
    | cons turn more =>
      rcases turn with ⟨y, fault'⟩
      change Delivers _ (y :: more.map Prod.fst) at delivered
      rw [List.map_nil, List.nil_append] at delivered
      cases delivered with
      | closed =>
        cases stops rfl ends
        cases complete
      | broken =>
        cases stops rfl ends
        cases complete
      | frame =>
        have read := incoming_control faithful (.complete checksum)
        cases stops (by rw [passes, read]) ends
        cases complete.symm.trans read
        rfl
  | cons payload chunks ih =>
    cases turns with
    | nil => cases ends
    | cons turn more =>
      rcases turn with ⟨y, fault'⟩
      change Delivers _ (y :: more.map Prod.fst) at delivered
      rw [List.map_cons, List.cons_append] at delivered
      cases delivered with
      | closed =>
        cases stops rfl ends
        cases complete
      | broken =>
        cases stops rfl ends
        cases complete
      | frame _ later =>
        cases fault' with
        | some fault' =>
          cases stops rfl ends
          cases complete
        | none =>
          have goes : passes codec (.ok (some (chunkFrame payload)), none) = true := rfl
          rw [List.dropWhile_cons_of_pos goes] at ends
          exact ih later ends

/-- What the receiver answers reaches the sender, or it is an error there. -/
theorem recvVerify_delivered (faithful : codec.Faithful) {back : List Frame}
    {answers : List (Except DomainError (Option Frame))} (delivered : Delivers back answers)
    (one : back = [] ∨ ∃ ok, back = [codec.controlFrame (.verify ok)])
    (heard : recvVerify (answers.map codec.incoming) = .ok true) :
    back = [codec.controlFrame (.verify true)] := by
  cases delivered with
  | silent => cases heard
  | closed => cases heard
  | broken => cases heard
  | frame frame later =>
    rcases one with none | ⟨ok, one⟩
    · cases none
    · cases one
      have read := incoming_control faithful (.verify ok)
      rw [List.map_cons, read] at heard
      cases heard
      rfl

variable (codec hash) in
/-- A receive as a whole. -/
theorem receivePipe_spec (turns : List PipeTurn) :
    let receipt := receivePipe codec hash [] [] ⟨0, 0⟩ turns
    let passed := payloads codec (turns.takeWhile (passes codec))
    let ending := turns.dropWhile (passes codec)
    receipt.written = passed.flatten ++ cutShort codec ending ∧
      (receipt.back = [] ∧ (∀ out, receipt.result ≠ .ok out) ∨
        ∃ x rest checksum, ending = (x, none) :: rest ∧ codec.incoming x = .control (.complete checksum) ∧
          receipt.written = passed.flatten ∧
          receipt.back = [codec.controlFrame (.verify (hash receipt.written = checksum))] ∧
          ∀ out, receipt.result = .ok out ↔
            hash receipt.written = checksum ∧ out = passed.foldl PipeStats.add ⟨0, 0⟩) := by
  intro receipt passed ending
  have same : receipt = receivePipe codec hash passed.flatten passed.flatten
      (passed.foldl PipeStats.add ⟨0, 0⟩) ending := receivePipe_eq [] [] ⟨0, 0⟩ turns
  rw [same]
  obtain ⟨written, failed | ⟨x, rest, checksum, first, complete, back, result⟩⟩ :=
    @receivePipe_ends codec hash passed.flatten passed.flatten (passed.foldl PipeStats.add ⟨0, 0⟩) _
      (dropWhile_ends turns)
  · exact ⟨written, .inl failed⟩
  · have whole : cutShort codec ending = [] := by
      rw [show ending = (x, none) :: rest from first, cutShort, payload, complete]
      rfl
    have here : (receivePipe codec hash passed.flatten passed.flatten
        (passed.foldl PipeStats.add ⟨0, 0⟩) ending).written = passed.flatten := by
      rw [written, show turns.dropWhile (passes codec) = ending from rfl, whole, List.append_nil]
    refine ⟨written, .inr ⟨x, rest, checksum, first, complete, here, ?_, ?_⟩⟩
    · rw [here]
      exact back
    · rw [here]
      exact result

theorem payloads_chunks (chunks : List Bytes) (c : Frame) (stop : passes codec (.ok (some c), none) = false) :
    let turns := (chunks.map chunkFrame ++ [c]).map fun frame => ((.ok (some frame), none) : PipeTurn)
    payloads codec (turns.takeWhile (passes codec)) = chunks ∧
      turns.dropWhile (passes codec) = [(.ok (some c), none)] := by
  induction chunks with
  | nil => simp [payloads, stop]
  | cons chunk chunks ih =>
    have goes : passes codec (.ok (some (chunkFrame chunk)), none) = true := rfl
    simp only [List.map_cons, List.cons_append, List.takeWhile_cons_of_pos goes,
      List.dropWhile_cons_of_pos goes]
    exact ⟨congrArg (chunk :: ·) ih.1, ih.2⟩

theorem foldl_add (chunks : List Bytes) (stats : PipeStats) : chunks.foldl PipeStats.add stats =
    ⟨stats.bytes + chunks.flatten.length, stats.chunks + chunks.length⟩ := by
  induction chunks generalizing stats with
  | nil => rfl
  | cons chunk chunks ih =>
    rw [List.foldl_cons, ih, PipeStats.add, List.flatten_cons, List.length_append, List.length_cons,
      Nat.add_assoc, Nat.add_assoc, Nat.add_comm 1]

/-- A pipe is byte-exact or reports failure. An arbitrary sender's frames are written out up to the first
that ends the loop, and the receive succeeds only where that is the end of exactly these bytes; a send that
succeeds has had exactly its stream written out; and where nothing fails both succeed. -/
theorem pipe_exact_or_reported (codec : ControlCodec) (faithful : codec.Faithful) (hash : Bytes → String)
    (collisionFree : Function.Injective hash) :
    (∀ turns : List PipeTurn,
      let receipt := receivePipe codec hash [] [] ⟨0, 0⟩ turns
      let passed := turns.takeWhile (passes codec)
      let ending := turns.dropWhile (passes codec)
      receipt.written = (payloads codec passed).flatten ++ cutShort codec ending ∧
        ∀ out, receipt.result = .ok out → ∃ x rest, ending = (x, none) :: rest ∧
          codec.incoming x = .control (.complete (hash receipt.written))) ∧
    (∀ (r : Reader) (chunkSize : UInt32) (sendFails : Nat → Option DomainError) (turns : List PipeTurn)
      (answers : List (Except DomainError (Option Frame))),
      let receipt := receivePipe codec hash [] [] ⟨0, 0⟩ turns
      Delivers (sendStream codec hash sendFails r chunkSize).sent (turns.map Prod.fst) →
      Delivers receipt.back answers →
      ∀ out, sendPipe codec hash sendFails r chunkSize answers = .ok out → receipt.written = r.left) ∧
    ∀ (r : Reader) (chunkSize : UInt32), (∀ n, r.fails n = none) →
      let sent := (sendStream codec hash (fun _ => none) r chunkSize).sent
      let receipt := receivePipe codec hash [] [] ⟨0, 0⟩ (sent.map fun frame => (.ok (some frame), none))
      let stats : PipeStats := ⟨r.left.length,
        (r.left.length + max chunkSize.toNat 1 - 1) / max chunkSize.toNat 1⟩
      receipt.result = .ok stats ∧
        sendPipe codec hash (fun _ => none) r chunkSize (receipt.back.map fun frame => .ok (some frame)) =
          .ok stats := by
  refine ⟨fun turns => ?_, fun r chunkSize sendFails turns answers => ?_, fun r chunkSize reads => ?_⟩
  · obtain ⟨written, failed | ⟨x, rest, checksum, first, complete, -, -, result⟩⟩ :=
      receivePipe_spec codec hash turns
    · exact ⟨written, fun out ok => absurd ok (failed.2 out)⟩
    · refine ⟨written, fun out ok => ⟨x, rest, first, ?_⟩⟩
      rw [complete, ((result out).mp ok).1]
  · intro receipt sent heard out ok
    have pos : 0 < max chunkSize.toNat 1 := by omega
    rw [sendPipe] at ok
    cases sending : (sendStream codec hash sendFails r chunkSize).outcome with
    | error e =>
      rw [sending] at ok
      cases ok
    | ok stats =>
      rw [sending] at ok
      cases answer : recvVerify (answers.map codec.incoming) with
      | error e =>
        rw [answer] at ok
        cases ok
      | ok verdict =>
        cases verdict with
        | false =>
          rw [answer] at ok
          cases ok
        | true =>
          obtain ⟨chunks, -, frames, -⟩ := sendLoop_ok pos sending
          obtain ⟨-, failed | ⟨x, rest, checksum, first, complete, -, back, -⟩⟩ :=
            receivePipe_spec codec hash turns
          · have one := recvVerify_delivered faithful heard (.inl failed.1) answer
            cases failed.1.symm.trans one
          · have one := recvVerify_delivered faithful heard (.inr ⟨_, back⟩) answer
            have said := congrArg (fun frames : List Frame => frames.map fun frame =>
              codec.incoming (.ok (some frame))) (back.symm.trans one)
            simp only [List.map_cons, List.map_nil, incoming_control faithful] at said
            have same : hash receipt.written = checksum := by
              simpa using said
            rw [show (sendStream codec hash sendFails r chunkSize).sent = _ from frames, List.nil_append] at sent
            rw [delivered_complete faithful sent first complete, List.nil_append] at same
            exact collisionFree same
  · intro sent receipt stats
    have pos : 0 < max chunkSize.toNat 1 := by omega
    obtain ⟨out, sending⟩ : ∃ out, (sendStream codec hash (fun _ => none) r chunkSize).outcome = .ok out :=
      sendLoop_total reads fun _ => rfl
    obtain ⟨chunks, flat, frames, total, count⟩ := sendLoop_ok pos sending
    rw [List.nil_append, List.nil_append] at frames
    have stop : passes codec (.ok (some (codec.controlFrame (.complete (hash r.left)))), none) = false := by
      rw [passes, incoming_control faithful]
    obtain ⟨passed, ending⟩ := payloads_chunks chunks _ stop
    have total' : out = stats := by
      rw [total, count]
      show PipeStats.mk (0 + _) (0 + _) = _
      rw [Nat.zero_add, Nat.zero_add]
    have ran : receipt = ⟨r.left, [codec.controlFrame (.verify true)], .ok stats⟩ := by
      show receivePipe codec hash [] [] ⟨0, 0⟩ (sent.map _) = _
      rw [show sent = _ from frames, receivePipe_eq, passed, ending, flat, foldl_add, flat, List.nil_append,
        receivePipe, incoming_control faithful, ← total', total]
      simp
    refine ⟨congrArg PipeReceipt.result ran, ?_⟩
    rw [ran, sendPipe, show (sendStream codec hash (fun _ => none) r chunkSize).outcome = _ from sending]
    show (match recvVerify [codec.incoming (.ok (some (codec.controlFrame (.verify true))))] with
      | .error e => _ | .ok true => _ | .ok false => _) = _
    rw [incoming_control faithful, total']
    rfl

end

def asciiBytes (text : String) : Bytes := text.toList.map fun c => UInt8.ofNat c.toNat

/-- Control messages as JSON, but for an offset, which is counted out. -/
def spokenBytes : Control → Bytes
  | .resumeAck offset => 0 :: List.replicate offset.toNat 1
  | .complete checksum =>
    asciiBytes "\x7b\"Complete\":\x7b\"checksum\":\"" ++
      (checksum.toUTF8.data.toList ++ asciiBytes "\"\x7d\x7d")
  | .verify true => asciiBytes "\x7b\"Verify\":\x7b\"ok\":true\x7d\x7d"
  | .verify false => asciiBytes "\x7b\"Verify\":\x7b\"ok\":false\x7d\x7d"
  | .cancel => asciiBytes "\"Cancel\""
  | .pause => asciiBytes "\"Pause\""
  | .resume => asciiBytes "\"Resume\""

theorem spokenBytes_injective : Function.Injective spokenBytes := by
  intro c c' same
  rcases c with offset | checksum | (_ | _) | _ | _ | _ <;>
    rcases c' with offset' | checksum' | (_ | _) | _ | _ | _ <;>
      simp [spokenBytes, asciiBytes] at same ⊢
  · exact UInt64.toNat_inj.mp same
  · exact String.toByteArray_inj.mp (ByteArray.ext same)

open Classical in
noncomputable def spoken : ControlCodec where
  toVec := spokenBytes
  fromSlice bytes :=
    if h : ∃ c, spokenBytes c = bytes then .ok h.choose else .error "expected value at line 1 column 1"

theorem spoken_faithful : spoken.Faithful := by
  intro c
  have written : ∃ c', spokenBytes c' = spokenBytes c := ⟨c, rfl⟩
  exact (dif_pos written).trans (congrArg Except.ok (spokenBytes_injective written.choose_spec))

def letterHash (bytes : Bytes) : String :=
  if bytes = [97] then "ca978112ca1bbdcafac231b39a23dc4da786eff8147c4e72b9807785afee48bb"
  else String.ofList ('x' :: bytes.map fun b => Char.ofNat b.toNat)

theorem letterHash_injective : Function.Injective letterHash := by
  have chars : Function.Injective fun b : UInt8 => Char.ofNat b.toNat := by
    have valid (b : UInt8) : (Char.ofNat b.toNat).toNat = b.toNat := by
      have small := b.toNat_lt
      rw [Char.toNat_ofNat, if_pos (.inl (by omega))]
    intro b b' same
    exact UInt8.toNat_inj.mp ((valid b).symm.trans ((congrArg Char.toNat same).trans (valid b')))
  have apart (rest : List Char) :
      "ca978112ca1bbdcafac231b39a23dc4da786eff8147c4e72b9807785afee48bb" ≠ String.ofList ('x' :: rest) := by
    intro same
    have first := congrArg String.toList same
    rw [String.toList_ofList, String.toList_ofList] at first
    have other := (List.cons.inj first).1
    exact absurd other (by decide)
  intro bytes bytes' same
  rw [letterHash, letterHash] at same
  split at same
  next one =>
    split at same
    next two => rw [one, two]
    next => exact absurd same (apart _)
  next =>
    split at same
    next => exact absurd same.symm (apart _)
    next =>
      have lists := congrArg String.toList same
      rw [String.toList_ofList, String.toList_ofList] at lists
      exact chars.list_map (List.cons.inj lists).2

theorem letter_piped :
    let sent := (sendStream spoken letterHash (fun _ => none) ⟨[97], fun _ => 0, fun _ => none, 0⟩ 0).sent
    let receipt := receivePipe spoken letterHash [] [] ⟨0, 0⟩ (sent.map fun frame => (.ok (some frame), none))
    receipt.result = .ok ⟨1, 1⟩ ∧
      sendPipe spoken letterHash (fun _ => none) ⟨[97], fun _ => 0, fun _ => none, 0⟩ 0
        (receipt.back.map fun frame => .ok (some frame)) = .ok ⟨1, 1⟩ :=
  (pipe_exact_or_reported spoken spoken_faithful letterHash letterHash_injective).2.2
    ⟨[97], fun _ => 0, fun _ => none, 0⟩ 0 fun _ => rfl

end PeerBeam.Transfer
