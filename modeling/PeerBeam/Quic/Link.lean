import PeerBeam.Lib.Bytes
import PeerBeam.Transfer.Basic

/-! Frames on one QUIC stream. Reading keeps its progress in the link, so that a call that
is dropped half way is continued by the next one. -/
namespace PeerBeam.Quic
open Transfer

def maxFrame : Nat := 64 * 1024 * 1024

def kindToU8 : FrameKind → UInt8
  | .handshake => 0
  | .«meta» => 1
  | .chunk => 2
  | .ack => 3
  | .control => 4

def u8ToKind (b : UInt8) : Except DomainError FrameKind :=
  match b.toNat with
  | 0 => .ok .handshake
  | 1 => .ok .«meta»
  | 2 => .ok .chunk
  | 3 => .ok .ack
  | 4 => .ok .control
  | other => .error (.transfer s!"bad frame kind {other}")

/-- The length-delimited form: kind, length, payload. -/
def encode (f : Frame) : Bytes := kindToU8 f.kind :: (BigEndian.write 4 f.payload.length ++ f.payload)

/-- What a call puts on the stream; a frame above the cap is refused before anything
is written. -/
def sendFrame (f : Frame) : Except DomainError Bytes :=
  if 2 ^ 32 ≤ f.payload.length then .error (.transfer "frame too large")
  else if maxFrame < f.payload.length then .error (.transfer "frame exceeds MAX_FRAME")
  else .ok (encode f)

def written (frames : List Frame) : Bytes := frames.flatMap fun f => (sendFrame f).toOption.getD []

/-- The frames among them that `send_frame` took. -/
def taken (frames : List Frame) : List Frame := frames.filter fun f => (sendFrame f).toBool

/-- Where a read stands: between frames, inside the five header bytes, or inside a
payload of known length, with the bytes read so far. -/
inductive RecvState where
  | idle
  | header (buf : Bytes)
  | payload (kind : FrameKind) (len : Nat) (buf : Bytes)
  deriving DecidableEq

/-- The receiving half of a link and what its stream still holds. -/
structure QuicLink where
  recvState : RecvState
  unread : Bytes

/-- What one `RecvStream::read` gives: some bytes, at most `n + 1` of them and never
more than asked for, or the loss of the connection. At its end the stream gives none. -/
inductive Read where
  | ready (n : Nat)
  | lost (cause : String)
  deriving DecidableEq

abbrev Result := Except DomainError (Option Frame)

/-- What the loop of `recv_frame` comes to before its next read. -/
inductive Turn where
  /-- A read of at most `space` bytes into this state. -/
  | reading (state : RecvState) (space : Nat)
  | done (result : Result) (state : RecvState)

def payloadTurn (kind : FrameKind) (len : Nat) (buf : Bytes) : Turn :=
  if buf.length < len then .reading (.payload kind len buf) (len - buf.length)
  else .done (.ok (some ⟨kind, buf⟩)) .idle

def headerTurn (buf : Bytes) : Turn :=
  if buf.length < 5 then .reading (.header buf) (5 - buf.length)
  else
    match u8ToKind (buf.headD 0) with
    -- the header stays where it is
    | .error e => .done (.error e) (.header buf)
    | .ok kind =>
      let len := BigEndian.read ((buf.drop 1).take 4)
      if maxFrame < len then .done (.error (.transfer "frame exceeds MAX_FRAME")) .idle
      else payloadTurn kind len []

def turn : RecvState → Turn
  | .idle => headerTurn []
  | .header buf => headerTurn buf
  | .payload kind len buf => payloadTurn kind len buf

def atEof : RecvState → Result
  | .idle | .header [] => .ok none
  | .header _ => .error (.connection "quic: stream ended mid-header")
  | .payload .. => .error (.connection "quic: stream ended mid-payload")

def push (got : Bytes) : RecvState → RecvState
  | .idle => .header got
  | .header buf => .header (buf ++ got)
  | .payload kind len buf => .payload kind len (buf ++ got)

/-- How a call of `recv_frame` ends: its future is dropped, the connection is lost under
it, or the bytes decide its result. -/
inductive Ended where
  | dropped
  | lost (cause : String)
  | returned (result : Result)

def Ended.result? : Ended → Option Result
  | .dropped => none
  | .lost cause => some (.error (.connection s!"quic: {cause}"))
  | .returned result => some result

def Ended.returned? : Ended → Option Result
  | .returned result => some result
  | _ => none

/-- One call of `recv_frame` with the reads it lives to see. A call that has no result
yet when they are used up is dropped. -/
def recvFrame (l : QuicLink) (reads : List Read) : Ended × QuicLink :=
  match turn l.recvState, reads with
  | .done result state, _ => (.returned result, { l with recvState := state })
  | .reading state _, [] => (.dropped, { l with recvState := state })
  | .reading state _, .lost cause :: _ => (.lost cause, { l with recvState := state })
  | .reading state space, .ready n :: rest =>
    if l.unread = [] then (.returned (atEof state), { l with recvState := .idle })
    else
      let k := min (n + 1) space
      recvFrame ⟨push (l.unread.take k) state, l.unread.drop k⟩ rest

def recvFrames (l : QuicLink) : List (List Read) → List Ended
  | [] => []
  | reads :: calls => (recvFrame l reads).1 :: recvFrames (recvFrame l reads).2 calls

def results (l : QuicLink) (calls : List (List Read)) : List Result :=
  (recvFrames l calls).filterMap Ended.returned?

def declared (stream : Bytes) : Nat := BigEndian.read ((stream.drop 1).take 4)

/-- What a reader of the whole stream makes of its start: the end, a frame and what
follows it, or an error. -/
def nextFrame (stream : Bytes) : Except DomainError (Option (Frame × Bytes)) :=
  if stream = [] then .ok none
  else if stream.length < 5 then .error (.connection "quic: stream ended mid-header")
  else
    match u8ToKind (stream.headD 0) with
    | .error e => .error e
    | .ok kind =>
      if maxFrame < declared stream then .error (.transfer "frame exceeds MAX_FRAME")
      else if stream.length < 5 + declared stream then .error (.connection "quic: stream ended mid-payload")
      else .ok (some (⟨kind, (stream.drop 5).take (declared stream)⟩, stream.drop (5 + declared stream)))

def Consumed : RecvState → Bytes → Prop
  | .idle, got => got = []
  | .header buf, got => got = buf ∧ buf.length ≤ 5
  | .payload kind len buf, got =>
    ∃ head, head.length = 5 ∧ u8ToKind (head.headD 0) = .ok kind ∧ declared head = len ∧
      len ≤ maxFrame ∧ buf.length ≤ len ∧ got = head ++ buf

/-- The link stands some bytes into the frame that `stream` starts with. -/
def Standing (l : QuicLink) (stream : Bytes) : Prop :=
  ∃ got, Consumed l.recvState got ∧ got ++ l.unread = stream

/-- The stream starts with a header whose length word exceeds the cap. -/
def Oversized (stream : Bytes) : Prop := 5 ≤ stream.length ∧ maxFrame < declared stream

/-- What is left of a stream behind its first result. A header of an unknown kind stays
where it is; behind one that asks for too much the payload is not skipped. -/
def behind (stream : Bytes) : Bytes :=
  match nextFrame stream with
  | .ok more => (more.map Prod.snd).getD []
  | .error _ =>
    if stream.length < 5 then []
    else if ¬ (u8ToKind (stream.headD 0)).toBool then stream
    else if maxFrame < declared stream then stream.drop 5
    else []

def parsed : Nat → Bytes → List Result
  | 0, _ => []
  | n + 1, stream => (nextFrame stream).map (·.map Prod.fst) :: parsed n (behind stream)

/-- A call's result is the one the start of the stream asks for, and the link it leaves
stands behind it. -/
structure Decided (stream : Bytes) (result : Result) (l : QuicLink) : Prop where
  result : result = (nextFrame stream).map (·.map Prod.fst)
  left : Standing l (behind stream)

theorem standing_idle (stream : Bytes) : Standing ⟨.idle, stream⟩ stream := ⟨[], rfl, rfl⟩

theorem Decided.of_ok {stream : Bytes} {more : Option (Frame × Bytes)} (h : nextFrame stream = .ok more) :
    Decided stream (.ok (more.map Prod.fst)) ⟨.idle, (more.map Prod.snd).getD []⟩ := by
  refine ⟨by rw [h]; rfl, ?_⟩
  rw [behind, h]
  exact standing_idle _

theorem Decided.of_failed {stream : Bytes} {e : DomainError} {l : QuicLink} (h : nextFrame stream = .error e)
    (left : Standing l (behind stream)) : Decided stream (.error e) l :=
  ⟨by rw [h]; rfl, left⟩

theorem headD_append {head rest : Bytes} (h : head.length = 5) : (head ++ rest).headD 0 = head.headD 0 := by
  cases head with
  | nil => simp at h
  | cons b head => rfl

theorem declared_append {head rest : Bytes} (h : head.length = 5) :
    declared (head ++ rest) = declared head := by
  have fits : (head.drop 1).length = 4 := by simp [h]
  rw [declared, declared, List.drop_append_of_le_length (by omega), List.take_append_of_le_length (by omega)]

/-- What the stream says once its header is whole. -/
theorem nextFrame_header {head : Bytes} (five : head.length = 5) (rest : Bytes) :
    nextFrame (head ++ rest) =
      match u8ToKind (head.headD 0) with
      | .error e => .error e
      | .ok kind =>
        if maxFrame < declared head then .error (.transfer "frame exceeds MAX_FRAME")
        else if rest.length < declared head then .error (.connection "quic: stream ended mid-payload")
        else .ok (some (⟨kind, rest.take (declared head)⟩, rest.drop (declared head))) := by
  have nonempty : head ++ rest ≠ [] := by
    intro h
    simp [(List.append_eq_nil_iff.mp h).1] at five
  have long : ¬ (head ++ rest).length < 5 := by simp [five]
  have body : (head ++ rest).drop 5 = rest := List.drop_left' five
  rw [nextFrame, if_neg nonempty, if_neg long, headD_append five, declared_append five]
  simp only [List.length_append, five, Nat.add_lt_add_iff_left, body, ← List.drop_drop]

theorem nextFrame_payload {head : Bytes} {kind : FrameKind} (five : head.length = 5)
    (known : u8ToKind (head.headD 0) = .ok kind) (small : declared head ≤ maxFrame) (buf : Bytes) :
    nextFrame (head ++ buf) =
      if buf.length < declared head then .error (.connection "quic: stream ended mid-payload")
      else .ok (some (⟨kind, buf.take (declared head)⟩, buf.drop (declared head))) := by
  rw [nextFrame_header five, known]
  exact if_neg (Nat.not_lt.mpr small)

/-- What is left when the header is whole and its frame is not to be had. -/
theorem behind_header {head : Bytes} (five : head.length = 5) {rest : Bytes} {e : DomainError}
    (fails : nextFrame (head ++ rest) = .error e) :
    behind (head ++ rest) =
      if ¬ (u8ToKind (head.headD 0)).toBool then head ++ rest
      else if maxFrame < declared head then rest
      else [] := by
  have long : ¬ (head ++ rest).length < 5 := by simp [five]
  have body : (head ++ rest).drop 5 = rest := List.drop_left' five
  rw [behind, fails]
  dsimp only
  rw [if_neg long, headD_append five, declared_append five, body]

theorem payloadTurn_cases (kind : FrameKind) (len : Nat) (buf : Bytes) :
    (buf.length < len ∧
      payloadTurn kind len buf = .reading (.payload kind len buf) (len - buf.length)) ∨
    (len ≤ buf.length ∧ payloadTurn kind len buf = .done (.ok (some ⟨kind, buf⟩)) .idle) := by
  by_cases short : buf.length < len
  · exact .inl ⟨short, if_pos short⟩
  · exact .inr ⟨Nat.not_lt.mp short, if_neg short⟩

/-- A header is short, or it is refused, or its payload follows. -/
theorem headerTurn_cases (buf : Bytes) :
    (buf.length < 5 ∧ headerTurn buf = .reading (.header buf) (5 - buf.length)) ∨
    (5 ≤ buf.length ∧
      ((∃ e, u8ToKind (buf.headD 0) = .error e ∧ headerTurn buf = .done (.error e) (.header buf)) ∨
        ∃ kind, u8ToKind (buf.headD 0) = .ok kind ∧
          ((maxFrame < declared buf ∧
              headerTurn buf = .done (.error (.transfer "frame exceeds MAX_FRAME")) .idle) ∨
            (declared buf ≤ maxFrame ∧ headerTurn buf = payloadTurn kind (declared buf) [])))) := by
  rw [headerTurn]
  by_cases short : buf.length < 5
  · exact .inl ⟨short, if_pos short⟩
  · refine .inr ⟨Nat.not_lt.mp short, ?_⟩
    rw [if_neg short]
    cases known : u8ToKind (buf.headD 0) with
    | error e => exact .inl ⟨e, rfl, rfl⟩
    | ok kind =>
      by_cases big : maxFrame < declared buf
      · exact .inr ⟨kind, rfl, .inl ⟨big, if_pos big⟩⟩
      · exact .inr ⟨kind, rfl, .inr ⟨Nat.not_lt.mp big, if_neg big⟩⟩

theorem payloadTurn_done {head buf : Bytes} (rest : Bytes) {kind : FrameKind} {result : Result} {state : RecvState}
    (five : head.length = 5) (known : u8ToKind (head.headD 0) = .ok kind) (small : declared head ≤ maxFrame)
    (fits : buf.length ≤ declared head) (t : payloadTurn kind (declared head) buf = .done result state) :
    Decided (head ++ buf ++ rest) result ⟨state, rest⟩ := by
  rcases payloadTurn_cases kind (declared head) buf with ⟨_, reads⟩ | ⟨whole, done⟩
  · cases reads.symm.trans t
  · cases done.symm.trans t
    have full : buf.length = declared head := by omega
    have next : nextFrame (head ++ buf ++ rest) = .ok (some (⟨kind, buf⟩, rest)) := by
      rw [List.append_assoc, nextFrame_payload five known small, if_neg (by simp; omega), ← full]
      simp
    exact Decided.of_ok next

theorem headerTurn_done {buf rest : Bytes} {result : Result} {state : RecvState}
    (fits : buf.length ≤ 5) (t : headerTurn buf = .done result state) :
    Decided (buf ++ rest) result ⟨state, rest⟩ := by
  rcases headerTurn_cases buf with ⟨_, reads⟩ | ⟨whole, ⟨e, unknown, failed⟩ | ⟨kind, known, sized⟩⟩
  · cases reads.symm.trans t
  · cases failed.symm.trans t
    have five : buf.length = 5 := Nat.le_antisymm fits whole
    have next := nextFrame_header five rest
    rw [unknown] at next
    apply Decided.of_failed next
    rw [behind_header five next, unknown, if_pos (by simp [Except.toBool])]
    exact ⟨buf, ⟨rfl, fits⟩, rfl⟩
  · have five : buf.length = 5 := Nat.le_antisymm fits whole
    rcases sized with ⟨big, failed⟩ | ⟨small, follows⟩
    · cases failed.symm.trans t
      have next := nextFrame_header five rest
      rw [known] at next
      have refused := next.trans (if_pos big)
      apply Decided.of_failed refused
      rw [behind_header five refused, known, if_neg (by simp [Except.toBool]), if_pos big]
      exact standing_idle rest
    · have done := payloadTurn_done rest five known small (Nat.zero_le _) (follows.symm.trans t)
      rwa [List.append_nil] at done

/-- A turn that needs no further read decides as the whole stream does. -/
theorem turn_done {state state' : RecvState} {got rest : Bytes} {result : Result}
    (c : Consumed state got) (t : turn state = .done result state') :
    Decided (got ++ rest) result ⟨state', rest⟩ := by
  cases state with
  | idle =>
    cases c
    exact headerTurn_done (Nat.zero_le _) t
  | header buf =>
    obtain ⟨rfl, fits⟩ := c
    exact headerTurn_done fits t
  | payload kind len buf =>
    obtain ⟨head, five, known, rfl, small, fits, rfl⟩ := c
    exact payloadTurn_done rest five known small fits t

/-- What a turn that reads knows: the bytes taken so far are still the
state's, a read keeps that, and the end of the stream decides as it does for a reader of
the whole stream. -/
structure Reads (state : RecvState) (space : Nat) (got : Bytes) : Prop where
  consumed : Consumed state got
  pushed : ∀ chunk, chunk.length ≤ space → Consumed (push chunk state) (got ++ chunk)
  ended : Decided got (atEof state) ⟨.idle, []⟩

theorem payloadTurn_reading {head : Bytes} {kind : FrameKind} {state : RecvState} {space : Nat} (buf : Bytes)
    (five : head.length = 5) (known : u8ToKind (head.headD 0) = .ok kind) (small : declared head ≤ maxFrame)
    (fits : buf.length ≤ declared head) (t : payloadTurn kind (declared head) buf = .reading state space) :
    Reads state space (head ++ buf) := by
  rcases payloadTurn_cases kind (declared head) buf with ⟨short, reads⟩ | ⟨_, done⟩
  · cases reads.symm.trans t
    refine ⟨⟨head, five, known, rfl, small, fits, rfl⟩, ?_, ?_⟩
    · intro chunk le
      refine ⟨head, five, known, rfl, small, ?_, by simp⟩
      rw [List.length_append]
      omega
    · have next := (nextFrame_payload five known small buf).trans (if_pos short)
      apply Decided.of_failed next
      rw [behind_header five next, known, if_neg (by simp [Except.toBool]), if_neg (Nat.not_lt.mpr small)]
      exact standing_idle []
  · cases done.symm.trans t

theorem headerTurn_reading {buf : Bytes} {state : RecvState} {space : Nat}
    (fits : buf.length ≤ 5) (t : headerTurn buf = .reading state space) : Reads state space buf := by
  rcases headerTurn_cases buf with ⟨short, reads⟩ | ⟨whole, ⟨e, _, failed⟩ | ⟨kind, known, sized⟩⟩
  · cases reads.symm.trans t
    refine ⟨⟨rfl, fits⟩, ?_, ?_⟩
    · intro chunk le
      refine ⟨rfl, ?_⟩
      rw [List.length_append]
      omega
    · cases buf with
      | nil =>
        have closed : nextFrame [] = .ok none := rfl
        exact Decided.of_ok closed
      | cons b buf =>
        have next : nextFrame (b :: buf) = .error (.connection "quic: stream ended mid-header") := by
          rw [nextFrame, if_neg (by simp), if_pos short]
        apply Decided.of_failed next
        rw [behind, next]
        dsimp only
        rw [if_pos short]
        exact standing_idle []
  · cases failed.symm.trans t
  · have five : buf.length = 5 := Nat.le_antisymm fits whole
    rcases sized with ⟨_, failed⟩ | ⟨small, follows⟩
    · cases failed.symm.trans t
    · have reads := payloadTurn_reading [] five known small (Nat.zero_le _) (follows.symm.trans t)
      rwa [List.append_nil] at reads

theorem turn_reading {state state' : RecvState} {got : Bytes} {space : Nat}
    (c : Consumed state got) (t : turn state = .reading state' space) : Reads state' space got := by
  cases state with
  | idle =>
    cases c
    exact headerTurn_reading (Nat.zero_le _) t
  | header buf =>
    obtain ⟨rfl, fits⟩ := c
    exact headerTurn_reading fits t
  | payload kind len buf =>
    obtain ⟨head, five, known, rfl, small, fits, rfl⟩ := c
    exact payloadTurn_reading buf five known small fits t

/-- Some of the unread bytes move into the state. -/
theorem Reads.standing {state : RecvState} {space : Nat} {got unread : Bytes} (r : Reads state space got)
    (n : Nat) : Standing ⟨push (unread.take (min n space)) state, unread.drop (min n space)⟩ (got ++ unread) := by
  refine ⟨got ++ unread.take (min n space), r.pushed _ ?_, ?_⟩
  · rw [List.length_take]
    omega
  · rw [List.append_assoc, List.take_append_drop]

/-- A call that the bytes decide returns what the stream starts with; any other leaves
the link on the same stream. -/
theorem recvFrame_standing {l : QuicLink} {stream : Bytes} (h : Standing l stream) (reads : List Read) :
    (∀ result, (recvFrame l reads).1.returned? = some result →
      Decided stream result (recvFrame l reads).2) ∧
    ((recvFrame l reads).1.returned? = none → Standing (recvFrame l reads).2 stream) := by
  -- on the reads, for every state between two of them
  induction reads generalizing l with
  | nil =>
    obtain ⟨got, c, rfl⟩ := h
    unfold recvFrame
    cases t : turn l.recvState with
    | done result state => exact ⟨by rintro _ ⟨rfl⟩; exact turn_done c t, by simp [Ended.returned?]⟩
    | reading state space =>
      exact ⟨by simp [Ended.returned?], fun _ => ⟨got, (turn_reading c t).consumed, rfl⟩⟩
  | cons read reads ih =>
    obtain ⟨got, c, rfl⟩ := h
    unfold recvFrame
    cases t : turn l.recvState with
    | done result state => exact ⟨by rintro _ ⟨rfl⟩; exact turn_done c t, by simp [Ended.returned?]⟩
    | reading state space =>
      have r := turn_reading c t
      cases read with
      | lost cause => exact ⟨by simp [Ended.returned?], fun _ => ⟨got, r.consumed, rfl⟩⟩
      | ready n =>
        dsimp only
        split
        · next ended =>
          rw [ended, List.append_nil]
          exact ⟨by rintro _ ⟨rfl⟩; exact r.ended, by simp [Ended.returned?]⟩
        · exact ih (r.standing (n + 1))

/-- A read always asks for something. -/
theorem turn_room {state state' : RecvState} {space : Nat} (t : turn state = .reading state' space) :
    0 < space := by
  have payload {kind len buf} (t : payloadTurn kind len buf = .reading state' space) : 0 < space := by
    rcases payloadTurn_cases kind len buf with ⟨short, reads⟩ | ⟨_, done⟩
    · cases reads.symm.trans t
      omega
    · cases done.symm.trans t
  have header {buf} (t : headerTurn buf = .reading state' space) : 0 < space := by
    rcases headerTurn_cases buf with ⟨short, reads⟩ | ⟨_, ⟨e, _, failed⟩ | ⟨kind, _, sized⟩⟩
    · cases reads.symm.trans t
      omega
    · cases failed.symm.trans t
    · rcases sized with ⟨_, failed⟩ | ⟨_, follows⟩
      · cases failed.symm.trans t
      · exact payload (follows.symm.trans t)
  cases state with
  | idle => exact header t
  | header buf => exact header t
  | payload kind len buf => exact payload t

/-- A call that is left to run returns once it has seen more reads than there are bytes. -/
theorem recvFrame_returns (l : QuicLink) {reads : List Read} (ready : ∀ r ∈ reads, ∃ n, r = .ready n)
    (enough : l.unread.length < reads.length) : ∃ result, (recvFrame l reads).1 = .returned result := by
  induction reads generalizing l with
  | nil => simp at enough
  | cons read reads ih =>
    obtain ⟨n, rfl⟩ := ready read (List.mem_cons_self ..)
    unfold recvFrame
    cases t : turn l.recvState with
    | done result state => exact ⟨result, rfl⟩
    | reading state space =>
      dsimp only
      split
      · exact ⟨_, rfl⟩
      · next more =>
        apply ih _ fun q mem => ready q (List.mem_cons_of_mem _ mem)
        have := List.length_pos_iff.mpr more
        have := turn_room t
        simp only [List.length_drop, List.length_cons] at *
        omega

theorem results_cons (l : QuicLink) (reads : List Read) (calls : List (List Read)) :
    results l (reads :: calls) =
      (recvFrame l reads).1.returned?.toList ++ results (recvFrame l reads).2 calls := by
  unfold results
  rw [recvFrames, List.filterMap_cons]
  cases (recvFrame l reads).1.returned? <;> rfl

/-- The calls give what a reader of the whole stream makes of it. -/
theorem results_parsed {l : QuicLink} {stream : Bytes} (h : Standing l stream) (calls : List (List Read)) :
    ∃ n, results l calls = parsed n stream := by
  -- a call either stays on the stream or moves on behind its first result
  induction calls generalizing l stream with
  | nil => exact ⟨0, rfl⟩
  | cons reads calls ih =>
    have call := recvFrame_standing h reads
    rw [results_cons]
    cases returned : (recvFrame l reads).1.returned? with
    | none => exact ih (call.2 returned)
    | some result =>
      have d := call.1 result returned
      obtain ⟨n, eq⟩ := ih d.left
      refine ⟨n + 1, ?_⟩
      rw [eq, d.result]
      rfl

/-- At the end of the stream there is nothing but `None`. -/
theorem parsed_nil (n : Nat) : parsed n [] = List.replicate n (.ok none) := by
  induction n with
  | zero => rfl
  | succ n ih =>
    have closed : behind [] = [] := rfl
    rw [parsed, closed, ih]
    rfl

/-- A stream that does not move on gives the same error for ever. -/
theorem parsed_stuck {stream : Bytes} {e : DomainError} (fails : nextFrame stream = .error e)
    (stays : behind stream = stream) (n : Nat) : parsed n stream = List.replicate n (.error e) := by
  induction n with
  | zero => rfl
  | succ n ih =>
    rw [parsed, fails, stays, ih]
    rfl

theorem u8ToKind_kindToU8 (kind : FrameKind) : u8ToKind (kindToU8 kind) = .ok kind := by
  cases kind <;> rfl

theorem sendFrame_ok {f : Frame} (h : (sendFrame f).toBool) :
    sendFrame f = .ok (encode f) ∧ f.payload.length ≤ maxFrame := by
  unfold sendFrame at h ⊢
  split at h
  · cases h
  · next narrow =>
    split at h
    · cases h
    · next small => exact ⟨by rw [if_neg narrow, if_neg small], Nat.not_lt.mp small⟩

/-- The frame that was written is the one the stream starts with. -/
theorem nextFrame_encode {f : Frame} (small : f.payload.length ≤ maxFrame) (rest : Bytes) :
    nextFrame (encode f ++ rest) = .ok (some (f, rest)) := by
  let head := kindToU8 f.kind :: BigEndian.write 4 f.payload.length
  have five : head.length = 5 := by simp [head]
  have length : declared head = f.payload.length := by
    have narrow : f.payload.length < 256 ^ 4 := by
      unfold maxFrame at small
      omega
    show BigEndian.read ((BigEndian.write 4 f.payload.length).take 4) = _
    rw [List.take_of_length_le (by simp), BigEndian.read_write_of_lt narrow]
  have known : u8ToKind (head.headD 0) = .ok f.kind := u8ToKind_kindToU8 f.kind
  have split : encode f ++ rest = head ++ (f.payload ++ rest) := by simp [encode, head]
  rw [split, nextFrame_payload five known (length ▸ small), length, if_neg (by simp)]
  simp

/-- Only the frames that were taken are on the stream. -/
theorem written_eq (frames : List Frame) : written frames = (taken frames).flatMap encode := by
  induction frames with
  | nil => rfl
  | cons f frames ih =>
    unfold written taken at *
    rw [List.flatMap_cons, ih, List.filter_cons]
    cases ok : (sendFrame f).toBool with
    | true => simp [(sendFrame_ok ok).1, Except.toOption]
    | false =>
      cases h : sendFrame f with
      | ok bytes => rw [h] at ok; cases ok
      | error e => simp [Except.toOption]

/-- Frames on the stream come out one after the other, then what follows them is read. -/
theorem parsed_frames {frames : List Frame} (small : ∀ f ∈ frames, f.payload.length ≤ maxFrame)
    (tail : Bytes) (n : Nat) :
    parsed (n + frames.length) (frames.flatMap encode ++ tail) = frames.map (.ok ∘ some) ++ parsed n tail := by
  induction frames with
  | nil => rfl
  | cons f frames ih =>
    have next := nextFrame_encode (small f (List.mem_cons_self ..)) (frames.flatMap encode ++ tail)
    have left : behind (encode f ++ (frames.flatMap encode ++ tail)) = frames.flatMap encode ++ tail := by
      rw [behind, next]
      rfl
    rw [List.flatMap_cons, List.append_assoc, List.length_cons, ← Nat.add_assoc, parsed, next, left,
      ih fun g mem => small g (List.mem_cons_of_mem _ mem)]
    rfl

theorem parsed_prefix (stream : Bytes) (n k : Nat) : parsed n stream <+: parsed (n + k) stream := by
  induction n generalizing stream with
  | zero => exact List.nil_prefix
  | succ n ih =>
    rw [Nat.succ_add, parsed, parsed]
    exact (List.prefix_cons_inj _).mpr (ih _)

/-- The stream ends inside a frame whose length, as far as it can be read, is below the cap. -/
def Truncated (stream : Bytes) : Prop :=
  stream ≠ [] ∧ (stream.length < 5 ∨ (declared stream ≤ maxFrame ∧ stream.length < 5 + declared stream))

theorem Truncated.fails {stream : Bytes} (h : Truncated stream) :
    (∃ e, nextFrame stream = .error e) ∧ ¬ Oversized stream := by
  obtain ⟨nonempty, short⟩ := h
  refine ⟨?_, fun big => ?_⟩
  · unfold nextFrame
    rw [if_neg nonempty]
    split
    · exact ⟨_, rfl⟩
    · split
      · exact ⟨_, rfl⟩
      · split
        · exact ⟨_, rfl⟩
        · exact ⟨_, if_pos (by omega)⟩
  · obtain ⟨whole, big⟩ := big
    omega

/-- Behind an error nothing is left, or the same stream, unless the header asked for
too much. -/
theorem behind_failed {stream : Bytes} {e : DomainError} (fails : nextFrame stream = .error e)
    (fits : ¬ Oversized stream) : behind stream = [] ∨ behind stream = stream := by
  rw [behind, fails]
  dsimp only
  split
  · exact .inl rfl
  · next whole =>
    split
    · exact .inr rfl
    · rw [if_neg fun big => fits ⟨Nat.not_lt.mp whole, big⟩]
      exact .inl rfl

/-- After an error no frame follows, unless the header asked for too much. -/
theorem parsed_failed {stream : Bytes} {e : DomainError} (fails : nextFrame stream = .error e)
    (fits : ¬ Oversized stream) (n : Nat) :
    ∃ more, parsed (n + 1) stream = .error e :: more ∧ ∀ f, .ok (some f) ∉ more := by
  refine ⟨parsed n (behind stream), by rw [parsed, fails]; rfl, ?_⟩
  intro f mem
  rcases behind_failed fails fits with ended | stays
  · rw [ended, parsed_nil] at mem
    cases List.eq_of_mem_replicate mem
  · rw [stays, parsed_stuck fails stays] at mem
    cases List.eq_of_mem_replicate mem

/-- A header that asks for too much gives an error. The reader then goes on behind its five
bytes, or stays on them when their kind is unknown as well. -/
theorem parsed_oversized {stream : Bytes} (big : Oversized stream) (n : Nat) :
    ∃ e, parsed (n + 1) stream = .error e ::
      if (u8ToKind (stream.headD 0)).toBool then parsed n (stream.drop 5) else List.replicate n (.error e) := by
  obtain ⟨whole, big⟩ := big
  have long : ¬ stream.length < 5 := Nat.not_lt.mpr whole
  have nonempty : stream ≠ [] := by
    intro h
    simp [h] at whole
  cases known : u8ToKind (stream.headD 0) with
  | error e =>
    have fails : nextFrame stream = .error e := by
      rw [nextFrame, if_neg nonempty, if_neg long, known]
    have stays : behind stream = stream := by
      rw [behind, fails]
      dsimp only
      rw [if_neg long, known, if_pos (by simp [Except.toBool])]
    refine ⟨e, ?_⟩
    rw [parsed_stuck fails stays]
    rfl
  | ok kind =>
    have fails : nextFrame stream = .error (.transfer "frame exceeds MAX_FRAME") := by
      rw [nextFrame, if_neg nonempty, if_neg long, known]
      exact if_pos big
    have left : behind stream = stream.drop 5 := by
      rw [behind, fails]
      dsimp only
      rw [if_neg long, known, if_neg (by simp [Except.toBool]), if_pos big]
    refine ⟨.transfer "frame exceeds MAX_FRAME", ?_⟩
    rw [parsed, fails, left]
    rfl

/-- Framing is transparent: whatever the reads and wherever calls are dropped, the results
are the frames that were sent, then `None` for ever. Where a frame is cut off there is an
error in its place, and no frame after it. A header that asks for too much gives an error
too, but only its own five bytes are taken: whoever reads on gets what the bytes behind them
parse to. Every call that is left to run returns. -/
theorem framing_transparent (frames : List Frame) (tail : Bytes) (calls : List (List Read)) :
    let l : QuicLink := ⟨.idle, written frames ++ tail⟩
    let sent : List Result := (taken frames).map (.ok ∘ some)
    (tail = [] → ∃ m, results l calls <+: sent ++ List.replicate m (.ok none)) ∧
    (Truncated tail → ∃ e more, results l calls <+: sent ++ .error e :: more ∧ ∀ f, .ok (some f) ∉ more) ∧
    (Oversized tail → ∃ e m, results l calls <+: sent ++ .error e ::
      if (u8ToKind (tail.headD 0)).toBool then parsed m (tail.drop 5) else List.replicate m (.error e)) ∧
    ∀ l reads, (∀ r ∈ reads, ∃ n, r = .ready n) → l.unread.length < reads.length →
      ∃ result, (recvFrame l reads).1 = .returned result := by
  intro l sent
  have small : ∀ f ∈ taken frames, f.payload.length ≤ maxFrame := by
    intro f mem
    exact (sendFrame_ok (List.mem_filter.mp mem).2).2
  have start : Standing l ((taken frames).flatMap encode ++ tail) := by
    rw [← written_eq]
    exact standing_idle _
  obtain ⟨n, eq⟩ := results_parsed start calls
  have through : results l calls <+: sent ++ parsed (n + 1) tail := by
    rw [eq, ← parsed_frames small, Nat.add_assoc]
    exact parsed_prefix _ n _
  refine ⟨?_, ?_, ?_, fun l reads ready enough => recvFrame_returns l ready enough⟩
  · rintro rfl
    rw [parsed_nil] at through
    exact ⟨n + 1, through⟩
  · intro cut
    obtain ⟨⟨e, fails⟩, fits⟩ := cut.fails
    obtain ⟨more, failed, none⟩ := parsed_failed fails fits n
    rw [failed] at through
    exact ⟨e, more, through, none⟩
  · intro big
    obtain ⟨e, failed⟩ := parsed_oversized big n
    rw [failed] at through
    exact ⟨e, n, through⟩

/-- A payload of 64 MiB and one byte is refused, and the next call returns six of its bytes
as a frame. -/
theorem refused_payload_parsed :
    let tail : Bytes := [2, 4, 0, 0, 1] ++ [2, 0, 0, 0, 1, 7]
    Oversized tail ∧
      results ⟨.idle, written [] ++ tail⟩ [[.ready 9], [.ready 9, .ready 9]] =
        [.error (.transfer "frame exceeds MAX_FRAME"), .ok (some ⟨.chunk, [7]⟩)] := by
  refine ⟨⟨by decide, by decide⟩, by decide +kernel⟩

/-- Two frames, a first call dropped inside the header of the first. -/
example : results ⟨.idle, written [⟨.chunk, [7]⟩, ⟨.ack, []⟩]⟩
    [[.ready 2], [.ready 9, .ready 9], [.ready 9], [.ready 0]] =
      [.ok (some ⟨.chunk, [7]⟩), .ok (some ⟨.ack, []⟩), .ok none] := by
  decide +kernel

end PeerBeam.Quic
