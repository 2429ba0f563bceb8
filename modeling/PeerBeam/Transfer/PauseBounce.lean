import PeerBeam.Transfer.PauseTraffic

/-! How often a send loop pauses: at most once for every two chunks, and that often when a pause bounces. -/
namespace PeerBeam.Transfer
open TransitionRun

def pauses (frames : List MainFrame) : ℕ := frames.count .pause

def resumes (frames : List MainFrame) : ℕ := frames.count .resume

def MainFrame.isChunk : MainFrame → Bool
  | .chunk _ => true
  | _ => false

def chunks (frames : List MainFrame) : ℕ := frames.countP MainFrame.isChunk

/-- How far the pauses may be ahead of the chunks: a loop that goes on after a pause sends a chunk before it looks at its
control again, and one more before the next pause. -/
def PauseSender.slack (s : PauseSender) : ℕ :=
  match s.signalled, s.phase with
  | false, .top => 0
  | false, .waiting | false, .sending | true, .top => 1
  | true, .waiting | true, .sending | _, .ended => 2

structure Paced (s : PauseSender) : Prop where
  chunked : 2 * pauses s.sent ≤ chunks s.sent + s.slack
  alternating : pauses s.sent = resumes s.sent + if s.signalled then 1 else 0

theorem Paced.keep {s s' : PauseSender} (paced : Paced s) (sent : s'.sent = s.sent) (signalled : s'.signalled = s.signalled)
    (slack : s.slack ≤ s'.slack) : Paced s' where
  chunked := by
    rw [sent]
    exact paced.chunked.trans (Nat.add_le_add_left slack _)
  alternating := by rw [sent, signalled, paced.alternating]

theorem Paced.signal {s : PauseSender} (paced : Paced s) (top : s.phase = .top) :
    Paced { s.signal.1 with phase := .waiting } := by
  obtain ⟨chunked, alternating⟩ := paced
  rw [PauseSender.slack, top] at chunked
  rw [PauseSender.signal]
  split
  next edge =>
    rw [Bool.and_eq_true, Bool.not_eq_true'] at edge
    rw [edge.2] at chunked alternating
    refine ⟨?_, ?_⟩
    · dsimp only [PauseSender.slack, pauses, chunks] at chunked ⊢
      rw [List.count_append, List.countP_append, List.count_singleton_self]
      have none_ : [MainFrame.pause].countP MainFrame.isChunk = 0 := rfl
      omega
    · dsimp only [pauses, resumes] at alternating ⊢
      rw [List.count_append, List.count_append, alternating]
      rfl
  · split
    next edge =>
      rw [Bool.and_eq_true, Bool.not_eq_true'] at edge
      rw [edge.2] at chunked alternating
      refine ⟨?_, ?_⟩
      · dsimp only [PauseSender.slack, pauses, chunks] at chunked ⊢
        rw [List.count_append, List.countP_append]
        exact chunked
      · dsimp only [pauses, resumes] at alternating ⊢
        rw [List.count_append, List.count_append, alternating]
        rfl
    · refine ⟨chunked.trans (Nat.add_le_add_left ?_ _), alternating⟩
      dsimp only [PauseSender.slack]
      cases s.signalled <;> decide

theorem Paced.chunk {s : PauseSender} (paced : Paced s) (sending : s.phase = .sending) (len : ℕ) :
    Paced { s with phase := .top, sent := s.sent ++ [.chunk len] } := by
  obtain ⟨chunked, alternating⟩ := paced
  rw [PauseSender.slack, sending] at chunked
  refine ⟨?_, ?_⟩
  · dsimp only [PauseSender.slack, pauses, chunks] at chunked ⊢
    rw [List.count_append, List.countP_append]
    have one : [MainFrame.chunk len].countP MainFrame.isChunk = 1 := rfl
    have none_ : [MainFrame.chunk len].count .pause = 0 := rfl
    cases signalled : s.signalled <;> rw [signalled] at chunked <;> dsimp only at chunked ⊢ <;> omega
  · dsimp only [pauses, resumes] at alternating ⊢
    rw [List.count_append, List.count_append, alternating]
    rfl

/-- The last frame of a loop. -/
theorem Paced.last {s : PauseSender} (paced : Paced s) {frames : List MainFrame} (pause : pauses frames = 0)
    (resume : resumes frames = 0) : Paced { s with phase := .ended, sent := s.sent ++ frames } := by
  obtain ⟨chunked, alternating⟩ := paced
  refine ⟨?_, ?_⟩
  · have most : s.slack ≤ 2 := by
      rw [PauseSender.slack]
      split <;> decide
    have done : PauseSender.slack { s with phase := .ended, sent := s.sent ++ frames } = 2 := by
      rw [PauseSender.slack]
      cases s.signalled <;> rfl
    rw [done]
    dsimp only [pauses, chunks] at pause chunked ⊢
    rw [List.count_append, List.countP_append, pause]
    omega
  · dsimp only [pauses, resumes] at pause resume alternating ⊢
    rw [List.count_append, List.count_append, pause, resume, alternating, Nat.add_zero, Nat.add_zero]

theorem paced_step {size : ℕ} {s : PauseLink} (paced : Paced s.sender) (x : PauseStep) : Paced (s.step size x).sender := by
  cases x with
  | pressSender pause => exact paced.keep rfl rfl le_rfl
  | signal =>
    rw [PauseLink.step]
    split
    next top => exact paced.signal top
    · exact paced
  | unparkSender =>
    rw [PauseLink.step]
    split
    next parked =>
      refine paced.keep rfl rfl ?_
      rw [PauseSender.slack, PauseSender.slack, parked.1]
      cases s.sender.signalled <;> exact le_rfl
    · exact paced
  | sendChunk len =>
    rw [PauseLink.step]
    split
    next sending => exact paced.chunk sending len
    · exact paced
  | complete =>
    rw [PauseLink.step]
    split
    · exact paced.last rfl rfl
    · exact paced
  | stopSender told =>
    rw [PauseLink.step]
    split
    · exact paced
    · exact paced.last (by cases told <;> rfl) (by cases told <;> rfl)
  | arrive =>
    rw [PauseLink.step]
    split
    · exact paced
    · cases s.wire with
      | nil => exact paced
      | cons b wire =>
        dsimp only [PauseSender.arrive]
        split
        · rw [PauseSender.handle]
          split <;> exact paced.keep rfl rfl le_rfl
        · exact paced.keep rfl rfl le_rfl
  | beat =>
    rw [PauseLink.step]
    split
    · exact paced.keep rfl rfl le_rfl
    · exact paced
  | grace =>
    rw [PauseLink.step]
    split
    · exact paced.keep rfl rfl le_rfl
    · exact paced
  | cut => exact paced.keep rfl rfl le_rfl
  | edge =>
    rw [PauseLink.step]
    split <;> exact paced
  | unparkReceiver =>
    rw [PauseLink.step]
    split <;> exact paced
  | receive =>
    rw [PauseLink.step]
    split
    · cases s.main <;> exact paced
    · exact paced
  | land ok =>
    rw [PauseLink.step]
    split <;> exact paced
  | pressReceiver pause => exact paced
  | stopReceiver => exact paced
  | pump due => exact paced
  | mirror ok => exact paced

/-- The counts that the mirror has between its two sentinels: the first count of the transfer, in the first lap. -/
def between : ℕ → List ℕ
  | 0 => [1]
  | _ + 1 => []

/-- A resume and a pause are on their way to a send loop that has signalled its own pause. -/
def bouncing (n : ℕ) (heard : List ℕ) (sent : List MainFrame) (emitted : List Progress) : PauseLink where
  sender := ⟨true, true, .waiting, if n = 0 then .waiting else .driving, [], heard, sent, false⟩
  receiver := ⟨false, false, .top, 2 * n + 1, emitted, [], true, false, backResume :: (between n ++ [backPause]),
    some backPause, true⟩
  main := []
  wire := []

def bounced (n : ℕ) (heard : List ℕ) (sent : List MainFrame) (emitted : List Progress) : PauseLink where
  sender := ⟨true, true, .waiting, .driving, [], heard, sent, false⟩
  receiver := ⟨false, false, .top, 2 * n + 1, emitted, [], true, false, [], some backPause, true⟩
  main := [.chunk 1, .resume, .chunk 1, .pause]
  wire := []

def turn : List PauseStep := [.edge, .unparkReceiver, .receive]

def oneReport : List PauseStep := List.replicate 8 .arrive

def quietPumps (n : ℕ) : List PauseStep := List.replicate n (.pump false)

def paused : List PauseStep := [.signal, .unparkSender, .pressReceiver true, .edge, .pump false, .mirror true]

def crossed : List PauseStep := [.sendChunk 1, .signal, .pressReceiver false, .unparkReceiver, .receive]

def opening : List PauseStep := paused ++ oneReport ++ crossed ++ turn ++ quietPumps 3

def mirrorAll (n : ℕ) : List PauseStep := List.replicate ((between n).length + 2) (.mirror true)

def goOn : List PauseStep := [.unparkSender, .sendChunk 1, .signal, .unparkSender]

def pauseAgain : List PauseStep := [.sendChunk 1, .signal]

def onwards : List PauseStep := goOn ++ oneReport ++ pauseAgain

def away (n : ℕ) : List PauseStep :=
  mirrorAll n ++ oneReport ++ (between n).flatMap (fun _ => oneReport) ++ onwards

def back : List PauseStep := turn ++ turn ++ turn ++ turn ++ quietPumps 4

def bounces : ℕ → List PauseStep
  | 0 => opening
  | n + 1 => bounces n ++ (away n ++ back)

/-- The bytes of a report are read one by one. -/
theorem arrive_bytes {size : ℕ} (bytes : List UInt8) (sender : PauseSender) (receiver : PauseReceiver)
    (main : List MainFrame) (wire : List UInt8) (here : sender.reader ≠ .gone)
    (short : sender.buf.length + bytes.length < 8) :
    (List.replicate bytes.length .arrive).foldl (PauseLink.step size) ⟨sender, receiver, main, bytes ++ wire⟩ =
      ⟨{ sender with buf := sender.buf ++ bytes }, receiver, main, wire⟩ := by
  induction bytes generalizing sender with
  | nil => rw [List.append_nil]; rfl
  | cons b bytes ih =>
    rw [List.length_cons] at short
    have one : sender.arrive b = { sender with buf := sender.buf ++ [b] } := by
      rw [PauseSender.arrive]
      refine if_neg ?_
      rw [List.length_append, List.length_singleton]
      omega
    have rest := ih { sender with buf := sender.buf ++ [b] } here (by
      dsimp only
      rw [List.length_append, List.length_singleton]
      omega)
    rw [List.length_cons, List.replicate_succ, List.foldl_cons, PauseLink.step, if_neg here, List.cons_append]
    dsimp only
    rw [one, rest, List.append_assoc, List.singleton_append]

theorem arrive_report {size value : ℕ} (fits : value < 256 ^ 8) (sender : PauseSender) (receiver : PauseReceiver)
    (main : List MainFrame) (wire : List UInt8) (here : sender.reader ≠ .gone) (empty : sender.buf = []) :
    oneReport.foldl (PauseLink.step size) ⟨sender, receiver, main, BigEndian.write 8 value ++ wire⟩ =
      ⟨sender.handle value, receiver, main, wire⟩ := by
  have length := BigEndian.length_write 8 value
  have whole := BigEndian.read_write_of_lt fits
  obtain ⟨bytes, b, same⟩ : ∃ bytes b, BigEndian.write 8 value = bytes ++ [b] := ⟨_, _, rfl⟩
  rw [same, List.length_append, List.length_singleton] at length
  have seven : bytes.length = 7 := by omega
  have before := @arrive_bytes size bytes sender receiver main ([b] ++ wire) here (by rw [empty, seven]; decide)
  have last : PauseSender.arrive { sender with buf := sender.buf ++ bytes } b = sender.handle value := by
    have full : (sender.buf ++ bytes ++ [b]).length = 8 := by
      rw [empty, List.nil_append, List.length_append, seven, List.length_singleton]
    have clear : { sender with buf := [] } = sender := by
      rw [← empty]
    have read : BigEndian.read (sender.buf ++ bytes ++ [b]) = value := by
      rw [empty, List.nil_append, ← same, whole]
    rw [PauseSender.arrive]
    dsimp only
    rw [if_pos full, clear, read]
  have eight : oneReport = List.replicate bytes.length .arrive ++ [.arrive] := by rw [seven]; rfl
  rw [same, List.append_assoc, eight, List.foldl_append, before, List.foldl_cons, List.foldl_nil, PauseLink.step, if_neg here]
  exact congrArg (fun sender => PauseLink.mk sender receiver main wire) last

/-- A send loop that was told to go on does, and is told to pause before its second chunk. -/
theorem go_on (size n : ℕ) (heard : List ℕ) (sent : List MainFrame) (emitted : List Progress) :
    onwards.foldl (PauseLink.step size)
      ⟨⟨false, true, .waiting, .driving, [], heard, sent, false⟩, (bounced n heard sent emitted).receiver, [],
        BigEndian.write 8 backPause ++ []⟩ =
      bounced n (heard ++ [backPause]) (sent ++ [.chunk 1] ++ [.resume] ++ [.chunk 1] ++ [.pause]) emitted := by
  have pause : backPause < 256 ^ 8 := by decide
  have on : goOn.foldl (PauseLink.step size)
      ⟨⟨false, true, .waiting, .driving, [], heard, sent, false⟩, (bounced n heard sent emitted).receiver, [],
        BigEndian.write 8 backPause ++ []⟩ =
      ⟨⟨false, false, .sending, .driving, [], heard, sent ++ [.chunk 1] ++ [.resume], false⟩,
        (bounced n heard sent emitted).receiver, [.chunk 1, .resume], BigEndian.write 8 backPause ++ []⟩ := rfl
  rw [onwards, List.foldl_append, List.foldl_append, on, arrive_report pause _ _ _ _ (by rintro ⟨⟩) rfl]
  rfl

theorem go_away (size n : ℕ) (heard : List ℕ) (sent : List MainFrame) (emitted : List Progress) :
    (away n).foldl (PauseLink.step size) (bouncing n heard sent emitted) =
      bounced n (heard ++ [backResume] ++ between n ++ [backPause])
        (sent ++ [.chunk 1] ++ [.resume] ++ [.chunk 1] ++ [.pause]) emitted := by
  have resume : backResume < 256 ^ 8 := by decide
  have one : 1 < 256 ^ 8 := by decide
  rw [away, List.foldl_append, List.foldl_append, List.foldl_append]
  cases n with
  | zero =>
    have written : (mirrorAll 0).foldl (PauseLink.step size) (bouncing 0 heard sent emitted) =
        ⟨⟨true, true, .waiting, .waiting, [], heard, sent, false⟩, (bounced 0 heard sent emitted).receiver, [],
          BigEndian.write 8 backResume ++ (BigEndian.write 8 1 ++ (BigEndian.write 8 backPause ++ []))⟩ := by
      rw [List.append_nil]
      rfl
    have count : (between 0).flatMap (fun _ => oneReport) = oneReport := rfl
    rw [written, count, arrive_report resume _ _ _ _ (by rintro ⟨⟩) rfl,
      arrive_report one _ _ _ _ (by rintro ⟨⟩) rfl]
    exact go_on size 0 (heard ++ [backResume] ++ [1]) sent emitted
  | succ n =>
    have written : (mirrorAll (n + 1)).foldl (PauseLink.step size) (bouncing (n + 1) heard sent emitted) =
        ⟨⟨true, true, .waiting, .driving, [], heard, sent, false⟩, (bounced (n + 1) heard sent emitted).receiver, [],
          BigEndian.write 8 backResume ++ (BigEndian.write 8 backPause ++ [])⟩ := by
      rw [List.append_nil]
      rfl
    have count : (between (n + 1)).flatMap (fun _ => oneReport) = [] := rfl
    rw [written, count, arrive_report resume _ _ _ _ (by rintro ⟨⟩) rfl, between,
      List.append_nil (heard ++ [backResume])]
    exact go_on size (n + 1) (heard ++ [backResume]) sent emitted

/-- A chunk that fits is received and reported. -/
theorem receive_chunk {size : ℕ} {r : PauseReceiver} (fits : r.received + 1 ≤ size) :
    r.receive size (.chunk 1) = PauseReceiver.report { r with received := r.received + 1, phase := .top } false := by
  rw [PauseReceiver.receive]
  exact if_neg (not_lt.mpr fits)

/-- Before the end, and between two of its intervals, the pump sends the edge of a report and no count. -/
theorem pump_quiet {size : ℕ} {r : PauseReceiver} {p : Progress} {prx : List Progress} (next : r.prx = p :: prx)
    (low : p.transferred < size) (counted : r.fresh = false) : r.pump size false =
      PauseReceiver.push { r with prx := prx, wasPaused := p.paused }
        (if p.paused = r.wasPaused then [] else if p.paused then [backPause] else [backResume]) := by
  have never : (decide (0 < size ∧ size ≤ p.transferred) || false) = false := by
    rw [Bool.or_false]
    exact decide_eq_false (by omega)
  have between : (false || r.fresh) = false := by rw [counted, Bool.or_false]
  have still : (r.fresh && p.paused) = r.fresh := by rw [counted, Bool.false_and]
  rw [PauseReceiver.pump, next]
  dsimp only
  rw [between, still, PauseReceiver.values, never]
  cases p.paused <;> cases r.wasPaused <;> rfl

def reading (received : ℕ) (emitted prx : List Progress) (out : List ℕ) (was : Bool) : PauseReceiver :=
  ⟨false, false, .top, received, emitted, prx, was, false, out, some backPause, true⟩

theorem pump_reading {size : ℕ} (sender : PauseSender) {received : ℕ} {emitted prx : List Progress} {out : List ℕ}
    {was : Bool} {p : Progress} (low : p.transferred < size) :
    PauseLink.step size ⟨sender, reading received emitted (p :: prx) out was, [], []⟩ (.pump false) =
      ⟨sender, reading received emitted prx
        (out ++ if p.paused = was then [] else if p.paused then [backPause] else [backResume]) p.paused, [], []⟩ :=
  congrArg (fun receiver => PauseLink.mk sender receiver [] []) (pump_quiet rfl low rfl)

theorem come_back {size n : ℕ} (room : 2 * n + 3 < size) (heard : List ℕ) (sent : List MainFrame)
    (emitted : List Progress) :
    back.foldl (PauseLink.step size) (bounced n heard sent emitted) =
      bouncing (n + 1) heard sent (emitted ++ [⟨false, 2 * n + 2⟩] ++ [⟨false, 2 * n + 2⟩] ++
        [⟨false, 2 * n + 3⟩] ++ [⟨true, 2 * n + 3⟩]) := by
  let sender : PauseSender := ⟨true, true, .waiting, .driving, [], heard, sent, false⟩
  have chunk (received : ℕ) (emitted prx : List Progress) (main : List MainFrame) (fits : received + 1 ≤ size) :
      turn.foldl (PauseLink.step size)
        ⟨sender, reading received emitted prx [] true, .chunk 1 :: main, []⟩ =
      ⟨sender, reading (received + 1) (emitted ++ [⟨false, received + 1⟩]) (prx ++ [⟨false, received + 1⟩]) [] true, main, []⟩ :=
    congrArg (fun receiver => PauseLink.mk sender receiver main []) (receive_chunk fits)
  have resume (received : ℕ) (emitted prx : List Progress) (main : List MainFrame) :
      turn.foldl (PauseLink.step size)
        ⟨sender, reading received emitted prx [] true, .resume :: main, []⟩ =
      ⟨sender, reading received (emitted ++ [⟨false, received⟩]) (prx ++ [⟨false, received⟩]) [] true, main, []⟩ := rfl
  have pause (received : ℕ) (emitted prx : List Progress) (main : List MainFrame) :
      turn.foldl (PauseLink.step size)
        ⟨sender, reading received emitted prx [] true, .pause :: main, []⟩ =
      ⟨sender, reading received (emitted ++ [⟨true, received⟩]) (prx ++ [⟨true, received⟩]) [] true, main, []⟩ := rfl
  rw [back, List.foldl_append, List.foldl_append, List.foldl_append, List.foldl_append]
  show List.foldl _ (turn.foldl _ (turn.foldl _ (turn.foldl _ (turn.foldl (PauseLink.step size)
    ⟨sender, reading (2 * n + 1) emitted [] [] true, [.chunk 1, .resume, .chunk 1, .pause], []⟩)))) _ = _
  rw [chunk _ _ _ _ (by omega), resume, chunk _ _ _ _ (by omega), pause]
  simp only [quietPumps, List.replicate, List.nil_append, List.cons_append, List.foldl_cons, List.foldl_nil]
  have early : 2 * n + 1 + 1 < size := by omega
  have late : 2 * n + 1 + 1 + 1 < size := by omega
  rw [pump_reading sender early, pump_reading sender early, pump_reading sender late, pump_reading sender late]
  rfl

/-- The receiver's user pauses, and goes on once the sender has paused too. -/
theorem opened {size : ℕ} (room : 1 < size) : opening.foldl (PauseLink.step size) (PauseLink.start 0) =
    bouncing 0 [backPause] [.chunk 1, .pause] [⟨true, 0⟩, ⟨false, 1⟩, ⟨false, 1⟩, ⟨true, 1⟩] := by
  have fits : backPause < 256 ^ 8 := by decide
  let parked : PauseReceiver := ⟨true, true, .waiting, 0, [⟨true, 0⟩], [], true, true, [], some backPause, true⟩
  have told : paused.foldl (PauseLink.step size) (PauseLink.start 0) =
      ⟨⟨false, false, .sending, .waiting, [], [], [], false⟩, parked, [], BigEndian.write 8 backPause ++ []⟩ := by
    rw [List.append_nil]
    rfl
  let sender : PauseSender := ⟨true, true, .waiting, .waiting, [], [backPause], [.chunk 1, .pause], false⟩
  have gone : crossed.foldl (PauseLink.step size)
      ⟨PauseSender.handle ⟨false, false, .sending, .waiting, [], [], [], false⟩ backPause, parked, [], []⟩ =
      ⟨sender, ⟨false, true, .top, 1, [⟨true, 0⟩, ⟨false, 1⟩], [⟨false, 1⟩], true, true, [], some backPause, true⟩,
        [.pause], []⟩ :=
    congrArg (fun receiver => PauseLink.mk sender receiver [.pause] []) (receive_chunk room.le)
  -- the first report that is no pause has its count sent
  have first (emitted prx : List Progress) : PauseLink.step size
      ⟨sender, ⟨false, false, .top, 1, emitted, ⟨false, 1⟩ :: prx, true, true, [], some backPause, true⟩, [], []⟩
      (.pump false) = ⟨sender, reading 1 emitted prx [backResume, 1] false, [], []⟩ := by
    have sent : (decide (0 < size ∧ size ≤ 1) || (false || true)) = true := Bool.or_true _
    rw [PauseLink.step, PauseReceiver.pump]
    dsimp only
    rw [PauseReceiver.values]
    dsimp only
    rw [sent]
    rfl
  rw [opening, List.foldl_append, List.foldl_append, List.foldl_append, List.foldl_append, told,
    arrive_report fits _ _ _ _ (by rintro ⟨⟩) rfl, gone]
  show List.foldl (PauseLink.step size) ⟨sender, ⟨false, false, .top, 1, [⟨true, 0⟩, ⟨false, 1⟩, ⟨false, 1⟩, ⟨true, 1⟩],
    [⟨false, 1⟩, ⟨false, 1⟩, ⟨true, 1⟩], true, true, [], some backPause, true⟩, [], []⟩ _ = _
  simp only [quietPumps, List.replicate, List.foldl_cons, List.foldl_nil]
  rw [first, pump_reading sender room, pump_reading sender room]
  rfl

theorem bounces_run {size : ℕ} (n : ℕ) (room : 2 * n + 1 < size) : ∃ heard sent emitted,
    (bounces n).foldl (PauseLink.step size) (PauseLink.start 0) = bouncing n heard sent emitted ∧
      pauses sent = n + 1 ∧ chunks sent = 2 * n + 1 := by
  induction n with
  | zero => exact ⟨_, _, _, opened room, rfl, rfl⟩
  | succ n ih =>
    obtain ⟨heard, sent, emitted, before, paused, sent_⟩ := ih (by omega)
    have lap := (congrArg (back.foldl (PauseLink.step size)) (go_away size n heard sent emitted)).trans
      (come_back (by omega) ..)
    have start := congrArg ((away n ++ back).foldl (PauseLink.step size)) before
    have whole : (bounces (n + 1)).foldl (PauseLink.step size) (PauseLink.start 0) = _ :=
      (List.foldl_append ..).trans (start.trans ((List.foldl_append ..).trans lap))
    refine ⟨_, _, _, whole, ?_, ?_⟩
    · rw [pauses] at paused ⊢
      rw [List.count_append, List.count_append, List.count_append, List.count_append, paused]
      rfl
    · rw [chunks] at sent_ ⊢
      rw [List.countP_append, List.countP_append, List.countP_append, List.countP_append, sent_]
      rfl

theorem presses_bounces (n : ℕ) :
    (bounces n).filter (fun x => 0 < x.presses) = [.pressReceiver true, .pressReceiver false] := by
  induction n with
  | zero => rfl
  | succ n ih =>
    have none_ : (away n ++ back).filter (fun x => 0 < x.presses) = [] := by cases n <;> rfl
    rw [bounces, List.filter_append, ih, none_, List.append_nil]

def PauseStep.isBeat : PauseStep → Bool
  | .beat => true
  | _ => false

theorem calm_of_no_beat {size : ℕ} {steps : List PauseStep} (never : steps.any PauseStep.isBeat = false) (s : PauseLink) :
    Along (PauseLink.step size) PauseLink.Calm s steps := by
  induction steps generalizing s with
  | nil => trivial
  | cons x steps ih =>
    rw [List.any_cons, Bool.or_eq_false_iff] at never
    refine ⟨?_, ih never.2 _⟩
    cases x with
    | beat => cases never.1
    | _ => trivial

theorem no_beat_bounces (n : ℕ) : (bounces n).any PauseStep.isBeat = false := by
  induction n with
  | zero => rfl
  | succ n ih =>
    have none_ : (away n ++ back).any PauseStep.isBeat = false := by cases n <;> rfl
    rw [bounces, List.any_append, ih, none_, Bool.or_self]

/-- Signals never multiply: no more are under way than users have pressed, a press of the receiver's counted twice. A send
loop pauses at most once more than for every two chunks, and resumes in between. Yet one pause and one resume of the
receiver's user can bounce between the sides that often, for as long as the file lasts. -/
theorem pause_traffic :
    (∀ size offset steps, offset ≤ size → size < backResume →
      Along (PauseLink.step size) PauseLink.Calm (PauseLink.start offset) steps →
      let s := PauseLink.run size offset steps
      s.signals ≤ (steps.map PauseStep.presses).sum ∧ 2 * pauses s.sender.sent ≤ chunks s.sender.sent + 2 ∧
        pauses s.sender.sent = resumes s.sender.sent + if s.sender.signalled then 1 else 0) ∧
    ∀ n, ∃ steps, Along (PauseLink.step (2 * n + 2)) PauseLink.Calm (PauseLink.start 0) steps ∧
      steps.filter (fun x => 0 < x.presses) = [.pressReceiver true, .pressReceiver false] ∧
      let s := PauseLink.run (2 * n + 2) 0 steps
      pauses s.sender.sent = n + 1 ∧ chunks s.sender.sent = 2 * n + 1 ∧ s.signals = 2 := by
  refine ⟨fun size offset steps within small calm => ?_, fun n => ⟨bounces n, calm_of_no_beat (no_beat_bounces n) _, presses_bounces n, ?_⟩⟩
  · intro s
    have paced : Paced s.sender :=
      invariant (I := fun s : PauseLink => Paced s.sender) ⟨Nat.zero_le _, rfl⟩ (fun _ x paced => paced_step paced x) steps
    have most : s.traffic ≤ (steps.map PauseStep.presses).sum := traffic_run within small steps calm
    rw [PauseLink.traffic] at most
    have slack : s.sender.slack ≤ 2 := by
      rw [PauseSender.slack]
      split <;> decide
    exact ⟨by omega, paced.chunked.trans (Nat.add_le_add_left slack _), paced.alternating⟩
  · obtain ⟨heard, sent, emitted, run, paused, sent_⟩ := @bounces_run (2 * n + 2) n (by omega)
    intro s
    have here : s = bouncing n heard sent emitted := run
    have signals : (bouncing n heard sent emitted).signals = 2 := by cases n <;> rfl
    rw [here]
    exact ⟨paused, sent_, signals⟩

/-- A sender's user pauses, and the loop tells the receiver. -/
theorem sender_pause_told :
    let s := PauseLink.run 10 0 [.pressSender true, .signal]
    s.main = [.pause] ∧ s.signals ≤ 1 ∧ 2 * pauses s.sender.sent ≤ chunks s.sender.sent + 2 := by
  have all := pause_traffic.1 10 0 [.pressSender true, .signal] (by decide) (by decide) (by decide +kernel)
  exact ⟨rfl, all.1, all.2.1⟩

end PeerBeam.Transfer
