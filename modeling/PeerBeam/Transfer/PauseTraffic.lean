import PeerBeam.Transfer.PauseMirror

/-! The traffic of a cooperative pause: signals never multiply, yet one pause and resume can bounce between the sides for
as long as the file lasts. -/
namespace PeerBeam.Transfer
open Flips TransitionRun

/-- What a frame makes the receive loop report. -/
def MainFrame.status : MainFrame → List Bool
  | .pause => [true]
  | .resume | .chunk _ | .complete => [false]
  | .cancel => []

def PauseReceiver.owed (r : PauseReceiver) : List Bool := if r.phase = .landing then [false] else []

def PauseSender.owed (s : PauseSender) : List Bool := if s.phase = .sending then [false] else []

/-- A press that the receive loop has not signalled yet, twice: its edge may cut a state of the sender's in two. -/
def PauseReceiver.unsignalled (r : PauseReceiver) : ℕ := if r.paused = r.signalled then 0 else 2

/-- The whole reports in the bytes of the back-channel. -/
def reports : List UInt8 → List ℕ
  | a :: b :: c :: d :: e :: f :: g :: h :: rest => BigEndian.read [a, b, c, d, e, f, g, h] :: reports rest
  | _ => []

namespace PauseLink
variable (s : PauseLink)

/-- What the pump will see, from its next report round to the sender's control. -/
def round : List Bool :=
  s.receiver.prx.map (·.paused) ++ s.receiver.owed ++ s.main.flatMap MainFrame.status ++ s.sender.owed ++ [s.sender.paused]

def onWire : List Bool := sentinels (reports (s.sender.buf ++ s.wire))

/-- The pauses and resumes that are under way: edges on the round, and sentinels on the back-channel. -/
def signals : ℕ := (flips s.receiver.wasPaused s.round).length + (sentinels s.receiver.out).length + s.onWire.length

def traffic : ℕ := s.signals + s.receiver.unsignalled

end PauseLink

def PauseStep.presses : PauseStep → ℕ
  | .pressSender _ => 1
  | .pressReceiver _ => 2
  | _ => 0

theorem reports_append {bytes : List UInt8} (whole : bytes.length = 8) (rest : List UInt8) :
    reports (bytes ++ rest) = BigEndian.read bytes :: reports rest := by
  obtain ⟨a, b, c, d, e, f, g, h, rfl⟩ : ∃ a b c d e f g h, bytes = [a, b, c, d, e, f, g, h] := by
    rcases bytes with _ | ⟨a, _ | ⟨b, _ | ⟨c, _ | ⟨d, _ | ⟨e, _ | ⟨f, _ | ⟨g, _ | ⟨h, _ | ⟨i, rest⟩⟩⟩⟩⟩⟩⟩⟩⟩ <;>
      simp at whole ⊢
  rfl

theorem reports_flatMap {values : List ℕ} (fit : ∀ value ∈ values, value < 256 ^ 8) :
    reports (values.flatMap (BigEndian.write 8)) = values := by
  induction values with
  | nil => rfl
  | cons value values ih =>
    rw [List.flatMap_cons, reports_append (BigEndian.length_write ..),
      BigEndian.read_write_of_lt (fit value List.mem_cons_self), ih fun v mem => fit v (List.mem_cons_of_mem _ mem)]

section
variable {size : ℕ} {s : PauseLink}

/-- A step off the back-channel that leaves states of the round out. -/
theorem signals_sublist {s' : PauseLink} (pump : s'.receiver.wasPaused = s.receiver.wasPaused)
    (out : s'.receiver.out = s.receiver.out) (wire : s'.onWire = s.onWire) (round : s'.round.Sublist s.round) :
    s'.signals ≤ s.signals := by
  have fewer := length_flips_sublist s.receiver.wasPaused round
  rw [PauseLink.signals, PauseLink.signals, pump, out, wire]
  omega

/-- The send loop's edge goes round with the control it tells of. -/
theorem round_signal (top : s.sender.phase = .top) : (s.step size .signal).round =
    s.receiver.prx.map (·.paused) ++ s.receiver.owed ++ s.main.flatMap MainFrame.status ++
      (s.sender.signal.2.flatMap MainFrame.status ++ [s.sender.paused]) := by
  have same : s.sender.signal.1.paused = s.sender.paused := by
    rw [PauseSender.signal]
    split
    · rfl
    · split <;> rfl
  rw [PauseLink.step, if_pos top, PauseLink.round]
  dsimp only [PauseSender.owed]
  rw [same, if_neg (by decide), List.append_nil, List.flatMap_append]
  simp only [List.append_assoc]

theorem signals_signal : (s.step size .signal).signals ≤ s.signals := by
  by_cases top : s.sender.phase = .top
  · have before : s.round = s.receiver.prx.map (·.paused) ++ s.receiver.owed ++ s.main.flatMap MainFrame.status ++
        [s.sender.paused] := by
      rw [PauseLink.round, PauseSender.owed, if_neg (by rw [top]; decide), List.append_nil]
    have tells : s.sender.signal.2.flatMap MainFrame.status = [] ∨
        s.sender.signal.2.flatMap MainFrame.status = [s.sender.paused] := by
      rw [PauseSender.signal]
      split
      next edge =>
        rw [Bool.and_eq_true] at edge
        rw [edge.1]
        exact .inr rfl
      · split
        next edge =>
          rw [Bool.and_eq_true, Bool.not_eq_true'] at edge
          rw [edge.1]
          exact .inr rfl
        · exact .inl rfl
    have same : flips s.receiver.wasPaused (s.step size .signal).round = flips s.receiver.wasPaused s.round := by
      rw [round_signal top, before]
      rcases tells with none_ | edge
      · rw [none_, List.nil_append]
      · rw [edge, List.singleton_append, flips_repeat]
    have buf : s.sender.signal.1.buf = s.sender.buf := by
      rw [PauseSender.signal]
      split
      · rfl
      · split <;> rfl
    have rest : (s.step size .signal).receiver = s.receiver ∧ (s.step size .signal).onWire = s.onWire := by
      rw [PauseLink.step, if_pos top]
      refine ⟨rfl, ?_⟩
      rw [PauseLink.onWire, PauseLink.onWire]
      dsimp only
      rw [buf]
    rw [PauseLink.signals, PauseLink.signals, rest.1, rest.2, same]
  · rw [PauseLink.step, if_neg top]

theorem signals_pressSender (pause : Bool) : (s.step size (.pressSender pause)).signals ≤ s.signals + 1 := by
  have last := length_flips_end s.receiver.wasPaused pause s.sender.paused
    (s.receiver.prx.map (·.paused) ++ s.receiver.owed ++ s.main.flatMap MainFrame.status ++ s.sender.owed)
  rw [PauseLink.step, PauseLink.signals, PauseLink.signals, PauseLink.round, PauseLink.round, PauseLink.onWire,
    PauseLink.onWire]
  dsimp only [PauseSender.owed] at last ⊢
  omega

theorem signals_unparkSender : (s.step size .unparkSender).signals ≤ s.signals := by
  rw [PauseLink.step]
  split
  next parked =>
    have before : s.sender.owed = [] := by rw [PauseSender.owed, if_neg (by rw [parked.1]; decide)]
    rw [PauseLink.signals, PauseLink.signals, PauseLink.round, PauseLink.round, PauseLink.onWire, PauseLink.onWire, before,
      List.append_nil]
    dsimp only [PauseSender.owed]
    rw [if_pos rfl, parked.2, List.append_assoc _ [false], List.singleton_append, flips_repeat]
  · exact le_rfl

theorem round_sent (frame : MainFrame) (sender : PauseSender) (sending : s.sender.phase = .sending)
    (goes_on : frame.status = [false]) (past : sender.phase ≠ .sending) (paused : sender.paused = s.sender.paused) :
    PauseLink.round { s with sender := sender, main := s.main ++ [frame] } = s.round := by
  rw [PauseLink.round, PauseLink.round, PauseSender.owed, PauseSender.owed, if_neg past, if_pos sending]
  dsimp only
  rw [List.flatMap_append, List.flatMap_singleton, goes_on, paused, List.append_nil]
  simp only [List.append_assoc]

theorem signals_sendChunk (len : ℕ) : (s.step size (.sendChunk len)).signals ≤ s.signals := by
  rw [PauseLink.step]
  split
  next sending =>
    refine signals_sublist rfl rfl rfl ?_
    rw [round_sent (.chunk len) { s.sender with phase := .top, sent := s.sender.sent ++ [.chunk len] } sending rfl
      (by rintro ⟨⟩) rfl]
  · exact le_rfl

theorem signals_complete : (s.step size .complete).signals ≤ s.signals := by
  rw [PauseLink.step]
  split
  next sending =>
    refine signals_sublist rfl rfl rfl ?_
    rw [round_sent .complete { s.sender with phase := .ended, sent := s.sender.sent ++ [.complete] } sending rfl
      (by rintro ⟨⟩) rfl]
  · exact le_rfl

theorem signals_stopSender (told : Bool) : (s.step size (.stopSender told)).signals ≤ s.signals := by
  rw [PauseLink.step]
  split
  · exact le_rfl
  · refine signals_sublist rfl rfl rfl ?_
    have quiet : (if told = true then [MainFrame.cancel] else []).flatMap MainFrame.status = [] := by cases told <;> rfl
    rw [PauseLink.round, PauseLink.round]
    dsimp only [PauseSender.owed]
    rw [List.flatMap_append, quiet, List.append_nil, if_neg (by decide), List.append_nil]
    exact (List.sublist_append_left ..).append_right _

/-- A report goes in where the receive loop stands. -/
theorem round_report {r : PauseReceiver} {main : List MainFrame} (standing : r.owed = []) (paused : Bool) :
    PauseLink.round { s with receiver := r.report paused, main := main } =
      r.prx.map (·.paused) ++ paused :: (main.flatMap MainFrame.status ++ s.sender.owed ++ [s.sender.paused]) := by
  have same : (r.report paused).owed = r.owed := rfl
  rw [PauseLink.round]
  dsimp only
  rw [same, standing, List.append_nil, PauseReceiver.report, List.map_append, List.map_singleton]
  simp only [List.append_assoc, List.cons_append, List.nil_append]

theorem owed_of_ne {r : PauseReceiver} (phase : r.phase ≠ .landing) : r.owed = [] := by
  rw [PauseReceiver.owed, if_neg phase]

theorem round_standing (standing : s.receiver.owed = []) :
    s.round = s.receiver.prx.map (·.paused) ++ (s.main.flatMap MainFrame.status ++ s.sender.owed ++ [s.sender.paused]) := by
  rw [PauseLink.round, standing, List.append_nil]
  simp only [List.append_assoc]

/-- One report adds at most two changes. -/
theorem signals_report (standing : s.receiver.owed = []) {r : PauseReceiver} (paused : Bool) (prx : r.prx = s.receiver.prx)
    (was : r.wasPaused = s.receiver.wasPaused) (out : r.out = s.receiver.out) (quiet : r.owed = []) :
    PauseLink.signals { s with receiver := r.report paused } ≤ s.signals + 2 := by
  have longer := length_flips_insert s.receiver.wasPaused paused (s.receiver.prx.map (·.paused))
    (s.main.flatMap MainFrame.status ++ s.sender.owed ++ [s.sender.paused])
  have was' : (r.report paused).wasPaused = s.receiver.wasPaused := was
  have out' : (r.report paused).out = s.receiver.out := out
  have wire : PauseLink.onWire { s with receiver := r.report paused } = s.onWire := rfl
  rw [PauseLink.signals, PauseLink.signals, round_report quiet, round_standing standing, prx, wire]
  dsimp only
  rw [was', out']
  omega

/-- The receive loop's own edge makes up for the press. -/
theorem traffic_edge : (s.step size .edge).traffic ≤ s.traffic := by
  by_cases top : s.receiver.phase = .top
  · have standing : s.receiver.owed = [] := owed_of_ne (by rw [top]; decide)
    rw [PauseLink.step, if_pos top, PauseReceiver.edge]
    have told (r : PauseReceiver) (paused : Bool) (prx : r.prx = s.receiver.prx) (was : r.wasPaused = s.receiver.wasPaused)
        (out : r.out = s.receiver.out) (quiet : r.owed = []) (silent : (r.report paused).unsignalled = 0)
        (pending : s.receiver.paused ≠ s.receiver.signalled) :
        PauseLink.traffic { s with receiver := r.report paused } ≤ s.traffic := by
      have two : s.receiver.unsignalled = 2 := if_neg pending
      have more := signals_report standing paused prx was out quiet
      rw [PauseLink.traffic, PauseLink.traffic, two]
      dsimp only
      omega
    split
    next edge =>
      rw [Bool.and_eq_true, Bool.not_eq_true'] at edge
      exact told { s.receiver with signalled := true, phase := .waiting } true rfl rfl rfl rfl (if_pos edge.1)
        (by rw [edge.1, edge.2]; decide)
    · split
      next edge =>
        rw [Bool.and_eq_true, Bool.not_eq_true'] at edge
        exact told { s.receiver with signalled := false, phase := .waiting } false rfl rfl rfl rfl (if_pos edge.1)
          (by rw [edge.1, edge.2]; decide)
      · have same : PauseLink.round { s with receiver := { s.receiver with phase := .waiting } } = s.round := by
          rw [round_standing standing, round_standing rfl]
        rw [PauseLink.traffic, PauseLink.traffic, PauseLink.signals, PauseLink.signals, same]
        exact le_rfl
  · rw [PauseLink.step, if_neg top]

/-- A frame that is read goes on as its report. -/
theorem signals_receive : (s.step size .receive).signals ≤ s.signals := by
  rw [PauseLink.step]
  split
  next reading =>
    have standing : s.receiver.owed = [] := owed_of_ne (by rw [reading]; decide)
    cases next : s.main with
    | nil => exact le_rfl
    | cons frame main =>
      have before := round_standing standing
      rw [next, List.flatMap_cons] at before
      cases frame with
      | chunk len =>
        dsimp only [PauseReceiver.receive]
        split
        · refine signals_sublist rfl rfl rfl ?_
          rw [before, round_standing rfl]
          exact ((List.sublist_cons_self false _).append_right _).append_right _ |>.append_left _
        · refine signals_sublist rfl rfl rfl ?_
          rw [before, round_report rfl]
          exact List.Sublist.refl _
      | pause =>
        refine signals_sublist rfl rfl rfl ?_
        dsimp only [PauseReceiver.receive]
        rw [before, round_report rfl]
        exact List.Sublist.refl _
      | resume =>
        refine signals_sublist rfl rfl rfl ?_
        dsimp only [PauseReceiver.receive]
        rw [before, round_report rfl]
        exact List.Sublist.refl _
      | complete =>
        refine signals_sublist rfl rfl rfl ?_
        rw [before, PauseLink.round]
        dsimp only [PauseReceiver.receive, PauseReceiver.owed, MainFrame.status]
        rw [if_pos rfl]
        simp only [List.append_assoc]
        exact List.Sublist.refl _
      | cancel =>
        refine signals_sublist rfl rfl rfl ?_
        dsimp only [PauseReceiver.receive]
        rw [before, round_standing rfl]
        exact List.Sublist.refl _
  · exact le_rfl

theorem signals_land (ok : Bool) : (s.step size (.land ok)).signals ≤ s.signals := by
  rw [PauseLink.step]
  split
  next landing =>
    have owed : s.receiver.owed = [false] := if_pos landing
    cases ok with
    | true =>
      refine signals_sublist rfl rfl rfl ?_
      rw [if_pos rfl, round_report rfl, PauseLink.round, owed]
      simp only [List.append_assoc, List.singleton_append]
      exact List.Sublist.refl _
    | false =>
      refine signals_sublist rfl rfl rfl ?_
      rw [if_neg (by decide), round_standing rfl, PauseLink.round, owed]
      simp only [List.append_assoc, List.singleton_append]
      exact (List.sublist_cons_self ..).append_left _
  · exact le_rfl

theorem signals_stopReceiver : (s.step size .stopReceiver).signals ≤ s.signals := by
  refine signals_sublist rfl rfl rfl ?_
  rw [PauseLink.step, round_standing rfl, PauseLink.round]
  simp only [List.append_assoc]
  exact (List.sublist_append_right ..).append_left _

/-- The pump turns an edge of the round into a sentinel. -/
theorem signals_pump (held : PauseHeld size s) (small : size < backResume) (due : Bool) :
    (s.step size (.pump due)).signals ≤ s.signals := by
  rw [PauseLink.step, PauseReceiver.pump]
  cases waiting : s.receiver.prx with
  | nil => exact le_rfl
  | cons p prx =>
    have mem : p ∈ s.receiver.emitted := by
      obtain ⟨written, ⟨seen, taken, rest, emitted, -⟩, -⟩ := held.mirrored
      rw [emitted, waiting]
      exact List.mem_append_right _ List.mem_cons_self
    have low : p.transferred < backResume := ((held.counted.below p mem).trans held.counted.within).trans_lt small
    have marks : sentinels (s.receiver.values size (due || s.receiver.fresh) p) =
        if s.receiver.wasPaused = p.paused then [] else [p.paused] :=
      sentinels_values _ low
    let pushed_ := PauseReceiver.push
      { s.receiver with prx := prx, wasPaused := p.paused, fresh := s.receiver.fresh && p.paused }
      (s.receiver.values size (due || s.receiver.fresh) p)
    have owed : pushed_.owed = s.receiver.owed := rfl
    have wire : PauseLink.onWire { s with receiver := pushed_ } = s.onWire := rfl
    have pushed : (sentinels (if s.receiver.mirroring = true then s.receiver.out ++
        s.receiver.values size (due || s.receiver.fresh) p else s.receiver.out)).length ≤ (sentinels s.receiver.out).length +
          if s.receiver.wasPaused = p.paused then 0 else 1 := by
      split
      · rw [sentinels, List.filterMap_append, List.length_append]
        refine Nat.add_le_add_left (le_of_eq ?_) _
        refine (congrArg List.length marks).trans ?_
        split <;> rfl
      · exact Nat.le_add_right ..
    show PauseLink.signals { s with receiver := pushed_ } ≤ s.signals
    rw [PauseLink.signals, PauseLink.signals, PauseLink.round, PauseLink.round, wire]
    dsimp only
    rw [owed]
    dsimp only [pushed_, PauseReceiver.push]
    rw [waiting, List.map_cons, List.cons_append, List.cons_append, List.cons_append, List.cons_append, flips_cons]
    by_cases same : s.receiver.wasPaused = p.paused
    · rw [if_pos same] at pushed ⊢
      rw [same]
      omega
    · rw [if_neg same] at pushed ⊢
      rw [List.length_cons]
      omega

theorem onWire_eq {written : List ℕ} (hears : Hears s written) :
    ∃ values, written = s.sender.heard ++ values ∧ s.onWire = sentinels values ∧ (∀ value ∈ values, value < 256 ^ 8) ∧
      s.sender.buf ++ s.wire = values.flatMap (BigEndian.write 8) := by
  obtain ⟨values, upto, fit, bytes, -⟩ := hears
  exact ⟨values, upto, by rw [PauseLink.onWire, bytes, reports_flatMap fit], fit, bytes⟩

/-- The mirror task takes a sentinel to the wire, or drops it. -/
theorem signals_mirror (held : PauseHeld size s) (small : size < backResume) (ok : Bool) :
    (s.step size (.mirror ok)).signals ≤ s.signals := by
  obtain ⟨written, mirrors, hears⟩ := held.mirrored
  obtain ⟨values, -, here, fit, bytes⟩ := onWire_eq hears
  rw [PauseLink.step, PauseReceiver.mirror]
  cases waiting : s.receiver.out with
  | nil =>
    dsimp only
    rw [List.append_nil]
  | cons value out =>
    have fits : value < 256 ^ 8 := mirrors.fits held.counted small (waiting ▸ List.mem_cons_self)
    have taken : (sentinels s.receiver.out).length = (sentinels [value]).length + (sentinels out).length := by
      rw [waiting, ← List.singleton_append, sentinels, sentinels, sentinels, List.filterMap_append, List.length_append]
    dsimp only
    split
    · rw [PauseLink.signals, PauseLink.signals, taken, PauseLink.onWire, PauseLink.onWire, List.append_nil]
      exact Nat.add_le_add_right (Nat.add_le_add_left (Nat.le_add_left ..) _) _
    · cases ok with
      | true =>
        have longer : PauseLink.onWire { s with
            receiver := { s.receiver with out := out, last := some value }, wire := s.wire ++ BigEndian.write 8 value } =
            s.onWire ++ sentinels [value] := by
          have more : s.sender.buf ++ (s.wire ++ BigEndian.write 8 value) = (values ++ [value]).flatMap (BigEndian.write 8) := by
            rw [List.flatMap_append, ← bytes, List.flatMap_singleton, List.append_assoc]
          rw [PauseLink.onWire]
          dsimp only
          rw [more, reports_flatMap, here, sentinels, List.filterMap_append]
          · rfl
          · intro v mem
            rcases List.mem_append.mp mem with old | new
            · exact fit v old
            · rw [List.mem_singleton.mp new]
              exact fits
        rw [if_pos rfl, PauseLink.signals, PauseLink.signals, longer, taken, List.length_append]
        have round : PauseLink.round { s with
            receiver := { s.receiver with out := out, last := some value }, wire := s.wire ++ BigEndian.write 8 value } =
            s.round := rfl
        rw [round]
        dsimp only
        omega
      | false =>
        rw [if_neg (by decide), PauseLink.signals, PauseLink.signals, PauseLink.onWire, PauseLink.onWire, List.append_nil]
        exact Nat.add_le_add_right (Nat.add_le_add_left (Nat.zero_le _) _) _

theorem edges_handle (value : ℕ) :
    (flips s.receiver.wasPaused (PauseLink.round { s with sender := s.sender.handle value })).length ≤
      (flips s.receiver.wasPaused s.round).length + (sentinels [value]).length := by
  have owed : (s.sender.handle value).owed = s.sender.owed := by
    rw [PauseSender.handle]
    split <;> rfl
  rw [PauseLink.round, PauseLink.round]
  dsimp only
  rw [owed, PauseSender.handle]
  cases mark : sentinel value with
  | some pause =>
    rw [sentinels, List.filterMap_cons_some mark]
    exact length_flips_end ..
  | none =>
    rw [sentinels, List.filterMap_cons_none mark]
    exact le_rfl

/-- A sentinel that is handled may turn the sender's control. -/
theorem signals_arrive (held : PauseHeld size s) : (s.step size .arrive).signals ≤ s.signals := by
  obtain ⟨written, -, hears⟩ := held.mirrored
  rw [PauseLink.step]
  split
  · exact le_rfl
  · cases next : s.wire with
    | nil => exact le_rfl
    | cons b wire =>
      obtain ⟨values, upto, here, -, -⟩ := onWire_eq hears
      obtain ⟨values', upto', here', -, -⟩ := onWire_eq (hears.arrive next)
      dsimp only at upto' ⊢
      by_cases whole : (s.sender.buf ++ [b]).length = 8
      · have done : s.sender.arrive b =
            PauseSender.handle { s.sender with buf := [] } (BigEndian.read (s.sender.buf ++ [b])) := by
          rw [PauseSender.arrive]
          exact if_pos whole
        rw [done] at upto' here' ⊢
        rw [heard_handle, upto, List.append_assoc, List.singleton_append] at upto'
        have turn := edges_handle (s := { s with sender := { s.sender with buf := [] }, wire := wire })
          (BigEndian.read (s.sender.buf ++ [b]))
        have round : PauseLink.round { s with sender := { s.sender with buf := [] }, wire := wire } = s.round := rfl
        have first : (sentinels values).length =
            (sentinels [BigEndian.read (s.sender.buf ++ [b])]).length + (sentinels values').length := by
          rw [List.append_cancel_left upto', ← List.singleton_append, sentinels, sentinels, sentinels,
            List.filterMap_append, List.length_append]
        rw [round] at turn
        rw [PauseLink.signals, PauseLink.signals, here, here', first]
        dsimp only at turn ⊢
        omega
      · have more : s.sender.arrive b = { s.sender with buf := s.sender.buf ++ [b] } := by
          rw [PauseSender.arrive]
          exact if_neg whole
        rw [more] at upto' here' ⊢
        have same : values = values' := List.append_cancel_left (upto.symm.trans upto')
        rw [PauseLink.signals, PauseLink.signals, here, here', same]
        exact le_rfl

theorem traffic_of_signals {x : PauseStep} (signals : (s.step size x).signals ≤ s.signals + x.presses)
    (same : (s.step size x).receiver.unsignalled = s.receiver.unsignalled) :
    (s.step size x).traffic ≤ s.traffic + x.presses := by
  rw [PauseLink.traffic, PauseLink.traffic, same]
  omega

theorem unsignalled_receive (r : PauseReceiver) (frame : MainFrame) : (r.receive size frame).unsignalled = r.unsignalled := by
  cases frame with
  | chunk len =>
    rw [PauseReceiver.receive]
    split <;> rfl
  | pause => rfl
  | resume => rfl
  | complete => rfl
  | cancel => rfl

theorem unsignalled_pump (r : PauseReceiver) (due : Bool) : (r.pump size due).unsignalled = r.unsignalled := by
  rw [PauseReceiver.pump]
  split <;> rfl

theorem unsignalled_mirror (r : PauseReceiver) (ok : Bool) : (r.mirror ok).1.unsignalled = r.unsignalled := by
  rw [PauseReceiver.mirror]
  split
  · rfl
  · split
    · rfl
    · split <;> rfl

/-- Only a press adds to the traffic. -/
theorem traffic_step (held : PauseHeld size s) (small : size < backResume) (x : PauseStep) (calm : s.Calm x) :
    (s.step size x).traffic ≤ s.traffic + x.presses := by
  cases x with
  | pressSender pause => exact traffic_of_signals (signals_pressSender pause) rfl
  | pressReceiver pause =>
    have two : (s.step size (.pressReceiver pause)).receiver.unsignalled ≤ 2 := by
      rw [PauseReceiver.unsignalled]
      split <;> decide
    have same : (s.step size (.pressReceiver pause)).signals = s.signals := rfl
    rw [PauseLink.traffic, PauseLink.traffic, same, PauseStep.presses]
    omega
  | signal =>
    refine traffic_of_signals signals_signal ?_
    rw [PauseLink.step]
    split <;> rfl
  | unparkSender =>
    refine traffic_of_signals signals_unparkSender ?_
    rw [PauseLink.step]
    split <;> rfl
  | sendChunk len =>
    refine traffic_of_signals (signals_sendChunk len) ?_
    rw [PauseLink.step]
    split <;> rfl
  | complete =>
    refine traffic_of_signals signals_complete ?_
    rw [PauseLink.step]
    split <;> rfl
  | stopSender told =>
    refine traffic_of_signals (signals_stopSender told) ?_
    rw [PauseLink.step]
    split <;> rfl
  | edge => exact traffic_edge
  | unparkReceiver =>
    rw [PauseLink.step]
    split
    next parked =>
      have standing : s.receiver.owed = [] := owed_of_ne (by rw [parked.1]; decide)
      have same : PauseLink.round { s with receiver := { s.receiver with phase := .reading } } = s.round := by
        rw [round_standing standing, round_standing rfl]
      rw [PauseLink.traffic, PauseLink.traffic, PauseLink.signals, PauseLink.signals, same]
      exact le_rfl
    · exact Nat.le_add_right ..
  | receive =>
    refine traffic_of_signals signals_receive ?_
    rw [PauseLink.step]
    split
    · cases s.main with
      | nil => rfl
      | cons frame main => exact unsignalled_receive ..
    · rfl
  | land ok =>
    refine traffic_of_signals (signals_land ok) ?_
    rw [PauseLink.step]
    split
    · cases ok <;> rfl
    · rfl
  | stopReceiver => exact traffic_of_signals signals_stopReceiver rfl
  | pump due => exact traffic_of_signals (signals_pump held small due) (unsignalled_pump ..)
  | mirror ok => exact traffic_of_signals (signals_mirror held small ok) (unsignalled_mirror ..)
  | arrive =>
    refine traffic_of_signals (signals_arrive held) ?_
    rw [PauseLink.step]
    split
    · rfl
    · cases s.wire <;> rfl
  | beat =>
    rw [PauseLink.step]
    split
    · have empty : s.sender.buf = [] := calm
      rw [← empty]
      exact Nat.le_add_right ..
    · exact Nat.le_add_right ..
  | grace =>
    rw [PauseLink.step]
    split <;> exact Nat.le_add_right ..
  | cut => exact Nat.le_add_right ..

end

/-- As many signals are under way as there were presses, a press of the receiver's user counted twice. -/
theorem traffic_run {size offset : ℕ} (within : offset ≤ size) (small : size < backResume) (steps : List PauseStep)
    (calm : Along (PauseLink.step size) PauseLink.Calm (PauseLink.start offset) steps) :
    (PauseLink.run size offset steps).traffic ≤ (steps.map PauseStep.presses).sum := by
  induction steps using List.reverseRecOn with
  | nil => exact Nat.le_refl 0
  | append_singleton steps x ih =>
    obtain ⟨before, now, -⟩ := along_append.mp calm
    have held : PauseHeld size (steps.foldl (PauseLink.step size) (PauseLink.start offset)) :=
      before.invariant (pauseHeld_start within) fun s x held calm => held.step small x calm
    have more := traffic_step held small x now
    have run : PauseLink.run size offset (steps ++ [x]) = (PauseLink.run size offset steps).step size x := by
      rw [PauseLink.run, List.foldl_append]
      rfl
    rw [run, List.map_append, List.sum_append, List.map_singleton, List.sum_singleton]
    exact more.trans (Nat.add_le_add_right (ih before) _)

end PeerBeam.Transfer
