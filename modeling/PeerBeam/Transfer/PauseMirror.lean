import PeerBeam.Lib.Flips
import PeerBeam.Transfer.CoopPause

/-! The back-channel mirrors the receiver's pauses: every edge once, in order, and none lost among the byte counts. -/
namespace PeerBeam.Transfer
open Flips TransitionRun

/-- What the values of the back-channel say about pausing. -/
def sentinels (values : List ℕ) : List Bool := values.filterMap sentinel

def counts (values : List ℕ) : List ℕ := values.filter fun value => sentinel value = none

/-- The edges of what the receive loop reports, from not paused. -/
def edges (reports : List Progress) : List Bool := flips false (reports.map (·.paused))

theorem sentinel_backPause : sentinel backPause = some true := by decide

theorem sentinel_backResume : sentinel backResume = some false := by decide

theorem sentinel_of_lt {value : ℕ} (small : value < backResume) : sentinel value = none := by
  have order : backResume < backPause := by decide
  rw [sentinel, if_neg (by omega), if_neg (by omega)]

/-- A sentinel or a count below the sentinels fits in a report. -/
theorem lt_of_sentinel {value : ℕ} {b : Bool} (says_ : sentinel value = some b) : value < 256 ^ 8 := by
  rw [sentinel] at says_
  split at says_
  next same => rw [same]; decide
  next =>
    split at says_
    next same => rw [same]; decide
    next => cases says_

/-- The byte counts of the reports never fall, and stay within the size. -/
structure Counted (size received : ℕ) (emitted : List Progress) : Prop where
  within : received ≤ size
  below : ∀ p ∈ emitted, p.transferred ≤ received
  rising : (emitted.map (·.transferred)).Pairwise (· ≤ ·)

/-- What the pump has sent is what the mirror has taken and what it has not; it says the edges of the reports that the
pump has seen, and some of their counts. -/
def Mirrors (r : PauseReceiver) (written : List ℕ) : Prop :=
  ∃ seen taken rest, r.emitted = seen ++ r.prx ∧ r.wasPaused = final false (seen.map (·.paused)) ∧
    sentinels (taken ++ rest) = edges seen ∧ (counts (taken ++ rest)).Sublist (seen.map (·.transferred)) ∧
    r.last = taken.getLast? ∧ (r.mirroring = true → r.out = rest ∧ written = taken.destutter (· ≠ ·)) ∧
    (r.mirroring = false → r.out = [] ∧ written <+: taken.destutter (· ≠ ·))

section
variable {size : ℕ} {r : PauseReceiver} {written : List ℕ}

theorem Counted.report {received : ℕ} {emitted : List Progress} (counted : Counted size received emitted) (paused : Bool) :
    Counted size received (emitted ++ [⟨paused, received⟩]) where
  within := counted.within
  below := by
    intro p mem
    rcases List.mem_append.mp mem with old | new
    · exact counted.below p old
    · rw [List.mem_singleton.mp new]
  rising := by
    rw [List.map_append, List.pairwise_append]
    refine ⟨counted.rising, List.pairwise_singleton .., fun n mem m new => ?_⟩
    obtain ⟨p, old, rfl⟩ := List.mem_map.mp mem
    rw [List.mem_singleton.mp new]
    exact counted.below p old

theorem Mirrors.report (mirrors : Mirrors r written) (paused : Bool) : Mirrors (r.report paused) written := by
  obtain ⟨seen, taken, rest, emitted, others⟩ := mirrors
  refine ⟨seen, taken, rest, ?_, others⟩
  rw [PauseReceiver.report, emitted, List.append_assoc]

theorem edges_append (seen : List Progress) (p : Progress) :
    edges (seen ++ [p]) =
      edges seen ++ if final false (seen.map (·.paused)) = p.paused then [] else [p.paused] := by
  rw [edges, List.map_append, flips_append, List.map_singleton, flips_cons, flips_nil, flips_nil, edges]

/-- The pump sends the edge of a report. -/
theorem sentinels_values (due : Bool) {p : Progress} (small : p.transferred < backResume) :
    sentinels (r.values size due p) = if r.wasPaused = p.paused then [] else [p.paused] := by
  have count := sentinel_of_lt small
  rw [PauseReceiver.values]
  generalize (decide (0 < size ∧ size ≤ p.transferred) || due) = now
  cases p.paused <;> cases r.wasPaused <;> cases now <;>
    simp [sentinels, sentinel_backPause, sentinel_backResume, count]

theorem counts_values (due : Bool) {p : Progress} (small : p.transferred < backResume) :
    (counts (r.values size due p)).Sublist [p.transferred] := by
  have count := sentinel_of_lt small
  rw [PauseReceiver.values]
  generalize (decide (0 < size ∧ size ≤ p.transferred) || due) = now
  cases p.paused <;> cases r.wasPaused <;> cases now <;>
    simp [counts, sentinel_backPause, sentinel_backResume, count]

theorem Mirrors.pump (mirrors : Mirrors r written) (counted : Counted size r.received r.emitted) (small : size < backResume) (due : Bool) :
    Mirrors (r.pump size due) written := by
  obtain ⟨seen, taken, rest, emitted, was, marks, shown, last, on, off⟩ := mirrors
  rw [PauseReceiver.pump]
  cases waiting : r.prx with
  | nil =>
    dsimp only
    exact ⟨seen, taken, rest, emitted, was, marks, shown, last, on, off⟩
  | cons p prx =>
    have mem : p ∈ r.emitted := by
      rw [emitted, waiting]
      exact List.mem_append_right _ List.mem_cons_self
    have low : p.transferred < backResume := ((counted.below p mem).trans counted.within).trans_lt small
    refine ⟨seen ++ [p], taken, rest ++ r.values size (due || r.fresh) p, ?_, ?_, ?_, ?_, last, ?_, ?_⟩
    · dsimp only [PauseReceiver.push]
      rw [emitted, waiting, List.append_assoc, List.singleton_append]
    · dsimp only [PauseReceiver.push]
      rw [List.map_append, final_append, List.map_singleton, final_cons, final_nil]
    · rw [← List.append_assoc, sentinels, List.filterMap_append, edges_append, ← marks, ← was]
      exact congrArg _ (sentinels_values _ low)
    · rw [← List.append_assoc, counts, List.filter_append, List.map_append]
      exact shown.append (counts_values _ low)
    · intro mirroring
      obtain ⟨out, same⟩ := on mirroring
      dsimp only [PauseReceiver.push] at mirroring ⊢
      exact ⟨by rw [if_pos mirroring, out], same⟩
    · intro broken
      obtain ⟨out, same⟩ := off broken
      dsimp only [PauseReceiver.push] at broken ⊢
      rw [broken]
      exact ⟨out, same⟩

/-- No edge is lost among the values that are left out. -/
theorem Mirrors.sentinels (mirrors : Mirrors r written) : sentinels written <+: edges r.emitted := by
  obtain ⟨seen, taken, rest, emitted, -, marks, -, -, on, off⟩ := mirrors
  have upto : written <+: taken.destutter (· ≠ ·) := by
    cases mirroring : r.mirroring with
    | true => exact (on mirroring).2 ▸ List.prefix_rfl
    | false => exact (off mirroring).2
  have before : Transfer.sentinels taken <+: edges seen := by
    rw [← marks, Transfer.sentinels, Transfer.sentinels, List.filterMap_append]
    exact List.prefix_append ..
  have apart : (Transfer.sentinels taken).IsChain (· ≠ ·) :=
    List.IsChain.prefix (isChain_flips false _).tail before
  have kept := filterMap_destutter apart
  calc Transfer.sentinels written <+: Transfer.sentinels (taken.destutter (· ≠ ·)) := upto.filterMap sentinel
    _ = Transfer.sentinels taken := kept
    _ <+: edges seen := before
    _ <+: edges r.emitted := by
      rw [edges, edges, emitted, List.map_append, flips_append]
      exact List.prefix_append ..

/-- The counts among the values are counts of the reports, in their order. -/
theorem Mirrors.counts (mirrors : Mirrors r written) :
    (counts written).Sublist (r.emitted.map (·.transferred)) := by
  obtain ⟨seen, taken, rest, emitted, -, -, shown, -, on, off⟩ := mirrors
  have upto : written.Sublist taken := by
    have kept : (taken.destutter (· ≠ ·)).Sublist taken := List.destutter_sublist ..
    cases mirroring : r.mirroring with
    | true => exact (on mirroring).2 ▸ kept
    | false => exact (off mirroring).2.sublist.trans kept
  refine ((upto.trans (List.sublist_append_left taken rest)).filter _).trans (shown.trans ?_)
  rw [emitted, List.map_append]
  exact List.sublist_append_left ..

theorem lt_of_mem_rest {taken rest : List ℕ} {seen : List Progress} {value : ℕ} (mem : value ∈ taken ++ rest)
    (shown : (Transfer.counts (taken ++ rest)).Sublist (seen.map (·.transferred)))
    (low : ∀ p ∈ seen, p.transferred < backResume) : value < 256 ^ 8 := by
  cases mark : sentinel value with
  | some b => exact lt_of_sentinel mark
  | none =>
    have count : value ∈ Transfer.counts (taken ++ rest) := List.mem_filter.mpr ⟨mem, decide_eq_true mark⟩
    obtain ⟨p, seen_, rfl⟩ := List.mem_map.mp (shown.subset count)
    have fits : backResume < 256 ^ 8 := by decide
    exact (low p seen_).trans fits

/-- What the mirror task has not taken yet fits in reports. -/
theorem Mirrors.fits (mirrors : Mirrors r written) (counted : Counted size r.received r.emitted) (small : size < backResume)
    {value : ℕ} (waiting : value ∈ r.out) : value < 256 ^ 8 := by
  obtain ⟨seen, taken, rest, emitted, -, -, shown, -, on, off⟩ := mirrors
  cases mirroring : r.mirroring with
  | true =>
    rw [(on mirroring).1] at waiting
    refine lt_of_mem_rest (List.mem_append_right taken waiting) shown fun p mem => ?_
    have there : p ∈ r.emitted := emitted ▸ List.mem_append_left _ mem
    exact ((counted.below p there).trans counted.within).trans_lt small
  | false =>
    rw [(off mirroring).1] at waiting
    cases waiting

/-- The mirror task writes whole values. -/
theorem Mirrors.mirror (mirrors : Mirrors r written) (counted : Counted size r.received r.emitted) (small : size < backResume)
    (ok : Bool) :
    ∃ values, (r.mirror ok).2 = values.flatMap (BigEndian.write 8) ∧ (∀ value ∈ values, value < 256 ^ 8) ∧
      Mirrors (r.mirror ok).1 (written ++ values) := by
  have fits {value : ℕ} (waiting : value ∈ r.out) : value < 256 ^ 8 := mirrors.fits counted small waiting
  obtain ⟨seen, taken, rest, emitted, was, marks, shown, last, on, off⟩ := mirrors
  rw [PauseReceiver.mirror]
  cases waiting : r.out with
  | nil => exact ⟨[], rfl, by simp, seen, taken, rest, emitted, was, marks, shown, last, by rwa [List.append_nil], by rwa [List.append_nil]⟩
  | cons value out =>
    have mirroring : r.mirroring = true := by
      by_contra broken
      obtain ⟨none_, -⟩ := off (Bool.eq_false_iff.mpr broken)
      rw [none_] at waiting
      cases waiting
    obtain ⟨same, done⟩ := on mirroring
    have moved : taken ++ rest = (taken ++ [value]) ++ out := by
      rw [← same, waiting, List.append_assoc, List.singleton_append]
    have fits : value < 256 ^ 8 := fits (waiting ▸ List.mem_cons_self)
    rw [moved] at marks shown
    have off' {P : Prop} (broken : r.mirroring = false) : P := by
      rw [mirroring] at broken
      cases broken
    have last' : some value = (taken ++ [value]).getLast? := by rw [List.getLast?_concat]
    dsimp only
    split
    next repeated =>
      refine ⟨[], rfl, by simp, seen, taken ++ [value], out, emitted, was, marks, shown, repeated.trans last', fun _ => ⟨rfl, ?_⟩, off'⟩
      rw [List.append_nil, done, destutter_concat_same (last ▸ repeated)]
    next fresh =>
      have longer := destutter_concat_ne (last ▸ fresh)
      cases ok with
      | true =>
        refine ⟨[value], by simp, by simpa using fits, seen, taken ++ [value], out, emitted, was, marks, shown, last',
          fun _ => ⟨rfl, ?_⟩, off'⟩
        rw [done, longer]
      | false =>
        refine ⟨[], rfl, by simp, seen, taken ++ [value], out, emitted, was, marks, shown, last', fun broken => ?_,
          fun _ => ⟨rfl, ?_⟩⟩
        · cases broken
        · rw [List.append_nil, done, longer]
          exact List.prefix_append ..

end

/-- What was written and not handled is on its way, in whole reports. -/
def Hears (s : PauseLink) (written : List ℕ) : Prop :=
  ∃ values, written = s.sender.heard ++ values ∧ (∀ value ∈ values, value < 256 ^ 8) ∧
    s.sender.buf ++ s.wire = values.flatMap (BigEndian.write 8) ∧ s.sender.buf.length < 8

/-- The sender's control is as the last sentinel says, unless the user has pressed since. -/
def Follows (s : PauseSender) : Prop := s.pressed = false → s.paused = final false (sentinels s.heard)

theorem Follows.handle {s : PauseSender} (follows : Follows s) (value : ℕ) : Follows (s.handle value) := by
  rw [PauseSender.handle]
  cases mark : sentinel value with
  | some pause =>
    intro _
    dsimp only
    rw [sentinels, List.filterMap_append, final_append, List.filterMap_cons_some mark, List.filterMap_nil, final_cons, final_nil]
  | none =>
    intro unpressed
    dsimp only at unpressed ⊢
    rw [sentinels, List.filterMap_append, List.filterMap_cons_none mark, List.filterMap_nil, List.append_nil]
    exact follows unpressed

theorem heard_handle (s : PauseSender) (value : ℕ) : (s.handle value).heard = s.heard ++ [value] := by
  rw [PauseSender.handle]
  split <;> rfl

theorem buf_handle (s : PauseSender) (value : ℕ) : (s.handle value).buf = s.buf := by
  rw [PauseSender.handle]
  split <;> rfl

/-- The next byte completes a report or leaves it incomplete. -/
theorem Hears.arrive {s : PauseLink} {written : List ℕ} (hears : Hears s written) {b : UInt8} {wire : List UInt8} (next : s.wire = b :: wire) :
    Hears { s with sender := s.sender.arrive b, wire := wire } written := by
  obtain ⟨values, upto, fit, bytes, short⟩ := hears
  rw [next, ← List.singleton_append, ← List.append_assoc] at bytes
  have longer : (s.sender.buf ++ [b]).length = s.sender.buf.length + 1 := by simp
  rw [PauseSender.arrive]
  split
  next whole =>
    cases values with
    | nil =>
      have none_ := congrArg List.length bytes
      simp at none_
    | cons value values =>
      rw [List.flatMap_cons] at bytes
      obtain ⟨head, tail⟩ := List.append_inj bytes (by rw [whole, BigEndian.length_write])
      have read : BigEndian.read (s.sender.buf ++ [b]) = value := by
        rw [head, BigEndian.read_write_of_lt (fit value List.mem_cons_self)]
      have handled : written = (s.sender.heard ++ [value]) ++ values := by
        rw [upto, List.append_assoc, List.singleton_append]
      rw [read]
      refine ⟨values, ?_, fun v mem => fit v (List.mem_cons_of_mem _ mem), ?_, ?_⟩
      · dsimp only
        rw [heard_handle, handled]
      · dsimp only
        rw [buf_handle, tail, List.nil_append]
      · dsimp only
        rw [buf_handle]
        exact Nat.zero_lt_succ 7
  next partial_ =>
    refine ⟨values, upto, fit, bytes, ?_⟩
    dsimp only at partial_ ⊢
    omega

structure PauseHeld (size : ℕ) (s : PauseLink) : Prop where
  counted : Counted size s.receiver.received s.receiver.emitted
  mirrored : ∃ written, Mirrors s.receiver written ∧ Hears s written
  follows : Follows s.sender

section
variable {size : ℕ} {s : PauseLink}

/-- A step of the sender's loop or user leaves what it has heard. -/
theorem PauseHeld.sender (held : PauseHeld size s) {sender : PauseSender} {main : List MainFrame}
    (buf : sender.buf = s.sender.buf) (heard : sender.heard = s.sender.heard) (follows : Follows sender) :
    PauseHeld size { s with sender := sender, main := main } := by
  obtain ⟨counted, ⟨written, mirrors, hears⟩, -⟩ := held
  refine ⟨counted, ⟨written, mirrors, ?_⟩, follows⟩
  rw [Hears]
  dsimp only
  rwa [buf, heard]

/-- A step of the receive loop or its user may add reports. -/
theorem PauseHeld.receiver (held : PauseHeld size s) {receiver : PauseReceiver} {main : List MainFrame}
    (counted : Counted size receiver.received receiver.emitted) (mirrors : ∀ written, Mirrors s.receiver written → Mirrors receiver written) :
    PauseHeld size { s with receiver := receiver, main := main } := by
  obtain ⟨-, ⟨written, mirrors', hears⟩, follows⟩ := held
  exact ⟨counted, ⟨written, mirrors written mirrors', hears⟩, follows⟩

theorem PauseHeld.signal (held : PauseHeld size s) : PauseHeld size (s.step size .signal) := by
  rw [PauseLink.step]
  split
  · refine held.sender ?_ ?_ ?_
    all_goals rw [PauseSender.signal]; split <;> try split
    all_goals first | rfl | exact held.follows
  · exact held

theorem PauseHeld.edge (held : PauseHeld size s) : PauseHeld size (s.step size .edge) := by
  rw [PauseLink.step]
  split
  · rw [PauseReceiver.edge]
    split
    · refine held.receiver ?_ fun written mirrors => ?_
      · exact held.counted.report true
      · exact Mirrors.report (r := { s.receiver with signalled := true, phase := .waiting }) mirrors true
    · split
      · refine held.receiver ?_ fun written mirrors => ?_
        · exact held.counted.report false
        · exact Mirrors.report (r := { s.receiver with signalled := false, phase := .waiting }) mirrors false
      · exact held.receiver held.counted fun _ mirrors => mirrors
  · exact held

/-- The receive loop reports each frame that it does not end with. -/
theorem PauseHeld.receive (held : PauseHeld size s) : PauseHeld size (s.step size .receive) := by
  rw [PauseLink.step]
  split
  · cases s.main with
    | nil => exact held
    | cons frame main =>
      cases frame with
      | chunk len =>
        dsimp only [PauseReceiver.receive]
        split
        · exact held.receiver held.counted fun _ mirrors => mirrors
        next fits =>
          have longer : Counted size (s.receiver.received + len) s.receiver.emitted :=
            ⟨not_lt.mp fits, fun p mem => (held.counted.below p mem).trans (Nat.le_add_right ..), held.counted.rising⟩
          exact held.receiver (longer.report false) fun written mirrors =>
            Mirrors.report (r := { s.receiver with received := s.receiver.received + len, phase := .top }) mirrors false
      | pause =>
        exact held.receiver (held.counted.report true) fun written mirrors =>
          Mirrors.report (r := { s.receiver with phase := .top }) mirrors true
      | resume =>
        exact held.receiver (held.counted.report false) fun written mirrors =>
          Mirrors.report (r := { s.receiver with phase := .top }) mirrors false
      | complete => exact held.receiver held.counted fun _ mirrors => mirrors
      | cancel => exact held.receiver held.counted fun _ mirrors => mirrors
  · exact held

theorem PauseHeld.land (held : PauseHeld size s) (ok : Bool) : PauseHeld size (s.step size (.land ok)) := by
  rw [PauseLink.step]
  split
  · cases ok with
    | true =>
      exact held.receiver (held.counted.report false) fun written mirrors =>
        Mirrors.report (r := { s.receiver with phase := .ended }) mirrors false
    | false => exact held.receiver held.counted fun _ mirrors => mirrors
  · exact held

theorem PauseHeld.pump (held : PauseHeld size s) (small : size < backResume) (due : Bool) :
    PauseHeld size (s.step size (.pump due)) := by
  refine held.receiver ?_ fun written mirrors => mirrors.pump held.counted small due
  rw [PauseReceiver.pump]
  split
  · exact held.counted
  · exact held.counted

theorem PauseHeld.mirror (held : PauseHeld size s) (small : size < backResume) (ok : Bool) :
    PauseHeld size (s.step size (.mirror ok)) := by
  obtain ⟨counted, ⟨written, mirrors, hears⟩, follows⟩ := held
  obtain ⟨values, bytes, fit, mirrors'⟩ := mirrors.mirror counted small ok
  refine ⟨?_, ⟨written ++ values, mirrors', ?_⟩, follows⟩
  · rw [PauseLink.step, PauseReceiver.mirror]
    split
    · exact counted
    · split
      · exact counted
      · split <;> exact counted
  · obtain ⟨under, upto, fit', bytes', short⟩ := hears
    refine ⟨under ++ values, ?_, ?_, ?_, short⟩
    · rw [upto, List.append_assoc]
      rfl
    · intro value mem
      exact (List.mem_append.mp mem).elim (fit' value) (fit value)
    · rw [PauseLink.step, List.flatMap_append, ← bytes', ← bytes, List.append_assoc]

/-- The reader takes a byte. -/
theorem PauseHeld.back (held : PauseHeld size s) {sender : PauseSender} {wire : List UInt8}
    (hears : ∀ written, Hears s written → Hears { s with sender := sender, wire := wire } written)
    (follows : Follows sender) : PauseHeld size { s with sender := sender, wire := wire } := by
  obtain ⟨counted, ⟨written, mirrors, hears'⟩, -⟩ := held
  exact ⟨counted, ⟨written, mirrors, hears written hears'⟩, follows⟩

theorem PauseHeld.arrive (held : PauseHeld size s) : PauseHeld size (s.step size .arrive) := by
  rw [PauseLink.step]
  split
  · exact held
  · cases next : s.wire with
    | nil => exact held
    | cons b wire =>
      refine held.back (fun written hears => hears.arrive next) ?_
      rw [PauseSender.arrive]
      split
      · exact Follows.handle (s := { s.sender with buf := [] }) held.follows _
      · exact held.follows

theorem PauseHeld.gone (held : PauseHeld size s) :
    PauseHeld size { s with sender := { s.sender with reader := .gone } } :=
  @PauseHeld.sender _ _ held _ s.main rfl rfl held.follows

theorem PauseHeld.step (held : PauseHeld size s) (small : size < backResume) (x : PauseStep) (calm : s.Calm x) :
    PauseHeld size (s.step size x) := by
  cases x with
  | pressSender pause =>
    refine held.sender rfl rfl ?_
    intro unpressed
    cases unpressed
  | pressReceiver pause => exact @PauseHeld.receiver _ _ held _ s.main held.counted fun _ mirrors => mirrors
  | signal => exact held.signal
  | unparkSender =>
    rw [PauseLink.step]
    split
    · exact held.sender rfl rfl held.follows
    · exact held
  | sendChunk len =>
    rw [PauseLink.step]
    split
    · exact held.sender rfl rfl held.follows
    · exact held
  | complete =>
    rw [PauseLink.step]
    split
    · exact held.sender rfl rfl held.follows
    · exact held
  | stopSender told =>
    rw [PauseLink.step]
    split
    · exact held
    · exact held.sender rfl rfl held.follows
  | edge => exact held.edge
  | unparkReceiver =>
    rw [PauseLink.step]
    split
    · exact held.receiver held.counted fun _ mirrors => mirrors
    · exact held
  | receive => exact held.receive
  | land ok => exact held.land ok
  | stopReceiver => exact @PauseHeld.receiver _ _ held _ s.main held.counted fun _ mirrors => mirrors
  | pump due => exact held.pump small due
  | mirror ok => exact held.mirror small ok
  | arrive => exact held.arrive
  | beat =>
    rw [PauseLink.step]
    split
    · have empty : s.sender.buf = [] := calm
      exact held.sender empty.symm rfl held.follows
    · exact held
  | grace =>
    rw [PauseLink.step]
    split
    · exact held.gone
    · exact held
  | cut => exact held.gone

end

theorem pauseHeld_start {size offset : ℕ} (within : offset ≤ size) : PauseHeld size (PauseLink.start offset) where
  counted := by
    refine ⟨within, fun p mem => ?_, List.Pairwise.nil⟩
    cases mem
  mirrored :=
    ⟨[], ⟨[], [], [], rfl, rfl, rfl, List.Sublist.slnil, rfl, fun _ => ⟨rfl, rfl⟩, by intro broken; cases broken⟩,
      [], rfl, by simp, rfl, Nat.zero_lt_succ 7⟩
  follows := fun _ => rfl

/-- Everything on an intact back-channel that has drained was handled. -/
theorem PauseHeld.drained {size : ℕ} {s : PauseLink} (held : PauseHeld size s) (drained : s.Drained) :
    sentinels s.sender.heard = edges s.receiver.emitted := by
  obtain ⟨-, ⟨written, ⟨seen, taken, rest, emitted, -, marks, -, -, on, -⟩, hears⟩, -⟩ := held
  obtain ⟨prx, out, mirroring, wire, buf, -⟩ := drained
  obtain ⟨values, upto, -, bytes, -⟩ := hears
  obtain ⟨rest_, same⟩ := on mirroring
  have none_ : values = [] := by
    cases values with
    | nil => rfl
    | cons value values =>
      rw [buf, wire, List.flatMap_cons] at bytes
      have length := congrArg List.length bytes
      rw [@List.length_append _ (BigEndian.write 8 value), BigEndian.length_write, List.append_nil, List.length_nil] at length
      omega
  rw [out] at rest_
  rw [← rest_, List.append_nil] at marks
  have apart : (sentinels taken).IsChain (· ≠ ·) := marks ▸ (isChain_flips false _).tail
  have whole : s.sender.heard = taken.destutter (· ≠ ·) := by
    rw [← same, upto, none_, List.append_nil]
  rw [whole, emitted, prx, List.append_nil, ← marks]
  exact filterMap_destutter apart

/-- In every interleaving of the users, the loops, the pump, the mirror, the network and the reader in which no heartbeat
falls into a report: the sender handles the receiver's pause edges, in order and each once, all of them once an intact
back-channel has drained; then its control is where the receiver's reports are, unless its own user has pressed since.
The byte counts it hears are counts of the receiver that never fall. -/
theorem pauses_mirrored {size offset : ℕ} (within : offset ≤ size) (small : size < backResume) (steps : List PauseStep)
    (calm : Along (PauseLink.step size) PauseLink.Calm (PauseLink.start offset) steps) :
    let s := PauseLink.run size offset steps
    sentinels s.sender.heard <+: edges s.receiver.emitted ∧
    (false :: edges s.receiver.emitted).IsChain (· ≠ ·) ∧
    (s.Drained → sentinels s.sender.heard = edges s.receiver.emitted ∧
      (s.sender.pressed = false → s.sender.paused = final false (s.receiver.emitted.map (·.paused)))) ∧
    (counts s.sender.heard).Sublist (s.receiver.emitted.map (·.transferred)) ∧
    (counts s.sender.heard).Pairwise (· ≤ ·) ∧ ∀ n ∈ counts s.sender.heard, n ≤ s.receiver.received := by
  intro s
  have held : PauseHeld size s :=
    calm.invariant (pauseHeld_start within) fun s x held calm => held.step small x calm
  obtain ⟨written, mirrors, hears⟩ := held.mirrored
  have upto : s.sender.heard <+: written := by
    obtain ⟨values, rfl, -⟩ := hears
    exact List.prefix_append ..
  have shown : (counts s.sender.heard).Sublist (s.receiver.emitted.map (·.transferred)) :=
    (upto.sublist.filter _).trans mirrors.counts
  refine ⟨(upto.filterMap sentinel).trans mirrors.sentinels, isChain_flips .., fun drained => ?_, shown,
    held.counted.rising.sublist shown, fun n mem => ?_⟩
  · have all := held.drained drained
    refine ⟨all, fun unpressed => ?_⟩
    rw [held.follows unpressed, all, edges, final_flips]
  · obtain ⟨p, there, rfl⟩ := List.mem_map.mp (shown.subset mem)
    exact held.counted.below p there

/-- The receiver's user pauses; the mirror tells the sender. -/
theorem receiver_pause_heard :
    let s := PauseLink.run 10 0
      ([.pressReceiver true, .edge, .pump false, .mirror true] ++ List.replicate 8 .arrive)
    s.receiver.emitted = [⟨true, 0⟩] ∧ sentinels s.sender.heard = edges s.receiver.emitted ∧
      s.sender.paused = final false (s.receiver.emitted.map (·.paused)) := by
  intro s
  have all := (pauses_mirrored (Nat.zero_le 10) (by decide)
    ([.pressReceiver true, .edge, .pump false, .mirror true] ++ List.replicate 8 .arrive) (by decide +kernel)).2.2.1
    (by decide +kernel)
  exact ⟨by decide +kernel, all.1, all.2 (by decide +kernel)⟩

end PeerBeam.Transfer
