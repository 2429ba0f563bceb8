import PeerBeam.Session.ClosingPair

/-! A graceful close delivers: when the peer has closed because of the Shutdown, its
handlers were given every frame that was queued before it. -/
namespace PeerBeam.Session
open Actor ChannelCrypto

/-- An actor that has neither sent nor been sent anything yet. -/
structure Actor.Fresh (a : Actor) : Prop where
  running : a.phase = .running
  queue : a.queue = []
  accepted : a.accepted = []
  handled : a.handled = []
  takes : a.Takes

/-- Two pumps at work over one connection, with the same channels on both sides. -/
structure Established (w : Net) : Prop where
  active : ∀ s, (w.ends.get s).state = .active ∧ (w.ends.get s).actorEvents = [] ∧ (w.ends.get s).closed = none
  connected : w.connected = true
  control : ∀ s, w.control.get s = .empty
  channel : ∀ id p, w.channels id = some p → ∀ s, (p.actors.get s).Fresh ∧ p.wires.get s = .empty ∧
    (w.ends.get s).manager.channels.contains id = true ∧
    Mirrors (p.actors.get s).crypto (p.actors.get s.other).crypto (p.actors.get s).crypto.sendCtr

/-- The next command is no write, or a write that does not fail. -/
def ChannelPair.writes (p : ChannelPair) (d : Wiring) (connected : Bool) (s : Side) (lucky : Bool) : Bool :=
  match (p.actors.get s).queue with
  | .send frame :: rest =>
    ({ p.actors.get s with queue := rest }.writeFrame d.enc frame (p.up connected s lucky)).2.2.isNone
  | _ => true

/-- The payload fits its length word, no write of a frame fails, and nothing is
closed but the session, by the closing side. -/
def Calm (d : Wiring) (w : Net) : Move → Prop
  | .sendOnChannel _ _ _ _ payload => payload.length < 2 ^ 32
  | .closeChannel .. => False
  | .close s => s = .closer
  | .command s id lucky => (w.channels id).all (·.writes d w.connected s lucky) = true
  | _ => True

instance instDecidableCalm (d : Wiring) (w : Net) : DecidablePred (Calm d w) := by
  intro move
  induction move using Move.casesOn <;> dsimp only [Calm] <;> infer_instance

def CloserFits (e : SessionEnd) (id : ChannelId) (a : Actor) : Prop :=
  match e.state with
  | .active => a.phase = .running ∧ .close ∉ a.queue ∧ e.manager.channels.contains id = true
  | .shuttingDown => (a.phase = .running → .close ∈ a.queue) ∧ (a.phase ≠ .stopped → id ∈ e.tasks)
  | .closed => a.phase = .stopped
  | _ => False

def PeerFits (e : SessionEnd) (id : ChannelId) (b : Actor) : Prop :=
  b.phase ≠ .stopped →
    match e.state with
    | .active => b.phase = .running ∧ .drain ∉ b.queue ∧ e.manager.channels.contains id = true
    | .shuttingDown => (b.phase = .running → .drain ∈ b.queue) ∧ id ∈ e.tasks
    | _ => False

structure Fits (gcm : Aes256Gcm) (ends : Both SessionEnd) (id : ChannelId) (p : ChannelPair) : Prop where
  kept : Kept gcm p.actors.closer p.actors.peer p.wires.closer p.wires.peer
  closer : CloserFits ends.closer id p.actors.closer
  peer : PeerFits ends.peer id p.actors.peer

/-- How far the closing side has come, what its control stream carries, and whether
the peer may still have to read it. -/
def CloserStage (e : SessionEnd) (peer : SessionState) (connected : Bool) (control : Wire ControlMessage) : Prop :=
  match e.state with
  | .active => connected = true ∧ control.content = [] ∧ control.finished = false ∧ peer = .active
  | .shuttingDown => connected = true ∧ e.closing = some .local ∧
      (peer = .active → control.content = [.shutdown "local close"])
  | .closed => control.acked = true ∧ (peer = .active → control.content = [.shutdown "local close"]) ∧
      e.closed = some .local
  | _ => False

def PeerStage (e : SessionEnd) : Prop :=
  match e.state with
  | .active => e.closed = none
  | .shuttingDown => e.closed = none ∧ e.closing = some (.peer "local close")
  | .closed => e.closed = some (.peer "local close")
  | _ => False

structure Held (gcm : Aes256Gcm) (w : Net) : Prop where
  fits : ∀ id p, w.channels id = some p → Fits gcm w.ends id p
  closer : CloserStage w.ends.closer w.ends.peer.state w.connected w.control.closer
  peer : PeerStage w.ends.peer
  finished : w.control.closer.finished = true → ∀ id p, w.channels id = some p → p.actors.closer.phase = .stopped
  quiet : w.control.peer.content = [] ∧ w.control.peer.finished = false
  noEvents : w.ends.closer.actorEvents = []
  events : ∀ event ∈ w.ends.peer.actorEvents, ∃ id, event = .closed id ∧
    ∀ p, w.channels id = some p → p.actors.peer.phase = .stopped

variable {gcm : Aes256Gcm} {lostText : String} {w : Net}

theorem CloserFits.congr {e : SessionEnd} {id : ChannelId} {a a' : Actor} (h : CloserFits e id a)
    (phase : a'.phase = a.phase) (queue : .close ∈ a'.queue ↔ .close ∈ a.queue) : CloserFits e id a' := by
  unfold CloserFits at h ⊢
  rw [phase, queue]
  exact h

theorem PeerFits.congr {e : SessionEnd} {id : ChannelId} {b b' : Actor} (h : PeerFits e id b)
    (phase : b'.phase = b.phase) (queue : .drain ∈ b'.queue ↔ .drain ∈ b.queue) : PeerFits e id b' := by
  unfold PeerFits at h ⊢
  rw [phase, queue]
  exact h

theorem PeerFits.of_stopped {e : SessionEnd} {id : ChannelId} {b : Actor} (stopped : b.phase = .stopped) :
    PeerFits e id b :=
  fun running => absurd stopped running

structure Proceeds (gcm : Aes256Gcm) (ends : Both SessionEnd) (s : Side) (id : ChannelId) (p p' : ChannelPair)
    (event : Option ActorEvent) : Prop where
  fits : Fits gcm ends id p'
  closerStays : p.actors.closer.phase = .stopped → p'.actors.closer.phase = .stopped
  peerStays : p.actors.peer.phase = .stopped → p'.actors.peer.phase = .stopped
  reports : event = none ∨ s = .peer ∧ event = some (.closed id) ∧ p'.actors.peer.phase = .stopped

/-- A pair replaced and a report added: nothing else of the invariant can notice. -/
theorem Held.actorStep (h : Held gcm w) {s : Side} {id : ChannelId} {step : ChannelPair → ChannelPair × Option ActorEvent}
    (proceeds : ∀ p, w.channels id = some p → Proceeds gcm w.ends s id p (step p).1 (step p).2) :
    Held gcm (w.actorStep s id step) := by
  unfold Net.actorStep
  cases found : w.channels id with
  | none => exact h
  | some p =>
    have proceeds := proceeds p found
    rcases result : step p with ⟨p', event⟩
    rw [result] at proceeds
    obtain ⟨fits, closerStays, peerStays, reports⟩ := proceeds
    dsimp only at fits closerStays peerStays reports ⊢
    rw [result]
    have lookup (j : ChannelId) (q : ChannelPair) (there : Function.update w.channels id (some p') j = some q) :
        j = id ∧ q = p' ∨ w.channels j = some q := by
      by_cases same : j = id
      · subst same
        rw [Function.update_self] at there
        exact .inl ⟨rfl, (Option.some.inj there).symm⟩
      · rw [Function.update_of_ne same] at there
        exact .inr there
    -- an actor that had stopped is still stopped
    have peerStopped (j : ChannelId) (before : ∀ q, w.channels j = some q → q.actors.peer.phase = .stopped)
        (q : ChannelPair) (there : Function.update w.channels id (some p') j = some q) : q.actors.peer.phase = .stopped := by
      obtain ⟨rfl, rfl⟩ | old := lookup j q there
      · exact peerStays (before p found)
      · exact before q old
    refine ⟨?_, by cases s <;> exact h.closer, by cases s <;> exact h.peer, ?_, h.quiet, ?_, ?_⟩
    · intro j q there
      have before : Fits gcm w.ends j q := by
        obtain ⟨rfl, rfl⟩ | old := lookup j q there
        · exact fits
        · exact h.fits j q old
      cases s <;> exact ⟨before.kept, before.closer, before.peer⟩
    · intro ended j q there
      obtain ⟨rfl, rfl⟩ | old := lookup j q there
      · exact closerStays (h.finished ended _ _ found)
      · exact h.finished ended j q old
    · cases s with
      | peer => exact h.noEvents
      | closer =>
        rcases reports with rfl | ⟨other, -⟩
        · exact (List.append_nil _).trans h.noEvents
        · cases other
    · cases s with
      | closer =>
        intro reported mem
        obtain ⟨j, eq, stopped⟩ := h.events reported mem
        exact ⟨j, eq, peerStopped j stopped⟩
      | peer =>
        intro reported mem
        rcases List.mem_append.mp mem with earlier | new
        · obtain ⟨j, eq, stopped⟩ := h.events reported earlier
          exact ⟨j, eq, peerStopped j stopped⟩
        · rcases reports with rfl | ⟨-, rfl, stopped⟩
          · cases new
          · refine ⟨id, List.mem_singleton.mp new, ?_⟩
            intro q there
            change Function.update w.channels id (some p') id = some q at there
            rw [Function.update_self, Option.some.injEq] at there
            rw [← there]
            exact stopped

/-- As long as an actor of the closing side is at work, the connection stands. -/
theorem Held.connected (h : Held gcm w) {id : ChannelId} {p : ChannelPair} (fits : Fits gcm w.ends id p)
    (working : p.actors.closer.phase ≠ .stopped) : w.connected = true := by
  have stage := h.closer
  have closer := fits.closer
  unfold CloserStage at stage
  unfold CloserFits at closer
  cases state : w.ends.closer.state <;> rw [state] at stage closer
  case active => exact stage.1
  case shuttingDown => exact stage.1
  case closed => exact absurd closer working
  all_goals exact stage.elim

section Actors
variable {id : ChannelId} {p : ChannelPair}

/-- A step that changes nothing. -/
theorem Proceeds.same (fits : Fits gcm w.ends id p) (s : Side) : Proceeds gcm w.ends s id p p none :=
  ⟨fits, fun stopped => stopped, fun stopped => stopped, .inl rfl⟩

theorem Fits.command (fits : Fits gcm w.ends id p) {s : Side} {lucky : Bool}
    (calm : p.writes ⟨aeadCrypto gcm, lostText⟩ w.connected s lucky = true) :
    Proceeds gcm w.ends s id p (p.command ⟨aeadCrypto gcm, lostText⟩ w.connected s id lucky).1
      (p.command ⟨aeadCrypto gcm, lostText⟩ w.connected s id lucky).2 := by
  unfold ChannelPair.command
  unfold ChannelPair.writes at calm
  by_cases running : (p.actors.get s).phase = .running
  case neg => rw [if_pos running]; exact .same fits s
  rw [if_neg (not_not_intro running)]
  cases queue : (p.actors.get s).queue with
  | nil => exact .same fits s
  | cons next rest =>
    rw [queue] at calm
    cases next with
    | send frame =>
      rcases wrote : { p.actors.get s with queue := rest }.writeFrame (aeadCrypto gcm) frame
        (p.up w.connected s lucky) with ⟨a', written, failure⟩
      dsimp only at calm ⊢
      rw [wrote] at calm ⊢
      obtain rfl : failure = none := Option.isNone_iff_eq_none.mp calm
      obtain ⟨payload, counter, stats, made, advance, rfl, -, rfl⟩ := writeFrame_none wrote
      cases s with
      | closer =>
        refine ⟨⟨fits.kept.write running queue made advance stats, fits.closer.congr rfl ?_, fits.peer⟩, ?_, fun stopped => stopped,
          .inl rfl⟩
        · exact (queue ▸ by simp : ActorCommand.close ∈ rest ↔ .close ∈ p.actors.closer.queue)
        · exact fun stopped => absurd (running.symm.trans stopped) (by decide)
      | peer =>
        refine ⟨⟨fits.kept.writeBack running queue made advance stats, fits.closer, fits.peer.congr rfl ?_⟩, fun stopped => stopped,
          fun stopped => stopped, .inl rfl⟩
        exact (queue ▸ by simp : ActorCommand.drain ∈ rest ↔ .drain ∈ p.actors.peer.queue)
    | close =>
      cases s with
      | closer =>
        refine ⟨⟨fits.kept.finish queue, ?_, fits.peer⟩, ?_, fun stopped => stopped, .inl rfl⟩
        · have before := fits.closer
          unfold CloserFits at before ⊢
          cases state : w.ends.closer.state <;> rw [state] at before
          case active => exact absurd (queue ▸ List.mem_cons_self) before.2.1
          case shuttingDown =>
            refine ⟨fun flushing => ?_, fun _ => before.2 ?_⟩
            · cases flushing
            · exact fun stopped => absurd (running.symm.trans stopped) (by decide)
          case closed => exact absurd (running.symm.trans before) (by decide)
          all_goals exact before.elim
        · exact fun stopped => absurd (running.symm.trans stopped) (by decide)
      | peer =>
        have queued : Queued .drain (.close :: rest) := queue ▸ fits.kept.queues.2
        cases queued.1
    | drain =>
      cases s with
      | closer =>
        have queued : Queued .close (.drain :: rest) := queue ▸ fits.kept.queues.1
        cases queued.1
      | peer =>
        refine ⟨⟨fits.kept.drain running queue, fits.closer, ?_⟩, fun stopped => stopped, ?_, .inl rfl⟩
        · have before := fits.peer (fun stopped => absurd (running.symm.trans stopped) (by decide))
          intro _
          cases state : w.ends.peer.state <;> rw [state] at before
          case active => exact absurd (queue ▸ List.mem_cons_self) before.2.1
          case shuttingDown =>
            refine ⟨fun draining => ?_, before.2⟩
            cases draining
          all_goals exact before.elim
        · exact fun stopped => absurd (running.symm.trans stopped) (by decide)

theorem Held.inbound (correct : gcm.Correct) (h : Held gcm w) (fits : Fits gcm w.ends id p) (s : Side) :
    Proceeds gcm w.ends s id p (p.inbound ⟨aeadCrypto gcm, lostText⟩ w.connected s id).1
      (p.inbound ⟨aeadCrypto gcm, lostText⟩ w.connected s id).2 := by
  unfold ChannelPair.inbound
  by_cases idle : (p.actors.get s).phase = .flushing ∨ (p.actors.get s).phase = .stopped
  · rw [if_pos idle]
    exact .same fits s
  rw [if_neg idle]
  obtain ⟨notFlushing, working⟩ := not_or.mp idle
  cases s with
  | closer =>
    have running : p.actors.closer.phase = .running := by
      cases phase : p.actors.closer.phase
      case running => rfl
      case flushing => exact absurd phase notFlushing
      case draining => exact absurd phase fits.kept.phases.1
      case stopped => exact absurd phase working
    cases read : p.wires.peer.reading w.connected with
    | waiting =>
      simp only [Both.get, Side.other, read]
      exact .same fits .closer
    | item payload =>
      obtain ⟨a', delivered, kept, phase, queue⟩ := fits.kept.read correct running read
      simp only [Both.get, Side.other, read, delivered]
      exact ⟨⟨kept, fits.closer.congr phase (iff_of_eq (congrArg (ActorCommand.close ∈ ·) queue)), fits.peer⟩, fun stopped => phase.trans stopped,
        fun stopped => stopped, .inl rfl⟩
    | ended =>
      have stopped := fits.kept.backFinished (p.wires.peer.acked_of_finished (Wire.content_of_ended read).2)
      exact absurd stopped (fits.kept.not_stopped_of_running running)
    | broken =>
      have up := h.connected fits working
      rw [(Wire.broken_iff.mp read).2.2] at up
      cases up
  | peer =>
    cases read : p.wires.closer.reading w.connected with
    | waiting =>
      simp only [Both.get, Side.other, read]
      exact .same fits .peer
    | item payload =>
      obtain ⟨b', delivered, kept, phase, queue⟩ := fits.kept.readOn correct working read
      simp only [Both.get, Side.other, read, delivered]
      exact ⟨⟨kept, fits.closer, fits.peer.congr phase (iff_of_eq (congrArg (ActorCommand.drain ∈ ·) queue))⟩, fun stopped => stopped,
        fun stopped => phase.trans stopped, .inl rfl⟩
    | ended =>
      simp only [Both.get, Side.other, read]
      refine ⟨⟨fits.kept.readEnd read, fits.closer, .of_stopped rfl⟩, fun stopped => stopped, fun _ => rfl, ?_⟩
      by_cases draining : p.actors.peer.phase = .draining
      · exact .inl (if_pos draining)
      · exact .inr ⟨rfl, if_neg draining, rfl⟩
    | broken =>
      obtain ⟨-, unacked, down⟩ := Wire.broken_iff.mp read
      have stopped : p.actors.closer.phase = .stopped := by
        by_contra at_work
        rw [h.connected fits at_work] at down
        cases down
      rw [fits.kept.flushed stopped] at unacked
      cases unacked

theorem Held.flushed (h : Held gcm w) (fits : Fits gcm w.ends id p) (s : Side) :
    Proceeds gcm w.ends s id p (p.flushed w.connected s) none := by
  unfold ChannelPair.flushed
  by_cases returns : (p.actors.get s).phase = .flushing ∧
    ((p.wires.get s).acked || !w.connected || p.readerGone s) = true
  case neg =>
    rw [if_neg returns]
    exact .same fits s
  case pos =>
    rw [if_pos returns]
    obtain ⟨flushing, returns⟩ := returns
    cases s with
    | peer => exact absurd flushing fits.kept.phases.2
    | closer =>
      have up : w.connected = true := h.connected fits fun stopped => absurd (flushing.symm.trans stopped) (by decide)
      have acked : p.wires.closer.acked = true := by
        simp only [Both.get, up, Bool.not_true, Bool.or_false, Bool.or_eq_true, ChannelPair.readerGone] at returns
        rcases returns with acked | gone
        · exact acked
        · exact (fits.kept.readOut (of_decide_eq_true gone)).1
      refine ⟨⟨fits.kept.stop acked, ?_, fits.peer⟩, fun _ => rfl, fun stopped => stopped, .inl rfl⟩
      have before := fits.closer
      unfold CloserFits at before ⊢
      cases state : w.ends.closer.state <;> rw [state] at before
      case active => exact absurd (before.1.symm.trans flushing) (by decide)
      case shuttingDown =>
        refine ⟨fun running => ?_, fun working => absurd rfl working⟩
        cases running
      case closed => rfl
      all_goals exact before.elim

theorem Fits.carry (fits : Fits gcm w.ends id p) (s : Side) : Proceeds gcm w.ends s id p (p.carry s) none := by
  cases s with
  | closer => exact ⟨⟨fits.kept.carry, fits.closer, fits.peer⟩, fun stopped => stopped, fun stopped => stopped, .inl rfl⟩
  | peer => exact ⟨⟨fits.kept.carryBack, fits.closer, fits.peer⟩, fun stopped => stopped, fun stopped => stopped, .inl rfl⟩

end Actors

theorem Held.setPair (h : Held gcm w) (s : Side) {id : ChannelId} {p p' : ChannelPair} (found : w.channels id = some p)
    (proceeds : Proceeds gcm w.ends s id p p' none) : Held gcm (w.setPair id p') := by
  have same : w.setPair id p' = w.actorStep s id fun _ => (p', none) := by
    unfold Net.actorStep
    rw [found]
    exact (Net.settle_none ..).symm
  rw [same]
  apply h.actorStep
  intro q there
  rw [found, Option.some.injEq] at there
  rw [← there]
  exact proceeds

theorem signal_of_working {p : ChannelPair} (s : Side) (working : (p.actors.get s).phase ≠ .stopped)
    (command : ActorCommand) : p.signal s command = p.setActor s ((p.actors.get s).push command) := by
  unfold ChannelPair.signal Actor.signal
  rw [if_neg working]

theorem signal_of_stopped {p : ChannelPair} (s : Side) (stopped : (p.actors.get s).phase = .stopped)
    (command : ActorCommand) : p.signal s command = p := by
  unfold ChannelPair.signal Actor.signal
  rw [if_pos stopped]
  cases s <;> rfl

theorem Held.sendOnChannel (h : Held gcm w) {s : Side} (active : (w.ends.get s).state = .active) {id : ChannelId}
    {messageType : MessageType} {flags : MessageFlags} {payload : Bytes} (fits : payload.length < 2 ^ 32) :
    Held gcm (w.sendOnChannel s id messageType flags payload).2 := by
  unfold Net.sendOnChannel
  cases (w.ends.get s).manager.channels[id]? with
  | none => exact h
  | some ch =>
    by_cases opened : ch.state ≠ .open
    case pos => simp only [if_pos opened]; exact h
    simp only [if_neg opened]
    cases found : w.channels id with
    | none => exact h
    | some p =>
      by_cases stopped : (p.actors.get s).phase = .stopped
      case pos => simp only [if_pos stopped]; exact h
      simp only [if_neg stopped]
      apply h.setPair s found
      rw [signal_of_working s stopped]
      have before := h.fits id p found
      cases s with
      | closer =>
        have closer := before.closer
        unfold CloserFits at closer
        rw [show w.ends.closer.state = .active from active] at closer
        refine ⟨⟨before.kept.push closer.1 closer.2.1 ⟨fits, trivial⟩, before.closer.congr rfl ?_, before.peer⟩,
          fun stopped => stopped, fun stopped => stopped, .inl rfl⟩
        change ActorCommand.close ∈ p.actors.closer.queue ++ [_] ↔ _
        simp
      | peer =>
        have peer := before.peer stopped
        rw [show w.ends.peer.state = .active from active] at peer
        refine ⟨⟨before.kept.pushBack peer.2.1 ⟨fits, trivial⟩, before.closer, before.peer.congr rfl ?_⟩,
          fun stopped => stopped, fun stopped => stopped, .inl rfl⟩
        change ActorCommand.drain ∈ p.actors.peer.queue ++ [_] ↔ _
        simp

/-- What `stop_all` makes of a channel. -/
theorem stopAll_lookup {s : Side} {command : ActorCommand} {id : ChannelId} {p' : ChannelPair}
    (there : (w.stopAll s command).channels id = some p') : ∃ p, w.channels id = some p ∧
      p' = if (w.ends.get s).manager.channels.contains id then p.signal s command else p := by
  change (if _ then _ else _) = _ at there
  split at there
  case isTrue registered =>
    obtain ⟨p, found, rfl⟩ := Option.map_eq_some_iff.mp there
    exact ⟨p, found, (if_pos registered).symm⟩
  case isFalse registered => exact ⟨p', there, (if_neg registered).symm⟩

/-- Once the Shutdown is read, the closing side's control stream no longer matters. -/
theorem CloserStage.past {e : SessionEnd} {peer peer' : SessionState} {connected : Bool}
    {control control' : Wire ControlMessage} (h : CloserStage e peer connected control) (closing : e.state ≠ .active)
    (gone : peer' ≠ .active) (acked : control'.acked = control.acked) : CloserStage e peer' connected control' := by
  unfold CloserStage at h ⊢
  cases state : e.state <;> rw [state] at h
  case active => exact absurd state closing
  case shuttingDown => exact ⟨h.1, h.2.1, fun live => absurd live gone⟩
  case closed => exact ⟨acked.trans h.1, fun live => absurd live gone, h.2.2⟩
  all_goals exact h.elim

theorem Held.close (h : Held gcm w) (active : w.ends.closer.state = .active) : Held gcm (w.close .closer) := by
  have stage := h.closer
  unfold CloserStage at stage
  rw [active] at stage
  obtain ⟨up, empty, opened, peerActive⟩ := stage
  obtain ⟨written, unfinished, -⟩ := Wire.write_of_open opened (ControlMessage.shutdown "local close")
  unfold Net.close Net.beginClose
  simp only [if_pos up]
  refine ⟨?_, ⟨up, rfl, fun _ => ?_⟩, h.peer, ?_, h.quiet, h.noEvents, ?_⟩
  · intro id p' there
    obtain ⟨p, found, rfl⟩ := stopAll_lookup there
    have before := h.fits id p found
    have closer := before.closer
    unfold CloserFits at closer
    rw [active] at closer
    have running : p.actors.closer.phase ≠ .stopped := fun stopped => absurd (closer.1.symm.trans stopped) (by decide)
    change Fits gcm _ id (if w.ends.closer.manager.channels.contains id = true then _ else p)
    rw [if_pos closer.2.2, signal_of_working .closer running]
    have last : Queued .close [.close] := ⟨rfl, rfl⟩
    refine ⟨before.kept.push closer.1 closer.2.1 last, ⟨fun _ => ?_, fun _ => ?_⟩, before.peer⟩
    · exact List.mem_append_right _ List.mem_cons_self
    · exact Std.ExtTreeMap.mem_keys.mpr closer.2.2
  · exact written.trans (by rw [empty]; rfl)
  · intro finished
    exact absurd (unfinished.symm.trans finished) Bool.false_ne_true
  · intro event mem
    obtain ⟨id, eq, stopped⟩ := h.events event mem
    refine ⟨id, eq, ?_⟩
    intro p' there
    obtain ⟨p, found, rfl⟩ := stopAll_lookup there
    split <;> exact stopped p found

/-- The Shutdown is the only control message, and it is there to be read. -/
theorem Held.shutdown_waiting (h : Held gcm w) (active : w.ends.peer.state = .active) :
    w.ends.closer.state = .active ∧ w.connected = true ∧ w.control.closer.content = [] ∧
      w.control.closer.finished = false ∨
    w.control.closer.content = [.shutdown "local close"] ∧ (w.connected = true ∨ w.control.closer.acked = true) := by
  have stage := h.closer
  unfold CloserStage at stage
  cases state : w.ends.closer.state <;> rw [state] at stage
  case active => exact .inl ⟨rfl, stage.1, stage.2.1, stage.2.2.1⟩
  case shuttingDown => exact .inr ⟨stage.2.2 active, .inl stage.1⟩
  case closed => exact .inr ⟨stage.2.1 active, .inr stage.1⟩
  all_goals exact stage.elim

/-- Over a standing connection an empty open stream has nothing to read. -/
theorem reading_empty {wire : Wire ControlMessage} (empty : wire.content = []) (opened : wire.finished = false) :
    wire.reading true = .waiting := by
  have nothing : wire.arrived = [] := (List.append_eq_nil_iff.mp empty).1
  have unacked : wire.acked = false := by
    by_contra acked
    rw [wire.acked_of_finished (Bool.eq_true_of_not_eq_false acked)] at opened
    cases opened
  unfold Wire.reading
  simp only [nothing, unacked, Bool.false_eq_true, if_false, if_true]

theorem Held.readControl_closer (h : Held gcm w) (active : w.ends.closer.state = .active) :
    w.readControl .closer = w := by
  have stage := h.closer
  unfold CloserStage at stage
  rw [active] at stage
  have waits := reading_empty h.quiet.1 h.quiet.2
  unfold Net.readControl
  simp only [Both.get, Side.other, stage.1, waits]

def Net.shutdownRead (w : Net) : Net :=
  let e := { w.ends.peer with manager := w.ends.peer.manager.confirmLinkAlive }
  ({ w with control := w.control.set .closer w.control.closer.drop }.setEnd .peer e).beginClose .peer .drain
    (.peer "local close")

/-- A live peer finds nothing on the control stream, or the Shutdown. -/
theorem Held.readControl_peer (h : Held gcm w) (active : w.ends.peer.state = .active) :
    w.readControl .peer = w ∧ w.control.closer.reading w.connected = .waiting ∨
    w.readControl .peer = w.shutdownRead ∧
      w.control.closer.reading w.connected = .item (.shutdown "local close") ∧ w.ends.closer.state ≠ .active := by
  unfold Net.readControl
  rcases h.shutdown_waiting active with ⟨-, up, empty, opened⟩ | ⟨content, stands⟩
  · have waits := reading_empty empty opened
    simp only [Both.get, Side.other, up, waits]
    exact .inl ⟨trivial, trivial⟩
  cases read : w.control.closer.reading w.connected with
  | waiting =>
    simp only [Both.get, Side.other, read]
    exact .inl ⟨trivial, trivial⟩
  | ended =>
    rw [(Wire.content_of_ended read).1] at content
    cases content
  | broken =>
    obtain ⟨-, unacked, down⟩ := Wire.broken_iff.mp read
    rcases stands with up | acked
    · rw [up] at down
      cases down
    · rw [acked] at unacked
      cases unacked
  | item message =>
    obtain ⟨rfl, -⟩ := List.cons.inj ((Wire.content_of_item read).symm.trans content)
    simp only [Both.get, Side.other, read]
    refine .inr ⟨rfl, trivial, fun live => ?_⟩
    have stage := h.closer
    rw [CloserStage, live] at stage
    rw [stage.2.1] at content
    cases content

/-- The peer reads the Shutdown: every registered actor is told to drain. -/
theorem Held.shutdownRead (h : Held gcm w) (active : w.ends.peer.state = .active) (closing : w.ends.closer.state ≠ .active) :
    Held gcm w.shutdownRead := by
  have peerStage := h.peer
  rw [PeerStage, active] at peerStage
  refine ⟨?_, ?_, ⟨peerStage, rfl⟩, ?_, h.quiet, h.noEvents, ?_⟩
  · intro id p' there
    obtain ⟨p, found, rfl⟩ := stopAll_lookup there
    have before := h.fits id p found
    change Fits gcm _ id (if w.ends.peer.manager.channels.contains id = true then _ else p)
    by_cases stopped : p.actors.peer.phase = .stopped
    · rw [signal_of_stopped .peer stopped, ite_self]
      exact ⟨before.kept, before.closer, .of_stopped stopped⟩
    · have peer := before.peer stopped
      rw [active] at peer
      have last : Queued .drain [.drain] := ⟨rfl, rfl⟩
      rw [if_pos peer.2.2, signal_of_working .peer stopped]
      refine ⟨before.kept.pushBack peer.2.1 last, before.closer, fun _ => ⟨fun _ => ?_, ?_⟩⟩
      · exact List.mem_append_right _ List.mem_cons_self
      · exact Std.ExtTreeMap.mem_keys.mpr peer.2.2
  · exact h.closer.past closing (fun live => by cases live) rfl
  · intro ended id p' there
    obtain ⟨p, found, rfl⟩ := stopAll_lookup there
    split <;> exact h.finished ended id p found
  · intro event mem
    obtain ⟨id, eq, stopped⟩ := h.events event mem
    refine ⟨id, eq, ?_⟩
    intro p' there
    obtain ⟨p, found, rfl⟩ := stopAll_lookup there
    rw [signal_of_stopped .peer (stopped p found), ite_self]
    exact stopped p found

/-- A closed report unregisters its own channel and answers nothing. -/
theorem onActorEvent_closed (m : ChannelManager Unit) (id : ChannelId) :
    (m.onActorEvent (.closed id)).2 = [] ∧
    ∀ j, j ≠ id → (m.onActorEvent (.closed id)).1.channels.contains j = m.channels.contains j := by
  refine ⟨rfl, fun j other => ?_⟩
  unfold ChannelManager.onActorEvent ChannelManager.actorEnded
  dsimp only
  split
  · have parked (m : ChannelManager Unit) : (m.parkForget id).channels = m.channels := by
      unfold ChannelManager.parkForget
      split <;> rfl
    change ((m.removeChannel id).parkForget id).channels.contains j = _
    rw [parked, ChannelManager.removeChannel, Std.ExtTreeMap.contains_erase]
    have apart : (compare id j != .eq) = true := by
      rw [bne_iff_ne]
      intro same
      exact other (Std.LawfulEqCmp.eq_of_compare same).symm
    rw [apart, Bool.true_and]
  · rfl

theorem Held.actorEvent (h : Held gcm w) {s : Side} (active : (w.ends.get s).state = .active) :
    Held gcm (w.actorEvent s) := by
  unfold Net.actorEvent
  cases s with
  | closer =>
    rw [show (w.ends.get .closer).actorEvents = [] from h.noEvents]
    exact h
  | peer =>
    cases reported : (w.ends.get .peer).actorEvents with
    | nil => exact h
    | cons event rest =>
      obtain ⟨id, rfl, stopped⟩ := h.events event (reported ▸ List.mem_cons_self)
      obtain ⟨silent, others⟩ := onActorEvent_closed (w.ends.get .peer).manager id
      rcases result : (w.ends.get .peer).manager.onActorEvent (.closed id) with ⟨manager, out⟩
      rw [result] at silent others
      obtain rfl : out = [] := silent
      dsimp only at others ⊢
      rw [result]
      unfold Net.flushControl
      rw [if_pos rfl]
      refine ⟨?_, h.closer, h.peer, h.finished, h.quiet, h.noEvents, ?_⟩
      · intro j p there
        have before := h.fits j p there
        refine ⟨before.kept, before.closer, fun working => ?_⟩
        have peer := before.peer working
        rw [show w.ends.peer.state = .active from active] at peer
        have other : j ≠ id := fun same => working (stopped p (same ▸ there))
        change match w.ends.peer.state with
          | .active => p.actors.peer.phase = .running ∧ .drain ∉ p.actors.peer.queue ∧ manager.channels.contains j = true
          | .shuttingDown => (p.actors.peer.phase = .running → .drain ∈ p.actors.peer.queue) ∧ j ∈ w.ends.peer.tasks
          | _ => False
        rw [show w.ends.peer.state = .active from active]
        exact ⟨peer.1, peer.2.1, (others j other).trans peer.2.2⟩
      · intro other mem
        exact h.events other (reported ▸ List.mem_cons_of_mem _ mem)

/-- What a closing side waited for is what was still at work. -/
theorem tasksDone_iff {s : Side} : w.tasksDone s = true ↔
    ∀ id ∈ (w.ends.get s).tasks, ∀ p, w.channels id = some p → (p.actors.get s).phase = .stopped := by
  unfold Net.tasksDone
  simp only [List.all_eq_true, Option.all_eq_true, decide_eq_true_eq]

theorem Held.tasksEnded (h : Held gcm w) (s : Side) : Held gcm (w.tasksEnded s) := by
  unfold Net.tasksEnded
  by_cases waited : (w.ends.get s).state = .shuttingDown ∧ w.tasksDone s = true
  case neg => simp only [if_neg waited]; exact h
  simp only [if_pos waited]
  obtain ⟨closing, done⟩ := waited
  have done := tasksDone_iff.mp done
  cases s with
  | closer =>
    have stage := h.closer
    unfold CloserStage at stage
    rw [show w.ends.closer.state = .shuttingDown from closing] at stage
    rw [show (w.ends.get .closer).closing = some .local from stage.2.1]
    dsimp only
    refine ⟨h.fits, ?_, h.peer, ?_, h.quiet, h.noEvents, h.events⟩
    · unfold CloserStage
      rw [show w.ends.closer.state = .shuttingDown from closing]
      exact stage
    intro _ id p there
    by_contra working
    have closer := (h.fits id p there).closer
    unfold CloserFits at closer
    rw [show w.ends.closer.state = .shuttingDown from closing] at closer
    exact working (done id (closer.2 working) p there)
  | peer =>
    have stage := h.peer
    unfold PeerStage at stage
    rw [show w.ends.peer.state = .shuttingDown from closing] at stage
    obtain ⟨-, why⟩ := stage
    rw [show (w.ends.get .peer).closing = some (.peer "local close") from why]
    refine ⟨?_, ?_, rfl, h.finished, h.quiet, h.noEvents, h.events⟩
    · intro id p there
      have before := h.fits id p there
      refine ⟨before.kept, before.closer, fun working => ?_⟩
      have peer := before.peer working
      rw [show w.ends.peer.state = .shuttingDown from closing] at peer
      exact absurd (done id peer.2 p there) working
    · refine h.closer.past (fun live => ?_) (fun live => by cases live) rfl
      have closerStage := h.closer
      rw [CloserStage, live, show w.ends.peer.state = .shuttingDown from closing] at closerStage
      cases closerStage.2.2.2

theorem Held.closeConnection (h : Held gcm w) (s : Side) : Held gcm (w.closeConnection s) := by
  unfold Net.closeConnection
  by_cases closes : (w.ends.get s).state = .shuttingDown ∧ (w.ends.get s).closing = some .local ∧
    (w.control.get s).finished = true ∧ ((w.control.get s).acked || !w.connected) = true
  case neg => simp only [if_neg closes]; exact h
  simp only [if_pos closes]
  obtain ⟨closing, why, finished, acked⟩ := closes
  cases s with
  | peer =>
    have stage := h.peer
    unfold PeerStage at stage
    rw [show w.ends.peer.state = .shuttingDown from closing] at stage
    obtain ⟨-, told⟩ := stage
    rw [show w.ends.peer.closing = some .local from why] at told
    cases told
  | closer =>
    have stage := h.closer
    unfold CloserStage at stage
    rw [show w.ends.closer.state = .shuttingDown from closing] at stage
    have acked : w.control.closer.acked = true := by
      simpa only [Both.get, stage.1, Bool.not_true, Bool.or_false] using acked
    have same := Wire.content_cut acked
    have stopped := h.finished finished
    have lookup (id : ChannelId) (p' : ChannelPair) (there : w.disconnect.channels id = some p') :
        ∃ p, w.channels id = some p ∧ p.cut = p' := Option.map_eq_some_iff.mp there
    refine ⟨?_, ⟨acked, fun live => same.trans (stage.2.2 live), rfl⟩, h.peer, ?_, ⟨?_, h.quiet.2⟩, h.noEvents, ?_⟩
    · intro id p' there
      obtain ⟨p, found, rfl⟩ := lookup id p' there
      exact ⟨(h.fits id p found).kept.cut (stopped id p found), stopped id p found, (h.fits id p found).peer⟩
    · intro _ id p' there
      obtain ⟨p, found, rfl⟩ := lookup id p' there
      exact stopped id p found
    · change w.control.peer.arrived ++ [] = []
      rw [(List.append_eq_nil_iff.mp h.quiet.1).1]
      rfl
    · intro event mem
      obtain ⟨id, eq, ended⟩ := h.events event mem
      refine ⟨id, eq, ?_⟩
      intro p' there
      obtain ⟨p, found, rfl⟩ := lookup id p' there
      exact ended p found

theorem Held.carryControl (h : Held gcm w) (s : Side) :
    Held gcm { w with control := w.control.set s (w.control.get s).deliver } := by
  cases s with
  | peer =>
    refine ⟨h.fits, h.closer, h.peer, h.finished, ⟨?_, ?_⟩, h.noEvents, h.events⟩
    · exact Wire.content_deliver.trans h.quiet.1
    · exact Wire.finished_deliver.trans h.quiet.2
  | closer =>
    refine ⟨h.fits, ?_, h.peer, ?_, h.quiet, h.noEvents, h.events⟩
    · have stage := h.closer
      unfold CloserStage at stage ⊢
      cases state : w.ends.closer.state <;> rw [state] at stage
      case active =>
        exact ⟨stage.1, Wire.content_deliver.trans stage.2.1, Wire.finished_deliver.trans stage.2.2.1, stage.2.2.2⟩
      case shuttingDown => exact ⟨stage.1, stage.2.1, fun live => Wire.content_deliver.trans (stage.2.2 live)⟩
      case closed =>
        exact ⟨Wire.acked_deliver stage.1, fun live => Wire.content_deliver.trans (stage.2.1 live), stage.2.2⟩
      all_goals exact stage.elim
    · exact fun finished => h.finished (Wire.finished_deliver.symm.trans finished)

/-- A pump turn, which a session that is not live does not take. -/
theorem Held.live {w' : Net} {c : Prop} [Decidable c] (h : Held gcm w) (turn : c → Held gcm w') :
    Held gcm (if c then w' else w) := by
  by_cases live : c
  · rw [if_pos live]
    exact turn live
  · rw [if_neg live]
    exact h

/-- Every step of a calm run keeps the invariant. -/
theorem Held.step (correct : gcm.Correct) (h : Held gcm w) {move : Move}
    (calm : Calm ⟨aeadCrypto gcm, lostText⟩ w move) : Held gcm (w.step ⟨aeadCrypto gcm, lostText⟩ move) := by
  cases move with
  | sendOnChannel s id messageType flags payload => exact h.live fun active => h.sendOnChannel active calm
  | closeChannel s id => exact calm.elim
  | close s =>
    obtain rfl : s = .closer := calm
    exact h.live fun active => h.close active
  | readControl s =>
    refine h.live fun active => ?_
    cases s with
    | closer =>
      rw [h.readControl_closer active]
      exact h
    | peer =>
      rcases h.readControl_peer active with ⟨same, -⟩ | ⟨read, -, closing⟩
      · rw [same]
        exact h
      · rw [read]
        exact h.shutdownRead active closing
  | actorEvent s => exact h.live fun active => h.actorEvent active
  | tasksEnded s => exact h.tasksEnded s
  | closeConnection s => exact h.closeConnection s
  | command s id lucky =>
    apply h.actorStep
    intro p found
    apply (h.fits id p found).command
    have calm : (w.channels id).all (·.writes ⟨aeadCrypto gcm, lostText⟩ w.connected s lucky) = true := calm
    rw [found] at calm
    exact calm
  | inbound s id =>
    apply h.actorStep
    intro p found
    exact h.inbound correct (h.fits id p found) s
  | flushed s id =>
    change Held gcm (w.actorStep s id fun p => (p.flushed w.connected s, none))
    apply h.actorStep
    intro p found
    exact h.flushed (h.fits id p found) s
  | carry s id =>
    change Held gcm (w.actorStep s id fun p => (p.carry s, none))
    apply h.actorStep
    intro p found
    exact (h.fits id p found).carry s
  | carryControl s => exact h.carryControl s

/-- An established session meets the invariant. -/
theorem Established.held (est : Established w) : Held gcm w := by
  refine ⟨?_, ?_, ?_, ?_, ?_, (est.active .closer).2.1, ?_⟩
  · intro id p found
    obtain ⟨freshA, outA, registeredA, mirrorA⟩ := est.channel id p found .closer
    obtain ⟨freshB, outB, registeredB, mirrorB⟩ := est.channel id p found .peer
    have out : p.wires.closer = .empty := outA
    have back : p.wires.peer = .empty := outB
    have queueA : p.actors.closer.queue = [] := freshA.queue
    have queueB : p.actors.peer.queue = [] := freshB.queue
    have runA : p.actors.closer.phase = .running := freshA.running
    have runB : p.actors.peer.phase = .running := freshB.running
    refine ⟨?_, ?_, ?_⟩
    · rw [out, back]
      refine ⟨⟨[], [], ⟨⟨mirrorA.key, mirrorA.noncePrefix, rfl⟩, ?_⟩, ?_, ?_⟩, fun _ => ⟨[], ⟨mirrorB.key, mirrorB.noncePrefix, rfl⟩, ?_⟩,
        ?_, ?_, fun _ => rfl, ?_, ?_, ?_, ?_, freshA.takes, freshB.takes⟩
      · exact mirrorA.ctr.symm ▸ Carries.nil _
      · rw [show p.actors.peer.handled = [] from freshB.handled, dispatched]
        split <;> rfl
      · rw [show p.actors.closer.accepted = [] from freshA.accepted, queueA]
        rfl
      · exact mirrorB.ctr.symm ▸ Carries.nil _
      · rw [queueA, queueB]
        exact ⟨trivial, trivial⟩
      · rw [runA, runB]
        exact ⟨by decide, by decide⟩
      · exact fun stopped => absurd runA stopped
      · exact fun stopped => absurd (runA.symm.trans stopped) (by decide)
      · intro finished
        cases finished
      · exact fun stopped => absurd (runB.symm.trans stopped) (by decide)
    · unfold CloserFits
      rw [show w.ends.closer.state = .active from (est.active .closer).1, queueA]
      exact ⟨runA, List.not_mem_nil, registeredA⟩
    · intro _
      rw [show w.ends.peer.state = .active from (est.active .peer).1, queueB]
      exact ⟨runB, List.not_mem_nil, registeredB⟩
  · unfold CloserStage
    rw [show w.ends.closer.state = .active from (est.active .closer).1, show w.control.closer = .empty from est.control .closer]
    exact ⟨est.connected, rfl, rfl, (est.active .peer).1⟩
  · unfold PeerStage
    rw [show w.ends.peer.state = .active from (est.active .peer).1]
    exact (est.active .peer).2.2
  · rw [show w.control.closer = .empty from est.control .closer]
    intro finished
    cases finished
  · rw [show w.control.peer = .empty from est.control .peer]
    exact ⟨rfl, rfl⟩
  · rw [show w.ends.peer.actorEvents = [] from (est.active .peer).2.1]
    intro event mem
    cases mem

/-- When the peer has closed because of the Shutdown, its handlers were given, in
order and once, every frame the closing side had accepted before it. -/
theorem graceful_close_delivers (correct : gcm.Correct) (est : Established w) (moves : List Move)
    (calm : TransitionRun.Along (Net.step ⟨aeadCrypto gcm, lostText⟩) (Calm ⟨aeadCrypto gcm, lostText⟩) w moves)
    (ended : (moves.foldl (Net.step ⟨aeadCrypto gcm, lostText⟩) w).ends.peer.closed ≠ none) (id : ChannelId)
    (p : ChannelPair) (there : (moves.foldl (Net.step ⟨aeadCrypto gcm, lostText⟩) w).channels id = some p) :
    p.actors.peer.handled = dispatched p.actors.peer.handler p.actors.closer.accepted := by
  have held := calm.invariant est.held fun _ _ h ok => h.step correct ok
  have stage := held.peer
  have fits := held.fits id p there
  apply fits.kept.all_handled
  by_contra working
  have peer := fits.peer working
  unfold PeerStage at stage
  cases state : (moves.foldl (Net.step ⟨aeadCrypto gcm, lostText⟩) w).ends.peer.state <;> rw [state] at stage peer
  case active => exact ended stage
  case shuttingDown => exact ended stage.1
  all_goals exact peer.elim

/-! A word queued just before the close, over an encryption that hides nothing. -/

def clearGcm : Aes256Gcm where
  encrypt _ _ plaintext := some plaintext
  decrypt _ _ ciphertext := some ciphertext

theorem clearGcm_correct : clearGcm.Correct := fun _ _ _ _ h => congrArg some (Option.some.inj h).symm

def clearChannel : ChannelCrypto := .fromKeys (.replicate 32 0) (.replicate 32 0) (.replicate 4 0) (.replicate 4 0)

def clearSession : SessionCrypto := ⟨.replicate 32 0, .replicate 32 0, .initiator, 0⟩

def oneChannel : SessionEnd where
  state := .active
  manager := (ChannelManager.new clearSession ⟨1, 0⟩ .initiator (fun _ => true) 256 []).insertChannel 1 ⟨4, .open⟩
  actorEvents := []
  closing := none
  tasks := []
  closed := none

def listener : Actor := .new (some fun _ => .ok ()) clearChannel

def talking : Net where
  ends := ⟨oneChannel, oneChannel⟩
  channels := fun id => if id = 1 then some ⟨⟨listener, listener⟩, ⟨.empty, .empty⟩⟩ else none
  control := ⟨.empty, .empty⟩
  connected := true

theorem talking_established : Established talking := by
  refine ⟨?_, rfl, ?_, ?_⟩
  · intro s
    cases s <;> exact ⟨rfl, rfl, rfl⟩
  · intro s
    cases s <;> rfl
  · intro id p there s
    change (if id = 1 then _ else _) = some p at there
    by_cases one : id = 1
    · subst one
      rw [if_pos rfl, Option.some.injEq] at there
      subst there
      have registered : oneChannel.manager.channels.contains 1 = true := Std.ExtTreeMap.contains_insert_self
      have fresh : listener.Fresh := ⟨rfl, rfl, rfl, rfl, fun handle h f => by cases h; rfl⟩
      have mirrors : Mirrors listener.crypto listener.crypto listener.crypto.sendCtr := ⟨rfl, rfl, rfl⟩
      cases s <;> exact ⟨fresh, rfl, registered, mirrors⟩
    · rw [if_neg one] at there
      cases there

def lastWord : List Move :=
  [.sendOnChannel .closer 1 7 .none [104, 105], .close .closer, .command .closer 1 false, .command .closer 1 false,
    .carry .closer 1, .carry .closer 1, .flushed .closer 1, .tasksEnded .closer, .carryControl .closer, .readControl .peer,
    .command .peer 1 false, .inbound .peer 1, .inbound .peer 1, .tasksEnded .peer]

abbrev clear : Wiring := ⟨aeadCrypto clearGcm, "connection lost"⟩

/-- A frame queued right before the close is handled before the peer has closed. -/
theorem graceful_close_delivers_last_word : ∃ p,
    (lastWord.foldl (Net.step clear) talking).channels 1 = some p ∧ p.actors.closer.accepted.length = 1 ∧
    p.actors.peer.handled = dispatched p.actors.peer.handler p.actors.closer.accepted := by
  have calm : TransitionRun.Along (Net.step clear) (Calm clear) talking lastWord := by decide +kernel
  have ended : (lastWord.foldl (Net.step clear) talking).ends.peer.closed ≠ none := by decide +kernel
  have accepted : ((lastWord.foldl (Net.step clear) talking).channels 1).map (·.actors.closer.accepted.length) = some 1 := by
    decide +kernel
  obtain ⟨p, there, one⟩ := Option.map_eq_some_iff.mp accepted
  exact ⟨p, there, one, graceful_close_delivers clearGcm_correct talking_established lastWord calm ended 1 p there⟩

end PeerBeam.Session
