import PeerBeam.Session.CloseDelivery

/-! A graceful close comes to an end: the steps left to both sides are bounded, and
where nothing is left to do both sessions have closed. -/
namespace PeerBeam.Session
open Actor ChannelCrypto

/-- What the two sides and the network do by themselves, once nothing more is asked. -/
def Move.internal : Move → Bool
  | sendOnChannel .. | closeChannel .. | close _ => false
  | _ => true

def ActorPhase.left : ActorPhase → ℕ
  | running => 4
  | flushing | draining => 2
  | stopped => 0

/-- A queued frame has to be written, delivered and read. -/
def Actor.left (a : Actor) : ℕ := 3 * a.queue.length + a.phase.left

def ChannelPair.left (p : ChannelPair) : ℕ :=
  p.actors.closer.left + p.actors.peer.left + p.wires.closer.left + p.wires.peer.left

def Lowers (p : ChannelPair) (result : ChannelPair × Option ActorEvent) : Prop :=
  result.1.left + result.2.toList.length < p.left

theorem Lowers.silent {p p' : ChannelPair} (h : p'.left < p.left) : Lowers p (p', none) := h

theorem Lowers.reports {p p' : ChannelPair} {event : Option ActorEvent} (h : p'.left + 1 < p.left) : Lowers p (p', event) := by
  have one : event.toList.length ≤ 1 := by
    cases event with
    | none => exact Nat.zero_le 1
    | some event => exact Nat.le_refl 1
  exact Nat.lt_of_le_of_lt (Nat.add_le_add_left one p'.left) h

section Pairs
variable {d : Wiring} {connected : Bool} {p : ChannelPair} {s : Side} {id : ChannelId}

theorem left_setActor (p : ChannelPair) (s : Side) (a : Actor) :
    (p.setActor s a).left + (p.actors.get s).left = p.left + a.left := by
  cases s <;> simp only [ChannelPair.left, ChannelPair.setActor, Both.set, Both.get] <;> omega

theorem left_setWire (p : ChannelPair) (s : Side) (wire : Wire Bytes) :
    (p.setWire s wire).left + (p.wires.get s).left = p.left + wire.left := by
  cases s <;> simp only [ChannelPair.left, ChannelPair.setWire, Both.set, Both.get] <;> omega

/-- A stopped actor has its queue left, and a finished stream what it had. -/
theorem left_stopActor (p : ChannelPair) (s : Side) (a : Actor) :
    (p.stopActor s a).left + (p.actors.get s).left = p.left + 3 * a.queue.length := by
  have actor := left_setActor (p.setWire s (p.wires.get s).finish) s a.stop
  have wire := left_setWire p s (p.wires.get s).finish
  rw [Wire.left_finish] at wire
  change (p.stopActor s a).left + (p.actors.get s).left = _ + (3 * a.queue.length + 0) at actor
  omega

theorem writeFrame_left (a : Actor) (enc : EncryptionProvider) (frame : SessionFrame) (up : Bool) :
    (a.writeFrame enc frame up).1.left = a.left ∧ (a.writeFrame enc frame up).1.queue = a.queue ∧
      ∀ wire : Wire Bytes, ((a.writeFrame enc frame up).2.1.foldl Wire.write wire).left ≤ wire.left + 2 := by
  unfold writeFrame
  split
  · exact ⟨rfl, rfl, fun wire => Nat.le_add_right ..⟩
  · split
    · exact ⟨rfl, rfl, fun wire => Nat.le_add_right ..⟩
    · split
      · exact ⟨rfl, rfl, fun wire => wire.left_write_le _⟩
      · exact ⟨rfl, rfl, fun wire => wire.left_write_le _⟩

theorem deliver_left (a : Actor) (enc : EncryptionProvider) (payload : Bytes) :
    (a.deliver enc payload).1.left = a.left ∧ (a.deliver enc payload).1.queue = a.queue := by
  unfold deliver
  dsimp only
  repeat' split
  all_goals exact ⟨rfl, rfl⟩

theorem command_lowers (lucky : Bool) (running : (p.actors.get s).phase = .running)
    (waiting : (p.actors.get s).queue ≠ []) : Lowers p (p.command d connected s id lucky) := by
  unfold ChannelPair.command
  rw [if_neg (not_not_intro running)]
  cases queue : (p.actors.get s).queue with
  | nil => exact absurd queue waiting
  | cons next rest =>
    have before : (p.actors.get s).left = 3 * (rest.length + 1) + 4 := by
      rw [Actor.left, queue, running]
      rfl
    cases next with
    | send frame =>
      obtain ⟨same, sameQueue, written⟩ :=
        writeFrame_left { p.actors.get s with queue := rest } d.enc frame (p.up connected s lucky)
      rcases result : { p.actors.get s with queue := rest }.writeFrame d.enc frame (p.up connected s lucky) with
        ⟨a', bytes, failure⟩
      rw [result] at same sameQueue written
      dsimp only at same sameQueue written ⊢
      rw [result]
      have after : a'.left = 3 * rest.length + 4 := same.trans (by rw [Actor.left, running]; rfl)
      have wire := left_setWire p s (bytes.foldl Wire.write (p.wires.get s))
      have bound := written (p.wires.get s)
      have sameActor : (p.setWire s (bytes.foldl Wire.write (p.wires.get s))).actors = p.actors := rfl
      cases failure with
      | none =>
        have actor := left_setActor (p.setWire s (bytes.foldl Wire.write (p.wires.get s))) s a'
        rw [sameActor] at actor
        apply Lowers.silent
        dsimp only
        omega
      | some detail =>
        have actor := left_stopActor (p.setWire s (bytes.foldl Wire.write (p.wires.get s))) s a'
        rw [sameActor, sameQueue] at actor
        apply Lowers.reports
        dsimp only
        omega
    | close =>
      have wire := left_setWire p s (p.wires.get s).finish
      rw [Wire.left_finish] at wire
      have actor := left_setActor (p.setWire s (p.wires.get s).finish) s
        { p.actors.get s with queue := rest, phase := .flushing }
      change _ + (p.actors.get s).left = _ + (3 * rest.length + 2) at actor
      apply Lowers.silent
      dsimp only at actor ⊢
      omega
    | drain =>
      have actor := left_setActor p s { p.actors.get s with queue := rest, phase := .draining }
      change _ = _ + (3 * rest.length + 2) at actor
      apply Lowers.silent
      dsimp only at actor ⊢
      omega

theorem command_same (lucky : Bool) (idle : (p.actors.get s).phase ≠ .running ∨ (p.actors.get s).queue = []) :
    p.command d connected s id lucky = (p, none) := by
  unfold ChannelPair.command
  by_cases running : (p.actors.get s).phase = .running
  · rw [if_neg (not_not_intro running), idle.resolve_left (not_not_intro running)]
  · exact if_pos running

theorem inbound_lowers (working : ¬((p.actors.get s).phase = .flushing ∨ (p.actors.get s).phase = .stopped))
    (ready : (p.wires.get s.other).reading connected ≠ .waiting) : Lowers p (p.inbound d connected s id) := by
  unfold ChannelPair.inbound
  rw [if_neg working]
  have before : 3 * (p.actors.get s).queue.length + 2 ≤ (p.actors.get s).left := by
    unfold Actor.left ActorPhase.left
    cases phase : (p.actors.get s).phase <;> simp_all
  have stop := left_stopActor p s (p.actors.get s)
  cases read : (p.wires.get s.other).reading connected with
  | waiting => exact absurd read ready
  | ended =>
    apply Lowers.reports
    omega
  | broken =>
    apply Lowers.reports
    omega
  | item payload =>
    obtain ⟨same, sameQueue⟩ := deliver_left (p.actors.get s) d.enc payload
    rcases result : (p.actors.get s).deliver d.enc payload with ⟨a', failure⟩
    rw [result] at same sameQueue
    dsimp only at same sameQueue ⊢
    rw [result]
    have wire := left_setWire p s.other (p.wires.get s.other).drop
    have fewer := Wire.left_drop_lt read
    have sameActor : (p.setWire s.other (p.wires.get s.other).drop).actors = p.actors := rfl
    cases failure with
    | none =>
      have actor := left_setActor (p.setWire s.other (p.wires.get s.other).drop) s a'
      rw [sameActor] at actor
      apply Lowers.silent
      dsimp only
      omega
    | some detail =>
      have actor := left_stopActor (p.setWire s.other (p.wires.get s.other).drop) s a'
      rw [sameActor, sameQueue] at actor
      apply Lowers.reports
      dsimp only
      omega

theorem inbound_same (idle : ((p.actors.get s).phase = .flushing ∨ (p.actors.get s).phase = .stopped) ∨
    (p.wires.get s.other).reading connected = .waiting) : p.inbound d connected s id = (p, none) := by
  unfold ChannelPair.inbound
  by_cases stopped : (p.actors.get s).phase = .flushing ∨ (p.actors.get s).phase = .stopped
  · exact if_pos stopped
  · rw [if_neg stopped, idle.resolve_left stopped]

theorem flushed_lowers (returns : (p.actors.get s).phase = .flushing ∧
    ((p.wires.get s).acked || !connected || p.readerGone s) = true) : Lowers p (p.flushed connected s, none) := by
  have before : (p.actors.get s).left = 3 * (p.actors.get s).queue.length + 2 := by
    rw [Actor.left, returns.1]
    rfl
  have stop := left_stopActor p s (p.actors.get s)
  unfold ChannelPair.flushed
  rw [if_pos returns]
  apply Lowers.silent
  omega

theorem carry_lowers (moves : (p.wires.get s).deliver ≠ p.wires.get s) : Lowers p (p.carry s, none) := by
  have fewer := (p.wires.get s).deliver_eq_or_left.resolve_left moves
  have wire := left_setWire p s (p.wires.get s).deliver
  apply Lowers.silent
  unfold ChannelPair.carry
  omega

theorem carry_same (still : (p.wires.get s).deliver = p.wires.get s) : p.carry s = p := by
  unfold ChannelPair.carry
  rw [still]
  cases s <;> rfl

end Pairs

def stateLeft : SessionState → ℕ
  | .active => 2
  | .shuttingDown => 1
  | _ => 0

/-- A live peer has yet to queue a `Drain` on each of its channels. -/
def channelLeft (peer : SessionState) (p : Option ChannelPair) : ℕ :=
  p.elim 0 fun p => p.left + if peer = .active then 3 else 0

namespace Net

def channelsLeft (w : Net) : ℕ := ∑ id : ChannelId, channelLeft w.ends.peer.state (w.channels id)

def eventsLeft (w : Net) : ℕ := w.ends.closer.actorEvents.length + w.ends.peer.actorEvents.length

def controlLeft (w : Net) : ℕ := w.control.closer.left + w.control.peer.left + (!w.control.closer.finished).toNat

def statesLeft (w : Net) : ℕ := stateLeft w.ends.closer.state + stateLeft w.ends.peer.state

def left (w : Net) : ℕ := w.channelsLeft + w.eventsLeft + w.controlLeft + w.statesLeft

end Net

/-- A sum in which one term falls by more than `k`. -/
theorem sum_add_lt {ι : Type} [Fintype ι] [DecidableEq ι] {f g : ι → ℕ} {i : ι} {k : ℕ} (here : g i + k < f i)
    (others : ∀ j, j ≠ i → g j ≤ f j) : ∑ j, g j + k < ∑ j, f j := by
  rw [← Finset.add_sum_erase _ g (Finset.mem_univ i), ← Finset.add_sum_erase _ f (Finset.mem_univ i)]
  have rest : ∑ j ∈ Finset.univ.erase i, g j ≤ ∑ j ∈ Finset.univ.erase i, f j :=
    Finset.sum_le_sum fun j mem => others j (Finset.ne_of_mem_erase mem)
  omega

section Steps
variable {gcm : Aes256Gcm} {lostText : String} {w : Net}

/-- A step that leaves one actor less to do leaves the whole less to do. -/
theorem settle_left {s : Side} {id : ChannelId} {p : ChannelPair} (found : w.channels id = some p)
    {result : ChannelPair × Option ActorEvent} (fewer : Lowers p result) : (w.settle s id result).left < w.left := by
  obtain ⟨p', event⟩ := result
  have fewer : p'.left + event.toList.length < p.left := fewer
  have state : (w.settle s id (p', event)).ends.peer.state = w.ends.peer.state := by
    cases s <;> rfl
  have channels : (w.settle s id (p', event)).channelsLeft + event.toList.length < w.channelsLeft := by
    rw [Net.channelsLeft, state]
    refine sum_add_lt (i := id) ?_ ?_
    · change channelLeft _ (Function.update w.channels id (some p') id) + _ < _
      rw [Function.update_self, found]
      change p'.left + _ + _ < p.left + _
      omega
    · intro j other
      change channelLeft _ (Function.update w.channels id (some p') j) ≤ _
      rw [Function.update_of_ne other]
  have events : (w.settle s id (p', event)).eventsLeft = w.eventsLeft + event.toList.length := by
    cases s
    · change (w.ends.closer.actorEvents ++ event.toList).length + w.ends.peer.actorEvents.length = _
      rw [List.length_append, Net.eventsLeft]
      omega
    · change w.ends.closer.actorEvents.length + (w.ends.peer.actorEvents ++ event.toList).length = _
      rw [List.length_append, Net.eventsLeft]
      omega
  have control : (w.settle s id (p', event)).controlLeft = w.controlLeft := rfl
  have states : (w.settle s id (p', event)).statesLeft = w.statesLeft := by
    cases s <;> rfl
  rw [Net.left, Net.left, events, control, states]
  omega

/-- A step of one actor that changes nothing, or leaves less to do. -/
theorem actorStep_left {s : Side} {id : ChannelId} {step : ChannelPair → ChannelPair × Option ActorEvent}
    (lowers : ∀ p, step p = (p, none) ∨ Lowers p (step p)) :
    w.actorStep s id step = w ∨ (w.actorStep s id step).left < w.left := by
  unfold Net.actorStep
  cases found : w.channels id with
  | none => exact .inl rfl
  | some p =>
    change w.settle s id (step p) = w ∨ (w.settle s id (step p)).left < w.left
    rcases lowers p with same | fewer
    · left
      have channels : Function.update w.channels id (some p) = w.channels := by
        rw [← found, Function.update_eq_self]
      rw [same, Net.settle_none, Net.setPair, channels]
    · exact .inr (settle_left found fewer)

/-- Queueing one command is three steps more. -/
theorem left_signal_le (p : ChannelPair) (s : Side) (command : ActorCommand) : (p.signal s command).left ≤ p.left + 3 := by
  have actor := left_setActor p s ((p.actors.get s).signal command)
  have queued : ((p.actors.get s).signal command).left ≤ (p.actors.get s).left + 3 := by
    unfold Actor.signal
    split
    · omega
    · simp only [Actor.left, push_queue, List.length_append, List.length_singleton]
      change 3 * _ + (p.actors.get s).phase.left ≤ _
      omega
  change (p.setActor s ((p.actors.get s).signal command)).left ≤ _
  omega

/-- Reading the Shutdown queues what a live peer had left to queue. -/
theorem shutdownRead_left {connected : Bool} (active : w.ends.peer.state = .active)
    (read : w.control.closer.reading connected = .item (.shutdown "local close")) : w.shutdownRead.left < w.left := by
  have channels : w.shutdownRead.channelsLeft ≤ w.channelsLeft := by
    refine Finset.sum_le_sum fun id _ => ?_
    change channelLeft .shuttingDown (if w.ends.peer.manager.channels.contains id then
      (w.channels id).map (·.signal .peer .drain) else w.channels id) ≤ _
    rw [active]
    cases w.channels id with
    | none => rw [Option.map_none, ite_self]; exact Nat.le_refl 0
    | some p =>
      have more := left_signal_le p .peer .drain
      split
      · change (p.signal .peer .drain).left + 0 ≤ p.left + 3
        omega
      · change p.left + 0 ≤ p.left + 3
        omega
  have events : w.shutdownRead.eventsLeft = w.eventsLeft := rfl
  have control : w.shutdownRead.controlLeft < w.controlLeft := by
    have fewer := Wire.left_drop_lt read
    change w.control.closer.drop.left + w.control.peer.left + (!w.control.closer.finished).toNat < _
    rw [Net.controlLeft]
    omega
  have states : w.shutdownRead.statesLeft ≤ w.statesLeft := by
    change stateLeft w.ends.closer.state + 1 ≤ _
    rw [Net.statesLeft, active]
    change _ ≤ _ + 2
    omega
  rw [Net.left, Net.left, events]
  omega

theorem actorEvent_left (h : Held gcm w) {s : Side} : w.actorEvent s = w ∨ (w.actorEvent s).left < w.left := by
  unfold Net.actorEvent
  cases s with
  | closer =>
    rw [show (w.ends.get .closer).actorEvents = [] from h.noEvents]
    exact .inl rfl
  | peer =>
    cases reported : (w.ends.get .peer).actorEvents with
    | nil => exact .inl rfl
    | cons event rest =>
      right
      obtain ⟨id, rfl, -⟩ := h.events event (reported ▸ List.mem_cons_self)
      obtain ⟨silent, -⟩ := onActorEvent_closed (w.ends.get .peer).manager id
      rcases result : (w.ends.get .peer).manager.onActorEvent (.closed id) with ⟨manager, out⟩
      rw [result] at silent
      obtain rfl : out = [] := silent
      dsimp only
      rw [result]
      unfold Net.flushControl
      rw [if_pos rfl]
      have events : (w.setEnd .peer { w.ends.get .peer with manager, actorEvents := rest }).eventsLeft < w.eventsLeft := by
        change w.ends.closer.actorEvents.length + rest.length < _
        rw [Net.eventsLeft, show w.ends.peer.actorEvents = _ from reported, List.length_cons]
        omega
      have others : (w.setEnd .peer { w.ends.get .peer with manager, actorEvents := rest }).channelsLeft = w.channelsLeft ∧
        (w.setEnd .peer { w.ends.get .peer with manager, actorEvents := rest }).controlLeft = w.controlLeft ∧
        (w.setEnd .peer { w.ends.get .peer with manager, actorEvents := rest }).statesLeft = w.statesLeft := ⟨rfl, rfl, rfl⟩
      dsimp only at events others ⊢
      rw [Net.left, Net.left]
      omega

theorem tasksEnded_left (h : Held gcm w) (s : Side) : w.tasksEnded s = w ∨ (w.tasksEnded s).left < w.left := by
  unfold Net.tasksEnded
  by_cases waited : (w.ends.get s).state = .shuttingDown ∧ w.tasksDone s = true
  case neg => exact .inl (if_neg waited)
  simp only [if_pos waited]
  cases s with
  | closer =>
    have stage := h.closer
    rw [CloserStage, show w.ends.closer.state = .shuttingDown from waited.1] at stage
    rw [show (w.ends.get .closer).closing = some .local from stage.2.1]
    dsimp only
    by_cases finished : w.control.closer.finished = true
    · left
      have same : w.control.closer.finish = w.control.closer := Wire.eq_of_marks rfl rfl finished.symm rfl
      simp only [Both.get, Both.set, same]
    · right
      have control : Net.controlLeft { w with control := w.control.set .closer w.control.closer.finish } < w.controlLeft := by
        change w.control.closer.left + w.control.peer.left + 0 < _
        rw [Net.controlLeft, Bool.eq_false_of_not_eq_true finished]
        exact Nat.lt_succ_self _
      change Net.channelsLeft w + w.eventsLeft + _ + w.statesLeft < _
      rw [Net.left]
      dsimp only [Both.get]
      omega
  | peer =>
    right
    have stage := h.peer
    rw [PeerStage, show w.ends.peer.state = .shuttingDown from waited.1] at stage
    rw [show (w.ends.get .peer).closing = some (.peer "local close") from stage.2]
    dsimp only
    have channels : (w.finishClose .peer (.peer "local close")).channelsLeft = w.channelsLeft := by
      change ∑ id, channelLeft .closed (w.channels id) = ∑ id, channelLeft _ (w.channels id)
      rw [show w.ends.peer.state = .shuttingDown from waited.1]
      rfl
    have states : (w.finishClose .peer (.peer "local close")).statesLeft + 1 = w.statesLeft := by
      change stateLeft w.ends.closer.state + 0 + 1 = _
      rw [Net.statesLeft, show w.ends.peer.state = .shuttingDown from waited.1]
      rfl
    have others : (w.finishClose .peer (.peer "local close")).eventsLeft = w.eventsLeft ∧
      (w.finishClose .peer (.peer "local close")).controlLeft = w.controlLeft := ⟨rfl, rfl⟩
    rw [Net.left, Net.left]
    omega

theorem closeConnection_left (h : Held gcm w) (s : Side) :
    w.closeConnection s = w ∨ (w.closeConnection s).left < w.left := by
  unfold Net.closeConnection
  by_cases closes : (w.ends.get s).state = .shuttingDown ∧ (w.ends.get s).closing = some .local ∧
    (w.control.get s).finished = true ∧ ((w.control.get s).acked || !w.connected) = true
  case neg => exact .inl (if_neg closes)
  right
  simp only [if_pos closes]
  cases s with
  | peer =>
    have stage := h.peer
    rw [PeerStage, show w.ends.peer.state = .shuttingDown from closes.1,
      show w.ends.peer.closing = some .local from closes.2.1] at stage
    cases stage.2
  | closer =>
    have channels : (w.disconnect.finishClose .closer .local).channelsLeft ≤ w.channelsLeft := by
      refine Finset.sum_le_sum fun id _ => ?_
      change channelLeft w.ends.peer.state ((w.channels id).map ChannelPair.cut) ≤ _
      cases w.channels id with
      | none => exact Nat.le_refl _
      | some p =>
        have out := Wire.left_cut_le (w := p.wires.closer)
        have back := Wire.left_cut_le (w := p.wires.peer)
        change p.actors.closer.left + p.actors.peer.left + p.wires.closer.cut.left + p.wires.peer.cut.left + _ ≤
          p.actors.closer.left + p.actors.peer.left + p.wires.closer.left + p.wires.peer.left + _
        omega
    have events : (w.disconnect.finishClose .closer .local).eventsLeft = w.eventsLeft := rfl
    have control : (w.disconnect.finishClose .closer .local).controlLeft ≤ w.controlLeft := by
      have out := Wire.left_cut_le (w := w.control.closer)
      have back := Wire.left_cut_le (w := w.control.peer)
      change w.control.closer.cut.left + w.control.peer.cut.left + (!w.control.closer.finished).toNat ≤ _
      rw [Net.controlLeft]
      omega
    have states : (w.disconnect.finishClose .closer .local).statesLeft + 1 = w.statesLeft := by
      change 0 + stateLeft w.ends.peer.state + 1 = _
      rw [Net.statesLeft, show w.ends.closer.state = .shuttingDown from closes.1]
      change _ = 1 + _
      omega
    rw [Net.left, Net.left, events]
    omega

theorem carryControl_left (s : Side) :
    { w with control := w.control.set s (w.control.get s).deliver } = w ∨
    Net.left { w with control := w.control.set s (w.control.get s).deliver } < w.left := by
  rcases (w.control.get s).deliver_eq_or_left with same | fewer
  · left
    rw [same]
    cases s <;> rfl
  · right
    have control : Net.controlLeft { w with control := w.control.set s (w.control.get s).deliver } < w.controlLeft := by
      cases s with
      | closer =>
        change w.control.closer.deliver.left + w.control.peer.left + (!w.control.closer.deliver.finished).toNat < _
        rw [Wire.finished_deliver, Net.controlLeft]
        have fewer : w.control.closer.deliver.left < w.control.closer.left := fewer
        omega
      | peer =>
        change w.control.closer.left + w.control.peer.deliver.left + (!w.control.closer.finished).toNat < _
        rw [Net.controlLeft]
        have fewer : w.control.peer.deliver.left < w.control.peer.left := fewer
        omega
    change w.channelsLeft + w.eventsLeft + _ + w.statesLeft < _
    rw [Net.left]
    omega

/-- An internal step leaves everything as it is, or less to do. -/
theorem internal_left (h : Held gcm w) {move : Move} (internal : move.internal = true) :
    w.step ⟨aeadCrypto gcm, lostText⟩ move = w ∨ (w.step ⟨aeadCrypto gcm, lostText⟩ move).left < w.left := by
  have live {w' : Net} {c : Prop} [Decidable c] (turn : c → w' = w ∨ w'.left < w.left) :
      (if c then w' else w) = w ∨ (if c then w' else w).left < w.left := by
    by_cases holds : c
    · rw [if_pos holds]
      exact turn holds
    · exact .inl (if_neg holds)
  cases move with
  | sendOnChannel s id messageType flags payload => cases internal
  | closeChannel s id => cases internal
  | close s => cases internal
  | readControl s =>
    refine live fun active => ?_
    cases s with
    | closer => exact .inl (h.readControl_closer active)
    | peer =>
      rcases h.readControl_peer active with ⟨same, -⟩ | ⟨eq, read, -⟩
      · exact .inl same
      · rw [eq]
        exact .inr (shutdownRead_left active read)
  | actorEvent s => exact live fun _ => actorEvent_left h
  | tasksEnded s => exact tasksEnded_left h s
  | closeConnection s => exact closeConnection_left h s
  | command s id lucky =>
    refine actorStep_left fun p => ?_
    by_cases idle : (p.actors.get s).phase ≠ .running ∨ (p.actors.get s).queue = []
    · exact .inl (command_same lucky idle)
    · obtain ⟨running, waiting⟩ := not_or.mp idle
      exact .inr (command_lowers lucky (not_not.mp running) waiting)
  | inbound s id =>
    refine actorStep_left fun p => ?_
    by_cases idle : ((p.actors.get s).phase = .flushing ∨ (p.actors.get s).phase = .stopped) ∨
      (p.wires.get s.other).reading w.connected = .waiting
    · exact .inl (inbound_same idle)
    · obtain ⟨working, ready⟩ := not_or.mp idle
      exact .inr (inbound_lowers working ready)
  | flushed s id =>
    refine actorStep_left fun p => ?_
    by_cases returns : (p.actors.get s).phase = .flushing ∧
      ((p.wires.get s).acked || !w.connected || p.readerGone s) = true
    · exact .inr (flushed_lowers returns)
    · exact .inl (congrArg (·, none) (if_neg returns))
  | carry s id =>
    refine actorStep_left fun p => ?_
    by_cases still : (p.wires.get s).deliver = p.wires.get s
    · exact .inl (congrArg (·, none) (carry_same still))
    · exact .inr (carry_lowers still)
  | carryControl s => exact carryControl_left s

/-- No internal step that does not fail changes anything. -/
def Stuck (d : Wiring) (w : Net) : Prop := ∀ move : Move, move.internal = true → Calm d w move → w.step d move = w

theorem not_lowers {s : Side} {id : ChannelId} {p : ChannelPair} {step : ChannelPair → ChannelPair × Option ActorEvent}
    (found : w.channels id = some p) (same : w.actorStep s id step = w) : ¬ Lowers p (step p) := by
  intro fewer
  have less := settle_left (s := s) found fewer
  have settled : w.actorStep s id step = w.settle s id (step p) := by
    unfold Net.actorStep
    rw [found]
  rw [← settled, same] at less
  exact Nat.lt_irrefl _ less

/-- What the network has nothing more to do for is acknowledged, once finished. -/
theorem acked_of_stuck (stuck : Stuck ⟨aeadCrypto gcm, lostText⟩ w) {id : ChannelId} {p : ChannelPair}
    (found : w.channels id = some p) (finished : p.wires.closer.finished = true) : p.wires.closer.acked = true := by
  apply Wire.acked_of_deliver_eq _ finished
  by_contra moves
  have same : w.actorStep .closer id (fun p => (p.carry .closer, none)) = w := stuck (.carry .closer id) rfl trivial
  exact not_lowers found same (carry_lowers (s := .closer) moves)

/-- Every actor of a closing side whose writes work has stopped. -/
theorem closer_stopped (h : Held gcm w) (closing : w.ends.closer.state ≠ .active)
    (stuck : Stuck ⟨aeadCrypto gcm, lostText⟩ w)
    (writes : ∀ id, Calm ⟨aeadCrypto gcm, lostText⟩ w (.command .closer id false)) {id : ChannelId} {p : ChannelPair}
    (found : w.channels id = some p) : p.actors.closer.phase = .stopped := by
  have fits := h.fits id p found
  have closer := fits.closer
  cases phase : p.actors.closer.phase with
  | stopped => rfl
  | draining => exact absurd phase fits.kept.phases.1
  | running =>
    have waiting : p.actors.closer.queue ≠ [] := by
      unfold CloserFits at closer
      cases state : w.ends.closer.state <;> rw [state] at closer
      case active => exact absurd state closing
      case shuttingDown => exact List.ne_nil_of_mem (closer.1 phase)
      case closed => exact absurd (phase.symm.trans closer) (by decide)
      all_goals exact closer.elim
    have same : w.actorStep .closer id
        (fun p => p.command ⟨aeadCrypto gcm, lostText⟩ w.connected .closer id false) = w :=
      stuck (.command .closer id false) rfl (writes id)
    have fewer : Lowers p (p.command ⟨aeadCrypto gcm, lostText⟩ w.connected .closer id false) :=
      command_lowers (s := .closer) false phase waiting
    exact (not_lowers found same fewer).elim
  | flushing =>
    have acked := acked_of_stuck stuck found (fits.kept.done (fun running => by rw [phase] at running; cases running)).2
    have same : w.actorStep .closer id (fun p => (p.flushed w.connected .closer, none)) = w :=
      stuck (.flushed .closer id) rfl trivial
    have returns : ((p.wires.get .closer).acked || !w.connected || p.readerGone .closer) = true := by
      rw [show (p.wires.get .closer).acked = true from acked, Bool.true_or, Bool.true_or]
    have fewer : Lowers p (p.flushed w.connected .closer, none) := flushed_lowers (s := .closer) ⟨phase, returns⟩
    exact (not_lowers found same fewer).elim

theorem closer_closed (h : Held gcm w) (closing : w.ends.closer.state ≠ .active)
    (stuck : Stuck ⟨aeadCrypto gcm, lostText⟩ w)
    (stopped : ∀ id p, w.channels id = some p → p.actors.closer.phase = .stopped) : w.ends.closer.state = .closed := by
  have stage := h.closer
  unfold CloserStage at stage
  cases state : w.ends.closer.state <;> rw [state] at stage
  case active => exact absurd state closing
  case shuttingDown =>
    have done : w.tasksDone .closer = true := tasksDone_iff.mpr fun id _ p there => stopped id p there
    have finished : w.control.closer.finished = true := by
      have same : w.tasksEnded .closer = w := stuck (.tasksEnded .closer) rfl trivial
      unfold Net.tasksEnded at same
      simp only [if_pos (And.intro (show (w.ends.get .closer).state = .shuttingDown from state) done),
        show (w.ends.get .closer).closing = some .local from stage.2.1] at same
      rw [← same]
      rfl
    have acked : w.control.closer.acked = true := by
      apply Wire.acked_of_deliver_eq _ finished
      have same : { w with control := w.control.set .closer w.control.closer.deliver } = w :=
        stuck (.carryControl .closer) rfl trivial
      exact congrArg (fun w : Net => w.control.closer) same
    have same : w.closeConnection .closer = w := stuck (.closeConnection .closer) rfl trivial
    have closes : (w.ends.get .closer).state = .shuttingDown ∧ (w.ends.get .closer).closing = some .local ∧
        (w.control.get .closer).finished = true ∧ ((w.control.get .closer).acked || !w.connected) = true :=
      ⟨state, stage.2.1, finished, by rw [show (w.control.get .closer).acked = true from acked]; rfl⟩
    have closed : w.closeConnection .closer = w.disconnect.finishClose .closer .local := if_pos closes
    rw [same] at closed
    have ended : w.ends.closer.state = .closed := congrArg (fun w : Net => w.ends.closer.state) closed
    exact state.symm.trans ended
  all_goals exact stage.elim

theorem peer_closed (h : Held gcm w) (stuck : Stuck ⟨aeadCrypto gcm, lostText⟩ w)
    (closed : w.ends.closer.state = .closed)
    (stopped : ∀ id p, w.channels id = some p → p.actors.closer.phase = .stopped) : w.ends.peer.state = .closed := by
  have stage := h.peer
  have closerStage := h.closer
  rw [CloserStage, closed] at closerStage
  unfold PeerStage at stage
  cases state : w.ends.peer.state <;> rw [state] at stage
  case active =>
    rcases h.readControl_peer state with ⟨-, waits⟩ | ⟨eq, read, -⟩
    · exact absurd waits (Wire.reading_of_acked closerStage.1)
    · have same : w.step ⟨aeadCrypto gcm, lostText⟩ (.readControl .peer) = w := stuck (.readControl .peer) rfl trivial
      have turn : w.step ⟨aeadCrypto gcm, lostText⟩ (.readControl .peer) = w.readControl .peer := if_pos state
      have less := shutdownRead_left state read
      rw [← eq, ← turn, same] at less
      exact absurd less (Nat.lt_irrefl _)
  case shuttingDown =>
    have drained (id : ChannelId) (p : ChannelPair) (found : w.channels id = some p) : p.actors.peer.phase = .stopped := by
      by_contra working
      have fits := h.fits id p found
      have ready : p.wires.closer.reading w.connected ≠ .waiting :=
        Wire.reading_of_acked (fits.kept.flushed (stopped id p found))
      have same : w.actorStep .peer id (fun p => p.inbound ⟨aeadCrypto gcm, lostText⟩ w.connected .peer id) = w :=
        stuck (.inbound .peer id) rfl trivial
      exact not_lowers found same (inbound_lowers (s := .peer) (not_or.mpr ⟨fits.kept.phases.2, working⟩) ready)
    have done : w.tasksDone .peer = true := tasksDone_iff.mpr fun id _ p there => drained id p there
    have same : w.tasksEnded .peer = w := stuck (.tasksEnded .peer) rfl trivial
    unfold Net.tasksEnded at same
    simp only [if_pos (And.intro (show (w.ends.get .peer).state = .shuttingDown from state) done),
      show (w.ends.get .peer).closing = some (.peer "local close") from stage.2] at same
    have ended : SessionState.closed = w.ends.peer.state := congrArg (fun w : Net => w.ends.peer.state) same
    exact state.symm.trans ended.symm
  all_goals exact stage.elim

end Steps

/-- A closing side does not come back to life by itself. -/
theorem closing_stays {gcm : Aes256Gcm} {lostText : String} {w : Net} (h : Held gcm w)
    (closing : w.ends.closer.state ≠ .active) {move : Move} (internal : move.internal = true) :
    (w.step ⟨aeadCrypto gcm, lostText⟩ move).ends.closer.state ≠ .active := by
  have live {w' : Net} {c : Prop} [Decidable c] (turn : c → w'.ends.closer.state ≠ .active) :
      (if c then w' else w).ends.closer.state ≠ .active := by
    by_cases holds : c
    · rw [if_pos holds]
      exact turn holds
    · rw [if_neg holds]
      exact closing
  have actorStep (s : Side) (id : ChannelId) (step : ChannelPair → ChannelPair × Option ActorEvent) :
      (w.actorStep s id step).ends.closer.state ≠ .active := by
    unfold Net.actorStep
    cases w.channels id with
    | none => exact closing
    | some p => cases s <;> exact closing
  cases move with
  | sendOnChannel s id messageType flags payload => cases internal
  | closeChannel s id => cases internal
  | close s => cases internal
  | readControl s =>
    refine live fun active => ?_
    cases s with
    | closer => exact absurd active closing
    | peer =>
      rcases h.readControl_peer active with ⟨same, -⟩ | ⟨eq, -⟩
      · rw [same]
        exact closing
      · rw [eq]
        exact closing
  | actorEvent s =>
    refine live fun active => ?_
    cases s with
    | closer => exact absurd active closing
    | peer =>
      unfold Net.actorEvent
      cases reported : (w.ends.get .peer).actorEvents with
      | nil => exact closing
      | cons event rest =>
        obtain ⟨id, rfl, -⟩ := h.events event (reported ▸ List.mem_cons_self)
        exact closing
  | tasksEnded s =>
    refine live fun ended => ?_
    cases s with
    | closer =>
      cases why : (w.ends.get .closer).closing with
      | none => exact closing
      | some reason => cases reason <;> first | exact closing | exact fun active => by cases active
    | peer =>
      cases why : (w.ends.get .peer).closing with
      | none => exact closing
      | some reason => cases reason <;> exact closing
  | closeConnection s =>
    refine live fun closes => ?_
    cases s with
    | closer => exact fun active => by cases active
    | peer => exact closing
  | command s id lucky => exact actorStep s id _
  | inbound s id => exact actorStep s id _
  | flushed s id => exact actorStep s id _
  | carry s id => exact actorStep s id _
  | carryControl s => cases s <;> exact closing

/-- A graceful close ends. Once the closing side has begun to close, the steps that
are left are bounded, and where no step is left both sides have closed, each with
its reason, unless a write of the closing side fails. -/
theorem graceful_close_ends {gcm : Aes256Gcm} {lostText : String} {w : Net} (correct : gcm.Correct) (est : Established w)
    (moves : List Move)
    (calm : TransitionRun.Along (Net.step ⟨aeadCrypto gcm, lostText⟩) (Calm ⟨aeadCrypto gcm, lostText⟩) w moves)
    (closing : (moves.foldl (Net.step ⟨aeadCrypto gcm, lostText⟩) w).ends.closer.state ≠ .active) : ∃ bound : ℕ,
    ∀ more : List Move, TransitionRun.Along (Net.step ⟨aeadCrypto gcm, lostText⟩)
        (fun w move => move.internal = true ∧ Calm ⟨aeadCrypto gcm, lostText⟩ w move ∧
          w.step ⟨aeadCrypto gcm, lostText⟩ move ≠ w) (moves.foldl (Net.step ⟨aeadCrypto gcm, lostText⟩) w) more →
      more.length ≤ bound ∧
      (Stuck ⟨aeadCrypto gcm, lostText⟩ ((moves ++ more).foldl (Net.step ⟨aeadCrypto gcm, lostText⟩) w) →
        (∀ id, Calm ⟨aeadCrypto gcm, lostText⟩ ((moves ++ more).foldl (Net.step ⟨aeadCrypto gcm, lostText⟩) w)
          (.command .closer id false)) →
        ((moves ++ more).foldl (Net.step ⟨aeadCrypto gcm, lostText⟩) w).ends.closer.closed = some .local ∧
        ((moves ++ more).foldl (Net.step ⟨aeadCrypto gcm, lostText⟩) w).ends.peer.closed =
          some (.peer "local close")) := by
  have held := calm.invariant est.held fun _ _ h ok => h.step correct ok
  refine ⟨(moves.foldl (Net.step ⟨aeadCrypto gcm, lostText⟩) w).left, fun more along => ?_⟩
  rw [List.foldl_append]
  generalize moves.foldl (Net.step ⟨aeadCrypto gcm, lostText⟩) w = now at *
  have kept {net : Net} {move : Move} (h : Held gcm net) (ok : move.internal = true ∧
      Calm ⟨aeadCrypto gcm, lostText⟩ net move ∧ net.step ⟨aeadCrypto gcm, lostText⟩ move ≠ net) :
      Held gcm (net.step ⟨aeadCrypto gcm, lostText⟩ move) := h.step correct ok.2.1
  constructor
  · -- every step leaves less to do
    clear closing
    induction more generalizing now with
    | nil => exact Nat.zero_le _
    | cons move more ih =>
      obtain ⟨ok, rest⟩ := along
      have less := (internal_left held ok.1).resolve_left ok.2.2
      have later := ih _ (kept held ok) rest
      rw [List.length_cons]
      omega
  · intro stuck writes
    obtain ⟨end_, past⟩ := along.invariant (I := fun net => Held gcm net ∧ net.ends.closer.state ≠ .active) ⟨held, closing⟩
      fun _ _ h ok => ⟨kept h.1 ok, closing_stays h.1 h.2 ok.1⟩
    have stopped : ∀ id p, (more.foldl (Net.step ⟨aeadCrypto gcm, lostText⟩) now).channels id = some p →
        p.actors.closer.phase = .stopped := fun id p there => closer_stopped end_ past stuck writes there
    have closerClosed := closer_closed end_ past stuck stopped
    have peerClosed := peer_closed end_ stuck closerClosed stopped
    have closerStage := end_.closer
    have peerStage := end_.peer
    rw [CloserStage, closerClosed] at closerStage
    rw [PeerStage, peerClosed] at peerStage
    exact ⟨closerStage.2.2, peerStage⟩

/-- The steps left after the word and the close are bounded. -/
theorem graceful_close_ends_last_word : ∃ bound : ℕ, ∀ more : List Move,
    TransitionRun.Along (Net.step clear)
      (fun w move => move.internal = true ∧ Calm clear w move ∧ w.step clear move ≠ w)
      ((lastWord.take 2).foldl (Net.step clear) talking) more → more.length ≤ bound := by
  have calm : TransitionRun.Along (Net.step clear) (Calm clear) talking (lastWord.take 2) := by decide +kernel
  have closing : ((lastWord.take 2).foldl (Net.step clear) talking).ends.closer.state ≠ .active := by decide +kernel
  obtain ⟨bound, ends⟩ := graceful_close_ends clearGcm_correct talking_established (lastWord.take 2) calm closing
  exact ⟨bound, fun more along => (ends more along).1⟩

end PeerBeam.Session
