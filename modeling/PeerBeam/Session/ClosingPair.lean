import PeerBeam.Session.GracefulClose

/-! What holds between a channel's two actors while the closing side writes, flushes
and stops: every frame it accepted is handled, on its way, or still queued. -/
namespace PeerBeam.Session
open Actor ChannelCrypto

/-- Frames a length word can hold, and at most one command of its kind after them. -/
def Queued (last : ActorCommand) : List ActorCommand → Prop
  | [] => True
  | .send f :: rest => f.payload.length < 2 ^ 32 ∧ Queued last rest
  | command :: rest => command = last ∧ rest = []

namespace Queued
variable {last : ActorCommand} {queue : List ActorCommand}

theorem push (h : Queued last queue) (before : last ∉ queue) {command : ActorCommand}
    (next : Queued last [command]) : Queued last (queue ++ [command]) := by
  induction queue with
  | nil => exact next
  | cons first rest ih =>
    have later : last ∉ rest := fun mem => before (List.mem_cons_of_mem first mem)
    cases first with
    | send f => exact ⟨h.1, ih h.2 later⟩
    | close => exact absurd (h.1 ▸ List.mem_cons_self) before
    | drain => exact absurd (h.1 ▸ List.mem_cons_self) before

theorem tail {next : ActorCommand} (h : Queued last (next :: queue)) : Queued last queue := by
  cases next with
  | send f => exact h.2
  | close => rw [h.2]; trivial
  | drain => rw [h.2]; trivial

end Queued

def Actor.Takes (a : Actor) : Prop := ∀ handle, a.handler = some handle → ∀ f, handle f = .ok ()

section Kept
variable (gcm : Aes256Gcm)

/-- The frames on a stream are sealed by one end under the counters the other end
opens next. -/
def Sealed (sender receiver : Actor) (wire : Wire Bytes) (inside : List SessionFrame) : Prop :=
  Mirrors sender.crypto receiver.crypto receiver.crypto.recvCtr ∧
  Carries (aeadCrypto gcm) sender.crypto.sendKey sender.crypto.sendPrefix receiver.crypto.recvCtr inside
    wire.content sender.crypto.sendCtr

/-- The pair of a channel, seen from the closing side `a` and its peer `b`. -/
structure Kept (a b : Actor) (out back : Wire Bytes) : Prop where
  forward : ∃ opened inside, Sealed gcm a b out inside ∧ b.handled = dispatched b.handler opened ∧
    a.accepted = opened ++ inside ++ a.queue.filterMap ActorCommand.frame?
  backward : a.phase = .running → ∃ inside, Sealed gcm b a back inside
  queues : Queued .close a.queue ∧ Queued .drain b.queue
  phases : a.phase ≠ .draining ∧ b.phase ≠ .flushing
  running : a.phase = .running → out.finished = false
  done : a.phase ≠ .running → a.queue = [] ∧ out.finished = true
  flushed : a.phase = .stopped → out.acked = true
  backFinished : back.finished = true → b.phase = .stopped
  readOut : b.phase = .stopped → out.acked = true ∧ out.content = []
  takes : a.Takes ∧ b.Takes

variable {gcm} {a b : Actor} {out back : Wire Bytes}

namespace Kept

/-- An acknowledged end means that the closing side no longer runs. -/
theorem not_running_of_acked (h : Kept gcm a b out back) (acked : out.acked = true) : a.phase ≠ .running := by
  intro running
  have opened := h.running running
  rw [out.acked_of_finished acked] at opened
  cases opened

theorem not_stopped_of_running (h : Kept gcm a b out back) (running : a.phase = .running) : b.phase ≠ .stopped :=
  fun stopped => h.not_running_of_acked (h.readOut stopped).1 running

/-- When the peer's actor has stopped, its handler was given everything the closing
side accepted. -/
theorem all_handled (h : Kept gcm a b out back) (stopped : b.phase = .stopped) :
    b.handled = dispatched b.handler a.accepted := by
  obtain ⟨opened, inside, ⟨-, carries⟩, handled, accepted⟩ := h.forward
  obtain ⟨acked, empty⟩ := h.readOut stopped
  rw [empty] at carries
  obtain ⟨rfl, -⟩ := carries.of_nil
  obtain ⟨queue, -⟩ := h.done (h.not_running_of_acked acked)
  rw [handled, accepted, queue]
  simp only [List.filterMap_nil, List.append_nil]

end Kept

section Closer

/-- The closing side's actor writes its next frame. -/
theorem Kept.write (h : Kept gcm a b out back) {frame : SessionFrame} {rest : List ActorCommand}
    (running : a.phase = .running) (queue : a.queue = .send frame :: rest) {sealed : Bytes} {next : UInt64}
    (made : (aeadCrypto gcm).sealBytes a.crypto.sendKey (nonce a.crypto.sendPrefix a.crypto.sendCtr) frame.encode = .ok sealed)
    (advance : checkedAdd a.crypto.sendCtr 1 = some next) (stats : ChannelStats) :
    Kept gcm { a with queue := rest, crypto := { a.crypto with sendCtr := next }, stats } b (out.write sealed) back := by
  obtain ⟨opened, inside, ⟨mirrors, carries⟩, handled, accepted⟩ := h.forward
  obtain ⟨content, finished, acked⟩ := Wire.write_of_open (h.running running) sealed
  have fits : frame.payload.length < 2 ^ 32 := (queue ▸ h.queues.1 : Queued .close (.send frame :: rest)).1
  refine ⟨⟨opened, inside ++ [frame], ⟨⟨mirrors.key, mirrors.noncePrefix, rfl⟩, ?_⟩, handled, ?_⟩, ?_, ?_, h.phases, ?_, ?_,
    ?_, h.backFinished, ?_, h.takes⟩
  · rw [content]
    exact carries.push made advance fits
  · rw [accepted, queue]
    simp [ActorCommand.frame?]
  · intro _
    obtain ⟨inside, mirrors, carries⟩ := h.backward running
    exact ⟨inside, ⟨mirrors.key, mirrors.noncePrefix, rfl⟩, carries⟩
  · exact ⟨(queue ▸ h.queues.1 : Queued .close (.send frame :: rest)).2, h.queues.2⟩
  · intro _
    exact finished
  · intro stopped
    exact absurd running stopped
  · intro stopped
    exact absurd (running.symm.trans stopped) (by decide)
  · intro stopped
    exact absurd stopped (h.not_stopped_of_running running)

/-- The closing side's actor takes its `Close` and finishes its stream. -/
theorem Kept.finish (h : Kept gcm a b out back) {rest : List ActorCommand} (queue : a.queue = .close :: rest) :
    Kept gcm { a with queue := rest, phase := .flushing } b out.finish back := by
  obtain ⟨opened, inside, carried, handled, accepted⟩ := h.forward
  have last : rest = [] := (queue ▸ h.queues.1 : Queued .close (.close :: rest)).2
  subst last
  refine ⟨⟨opened, inside, carried, handled, ?_⟩, ?_, ⟨trivial, h.queues.2⟩, ⟨?_, h.phases.2⟩, ?_, ?_, ?_,
    h.backFinished, h.readOut, h.takes⟩
  · rw [accepted, queue]
    rfl
  · intro flushing
    cases flushing
  · intro flushing
    cases flushing
  · intro flushing
    cases flushing
  · intro _
    exact ⟨rfl, rfl⟩
  · intro flushing
    cases flushing

/-- The closing side's actor is done once its stream is acknowledged. -/
theorem Kept.stop (h : Kept gcm a b out back) (acked : out.acked = true) : Kept gcm a.stop b out.finish back := by
  obtain ⟨queue, finished⟩ := h.done (h.not_running_of_acked acked)
  refine ⟨h.forward, ?_, h.queues, ⟨?_, h.phases.2⟩, ?_, ?_, ?_, h.backFinished, h.readOut, h.takes⟩
  · intro stopped
    cases stopped
  · intro stopped
    cases stopped
  · intro stopped
    cases stopped
  · intro _
    exact ⟨queue, rfl⟩
  · intro _
    exact acked

/-- The closing side's actor reads a frame of its peer's. -/
theorem Kept.read (correct : gcm.Correct) (h : Kept gcm a b out back) (running : a.phase = .running)
    {connected : Bool} {payload : Bytes} (item : back.reading connected = .item payload) :
    ∃ a', a.deliver (aeadCrypto gcm) payload = (a', none) ∧ Kept gcm a' b out back.drop ∧
      a'.phase = a.phase ∧ a'.queue = a.queue := by
  obtain ⟨inside, mirrors, carries⟩ := h.backward running
  rw [Wire.content_of_item item] at carries
  obtain ⟨frame, others, next, rfl, made, advance, fits, later⟩ := carries.uncons
  obtain ⟨stats, delivered⟩ := deliver_ok correct mirrors made advance fits h.takes.1
  refine ⟨_, delivered, ⟨?_, ?_, h.queues, h.phases, h.running, h.done, h.flushed, h.backFinished, h.readOut, h.takes⟩,
    rfl, rfl⟩
  · obtain ⟨opened, inside, carried, handled, accepted⟩ := h.forward
    exact ⟨opened, inside, ⟨⟨carried.1.key, carried.1.noncePrefix, rfl⟩, carried.2⟩, handled, accepted⟩
  · intro _
    exact ⟨others, ⟨mirrors.key, mirrors.noncePrefix, rfl⟩, later⟩

/-- A frame or the `Close` is queued for the closing side's actor. -/
theorem Kept.push (h : Kept gcm a b out back) (running : a.phase = .running) (before : .close ∉ a.queue)
    {command : ActorCommand} (next : Queued .close [command]) : Kept gcm (a.push command) b out back := by
  obtain ⟨opened, inside, carried, handled, accepted⟩ := h.forward
  refine ⟨⟨opened, inside, carried, handled, ?_⟩, h.backward, ⟨h.queues.1.push before next, h.queues.2⟩, h.phases,
    h.running, ?_, h.flushed, h.backFinished, h.readOut, h.takes⟩
  · rw [push_accepted, push_queue, accepted, List.filterMap_append, List.append_assoc]
    cases command <;> rfl
  · intro stopped
    exact absurd running stopped

end Closer

section Peer

/-- The peer's actor writes its next frame. -/
theorem Kept.writeBack (h : Kept gcm a b out back) {frame : SessionFrame} {rest : List ActorCommand}
    (running : b.phase = .running) (queue : b.queue = .send frame :: rest) {payload : Bytes} {next : UInt64}
    (made : (aeadCrypto gcm).sealBytes b.crypto.sendKey (nonce b.crypto.sendPrefix b.crypto.sendCtr) frame.encode = .ok payload)
    (advance : checkedAdd b.crypto.sendCtr 1 = some next) (stats : ChannelStats) :
    Kept gcm a { b with queue := rest, crypto := { b.crypto with sendCtr := next }, stats } out (back.write payload) := by
  have queued : Queued .drain (.send frame :: rest) := queue ▸ h.queues.2
  have opened : back.finished = false := by
    by_contra finished
    exact absurd (running.symm.trans (h.backFinished (Bool.eq_true_of_not_eq_false finished))) (by decide)
  obtain ⟨content, finished, acked⟩ := Wire.write_of_open opened payload
  refine ⟨?_, ?_, ⟨h.queues.1, queued.2⟩, h.phases, h.running, h.done, h.flushed, ?_, ?_, h.takes⟩
  · obtain ⟨opened, inside, carried, handled, accepted⟩ := h.forward
    exact ⟨opened, inside, ⟨⟨carried.1.key, carried.1.noncePrefix, rfl⟩, carried.2⟩, handled, accepted⟩
  · intro live
    obtain ⟨inside, mirrors, carries⟩ := h.backward live
    refine ⟨inside ++ [frame], ⟨mirrors.key, mirrors.noncePrefix, rfl⟩, ?_⟩
    rw [content]
    exact carries.push made advance queued.1
  · intro ended
    rw [finished] at ended
    cases ended
  · intro stopped
    exact absurd (running.symm.trans stopped) (by decide)

/-- The peer's actor takes its `Drain`. -/
theorem Kept.drain (h : Kept gcm a b out back) {rest : List ActorCommand} (running : b.phase = .running)
    (queue : b.queue = .drain :: rest) : Kept gcm a { b with queue := rest, phase := .draining } out back := by
  have queued : Queued .drain (.drain :: rest) := queue ▸ h.queues.2
  refine ⟨h.forward, h.backward, ⟨h.queues.1, queued.tail⟩, ⟨h.phases.1, ?_⟩, h.running, h.done, h.flushed, ?_, ?_, h.takes⟩
  · intro flushing
    cases flushing
  · intro finished
    exact absurd (running.symm.trans (h.backFinished finished)) (by decide)
  · intro stopped
    cases stopped

/-- The peer's actor reads a frame of the closing side's and hands it over. -/
theorem Kept.readOn (correct : gcm.Correct) (h : Kept gcm a b out back) (reads : b.phase ≠ .stopped)
    {connected : Bool} {payload : Bytes} (item : out.reading connected = .item payload) :
    ∃ b', b.deliver (aeadCrypto gcm) payload = (b', none) ∧ Kept gcm a b' out.drop back ∧
      b'.phase = b.phase ∧ b'.queue = b.queue := by
  obtain ⟨opened, inside, ⟨mirrors, carries⟩, handled, accepted⟩ := h.forward
  rw [Wire.content_of_item item] at carries
  obtain ⟨frame, others, next, rfl, made, advance, fits, later⟩ := carries.uncons
  obtain ⟨stats, delivered⟩ := deliver_ok correct mirrors made advance fits h.takes.2
  refine ⟨_, delivered, ⟨⟨opened ++ [frame], others, ⟨⟨mirrors.key, mirrors.noncePrefix, rfl⟩, later⟩, ?_, ?_⟩, ?_, h.queues,
    h.phases, h.running, h.done, h.flushed, h.backFinished, ?_, h.takes⟩, rfl, rfl⟩
  · rw [handled, dispatched_append]
  · rw [accepted]
    simp
  · intro live
    obtain ⟨inside, mirrors, carries⟩ := h.backward live
    exact ⟨inside, ⟨mirrors.key, mirrors.noncePrefix, rfl⟩, carries⟩
  · intro stopped
    exact absurd stopped reads

/-- The peer's actor has read to the end of the stream. -/
theorem Kept.readEnd (h : Kept gcm a b out back) {connected : Bool} (ended : out.reading connected = .ended) :
    Kept gcm a b.stop out back.finish := by
  obtain ⟨empty, acked⟩ := Wire.content_of_ended ended
  refine ⟨h.forward, ?_, h.queues, ⟨h.phases.1, ?_⟩, h.running, h.done, h.flushed, ?_, ?_, h.takes⟩
  · intro live
    exact absurd live (h.not_running_of_acked acked)
  · intro flushing
    cases flushing
  · intro _
    rfl
  · intro _
    exact ⟨acked, empty⟩

/-- A frame or the `Drain` is queued for the peer's actor. -/
theorem Kept.pushBack (h : Kept gcm a b out back) (before : .drain ∉ b.queue) {command : ActorCommand}
    (next : Queued .drain [command]) : Kept gcm a (b.push command) out back :=
  ⟨h.forward, h.backward, ⟨h.queues.1, h.queues.2.push before next⟩, h.phases, h.running, h.done, h.flushed,
    h.backFinished, h.readOut, h.takes⟩

end Peer

theorem Kept.carry (h : Kept gcm a b out back) : Kept gcm a b out.deliver back := by
  obtain ⟨opened, inside, carried, handled, accepted⟩ := h.forward
  refine ⟨⟨opened, inside, ⟨carried.1, ?_⟩, handled, accepted⟩, h.backward, h.queues, h.phases, ?_, ?_, ?_, h.backFinished,
    ?_, h.takes⟩
  · rw [Wire.content_deliver]
    exact carried.2
  · rw [Wire.finished_deliver]
    exact h.running
  · rw [Wire.finished_deliver]
    exact h.done
  · exact fun stopped => Wire.acked_deliver (h.flushed stopped)
  · rw [Wire.content_deliver]
    exact fun stopped => ⟨Wire.acked_deliver (h.readOut stopped).1, (h.readOut stopped).2⟩

theorem Kept.carryBack (h : Kept gcm a b out back) : Kept gcm a b out back.deliver := by
  refine ⟨h.forward, ?_, h.queues, h.phases, h.running, h.done, h.flushed, ?_, h.readOut, h.takes⟩
  · intro live
    obtain ⟨inside, mirrors, carries⟩ := h.backward live
    rw [← Wire.content_deliver] at carries
    exact ⟨inside, mirrors, carries⟩
  · rw [Wire.finished_deliver]
    exact h.backFinished

/-- Once the closing side's actor is done, losing the connection costs nothing. -/
theorem Kept.cut (h : Kept gcm a b out back) (stopped : a.phase = .stopped) : Kept gcm a b out.cut back.cut := by
  have same := Wire.content_cut (h.flushed stopped)
  obtain ⟨opened, inside, carried, handled, accepted⟩ := h.forward
  refine ⟨⟨opened, inside, ⟨carried.1, ?_⟩, handled, accepted⟩, ?_, h.queues, h.phases, h.running, h.done, h.flushed,
    h.backFinished, ?_, h.takes⟩
  · rw [same]
    exact carried.2
  · intro live
    exact absurd (stopped.symm.trans live) (by decide)
  · rw [same]
    exact h.readOut

end Kept

end PeerBeam.Session
