import PeerBeam.Chat.Outbox
import PeerBeam.Trust.Store

/-! Whether a queued message may leave: the gate, and the two paths that empty a peer's queue. The one
asks the gate before it flushes, the other does not. -/
namespace PeerBeam.Chat
open TransitionRun (Along)

/-- A device the user approved is governed by its permission, any other may chat. -/
def mayExchangeChat (trust : Trust.Stored) (now : Int) (peer : DeviceId) : Bool :=
  let found := some (trust.lookup peer)
  if Trust.isApproved found now then Trust.may found now .chat else true

/-- An entry given to a session with a peer, and what the gate said when its flush began. -/
structure Handed where
  peer : DeviceId
  entry : OutboxEntry
  allowed : Bool
  deriving DecidableEq

/-- The chat side of the manager: flushes that are under way are in the queue. -/
structure Manager where
  trust : Trust.Stored
  queue : Queue
  allowed : Nat → Bool
  handed : List Handed

namespace Manager

inductive Event
  | trust (io : Trust.Io) (op : Trust.Op)
  /-- Whatever else happens to the queue. -/
  | queue (event : Queue.Event)
  | chatFlushPeer (f : Nat) (now : Int) (peer : DeviceId)
  | handleIncoming (f : Nat) (now : Int) (peer : DeviceId)
  | flushNext (f : Nat) (now : Int) (fate : Fate)

variable (c : Chrono) (m : Manager)

def start (trust : Trust.Stored) (store : ChatStore) : Manager := ⟨trust, .idle store, fun _ => false, []⟩

/-- `flush_to_session` up to its first entry. -/
def flushBegin (f : Nat) (now : Int) (peer : DeviceId) : Manager :=
  if (m.queue.flushes f).isSome then m
  else
    { m with
      queue := m.queue.step c (.flushBegin f now peer)
      allowed := Function.update m.allowed f (mayExchangeChat m.trust now peer) }

/-- What the flush gives to its session now: a file is skipped. -/
def handing (f : Nat) : List Handed :=
  match m.queue.flushes f with
  | some (peer, e :: _) => if e.kind = .file then [] else [⟨peer, e, m.allowed f⟩]
  | _ => []

def step : Event → Manager
  | .trust io op => { m with trust := (m.trust.perform io op).1 }
  | .queue (.flushBegin ..) | .queue (.flushNext ..) => m
  | .queue event => { m with queue := m.queue.step c event }
  | .chatFlushPeer f now peer => if mayExchangeChat m.trust now peer then m.flushBegin c f now peer else m
  | .handleIncoming f now peer => m.flushBegin c f now peer
  | .flushNext f now fate =>
    { m with queue := m.queue.step c (.flushNext f now fate), handed := m.handed ++ m.handing f }

/-- A session that comes in finds the gate open, or no text and no decline queued for its peer. -/
def Gated : Event → Prop
  | .handleIncoming _ now peer => mayExchangeChat m.trust now peer = true ∨
      ∀ entries, m.queue.store.outboxFor c now peer = .ok entries → ∀ e ∈ entries, e.kind = .file
  | _ => True

structure Honoured : Prop where
  handed : ∀ x ∈ m.handed, x.allowed = true
  flushes : ∀ f peer entries, m.queue.flushes f = some (peer, entries) →
    m.allowed f = true ∨ ∀ e ∈ entries, e.kind = .file

variable {c m}

theorem start_honoured (trust : Trust.Stored) (store : ChatStore) : (start trust store).Honoured :=
  ⟨nofun, nofun⟩

theorem Honoured.flushBegin (h : m.Honoured) {f : Nat} {now : Int} {peer : DeviceId}
    (ok : mayExchangeChat m.trust now peer = true ∨
      ∀ entries, m.queue.store.outboxFor c now peer = .ok entries → ∀ e ∈ entries, e.kind = .file) :
    (m.flushBegin c f now peer).Honoured := by
  rw [Manager.flushBegin]
  split
  next => exact h
  next free =>
    refine ⟨h.handed, fun g peer' entries going => ?_⟩
    have flushes : (m.queue.step c (.flushBegin f now peer)).flushes =
        Function.update m.queue.flushes f ((m.queue.store.outboxFor c now peer).toOption.map (peer, ·)) :=
      if_neg free
    rw [flushes] at going
    by_cases own : g = f
    · subst own
      rw [Function.update_self] at going
      obtain ⟨entries', read, same⟩ := Option.map_eq_some_iff.mp going
      cases same
      show Function.update m.allowed g _ g = true ∨ _
      rw [Function.update_self]
      refine ok.imp_right fun files => files entries ?_
      cases queued : m.queue.store.outboxFor c now peer with
      | error e => rw [queued] at read; cases read
      | ok entries' => rw [queued] at read; cases read; rfl
    · rw [Function.update_of_ne own] at going
      show Function.update m.allowed f _ g = true ∨ _
      rw [Function.update_of_ne own]
      exact h.flushes g peer' entries going

/-- A flush goes on with its next entries, or it ends. -/
theorem flushed_rest (q : Queue) (now : Int) (fate : Fate) (peer : DeviceId) (e : OutboxEntry)
    (rest : List OutboxEntry) : (q.flushed now fate peer e rest).2.2 = none ∨
      (q.flushed now fate peer e rest).2.2 = some (peer, rest) := by
  rw [Queue.flushed]
  split
  · exact .inr rfl
  · split
    · exact .inl rfl
    · split
      · exact .inr rfl
      · split
        · exact .inl rfl
        · exact .inr rfl

theorem Honoured.flushNext (h : m.Honoured) (f : Nat) (now : Int) (fate : Fate) :
    (m.step c (.flushNext f now fate)).Honoured := by
  constructor
  · intro x mem
    rcases List.mem_append.mp mem with before | now
    · exact h.handed x before
    · rw [handing] at now
      split at now
      next peer e rest going =>
        split at now
        next => cases now
        next sends =>
          rw [List.mem_singleton.mp now]
          exact (h.flushes f peer _ going).resolve_right fun files => sends (files e List.mem_cons_self)
      next => cases now
  · intro g peer entries going
    change (m.queue.step c (.flushNext f now fate)).flushes g = _ at going
    show m.allowed g = true ∨ _
    have own : (m.queue.step c (.flushNext f now fate)).flushes = match m.queue.flushes f with
        | some (peer, e :: rest) =>
          Function.update m.queue.flushes f (m.queue.flushed now fate peer e rest).2.2
        | _ => Function.update m.queue.flushes f none := rfl
    rw [own] at going
    by_cases same : g = f
    · subst same
      split at going
      next peer' e rest before =>
        rw [Function.update_self] at going
        rcases flushed_rest m.queue now fate peer' e rest with ends | goes
        · rw [ends] at going
          cases going
        · rw [goes] at going
          cases going
          exact (h.flushes g _ _ before).imp_right fun files e mem => files e (List.mem_cons_of_mem _ mem)
      next =>
        rw [Function.update_self] at going
        cases going
    · have other : m.queue.flushes g = some (peer, entries) := by
        split at going
        · rwa [Function.update_of_ne same] at going
        · rwa [Function.update_of_ne same] at going
      exact h.flushes g peer entries other

theorem Honoured.step (h : m.Honoured) (event : Event) (ok : m.Gated c event) : (m.step c event).Honoured := by
  cases event with
  | trust io op => exact ⟨h.handed, h.flushes⟩
  | queue event => cases event <;> exact ⟨h.handed, h.flushes⟩
  | chatFlushPeer f now peer =>
    rw [Manager.step]
    split
    next allowed => exact h.flushBegin (.inl allowed)
    next => exact h
  | handleIncoming f now peer => exact h.flushBegin ok
  | flushNext f now fate => exact h.flushNext f now fate

/-- Where no session comes in from a peer whose gate is closed while a text or a decline is queued for it,
nothing was handed over in a flush that began with the gate closed. -/
theorem queued_messages_gated (c : Chrono) (trust : Trust.Stored) (store : ChatStore) (events : List Event)
    (h : Along (step c) (Gated c) (start trust store) events) :
    ∀ x ∈ (events.foldl (step c) (start trust store)).handed, x.allowed = true :=
  (h.invariant (start_honoured trust store) fun _ event honoured ok => honoured.step event ok).handed

private def noClock : Chrono := ⟨fun _ => none, fun _ _ => none, 0⟩

private def written : ChatMessage := ⟨"m", "", "hello", none, none⟩

private def revoked : Trust.TrustRecord :=
  ⟨"ann", "key", "Ann", 0, true, .none, none, false, false⟩

/-- Only the drain comes to the queue of a device that may not chat. -/
theorem drained_queue_gated :
    let events := [Event.queue (.enqueue 0 "ann" written), .chatFlushPeer 0 1 "ann", .flushNext 0 1 .delivered]
    let m := start ⟨fun _ => some revoked, fun _ => some revoked⟩ ChatStore.empty
    ∀ x ∈ (events.foldl (step noClock) m).handed, x.allowed = true :=
  queued_messages_gated noClock _ _ _ ⟨trivial, trivial, trivial, trivial⟩

/-- The device whose permission is gone connects, and is handed what was queued for it. -/
theorem revoked_device_handed :
    let events := [Event.queue (.enqueue 0 "ann" written), .handleIncoming 0 1 "ann", .flushNext 0 1 .delivered]
    let m := start ⟨fun _ => some revoked, fun _ => some revoked⟩ ChatStore.empty
    (events.foldl (step noClock) m).handed = [⟨"ann", ChatStore.textEntry "ann" written, false⟩] := by
  decide +kernel

end Manager

end PeerBeam.Chat
