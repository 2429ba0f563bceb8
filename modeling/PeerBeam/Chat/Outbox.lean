import PeerBeam.Chat.Store
import PeerBeam.Lib.Run

/-! The outbox under all who write to it. Every peer's entries share one key space, the ids of the
messages, so what is done for one peer may meet what is queued for another. -/
namespace PeerBeam.Chat

/-- What becomes of a frame that a flush gives to its channel: the channel refuses it, or takes it into its queue,
where it is lost with the link or goes to the peer. -/
inductive Fate
  | refused
  | lost
  | delivered
  deriving DecidableEq

inductive Effect
  | queued (e : OutboxEntry)
  | released (peer : DeviceId) (id : String)
  /-- The entry goes, and its copy is not delivered. -/
  | lost (id : String)
  | pruned (peer : DeviceId) (r : Retention) (now : Int)
  deriving DecidableEq

/-- The copies that are owed: for each peer and message the last one queued, until it is delivered
to that peer, dropped for that peer, or pruned when its window has closed. -/
abbrev Owed := DeviceId → String → Option OutboxEntry

/-- The store, the copies owed, and the calls that are under way: declines that have found their
key free, and flushes with what they have still to send. -/
structure Queue where
  store : ChatStore
  owed : Owed
  declines : Nat → Option (DeviceId × FileDecline)
  flushes : Nat → Option (DeviceId × List OutboxEntry)

namespace Queue

/-- Queueing for several members of a group is an `enqueue` of the same message for each. A `remove`
is of the peer whose file was delivered or is given up, though it names the message alone. -/
inductive Event
  | enqueue (now : Int) (peer : DeviceId) (msg : ChatMessage)
  | enqueueFile (now : Int) (peer : DeviceId) (ref : FileRef) (staged : StagedFile)
  | declineCheck (t : Nat) (peer : DeviceId) (d : FileDecline)
  | declinePut (t : Nat)
  | flushBegin (f : Nat) (now : Int) (peer : DeviceId)
  | flushNext (f : Nat) (now : Int) (fate : Fate)
  | remove (peer : DeviceId) (id : String)
  | prune (now : Int) (peer : DeviceId)
  /-- `stored` is whether the store takes the record. -/
  | setRetention (peer : DeviceId) (r : Retention) (stored : Bool)

variable (c : Chrono) (q : Queue)

/-- The effect on the outbox of dequeuing an entry whose frame the channel took. -/
def dequeued (fate : Fate) (peer : DeviceId) (id : String) : Effect :=
  if fate = .delivered then .released peer id else .lost id

/-- The store after the next entry of a flush, and what is left of the flush: it ends at the first
entry that the channel refuses, or whose record cannot be read. -/
def flushed (now : Int) (fate : Fate) (peer : DeviceId) (e : OutboxEntry) (rest : List OutboxEntry) :
    Option Effect × ChatStore × Option (DeviceId × List OutboxEntry) :=
  if e.kind = .file then (none, q.store, some (peer, rest))
  else if fate = .refused then (none, q.store, none)
  else if e.kind = .decline then
    (some (dequeued fate peer e.messageId), q.store.outboxRemove e.messageId, some (peer, rest))
  else
    match q.store.recordSent now e with
    | .error _ => (none, q.store, none)
    | .ok s => (some (dequeued fate peer e.messageId), s.outboxRemove e.messageId, some (peer, rest))

def act : Event → Option Effect × ChatStore
  | .enqueue now peer msg =>
    (some (.queued (ChatStore.textEntry peer msg)), q.store.enqueue now peer msg)
  | .enqueueFile now peer ref staged =>
    match q.store.enqueueFile c now peer ref staged with
    | .error _ => (none, q.store)
    | .ok (s, queued) =>
      (if queued then some (.queued (ChatStore.fileEntry peer ref staged)) else none, s)
  | .declinePut t =>
    match q.declines t with
    | none => (none, q.store)
    | some (peer, d) =>
      (some (.queued (ChatStore.declineEntry peer d)), q.store.putOutbox (ChatStore.declineEntry peer d))
  | .flushNext f now fate =>
    match q.flushes f with
    | some (peer, e :: rest) =>
      ((q.flushed now fate peer e rest).1, (q.flushed now fate peer e rest).2.1)
    | _ => (none, q.store)
  | .remove peer id => (some (.released peer id), q.store.outboxRemove id)
  | .prune now peer =>
    match q.store.retention peer, q.store.prune c now peer with
    | .ok r, .ok (s, _) => (if r.isOff then none else some (.pruned peer r now), s)
    | _, _ => (none, q.store)
  | .setRetention peer r stored => (none, if stored then q.store.setRetention peer r else q.store)
  | .declineCheck _ _ _ | .flushBegin _ _ _ => (none, q.store)

def settle (owed : Owed) (p : DeviceId) (id : String) : Effect → Option OutboxEntry
  | .queued e => if p = e.peerId ∧ id = e.messageId then some e else owed p id
  | .released peer gone => if p = peer ∧ id = gone then none else owed p id
  | .lost _ => owed p id
  | .pruned peer r now =>
    if p = peer ∧ (owed p id).any (·.expired c r now) then none else owed p id

def step (event : Event) : Queue where
  store := (q.act c event).2
  owed p id := (q.act c event).1.elim (q.owed p id) (settle c q.owed p id)
  declines :=
    match event with
    | .declineCheck t peer d =>
      if (q.declines t).isSome then q.declines
      else Function.update q.declines t
        (if q.store.outbox[d.id]?.isSome then none else some (peer, d))
    | .declinePut t => Function.update q.declines t none
    | _ => q.declines
  flushes :=
    match event with
    | .flushBegin f now peer =>
      if (q.flushes f).isSome then q.flushes
      else Function.update q.flushes f ((q.store.outboxFor c now peer).toOption.map (peer, ·))
    | .flushNext f now fate =>
      match q.flushes f with
      | some (peer, e :: rest) => Function.update q.flushes f (q.flushed now fate peer e rest).2.2
      | _ => Function.update q.flushes f none
    | _ => q.flushes

def idle (s : ChatStore) : Queue where
  store := s
  owed p id := s.outbox[id]?.join.filter (·.peerId = p)
  declines _ := none
  flushes _ := none

def after (outbox : Rows OutboxEntry) (id : String) : Effect → Option (Option OutboxEntry)
  | .queued e => if e.messageId = id then some (some e) else outbox[id]?
  | .released _ gone | .lost gone => if gone = id then none else outbox[id]?
  | .pruned peer r now =>
    if outbox[id]?.join.any fun e => e.peerId = peer && e.expired c r now then none else outbox[id]?

variable {c q}

theorem outbox_enqueueFile {now : Int} {peer : DeviceId} {ref : FileRef} {staged : StagedFile}
    {s : ChatStore} {queued : Bool} (h : q.store.enqueueFile c now peer ref staged = .ok (s, queued)) :
    s.outbox = (if queued then q.store.outbox.insert ref.id (some (ChatStore.fileEntry peer ref staged))
      else q.store.outbox) ∧ s.windows = q.store.windows := by
  rw [ChatStore.enqueueFile] at h
  obtain ⟨⟨s₁, row⟩, read, h⟩ := Outcome.ok_of_map h
  obtain ⟨outbox, windows⟩ := ChatStore.outbox_get read
  cases row with
  | none => cases h; exact ⟨outbox, windows⟩
  | some rec =>
    cases h
    obtain ⟨same, kept⟩ := (s₁.putOutbox (ChatStore.fileEntry peer ref staged)).outbox_append
      ({ rec with status := .pending }.land staged.name staged.size)
    rw [same, kept]
    exact ⟨congrArg (·.insert ref.id (some (ChatStore.fileEntry peer ref staged))) outbox, windows⟩

/-- A prune that finds a window, by key. -/
theorem after_pruned {s : ChatStore} {now : Int} {peer : DeviceId} {r : Retention}
    {out : ChatStore × ChatStore.Pruned} (window : s.retention peer = .ok r) (set : r.isOff = false)
    (h : s.prune c now peer = .ok out) (id : String) :
    out.1.outbox[id]? = after c s.outbox id (.pruned peer r now) := by
  rw [(ChatStore.prune_ok window set h).1 id, after]
  congr 1
  rw [ChatStore.mem_expiredEntries]
  rcases s.outbox[id]? with _ | _ | e
  · simp
  · simp
  · simp

theorem after_dequeued (outbox : Rows OutboxEntry) (fate : Fate) (peer : DeviceId) (gone id : String) :
    after c outbox id (dequeued fate peer gone) = if gone = id then none else outbox[id]? := by
  rw [dequeued]
  split <;> rfl

theorem after_flushed (now : Int) (fate : Fate) (peer : DeviceId) (e : OutboxEntry)
    (rest : List OutboxEntry) (id : String) :
    (q.flushed now fate peer e rest).2.1.outbox[id]? =
        (q.flushed now fate peer e rest).1.elim q.store.outbox[id]? (after c q.store.outbox id) ∧
      (q.flushed now fate peer e rest).2.1.windows = q.store.windows := by
  rw [flushed]
  split
  · exact ⟨rfl, rfl⟩
  · split
    · exact ⟨rfl, rfl⟩
    · split
      · refine ⟨?_, rfl⟩
        rw [Option.elim_some, after_dequeued]
        exact SortedMap.get_erase ..
      · split
        · exact ⟨rfl, rfl⟩
        · rename_i s recorded
          obtain ⟨outbox, windows⟩ := ChatStore.outbox_recordSent recorded
          refine ⟨?_, windows⟩
          rw [Option.elim_some, after_dequeued]
          show (s.outbox.erase e.messageId)[id]? = _
          rw [outbox]
          exact SortedMap.get_erase ..

/-- Every event changes the outbox by its effect alone, and only one changes a window. -/
theorem act_outbox (event : Event) (id : String) :
    (q.act c event).2.outbox[id]? =
      (q.act c event).1.elim q.store.outbox[id]? (after c q.store.outbox id) := by
  cases event with
  | enqueue now peer msg =>
    show ((q.store.append _).outbox.insert msg.id _)[id]? = _
    rw [(q.store.outbox_append _).1]
    exact SortedMap.get_insert ..
  | enqueueFile now peer ref staged =>
    rw [act]
    cases read : q.store.enqueueFile c now peer ref staged with
    | error e => rfl
    | ok out =>
      obtain ⟨s, queued⟩ := out
      have outbox := (outbox_enqueueFile read).1
      cases queued with
      | true =>
        show s.outbox[id]? = _
        rw [outbox]
        exact SortedMap.get_insert ..
      | false =>
        show s.outbox[id]? = _
        rw [outbox]
        rfl
  | declineCheck t peer d => rfl
  | declinePut t =>
    rw [act]
    rcases q.declines t with _ | ⟨peer, d⟩
    · rfl
    · exact SortedMap.get_insert ..
  | flushBegin f now peer => rfl
  | flushNext f now fate =>
    rw [act]
    rcases q.flushes f with _ | ⟨peer, _ | ⟨e, rest⟩⟩
    · rfl
    · rfl
    · exact (after_flushed now fate peer e rest id).1
  | remove peer gone => exact SortedMap.get_erase ..
  | prune now peer =>
    rw [act]
    cases window : q.store.retention peer with
    | error e => rfl
    | ok r =>
      cases pruned : q.store.prune c now peer with
      | error e => rfl
      | ok out =>
        cases set : r.isOff with
        | true =>
          rw [ChatStore.prune, window] at pruned
          simp only [Except.map, set, if_true] at pruned
          cases pruned
          simp only [set]
          rfl
        | false =>
          simp only [set]
          exact after_pruned window set pruned id
  | setRetention peer r stored =>
    rw [act]
    cases stored <;> rfl

def Unshared (outbox : Rows OutboxEntry) (peer : DeviceId) (id : String) : Prop :=
  ∀ e, outbox[id]? = some (some e) → e.peerId = peer

/-- No entry is under the key, at least none that decodes. -/
def Vacant (outbox : Rows OutboxEntry) (id : String) : Prop := ∀ e, outbox[id]? ≠ some (some e)

variable (c q)

/-- What an event writes or removes for a peer is under a key that nobody else holds, and what a flush
removes is delivered or gone already. A file whose row has gone queues nothing; a flush removes
nothing where it sends nothing or fails to read the record of what it sent. -/
def Allowed : Event → Prop
  | .enqueue _ peer msg => Unshared q.store.outbox peer msg.id
  | .enqueueFile now peer ref _ =>
    ∀ s rec, q.store.get c now peer ref.id = .ok (s, some rec) → Unshared q.store.outbox peer ref.id
  | .declinePut t => ∀ peer d, q.declines t = some (peer, d) → Unshared q.store.outbox peer d.id
  | .flushNext f _ fate => ∀ peer e rest, q.flushes f = some (peer, e :: rest) → fate ≠ .refused →
    e.kind ≠ .file → (e.kind = .text → (q.store.rows e.peerId)[e.messageId]? ≠ some none) →
    if fate = .delivered then Unshared q.store.outbox peer e.messageId else Vacant q.store.outbox e.messageId
  | .remove peer id => Unshared q.store.outbox peer id
  | .prune _ _ | .setRetention _ _ _ | .declineCheck _ _ _ | .flushBegin _ _ _ => True

def Spares (outbox : Rows OutboxEntry) : Effect → Prop
  | .queued e => Unshared outbox e.peerId e.messageId
  | .released peer id => Unshared outbox peer id
  | .lost id => Vacant outbox id
  | .pruned _ _ _ => True

variable {c q}

theorem recordSent_error_iff {s : ChatStore} {now : Int} {e : OutboxEntry} :
    (∃ error, s.recordSent now e = .error error) ↔ (s.rows e.peerId)[e.messageId]? = some none := by
  rw [ChatStore.recordSent.eq_def]
  constructor
  · rintro ⟨error, h⟩
    split at h
    · assumption
    · cases h
    · simp only at h
      split at h <;> cases h
  · intro broken
    rw [broken]
    exact ⟨_, rfl⟩

theorem dequeued_spares_iff (fate : Fate) (peer : DeviceId) (id : String) :
    Spares q.store.outbox (dequeued fate peer id) ↔
      if fate = .delivered then Unshared q.store.outbox peer id else Vacant q.store.outbox id := by
  rw [dequeued]
  split <;> exact Iff.rfl

theorem flushed_spares_iff (now : Int) (fate : Fate) (peer : DeviceId) (e : OutboxEntry)
    (rest : List OutboxEntry) :
    (∀ effect, (q.flushed now fate peer e rest).1 = some effect → Spares q.store.outbox effect) ↔
      (fate ≠ .refused → e.kind ≠ .file →
        (e.kind = .text → (q.store.rows e.peerId)[e.messageId]? ≠ some none) →
        if fate = .delivered then Unshared q.store.outbox peer e.messageId
        else Vacant q.store.outbox e.messageId) := by
  rw [← dequeued_spares_iff, flushed]
  by_cases file : e.kind = .file
  · simp [file]
  · by_cases refused : fate = .refused
    · simp [file, refused]
    · rw [if_neg file, if_neg refused]
      by_cases decline : e.kind = .decline
      · simp [decline, refused]
      · have text : e.kind = .text := by
          cases kind : e.kind with
          | text => rfl
          | decline => exact absurd kind decline
          | file => exact absurd kind file
        rw [if_neg decline]
        cases recorded : q.store.recordSent now e with
        | error error => simp [text, recordSent_error_iff.mp ⟨error, recorded⟩]
        | ok s =>
          have readable : (q.store.rows e.peerId)[e.messageId]? ≠ some none := by
            intro broken
            obtain ⟨error, failed⟩ := recordSent_error_iff.mpr broken
            cases recorded.symm.trans failed
          simp [text, readable, refused]

theorem allowed_iff (event : Event) : q.Allowed c event ↔
    ∀ effect, (q.act c event).1 = some effect → Spares q.store.outbox effect := by
  cases event with
  | enqueue now peer msg => simp [Allowed, act, Spares, ChatStore.textEntry]
  | enqueueFile now peer ref staged =>
    rw [Allowed, act, ChatStore.enqueueFile]
    cases read : q.store.get c now peer ref.id with
    | error e => simp [Except.map]
    | ok out =>
      obtain ⟨s, _ | rec⟩ := out
      · simp [Except.map]
      · simp [Except.map, Spares, ChatStore.fileEntry]
  | declineCheck t peer d => simp [Allowed, act]
  | declinePut t =>
    rw [Allowed, act]
    rcases q.declines t with _ | ⟨peer, d⟩
    · simp
    · simp [Spares, ChatStore.declineEntry]
  | flushBegin f now peer => simp [Allowed, act]
  | flushNext f now fate =>
    rw [Allowed, act]
    rcases q.flushes f with _ | ⟨peer, _ | ⟨e, rest⟩⟩
    · simp
    · simp
    · simp only [flushed_spares_iff, Option.some.injEq, Prod.mk.injEq, List.cons.injEq]
      exact ⟨fun h => h peer e rest ⟨rfl, rfl, rfl⟩, by rintro h _ _ _ ⟨rfl, rfl, rfl⟩; exact h⟩
  | remove peer id => simp [Allowed, act, Spares]
  | prune now peer =>
    rw [Allowed, act]
    split
    · split <;> simp [Spares]
    · simp
  | setRetention peer r stored => simp [Allowed, act]

variable (c q)

def Kept : Prop := ∀ p id e, q.owed p id = some e → q.store.outbox[id]? = some (some e)

structure Tallied : Prop where
  own : ∀ p id e, q.owed p id = some e → e.peerId = p
  known : ∀ (id : String) (e : OutboxEntry), q.store.outbox[id]? = some (some e) →
    q.owed e.peerId id = some e

variable {c q}

theorem tallied_idle (s : ChatStore) : (idle s).Tallied ∧ (idle s).Kept := by
  refine ⟨⟨fun p id e h => ?_, fun id e h => ?_⟩, fun p id e h => ?_⟩
  · simp only [idle, Option.filter_eq_some_iff, decide_eq_true_eq] at h
    exact h.2
  · have held : s.outbox[id]? = some (some e) := h
    simp [idle, held]
  · simp only [idle, Option.filter_eq_some_iff, Option.join_eq_some_iff] at h
    exact h.1

theorem Tallied.settle (h : q.Tallied) (effect : Effect) :
    (∀ p id e, settle c q.owed p id effect = some e → e.peerId = p) ∧
      ∀ id e, after c q.store.outbox id effect = some (some e) →
        settle c q.owed e.peerId id effect = some e := by
  cases effect with
  | queued e =>
    refine ⟨fun p id e' owed => ?_, fun id e' held => ?_⟩
    · rw [Queue.settle] at owed
      split at owed
      next same => cases owed; exact same.1.symm
      next => exact h.own p id e' owed
    · rw [after] at held
      rw [Queue.settle]
      split at held
      next same => cases held; rw [if_pos ⟨rfl, same.symm⟩]
      next other => rw [if_neg fun same => other same.2.symm]; exact h.known id e' held
  | released peer gone =>
    refine ⟨fun p id e' owed => ?_, fun id e' held => ?_⟩
    · rw [Queue.settle] at owed
      split at owed
      next => cases owed
      next => exact h.own p id e' owed
    · rw [after] at held
      rw [Queue.settle]
      split at held
      next => cases held
      next other => rw [if_neg fun same => other same.2.symm]; exact h.known id e' held
  | lost gone =>
    refine ⟨h.own, fun id e' held => ?_⟩
    rw [after] at held
    split at held
    next => cases held
    next => exact h.known id e' held
  | pruned peer r now =>
    refine ⟨fun p id e' owed => ?_, fun id e' held => ?_⟩
    · rw [Queue.settle] at owed
      split at owed
      next => cases owed
      next => exact h.own p id e' owed
    · rw [after] at held
      split at held
      next => cases held
      next spared =>
        have owed := h.known id e' held
        rw [held] at spared
        rw [Queue.settle, owed, if_neg]
        simpa using spared

/-- What is owed and is not the copy for the peer under a key of its own is under another key. -/
theorem Tallied.apart (h : q.Tallied) (kept : q.Kept) {peer p : DeviceId} {key id : String}
    {e : OutboxEntry} (unshared : Unshared q.store.outbox peer key) (owed : q.owed p id = some e)
    (other : ¬ (p = peer ∧ id = key)) : key ≠ id := by
  rintro rfl
  exact other ⟨(h.own p _ e owed).symm.trans (unshared e (kept p _ e owed)), rfl⟩

/-- A step keeps every copy owed exactly where it spares the others' keys. -/
theorem Tallied.kept_settle_iff (h : q.Tallied) (kept : q.Kept) (effect : Effect) :
    (∀ p id e, Queue.settle c q.owed p id effect = some e →
      after c q.store.outbox id effect = some (some e)) ↔ Spares q.store.outbox effect := by
  cases effect with
  | queued e =>
    constructor
    · intro next e' held
      -- were it another's, the other would still be owed the copy that `e` replaces
      by_contra other
      have owed : Queue.settle c q.owed e'.peerId e.messageId (.queued e) = some e' := by
        rw [Queue.settle, if_neg fun same => other same.1]
        exact h.known _ e' held
      have replaced := next _ _ _ owed
      rw [after, if_pos rfl] at replaced
      cases replaced
      exact other rfl
    · intro spares p id e' owed
      rw [Queue.settle] at owed
      rw [after]
      split at owed
      next same => cases owed; rw [if_pos same.2.symm]
      next other =>
        rw [if_neg (h.apart kept spares owed other)]
        exact kept p id e' owed
  | released peer gone =>
    constructor
    · intro next e' held
      by_contra other
      have owed : Queue.settle c q.owed e'.peerId gone (.released peer gone) = some e' := by
        rw [Queue.settle, if_neg fun same => other same.1]
        exact h.known _ e' held
      have removed := next _ _ _ owed
      rw [after, if_pos rfl] at removed
      cases removed
    · intro spares p id e' owed
      rw [Queue.settle] at owed
      rw [after]
      split at owed
      next => cases owed
      next other =>
        rw [if_neg (h.apart kept spares owed other)]
        exact kept p id e' owed
  | lost gone =>
    constructor
    · intro next e' held
      have removed := next e'.peerId gone e' (h.known gone e' held)
      rw [after, if_pos rfl] at removed
      cases removed
    · intro vacant p id e' owed
      have held := kept p id e' owed
      rw [after, if_neg]
      · exact held
      · rintro rfl
        exact vacant e' held
  | pruned peer r now =>
    refine iff_of_true (fun p id e' owed => ?_) trivial
    rw [Queue.settle] at owed
    split at owed
    next => cases owed
    next spared =>
      have held := kept p id e' owed
      rw [after, held, if_neg]
      rw [owed] at spared
      simpa [h.own p id e' owed] using spared

theorem step_owed (event : Event) (p : DeviceId) (id : String) : (q.step c event).owed p id =
    (q.act c event).1.elim (q.owed p id) (settle c q.owed p id) := rfl

theorem step_outbox (event : Event) (id : String) : (q.step c event).store.outbox[id]? =
    (q.act c event).1.elim q.store.outbox[id]? (after c q.store.outbox id) := act_outbox event id

theorem tallied_step (h : q.Tallied) (event : Event) : (q.step c event).Tallied := by
  constructor
  · intro p id e owed
    rw [step_owed] at owed
    cases effect : (q.act c event).1 with
    | none => rw [effect] at owed; exact h.own p id e owed
    | some done => rw [effect] at owed; exact (h.settle done).1 p id e owed
  · intro id e held
    rw [step_outbox] at held
    rw [step_owed]
    cases effect : (q.act c event).1 with
    | none => rw [effect] at held; exact h.known id e held
    | some done => rw [effect] at held; exact (h.settle done).2 id e held

theorem Tallied.kept_step_iff (h : q.Tallied) (kept : q.Kept) (event : Event) :
    (q.step c event).Kept ↔ q.Allowed c event := by
  rw [allowed_iff]
  simp only [Kept, step_owed, step_outbox]
  cases (q.act c event).1 with
  | none => exact iff_of_true kept fun _ h => by cases h
  | some effect =>
    simp only [Option.elim, Option.some.injEq, forall_eq']
    exact h.kept_settle_iff kept effect

/-- Every copy owed is the one the outbox holds, in every state of the run. -/
def KeptThroughout (c : Chrono) (q : Queue) (events : List Event) : Prop :=
  ∀ pre post, events = pre ++ post → (pre.foldl (step c) q).Kept

theorem Tallied.kept_iff (h : q.Tallied) (kept : q.Kept) (events : List Event) :
    KeptThroughout c q events ↔ TransitionRun.Along (step c) (Allowed c) q events := by
  induction events generalizing q with
  | nil =>
    refine iff_of_true (fun pre post split => ?_) trivial
    rw [(List.append_eq_nil_iff.mp split.symm).1]
    exact kept
  | cons event events ih =>
    constructor
    · intro all
      have next : (q.step c event).Kept := all [event] events rfl
      refine ⟨(h.kept_step_iff kept event).mp next, (ih (tallied_step h event) next).mp ?_⟩
      exact fun pre post split => all (event :: pre) post (congrArg (event :: ·) split)
    · rintro ⟨ok, later⟩ pre post split
      have next := (h.kept_step_iff kept event).mpr ok
      cases pre with
      | nil => exact kept
      | cons first pre =>
        cases split
        exact (ih (tallied_step h event) next).mpr later pre post rfl

theorem Tallied.run (h : q.Tallied) (events : List Event) : (events.foldl (step c) q).Tallied :=
  TransitionRun.invariant h (fun _ event h => tallied_step h event) events

/-- A read for the peer succeeds, and returns the copy unless its window is closed by then. -/
def Returned (c : Chrono) (s : ChatStore) (now : Int) (peer : DeviceId) (e : OutboxEntry) : Prop :=
  ∃ entries, s.outboxFor c now peer = .ok entries ∧
    (e ∈ entries ∨ ∃ r, s.retention peer = .ok r ∧ e.expired c r now = true)

/-- The policy of every peer with an entry can be looked up: a read looks at all of them. -/
def Readable (s : ChatStore) : Prop :=
  ∀ (id : String) (other : OutboxEntry), s.outbox[id]? = some (some other) → s.windows other.peerId ≠ some none

def AllReturned (c : Chrono) (q : Queue) : Prop :=
  q.Kept ∧ ∀ p id e, q.owed p id = some e → ∀ now, Returned c q.store now p e

theorem readable_iff {s : ChatStore} (now : Int) : Readable s ↔ ∃ entries, s.outboxPending c now = .ok entries := by
  rw [ChatStore.outboxPending]
  constructor
  · intro readable
    cases read : s.openEntries c now s.outbox.toList with
    | ok entries => exact ⟨entries, rfl⟩
    | error error =>
      obtain ⟨key, other, mem, broken⟩ := ChatStore.openEntries_error_iff.mp ⟨error, read⟩
      exact absurd broken (readable key other (Std.ExtTreeMap.mem_toList_iff_getElem?_eq_some.mp mem))
  · rintro ⟨entries, read⟩ id other held broken
    obtain ⟨_, failed⟩ := ChatStore.openEntries_error_iff.mpr ⟨id, other,
      Std.ExtTreeMap.mem_toList_iff_getElem?_eq_some.mpr held, broken⟩
    cases read.symm.trans failed

theorem Tallied.returned (h : q.Tallied) (kept : q.Kept) (readable : Readable q.store) {p : DeviceId} {id : String}
    {e : OutboxEntry} (owed : q.owed p id = some e) (now : Int) : Returned c q.store now p e := by
  have held := kept p id e owed
  have own := h.own p id e owed
  obtain ⟨entries, read⟩ := (readable_iff (c := c) now).mp readable
  refine ⟨entries.filter (·.peerId = p), by rw [ChatStore.outboxFor, read]; rfl, ?_⟩
  rw [List.mem_filter, ChatStore.mem_outboxPending read]
  cases window : q.store.retention p with
  | ok r =>
    cases due : e.expired c r now with
    | true => exact .inr ⟨r, rfl, due⟩
    | false => exact .inl ⟨⟨id, r, held, own ▸ window, due⟩, decide_eq_true own⟩
  | error error =>
    cases error
    exact absurd (ChatStore.retention_error_iff.mp window) (own ▸ readable id e held)

theorem Tallied.allReturned_iff (h : q.Tallied) (kept : q.Kept) : AllReturned c q ↔ Readable q.store := by
  constructor
  · rintro ⟨-, returned⟩ id other held
    obtain ⟨entries, read, -⟩ := returned other.peerId id other (h.known id other held) 0
    rw [ChatStore.outboxFor] at read
    cases pending : q.store.outboxPending c 0 with
    | error error =>
      rw [pending] at read
      cases read
    | ok entries => exact (readable_iff (c := c) 0).mpr ⟨entries, pending⟩ id other held
  · exact fun readable => ⟨kept, fun p id e owed now => h.returned kept readable owed now⟩

/-- In every run over every store, each peer is kept the copies it is owed, and is returned them, exactly where every
key that is written or removed for a peer is free or that peer's own, what a flush removes is delivered, and the policy
of every peer with an entry can be looked up. -/
theorem queued_copies_kept_iff (c : Chrono) (s : ChatStore) (events : List Event) :
    (KeptThroughout c (idle s) events ↔
      TransitionRun.Along (step c) (Allowed c) (idle s) events) ∧
    ((∀ pre post, events = pre ++ post → AllReturned c (pre.foldl (step c) (idle s))) ↔
      TransitionRun.Along (step c) (Allowed c) (idle s) events ∧
        ∀ pre post, events = pre ++ post → Readable (pre.foldl (step c) (idle s)).store) := by
  obtain ⟨tallied, kept⟩ := tallied_idle s
  have whole := tallied.kept_iff (c := c) kept events
  refine ⟨whole, ?_, ?_⟩
  · intro all
    have throughout : KeptThroughout c (idle s) events := fun pre post split => (all pre post split).1
    refine ⟨whole.mp throughout, fun pre post split => ?_⟩
    exact ((tallied.run pre).allReturned_iff (throughout pre post split)).mp (all pre post split)
  · rintro ⟨allowed, readable⟩ pre post split
    exact ((tallied.run pre).allReturned_iff (whole.mpr allowed pre post split)).mpr (readable pre post split)

private def clock : Chrono := ⟨fun _ => none, fun now secs => some (now - secs * 1000000000), 0⟩

private def hello : ChatMessage := ⟨"m", "2026-01-01T00:00:00Z", "hello", none, some "g"⟩

/-- The second member's copy takes the key of the first's. -/
theorem second_member_replaces_first :
    let q := [Event.enqueue 0 "ann" hello, .enqueue 0 "bob" hello].foldl (step clock) (idle .empty)
    q.owed "ann" "m" = some (ChatStore.textEntry "ann" hello) ∧
      q.store.outboxFor clock 0 "ann" = .ok [] ∧
      ¬ KeptThroughout clock (idle .empty) [.enqueue 0 "ann" hello, .enqueue 0 "bob" hello] := by
  intro q
  have owed : q.owed "ann" "m" = some (ChatStore.textEntry "ann" hello) := by decide
  have read : q.store.outboxFor clock 0 "ann" = .ok [] := by decide
  refine ⟨owed, read, fun all => ?_⟩
  have held := all _ [] rfl "ann" "m" _ owed
  exact absurd held (by decide)

end Queue

end PeerBeam.Chat
