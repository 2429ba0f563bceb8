import PeerBeam.Chat.DeliveryCalls

/-! Runs of everything that is done about queued files, one call at each turn: an entry and its copy go
together and for a reason, refusals are counted as such, and one file is in flight to a peer. -/
namespace PeerBeam.Chat.Delivery

abbrev Queue (ι : Type) := Pool Sender ι Op Op.Answer CallError Unit

section
variable {ι : Type} [DecidableEq ι] (c : Chrono) (deeds : ι → Deed)

def start (disk : Disk) (news : ℕ → Bool × LegOutcome) : Queue ι :=
  .start ⟨disk, ∅, news⟩ fun i => (deeds i).program c

/-- The store may fail; a lock does not, and the failures of a session are its answers. -/
def admitted (w : Queue ι) (t : Turn ι CallError) : Turn ι CallError :=
  match w.next t.thread with
  | some (.inr _) => ⟨t.thread, none⟩
  | _ => t

def step (w : Queue ι) (t : Turn ι CallError) : Queue ι := Pool.step Sender.exec w (admitted w t)

def run (w : Queue ι) (turns : List (Turn ι CallError)) : Queue ι := turns.foldl step w

def entry (w : Queue ι) (id : String) : Option (Option OutboxEntry) := w.state.disk.store.outbox[id]?

def copy (w : Queue ι) (path : String) : Option Bytes := w.state.disk.blobs[path]?

def tried (own : Calls) : Bool :=
  own.any fun a =>
    match a.call with
    | .inl (.deleteOutbox _) => true
    | _ => false

/-- No deletion fails, nor anything the task does after one, and no count puts back an entry that has gone. -/
def undisturbed (w : Queue ι) (t : Turn ι CallError) : Bool :=
  match w.next t.thread, t.failure with
  | some (.inl (.putOutbox e)), none => (entry w e.messageId).isSome
  | some (.inl (.deleteOutbox _)), some _ => false
  | some (.inl _), some _ => !tried (w.own t.thread)
  | _, _ => true

/-- What holds in every state, of the turn before it and of the slots. -/
structure Settles (w : Queue ι) : Prop where
  removed : ∀ t id e, entry w id = some (some e) → entry (step w t) id = none →
    Grounds c (w.own t.thread) (deeds t.thread) id
  counted : ∀ t id e e', entry w id = some (some e) → entry (step w t) id = some (some e') → e' ≠ e →
    e'.messageId = id ∧ Counted (w.own t.thread) (deeds t.thread) e'
  released : ∀ t path, copy (step w t) path ≠ copy w path →
    copy (step w t) path = none ∧ Released (w.own t.thread) path
  sending : ∀ i peer id, w.next i = some (.inr (.runSendOnSession peer id)) → held (w.own i) = some peer
  alone : ∀ i j peer, held (w.own i) = some peer → held (w.own j) = some peer → i = j
  freed : ∀ i out, (w.threads i).outcome = some out → held (w.own i) = none
  slots : ∀ peer, peer ∈ w.state.inFlight ↔ ∃ i, held (w.own i) = some peer

/-- Of every file queued at first: it is there with its copy, or both have gone, or whoever deleted it is
still to remove the copy. -/
def Together (disk : Disk) (w : Queue ι) : Prop :=
  ∀ id e file, disk.store.outbox[id]? = some (some e) → e.file = some file →
    (entry w id).isSome ∧ copy w file.stagedPath = disk.blobs[file.stagedPath]? ∨
    entry w id = none ∧ (copy w file.stagedPath = none ∨
      ∃ i, (w.threads i).outcome = none ∧ Heard (w.own i) (.inl (.deleteOutbox id)) true)

end

section
variable {ι : Type} [DecidableEq ι] {c : Chrono} {deeds : ι → Deed} {w : Queue ι} {t : Turn ι CallError}

omit [DecidableEq ι] in
theorem admitted_thread (w : Queue ι) (t : Turn ι CallError) : (admitted w t).thread = t.thread := by
  rw [admitted]
  split <;> rfl

def answered (w : Queue ι) (t : Turn ι CallError) (op : Op) : Except CallError op.Answer × Sender :=
  Pool.reply Sender.exec w.state (admitted w t).failure op

def turned (w : Queue ι) (t : Turn ι CallError) (op : Op) (next : Except CallError op.Answer → Async Unit) : Queue ι :=
  ⟨(answered w t op).2, Function.update w.threads t.thread (next (answered w t op).1),
    w.history ++ [(t.thread, ⟨op, (answered w t op).1⟩)]⟩

/-- A turn is a call of its thread or changes nothing. -/
theorem step_cases (w : Queue ι) (t : Turn ι CallError) :
    (∃ op next, w.threads t.thread = .call op next ∧ step w t = turned w t op next) ∨ step w t = w := by
  rcases Pool.step_cases Sender.exec w (admitted w t) with ⟨op, next, turn, after⟩ | ⟨-, after⟩
  · rw [admitted_thread] at turn after
    exact .inl ⟨op, next, turn, after⟩
  · exact .inr after

omit [DecidableEq ι] in
theorem answered_link {call : LinkCall} (due : w.next t.thread = some (.inr call)) :
    answered w t (.inr call) = w.state.exec (.inr call) := by
  rw [answered, admitted, due]
  rfl

omit [DecidableEq ι] in
theorem answered_call {call : Call} (due : w.next t.thread = some (.inl call)) :
    answered w t (.inl call) = Pool.reply Sender.exec w.state t.failure (.inl call) := by
  rw [answered, admitted, due]

theorem entry_reply (s : Sender) (failure : Option CallError) (op : Op) (key : String) :
    (Pool.reply Sender.exec s failure op).2.disk.store.outbox[key]? = s.disk.store.outbox[key]? ∨
      (op = .inl (.deleteOutbox key) ∧ (Pool.reply Sender.exec s failure op).2.disk.store.outbox[key]? = none) ∨
      ∃ e, op = .inl (.putOutbox e) ∧ failure = none ∧ e.messageId = key ∧
        (Pool.reply Sender.exec s failure op).2.disk.store.outbox[key]? = some (some e) := by
  cases failure with
  | some e => exact .inl rfl
  | none =>
    rcases op with call | call
    · cases call with
      | putOutbox e =>
        show (s.disk.store.outbox.insert e.messageId (some e))[key]? = _ ∨ _
        by_cases same : e.messageId = key
        · refine .inr (.inr ⟨e, rfl, rfl, same, ?_⟩)
          show (s.disk.store.outbox.insert e.messageId (some e))[key]? = _
          rw [SortedMap.get_insert, if_pos same]
        · rw [SortedMap.get_insert, if_neg same]
          exact .inl rfl
      | deleteOutbox id =>
        show (s.disk.store.outbox.erase id)[key]? = _ ∨ _
        by_cases same : id = key
        · subst same
          refine .inr (.inl ⟨rfl, ?_⟩)
          show (s.disk.store.outbox.erase id)[id]? = none
          rw [SortedMap.get_erase, if_pos rfl]
        · rw [SortedMap.get_erase, if_neg same]
          exact .inl rfl
      | _ => exact .inl rfl
    · cases call <;> exact .inl rfl

theorem copy_reply (s : Sender) (failure : Option CallError) (op : Op) (path : String)
    (spares : (∀ path, op ≠ .inl (.createBlob path)) ∧ ∀ path bytes, op ≠ .inl (.writeBlob path bytes)) :
    (Pool.reply Sender.exec s failure op).2.disk.blobs[path]? = s.disk.blobs[path]? ∨
      op = .inl (.removeBlob path) ∧ (Pool.reply Sender.exec s failure op).2.disk.blobs[path]? = none := by
  cases failure with
  | some e => exact .inl rfl
  | none =>
    rcases op with call | call
    · cases call with
      | createBlob path => exact absurd rfl (spares.1 path)
      | writeBlob path bytes => exact absurd rfl (spares.2 path bytes)
      | removeBlob gone =>
        by_cases same : gone = path
        · subst same
          refine .inr ⟨rfl, ?_⟩
          show (s.disk.blobs.erase gone)[gone]? = none
          rw [SortedMap.get_erase, if_pos rfl]
        · refine .inl ?_
          show (s.disk.blobs.erase gone)[path]? = _
          rw [SortedMap.get_erase, if_neg same]
      | _ => exact .inl rfl
    · cases call <;> exact .inl rfl

structure Slots (inFlight : Finset DeviceId) (holds : ι → Option DeviceId) : Prop where
  taken : ∀ peer, peer ∈ inFlight ↔ ∃ i, holds i = some peer
  alone : ∀ i j peer, holds i = some peer → holds j = some peer → i = j

theorem Slots.claim {inFlight : Finset DeviceId} {holds : ι → Option DeviceId} (h : Slots inFlight holds)
    {i : ι} {peer : DeviceId} (free : peer ∉ inFlight) (idle : holds i = none) :
    Slots (insert peer inFlight) (Function.update holds i (some peer)) := by
  have nobody (j : ι) : holds j ≠ some peer := fun taken => free ((h.taken peer).mpr ⟨j, taken⟩)
  refine ⟨fun other => ?_, fun j k other at_j at_k => ?_⟩
  · rw [Finset.mem_insert, h.taken other]
    constructor
    · rintro (rfl | ⟨j, at_j⟩)
      · exact ⟨i, Function.update_self ..⟩
      · refine ⟨j, (Function.update_of_ne (fun same => ?_) ..).trans at_j⟩
        rw [same, idle] at at_j
        cases at_j
    · rintro ⟨j, at_j⟩
      by_cases same : j = i
      · subst same
        rw [Function.update_self] at at_j
        exact .inl (Option.some.inj at_j).symm
      · exact .inr ⟨j, (Function.update_of_ne same ..).symm.trans at_j⟩
  · rw [Function.update_apply] at at_j at_k
    split at at_j
    next j_is =>
      split at at_k
      next k_is => exact j_is.trans k_is.symm
      next => exact absurd (at_k.trans at_j.symm) (nobody k)
    next =>
      split at at_k
      next => exact absurd (at_j.trans at_k.symm) (nobody j)
      next => exact h.alone j k other at_j at_k

theorem Slots.release {inFlight : Finset DeviceId} {holds : ι → Option DeviceId} (h : Slots inFlight holds)
    {i : ι} {peer : DeviceId} (own : holds i = some peer) :
    Slots (inFlight.erase peer) (Function.update holds i none) := by
  have still (j : ι) (other : DeviceId) (at_j : Function.update holds i none j = some other) :
      j ≠ i ∧ holds j = some other := by
    by_cases same : j = i
    · subst same
      rw [Function.update_self] at at_j
      cases at_j
    · exact ⟨same, (Function.update_of_ne same ..).symm.trans at_j⟩
  refine ⟨fun other => ?_, fun j k other at_j at_k => ?_⟩
  · rw [Finset.mem_erase, h.taken other]
    constructor
    · rintro ⟨differs, j, at_j⟩
      refine ⟨j, (Function.update_of_ne (fun same => differs ?_) ..).trans at_j⟩
      rw [same] at at_j
      exact Option.some.inj (at_j.symm.trans own)
    · rintro ⟨j, at_j⟩
      obtain ⟨apart, there⟩ := still j other at_j
      refine ⟨fun same => apart (h.alone j i peer ?_ own), j, there⟩
      rw [there, same]
  · exact h.alone j k other (still j other at_j).2 (still k other at_k).2

structure Orderly (c : Chrono) (deeds : ι → Deed) (w : Queue ι) : Prop where
  guarded : w.Keeps (fun _ => Honest) (fun i => Due c (deeds i)) (fun _ _ => Ends) fun _ _ => Ends
  keyed : ∀ key e, entry w key = some (some e) → e.messageId = key
  slots : Slots w.state.inFlight fun i => held (w.own i)

omit [DecidableEq ι] in
/-- What is heard is as it is kept. -/
theorem honest_answered (keyed : ∀ key e, entry w key = some (some e) → e.messageId = key) (own : Calls) {op : Op}
    (due : w.next t.thread = some op) : Honest own op (answered w t op).1 := by
  rcases op with call | call
  · rw [answered_call due]
    cases t.failure with
    | some e => cases call <;> trivial
    | none =>
      cases call with
      | listOutbox => exact fun key e mem => keyed key e (Std.ExtTreeMap.mem_toList_iff_getElem?_eq_some.mp mem)
      | getOutbox id =>
        show Honest own (.inl (.getOutbox id)) (.ok (entry w id))
        cases here : entry w id with
        | none => trivial
        | some value =>
          cases value with
          | none => trivial
          | some e => exact keyed id e here
      | _ => trivial
  · rw [answered_link due]
    cases call <;> trivial

theorem own_turned {op : Op} {next : Except CallError op.Answer → Async Unit} (i : ι) :
    (turned w t op next).own i = if t.thread = i then w.own i ++ [⟨op, (answered w t op).1⟩] else w.own i := by
  rw [turned, Pool.own_push]
  split
  · rfl
  · exact List.append_nil _

/-- Who holds a slot after a turn. -/
theorem held_turned {op : Op} {next : Except CallError op.Answer → Async Unit} :
    (fun i => held ((turned w t op next).own i)) = Function.update (fun i => held (w.own i)) t.thread
      (slotAfter (held (w.own t.thread)) ⟨op, (answered w t op).1⟩) := by
  funext i
  show held ((turned w t op next).own i) = _
  rw [own_turned, Function.update_apply]
  split
  next same =>
    subst same
    rw [if_pos rfl, held_push]
  next differs => rw [if_neg (Ne.symm differs)]

theorem Orderly.slots_turned (h : Orderly c deeds w) {op : Op} {next : Except CallError op.Answer → Async Unit}
    (turn : w.threads t.thread = .call op next) :
    Slots (turned w t op next).state.inFlight fun i => held ((turned w t op next).own i) := by
  have due : w.next t.thread = some op := by rw [Pool.next, turn]
  have must : Due c (deeds t.thread) (w.own t.thread) op := h.guarded.call turn
  have idle (same : slotAfter (held (w.own t.thread)) ⟨op, (answered w t op).1⟩ = held (w.own t.thread)) :
      Function.update (fun i => held (w.own i)) t.thread
        (slotAfter (held (w.own t.thread)) ⟨op, (answered w t op).1⟩) = fun i => held (w.own i) := by
    rw [same]
    exact Function.update_eq_self t.thread fun i => held (w.own i)
  rw [held_turned]
  show Slots (answered w t op).2.inFlight _
  rcases op with call | call
  · rw [idle rfl, answered_call due]
    cases t.failure <;> exact h.slots
  · rw [answered_link due] at idle ⊢
    cases call with
    | claimFileSlot peer =>
      show Slots (insert peer w.state.inFlight)
        (Function.update _ _ (slotAfter _ ⟨.inr (.claimFileSlot peer), .ok (decide (peer ∉ w.state.inFlight))⟩))
      by_cases taken : peer ∈ w.state.inFlight
      · rw [Finset.insert_eq_of_mem taken, decide_eq_false (not_not.mpr taken)]
        show Slots _ (Function.update _ t.thread ((fun i => held (w.own i)) t.thread))
        rw [Function.update_eq_self]
        exact h.slots
      · rw [decide_eq_true taken]
        exact h.slots.claim taken must
    | releaseFileSlot peer => exact h.slots.release must
    | _ => rw [idle rfl]; exact h.slots

theorem Orderly.step (h : Orderly c deeds w) (t : Turn ι CallError) : Orderly c deeds (step w t) := by
  rcases step_cases w t with ⟨op, next, turn, after⟩ | same
  · have due : w.next t.thread = some op := by rw [Pool.next, turn]
    refine ⟨?_, fun key e here => ?_, after ▸ h.slots_turned turn⟩
    · refine Pool.Keeps.step h.guarded (admitted w t) fun op' due' => ?_
      rw [admitted_thread] at due' ⊢
      cases due.symm.trans due'
      exact honest_answered h.keyed _ due
    · rw [entry, after] at here
      rcases entry_reply w.state (admitted w t).failure op key with same | ⟨-, none⟩ | ⟨e', -, -, keyed, put⟩
      · exact h.keyed key e (same.symm.trans here)
      · cases none.symm.trans here
      · cases put.symm.trans here
        exact keyed
  · rw [same]
    exact h

theorem Due.spares {deed : Deed} {own : Calls} {op : Op} (h : Due c deed own op) :
    (∀ path, op ≠ .inl (.createBlob path)) ∧ ∀ path bytes, op ≠ .inl (.writeBlob path bytes) := by
  constructor
  · rintro path rfl
    exact h
  · rintro path bytes rfl
    exact h

theorem Orderly.in_order (h : Orderly c deeds w) : Settles c deeds w where
  removed t id e here gone := by
    rcases step_cases w t with ⟨op, next, turn, after⟩ | same
    · have must : Due c (deeds t.thread) (w.own t.thread) op := h.guarded.call turn
      rw [entry, after] at gone
      rcases entry_reply w.state (admitted w t).failure op id with same | ⟨rfl, -⟩ | ⟨e', -, -, -, put⟩
      · cases (same.symm.trans gone).symm.trans here
      · exact must
      · cases put.symm.trans gone
    · rw [same, here] at gone
      cases gone
  counted t id e e' here there other := by
    rcases step_cases w t with ⟨op, next, turn, after⟩ | same
    · have must : Due c (deeds t.thread) (w.own t.thread) op := h.guarded.call turn
      rw [entry, after] at there
      rcases entry_reply w.state (admitted w t).failure op id with same | ⟨-, none⟩ | ⟨e'', rfl, -, keyed, put⟩
      · cases (same.symm.trans there).symm.trans here
        exact absurd rfl other
      · cases none.symm.trans there
      · cases put.symm.trans there
        exact ⟨keyed, must⟩
    · rw [same, here] at there
      cases there
      exact absurd rfl other
  released t path other := by
    rcases step_cases w t with ⟨op, next, turn, after⟩ | same
    · have must : Due c (deeds t.thread) (w.own t.thread) op := h.guarded.call turn
      rw [copy, copy, after] at other
      rw [copy, after]
      rcases copy_reply w.state (admitted w t).failure op path (Due.spares must) with same | ⟨rfl, gone⟩
      · exact absurd same other
      · exact ⟨gone, must⟩
    · exact absurd (by rw [same]) other
  sending i peer id turn := h.guarded.next turn
  alone := h.slots.alone
  freed i out ended := by
    have ends := h.guarded i
    cases at' : w.threads i with
    | ret a => rw [at'] at ends; exact ends.1
    | fail e => rw [at'] at ends; exact ends.1
    | call op next => rw [at'] at ended; cases ended
  slots := h.slots.taken

def Read (own : Calls) (key : String) (e : OutboxEntry) : Prop :=
  Listed own key e ∨ Heard own (.inl (.getOutbox key)) (some (some e))

def Original (disk : Disk) (key : String) (e : OutboxEntry) : Prop :=
  ∃ e₀, disk.store.outbox[key]? = some (some e₀) ∧ e.file = e₀.file

structure Kept (c : Chrono) (deeds : ι → Deed) (disk : Disk) (w : Queue ι) : Prop where
  made : w.Made fun i => Due c (deeds i)
  origin : ∀ key e, entry w key = some (some e) → Original disk key e
  told : ∀ i key e, Read (w.own i) key e → Original disk key e
  gone : ∀ i id r, Asked.mk (.inl (.deleteOutbox id)) r ∈ w.own i → entry w id = none
  missing : ∀ key, disk.store.outbox[key]? ≠ none → entry w key = none →
    ∃ i, Heard (w.own i) (.inl (.deleteOutbox key)) true
  removed : ∀ i path r, Asked.mk (.inl (.removeBlob path)) r ∈ w.own i → copy w path = none
  lasting : ∀ path, copy w path = disk.blobs[path]? ∨ ∃ i r, Asked.mk (.inl (.removeBlob path)) r ∈ w.own i
  smooth : ∀ i, Smooth (w.own i)

theorem exec_ok (s : Sender) (op : Op) : (s.exec op).1.isOk := by
  rcases op with call | call
  · cases call <;> rfl
  · cases call <;> rfl

theorem tried_iff {own : Calls} : tried own = true ↔ ∃ id r, Asked.mk (.inl (.deleteOutbox id)) r ∈ own := by
  rw [tried, List.any_eq_true]
  constructor
  · rintro ⟨⟨op, r⟩, mem, is_deletion⟩
    dsimp only at is_deletion
    split at is_deletion
    next id => exact ⟨id, r, mem⟩
    next => cases is_deletion
  · rintro ⟨id, r, mem⟩
    exact ⟨_, mem, rfl⟩

theorem Released.tried {own : Calls} {path : String} (h : Released own path) : tried own = true := by
  obtain ⟨id, e, file, -, -, -, r, mem⟩ := h
  exact tried_iff.mpr ⟨id, r, mem⟩

theorem Counted.read {own : Calls} {deed : Deed} {e' : OutboxEntry} (h : Counted own deed e') :
    ∃ e, Read own e'.messageId e ∧ e'.file = e.file := by
  cases deed with
  | deliver now peer =>
    obtain ⟨⟨e, told, same⟩, -⟩ := h
    exact ⟨e, .inr told, by rw [same]; rfl⟩
  | _ => exact h.elim

/-- Where nothing is disturbed, no call of a task fails that has tried a deletion, or tries one. -/
theorem undisturbed_succeeds {op : Op} (due : w.next t.thread = some op) (ok : undisturbed w t = true)
    (deletes : tried (w.own t.thread ++ [⟨op, (answered w t op).1⟩]) = true) :
    answered w t op = w.state.exec op := by
  rcases op with call | call
  · rw [answered_call due] at deletes ⊢
    cases failure : t.failure with
    | none => rfl
    | some e =>
      have silent : tried (w.own t.thread) = false ∧ ∀ id, call ≠ .deleteOutbox id := by
        rw [undisturbed, due, failure] at ok
        cases call with
        | deleteOutbox id => cases ok
        | _ => exact ⟨(Bool.not_eq_true' _).mp ok, nofun⟩
      obtain ⟨id, r, mem⟩ := tried_iff.mp deletes
      rcases List.mem_append.mp mem with old | new
      · exact absurd (tried_iff.mpr ⟨id, r, old⟩) (by rw [silent.1]; exact Bool.false_ne_true)
      · cases List.mem_singleton.mp new
        exact absurd rfl (silent.2 id)
  · exact answered_link due

theorem Kept.origin_turned {disk : Disk} (h : Kept c deeds disk w) {op : Op}
    {next : Except CallError op.Answer → Async Unit} (must : Due c (deeds t.thread) (w.own t.thread) op)
    {key : String} {e : OutboxEntry} (here : entry (turned w t op next) key = some (some e)) :
    Original disk key e := by
  rcases entry_reply w.state (admitted w t).failure op key with same | ⟨-, none⟩ | ⟨e', rfl, -, rfl, put⟩
  · exact h.origin key e (same.symm.trans here)
  · cases none.symm.trans here
  · cases put.symm.trans here
    obtain ⟨e₁, read, file⟩ := Counted.read must
    obtain ⟨e₀, first, same⟩ := h.told t.thread _ e₁ read
    exact ⟨e₀, first, file.trans same⟩

/-- A call that somebody has made after a turn. -/
theorem mem_own_turned {op : Op} {next : Except CallError op.Answer → Async Unit} {i : ι}
    {a : Asked Op Op.Answer CallError} :
    a ∈ (turned w t op next).own i ↔ a ∈ w.own i ∨ t.thread = i ∧ a = ⟨op, (answered w t op).1⟩ := by
  rw [own_turned]
  split
  next same => rw [List.mem_append, List.mem_singleton, and_iff_right same]
  next differs => exact ⟨.inl, fun h => h.resolve_right fun new => differs new.1⟩

omit [DecidableEq ι] in
/-- What is read is there. -/
theorem read_entry {op : Op} (due : w.next t.thread = some op) {key : String} {e : OutboxEntry}
    (read : Read [⟨op, (answered w t op).1⟩] key e) : entry w key = some (some e) := by
  rcases read with ⟨raw, heard, mem⟩ | heard
  · have same := List.mem_singleton.mp heard
    cases (congrArg Asked.call same : Sum.inl Call.listOutbox = op)
    rw [answered_call due] at same
    cases failure : t.failure with
    | some e => rw [failure] at same; cases same
    | none =>
      rw [failure] at same
      cases same
      exact Std.ExtTreeMap.mem_toList_iff_getElem?_eq_some.mp mem
  · have same := List.mem_singleton.mp heard
    cases (congrArg Asked.call same : Sum.inl (Call.getOutbox key) = op)
    rw [answered_call due] at same
    cases failure : t.failure with
    | some e => rw [failure] at same; cases same
    | none =>
      rw [failure] at same
      have here : (some (some e)) = entry w key := Except.ok.inj (eq_of_heq (Asked.mk.inj same).2)
      exact here.symm

theorem Kept.told_turned {disk : Disk} (h : Kept c deeds disk w) {op : Op}
    {next : Except CallError op.Answer → Async Unit} (due : w.next t.thread = some op) {i : ι} {key : String}
    {e : OutboxEntry} (read : Read ((turned w t op next).own i) key e) : Original disk key e := by
  have split : Read (w.own i) key e ∨ Read [⟨op, (answered w t op).1⟩] key e := by
    rcases read with ⟨raw, heard, mem⟩ | heard
    · exact (mem_own_turned.mp heard).imp (fun old => .inl ⟨raw, old, mem⟩)
        fun new => .inl ⟨raw, List.mem_singleton.mpr new.2, mem⟩
    · exact (mem_own_turned.mp heard).imp .inr fun new => .inr (List.mem_singleton.mpr new.2)
  rcases split with old | new
  · exact h.told i key e old
  · exact h.origin key e (read_entry due new)

theorem Kept.gone_turned {disk : Disk} (h : Kept c deeds disk w) {op : Op}
    {next : Except CallError op.Answer → Async Unit} (due : w.next t.thread = some op)
    (ok : undisturbed w t = true) {i : ι} {id : String} {r : Except CallError Bool}
    (mem : Asked.mk (.inl (.deleteOutbox id)) r ∈ (turned w t op next).own i) :
    entry (turned w t op next) id = none := by
  rcases mem_own_turned.mp mem with old | ⟨-, new⟩
  · have before := h.gone i id r old
    rcases entry_reply w.state (admitted w t).failure op id with same | ⟨-, none⟩ | ⟨e, rfl, failure, rfl, -⟩
    · exact same.trans before
    · exact none
    · have unfailed : t.failure = none := by
        rw [admitted, due] at failure
        exact failure
      rw [undisturbed, due, unfailed] at ok
      have there : (entry w e.messageId).isSome = true := ok
      rw [before] at there
      cases there
  · cases (congrArg Asked.call new : Sum.inl (Call.deleteOutbox id) = op)
    have done := undisturbed_succeeds due ok (tried_iff.mpr ⟨id, _, List.mem_append_right _ List.mem_cons_self⟩)
    show (answered w t _).2.disk.store.outbox[id]? = none
    rw [done]
    show (w.state.disk.store.outbox.erase id)[id]? = none
    rw [SortedMap.get_erase, if_pos rfl]

theorem Kept.missing_turned {disk : Disk} (h : Kept c deeds disk w) {op : Op}
    {next : Except CallError op.Answer → Async Unit} (due : w.next t.thread = some op)
    (ok : undisturbed w t = true) {key : String} (first : disk.store.outbox[key]? ≠ none)
    (none : entry (turned w t op next) key = none) :
    ∃ i, Heard ((turned w t op next).own i) (.inl (.deleteOutbox key)) true := by
  cases before : entry w key with
  | none =>
    obtain ⟨i, deleted⟩ := h.missing key first before
    exact ⟨i, mem_own_turned.mpr (.inl deleted)⟩
  | some value =>
    rcases entry_reply w.state (admitted w t).failure op key with same | ⟨rfl, -⟩ | ⟨e, -, -, -, put⟩
    · cases before.symm.trans (same.symm.trans none)
    · have done := undisturbed_succeeds due ok (tried_iff.mpr ⟨key, _, List.mem_append_right _ List.mem_cons_self⟩)
      have answer : (answered w t (.inl (.deleteOutbox key))).1 = .ok true := by
        rw [done]
        show Except.ok (entry w key).isSome = _
        rw [before]
        rfl
      exact ⟨t.thread, mem_own_turned.mpr (.inr ⟨rfl, by rw [answer]⟩)⟩
    · cases put.symm.trans none

theorem Kept.removed_turned {disk : Disk} (h : Kept c deeds disk w) {op : Op}
    {next : Except CallError op.Answer → Async Unit} (must : Due c (deeds t.thread) (w.own t.thread) op)
    (due : w.next t.thread = some op) (ok : undisturbed w t = true) {i : ι} {path : String}
    {r : Except CallError Bool} (mem : Asked.mk (.inl (.removeBlob path)) r ∈ (turned w t op next).own i) :
    copy (turned w t op next) path = none := by
  rcases mem_own_turned.mp mem with old | ⟨-, new⟩
  · have before := h.removed i path r old
    rcases copy_reply w.state (admitted w t).failure op path (Due.spares must) with same | ⟨-, none⟩
    · exact same.trans before
    · exact none
  · cases (congrArg Asked.call new : Sum.inl (Call.removeBlob path) = op)
    have released : Released (w.own t.thread) path := must
    have deletes := tried_iff.mp released.tried
    obtain ⟨id, r', before⟩ := deletes
    have done := undisturbed_succeeds due ok (tried_iff.mpr ⟨id, r', List.mem_append_left _ before⟩)
    show (answered w t _).2.disk.blobs[path]? = none
    rw [done]
    show (w.state.disk.blobs.erase path)[path]? = none
    rw [SortedMap.get_erase, if_pos rfl]

theorem Kept.lasting_turned {disk : Disk} (h : Kept c deeds disk w) {op : Op}
    {next : Except CallError op.Answer → Async Unit} (must : Due c (deeds t.thread) (w.own t.thread) op)
    (path : String) : copy (turned w t op next) path = disk.blobs[path]? ∨
      ∃ i r, Asked.mk (.inl (.removeBlob path)) r ∈ (turned w t op next).own i := by
  rcases copy_reply w.state (admitted w t).failure op path (Due.spares must) with same | ⟨rfl, -⟩
  · rcases h.lasting path with here | ⟨i, r, mem⟩
    · exact .inl (same.trans here)
    · exact .inr ⟨i, r, mem_own_turned.mpr (.inl mem)⟩
  · exact .inr ⟨t.thread, _, mem_own_turned.mpr (.inr ⟨rfl, rfl⟩)⟩

theorem Kept.smooth_turned {disk : Disk} (h : Kept c deeds disk w) {op : Op}
    {next : Except CallError op.Answer → Async Unit} (due : w.next t.thread = some op)
    (ok : undisturbed w t = true) (i : ι) : Smooth ((turned w t op next).own i) := by
  rw [own_turned]
  split
  next same =>
    subst same
    intro pre a post split deletes
    rcases List.eq_nil_or_concat post with rfl | ⟨post, last, rfl⟩
    · obtain ⟨rfl, new⟩ := List.append_inj' split rfl
      cases new
      rw [undisturbed_succeeds due ok (tried_iff.mpr deletes)]
      exact exec_ok w.state op
    · rw [List.concat_eq_append, ← List.cons_append, ← List.append_assoc] at split
      exact h.smooth t.thread pre a post (List.append_inj' split rfl).1 deletes
  next => exact h.smooth i

theorem Kept.step {disk : Disk} (h : Kept c deeds disk w) (orderly : Orderly c deeds w)
    (ok : undisturbed w t = true) : Kept c deeds disk (step w t) := by
  have made : (Delivery.step w t).Made fun i => Due c (deeds i) := by
    refine Pool.Made.step h.made (admitted w t) fun op due => ?_
    rw [admitted_thread] at due ⊢
    exact orderly.guarded.next due
  rcases step_cases w t with ⟨op, next, turn, after⟩ | same
  · have due : w.next t.thread = some op := by rw [Pool.next, turn]
    have must : Due c (deeds t.thread) (w.own t.thread) op := orderly.guarded.call turn
    rw [after] at made ⊢
    exact {
      made := made
      origin := fun _ _ here => h.origin_turned must here
      told := fun _ _ _ read => h.told_turned due read
      gone := fun _ _ _ mem => h.gone_turned due ok mem
      missing := fun _ first none => h.missing_turned due ok first none
      removed := fun _ _ _ mem => h.removed_turned must due ok mem
      lasting := fun path => h.lasting_turned must path
      smooth := fun i => h.smooth_turned due ok i }
  · rw [same]
    exact h

/-- A copy that was removed was that of an entry whose deletion was tried. -/
theorem Kept.deleted_of_removed {disk : Disk} {root : String} (h : Kept c deeds disk w) (housed : Housed root disk)
    {i : ι} {id : String} {e : OutboxEntry} {file : StagedFile} {r : Except CallError Bool}
    (queued : disk.store.outbox[id]? = some (some e)) (isFile : e.file = some file)
    (mem : Asked.mk (.inl (.removeBlob file.stagedPath)) r ∈ w.own i) : entry w id = none := by
  obtain ⟨pre, post, split⟩ := List.append_of_mem mem
  obtain ⟨id', e', file', listed, isFile', place, r', deleted⟩ := h.made i pre _ post split
  have sub : pre ⊆ w.own i := by
    rw [split]
    exact List.subset_append_left ..
  obtain ⟨e₀, first, same⟩ := h.told i id' e' (.inl (listed.mono sub))
  have theirs := (housed.whole id' e₀ file' first (same.symm.trans isFile')).1
  have ours := (housed.whole id e file queued isFile).1
  rw [place] at theirs
  rw [blobPath_inj ours theirs]
  exact h.gone i id' r' (sub deleted)

theorem Kept.together {disk : Disk} {root : String} (h : Kept c deeds disk w) (orderly : Orderly c deeds w)
    (housed : Housed root disk) : Together disk w := by
  intro id e file queued isFile
  cases here : entry w id with
  | some value =>
    refine .inl ⟨rfl, ?_⟩
    rcases h.lasting file.stagedPath with there | ⟨i, r, mem⟩
    · exact there
    · cases here.symm.trans (h.deleted_of_removed housed queued isFile mem)
  | none =>
    refine .inr ⟨rfl, ?_⟩
    obtain ⟨i, deleted⟩ := h.missing id (by rw [queued]; exact Option.some_ne_none _) here
    cases ended : (w.threads i).outcome with
    | none => exact .inr ⟨i, ended, deleted⟩
    | some out =>
      have ends : Ends (w.own i) := by
        have guarded := orderly.guarded i
        cases at' : w.threads i with
        | ret a => rw [at'] at guarded; exact guarded
        | fail e => rw [at'] at guarded; exact guarded
        | call op next => rw [at'] at ended; cases ended
      obtain ⟨e', listed, removed⟩ := ends.2 (h.smooth i) id deleted
      obtain ⟨e₀, first, same⟩ := h.told i id e' (.inl listed)
      cases queued.symm.trans first
      rcases removed file (same.trans isFile) with left | ⟨r, mem⟩
      · cases left
      · exact .inl (h.removed i file.stagedPath r mem)

theorem Orderly.start {disk : Disk} (keyed : ∀ (key : String) (e : OutboxEntry),
    disk.store.outbox[key]? = some (some e) → e.messageId = key) (news : ℕ → Bool × LegOutcome) :
    Orderly c deeds (start c deeds disk news) where
  guarded i := guards_program (deeds i)
  keyed := keyed
  slots := by
    refine ⟨fun peer => ⟨fun taken => absurd taken (Finset.notMem_empty peer), ?_⟩, ?_⟩
    · rintro ⟨i, held⟩
      cases held
    · intro i j peer held
      cases held

theorem Kept.start {disk : Disk} (news : ℕ → Bool × LegOutcome) :
    Kept c deeds disk (start c deeds disk news) where
  made i pre a post split := by
    have none : [] = pre ++ a :: post := split
    cases (List.append_eq_nil_iff.mp none.symm).2
  origin key e here := ⟨e, here, rfl⟩
  told i key e read := by
    rcases read with ⟨raw, heard, -⟩ | heard
    · cases heard
    · cases heard
  gone i id r mem := nomatch mem
  missing key first none := absurd none first
  removed i path r mem := nomatch mem
  lasting path := .inl rfl
  smooth i pre a post split := by
    have none : [] = pre ++ a :: post := split
    cases (List.append_eq_nil_iff.mp none.symm).2

theorem Orderly.run (h : Orderly c deeds w) (turns : List (Turn ι CallError)) : Orderly c deeds (run w turns) :=
  TransitionRun.invariant h (fun _ t h => h.step t) turns

end

section
variable {ι : Type} [DecidableEq ι] (c : Chrono) (deeds : ι → Deed)

/-- Whatever is done about queued files, entries and copies go for a reason, refusals are counted as such, every
exit frees the slot, and no two files to one peer are in flight; where nothing is disturbed, an entry
and its copy go together. -/
theorem queued_files_settle {root : String} {disk : Disk} (housed : Housed root disk)
    (news : ℕ → Bool × LegOutcome) (turns : List (Turn ι CallError)) :
    Settles c deeds (run (start c deeds disk news) turns) ∧
      (TransitionRun.Along step (fun w t => undisturbed w t = true) (start c deeds disk news) turns →
        Together disk (run (start c deeds disk news) turns)) := by
  have first : Orderly c deeds (start c deeds disk news) := .start housed.keyed news
  refine ⟨(first.run turns).in_order, fun ok => ?_⟩
  have kept : Orderly c deeds (run (start c deeds disk news) turns) ∧
      Kept c deeds disk (run (start c deeds disk news) turns) :=
    ok.invariant (I := fun w => Orderly c deeds w ∧ Kept c deeds disk w) ⟨first, .start news⟩
      fun w t inv ok => ⟨inv.1.step t, inv.2.step inv.1 ok⟩
  exact kept.2.together kept.1 housed

end

private def chrono : Chrono where
  parse _ := some 0
  checkedSub now secs := some (now - secs)
  minUtc := 0

private def photoCopy : StagedFile := ⟨"photo.jpg", 1, "/q/m1"⟩

private def photoRef : FileRef := ⟨"m1", "2026-01-01T00:00:00Z", "photo.jpg", 1⟩

private def photo : OutboxEntry := ChatStore.fileEntry "ann" photoRef photoCopy

private def photoRow : ChatRecord := .fileOut 5 "ann" photoRef ⟨"photo.jpg", 1, none⟩ .pending

private def waiting : Disk where
  store :=
    { conversations := (∅ : Std.ExtTreeMap DeviceId (Rows ChatRecord)).insert "ann"
        ((∅ : Rows ChatRecord).insert "m1" (some photoRow))
      outbox := (∅ : Rows OutboxEntry).insert "m1" (some photo)
      windows := fun peer => if peer = "ann" then some (some ⟨some 1⟩) else none
      landings := fun _ _ => none }
  blobs := (∅ : Std.ExtTreeMap String Bytes).insert "/q/m1" [7]

private def turns (n : ℕ) : List (Turn Unit CallError) := List.replicate n ⟨(), none⟩

private def pruned (n : ℕ) : Queue Unit :=
  run (start chrono (fun _ => .prune 5 "ann") waiting fun _ => (true, .delivered)) (turns n)

private theorem waiting_entry {key : String} {e : OutboxEntry}
    (here : waiting.store.outbox[key]? = some (some e)) : "m1" = key ∧ photo = e := by
  rw [waiting, SortedMap.get_insert] at here
  split at here
  next same =>
    cases here
    exact ⟨same, rfl⟩
  next => cases here

private theorem waiting_housed : Housed "/q" waiting where
  keyed key e here := by
    obtain ⟨rfl, rfl⟩ := waiting_entry here
    rfl
  owns key e here _ := by
    obtain ⟨rfl, rfl⟩ := waiting_entry here
    rfl
  whole key e file here isFile := by
    obtain ⟨rfl, rfl⟩ := waiting_entry here
    cases isFile
    exact ⟨by decide +kernel, [7], by decide, rfl⟩
  placed path there := by
    rw [waiting, SortedMap.get_insert] at there
    split at there
    next same => exact ⟨"m1", by rw [← same]; decide +kernel⟩
    next => exact absurd rfl there

/-- A prune deletes the entry, though nothing came of the file, and its row is there; and a failure then leaves
the copy. -/
theorem waiting_entry_pruned :
    entry (pruned 2) "m1" = some (some photo) ∧ entry (pruned 3) "m1" = none ∧
      (∀ deed, ¬ Settled chrono ((pruned 2).own ()) deed "m1") ∧
      ((pruned 3).state.disk.store.rows "ann")["m1"]? = some (some photoRow) ∧
      let w := step (pruned 3) ⟨(), some .serialization⟩
      (w.threads ()).outcome = some (.error .serialization) ∧ entry w "m1" = none ∧
        copy w "/q/m1" = some [7] := by
  have calls (a : Asked Op Op.Answer CallError) (mem : a ∈ (pruned 2).own ()) :
      a.call = .inl (.getWindow "ann") ∨ a.call = .inl .listOutbox := by
    rcases List.mem_cons.mp mem with rfl | mem
    · exact .inl rfl
    · rw [List.mem_singleton.mp mem]
      exact .inr rfl
  have nothing (deed : Deed) (id : String) (settled : Settled chrono ((pruned 2).own ()) deed id) : False := by
    cases settled with
    | delivered leg => rcases calls _ leg with call | call <;> cases call
    | stopped leg => rcases calls _ leg with call | call <;> cases call
    | declined row =>
      obtain ⟨rec, told, -⟩ := row
      rcases calls _ told with call | call <;> cases call
    | sent row =>
      obtain ⟨rec, told, -⟩ := row
      rcases calls _ told with call | call <;> cases call
    | gone row =>
      rcases row with told | ⟨rec, r, told, -⟩
      · rcases calls _ told with call | call <;> cases call
      · rcases calls _ told with call | call <;> cases call
    | refused counted => rcases calls _ counted with call | call <;> cases call
    | cancelled told => rcases calls _ told with call | call <;> cases call
  exact ⟨by decide, by decide, fun deed => nothing deed "m1", by decide, rfl, by decide, by decide⟩

/-- The theorem where the prune runs to its end. -/
theorem waiting_copy_pruned :
    (entry (pruned 5) "m1" = none ∧ copy (pruned 5) "/q/m1" = none) ∧
      Settles chrono (fun _ => .prune 5 "ann") (pruned 5) ∧ Together waiting (pruned 5) := by
  have settled := queued_files_settle chrono (fun _ : Unit => .prune 5 "ann") waiting_housed
    (fun _ => (true, .delivered)) (turns 5)
  exact ⟨by decide, settled.1, settled.2 (by decide)⟩

end PeerBeam.Chat.Delivery
