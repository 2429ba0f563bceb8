import PeerBeam.Chat.Updates

/-! Updates of chat rows made by any number of threads. No lock spans a load and the write that follows
it, so an update survives where no row changes between a call's view of it and its write. -/
namespace PeerBeam.Chat

abbrev Line (ι : Type) := Pool Disk ι Call Call.Answer CallError Reply

section
variable {ι : Type} (c : Chrono) (jobs : ι → Job)

def begun (d : Disk) : Line ι := .start d fun i => (jobs i).program c

def rowAt (w : Line ι) (peer : DeviceId) (id : String) : Option (Option ChatRecord) :=
  (w.state.store.rows peer)[id]?

def Status.inFlight (status : Status) : Prop := status = .transferring ∨ status = .pendingApproval

def Puts (peer : DeviceId) (id : String) (made : Update → ChatRecord → Prop) (e : ι × Heard) : Prop :=
  ∃ rec, e.2 = ⟨.putRow rec, .ok ()⟩ ∧ rec.peerId = peer ∧ rec.id = id ∧ made (jobs e.1).update rec

/-- A call has written its own landing, in the row or where landings are parked. -/
def Sets (peer : DeviceId) (id : String) (landing : String × Nat) (e : ι × Heard) : Prop :=
  (∃ expected, (jobs e.1).update = .landing peer id expected landing.1 landing.2) ∧
    (e.2 = ⟨.putLanding peer id landing.1 landing.2, .ok ()⟩ ∨ ∃ rec, e.2 = ⟨.putRow rec, .ok ()⟩ ∧
      rec.peerId = peer ∧ rec.id = id ∧ Lands landing.1 landing.2 rec)

/-- A call has put the row back in flight, unasked. -/
def Reopens (peer : DeviceId) (id : String) : ι × Heard → Prop :=
  Puts jobs peer id fun u rec => rec.status.inFlight ∧ u.forces peer id rec.status

structure Intact [DecidableEq ι] (s₀ : ChatStore) (w : Line ι) : Prop where
  rows : ∀ peer id first, (s₀.rows peer)[id]? = some (some first) →
    ∃ rec, rowAt w peer id = some (some rec) ∧ Frame first rec
  reads : ∀ i peer readThrough stamp n id first, (jobs i).update = .receipt peer readThrough stamp →
    w.threads i = .ret (.count n) → (s₀.rows peer)[id]? = some (some first) →
    Covered c s₀ (jobs i).now peer readThrough first →
    ∃ rec, rowAt w peer id = some (some rec) ∧ rec.readAt.isSome
  reactions : ∀ i stamp peer id emoji side,
    (jobs i).update = .reaction stamp peer id emoji side false → w.threads i = .ret (.changed true) →
    ∃ rec, rowAt w peer id = some (some rec) ∧ (Present emoji side rec ∨
      w.Followed i (Puts jobs peer id fun u rec =>
        (∃ stamp, u = .reaction stamp peer id emoji side true) ∧ ¬ Present emoji side rec))
  paths : ∀ i peer id expected path first, (jobs i).update = .path peer id expected path →
    w.threads i = .ret (.changed true) → (s₀.rows peer)[id]? = some (some first) → first.file.isSome →
    ∃ rec, rowAt w peer id = some (some rec) ∧ (SavedAs path rec ∨
      w.Followed i (Puts jobs peer id fun u rec =>
        ∃ expected path, u = .path peer id expected path ∧ SavedAs path rec))
  landings : ∀ i peer id expected name size, (jobs i).update = .landing peer id expected name size →
    w.threads i = .ret (.landing .applied) →
    ∃ rec, rowAt w peer id = some (some rec) ∧ (Lands name size rec ∨
      ∃ landing, Lands landing.1 landing.2 rec ∧ w.Joined i (Sets jobs peer id landing))
  settled : ∀ i peer id expected status, (jobs i).update = .settle peer id expected status →
    ¬ status.inFlight → w.threads i = .ret (.changed true) →
    ∃ rec, rowAt w peer id = some (some rec) ∧ (rec.status = status ∨
      w.Followed i (Puts jobs peer id fun u rec => u.forces peer id rec.status))
  once : ∀ i j peer id expected expected' status status',
    (jobs i).update = .settle peer id expected status → ¬ status.inFlight →
    (jobs j).update = .settle peer id expected' status' → ¬ status'.inFlight →
    w.threads i = .ret (.changed true) → w.threads j = .ret (.changed true) →
    i = j ∨ w.Parted i j (Reopens jobs peer id) ∨ w.Parted j i (Reopens jobs peer id)

def Update.lands : Update → Bool
  | .landing .. => true
  | _ => false

/-- The landings that a thread holds for the row after one more call, less those it read before another
that sets a landing wrote the row. -/
def renew [DecidableEq ι] (i : ι) (peer : DeviceId) (id : String) (held : List (String × Nat))
    (e : ι × Heard) : List (String × Nat) :=
  if e.1 = i then hold peer id held e.2
  else
    match e.2 with
    | ⟨.putRow rec, .ok _⟩ =>
      if rec.peerId = peer ∧ rec.id = id ∧ (jobs e.1).update.lands then [] else held
    | _ => held

def timely [DecidableEq ι] (w : Line ι) (i : ι) (peer : DeviceId) (id : String) :
    List (String × Nat) :=
  w.history.foldl (renew jobs i peer id) []

/-- A row that is written is as the writer last saw it, and what the writer holds of parked landings it
has read since another call set one. A call which settles rows finds the row the same again. -/
def Finds [DecidableEq ι] (w : Line ι) (i : ι) : Call → Prop
  | .putRow rec => lastSeen (w.own i) rec.peerId rec.id = some (rowAt w rec.peerId rec.id) ∧
      ∀ landing ∈ held (w.own i) rec.peerId rec.id, landing ∈ timely jobs w i rec.peerId rec.id
  | .getRow peer id => (jobs i).update.settles →
      ∀ seen, lastSeen (w.own i) peer id = some seen → rowAt w peer id = seen
  | _ => True

/-- A landing is parked where the call looks for one, or takes it away. -/
def Meets (w : Line ι) : Call → Prop
  | .getLanding peer id | .deleteLanding peer id => w.state.store.landings peer id ≠ none
  | _ => False

/-- No other call has changed the row under the call whose turn it is, and one that sets a landing does
not fail to clear away what is parked. -/
def Undisturbed [DecidableEq ι] (w : Line ι) (t : Turn ι CallError) : Prop :=
  ∀ call, w.next t.thread = some call → (t.failure = none → Finds jobs w t.thread call) ∧
    ((jobs t.thread).update.lands → Meets w call → t.failure = none)

end

section
variable {ι : Type} [DecidableEq ι] {c : Chrono} {jobs : ι → Job} {s₀ : ChatStore} {w : Line ι}
  {t : Turn ι CallError}

variable (c jobs s₀) in
structure Sound (w : Line ι) : Prop where
  keeps : w.Keeps (fun i => allowed s₀ (jobs i).update) (fun i => must (jobs i).update)
    (fun i => returned c s₀ (jobs i)) fun _ _ _ => True
  windows : w.state.store.windows = s₀.windows
  rows : ∀ peer id, Related s₀ peer id (rowAt w peer id)
  seen : ∀ i peer id rec, lastSeen (w.own i) peer id = some (some (some rec)) → rec.readAt.isSome →
    ∃ now, rowAt w peer id = some (some now) ∧ now.readAt.isSome

inductive Moved (jobs : ι → Job) (w : Line ι) (t : Turn ι CallError) (peer : DeviceId) (id : String)
    (old : ChatRecord) : ChatRecord → Prop
  | stays : Moved jobs w t peer id old old
  | writes {new : ChatRecord} (turn : w.next t.thread = some (.putRow new)) (made : t.failure = none)
      (write : Writes (held (w.own t.thread) peer id) (jobs t.thread).update old new) :
      Moved jobs w t peer id old new

theorem Moved.frame {peer : DeviceId} {id : String} {old new : ChatRecord}
    (h : Moved jobs w t peer id old new) : Frame old new := by
  cases h with
  | stays => exact .refl old
  | writes turn made write => exact write.frame

theorem rows_exec (d : Disk) {call : Call} (noPut : ∀ rec, call ≠ .putRow rec)
    (noDelete : ∀ peer id, call ≠ .deleteRow peer id) : (d.exec call).2.store.rows = d.store.rows := by
  cases call with
  | putRow rec => exact absurd rfl (noPut rec)
  | deleteRow peer id => exact absurd rfl (noDelete peer id)
  | _ => rfl

theorem landings_exec (d : Disk) (call : Call) (peer : DeviceId) (id : String) :
    (d.exec call).2.store.landings peer id = d.store.landings peer id ∨
    (d.exec call).2.store.landings peer id = none ∨
    ∃ name size, call = .putLanding peer id name size := by
  cases call with
  | putLanding p i name size =>
    rw [Disk.exec, Disk.landings_putLanding]
    split
    next place => obtain ⟨rfl, rfl⟩ := place; exact .inr (.inr ⟨name, size, rfl⟩)
    next => exact .inl rfl
  | deleteLanding p i =>
    rw [Disk.exec, Disk.landings_putLanding]
    split
    · exact .inr (.inl rfl)
    · exact .inl rfl
  | _ => exact .inl rfl

/-- What a call has seen of a row after it is what it had seen, or how the row is stored. -/
theorem see_reply (d : Disk) (failure : Option CallError) {call : Call}
    (noDelete : ∀ peer id, call ≠ .deleteRow peer id) (peer : DeviceId) (id : String)
    (seen : Option (Option (Option ChatRecord))) :
    see peer id seen ⟨call, (Pool.reply Disk.exec d failure call).1⟩ = seen ∨
    see peer id seen ⟨call, (Pool.reply Disk.exec d failure call).1⟩ =
      some ((Pool.reply Disk.exec d failure call).2.store.rows peer)[id]? := by
  cases failure with
  | some e => cases call <;> exact .inl rfl
  | none =>
    cases call with
    | getRow p i =>
      by_cases place : p = peer ∧ i = id
      · obtain ⟨rfl, rfl⟩ := place
        exact .inr (if_pos ⟨rfl, rfl⟩)
      · exact .inl (if_neg place)
    | listRows p =>
      by_cases place : p = peer
      · subst place
        refine .inr ((if_pos rfl).trans (congrArg some ?_))
        exact SortedMap.lookup_toList (d.store.rows p) id
      · exact .inl (if_neg place)
    | putRow rec =>
      by_cases place : rec.peerId = peer ∧ rec.id = id
      · refine .inr ((if_pos place).trans (congrArg some ?_))
        exact ((ChatStore.rows_write d.store rec peer id).trans (if_pos place)).symm
      · exact .inl (if_neg place)
    | deleteRow p i => exact absurd rfl (noDelete p i)
    | _ => exact .inl rfl

namespace Sound
variable (h : Sound c jobs s₀ w) (ok : Undisturbed jobs w t)
include h

theorem noDelete {i : ι} {call : Call} {next : Except CallError call.Answer → Prog Reply}
    (turn : w.threads i = .call call next) (peer : DeviceId) (id : String) :
    call ≠ .deleteRow peer id := by
  rintro rfl
  exact h.keeps.call turn

include ok

/-- A row that decodes still does after a turn. -/
theorem moved {peer : DeviceId} {id : String} {old : ChatRecord}
    (here : rowAt w peer id = some (some old)) :
    ∃ new, rowAt (w.step Disk.exec t) peer id = some (some new) ∧ Moved jobs w t peer id old new := by
  rcases Pool.step_cases Disk.exec w t with ⟨call, next, turn, after⟩ | ⟨_, after⟩
  · have next' : w.next t.thread = some call := by rw [Pool.next, turn]
    rw [rowAt, after]
    show ∃ new, ((Pool.reply Disk.exec w.state t.failure call).2.store.rows peer)[id]? = _ ∧ _
    cases failed : t.failure with
    | some e => exact ⟨old, here, .stays⟩
    | none =>
      by_cases put : ∃ rec, call = .putRow rec
      · obtain ⟨rec, rfl⟩ := put
        show ∃ new, ((w.state.store.write rec).rows peer)[id]? = _ ∧ _
        rw [ChatStore.rows_write]
        split
        next place =>
          obtain ⟨rfl, rfl⟩ := place
          obtain ⟨last, -⟩ := (ok _ next').1 failed
          rw [here] at last
          obtain ⟨seen, same, write⟩ := h.keeps.call turn
          cases last.symm.trans same
          exact ⟨rec, rfl, .writes next' failed (write old rfl)⟩
        next => exact ⟨old, here, .stays⟩
      · refine ⟨old, ?_, .stays⟩
        rw [Pool.reply, rows_exec w.state (fun rec same => put ⟨rec, same⟩) (h.noDelete turn)]
        exact here
  · rw [after]
    exact ⟨old, here, .stays⟩

theorem heard (call : Call) (turn : w.next t.thread = some call) :
    allowed s₀ (jobs t.thread).update (w.own t.thread) call
      (Pool.reply Disk.exec w.state t.failure call).1 := by
  cases failed : t.failure with
  | some e => cases call <;> exact trivial
  | none =>
    cases call with
    | getRow peer id =>
      exact ⟨h.rows peer id, (ok _ turn).1 failed⟩
    | listRows peer =>
      refine ⟨SortedMap.distinct_toList _, fun id => ?_⟩
      rw [SortedMap.lookup_toList]
      exact h.rows peer id
    | getWindow peer => exact congrFun h.windows peer
    | _ => exact trivial

/-- Every part of what holds survives a turn. -/
theorem step : Sound c jobs s₀ (w.step Disk.exec t) := by
  have keeps := h.keeps.step t (h.heard ok)
  have reading {peer : DeviceId} {id : String} : (∃ rec, rowAt w peer id = some (some rec) ∧
      rec.readAt.isSome) → ∃ rec, rowAt (w.step Disk.exec t) peer id = some (some rec) ∧
      rec.readAt.isSome := by
    rintro ⟨rec, here, read⟩
    obtain ⟨new, there, moved⟩ := h.moved ok here
    exact ⟨new, there, moved.frame.read read⟩
  have frames {peer : DeviceId} {id : String} (first : ChatRecord)
      (stood : (s₀.rows peer)[id]? = some (some first)) :
      ∃ rec, rowAt (w.step Disk.exec t) peer id = some (some rec) ∧ Frame first rec := by
    obtain ⟨rec, here, frame⟩ := (h.rows peer id).2 first stood
    obtain ⟨new, there, moved⟩ := h.moved ok here
    exact ⟨new, there, frame.trans moved.frame⟩
  have keyed : w.state.store.WellKeyed := fun peer id rec stored => (h.rows peer id).1 rec stored
  rcases Pool.step_cases Disk.exec w t with ⟨call, next, turn, after⟩ | ⟨_, after⟩
  · rw [after] at keeps frames reading ⊢
    refine ⟨keeps, ?_, fun peer id => ⟨?_, frames⟩, fun i peer id rec last read => ?_⟩
    · rw [← h.windows]
      cases t.failure with
      | some e => rfl
      | none => cases call <;> rfl
    · cases t.failure with
      | some e => exact (h.rows peer id).1
      | none => exact fun rec stored => keyed.exec call peer id rec stored
    · rw [Pool.own_push] at last
      by_cases same : t.thread = i
      · subst same
        rw [if_pos rfl, lastSeen_push] at last
        rcases see_reply w.state t.failure (h.noDelete turn) peer id
          (lastSeen (w.own t.thread) peer id) with old | new
        · exact reading (h.seen _ peer id rec (old.symm.trans last) read)
        · exact ⟨rec, Option.some.inj (new.symm.trans last), read⟩
      · rw [if_neg same, List.append_nil] at last
        exact reading (h.seen i peer id rec last read)
  · rw [after]
    exact h

end Sound

/-- A thread that ends in this turn, with a write, has written what is stored. -/
theorem written {i : ι} {reply : Reply} (going : w.threads i ≠ .ret reply)
    (ended : (w.step Disk.exec t).threads i = .ret reply) {pre : List Heard} {rec : ChatRecord}
    (last : (w.step Disk.exec t).own i = pre ++ [⟨.putRow rec, .ok ()⟩]) :
    t.thread = i ∧ t.failure = none ∧ w.next i = some (.putRow rec) ∧ pre = w.own i ∧
      rowAt (w.step Disk.exec t) rec.peerId rec.id = some (some rec) := by
  rcases Pool.step_cases Disk.exec w t with ⟨call, next, turn, after⟩ | ⟨_, after⟩
  · rw [after] at ended last ⊢
    by_cases same : t.thread = i
    · subst same
      rw [Pool.own_push, if_pos rfl] at last
      injection List.singleton_inj.mp (List.append_inj_right' last rfl) with asked answer
      subst asked
      have answer := eq_of_heq answer
      cases failed : t.failure with
      | some e => rw [failed] at answer; cases answer
      | none =>
        refine ⟨rfl, rfl, by rw [Pool.next, turn], (List.append_inj_left' last rfl).symm, ?_⟩
        exact (ChatStore.rows_write ..).trans (if_pos ⟨rfl, rfl⟩)
    · refine absurd ?_ going
      rw [← ended]
      exact (Function.update_of_ne (Ne.symm same) ..).symm
  · rw [after] at ended
    exact absurd ended going

def Lasts (P : Line ι → ChatRecord → Prop) (i : ι) (good : Reply) (peer : DeviceId) (id : String)
    (w : Line ι) : Prop :=
  w.threads i = .ret good → ∃ rec, rowAt w peer id = some (some rec) ∧ P w rec

section
variable {P : Line ι → ChatRecord → Prop} {i : ι} {good : Reply} {peer : DeviceId} {id : String}

omit [DecidableEq ι] in
theorem idle_of_ended {reply : Reply} (ended : w.threads i = .ret reply) (call : Call)
    (next : Except CallError call.Answer → Prog Reply) : w.threads i ≠ .call call next := by
  intro going
  cases ended.symm.trans going

theorem Lasts.step (last : Lasts P i good peer id w) (h : Sound c jobs s₀ w)
    (ok : Undisturbed jobs w t)
    (wrote : (w.step Disk.exec t).threads i = .ret good →
      Wrote ((w.step Disk.exec t).own i) peer id (P (w.step Disk.exec t)))
    (push : ∀ rec, w.threads i = .ret good → P w rec → P (w.step Disk.exec t) rec)
    (breaks : ∀ old new, w.threads i = .ret good → w.next t.thread = some (.putRow new) →
      t.failure = none → Writes (held (w.own t.thread) peer id) (jobs t.thread).update old new →
      old.peerId = peer → old.id = id → P w old → P (w.step Disk.exec t) new) :
    Lasts P i good peer id (w.step Disk.exec t) := by
  intro ended
  by_cases before : w.threads i = .ret good
  · obtain ⟨old, here, holds⟩ := last before
    obtain ⟨new, there, moved⟩ := h.moved ok here
    refine ⟨new, there, ?_⟩
    cases moved with
    | stays => exact push old before holds
    | writes turn made write =>
      obtain ⟨own, key⟩ := (h.rows peer id).1 old here
      exact breaks old new before turn made write own key holds
  · obtain ⟨pre, rec, asked, rfl, rfl, holds⟩ := wrote ended
    obtain ⟨_, _, _, _, stored⟩ := written before ended asked
    exact ⟨rec, stored, holds⟩

/-- In a run none of whose turns disturbs another, with what else holds all along. -/
theorem Lasts.run {d₀ : Disk} {J : Line ι → Prop} (start : Sound c jobs s₀ (begun c jobs d₀))
    (first : J (begun c jobs d₀))
    (kept : ∀ w t, Sound c jobs s₀ w → Undisturbed jobs w t → J w → J (w.step Disk.exec t))
    (wrote : ∀ w, Sound c jobs s₀ w → J w → w.threads i = .ret good →
      Wrote (w.own i) peer id (P w))
    (push : ∀ w t rec, w.threads i = .ret good → P w rec → P (w.step Disk.exec t) rec)
    (breaks : ∀ w t old new, w.threads i = .ret good → Sound c jobs s₀ w → J w → Undisturbed jobs w t →
      w.next t.thread = some (.putRow new) → t.failure = none →
      Writes (held (w.own t.thread) peer id) (jobs t.thread).update old new →
      old.peerId = peer → old.id = id → P w old → P (w.step Disk.exec t) new)
    {turns : List (Turn ι CallError)}
    (ok : TransitionRun.Along (Pool.step Disk.exec) (Undisturbed jobs) (begun c jobs d₀) turns) :
    Lasts P i good peer id ((begun c jobs d₀).run Disk.exec turns) := by
  refine (ok.invariant (I := fun w => Sound c jobs s₀ w ∧ J w ∧ Lasts P i good peer id w)
    ⟨start, first, ?_⟩ ?_).2.2
  · intro ended
    obtain ⟨pre, rec, asked, _⟩ := wrote _ start first ended
    cases pre <;> cases asked
  · rintro w t ⟨h, j, last⟩ ok
    have h' := h.step ok
    have j' := kept w t h ok j
    refine ⟨h', j', last.step h ok (wrote _ h' j') (push w t) ?_⟩
    exact fun old new ended => breaks w t old new ended h j ok

omit [DecidableEq ι] in
/-- What a thread does in a turn in which it writes the row. -/
theorem puts_turn {made : Update → ChatRecord → Prop} {rec : ChatRecord} (own : rec.peerId = peer)
    (key : rec.id = id) (here : made (jobs t.thread).update rec) (done : t.failure = none) :
    Puts jobs peer id made (t.thread, ⟨.putRow rec, (Pool.reply Disk.exec w.state t.failure
      (.putRow rec)).1⟩) := by
  rw [done]
  exact ⟨rec, rfl, own, key, here⟩

end

section
variable {u : Update} {old new : ChatRecord}

theorem Edits.settled {status : Status} (h : Edits u old new) (final : ¬ status.inFlight)
    (here : old.status = status) :
    new.status = status ∨ u.forces old.peerId old.id new.status := by
  cases h with
  | settle status' live =>
    refine absurd ?_ final
    rw [ChatRecord.isSettleableFileRow, Bool.and_eq_true, Bool.or_eq_true, decide_eq_true_eq,
      decide_eq_true_eq, here] at live
    exact live.2
  | status old status' => exact .inr ⟨rfl, rfl, rfl⟩
  | sent own key => exact .inr ⟨own, key, rfl⟩
  | receipt | add | remove | path | landing => exact .inl here

/-- A write keeps a status that is final, or is of a call that does not ask for it. -/
theorem Writes.settled {landings : List (String × Nat)} {peer : DeviceId} {id : String}
    {status : Status} (h : Writes landings u old new) (own : old.peerId = peer) (key : old.id = id)
    (final : ¬ status.inFlight) (here : old.status = status) :
    new.status = status ∨ u.forces peer id new.status := by
  have forced {a b : ChatRecord} (e : Edits u a b) (own : a.peerId = peer) (key : a.id = id)
      (h : u.forces peer id a.status) : u.forces peer id b.status := by
    subst own key
    cases e with
    | status old status => exact ⟨rfl, rfl, rfl⟩
    | sent own key => exact ⟨own, key, rfl⟩
    | receipt | add | remove | settle | path | landing => exact h.elim
  refine h.carries (P := fun rec => rec.status = status ∨ u.forces peer id rec.status) own key
    (.inl here) (fun _ _ _ _ _ here => here) ?_
  rintro a b own key e (same | unasked)
  · subst own key
    exact e.settled final same
  · exact .inr (forced e own key unasked)

end

section
variable {d₀ : Disk} {turns : List (Turn ι CallError)} {i : ι} {peer : DeviceId} {id : String}

/-- What any update finds at first. -/
theorem Sound.begun (keyed : d₀.store.WellKeyed) : Sound c jobs d₀.store (begun c jobs d₀) where
  keeps i := Prog.tells_program c (jobs i)
  windows := rfl
  rows peer id := ⟨fun rec stored => keyed peer id rec stored, fun first stood => ⟨first, stood, .refl first⟩⟩
  seen _ _ _ _ last := nomatch last

theorem lasts_reaction {stamp emoji : String} {side : Direction}
    (job : (jobs i).update = .reaction stamp peer id emoji side false)
    (start : Sound c jobs s₀ (begun c jobs d₀))
    (ok : TransitionRun.Along (Pool.step Disk.exec) (Undisturbed jobs) (Chat.begun c jobs d₀) turns) :
    Lasts (fun w rec => Present emoji side rec ∨ w.Followed i (Puts jobs peer id fun u rec =>
        (∃ stamp, u = .reaction stamp peer id emoji side true) ∧ ¬ Present emoji side rec))
      i (.changed true) peer id ((Chat.begun c jobs d₀).run Disk.exec turns) := by
  refine Lasts.run (J := fun _ => True) start trivial (fun _ _ _ _ _ => trivial) (fun w h _ ended => ?_)
    (fun w t rec ended => .imp_right fun later => later.push (idle_of_ended ended) t)
    (fun w t old new ended _ _ _ turn made write own key here => ?_) ok
  · have wrote := h.keeps.ret ended
    rw [returned.eq_def, job] at wrote
    obtain ⟨pre, rec, asked, own, key, here⟩ := wrote
    exact ⟨pre, rec, asked, own, key, .inl here⟩
  · rcases here with here | later
    · by_cases still : Present emoji side new
      · exact .inl still
      · refine .inr (Pool.followed_turn (idle_of_ended ended) turn (puts_turn ?_ ?_ ⟨?_, still⟩ made))
        · exact write.frame.peerId.trans own
        · exact write.frame.id.trans key
        · by_contra removal
          refine still (write.carries own key here (fun _ _ _ _ _ here => here) ?_)
          rintro a b rfl rfl edit here
          exact edit.present here fun stamp same => removal ⟨stamp, same⟩
    · exact .inr (later.push (idle_of_ended ended) t)

theorem lasts_path {expected : Direction} {path : String} {first : ChatRecord}
    (job : (jobs i).update = .path peer id expected path) (stood : (s₀.rows peer)[id]? = some (some first))
    (isFile : first.file.isSome) (start : Sound c jobs s₀ (begun c jobs d₀))
    (ok : TransitionRun.Along (Pool.step Disk.exec) (Undisturbed jobs) (Chat.begun c jobs d₀) turns) :
    Lasts (fun w rec => SavedAs path rec ∨ w.Followed i (Puts jobs peer id fun u rec =>
        ∃ expected path, u = .path peer id expected path ∧ SavedAs path rec))
      i (.changed true) peer id ((Chat.begun c jobs d₀).run Disk.exec turns) := by
  refine Lasts.run (J := fun _ => True) start trivial (fun _ _ _ _ _ => trivial) (fun w h _ ended => ?_)
    (fun w t rec ended => .imp_right fun later => later.push (idle_of_ended ended) t)
    (fun w t old new ended _ _ _ turn made write own key here => ?_) ok
  · have wrote := h.keeps.ret ended
    rw [returned.eq_def, job] at wrote
    obtain ⟨pre, rec, asked, own, key, here⟩ := wrote first stood isFile
    exact ⟨pre, rec, asked, own, key, .inl here⟩
  · rcases here with here | later
    · have land {path : String} {rec : ChatRecord} (landing : String × Nat) (here : SavedAs path rec) :
          SavedAs path (rec.land landing.1 landing.2) := by
        obtain ⟨file, isFile, saved⟩ := here
        exact ⟨_, land_file isFile landing.1 landing.2, saved⟩
      have after := write.carries (P := fun rec => SavedAs path rec ∨ ∃ expected path,
          (jobs t.thread).update = .path peer id expected path ∧ SavedAs path rec) own key (.inl here)
        (fun rec _ _ landing _ here => ?_) (fun a b own key edit here => ?_)
      · refine after.imp_right fun other => Pool.followed_turn (idle_of_ended ended) turn ?_
        exact puts_turn (write.frame.peerId.trans own) (write.frame.id.trans key) other made
      · refine here.imp (land landing) ?_
        rintro ⟨expected, path, same, saved⟩
        exact ⟨expected, path, same, land landing saved⟩
      · subst own key
        by_cases other : ∃ expected path, (jobs t.thread).update = .path a.peerId a.id expected path
        · obtain ⟨expected, path, same⟩ := other
          exact .inr ⟨expected, path, same, edit.saves same⟩
        · refine .inl (edit.savedAs ?_ fun expected path same => other ⟨expected, path, same⟩)
          refine here.resolve_right ?_
          rintro ⟨expected, path, same, -⟩
          exact other ⟨expected, path, same⟩
    · exact .inr (later.push (idle_of_ended ended) t)

theorem mem_timely_step {j : ι} {landing : String × Nat}
    (mem : landing ∈ timely jobs (w.step Disk.exec t) j peer id) :
    landing ∈ timely jobs w j peer id ∨
      w.state.store.landings peer id = some (some landing) := by
  rcases Pool.step_cases Disk.exec w t with ⟨call, next, turn, after⟩ | ⟨_, after⟩
  · rw [timely, after, List.foldl_append] at mem
    change landing ∈ renew jobs j peer id (timely jobs w j peer id) _ at mem
    rw [renew] at mem
    split at mem
    · rw [hold.eq_def] at mem
      split at mem
      next p k landing' same =>
        split at mem
        next place =>
          obtain ⟨rfl, rfl⟩ := place
          rcases List.mem_cons.mp mem with rfl | old
          · refine .inr ?_
            injection same with asked answer
            subst asked
            have answer := eq_of_heq answer
            cases failed : t.failure with
            | some e => rw [failed] at answer; cases answer
            | none =>
              rw [failed] at answer
              exact Except.ok.inj answer
          · exact .inl old
        next => exact .inl mem
      · split at mem
        · exact absurd mem List.not_mem_nil
        · exact .inl mem
      · exact .inl mem
    · split at mem
      · split at mem
        · exact absurd mem List.not_mem_nil
        · exact .inl mem
      · exact .inl mem
  · rw [after] at mem
    exact .inl mem

variable (i jobs peer id) in
abbrev Came (landing : String × Nat) (w : Line ι) : Prop := w.Joined i (Sets jobs peer id landing)

variable (i jobs peer id) in
/-- What is parked, or held, once a call that sets a landing has emptied the slot has come later. -/
structure Clean (w : Line ι) : Prop where
  slot : Emptied (w.own i) peer id → ∀ landing,
    w.state.store.landings peer id = some (some landing) → Came jobs i peer id landing w
  late : ∀ landing, Late (w.own i) peer id landing → Came jobs i peer id landing w
  held : w.threads i = .ret (.landing .applied) → Emptied (w.own i) peer id → ∀ j,
    ∀ landing ∈ timely jobs w j peer id, Came jobs i peer id landing w

/-- A call that empties the slot in a turn leaves it empty. -/
theorem emptied_step (ok : Undisturbed jobs w t) (lands : (jobs i).update.lands)
    (emptied : Emptied ((w.step Disk.exec t).own i) peer id) :
    Emptied (w.own i) peer id ∨ (w.step Disk.exec t).state.store.landings peer id = none := by
  rcases Pool.own_step Disk.exec w t i with same | ⟨rfl, call, turn, more, after⟩
  · exact .inl (same ▸ emptied)
  · rw [more] at emptied
    rw [after]
    obtain ⟨a, mem, clear⟩ := emptied
    rcases List.mem_append.mp mem with old | new
    · exact .inl ⟨a, old, clear⟩
    · refine .inr ?_
      rw [List.mem_singleton.mp new] at clear
      obtain ⟨-, meets⟩ := ok call turn
      cases failed : t.failure with
      | some e =>
        rw [failed] at clear meets
        by_contra parked
        cases call with
        | getLanding p k =>
          obtain ⟨rfl, rfl, -⟩ := clear
          cases meets lands parked
        | deleteLanding p k =>
          obtain ⟨rfl, rfl⟩ := clear
          cases meets lands parked
        | _ => exact clear
      | none =>
        rw [failed] at clear
        cases call with
        | getLanding p k =>
          obtain ⟨rfl, rfl, empty⟩ := clear
          cases here : w.state.store.landings p k with
          | none => exact here
          | some landing => exact absurd (congrArg Except.ok here) (empty landing)
        | deleteLanding p k =>
          obtain ⟨rfl, rfl⟩ := clear
          exact (Disk.landings_putLanding ..).trans (if_pos ⟨rfl, rfl⟩)
        | _ => exact clear.elim

/-- What a call reads late was parked at the time. -/
theorem late_step {landing : String × Nat} (late : Late ((w.step Disk.exec t).own i) peer id landing) :
    Late (w.own i) peer id landing ∨
      Emptied (w.own i) peer id ∧ w.state.store.landings peer id = some (some landing) := by
  rcases Pool.own_step Disk.exec w t i with same | ⟨rfl, call, turn, more, -⟩
  · exact .inl (same ▸ late)
  · rw [more] at late
    obtain ⟨pre, post, split, emptied⟩ := late
    rcases List.eq_nil_or_concat post with rfl | ⟨post, last, rfl⟩
    · obtain ⟨rfl, same⟩ := List.append_inj' split rfl
      refine .inr ⟨emptied, ?_⟩
      injection List.singleton_inj.mp same with asked answer
      subst asked
      have answer := eq_of_heq answer
      cases failed : t.failure with
      | some e => rw [failed] at answer; cases answer
      | none =>
        rw [failed] at answer
        exact Except.ok.inj answer
    · rw [List.concat_eq_append, ← List.cons_append, ← List.append_assoc] at split
      exact .inl ⟨pre, post, (List.append_inj' split rfl).1, emptied⟩

namespace Clean
variable (clean : Clean jobs i peer id w) (h : Sound c jobs s₀ w) (ok : Undisturbed jobs w t)
  {expected : Direction} {name : String} {size : Nat}
  (job : (jobs i).update = .landing peer id expected name size)
include clean h ok job

theorem slot_step (emptied : Emptied ((w.step Disk.exec t).own i) peer id) (landing : String × Nat)
    (parked : (w.step Disk.exec t).state.store.landings peer id = some (some landing)) :
    Came jobs i peer id landing (w.step Disk.exec t) := by
  have before : Emptied (w.own i) peer id := by
    refine (emptied_step ok (by rw [job]; rfl) emptied).resolve_right fun none => ?_
    cases none.symm.trans parked
  have had (same : w.state.store.landings peer id = some (some landing)) :
      Came jobs i peer id landing (w.step Disk.exec t) := (clean.slot before landing same).push t
  rcases Pool.step_cases Disk.exec w t with ⟨call, next, turn, after⟩ | ⟨_, after⟩
  · have next' : w.next t.thread = some call := by rw [Pool.next, turn]
    rw [after] at parked
    cases failed : t.failure with
    | some e =>
      rw [failed] at parked
      exact had parked
    | none =>
      rw [failed] at parked
      rcases landings_exec w.state call peer id with same | gone | ⟨name, size, rfl⟩
      · exact had (same.symm.trans parked)
      · cases gone.symm.trans parked
      · have now : (w.state.putLanding peer id (some (some (name, size)))).store.landings peer id =
            some (some landing) := parked
        rw [Disk.landings_putLanding, if_pos ⟨rfl, rfl⟩] at now
        cases now
        refine Pool.joined_turn ?_ next' ⟨h.keeps.call turn, .inl ?_⟩
        · intro none
          obtain ⟨a, mem, -⟩ := before
          rw [none] at mem
          cases mem
        · rw [failed]
          rfl
  · rw [after] at parked
    exact had parked

theorem held_step (ended : (w.step Disk.exec t).threads i = .ret (.landing .applied))
    (emptied : Emptied ((w.step Disk.exec t).own i) peer id) (j : ι) (landing : String × Nat)
    (mem : landing ∈ timely jobs (w.step Disk.exec t) j peer id) :
    Came jobs i peer id landing (w.step Disk.exec t) := by
  by_cases before : w.threads i = .ret (.landing .applied)
  · have same : (w.step Disk.exec t).own i = w.own i := by
      rcases Pool.own_step Disk.exec w t i with same | ⟨_, call, turn, -⟩
      · exact same
      · obtain ⟨next, going⟩ := Pool.next_eq_some.mp turn
        exact absurd going (idle_of_ended before call next)
    rw [same] at emptied
    rcases mem_timely_step mem with old | parked
    · exact (clean.held before emptied j landing old).push t
    · exact (clean.slot emptied landing parked).push t
  · -- the thread's last write leaves nothing timely to anyone
    have wrote := (h.step ok).keeps.ret ended
    rw [returned.eq_def, job] at wrote
    obtain ⟨pre, rec, asked, own, key, -⟩ := wrote
    obtain ⟨turn, failed, next, -, -⟩ := written before ended asked
    subst turn
    rw [timely, Pool.history_turn next, List.foldl_append, failed] at mem
    change landing ∈ renew jobs j peer id (timely jobs w j peer id) _ at mem
    rw [renew] at mem
    split at mem
    · rw [hold.eq_def] at mem
      change landing ∈ (if rec.peerId = peer ∧ rec.id = id then [] else _) at mem
      rw [if_pos ⟨own, key⟩] at mem
      cases mem
    · change landing ∈ (if rec.peerId = peer ∧ rec.id = id ∧ (jobs t.thread).update.lands then []
        else _) at mem
      rw [if_pos ⟨own, key, by rw [job]; rfl⟩] at mem
      cases mem

theorem step : Clean jobs i peer id (w.step Disk.exec t) where
  slot := clean.slot_step h ok job
  late landing late := by
    rcases late_step late with old | ⟨emptied, parked⟩
    · exact (clean.late landing old).push t
    · exact (clean.slot emptied landing parked).push t
  held := clean.held_step h ok job

end Clean

theorem clean_begun : Clean jobs i peer id (Chat.begun c jobs d₀) where
  slot emptied := by
    obtain ⟨a, none, -⟩ := emptied
    cases none
  late landing late := by
    obtain ⟨pre, post, none, -⟩ := late
    cases pre <;> cases none
  held _ _ j landing none := by cases none

theorem emptied_push (w : Line ι) (t : Turn ι CallError) (emptied : Emptied (w.own i) peer id) :
    Emptied ((w.step Disk.exec t).own i) peer id := by
  rcases Pool.own_step Disk.exec w t i with same | ⟨_, call, _, more, -⟩
  · exact same ▸ emptied
  · exact more ▸ Prog.emptied_mono (List.prefix_append ..) emptied

variable (i jobs peer id) in
/-- The row has the landing, or one that another call set later. -/
def Stamped (name : String) (size : Nat) (w : Line ι) (rec : ChatRecord) : Prop :=
  Lands name size rec ∨ ∃ landing, Lands landing.1 landing.2 rec ∧ Came jobs i peer id landing w

namespace Stamped
variable {expected : Direction} {name : String} {size : Nat} {rec : ChatRecord}

omit [DecidableEq ι] in
theorem isFile (h : Stamped jobs i peer id name size w rec) : rec.file.isSome := by
  rcases h with ⟨file, here, -⟩ | ⟨_, ⟨file, here, -⟩, -⟩
  · exact here ▸ rfl
  · exact here ▸ rfl

theorem push (h : Stamped jobs i peer id name size w rec) (t : Turn ι CallError) :
    Stamped jobs i peer id name size (w.step Disk.exec t) rec := by
  rcases h with here | ⟨landing, here, came⟩
  · exact .inl here
  · exact .inr ⟨landing, here, came.push t⟩

omit [DecidableEq ι] in
/-- An edit keeps the landing, or sets its own. -/
theorem edit {a b : ChatRecord} {u : Update} (h : Stamped jobs i peer id name size w a) (edit : Edits u a b)
    (own : a.peerId = peer) (key : a.id = id) :
    Stamped jobs i peer id name size w b ∨ ∃ landing : String × Nat, Lands landing.1 landing.2 b ∧
      ∃ expected, u = .landing peer id expected landing.1 landing.2 := by
  subst own key
  by_cases set : ∃ expected name size, u = .landing a.peerId a.id expected name size
  · obtain ⟨expected, name, size, same⟩ := set
    exact .inr ⟨(name, size), edit.sets same, expected, same⟩
  · have other : ∀ expected name size, u ≠ .landing a.peerId a.id expected name size :=
      fun expected name size same => set ⟨expected, name, size, same⟩
    rcases h with lands | ⟨landing, lands, came⟩
    · exact .inl (.inl (edit.lands lands other))
    · exact .inl (.inr ⟨landing, edit.lands lands other, came⟩)

/-- A write after the thread has ended leaves its landing, or one that came later: what the writer holds is
timely, and what it sets comes now. -/
theorem write {old new : ChatRecord} (here : Stamped jobs i peer id name size w old)
    (clean : Clean jobs i peer id w) (ended : w.threads i = .ret (.landing .applied)) (begun : w.own i ≠ [])
    (emptied : old.direction = .inn → Emptied (w.own i) peer id)
    (turn : w.next t.thread = some (.putRow new)) (made : t.failure = none)
    (holds : ∀ landing ∈ held (w.own t.thread) peer id, landing ∈ timely jobs w t.thread peer id)
    (write : Writes (held (w.own t.thread) peer id) (jobs t.thread).update old new)
    (own : old.peerId = peer) (key : old.id = id) :
    Stamped jobs i peer id name size (w.step Disk.exec t) new := by
  have frame := write.frame
  have after := write.carries (P := fun rec => Stamped jobs i peer id name size (w.step Disk.exec t) rec ∨
      ∃ landing : String × Nat, Lands landing.1 landing.2 rec ∧ ∃ expected,
        (jobs t.thread).update = .landing peer id expected landing.1 landing.2) own key
    (.inl (here.push t)) (fun rec live side landing mem lands => ?_) (fun a b own' key' edit lands => ?_)
  · rcases after with still | ⟨landing, lands, set⟩
    · exact still
    · refine .inr ⟨landing, lands, Pool.joined_turn begun turn ⟨set, .inr ?_⟩⟩
      rw [made]
      exact ⟨new, rfl, frame.peerId.trans own, frame.id.trans key, lands⟩
  · have emptied := emptied (side.symm.trans (Prog.live_direction live))
    have came : Came jobs i peer id landing (w.step Disk.exec t) :=
      (clean.held ended emptied t.thread landing (holds landing mem)).push t
    have isFile : rec.file.isSome := by
      rcases lands with here | ⟨_, ⟨file, here, -⟩, -⟩
      · exact here.isFile
      · exact here ▸ rfl
    exact .inl (.inr ⟨landing, .land isFile .., came⟩)
  · rcases lands with here | ⟨landing, lands, expected, same⟩
    · exact here.edit edit own' key'
    · exact .inr ⟨landing, edit.sets same, expected, same⟩

end Stamped

theorem lasts_landing {expected : Direction} {name : String} {size : Nat}
    (job : (jobs i).update = .landing peer id expected name size)
    (start : Sound c jobs s₀ (begun c jobs d₀))
    (ok : TransitionRun.Along (Pool.step Disk.exec) (Undisturbed jobs) (Chat.begun c jobs d₀) turns) :
    Lasts (fun w rec => Stamped jobs i peer id name size w rec ∧
        (rec.direction = .inn → Emptied (w.own i) peer id))
      i (.landing .applied) peer id ((Chat.begun c jobs d₀).run Disk.exec turns) := by
  refine Lasts.run (J := Clean jobs i peer id) start clean_begun
    (fun w t h ok clean => clean.step h ok job) (fun w h clean ended => ?_)
    (fun w t rec ended here => ⟨here.1.push t, fun side => emptied_push w t (here.2 side)⟩)
    (fun w t old new ended h clean ok turn made write own key here => ⟨?_, fun side => ?_⟩) ok
  · have wrote := h.keeps.ret ended
    rw [returned.eq_def, job] at wrote
    obtain ⟨pre, rec, asked, own, key, here, emptied⟩ := wrote
    refine ⟨pre, rec, asked, own, key, here.imp_right ?_, emptied⟩
    rintro ⟨landing, late, here⟩
    exact ⟨landing, here, clean.late landing late⟩
  · have frame := write.frame
    have holds : ∀ landing ∈ held (w.own t.thread) peer id, landing ∈ timely jobs w t.thread peer id := by
      obtain ⟨-, holds⟩ := (ok _ turn).1 made
      rw [frame.peerId.trans own, frame.id.trans key] at holds
      exact holds
    have begun : w.own i ≠ [] := by
      have wrote := h.keeps.ret ended
      rw [returned.eq_def, job] at wrote
      obtain ⟨pre, rec, asked, -⟩ := wrote
      rw [asked]
      exact List.append_ne_nil_of_right_ne_nil _ (List.cons_ne_nil _ _)
    exact here.1.write clean ended begun here.2 turn made holds write own key
  · exact emptied_push w t (here.2 (write.frame.direction.symm.trans side))

theorem lasts_settled {expected : Direction} {status : Status}
    (job : (jobs i).update = .settle peer id expected status) (final : ¬ status.inFlight)
    (start : Sound c jobs s₀ (begun c jobs d₀))
    (ok : TransitionRun.Along (Pool.step Disk.exec) (Undisturbed jobs) (Chat.begun c jobs d₀) turns) :
    Lasts (fun w rec => rec.status = status ∨
        w.Followed i (Puts jobs peer id fun u rec => u.forces peer id rec.status))
      i (.changed true) peer id ((Chat.begun c jobs d₀).run Disk.exec turns) := by
  refine Lasts.run (J := fun _ => True) start trivial (fun _ _ _ _ _ => trivial) (fun w h _ ended => ?_)
    (fun w t rec ended => .imp_right fun later => later.push (idle_of_ended ended) t)
    (fun w t old new ended _ _ _ turn made write own key here => ?_) ok
  · have wrote := h.keeps.ret ended
    rw [returned.eq_def, job] at wrote
    obtain ⟨pre, rec, old, asked, own, key, here, _⟩ := wrote
    exact ⟨pre, rec, asked, own, key, .inl here⟩
  · rcases here with here | later
    · refine (write.settled own key final here).imp_right fun forced => ?_
      exact Pool.followed_turn (idle_of_ended ended) turn
        (puts_turn (write.frame.peerId.trans own) (write.frame.id.trans key) forced made)
    · exact .inr (later.push (idle_of_ended ended) t)

variable (i jobs peer id) in
/-- A row that the thread has settled is no longer in flight, unless it has been put back. -/
def Closed : Line ι → Prop :=
  Lasts (fun w rec => ¬ rec.status.inFlight ∨ w.Followed i (Reopens jobs peer id)) i (.changed true) peer id

theorem Closed.step {expected : Direction} {status : Status}
    (job : (jobs i).update = .settle peer id expected status) (final : ¬ status.inFlight)
    (last : Closed jobs i peer id w) (h : Sound c jobs s₀ w) (ok : Undisturbed jobs w t) :
    Closed jobs i peer id (w.step Disk.exec t) := by
  refine Lasts.step last h ok (fun ended => ?_)
    (fun rec ended => .imp_right fun later => later.push (idle_of_ended ended) t)
    fun old new ended turn made write own key here => ?_
  · have wrote := (h.step ok).keeps.ret ended
    rw [returned.eq_def, job] at wrote
    obtain ⟨pre, rec, old, asked, own, key, here, _⟩ := wrote
    exact ⟨pre, rec, asked, own, key, .inl (here ▸ final)⟩
  · rcases here with here | later
    · by_cases back : new.status.inFlight
      · refine .inr (Pool.followed_turn (idle_of_ended ended) turn ?_)
        refine puts_turn (write.frame.peerId.trans own) (write.frame.id.trans key) ⟨back, ?_⟩ made
        refine (write.settled own key here rfl).resolve_left fun same => ?_
        exact here (same ▸ back)
      · exact .inl back
    · exact .inr (later.push (idle_of_ended ended) t)

/-- Where one has settled a row, a second one does only after it has been put back. -/
theorem settled_again {j : ι} {expected' : Direction} {status' : Status}
    (job : (jobs j).update = .settle peer id expected' status')
    (last : Closed jobs i peer id w) (ended : w.threads i = .ret (.changed true))
    (going : w.threads j ≠ .ret (.changed true))
    (second : (w.step Disk.exec t).threads j = .ret (.changed true))
    (h : Sound c jobs s₀ w) (ok : Undisturbed jobs w t) :
    (w.step Disk.exec t).Parted i j (Reopens jobs peer id) := by
  have wrote := (h.step ok).keeps.ret second
  rw [returned.eq_def, job] at wrote
  obtain ⟨pre, rec, old, asked, rfl, rfl, -, seen, live⟩ := wrote
  obtain ⟨turn, failed, next, rfl, -⟩ := written going second asked
  subst turn
  obtain ⟨now, here, closed | reopened⟩ := last ended
  · obtain ⟨same, -⟩ := (ok _ next).1 failed
    rw [seen, here] at same
    cases same
    rw [ChatRecord.isSettleableFileRow, Bool.and_eq_true, Bool.or_eq_true, decide_eq_true_eq,
      decide_eq_true_eq] at live
    exact absurd live.2 closed
  · exact reopened.part (idle_of_ended ended) next

variable (jobs) in
/-- Rows that calls have settled are closed, and none is settled twice without being put back. -/
structure Final (w : Line ι) : Prop where
  last : ∀ i peer id expected status, (jobs i).update = .settle peer id expected status →
    ¬ status.inFlight → Closed jobs i peer id w
  once : ∀ i j peer id expected expected' status status',
    (jobs i).update = .settle peer id expected status → ¬ status.inFlight →
    (jobs j).update = .settle peer id expected' status' → ¬ status'.inFlight →
    w.threads i = .ret (.changed true) → w.threads j = .ret (.changed true) →
    i = j ∨ w.Parted i j (Reopens jobs peer id) ∨ w.Parted j i (Reopens jobs peer id)

/-- A turn in which two threads differ from before is not. -/
theorem turn_alone {i j : ι} (differ : i ≠ j) :
    (w.step Disk.exec t).threads i = w.threads i ∨ (w.step Disk.exec t).threads j = w.threads j := by
  rcases Pool.step_cases Disk.exec w t with ⟨call, next, turn, after⟩ | ⟨_, after⟩
  · rw [after]
    by_cases same : t.thread = i
    · exact .inr (Function.update_of_ne (fun h => differ (same.symm.trans h.symm)) ..)
    · exact .inl (Function.update_of_ne (Ne.symm same) ..)
  · rw [after]
    exact .inl rfl

theorem Final.step (before : Final jobs w) (h : Sound c jobs s₀ w) (ok : Undisturbed jobs w t) :
    Final jobs (w.step Disk.exec t) where
  last i peer id expected status job final :=
    (before.last i peer id expected status job final).step job final h ok
  once i j peer id expected expected' status status' job final job' final' first second := by
    by_cases differ : i = j
    · exact .inl differ
    refine .inr ?_
    by_cases both : w.threads i = .ret (.changed true) ∧ w.threads j = .ret (.changed true)
    · have parted := (before.once i j peer id expected expected' status status' job final job' final'
        both.1 both.2).resolve_left differ
      exact parted.imp (fun h => h.push (idle_of_ended both.1) t) fun h => h.push (idle_of_ended both.2) t
    · rcases turn_alone (w := w) (t := t) differ with same | same
      · have ended := same.symm.trans first
        exact .inl (settled_again job' (before.last i peer id expected status job final) ended
          (fun other => both ⟨ended, other⟩) second h ok)
      · have ended := same.symm.trans second
        exact .inr (settled_again job (before.last j peer id expected' status' job' final') ended
          (fun other => both ⟨other, ended⟩) first h ok)

theorem Final.run (start : Sound c jobs s₀ (begun c jobs d₀))
    (ok : TransitionRun.Along (Pool.step Disk.exec) (Undisturbed jobs) (Chat.begun c jobs d₀) turns) :
    Sound c jobs s₀ ((Chat.begun c jobs d₀).run Disk.exec turns) ∧
      Final jobs ((Chat.begun c jobs d₀).run Disk.exec turns) := by
  refine ok.invariant (I := fun w => Sound c jobs s₀ w ∧ Final jobs w) ⟨start, ?_, ?_⟩ ?_
  · intro i peer id expected status job final ended
    have wrote := start.keeps.ret ended
    rw [returned.eq_def, job] at wrote
    obtain ⟨pre, rec, old, asked, _⟩ := wrote
    cases pre <;> cases asked
  · intro i j peer id expected expected' status status' job final job' final' ended
    have wrote := start.keeps.ret ended
    rw [returned.eq_def, job] at wrote
    obtain ⟨pre, rec, old, asked, _⟩ := wrote
    cases pre <;> cases asked
  · rintro w t ⟨h, final⟩ ok
    exact ⟨h.step ok, final.step h ok⟩

/-- Where no turn disturbs another call, no update of a row is lost and a file row settles once. -/
theorem updates_intact (c : Chrono) (jobs : ι → Job) (d₀ : Disk) (keyed : d₀.store.WellKeyed)
    (turns : List (Turn ι CallError))
    (ok : TransitionRun.Along (Pool.step Disk.exec) (Undisturbed jobs) (begun c jobs d₀) turns) :
    Intact c jobs d₀.store ((begun c jobs d₀).run Disk.exec turns) := by
  have start : Sound c jobs d₀.store (begun c jobs d₀) := .begun keyed
  obtain ⟨h, final⟩ := Final.run start ok
  refine ⟨fun peer id => (h.rows peer id).2, ?_, ?_, ?_, ?_, ?_, final.once⟩
  · intro i peer readThrough stamp n id first job ended stood covered
    have marked := h.keeps.ret ended
    rw [returned.eq_def, job] at marked
    obtain ⟨rec, seen, read⟩ := marked id first stood covered
    exact h.seen i peer id rec seen read
  · intro i stamp peer id emoji side job
    exact lasts_reaction job start ok
  · intro i peer id expected path first job ended stood isFile
    exact lasts_path job stood isFile start ok ended
  · intro i peer id expected name size job ended
    obtain ⟨rec, here, lands, -⟩ := lasts_landing job start ok ended
    exact ⟨rec, here, lands⟩
  · intro i peer id expected status job unsettled
    exact lasts_settled job unsettled start ok

end

end

instance Finds.decidable {ι : Type} [DecidableEq ι] (jobs : ι → Job) (w : Line ι) (i : ι) :
    DecidablePred (Finds jobs w i)
  | .putRow _ => inferInstanceAs (Decidable (_ ∧ _))
  | .getRow peer id => inferInstanceAs (Decidable ((jobs i).update.settles →
      ∀ seen ∈ lastSeen (w.own i) peer id, rowAt w peer id = seen))
  | .listRows _ | .deleteRow _ _ | .getWindow _ | .namespaces | .getLanding _ _ | .putLanding _ _ _ _
  | .deleteLanding _ _ | .listOutbox | .getOutbox _ | .putOutbox _ | .deleteOutbox _ | .createBlob _
  | .writeBlob _ _ | .removeBlob _ | .listBlobs => .isTrue trivial

instance Meets.decidable {ι : Type} (w : Line ι) : DecidablePred (Meets w)
  | .getLanding _ _ | .deleteLanding _ _ => inferInstanceAs (Decidable (_ ≠ _))
  | .getRow _ _ | .listRows _ | .putRow _ | .deleteRow _ _ | .getWindow _ | .namespaces
  | .putLanding _ _ _ _ | .listOutbox | .getOutbox _ | .putOutbox _ | .deleteOutbox _ | .createBlob _
  | .writeBlob _ _ | .removeBlob _ | .listBlobs => .isFalse id

instance Undisturbed.decidable {ι : Type} [DecidableEq ι] (jobs : ι → Job) (w : Line ι)
    (t : Turn ι CallError) : Decidable (Undisturbed jobs w t) :=
  inferInstanceAs (Decidable (∀ call ∈ w.next t.thread,
    (t.failure = none → Finds jobs w t.thread call) ∧
      ((jobs t.thread).update.lands → Meets w call → t.failure = none)))

private def steady : Chrono := ⟨fun _ => none, fun now secs => some (now - secs * 1000000000), 0⟩

private def holding (rec : ChatRecord) : Disk := ⟨ChatStore.empty.write rec, ∅⟩

private def greeting : ChatRecord := .received 0 "ann" ⟨"m", "2026-01-01T00:00:00Z", "hello", none, none⟩

private def sending : ChatRecord :=
  .fileOut 0 "ann" ⟨"f", "2026-01-01T00:00:00Z", "a.txt", 3⟩ ⟨"a.txt", 3, none⟩ .transferring

private def react (side : Bool) : Job :=
  ⟨0, .reaction "t" "ann" "m" (if side then "+" else "-") (if side then .out else .inn) false⟩

private def settling (side : Bool) : Job :=
  ⟨0, .settle "ann" "f" .out (if side then .sent else .failed)⟩

private def go (sides : List Bool) : List (Turn Bool CallError) := sides.map (⟨·, none⟩)

/-- Both reactions are made, and one of them is gone; both settle the file. -/
theorem reaction_lost_and_file_settled_twice :
    (let w := (begun steady react (holding greeting)).run Disk.exec
      (go [false, false, true, true, false, true])
    w.threads false = .ret (.changed true) ∧ w.threads true = .ret (.changed true) ∧
      rowAt w "ann" "m" = some (some { greeting with reactions := [⟨"+", .out, "t"⟩] })) ∧
    let w := (begun steady settling (holding sending)).run Disk.exec
      (go [false, false, false, true, true, true, false, true])
    w.threads false = .ret (.changed true) ∧ w.threads true = .ret (.changed true) ∧
      rowAt w "ann" "f" = some (some { sending with status := .sent }) := by
  exact ⟨⟨rfl, rfl, by decide⟩, rfl, rfl, by decide⟩

private theorem holding_wellKeyed (rec : ChatRecord) : (holding rec).store.WellKeyed := by
  intro peer id rec' stored
  rw [holding, ChatStore.rows_write] at stored
  split at stored
  next place => cases stored; exact place
  next => cases stored

/-- The theorem where the second waits for the first. -/
theorem settled_in_turn_intact : Intact steady settling (holding sending).store
    ((begun steady settling (holding sending)).run Disk.exec
      (go [false, false, false, false, true, true])) :=
  updates_intact steady settling _ (holding_wellKeyed sending) _ (by decide)

end PeerBeam.Chat
