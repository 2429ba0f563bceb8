import PeerBeam.Inbound.Decisions

/-! The pairing check at first contact. A device is pinned by the handshake and first contact is on record under a
transfer's id, so the check sees the transfers of the connection that pinned the device and no others. -/
namespace PeerBeam.Inbound
open Trust (DeviceId Records TrustRecord)
open Transfer (Path TransferPreview TransferSession)

def Phase.unsettled : Phase → Bool
  | .registered | .marked | .queued _ _ | .waiting .asked | .waiting .dropped => true
  | _ => false

/-- First contact was put on record, and the record has not been used. -/
def Phase.recorded : Phase → Bool
  | .marked | .queued _ _ | .waiting .asked | .waiting .dropped => true
  | _ => false

def Phase.accepted : Phase → Bool
  | .woken outcome | .decided outcome | .settled outcome => outcome = .accepted
  | .started | .driven _ => true
  | _ => false

theorem Phase.passed_of_accepted {phase : Phase} (h : phase.accepted = true) : phase.passed = true := by
  unfold Phase.accepted at h
  split at h
  all_goals first | exact h | cases h

theorem Phase.early_of_unsettled {phase : Phase} (h : phase.unsettled = true) : phase.early = true := by
  unfold Phase.unsettled at h
  split at h
  all_goals first | rfl | cases h

theorem Phase.unsettled_of_recorded {phase : Phase} (h : phase.recorded = true) : phase.unsettled = true := by
  unfold Phase.recorded at h
  split at h
  all_goals first | rfl | cases h

namespace Manager
variable {s : Manager} {d : DeviceId}

/-- What holds of a device as long as no accept has confirmed its code. -/
structure Unverified (s : Manager) (d : DeviceId) : Prop where
  unapproved : ∀ r, s.trust d = some r → r.approved = false
  newly : ∀ (t : Nat) (task : Task), s.tasks[t]? = some task → task.peer = d → task.newlyTrusted = true
  recorded : ∀ (t : Nat) (task : Task), s.tasks[t]? = some task → task.peer = d → task.phase.recorded = true →
    s.firstContact task.id = some d
  uncalled : ∀ (t : Nat) (task : Task), s.tasks[t]? = some task → task.peer = d → task.phase.unsettled = true →
    ∀ decision, Call.accept task.id decision ∉ s.calls
  barred : ∀ (t : Nat) (task : Task), s.tasks[t]? = some task → task.peer = d → task.phase.passed = false

structure Guarded (s : Manager) (d : DeviceId) : Prop where
  apart : Apart s
  require : s.require = true
  /-- A refusal that is still to look for a record of first contact finds no one else's. -/
  refused : ∀ id, Call.rejected id ∈ s.calls → ∀ (t : Nat) (task : Task), s.tasks[t]? = some task → task.id = id →
    task.phase.unsettled = false
  unverified : d ∉ s.verified → Unverified s d

/-- Whoever shares a decision's id with a transfer that has none yet is that transfer. -/
theorem Apart.alone (h : Apart s) {t u : Nat} {task a : Task} (at_t : s.tasks[t]? = some task)
    (at_u : s.tasks[u]? = some a) (early : task.phase.early = true) (unsettled : a.phase.unsettled = true) (other : u ≠ t) : a.id ≠ task.id :=
  fun same => other (h.once u t a task at_u at_t (Phase.early_of_unsettled unsettled) early same)

/-- One task is new or not what it was, and it is as the others have to be. -/
theorem Guarded.replaced {s' : Manager} (h : Guarded s d) (apart : Apart s') {t : Nat} {now : Task}
    (back : ∀ {u : Nat} {a : Task}, s'.tasks[u]? = some a → u = t ∧ a = now ∨ u ≠ t ∧ s.tasks[u]? = some a)
    (calls : s'.calls = s.calls) (require : s'.require = s.require) (verified : s'.verified = s.verified)
    (trust : Unverified s d → ∀ r, s'.trust d = some r → s.trust d = some r ∨ r.approved = false)
    (others : ∀ (u : Nat) (a : Task), u ≠ t → s.tasks[u]? = some a → a.phase.recorded = true →
      s'.firstContact a.id = s.firstContact a.id)
    (refused : Call.rejected now.id ∈ s.calls → now.phase.unsettled = false)
    (mine : d ∉ s.verified → Unverified s d → now.peer = d → now.newlyTrusted = true ∧
      (now.phase.recorded = true → s'.firstContact now.id = some d) ∧
      (now.phase.unsettled = true → ∀ decision, Call.accept now.id decision ∉ s.calls) ∧ now.phase.passed = false) :
    Guarded s' d := by
  refine ⟨apart, require.trans h.require, fun id mem u a at_u is => ?_, ?_⟩
  · rw [calls] at mem
    rcases back at_u with ⟨rfl, rfl⟩ | ⟨-, at_u⟩
    · subst is
      exact refused mem
    · exact h.refused id mem u a at_u is
  · rw [verified]
    intro never
    have unverified := h.unverified never
    have mine := mine never unverified
    refine ⟨fun r there => ?_, ?_, ?_, ?_, ?_⟩
    · exact (trust unverified r there).elim (unverified.unapproved r) fun h => h
    · intro u a at_u peer
      rcases back at_u with ⟨rfl, rfl⟩ | ⟨-, at_u⟩
      · exact (mine peer).1
      · exact unverified.newly u a at_u peer
    · intro u a at_u peer recorded
      rcases back at_u with ⟨rfl, rfl⟩ | ⟨other, at_u⟩
      · exact (mine peer).2.1 recorded
      · exact (others u a other at_u recorded).trans (unverified.recorded u a at_u peer recorded)
    · intro u a at_u peer unsettled
      rw [calls]
      rcases back at_u with ⟨rfl, rfl⟩ | ⟨-, at_u⟩
      · exact (mine peer).2.2.1 unsettled
      · exact unverified.uncalled u a at_u peer unsettled
    · intro u a at_u peer
      rcases back at_u with ⟨rfl, rfl⟩ | ⟨-, at_u⟩
      · exact (mine peer).2.2.2
      · exact unverified.barred u a at_u peer

theorem Guarded.moved {s' : Manager} (h : Guarded s d) (apart : Apart s') {t : Nat} {task : Task} {phase : Phase}
    (at_t : s.tasks[t]? = some task) (tasks : s'.tasks = (s.move t task phase).tasks) (calls : s'.calls = s.calls)
    (require : s'.require = s.require) (verified : s'.verified = s.verified)
    (trust : Unverified s d → ∀ r, s'.trust d = some r → s.trust d = some r ∨ r.approved = false)
    (others : ∀ (u : Nat) (a : Task), u ≠ t → s.tasks[u]? = some a → a.phase.recorded = true →
      s'.firstContact a.id = s.firstContact a.id)
    (open_before : phase.unsettled = true → task.phase.unsettled = true)
    (mine : d ∉ s.verified → Unverified s d → task.peer = d →
      (phase.recorded = true → s'.firstContact task.id = some d) ∧ phase.passed = false) : Guarded s' d := by
  refine h.replaced apart (fun at_u => move_at (tasks ▸ at_u)) calls require verified trust others (fun mem => ?_)
    fun never unverified peer => ?_
  · have settled := h.refused task.id mem t task at_t rfl
    exact Bool.eq_false_iff.mpr fun unsettled => absurd (open_before unsettled) (by rw [settled]; exact nofun)
  · obtain ⟨recorded, barred⟩ := mine never unverified peer
    exact ⟨unverified.newly t task at_t peer, recorded,
      fun unsettled => unverified.uncalled t task at_t peer (open_before unsettled), barred⟩

/-- A task is past the question its prompt asks. -/
theorem Guarded.moved_past {s' : Manager} (h : Guarded s d) (apart : Apart s') {t : Nat} {task : Task} {phase : Phase}
    (at_t : s.tasks[t]? = some task) (tasks : s'.tasks = (s.move t task phase).tasks) (calls : s'.calls = s.calls)
    (require : s'.require = s.require) (verified : s'.verified = s.verified)
    (trust : Unverified s d → ∀ r, s'.trust d = some r → s.trust d = some r ∨ r.approved = false)
    (others : ∀ (u : Nat) (a : Task), u ≠ t → s.tasks[u]? = some a → a.phase.recorded = true →
      s'.firstContact a.id = s.firstContact a.id)
    (past : phase.unsettled = false) (barred : Unverified s d → task.peer = d → phase.passed = false) :
    Guarded s' d := by
  have settled : ¬ phase.unsettled = true := ne_true_of_eq_false past
  refine h.moved apart at_t tasks calls require verified trust others settled.elim fun _ unverified peer => ?_
  exact ⟨fun recorded => absurd (Phase.unsettled_of_recorded recorded) settled, barred unverified peer⟩

theorem Guarded.congr {s' : Manager} (h : Guarded s d) (apart : Apart s') (tasks : s'.tasks = s.tasks)
    (calls : ∀ call ∈ s'.calls, call ∈ s.calls ∨ ∀ id, call ≠ .rejected id ∧ ∀ decision, call ≠ .accept id decision)
    (require : s'.require = s.require) (verified : s'.verified = s.verified)
    (trust : ∀ r, s'.trust d = some r → s.trust d = some r ∨ r.approved = false)
    (firstContact : ∀ (u : Nat) (a : Task), s.tasks[u]? = some a → a.phase.recorded = true →
      s'.firstContact a.id = s.firstContact a.id) : Guarded s' d := by
  refine ⟨apart, require.trans h.require, fun id mem u a at_u is => ?_, ?_⟩
  · have old := (calls _ mem).resolve_right fun other => (other id).1 rfl
    exact h.refused id old u a (tasks ▸ at_u) is
  · rw [verified]
    intro never
    have unverified := h.unverified never
    refine ⟨fun r there => ?_, ?_, ?_, ?_, ?_⟩
    · exact (trust r there).elim (unverified.unapproved r) fun h => h
    · rw [tasks]
      exact unverified.newly
    · intro u a at_u peer recorded
      rw [tasks] at at_u
      exact (firstContact u a at_u recorded).trans (unverified.recorded u a at_u peer recorded)
    · intro u a at_u peer unsettled decision mem
      have old := (calls _ mem).resolve_right fun other => (other a.id).2 decision rfl
      exact unverified.uncalled u a (tasks ▸ at_u) peer unsettled decision old
    · rw [tasks]
      exact unverified.barred

theorem Guarded.registered {s' : Manager} (h : Guarded s d) (apart : Apart s') {t : Nat} {task : Task} {id : String}
    {preview : TransferPreview} (at_t : s.tasks[t]? = some task) (unwound : s.Unwound id)
    (tasks : s'.tasks = (s.move t { task with id := id, preview := preview } .registered).tasks)
    (calls : s'.calls = s.calls) (require : s'.require = s.require) (verified : s'.verified = s.verified)
    (trust : s'.trust = s.trust) (firstContact : s'.firstContact = s.firstContact) : Guarded s' d := by
  have back {u : Nat} {a : Task} (at_u : s'.tasks[u]? = some a) :
      u = t ∧ a = { task with id := id, preview := preview, phase := .registered } ∨ u ≠ t ∧ s.tasks[u]? = some a :=
    move_at (tasks ▸ at_u)
  refine h.replaced apart back calls require verified (fun _ r there => .inl (trust ▸ there))
    (fun _ _ _ _ _ => by rw [firstContact]) (fun mem => ?_)
    fun _ unverified peer => ⟨unverified.newly t task at_t peer, nofun, fun _ decision mem => ?_, rfl⟩
  · exact absurd rfl (unwound.2 _ mem)
  · exact unwound.2 _ mem rfl

theorem unpin_trust {e : DeviceId} {writes : Bool} {r : TrustRecord} (there : (s.unpin e writes).trust d = some r) :
    s.trust d = some r := by
  unfold unpin at there
  split at there
  · dsimp only at there
    rw [Function.update_apply] at there
    split at there
    · cases there
    · exact there
  · exact there

theorem giveBack_trust {id : String} {writes : Bool} {r : TrustRecord}
    (there : (s.giveBack id writes).trust d = some r) : s.trust d = some r := by
  unfold giveBack at there
  split at there
  · split at there
    · exact unpin_trust there
    · exact there
  · exact there

theorem giveBack_firstContact (s : Manager) {id key : String} (writes : Bool) (other : key ≠ id) :
    (s.giveBack id writes).firstContact key = s.firstContact key := by
  unfold giveBack
  split
  · split
    · exact Function.update_of_ne other ..
    · rfl
  · rfl

theorem giveBack_frame (s : Manager) (id : String) (writes : Bool) : (s.giveBack id writes).calls = s.calls ∧
    (s.giveBack id writes).require = s.require ∧ (s.giveBack id writes).verified = s.verified := by
  obtain ⟨trust, consents, firstContact, eq⟩ := giveBack_eq s id writes
  rw [eq]
  exact ⟨rfl, rfl, rfl⟩

theorem remember_trust {peer : DeviceId} {now : Int} {approves writes : Bool} (other : d ≠ peer) :
    (s.remember peer now approves writes).trust d = s.trust d := by
  unfold remember
  split
  · exact Function.update_of_ne other ..
  · rfl

/-- A device whose record is not approved is not auto-accepted. -/
theorem admission_unapproved {now : Int} (unapproved : ∀ r, s.trust d = some r → r.approved = false) :
    s.admission d now ≠ .autoAccept := by
  have may : Trust.may (some (s.trust d)) now .files = false := by
    cases there : s.trust d with
    | none => rfl
    | some r =>
      have off : r.isApprovedAt now = false := by rw [TrustRecord.isApprovedAt, unapproved r there, Bool.false_and]
      exact Bool.eq_false_iff.mpr fun granted => by
        have approved := Trust.isApproved_of_may granted
        exact absurd (off.symm.trans approved) nofun
  unfold admission admitTransferFor admitTransfer
  rw [may]
  simp only [Bool.and_false, Bool.false_eq_true, if_false]
  split <;> nofun

/-- As long as no accept has verified the device, a lookup of it finds no pin, its transfers resume nothing and an
accept finds its first contact on record; an id is used again when it is unwound. -/
def FirstChecked (s : Manager) (d : DeviceId) : Event → Prop
  | .lookup peer _ _ => peer = d → d ∈ s.verified ∨ s.trust d = none
  | .announce t _ => ∀ task ∈ s.tasks[t]?, task.peer = d → d ∈ s.verified ∨ s.resuming task = false
  | .accept id _ _ => ∀ task ∈ s.tasks, task.id = id → task.peer = d → d ∈ s.verified ∨ task.phase ≠ .registered
  | event => s.Reuse event

/-- The check stays required, and the device's record is not changed by hand. -/
def Within (d : DeviceId) : Event → Prop
  | .edit e _ => e ≠ d
  | .setRequire on => on = true
  | _ => True

theorem FirstChecked.reuse {event : Event} (h : s.FirstChecked d event) : s.Reuse event := by
  cases event <;> trivial

theorem Guarded.advance (h : Guarded s d) {t : Nat} {task : Task} {phase : Phase} {event : Event}
    (at_t : s.tasks[t]? = some task) (is : task.phase = phase) (is_t : event.task = some t)
    (checked : s.FirstChecked d event) : Guarded (s.advance t task phase event) d := by
  have apart := h.apart.advance at_t is checked.reuse
  have kept : Unverified s d → ∀ r, s.trust d = some r → s.trust d = some r ∨ r.approved = false := fun _ _ => .inl
  have same : ∀ (u : Nat) (a : Task), u ≠ t → s.tasks[u]? = some a → a.phase.recorded = true →
      s.firstContact a.id = s.firstContact a.id := fun _ _ _ _ _ => rfl
  have barred (unverified : Unverified s d) (peer : task.peer = d) : phase.passed = false :=
    is ▸ unverified.barred t task at_t peer
  have on_record (unverified : Unverified s d) (peer : task.peer = d) (recorded : phase.recorded = true) :
      s.firstContact task.id = some d := unverified.recorded t task at_t peer (is ▸ recorded)
  have elsewhere (early : phase.early = true) (u : Nat) (a : Task) (other : u ≠ t) (at_u : s.tasks[u]? = some a)
      (recorded : a.phase.recorded = true) : a.id ≠ task.id :=
    h.apart.alone at_t at_u (is ▸ early) (Phase.unsettled_of_recorded recorded) other
  -- nobody answered: the record of first contact goes, and perhaps the pin with it
  have given (writes : Bool) (early : phase.early = true)
      (apart : Apart ((s.giveBack task.id writes).move t task (.woken .unanswered))) :
      Guarded ((s.giveBack task.id writes).move t task (.woken .unanswered)) d := by
    obtain ⟨calls, require, verified⟩ := giveBack_frame s task.id writes
    have tasks : ((s.giveBack task.id writes).move t task (.woken .unanswered)).tasks =
        (s.move t task (.woken .unanswered)).tasks := by
      rw [move, giveBack_tasks, move]
    refine h.moved_past apart at_t tasks calls require verified (fun _ r there => .inl (giveBack_trust there))
      (fun u a other at_u recorded => ?_) rfl fun _ _ => rfl
    exact giveBack_firstContact s writes (elsewhere early u a other at_u recorded)
  unfold Manager.advance at apart ⊢
  split at apart
  · refine h.moved_past apart at_t rfl rfl rfl rfl (fun _ r there => ?_) same rfl fun _ _ => rfl
    dsimp only at there
    rw [Function.update_apply] at there
    split at there
    · exact .inr (Option.some.inj there ▸ rfl)
    · exact .inl there
  · exact h.moved_past apart at_t rfl rfl rfl rfl kept same rfl fun _ _ => rfl
  · dsimp only at apart ⊢
    split at apart
    · next vacant =>
      rw [if_pos vacant]
      exact h.registered apart at_t checked rfl rfl rfl rfl rfl rfl
    · next taken =>
      rw [if_neg taken]
      exact h
  · dsimp only at apart ⊢
    split at apart
    · next newly =>
      rw [if_pos newly]
      refine h.moved apart at_t rfl rfl rfl rfl kept (fun u a other at_u recorded => ?_) (fun _ => is ▸ rfl)
        fun _ _ peer => ⟨fun _ => ?_, rfl⟩
      · exact Function.update_of_ne (elsewhere rfl u a other at_u recorded) ..
      · exact peer ▸ Function.update_self ..
    · next known =>
      rw [if_neg known]
      exact h.moved apart at_t rfl rfl rfl rfl kept same (fun _ => is ▸ rfl)
        fun _ unverified peer => absurd (unverified.newly t task at_t peer) known
  · next now =>
    cases is_t
    obtain ⟨consents, eq⟩ := admitted_eq s task (s.admission task.peer now)
    dsimp only at apart ⊢
    rw [eq] at apart ⊢
    refine h.moved apart at_t rfl rfl rfl rfl kept same (fun _ => is ▸ rfl) fun never unverified peer => ?_
    refine ⟨fun _ => on_record unverified peer rfl, ?_⟩
    rw [(checked task at_t peer).resolve_left never, peer]
    have prompted : s.admission d now ≠ .autoAccept := admission_unapproved unverified.unapproved
    cases admission : s.admission d now with
    | refused => rfl
    | prompt => rfl
    | autoAccept => exact absurd admission prompted
  · rw [h.apart.setPending_eq at_t (is ▸ rfl) fun asked => by cases is.symm.trans asked] at apart ⊢
    exact h.moved apart at_t rfl rfl rfl rfl kept same (fun _ => is ▸ rfl)
      fun _ unverified peer => ⟨fun _ => on_record unverified peer rfl, rfl⟩
  · exact h.moved_past apart at_t rfl rfl rfl rfl kept same rfl barred
  · exact h.moved_past apart at_t rfl rfl rfl rfl kept same rfl barred
  · exact h.moved_past apart at_t rfl rfl rfl rfl kept same rfl fun _ _ => rfl
  · exact h.moved_past apart at_t rfl rfl rfl rfl kept same rfl barred
  · next now approves writes =>
    have mine (unverified : Unverified s d) (r : TrustRecord)
        (there : (s.remember task.peer now approves writes).trust d = some r) : s.trust d = some r := by
      have other : d ≠ task.peer := fun same => by cases barred unverified same.symm
      exact remember_trust other ▸ there
    obtain ⟨trust, eq⟩ := remember_eq s task.peer now approves writes
    rw [eq] at apart mine ⊢
    exact h.moved_past apart at_t rfl rfl rfl rfl (fun unverified r there => .inl (mine unverified r there)) same rfl
      barred
  · exact h.moved_past apart at_t rfl rfl rfl rfl kept same rfl fun _ _ => rfl
  · exact given _ rfl apart
  · exact given _ rfl apart
  · rw [h.apart.setPending_eq at_t (is ▸ rfl) fun asked => by cases is.symm.trans asked] at apart ⊢
    exact h.moved_past apart at_t rfl rfl rfl rfl kept same rfl barred
  · refine h.moved_past apart at_t rfl rfl rfl rfl kept (fun u a other at_u recorded => ?_) rfl barred
    exact Function.update_of_ne (elsewhere rfl u a other at_u recorded) ..
  · exact h.moved_past apart at_t rfl rfl rfl rfl kept same rfl barred
  · exact h.congr apart rfl (fun _ => .inl) rfl rfl (fun _ => .inl) fun _ _ _ _ => rfl
  · split at apart
    · next folder =>
      rw [if_pos folder]
      exact h
    · next file =>
      rw [if_neg file]
      exact h.congr apart rfl (fun _ => .inl) rfl rfl (fun _ => .inl) fun _ _ _ _ => rfl
  · exact h.moved_past apart at_t rfl rfl rfl rfl kept same rfl barred
  · exact h
  · split at apart
    · next held =>
      rw [if_pos held]
      exact h.moved_past apart at_t rfl rfl rfl rfl kept same rfl fun _ _ => rfl
    · next lost =>
      rw [if_neg lost]
      exact h.moved_past apart at_t rfl rfl rfl rfl kept same rfl fun _ _ => rfl
  · split at apart
    · next held =>
      rw [if_pos held]
      exact h.moved_past apart at_t rfl rfl rfl rfl kept same rfl fun _ _ => rfl
    · next lost =>
      rw [if_neg lost]
      exact h.moved_past apart at_t rfl rfl rfl rfl kept same rfl fun _ _ => rfl
  · exact h.moved_past apart at_t rfl rfl rfl rfl kept same rfl fun _ _ => rfl
  · exact h.moved_past apart at_t rfl rfl rfl rfl kept same rfl fun _ _ => rfl
  · split at apart
    · next left =>
      rw [if_pos left]
      exact h.moved_past apart at_t rfl rfl rfl rfl kept same rfl fun _ _ => rfl
    · next clear =>
      rw [if_neg clear]
      exact h.moved_past apart at_t rfl rfl rfl rfl kept same rfl fun _ _ => rfl
  · exact h

/-- A prompt is answered with an accept only by a call that passed the check. -/
theorem Guarded.answer (h : Guarded s d) {id : String} {x : AcceptDecision}
    (passed : x = .reject ∨ Call.accept id x ∈ s.calls) : Guarded (s.answer id x).1 d := by
  have apart := h.apart.answer id x
  rcases answer_cases s id x with ⟨-, eq⟩ | ⟨u, held, ⟨task, at_u, asked, eq⟩ | ⟨-, eq⟩⟩ <;> rw [eq] at apart ⊢
  · exact h
  · obtain ⟨owner, there, is, -⟩ := h.apart.listed id u held
    cases at_u.symm.trans there
    refine h.moved_past apart at_u rfl rfl rfl rfl (fun _ _ => .inl) (fun _ _ _ _ _ => rfl) rfl fun unverified peer => ?_
    rcases passed with rfl | mem
    · rfl
    · exact absurd (is ▸ mem) (unverified.uncalled u task at_u peer (asked ▸ rfl) x)
  · exact h.congr apart rfl (fun _ => .inl) rfl rfl (fun _ => .inl) fun _ _ _ _ => rfl

theorem answer_frame (s : Manager) (id : String) (x : AcceptDecision) : (s.answer id x).1.calls = s.calls := by
  rcases answer_cases s id x with ⟨-, eq⟩ | ⟨u, -, ⟨task, -, -, eq⟩ | ⟨-, eq⟩⟩ <;> rw [eq]
  · rfl

theorem Guarded.goOn (h : Guarded s d) {k : Nat} {writes : Bool} {call : Call} (at_k : s.calls[k]? = some call) :
    Guarded (s.goOn k writes call) d := by
  have mem := List.mem_of_getElem? at_k
  have apart := h.apart.goOn k writes call
  have erased {now : Call} (there : now ∈ s.calls.eraseIdx k) : now ∈ s.calls := List.mem_of_mem_eraseIdx there
  unfold Manager.goOn at apart ⊢
  split at apart
  · next id x =>
    refine (h.answer (.inr mem)).congr apart rfl (fun now there => .inl ?_) rfl rfl (fun _ => .inl) fun _ _ _ _ => rfl
    exact answer_frame s id x ▸ erased there
  · next id =>
    cases there : s.firstContact id with
    | some e =>
      rw [there] at apart
      refine h.congr apart rfl (fun now mem' => ?_) rfl rfl (fun _ => .inl) fun u a at_u recorded => ?_
      · rcases List.mem_or_eq_of_mem_set mem' with old | rfl
        · exact .inl old
        · exact .inr fun _ => ⟨nofun, nofun⟩
      · refine Function.update_of_ne (fun is => ?_) ..
        have settled := h.refused id mem u a at_u is
        exact absurd (Phase.unsettled_of_recorded recorded) (by rw [settled]; exact nofun)
    | none =>
      rw [there] at apart
      exact h.congr apart rfl (fun now there => .inl (erased there)) rfl rfl (fun _ => .inl) fun _ _ _ _ => rfl
  · next e =>
    have removed {r : TrustRecord} (there : (s.unpin e writes).trust d = some r) := unpin_trust there
    obtain ⟨trust, consents, eq⟩ := unpin_eq s e writes
    rw [eq] at apart removed ⊢
    exact h.congr apart rfl (fun now there => .inl (erased there)) rfl rfl (fun r there => .inl (removed there))
      fun _ _ _ _ => rfl
  · next u id =>
    refine (h.answer (.inl rfl)).congr apart rfl (fun now there => ?_) rfl rfl (fun _ => .inl) fun _ _ _ _ => rfl
    rw [answer_frame]
    rcases List.mem_or_eq_of_mem_set there with old | rfl
    · exact .inl old
    · exact .inr fun _ => ⟨nofun, nofun⟩
  · exact h.congr apart rfl (fun now there => .inl (erased there)) rfl rfl (fun _ => .inl) fun _ _ _ _ => rfl

/-- A handshake adds a task that has no decision to wait for. -/
theorem Guarded.met {s' : Manager} (h : Guarded s d) (apart : Apart s') {task : Task}
    (tasks : s'.tasks = s.tasks ++ [task]) (calls : s'.calls = s.calls) (require : s'.require = s.require)
    (verified : s'.verified = s.verified) (trust : s'.trust = s.trust) (firstContact : s'.firstContact = s.firstContact)
    (unsettled : task.phase.unsettled = false) (barred : task.phase.passed = false)
    (newly : d ∉ s.verified → task.peer = d → task.newlyTrusted = true) : Guarded s' d := by
  have back {u : Nat} {a : Task} (at_u : s'.tasks[u]? = some a) :
      u = s.tasks.length ∧ a = task ∨ u ≠ s.tasks.length ∧ s.tasks[u]? = some a := by
    rw [tasks] at at_u
    rcases lt_trichotomy u s.tasks.length with inside | rfl | outside
    · rw [List.getElem?_append_left inside] at at_u
      exact .inr ⟨Nat.ne_of_lt inside, at_u⟩
    · rw [List.getElem?_concat_length] at at_u
      exact .inl ⟨rfl, (Option.some.inj at_u).symm⟩
    · rw [List.getElem?_eq_none (by rw [List.length_append, List.length_singleton]; exact outside)] at at_u
      cases at_u
  refine h.replaced apart back calls require verified (fun _ r there => .inl (trust ▸ there))
    (fun _ _ _ _ _ => by rw [firstContact]) (fun _ => unsettled) fun never _ peer => ⟨newly never peer, ?_, ?_, barred⟩
  · exact fun recorded => absurd (unsettled.symm.trans (Phase.unsettled_of_recorded recorded)) nofun
  · exact fun open_ => absurd (unsettled.symm.trans open_) nofun

/-- One more call, and the tasks as they were: a reject finds nobody with its id undecided, an accept of a transfer of
this device has confirmed its code. -/
theorem Guarded.told {s' : Manager} (h : Guarded s d) (apart : Apart s') {call : Call} (tasks : s'.tasks = s.tasks)
    (calls : s'.calls = s.calls ++ [call]) (require : s'.require = s.require)
    (verified : d ∈ s.verified → d ∈ s'.verified) (trust : s'.trust = s.trust)
    (firstContact : s'.firstContact = s.firstContact)
    (decided : ∀ id, .rejected id = call → ∀ task ∈ s.tasks, task.id = id → task.phase.unsettled = false)
    (confirmed : ∀ id x, .accept id x = call → ∀ task ∈ s.tasks, task.id = id → task.peer = d →
      task.phase.unsettled = true → d ∈ s'.verified) : Guarded s' d := by
  have old {now : Call} (mem : now ∈ s'.calls) : now ∈ s.calls ∨ now = call := by
    rw [calls, List.mem_append, List.mem_singleton] at mem
    exact mem
  refine ⟨apart, require.trans h.require, fun key mem u a at_u is => ?_, fun never => ?_⟩
  · rw [tasks] at at_u
    rcases old mem with mem | eq
    · exact h.refused key mem u a at_u is
    · exact decided key eq a (List.mem_of_getElem? at_u) is
  · have unverified := h.unverified fun mem => never (verified mem)
    refine ⟨trust ▸ unverified.unapproved, tasks ▸ unverified.newly, ?_, fun u a at_u peer open_ y mem => ?_,
      tasks ▸ unverified.barred⟩
    · rw [tasks, firstContact]
      exact unverified.recorded
    · rw [tasks] at at_u
      rcases old mem with mem | eq
      · exact unverified.uncalled u a at_u peer open_ y mem
      · exact never (confirmed a.id y eq a (List.mem_of_getElem? at_u) rfl peer open_)

/-- An accept that passed the check is under way, and if it is for a transfer of this device then it confirmed its
code. -/
theorem Guarded.called {s' : Manager} (h : Guarded s d) (apart : Apart s') {id : String} {x : AcceptDecision}
    (tasks : s'.tasks = s.tasks) (calls : s'.calls = s.calls ++ [.accept id x]) (require : s'.require = s.require)
    (verified : d ∈ s.verified → d ∈ s'.verified) (trust : s'.trust = s.trust)
    (firstContact : s'.firstContact = s.firstContact) (confirmed : ∀ task ∈ s.tasks, task.id = id → task.peer = d →
      task.phase.unsettled = true → d ∈ s'.verified) : Guarded s' d := by
  refine h.told apart tasks calls require verified trust firstContact (fun _ => nofun) fun key y same => ?_
  cases same
  exact confirmed

/-- A reject has answered a prompt, and nobody with that id is still undecided. -/
theorem Guarded.rejected {s' : Manager} (h : Guarded s d) (apart : Apart s') {id : String} (tasks : s'.tasks = s.tasks)
    (calls : s'.calls = s.calls ++ [.rejected id]) (require : s'.require = s.require)
    (verified : s'.verified = s.verified) (trust : s'.trust = s.trust) (firstContact : s'.firstContact = s.firstContact)
    (decided : ∀ task ∈ s.tasks, task.id = id → task.phase.unsettled = false) : Guarded s' d := by
  refine h.told apart tasks calls require (verified ▸ ·) trust firstContact (fun key same => ?_) fun _ _ => nofun
  cases same
  exact decided

theorem Guarded.accept (h : Guarded s d) (id : String) (trusting confirmed : Bool)
    (checked : s.FirstChecked d (.accept id trusting confirmed)) :
    Guarded (s.step (.accept id trusting confirmed)) d := by
  have apart := h.apart.step (.accept id trusting confirmed) trivial
  -- an undecided transfer of the device has first contact on record
  have on_record {task : Task} (mem : task ∈ s.tasks) (is : task.id = id) (peer : task.peer = d)
      (open_ : task.phase.unsettled = true) (never : d ∉ s.verified) : s.firstContact id = some d := by
    obtain ⟨t, at_t⟩ := List.mem_iff_getElem?.mp mem
    have recorded : task.phase.recorded = true := by
      have marked := (checked task mem is peer).resolve_left never
      unfold Phase.unsettled at open_
      split at open_
      all_goals first
        | (next phase => exact absurd phase marked)
        | (next phase => rw [phase]; rfl)
        | cases open_
    exact is ▸ (h.unverified never).recorded t task at_t peer recorded
  unfold Manager.step at apart ⊢
  dsimp only at apart ⊢
  split at apart
  · exact h
  · next proceed =>
    refine h.called apart rfl rfl rfl (fun h => h) rfl rfl fun task mem is peer open_ => ?_
    by_contra never
    rw [on_record mem is peer open_ never, h.require] at proceed
    cases confirmed <;> cases proceed
  · refine h.called apart rfl rfl rfl (List.mem_append_right _) rfl rfl fun task mem is peer open_ => ?_
    by_cases never : d ∈ s.verified
    · exact List.mem_append_right _ never
    · exact List.mem_append_left _ (Option.mem_toList.mpr (on_record mem is peer open_ never))

theorem Guarded.reject (h : Guarded s d) (id : String) : Guarded (s.step (.reject id)) d := by
  have apart := h.apart.step (.reject id) trivial
  have answered : (s.answer id .reject).1.Guarded d := h.answer (.inl rfl)
  unfold Manager.step at apart ⊢
  dsimp only at apart ⊢
  split at apart
  · next heard =>
    rw [if_pos heard]
    have calls : s.calls ++ [.rejected id] = (s.answer id .reject).1.calls ++ [.rejected id] := by rw [answer_frame]
    refine answered.rejected apart rfl calls rfl rfl rfl rfl fun task mem is => ?_
    · obtain ⟨t, at_t⟩ := List.mem_iff_getElem?.mp mem
      rcases answer_cases s id .reject with ⟨-, eq⟩ | ⟨u, held, ⟨asked, at_u, asking, eq⟩ | ⟨-, eq⟩⟩
      · rw [eq] at heard
        cases heard
      · rw [eq] at at_t
        obtain ⟨owner, there, is_u, -⟩ := h.apart.listed id u held
        cases at_u.symm.trans there
        rcases move_at (s := s) at_t with ⟨rfl, rfl⟩ | ⟨other, at_t⟩
        · rfl
        · refine Bool.eq_false_iff.mpr fun unsettled => ?_
          exact h.apart.alone at_u at_t (asking ▸ rfl) unsettled other (is.trans is_u.symm)
      · rw [eq] at heard
        cases heard
  · next unheard =>
    rw [if_neg unheard]
    exact answered

theorem Guarded.step (h : Guarded s d) (event : Event) (within : Within d event) (checked : s.FirstChecked d event) :
    Guarded (s.step event) d := by
  have apart := h.apart.step event checked.reuse
  have same : ∀ (u : Nat) (a : Task), s.tasks[u]? = some a → a.phase.recorded = true →
      s.firstContact a.id = s.firstContact a.id := fun _ _ _ _ => rfl
  cases is_t : event.task with
  | some t =>
    cases at_t : s.tasks[t]? with
    | some task =>
      rw [step_task is_t at_t]
      exact h.advance at_t rfl is_t checked
    | none =>
      rw [step_nobody is_t at_t]
      exact h
  | none =>
  match event with
  | .lookup peer key name =>
    unfold Manager.step at apart ⊢
    dsimp only at apart ⊢
    cases there : s.trust peer with
    | some r =>
      simp only [there] at apart
      dsimp only
      split at apart
      · next known =>
        rw [if_pos known]
        refine h.met apart rfl rfl rfl rfl rfl rfl rfl rfl fun never is => ?_
        change peer = d at is
        cases ((checked is).resolve_left never).symm.trans (is ▸ there)
      · next unknown =>
        rw [if_neg unknown]
        exact h
    | none =>
      simp only [there] at apart
      exact h.met apart rfl rfl rfl rfl rfl rfl rfl rfl fun _ _ => rfl
  | .accept id trusting confirmed => exact h.accept id trusting confirmed checked
  | .reject id => exact h.reject id
  | .cancel id =>
    unfold Manager.step at apart ⊢
    dsimp only at apart ⊢
    cases there : s.active id with
    | some t =>
      rw [there] at apart
      refine h.congr apart rfl (fun call mem => ?_) rfl rfl (fun _ => .inl) same
      rcases List.mem_append.mp mem with old | new
      · exact .inl old
      · exact .inr fun _ => List.mem_singleton.mp new ▸ ⟨nofun, nofun⟩
    | none =>
      exact h
  | .go k writes =>
    unfold Manager.step
    dsimp only
    split
    · next at_k => exact h.goOn at_k
    · exact h
  | .edit e r =>
    refine h.congr apart rfl (fun _ => .inl) rfl rfl (fun r' there => .inl ?_) same
    exact (Function.update_of_ne (Ne.symm within) ..).symm.trans there
  | .remove e =>
    have removed {r : TrustRecord} (there : (s.unpin e true).trust d = some r) := unpin_trust there
    exact h.congr apart rfl (fun _ => .inl) rfl rfl (fun r there => .inl (removed there)) same
  | .setAutoAccept on => exact h.congr apart rfl (fun _ => .inl) rfl rfl (fun _ => .inl) same
  | .setRequire on => exact h.congr apart rfl (fun _ => .inl) (within.trans h.require.symm) rfl (fun _ => .inl) same
  | .clear id => exact h.congr apart rfl (fun _ => .inl) rfl rfl (fun _ => .inl) same
  | .saveSend session =>
    unfold Manager.step at apart ⊢
    dsimp only at apart ⊢
    split at apart
    · next sending =>
      rw [if_pos sending]
      exact h.congr apart rfl (fun _ => .inl) rfl rfl (fun _ => .inl) same
    · next receiving =>
      rw [if_neg receiving]
      exact h
  | .restart =>
    refine ⟨apart, h.require, fun id mem => (nomatch mem), fun never => ?_⟩
    have unapproved := (h.unverified never).unapproved
    exact ⟨unapproved, nofun, nofun, nofun, nofun⟩

/-- The device's transfers are accepted only after an accept confirmed its code. -/
def VerifiedFirst (s : Manager) (d : DeviceId) : Prop :=
  ∀ task ∈ s.tasks, task.peer = d → task.phase.accepted = true → d ∈ s.verified

theorem Guarded.verifiedFirst (h : Guarded s d) : s.VerifiedFirst d := by
  intro task mem peer accepted
  by_contra never
  obtain ⟨t, at_t⟩ := List.mem_iff_getElem?.mp mem
  have barred := (h.unverified never).barred t task at_t peer
  exact absurd (barred.symm.trans (Phase.passed_of_accepted accepted)) nofun

def Checked (d : DeviceId) (s : Manager) (event : Event) : Prop := Within d event ∧ s.FirstChecked d event

instance (d : DeviceId) (event : Event) : Decidable (Within d event) := by
  unfold Within
  split <;> infer_instance

instance (s : Manager) (d : DeviceId) (event : Event) : Decidable (s.FirstChecked d event) := by
  induction event using Event.casesOn <;> dsimp only [FirstChecked] <;> infer_instance

instance (s : Manager) (d : DeviceId) (event : Event) : Decidable (s.Checked d event) :=
  inferInstanceAs (Decidable (_ ∧ _))

/-- For a device that starts unknown, in a run in which its lookups find no pin until it is verified, the pairing
check comes first. -/
theorem verified_first {trust : Records} {store : String → Option TransferSession} {d : DeviceId} {events : List Event}
    (new : trust d = none)
    (checked : TransitionRun.Along Manager.step (fun s => s.Checked d) (fresh trust store) events) :
    (events.foldl Manager.step (fresh trust store)).VerifiedFirst d := by
  have start : (fresh trust store).Guarded d := by
    refine ⟨apart_nobody rfl rfl, rfl, nofun, fun _ => ⟨fun r there => ?_, nofun, nofun, nofun, nofun⟩⟩
    cases new.symm.trans there
  have preserve (s : Manager) (event : Event) (guarded : s.Guarded d) (ok : s.Checked d event) :
      (s.step event).Guarded d := guarded.step event ok.1 ok.2
  exact (TransitionRun.Along.invariant (I := (Guarded · d)) checked start preserve).verifiedFirst

def confirming : List Event := [.insert 0, .accept "x" false true, .go 0 true, .wake 0 0 true true]

theorem confirmed_first :
    ((asking ++ confirming).foldl Manager.step (fresh (fun _ => none) fun _ => none)).VerifiedFirst "bob" :=
  verified_first rfl (by decide +kernel)

/-- Bob, whose first transfer is still asked about, connects again and offers a second one. -/
def again : List Event :=
  [.insert 0, .lookup "bob" "key" "Bob", .register 1 { offer with transferId := "y" } "1-1", .mark 1, .announce 1 0,
    .insert 1, .accept "y" false false, .go 0 true, .wake 1 0 true true]

/-- The second connection finds the pin that the first one left, and its transfer is accepted unconfirmed. -/
theorem second_connection_skips : ¬ ∀ (trust : Records) (store : String → Option TransferSession) (d : DeviceId)
    (events : List Event), trust d = none → (∀ event ∈ events, Within d event) →
      (events.foldl Manager.step (fresh trust store)).VerifiedFirst d := by
  intro first
  have verified := first (fun _ => none) (fun _ => none) "bob" (asking ++ again) rfl (by decide +kernel)
    ⟨"bob", false, "y", { offer with transferId := "y" }, .woken .accepted⟩ (by decide +kernel) rfl rfl
  exact absurd verified (by decide +kernel)

end Manager
end PeerBeam.Inbound
