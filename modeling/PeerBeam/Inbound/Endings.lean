import Mathlib.Data.List.Perm.Basic
import PeerBeam.Inbound.Prompts

/-! How a transfer ends, and whom a decision decides. Whoever takes a transfer out of the registry owes its last
event, and the registry lets it go once. -/
namespace PeerBeam.Inbound
open Trust (DeviceId Records)
open Transfer (TransferOutcome TransferPreview TransferSession)

/-- How far a transfer's registration has come. -/
inductive Stage
  | unknown
  | live
  | leaving
  | gone
  deriving DecidableEq

def Stage.leave : Stage → Nat
  | .leaving => 1
  | _ => 0

def Stage.entered : Stage → Nat
  | .unknown => 0
  | _ => 1

def Phase.stage : Phase → Stage
  | .meeting _ _ | .greeted | .gone => .unknown
  | .turnedDown | .claimed _ => .leaving
  | .finished | .done => .gone
  | _ => .live

def Call.ends : Call → Option Nat
  | .cancelling t _ | .cancelled t => some t
  | _ => none

/-- What a task does next, when nobody answers and nothing arrives. -/
def Phase.turn (t : Nat) : Phase → Event
  | .registered => .mark t
  | .marked => .announce t 0
  | .queued .prompt false => .insert t
  | .queued _ _ => .skip t
  | .waiting .asked => .timeout t false
  | .waiting _ => .wake t 0 false false
  | .woken _ => .forget t
  | .decided _ => .settle t
  | .settled .accepted => .start t
  | .started => .finishDrive t none
  | .settled _ | .driven _ => .claim t
  | .turnedDown | .claimed _ => .emit t
  | .finished => .announceIfInterrupted t
  | .meeting _ _ => .pin t 0
  | .greeted | .gone | .done => .hangUp t

/-- The steps a registered task still has to take. -/
def Phase.rest : Phase → Nat
  | .done => 0
  | .finished => 1
  | .turnedDown | .claimed _ => 2
  | .driven _ => 3
  | .started => 4
  | .settled _ => 5
  | .decided _ => 6
  | .woken _ => 7
  | .waiting _ => 8
  | .queued _ _ => 9
  | .marked => 10
  | _ => 11

theorem Phase.turn_task (t : Nat) (phase : Phase) : (phase.turn t).task = some t := by
  unfold turn
  split <;> rfl

namespace Manager
variable {s : Manager}

def held (s : Manager) (t : Nat) (id : String) : Nat := if s.active id = some t then 1 else 0

def ending (s : Manager) (t : Nat) : Nat := s.calls.countP (·.ends = some t)

def ended (s : Manager) (t : Nat) : Nat := s.log.countP fun e => e.1 = t && e.2.terminal

/-- A registration is in one place: in the registry, with whoever claimed it, or in its terminal event. -/
structure Accounted (s : Manager) : Prop where
  sums : ∀ (t : Nat) (task : Task), s.tasks[t]? = some task →
    s.held t task.id + s.ending t + task.phase.stage.leave + s.ended t = task.phase.stage.entered
  spare : ∀ t, s.tasks[t]? = none → s.ending t = 0 ∧ s.ended t = 0
  holder : ∀ (id : String) (t : Nat), s.active id = some t →
    ∃ task, s.tasks[t]? = some task ∧ task.id = id ∧ task.phase.stage = .live

theorem accounted_nobody (tasks : s.tasks = []) (active : s.active = fun _ => none) (calls : s.calls = [])
    (log : s.log = []) : Accounted s := by
  refine ⟨fun t task there => ?_, fun t _ => ?_, fun id t there => ?_⟩
  · rw [tasks] at there
    cases there
  · rw [ending, ended, calls, log]
    exact ⟨rfl, rfl⟩
  · rw [active] at there
    cases there

/-- A step that ends nothing and registers nothing keeps the account. -/
theorem Accounted.kept {s' : Manager} (h : Accounted s) (active : s'.active = s.active)
    (length : s'.tasks.length = s.tasks.length) (ending : ∀ t, s'.ending t = s.ending t)
    (ended : ∀ t, s'.ended t = s.ended t) (same : ∀ (t : Nat) (a : Task), s'.tasks[t]? = some a →
      ∃ task, s.tasks[t]? = some task ∧ a.id = task.id ∧ a.phase.stage = task.phase.stage) : Accounted s' := by
  constructor
  · intro t a at_t
    obtain ⟨task, at_t, id, stage⟩ := same t a at_t
    rw [held, active, ending, ended, id, stage]
    exact h.sums t task at_t
  · intro t nobody
    rw [ending, ended]
    rw [List.getElem?_eq_none_iff, length, ← List.getElem?_eq_none_iff] at nobody
    exact h.spare t nobody
  · intro id t there
    obtain ⟨task, at_t, is, live⟩ := h.holder id t (active ▸ there)
    have inside : t < s'.tasks.length := length ▸ (List.getElem?_eq_some_iff.mp at_t).1
    obtain ⟨old, at_t', id', stage⟩ := same t _ (List.getElem?_eq_getElem inside)
    cases at_t.symm.trans at_t'
    exact ⟨_, List.getElem?_eq_getElem inside, id'.trans is, stage.trans live⟩

theorem Accounted.moved {s' : Manager} (h : Accounted s) {t : Nat} {task : Task} {phase : Phase}
    (at_t : s.tasks[t]? = some task) (tasks : s'.tasks = (s.move t task phase).tasks) (active : s'.active = s.active)
    (calls : s'.calls = s.calls) (ended : ∀ u, s'.ended u = s.ended u) (stage : phase.stage = task.phase.stage) :
    Accounted s' := by
  refine h.kept active (tasks ▸ List.length_set ..) (fun u => by rw [ending, calls, ending]) ended fun u a at_u => ?_
  rw [tasks] at at_u
  rcases move_at at_u with ⟨rfl, rfl⟩ | ⟨-, at_u⟩
  · exact ⟨task, at_t, rfl, stage⟩
  · exact ⟨a, at_u, rfl, rfl⟩

theorem Accounted.congr {s' : Manager} (h : Accounted s) (tasks : s'.tasks = s.tasks) (active : s'.active = s.active)
    (ending : ∀ t, s'.ending t = s.ending t) (log : s'.log = s.log) : Accounted s' := by
  refine h.kept active (congrArg List.length tasks) ending (fun u => by rw [Manager.ended, log, Manager.ended]) ?_
  intro u a at_u
  exact ⟨a, tasks ▸ at_u, rfl, rfl⟩

theorem noteOf_terminal (result : Option TransferOutcome) : (noteOf result).terminal = true := by
  rcases result with _ | _ | _ <;> rfl

theorem ended_note (s : Manager) (t u : Nat) {note : Note} (going : note.terminal = false) :
    (s.emit t note).ended u = s.ended u := by
  rw [ended, emit, List.countP_append, List.countP_singleton, going, Bool.and_false]
  rfl

/-- A prompt goes, and its transfer's registration stays. -/
theorem setPending_length (s : Manager) (id : String) (prompt : Option Nat) :
    (s.setPending id prompt).tasks.length = s.tasks.length := by
  unfold setPending
  split
  · unfold dropPrompt
    split
    · split
      · exact List.length_set ..
      · rfl
    · rfl
  · rfl

theorem setPending_self {t : Nat} {task : Task} (at_t : s.tasks[t]? = some task) (unasked : task.phase ≠ .waiting .asked)
    (id : String) (prompt : Option Nat) : (s.setPending id prompt).tasks[t]? = some task := by
  have inside : t < (s.setPending id prompt).tasks.length :=
    setPending_length s id prompt ▸ (List.getElem?_eq_some_iff.mp at_t).1
  obtain ⟨old, there, same | ⟨-, asked, -⟩⟩ := setPending_at (List.getElem?_eq_getElem inside) <;>
    cases at_t.symm.trans there
  · exact same ▸ List.getElem?_eq_getElem inside
  · exact absurd asked unasked

theorem answer_ending (s : Manager) (id : String) (d : AcceptDecision) (t : Nat) : s.ending t = (s.answer id d).1.ending t := by
  rcases answer_cases s id d with ⟨-, eq⟩ | ⟨u, -, ⟨task, -, -, eq⟩ | ⟨-, eq⟩⟩ <;> rw [eq]
  · rfl
  · rfl

theorem Accounted.setPending (h : Accounted s) (id : String) (prompt : Option Nat) :
    Accounted (s.setPending id prompt) := by
  refine h.kept ?_ (setPending_length s id prompt) (fun t => ?_) (fun t => ?_) fun t a at_t => ?_
  · obtain ⟨tasks, eq⟩ := Manager.setPending_eq s id prompt
    rw [eq]
  · obtain ⟨tasks, eq⟩ := Manager.setPending_eq s id prompt
    rw [eq]
    rfl
  · obtain ⟨tasks, eq⟩ := Manager.setPending_eq s id prompt
    rw [eq]
    rfl
  · obtain ⟨task, there, rfl | ⟨-, asked, rfl⟩⟩ := setPending_at at_t
    · exact ⟨_, there, rfl, rfl⟩
    · exact ⟨task, there, rfl, asked ▸ rfl⟩

theorem Accounted.answer (h : Accounted s) (id : String) (d : AcceptDecision) : Accounted (s.answer id d).1 := by
  rcases answer_cases s id d with ⟨-, eq⟩ | ⟨u, -, ⟨task, at_u, asked, eq⟩ | ⟨-, eq⟩⟩ <;> rw [eq]
  · exact h
  · exact h.moved at_u rfl rfl rfl (fun _ => rfl) (asked ▸ rfl)
  · exact h.congr rfl rfl (fun _ => rfl) rfl

/-- A step of one registration, which may enter or leave the registry. -/
theorem Accounted.turned {s' : Manager} (h : Accounted s) {t : Nat} {task' : Task}
    (here : s'.tasks[t]? = some task') (there : ∀ u, u ≠ t → s'.tasks[u]? = s.tasks[u]?)
    (others : ∀ u, u ≠ t → s'.ending u = s.ending u ∧ s'.ended u = s.ended u)
    (elsewhere : ∀ id u, u ≠ t → (s'.active id = some u ↔ s.active id = some u))
    (sum : s'.held t task'.id + s'.ending t + task'.phase.stage.leave + s'.ended t = task'.phase.stage.entered)
    (holds : ∀ id, s'.active id = some t → task'.id = id ∧ task'.phase.stage = .live) : Accounted s' := by
  constructor
  · intro u a at_u
    by_cases same : u = t
    · subst same
      cases here.symm.trans at_u
      exact sum
    · rw [(others u same).1, (others u same).2, held, ite_congr (propext (elsewhere a.id u same)) (fun _ => rfl) fun _ => rfl]
      exact h.sums u a (there u same ▸ at_u)
  · intro u nobody
    by_cases same : u = t
    · subst same
      cases here.symm.trans nobody
    · rw [(others u same).1, (others u same).2]
      exact h.spare u (there u same ▸ nobody)
  · intro id u holder
    by_cases same : u = t
    · subst same
      exact ⟨task', here, holds id holder⟩
    · rw [there u same]
      exact h.holder id u ((elsewhere id u same).mp holder)

theorem move_self {t : Nat} {task : Task} (at_t : s.tasks[t]? = some task) (task' : Task) (phase : Phase) :
    (s.move t task' phase).tasks[t]? = some { task' with phase := phase } :=
  List.getElem?_set_self (List.getElem?_eq_some_iff.mp at_t).1

theorem move_other {t u : Nat} (other : u ≠ t) (task' : Task) (phase : Phase) :
    (s.move t task' phase).tasks[u]? = s.tasks[u]? :=
  List.getElem?_set_ne (Ne.symm other)

/-- What is counted of a task's end rests on the calls and the log. -/
theorem counts_same {s' : Manager} (calls : s'.calls = s.calls) (log : s'.log = s.log) (u : Nat) :
    s'.ending u = s.ending u ∧ s'.ended u = s.ended u := by
  rw [ending, calls, ended, log]
  exact ⟨rfl, rfl⟩

/-- What is not `t`'s place in the registry, neither before nor after, is as it was. -/
theorem update_elsewhere {active : String → Option Nat} {id key : String} {t u : Nat} {now : Option Nat} (other : u ≠ t)
    (was : ∀ v, active id = some v → v = t) (is : ∀ v, now = some v → v = t) :
    Function.update active id now key = some u ↔ active key = some u := by
  rw [Function.update_apply]
  split
  · next same =>
    subst same
    exact iff_of_false (fun there => other (is u there)) fun there => other (was u there)
  · rfl

theorem Accounted.registered {s' : Manager} (h : Accounted s) {t : Nat} {task : Task} {id : String}
    {preview : TransferPreview} (at_t : s.tasks[t]? = some task) (greeted : task.phase = .greeted)
    (vacant : s.active id = none) (tasks : s'.tasks = (s.move t { task with id := id, preview := preview } .registered).tasks)
    (active : s'.active = Function.update s.active id (some t)) (calls : s'.calls = s.calls) (log : s'.log = s.log) :
    Accounted s' := by
  have same := counts_same calls log
  refine h.turned (tasks ▸ move_self at_t ..) (fun u other => tasks ▸ move_other other ..) (fun u _ => same u) ?_ ?_ ?_
  · intro key u other
    rw [active]
    exact update_elsewhere other (fun v there => nomatch vacant.symm.trans there) fun v there => (Option.some.inj there).symm
  · have before := h.sums t task at_t
    rw [greeted] at before
    have held : s'.held t id = 1 := if_pos (active ▸ Function.update_self ..)
    rw [(same t).1, (same t).2, held]
    simp only [Phase.stage, Stage.leave, Stage.entered] at before ⊢
    omega
  · intro key there
    rw [active, Function.update_apply] at there
    split at there
    · next is => exact ⟨is.symm, rfl⟩
    · obtain ⟨a, at_t', -, live⟩ := h.holder key t there
      cases at_t.symm.trans at_t'
      rw [greeted] at live
      cases live

/-- Whoever claims the registration of a live task ends it. -/
theorem Accounted.claimed {s' : Manager} (h : Accounted s) {t : Nat} {task : Task} {phase : Phase}
    (at_t : s.tasks[t]? = some task) (live : task.phase.stage = .live) (held : s.active task.id = some t)
    (leaving : phase.stage = .leaving) (tasks : s'.tasks = (s.move t task phase).tasks)
    (active : s'.active = Function.update s.active task.id none) (calls : s'.calls = s.calls) (log : s'.log = s.log) :
    Accounted s' := by
  have same := counts_same calls log
  refine h.turned (tasks ▸ move_self at_t ..) (fun u other => tasks ▸ move_other other ..) (fun u _ => same u) ?_ ?_ ?_
  · intro key u other
    rw [active]
    exact update_elsewhere other (fun v there => Option.some.inj (there.symm.trans held)) nofun
  · have before := h.sums t task at_t
    rw [Manager.held, if_pos held, live] at before
    have freed : s'.held t task.id = 0 := if_neg (by rw [active, Function.update_self]; exact nofun)
    rw [(same t).1, (same t).2, freed, leaving]
    simp only [Stage.leave, Stage.entered] at before ⊢
    omega
  · intro key there
    rw [active, Function.update_apply] at there
    split at there
    · cases there
    · next ne =>
      obtain ⟨a, at_t', is, -⟩ := h.holder key t there
      cases at_t.symm.trans at_t'
      exact absurd is.symm ne

/-- A task that no longer has its registration ends without a word. -/
theorem Accounted.lost {s' : Manager} (h : Accounted s) {t : Nat} {task : Task} {phase : Phase}
    (at_t : s.tasks[t]? = some task) (live : task.phase.stage = .live) (lost : s.active task.id ≠ some t)
    (gone : phase.stage = .gone) (tasks : s'.tasks = (s.move t task phase).tasks) (active : s'.active = s.active)
    (calls : s'.calls = s.calls) (log : s'.log = s.log) : Accounted s' := by
  have same := counts_same calls log
  refine h.turned (tasks ▸ move_self at_t ..) (fun u other => tasks ▸ move_other other ..) (fun u _ => same u) ?_ ?_ ?_
  · intro key u _
    rw [active]
  · have before := h.sums t task at_t
    rw [live] at before
    rw [(same t).1, (same t).2, held, active, gone]
    exact before
  · intro key there
    obtain ⟨a, at_t', is, -⟩ := h.holder key t (active ▸ there)
    cases at_t.symm.trans at_t'
    exact absurd (is ▸ active ▸ there) lost

/-- The task that claimed its registration says how it ended. -/
theorem Accounted.emitted (h : Accounted s) {t : Nat} {task : Task} {phase : Phase} {note : Note}
    (at_t : s.tasks[t]? = some task) (leaving : task.phase.stage = .leaving) (gone : phase.stage = .gone)
    (terminal : note.terminal = true) : Accounted ((s.move t task phase).emit t note) := by
  refine h.turned (move_self at_t ..) (fun u other => move_other other ..)
    (fun u other => ⟨rfl, ?_⟩) (fun _ _ _ => Iff.rfl) ?_ ?_
  · rw [ended, emit, List.countP_append, List.countP_singleton, decide_eq_false (Ne.symm other)]
    rfl
  · have before := h.sums t task at_t
    have after : ((s.move t task phase).emit t note).ended t = s.ended t + 1 := by
      rw [ended, emit, List.countP_append, List.countP_singleton, terminal, decide_eq_true rfl]
      rfl
    rw [leaving] at before
    rw [after, gone]
    simp only [Stage.leave, Stage.entered] at before ⊢
    change s.held t task.id + s.ending t + 0 + (s.ended t + 1) = 1
    omega
  · intro key there
    obtain ⟨a, at_t', -, live⟩ := h.holder key t there
    cases at_t.symm.trans at_t'
    rw [leaving] at live
    cases live

theorem Accounted.met {s' : Manager} (h : Accounted s) {task : Task} (unknown : task.phase.stage = .unknown)
    (tasks : s'.tasks = s.tasks ++ [task]) (active : s'.active = s.active) (calls : s'.calls = s.calls)
    (log : s'.log = s.log) : Accounted s' := by
  have same := counts_same calls log
  have vacant (id : String) : s.active id ≠ some s.tasks.length := by
    intro there
    obtain ⟨a, at_t, -⟩ := h.holder id _ there
    exact absurd (List.getElem?_eq_some_iff.mp at_t).1 (Nat.lt_irrefl _)
  have nothing := h.spare s.tasks.length (List.getElem?_eq_none le_rfl)
  have newest : s'.tasks[s.tasks.length]? = some task := tasks ▸ List.getElem?_concat_length
  refine h.turned newest (fun u other => ?_) (fun u _ => same u) (fun id u _ => active ▸ Iff.rfl) ?_
    fun id there => absurd (active ▸ there) (vacant id)
  · rw [tasks]
    rcases lt_or_gt_of_ne other with inside | beyond
    · exact List.getElem?_append_left inside
    · rw [List.getElem?_eq_none beyond.le, List.getElem?_eq_none_iff, List.length_append]
      exact beyond
  · rw [held, if_neg (active ▸ vacant task.id), (same _).1, (same _).2, nothing.1, nothing.2, unknown]
    rfl

theorem calls_perm {calls : List Call} {k : Nat} {call : Call} (at_k : calls[k]? = some call) :
    calls.Perm (call :: calls.eraseIdx k) := by
  obtain ⟨inside, rfl⟩ := List.getElem?_eq_some_iff.mp at_k
  exact (List.getElem_cons_eraseIdx_perm inside).symm

theorem ending_call {k : Nat} {call : Call} (at_k : s.calls[k]? = some call) (t : Nat) :
    s.ending t = (s.calls.eraseIdx k).countP (·.ends = some t) + if call.ends = some t then 1 else 0 := by
  rw [ending, (calls_perm at_k).countP_eq, List.countP_cons]
  simp only [decide_eq_true_eq]

theorem ending_set {k : Nat} {call : Call} (at_k : s.calls[k]? = some call) (call' : Call) (t : Nat) :
    (s.calls.set k call').countP (·.ends = some t) =
      (s.calls.eraseIdx k).countP (·.ends = some t) + if call'.ends = some t then 1 else 0 := by
  obtain ⟨inside, -⟩ := List.getElem?_eq_some_iff.mp at_k
  rw [(List.set_perm_cons_eraseIdx inside call').countP_eq, List.countP_cons]
  simp only [decide_eq_true_eq]

/-- `cancel` claims a registration. -/
theorem Accounted.cancelling (h : Accounted s) {id : String} {t : Nat} (there : s.active id = some t) :
    Accounted { s with active := Function.update s.active id none, calls := s.calls ++ [.cancelling t id] } := by
  obtain ⟨task, at_t, rfl, live⟩ := h.holder id t there
  refine h.turned (t := t) at_t (fun _ _ => rfl) (fun u other => ⟨?_, rfl⟩) (fun key u other => ?_) ?_ fun key holder => ?_
  · rw [ending, List.countP_append, List.countP_singleton, Call.ends, if_neg (by simpa using Ne.symm other)]
    rfl
  · exact update_elsewhere other (fun v holds => Option.some.inj (holds.symm.trans there)) nofun
  · have before := h.sums t task at_t
    rw [held, if_pos there] at before
    have freed : ({ s with active := Function.update s.active task.id none, calls := s.calls ++ [.cancelling t task.id] }
        : Manager).held t task.id = 0 := if_neg (by dsimp only; rw [Function.update_self]; exact nofun)
    rw [freed, ending, List.countP_append, List.countP_singleton, Call.ends, if_pos (decide_eq_true rfl)]
    change 0 + (s.ending t + 1) + _ + s.ended t = _
    omega
  · change Function.update s.active task.id none key = some t at holder
    rw [Function.update_apply] at holder
    split at holder
    · cases holder
    · next ne =>
      obtain ⟨a, at_t', is, -⟩ := h.holder key t holder
      cases at_t.symm.trans at_t'
      exact absurd is.symm ne

/-- The cancelling call says so. -/
theorem Accounted.cancelled (h : Accounted s) {k t : Nat} (at_k : s.calls[k]? = some (.cancelled t)) :
    Accounted { s.emit t .cancelled with calls := s.calls.eraseIdx k } := by
  have counts := ending_call at_k
  cases at_t : s.tasks[t]? with
  | none =>
    have nothing := (h.spare t at_t).1
    rw [counts, Call.ends, if_pos rfl] at nothing
    omega
  | some task =>
    refine h.turned (t := t) at_t (fun _ _ => rfl) (fun u other => ⟨?_, ?_⟩) (fun _ _ _ => Iff.rfl) ?_ fun id there => ?_
    · rw [counts, Call.ends, if_neg (by simpa using Ne.symm other)]
      rfl
    · rw [ended, emit, List.countP_append, List.countP_singleton, decide_eq_false (Ne.symm other)]
      rfl
    · have before := h.sums t task at_t
      rw [counts, Call.ends, if_pos rfl] at before
      have after : ({ s.emit t .cancelled with calls := s.calls.eraseIdx k } : Manager).ended t = s.ended t + 1 := by
        rw [ended, emit, List.countP_append, List.countP_singleton, decide_eq_true rfl]
        rfl
      rw [after]
      change s.held t task.id + (s.calls.eraseIdx k).countP _ + _ + _ = _
      omega
    · obtain ⟨a, at_t', is, live⟩ := h.holder id t there
      cases at_t.symm.trans at_t'
      exact ⟨is, live⟩

theorem Accounted.advance (h : Accounted s) {t : Nat} {task : Task} {phase : Phase} {event : Event}
    (at_t : s.tasks[t]? = some task) (is : task.phase = phase) : Accounted (s.advance t task phase event) := by
  unfold Manager.advance
  split
  · exact h.moved at_t rfl rfl rfl (fun _ => rfl) (is ▸ rfl)
  · exact h.moved at_t rfl rfl rfl (fun _ => rfl) (is ▸ rfl)
  · dsimp only
    split
    · next vacant => exact h.registered at_t is (Option.isNone_iff_eq_none.mp vacant) rfl rfl rfl rfl
    · exact h
  · dsimp only
    split <;> exact h.moved at_t rfl rfl rfl (fun _ => rfl) (is ▸ rfl)
  · next now =>
    obtain ⟨consents, eq⟩ := admitted_eq s task (s.admission task.peer now)
    dsimp only
    rw [eq]
    exact h.moved at_t rfl rfl rfl (fun u => ended_note _ t u rfl) (is ▸ rfl)
  · have at_t' := setPending_self at_t (is ▸ nofun) task.id (some t)
    exact (h.setPending task.id (some t)).moved at_t' rfl rfl rfl (fun _ => rfl) (is ▸ rfl)
  · exact h.moved at_t rfl rfl rfl (fun _ => rfl) (is ▸ rfl)
  · exact h.moved at_t rfl rfl rfl (fun _ => rfl) (is ▸ rfl)
  · exact h.moved at_t rfl rfl rfl (fun _ => rfl) (is ▸ rfl)
  · exact h.moved at_t rfl rfl rfl (fun _ => rfl) (is ▸ rfl)
  · next now approves writes =>
    obtain ⟨trust, eq⟩ := remember_eq s task.peer now approves writes
    rw [eq]
    exact h.moved at_t rfl rfl rfl (fun _ => rfl) (is ▸ rfl)
  · exact h.moved at_t rfl rfl rfl (fun _ => rfl) (is ▸ rfl)
  · next writes =>
    obtain ⟨trust, consents, firstContact, eq⟩ := giveBack_eq s task.id writes
    rw [eq]
    exact h.moved at_t rfl rfl rfl (fun _ => rfl) (is ▸ rfl)
  · next writes =>
    obtain ⟨trust, consents, firstContact, eq⟩ := giveBack_eq s task.id writes
    rw [eq]
    exact h.moved at_t rfl rfl rfl (fun _ => rfl) (is ▸ rfl)
  · have at_t' := setPending_self at_t (is ▸ nofun) task.id none
    exact (h.setPending task.id none).moved at_t' rfl rfl rfl (fun _ => rfl) (is ▸ rfl)
  · exact h.moved at_t rfl rfl rfl (fun _ => rfl) (is ▸ rfl)
  · exact h.moved at_t rfl rfl rfl (fun u => ended_note _ t u rfl) (is ▸ rfl)
  · exact h.kept rfl rfl (fun _ => rfl) (fun u => ended_note _ t u rfl) fun u a at_u => ⟨a, at_u, rfl, rfl⟩
  · split
    · exact h
    · exact h.congr rfl rfl (fun _ => rfl) rfl
  · exact h.moved at_t rfl rfl rfl (fun _ => rfl) (is ▸ rfl)
  · exact h
  · split
    · next held => exact h.claimed at_t (is ▸ rfl) held rfl rfl rfl rfl rfl
    · next lost => exact h.lost at_t (is ▸ rfl) lost rfl rfl rfl rfl rfl
  · split
    · next held => exact h.claimed at_t (is ▸ rfl) held rfl rfl rfl rfl rfl
    · next lost => exact h.lost at_t (is ▸ rfl) lost rfl rfl rfl rfl rfl
  · exact h.emitted at_t (is ▸ rfl) rfl rfl
  · exact h.emitted at_t (is ▸ rfl) rfl (noteOf_terminal _)
  · split
    · exact h.moved at_t rfl rfl rfl (fun u => ended_note _ t u rfl) (is ▸ rfl)
    · exact h.moved at_t rfl rfl rfl (fun _ => rfl) (is ▸ rfl)
  · exact h

theorem Accounted.goOn (h : Accounted s) {k : Nat} {writes : Bool} {call : Call} (at_k : s.calls[k]? = some call) :
    Accounted (s.goOn k writes call) := by
  have returned (t : Nat) (none_of : call.ends = none) : (s.calls.eraseIdx k).countP (·.ends = some t) = s.ending t := by
    rw [ending_call at_k, none_of]
    rfl
  have goes (t : Nat) (call' : Call) (same : call'.ends = call.ends) :
      (s.calls.set k call').countP (·.ends = some t) = s.ending t := by
    rw [ending_call at_k, ending_set at_k, same]
  unfold Manager.goOn
  split
  · next id d => exact (h.answer id d).congr rfl rfl (fun t => (returned t rfl).trans (answer_ending s id d t)) rfl
  · split
    · exact h.congr rfl rfl (fun t => goes t _ rfl) rfl
    · exact h.congr rfl rfl (fun t => returned t rfl) rfl
  · next d =>
    obtain ⟨trust, consents, eq⟩ := unpin_eq s d writes
    rw [eq]
    exact h.congr rfl rfl (fun t => returned t rfl) rfl
  · next u id =>
    exact (h.answer id .reject).congr rfl rfl
      (fun t => (goes t (.cancelled u) rfl).trans (answer_ending s id .reject t)) rfl
  · exact h.cancelled at_k

theorem Accounted.step (h : Accounted s) (event : Event) : Accounted (s.step event) := by
  have called (call : Call) (t : Nat) (none_of : call.ends = none) :
      (s.calls ++ [call]).countP (·.ends = some t) = s.ending t := by
    rw [List.countP_append, List.countP_singleton, none_of]
    rfl
  unfold Manager.step
  split
  · split
    · split
      · exact h.met rfl rfl rfl rfl rfl
      · exact h
    · exact h.met rfl rfl rfl rfl rfl
  · split
    · exact h
    · exact h.congr rfl rfl (fun t => called _ t rfl) rfl
    · exact h.congr rfl rfl (fun t => called _ t rfl) rfl
  · next id =>
    split
    · exact (h.answer id .reject).congr rfl rfl
        (fun t => (called (.rejected id) t rfl).trans (answer_ending s id .reject t)) rfl
    · exact h.answer id .reject
  · split
    · next there => exact h.cancelling there
    · exact h
  · split
    · next at_k => exact h.goOn at_k
    · exact h
  · exact h.congr rfl rfl (fun _ => rfl) rfl
  · exact h.congr rfl rfl (fun _ => rfl) rfl
  · exact h.congr rfl rfl (fun _ => rfl) rfl
  · exact h.congr rfl rfl (fun _ => rfl) rfl
  · exact h.congr rfl rfl (fun _ => rfl) rfl
  · split
    · exact h.congr rfl rfl (fun _ => rfl) rfl
    · exact h
  · exact accounted_nobody rfl rfl rfl rfl
  · split
    · split
      · next at_t => exact h.advance at_t rfl
      · exact h
    · exact h

theorem accounted_run (events : List Event) (h : Accounted s) : Accounted (events.foldl Manager.step s) :=
  TransitionRun.invariant h (fun _ event accounted => accounted.step event) events

def Quiet (s : Manager) : Prop := s.log.Pairwise fun a b => a.2.terminal = true → a.1 ≠ b.1

/-- The transfer is registered, or whoever cancelled it has not said so yet. -/
def Standing (s : Manager) (t : Nat) : Prop :=
  match s.tasks[t]? with
  | some task => s.active task.id = some t ∨ ∃ call ∈ s.calls, call.ends = some t
  | none => False

instance (s : Manager) (t : Nat) : Decidable (s.Standing t) := by
  unfold Standing
  split <;> infer_instance

def Unsaved (s : Manager) (t : Nat) : Prop :=
  match s.tasks[t]? with
  | some task => s.store task.id = none
  | none => True

instance Unsaved.decidable (s : Manager) (t : Nat) : Decidable (s.Unsaved t) := by
  unfold Unsaved
  split
  · exact decidable_of_iff _ Option.isNone_iff_eq_none
  · exact instDecidableTrue

/-- A task that says something about its transfer still has something to say. -/
def Current (s : Manager) : Event → Prop
  | .announce t _ | .start t | .progress t => s.Standing t
  | .announceIfInterrupted t => s.Standing t ∨ s.Unsaved t
  | _ => True

instance (s : Manager) (event : Event) : Decidable (s.Current event) := by
  unfold Current
  split <;> infer_instance

theorem Accounted.standing (h : Accounted s) {t : Nat} (stands : s.Standing t) : s.ended t = 0 := by
  unfold Standing at stands
  split at stands
  · next task at_t =>
    have sum := h.sums t task at_t
    have entered : task.phase.stage.entered ≤ 1 := by cases task.phase.stage <;> decide
    rcases stands with holder | ⟨call, mem, ends⟩
    · rw [held, if_pos holder] at sum
      omega
    · have claimed : 0 < s.ending t := List.countP_pos_iff.mpr ⟨call, mem, decide_eq_true ends⟩
      omega
  · exact stands.elim

/-- Whoever has claimed a registration has not said so yet. -/
theorem Accounted.leaving (h : Accounted s) {t : Nat} {task : Task} (at_t : s.tasks[t]? = some task)
    (leaving : task.phase.stage = .leaving) : s.ended t = 0 := by
  have sum := h.sums t task at_t
  rw [leaving] at sum
  simp only [Stage.leave, Stage.entered] at sum
  omega

theorem Quiet.said (h : Quiet s) {t : Nat} {note : Note} (before : s.ended t = 0) : Quiet (s.emit t note) := by
  refine List.pairwise_append.mpr ⟨h, List.pairwise_singleton .., fun a mem b last terminal same => ?_⟩
  rw [List.mem_singleton.mp last] at same
  have never := List.countP_eq_zero.mp before a mem
  exact never (by rw [same, terminal, decide_eq_true rfl]; rfl)

theorem Quiet.congr {s' : Manager} (h : Quiet s) (log : s'.log = s.log) : Quiet s' := by
  rw [Quiet, log]
  exact h

theorem Quiet.advance (h : Quiet s) (accounted : Accounted s) {t : Nat} {task : Task} {phase : Phase} {event : Event}
    (at_t : s.tasks[t]? = some task) (is : task.phase = phase) (is_t : event.task = some t) (current : s.Current event) :
    Quiet (s.advance t task phase event) := by
  unfold Manager.advance
  split
  · exact h
  · exact h
  · dsimp only
    split <;> exact h
  · dsimp only
    split <;> exact h
  · next u now =>
    cases is_t
    obtain ⟨consents, eq⟩ := admitted_eq s task (s.admission task.peer now)
    dsimp only
    rw [eq]
    exact h.said (accounted.standing current)
  · obtain ⟨tasks, eq⟩ := setPending_eq s task.id (some t)
    rw [eq]
    exact h
  · exact h
  · exact h
  · exact h
  · exact h
  · next now approves writes =>
    obtain ⟨trust, eq⟩ := remember_eq s task.peer now approves writes
    rw [eq]
    exact h
  · exact h
  · next writes =>
    obtain ⟨trust, consents, firstContact, eq⟩ := giveBack_eq s task.id writes
    rw [eq]
    exact h
  · next writes =>
    obtain ⟨trust, consents, firstContact, eq⟩ := giveBack_eq s task.id writes
    rw [eq]
    exact h
  · obtain ⟨tasks, eq⟩ := setPending_eq s task.id none
    rw [eq]
    exact h
  · exact h
  · cases is_t
    exact h.said (accounted.standing current)
  · cases is_t
    exact h.said (accounted.standing current)
  · split <;> exact h
  · exact h
  · exact h
  · split <;> exact h
  · split <;> exact h
  · exact h.said (accounted.leaving at_t (is ▸ rfl))
  · exact h.said (accounted.leaving at_t (is ▸ rfl))
  · cases is_t
    split
    · next left =>
      refine h.said (accounted.standing (current.resolve_right fun unsaved => ?_))
      rw [Unsaved, at_t] at unsaved
      change s.store task.id = none at unsaved
      rw [unsaved] at left
      cases left
    · exact h
  · exact h

theorem answer_log (s : Manager) (id : String) (d : AcceptDecision) : (s.answer id d).1.log = s.log := by
  rcases answer_cases s id d with ⟨-, eq⟩ | ⟨u, -, ⟨task, -, -, eq⟩ | ⟨-, eq⟩⟩ <;> rw [eq]
  · rfl

theorem Quiet.goOn (h : Quiet s) (accounted : Accounted s) {k : Nat} {writes : Bool} {call : Call}
    (at_k : s.calls[k]? = some call) : Quiet (s.goOn k writes call) := by
  unfold Manager.goOn
  split
  · exact h.congr (answer_log ..)
  · split <;> exact h
  · next d =>
    obtain ⟨trust, consents, eq⟩ := unpin_eq s d writes
    rw [eq]
    exact h
  · exact h.congr (answer_log ..)
  · next t =>
    have counts := ending_call at_k t
    rw [Call.ends, if_pos rfl] at counts
    refine h.said ?_
    cases at_t : s.tasks[t]? with
    | none => exact (accounted.spare t at_t).2
    | some task =>
      have sum := accounted.sums t task at_t
      have entered : task.phase.stage.entered ≤ 1 := by cases task.phase.stage <;> decide
      omega

theorem Quiet.step (h : Quiet s) (accounted : Accounted s) (event : Event) (current : s.Current event) :
    Quiet (s.step event) := by
  unfold Manager.step
  split
  · split
    · split <;> exact h
    · exact h
  · split <;> exact h
  · split <;> exact h.congr (answer_log ..)
  · split <;> exact h
  · split
    · next at_k => exact h.goOn accounted at_k
    · exact h
  · exact h
  · exact h
  · exact h
  · exact h
  · exact h
  · split <;> exact h
  · exact List.Pairwise.nil
  · split
    · next is_t =>
      split
      · next at_t => exact h.advance accounted at_t rfl is_t current
      · exact h
    · exact h

theorem step_task {event : Event} {t : Nat} {task : Task} (is_t : event.task = some t) (at_t : s.tasks[t]? = some task) :
    s.step event = s.advance t task task.phase event := by
  cases event <;> cases is_t <;> dsimp only [Manager.step, Event.task] <;> rw [at_t]

theorem step_nobody {event : Event} {t : Nat} (is_t : event.task = some t) (at_t : s.tasks[t]? = none) : s.step event = s := by
  cases event <;> cases is_t <;> dsimp only [Manager.step, Event.task] <;> rw [at_t]

theorem turn_rest {t : Nat} {task : Task} (at_t : s.tasks[t]? = some task) (known : task.phase.known = true)
    (going : task.phase ≠ .done) : ∃ phase : Phase,
      (s.step (task.phase.turn t)).tasks[t]? = some { task with phase := phase } ∧ phase.known = true ∧
        phase.rest < task.phase.rest := by
  rw [step_task (task.phase.turn_task t) at_t]
  have there {s' : Manager} (same : s'.tasks = s.tasks) : s'.tasks[t]? = some task := same ▸ at_t
  cases is : task.phase with
  | meeting | greeted | gone =>
    rw [is] at known
    cases known
  | registered =>
    refine ⟨.marked, ?_, rfl, Nat.lt_succ_self 10⟩
    dsimp only [Phase.turn, Manager.advance]
    split <;> exact move_self at_t ..
  | marked =>
    exact ⟨.queued (s.admission task.peer 0) (s.resuming task), move_self (there (admitted_tasks ..)) .., rfl,
      Nat.lt_succ_self 9⟩
  | queued admission resuming =>
    have listed := setPending_self at_t (is ▸ nofun) task.id (some t)
    have shorter : 6 < 9 := by decide
    cases admission <;> cases resuming
    · exact ⟨.decided .rejected, move_self at_t .., rfl, shorter⟩
    · exact ⟨.decided .rejected, move_self at_t .., rfl, shorter⟩
    · exact ⟨.waiting .asked, move_self listed .., rfl, Nat.lt_succ_self 8⟩
    · exact ⟨.decided .accepted, move_self at_t .., rfl, shorter⟩
    · exact ⟨.decided .accepted, move_self at_t .., rfl, shorter⟩
    · exact ⟨.decided .accepted, move_self at_t .., rfl, shorter⟩
  | waiting prompt =>
    have given := giveBack_tasks s task.id false
    have remembered := remember_tasks s task.peer 0 false false
    rcases prompt with _ | d | _
    · exact ⟨.woken .unanswered, move_self (there given) .., rfl, Nat.lt_succ_self 7⟩
    · cases d
      · exact ⟨.woken .accepted, move_self at_t .., rfl, Nat.lt_succ_self 7⟩
      · exact ⟨.woken .accepted, move_self (there remembered) .., rfl, Nat.lt_succ_self 7⟩
      · exact ⟨.woken .rejected, move_self at_t .., rfl, Nat.lt_succ_self 7⟩
    · exact ⟨.woken .unanswered, move_self (there given) .., rfl, Nat.lt_succ_self 7⟩
  | woken outcome =>
    exact ⟨.decided outcome, move_self (setPending_self at_t (is ▸ nofun) task.id none) .., rfl, Nat.lt_succ_self 6⟩
  | decided outcome => exact ⟨.settled outcome, move_self at_t .., rfl, Nat.lt_succ_self 5⟩
  | settled outcome =>
    have ends : ∃ phase : Phase, (s.advance t task (.settled .rejected) (.claim t)).tasks[t]? =
        some { task with phase := phase } ∧ phase.known = true ∧ phase.rest < 5 := by
      dsimp only [Manager.advance]
      split
      · exact ⟨.turnedDown, move_self at_t .., rfl, by decide⟩
      · exact ⟨.done, move_self at_t .., rfl, by decide⟩
    cases outcome
    · exact ⟨.started, move_self at_t .., rfl, Nat.lt_succ_self 4⟩
    · exact ends
    · exact ends
  | started => exact ⟨.driven none, move_self at_t .., rfl, Nat.lt_succ_self 3⟩
  | driven result =>
    dsimp only [Phase.turn, Manager.advance]
    split
    · exact ⟨.claimed result, move_self at_t .., rfl, Nat.lt_succ_self 2⟩
    · exact ⟨.finished, move_self at_t .., rfl, (Nat.lt_succ_self 1).trans (Nat.lt_succ_self 2)⟩
  | turnedDown => exact ⟨.done, move_self at_t .., rfl, Nat.two_pos⟩
  | claimed result => exact ⟨.finished, move_self at_t .., rfl, Nat.lt_succ_self 1⟩
  | finished =>
    dsimp only [Phase.turn, Manager.advance]
    split <;> exact ⟨.done, move_self at_t .., rfl, Nat.zero_lt_one⟩
  | done => exact absurd is going

def Finishes (s : Manager) (t : Nat) : Prop :=
  ∃ own : List Event, (∀ event ∈ own, event.task = some t) ∧
    ∃ task, (own.foldl Manager.step s).tasks[t]? = some task ∧ task.phase = .done

theorem finishes {t : Nat} {task : Task} (at_t : s.tasks[t]? = some task) (known : task.phase.known = true) :
    s.Finishes t := by
  induction rest : task.phase.rest using Nat.strongRecOn generalizing s task with
  | _ n ih =>
    by_cases done : task.phase = .done
    · exact ⟨[], nofun, task, at_t, done⟩
    · obtain ⟨phase, at_t', known', shorter⟩ := turn_rest at_t known done
      obtain ⟨own, of_t, task', there, done'⟩ := ih phase.rest (rest ▸ shorter) at_t' known' rfl
      refine ⟨task.phase.turn t :: own, fun event mem => ?_, task', there, done'⟩
      rcases List.mem_cons.mp mem with rfl | mem
      · exact task.phase.turn_task t
      · exact of_t event mem

end Manager
end PeerBeam.Inbound
