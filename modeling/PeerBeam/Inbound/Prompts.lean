import PeerBeam.Inbound.Manager
import PeerBeam.Lib.Run

/-! Which transfer a prompt belongs to. Prompts lie under ids, and an id may be used again as soon as `cancel`
has taken the transfer that has it out of the registry. -/
namespace PeerBeam.Inbound
open Trust (DeviceId)
open Transfer (TransferPreview)

def Phase.early : Phase → Bool
  | .registered | .marked | .queued _ _ | .waiting _ | .woken _ | .decided _ => true
  | _ => false

def Phase.known : Phase → Bool
  | .meeting _ _ | .greeted | .gone => false
  | _ => true

def Call.id : Call → Option String
  | .accept id _ | .rejected id | .cancelling _ id => some id
  | _ => none

namespace Manager
variable {s : Manager}

/-- Every transfer that has had the id has settled its decision, and no call that names it is under way. -/
def Unwound (s : Manager) (id : String) : Prop :=
  (∀ task ∈ s.tasks, task.id = id → task.phase.early = false) ∧ ∀ call ∈ s.calls, call.id ≠ some id

instance (s : Manager) (id : String) : Decidable (s.Unwound id) := inferInstanceAs (Decidable (_ ∧ _))

def Reuse (s : Manager) : Event → Prop
  | .register _ preview fresh => s.Unwound (s.idFor preview fresh)
  | _ => True

instance (s : Manager) (event : Event) : Decidable (s.Reuse event) := by
  unfold Reuse
  split <;> infer_instance

theorem move_at {t u : Nat} {task task' : Task} {phase : Phase} (at_u : (s.move t task phase).tasks[u]? = some task') :
    u = t ∧ task' = { task with phase := phase } ∨ u ≠ t ∧ s.tasks[u]? = some task' := by
  rw [move, List.getElem?_set] at at_u
  by_cases same : t = u
  · rw [if_pos same] at at_u
    split at at_u
    · exact .inl ⟨same.symm, (Option.some.inj at_u).symm⟩
    · cases at_u
  · rw [if_neg same] at at_u
    exact .inr ⟨Ne.symm same, at_u⟩

/-- A prompt's sending half may go. -/
def Drops (task task' : Task) : Prop := task.phase = .waiting .asked ∧ task' = { task with phase := .waiting .dropped }

theorem dropPrompt_at {u v : Nat} {task' : Task} (at_v : (s.dropPrompt u).tasks[v]? = some task') :
    ∃ task, s.tasks[v]? = some task ∧ (task' = task ∨ v = u ∧ Drops task task') := by
  unfold dropPrompt at at_v
  split at at_v
  · next task at_u =>
    split at at_v
    · next asked =>
      rcases move_at at_v with ⟨rfl, rfl⟩ | ⟨-, at_v⟩
      · exact ⟨task, at_u, .inr ⟨rfl, asked, rfl⟩⟩
      · exact ⟨task', at_v, .inl rfl⟩
    · exact ⟨task', at_v, .inl rfl⟩
  · exact ⟨task', at_v, .inl rfl⟩

theorem setPending_at {id : String} {prompt : Option Nat} {v : Nat} {task' : Task}
    (at_v : (s.setPending id prompt).tasks[v]? = some task') :
    ∃ task, s.tasks[v]? = some task ∧ (task' = task ∨ s.pending id = some v ∧ Drops task task') := by
  unfold setPending at at_v
  cases held : s.pending id with
  | none =>
    rw [held] at at_v
    exact ⟨task', at_v, .inl rfl⟩
  | some u =>
    rw [held] at at_v
    obtain ⟨task, there, same | ⟨rfl, drops⟩⟩ := dropPrompt_at at_v
    · exact ⟨task, there, .inl same⟩
    · exact ⟨task, there, .inr ⟨rfl, drops⟩⟩

theorem setPending_eq (s : Manager) (id : String) (prompt : Option Nat) :
    ∃ tasks, s.setPending id prompt = { s with tasks := tasks, pending := Function.update s.pending id prompt } := by
  unfold setPending
  split
  · unfold dropPrompt
    split
    · split <;> exact ⟨_, rfl⟩
    · exact ⟨_, rfl⟩
  · exact ⟨_, rfl⟩

theorem unpin_eq (s : Manager) (d : DeviceId) (writes : Bool) :
    ∃ trust consents, s.unpin d writes = { s with trust := trust, consents := consents } := by
  unfold unpin
  split
  · exact ⟨_, _, rfl⟩
  · exact ⟨s.trust, s.consents, rfl⟩

theorem giveBack_eq (s : Manager) (id : String) (writes : Bool) :
    ∃ trust consents firstContact, s.giveBack id writes =
      { s with trust := trust, consents := consents, firstContact := firstContact } := by
  unfold giveBack
  split
  · next d _ =>
    split
    · obtain ⟨trust, consents, eq⟩ := unpin_eq s d writes
      rw [eq]
      exact ⟨_, _, _, rfl⟩
    · exact ⟨s.trust, s.consents, s.firstContact, rfl⟩
  · exact ⟨s.trust, s.consents, s.firstContact, rfl⟩

theorem remember_eq (s : Manager) (peer : DeviceId) (now : Int) (approves writes : Bool) :
    ∃ trust, s.remember peer now approves writes = { s with trust := trust } := by
  unfold remember
  split
  · exact ⟨_, rfl⟩
  · exact ⟨s.trust, rfl⟩

theorem admitted_eq (s : Manager) (task : Task) (admission : FileAdmission) :
    ∃ consents, s.admitted task admission = { s with consents := consents } := by
  unfold admitted
  split
  · exact ⟨_, rfl⟩
  · exact ⟨s.consents, rfl⟩

theorem giveBack_tasks (s : Manager) (id : String) (writes : Bool) : (s.giveBack id writes).tasks = s.tasks := by
  obtain ⟨trust, consents, firstContact, eq⟩ := giveBack_eq s id writes
  rw [eq]

theorem remember_tasks (s : Manager) (peer : DeviceId) (now : Int) (approves writes : Bool) :
    (s.remember peer now approves writes).tasks = s.tasks := by
  obtain ⟨trust, eq⟩ := remember_eq s peer now approves writes
  rw [eq]

theorem admitted_tasks (s : Manager) (task : Task) (admission : FileAdmission) :
    (s.admitted task admission).tasks = s.tasks := by
  obtain ⟨consents, eq⟩ := admitted_eq s task admission
  rw [eq]

/-- Taking a prompt under an id changes nothing but the task it belongs to, if that is still asking. -/
theorem answer_cases (s : Manager) (id : String) (d : AcceptDecision) :
    (s.pending id = none ∧ s.answer id d = (s, false)) ∨
      ∃ u, s.pending id = some u ∧
        ((∃ task, s.tasks[u]? = some task ∧ task.phase = .waiting .asked ∧
            s.answer id d = ({ s.move u task (.waiting (.answered d)) with
              pending := Function.update s.pending id none
              consents := if d = .reject then s.consents else task.consent :: s.consents }, true)) ∨
          ((∀ task, s.tasks[u]? = some task → task.phase ≠ .waiting .asked) ∧
            s.answer id d = ({ s with pending := Function.update s.pending id none }, false))) := by
  unfold answer
  cases held : s.pending id with
  | none => exact .inl ⟨rfl, rfl⟩
  | some u =>
    refine .inr ⟨u, rfl, ?_⟩
    dsimp only
    cases at_u : s.tasks[u]? with
    | none => exact .inr ⟨fun task there => (nomatch there), rfl⟩
    | some task =>
      dsimp only
      by_cases asked : task.phase = .waiting .asked
      · rw [if_pos asked]
        exact .inl ⟨task, rfl, asked, rfl⟩
      · rw [if_neg asked]
        exact .inr ⟨fun task' there => Option.some.inj there ▸ asked, rfl⟩

/-- No two transfers with one id have a decision to settle, a prompt lies under its transfer's id, and whoever is
asked about has a prompt. -/
structure Apart (s : Manager) : Prop where
  once : ∀ (u v : Nat) (a b : Task), s.tasks[u]? = some a → s.tasks[v]? = some b → a.phase.early = true → b.phase.early = true →
    a.id = b.id → u = v
  listed : ∀ (id : String) (u : Nat), s.pending id = some u → ∃ task, s.tasks[u]? = some task ∧ task.id = id ∧ task.phase.known = true
  asked : ∀ (t : Nat) (task : Task), s.tasks[t]? = some task → task.phase = .waiting .asked → s.pending task.id = some t

theorem apart_nobody {s : Manager} (tasks : s.tasks = []) (pending : s.pending = fun _ => none) : Apart s := by
  refine ⟨fun u v a b there => ?_, fun id u there => ?_, fun t task there => ?_⟩
  · rw [tasks] at there
    cases there
  · rw [pending] at there
    cases there
  · rw [tasks] at there
    cases there

theorem Apart.congr {s' : Manager} (h : Apart s) (tasks : s'.tasks = s.tasks) (pending : s'.pending = s.pending) :
    Apart s' := by
  refine ⟨?_, ?_, ?_⟩
  · rw [tasks]
    exact h.once
  · rw [tasks, pending]
    exact h.listed
  · rw [tasks, pending]
    exact h.asked

/-- A task goes on to a phase in which it is not asked about. -/
theorem Apart.moved {s' : Manager} (h : Apart s) {t : Nat} {task : Task} {phase : Phase} (at_t : s.tasks[t]? = some task)
    (tasks : s'.tasks = (s.move t task phase).tasks) (pending : s'.pending = s.pending)
    (early : phase.early = true → task.phase.early = true) (known : task.phase.known = true → phase.known = true)
    (unasked : phase ≠ .waiting .asked) : Apart s' := by
  have back {u : Nat} {a : Task} (at_u : s'.tasks[u]? = some a) :
      ∃ old, s.tasks[u]? = some old ∧ a.id = old.id ∧ (a.phase.early = true → old.phase.early = true) := by
    rw [tasks] at at_u
    rcases move_at at_u with ⟨rfl, rfl⟩ | ⟨-, at_u⟩
    · exact ⟨task, at_t, rfl, early⟩
    · exact ⟨a, at_u, rfl, fun h => h⟩
  constructor
  · intro u v a b at_u at_v early_a early_b same
    obtain ⟨a', at_u, id_a, early_a'⟩ := back at_u
    obtain ⟨b', at_v, id_b, early_b'⟩ := back at_v
    exact h.once u v a' b' at_u at_v (early_a' early_a) (early_b' early_b) (id_a ▸ id_b ▸ same)
  · intro id u held
    obtain ⟨old, at_u, is, knows⟩ := h.listed id u (pending ▸ held)
    rw [tasks, move]
    by_cases same : u = t
    · subst same
      cases at_t.symm.trans at_u
      exact ⟨_, List.getElem?_set_self (List.getElem?_eq_some_iff.mp at_t).1, is, known knows⟩
    · exact ⟨old, (List.getElem?_set_ne (Ne.symm same)).trans at_u, is, knows⟩
  · intro u a at_u asked
    rw [tasks] at at_u
    rw [pending]
    rcases move_at at_u with ⟨rfl, rfl⟩ | ⟨-, at_u⟩
    · exact absurd asked unasked
    · exact h.asked u a at_u asked

/-- The prompt under an id is gone, and nobody with that id is asked about any more. -/
theorem Apart.taken {s' : Manager} {id : String} (h : Apart s) (back : ∀ (u : Nat) (a : Task), s'.tasks[u]? = some a →
      ∃ old, s.tasks[u]? = some old ∧ a.id = old.id ∧ (a.phase.early = true → old.phase.early = true) ∧
        (a.phase = .waiting .asked → old.phase = .waiting .asked ∧ a.id ≠ id))
    (forth : ∀ (u : Nat) (old : Task), s.tasks[u]? = some old → old.phase.known = true →
      ∃ a, s'.tasks[u]? = some a ∧ a.id = old.id ∧ a.phase.known = true)
    (pending : s'.pending = Function.update s.pending id none) : Apart s' := by
  constructor
  · intro u v a b at_u at_v early_a early_b same
    obtain ⟨a', at_u, id_a, early_a', -⟩ := back u a at_u
    obtain ⟨b', at_v, id_b, early_b', -⟩ := back v b at_v
    exact h.once u v a' b' at_u at_v (early_a' early_a) (early_b' early_b) (id_a ▸ id_b ▸ same)
  · intro key u held
    rw [pending, Function.update_apply] at held
    split at held
    · cases held
    · obtain ⟨old, at_u, is, knows⟩ := h.listed key u held
      obtain ⟨a, at_u, id_a, knows⟩ := forth u old at_u knows
      exact ⟨a, at_u, id_a.trans is, knows⟩
  · intro u a at_u asked
    obtain ⟨old, at_u, id_a, -, was⟩ := back u a at_u
    rw [pending, Function.update_of_ne (was asked).2, id_a]
    exact h.asked u old at_u (was asked).1

theorem Apart.answer (h : Apart s) (id : String) (d : AcceptDecision) : Apart (s.answer id d).1 := by
  rcases answer_cases s id d with ⟨-, eq⟩ | ⟨u, held, ⟨task, at_u, asked, eq⟩ | ⟨unasked, eq⟩⟩ <;> rw [eq]
  · exact h
  · obtain ⟨owner, there, is, -⟩ := h.listed id u held
    cases at_u.symm.trans there
    refine h.taken (fun v a at_v => ?_) (fun v old at_v knows => ?_) rfl
    · rcases move_at at_v with ⟨rfl, rfl⟩ | ⟨other, at_v⟩
      · exact ⟨task, at_u, rfl, fun _ => asked ▸ rfl, fun asking => nomatch asking⟩
      · refine ⟨a, at_v, rfl, fun h => h, fun asking => ⟨asking, fun same => other ?_⟩⟩
        exact Option.some.inj ((h.asked v a at_v asking).symm.trans (same ▸ held))
    · by_cases same : v = u
      · subst same
        cases at_v.symm.trans at_u
        exact ⟨_, List.getElem?_set_self (List.getElem?_eq_some_iff.mp at_u).1, rfl, rfl⟩
      · exact ⟨old, (List.getElem?_set_ne (Ne.symm same)).trans at_v, rfl, knows⟩
  · refine h.taken (fun v a at_v => ⟨a, at_v, rfl, fun h => h, fun asking => ⟨asking, fun same => ?_⟩⟩)
      (fun v old at_v knows => ⟨old, at_v, rfl, knows⟩) rfl
    cases Option.some.inj ((h.asked v a at_v asking).symm.trans (same ▸ held))
    exact unasked a at_v asking

/-- Where a task has an early phase other than asking, nobody has a prompt under its id that still asks. -/
theorem Apart.nobody (h : Apart s) {t : Nat} {task : Task} (at_t : s.tasks[t]? = some task)
    (early : task.phase.early = true) (unasked : task.phase ≠ .waiting .asked) {u : Nat} {a : Task}
    (at_u : s.tasks[u]? = some a) (asking : a.phase = .waiting .asked) : a.id ≠ task.id := by
  intro same
  cases h.once u t a task at_u at_t (asking ▸ rfl) early same
  cases at_u.symm.trans at_t
  exact unasked asking

/-- So taking that prompt away drops no one's. -/
theorem Apart.setPending_eq (h : Apart s) {t : Nat} {task : Task} (at_t : s.tasks[t]? = some task)
    (early : task.phase.early = true) (unasked : task.phase ≠ .waiting .asked) (prompt : Option Nat) :
    s.setPending task.id prompt = { s with pending := Function.update s.pending task.id prompt } := by
  unfold setPending
  cases held : s.pending task.id with
  | none => rfl
  | some u =>
    obtain ⟨a, at_u, is, -⟩ := h.listed task.id u held
    dsimp only
    rw [dropPrompt, at_u]
    dsimp only
    rw [if_neg fun asking => h.nobody at_t early unasked at_u asking is]

theorem Apart.forgotten (h : Apart s) {t : Nat} {task : Task} {outcome : AcceptOutcome} (at_t : s.tasks[t]? = some task)
    (woken : task.phase = .woken outcome) :
    Apart ((s.setPending task.id none).move t task (.decided outcome)) := by
  have early : task.phase.early = true := woken ▸ rfl
  have unasked : task.phase ≠ .waiting .asked := woken ▸ nofun
  rw [h.setPending_eq at_t early unasked]
  refine h.taken (fun u a at_u => ?_) (fun u old at_u knows => ?_) rfl
  · rcases move_at (s := s) at_u with ⟨rfl, rfl⟩ | ⟨-, at_u⟩
    · exact ⟨task, at_t, rfl, fun _ => early, fun asking => nomatch asking⟩
    · exact ⟨a, at_u, rfl, fun h => h, fun asking => ⟨asking, h.nobody at_t early unasked at_u asking⟩⟩
  · by_cases same : u = t
    · subst same
      cases at_u.symm.trans at_t
      exact ⟨_, List.getElem?_set_self (List.getElem?_eq_some_iff.mp at_t).1, rfl, rfl⟩
    · exact ⟨old, (List.getElem?_set_ne (Ne.symm same)).trans at_u, rfl, knows⟩

theorem Apart.inserted (h : Apart s) {t : Nat} {task : Task} {admission : FileAdmission} {resuming : Bool}
    (at_t : s.tasks[t]? = some task) (queued : task.phase = .queued admission resuming) :
    Apart ((s.setPending task.id (some t)).move t task (.waiting .asked)) := by
  have early : task.phase.early = true := queued ▸ rfl
  have unasked : task.phase ≠ .waiting .asked := queued ▸ nofun
  have here : ((s.setPending task.id (some t)).move t task (.waiting .asked)).tasks[t]? =
      some { task with phase := .waiting .asked } := by
    rw [h.setPending_eq at_t early unasked]
    exact List.getElem?_set_self (List.getElem?_eq_some_iff.mp at_t).1
  rw [h.setPending_eq at_t early unasked] at here ⊢
  constructor
  · intro u v a b at_u at_v early_a early_b same
    rcases move_at (s := s) at_u with ⟨rfl, rfl⟩ | ⟨-, old_u⟩ <;>
      rcases move_at (s := s) at_v with ⟨rfl, rfl⟩ | ⟨-, old_v⟩
    · rfl
    · exact h.once _ v task b at_t old_v early early_b same
    · exact h.once u _ a task old_u at_t early_a early same
    · exact h.once u v a b old_u old_v early_a early_b same
  · intro key u held
    change Function.update s.pending task.id (some t) key = some u at held
    rw [Function.update_apply] at held
    split at held
    · next is =>
      cases held
      exact ⟨_, here, is.symm, rfl⟩
    · obtain ⟨old, at_u, is, knows⟩ := h.listed key u held
      by_cases same : u = t
      · subst same
        cases at_u.symm.trans at_t
        exact ⟨_, here, is, rfl⟩
      · exact ⟨old, (List.getElem?_set_ne (Ne.symm same)).trans at_u, is, knows⟩
  · intro u a at_u asking
    rcases move_at (s := s) at_u with ⟨rfl, rfl⟩ | ⟨-, at_u⟩
    · exact Function.update_self ..
    · change Function.update s.pending task.id (some t) a.id = some u
      rw [Function.update_of_ne (h.nobody at_t early unasked at_u asking)]
      exact h.asked u a at_u asking

/-- Under an id that is unwound, a transfer may be registered. -/
theorem Apart.registered {s' : Manager} (h : Apart s) {t : Nat} {task : Task} {id : String} {preview : TransferPreview}
    (at_t : s.tasks[t]? = some task) (greeted : task.phase = .greeted) (unwound : s.Unwound id)
    (tasks : s'.tasks = (s.move t { task with id := id, preview := preview } .registered).tasks)
    (pending : s'.pending = s.pending) : Apart s' := by
  have stale {u : Nat} {a : Task} (at_u : s.tasks[u]? = some a) (early : a.phase.early = true) : a.id ≠ id := by
    intro is
    exact absurd (early.symm.trans (unwound.1 a (List.mem_of_getElem? at_u) is)) (by decide)
  constructor
  · intro u v a b at_u at_v early_a early_b same
    rw [tasks] at at_u at_v
    rcases move_at at_u with ⟨rfl, rfl⟩ | ⟨-, old_u⟩ <;> rcases move_at at_v with ⟨rfl, rfl⟩ | ⟨-, old_v⟩
    · rfl
    · exact absurd same.symm (stale old_v early_b)
    · exact absurd same (stale old_u early_a)
    · exact h.once u v a b old_u old_v early_a early_b same
  · intro key u held
    obtain ⟨old, at_u, is, knows⟩ := h.listed key u (pending ▸ held)
    rw [tasks]
    by_cases same : u = t
    · subst same
      cases at_u.symm.trans at_t
      rw [greeted] at knows
      cases knows
    · exact ⟨old, (List.getElem?_set_ne (Ne.symm same)).trans at_u, is, knows⟩
  · intro u a at_u asking
    rw [tasks] at at_u
    rw [pending]
    rcases move_at at_u with ⟨rfl, rfl⟩ | ⟨-, at_u⟩
    · cases asking
    · exact h.asked u a at_u asking

/-- A handshake adds a task that has no id yet. -/
theorem Apart.met {s' : Manager} (h : Apart s) {task : Task} (unknown : task.phase.known = false)
    (tasks : s'.tasks = s.tasks ++ [task]) (pending : s'.pending = s.pending) : Apart s' := by
  have young : task.phase.early ≠ true ∧ task.phase ≠ .waiting .asked := by
    constructor <;> intro is
    · cases phase : task.phase <;> rw [phase] at is unknown <;> cases is <;> cases unknown
    · rw [is] at unknown
      cases unknown
  have back {u : Nat} {a : Task} (at_u : s'.tasks[u]? = some a) : s.tasks[u]? = some a ∨ a = task := by
    rw [tasks] at at_u
    rcases lt_or_ge u s.tasks.length with inside | outside
    · rw [List.getElem?_append_left inside] at at_u
      exact .inl at_u
    · rw [List.getElem?_append_right outside] at at_u
      exact .inr (List.mem_singleton.mp (List.mem_of_getElem? at_u))
  constructor
  · intro u v a b at_u at_v early_a early_b same
    rcases back at_u with at_u | rfl
    · rcases back at_v with at_v | rfl
      · exact h.once u v a b at_u at_v early_a early_b same
      · exact absurd early_b young.1
    · exact absurd early_a young.1
  · intro id u held
    obtain ⟨old, at_u, is, knows⟩ := h.listed id u (pending ▸ held)
    refine ⟨old, ?_, is, knows⟩
    rw [tasks, List.getElem?_append_left (List.getElem?_eq_some_iff.mp at_u).1, at_u]
  · intro u a at_u asking
    rw [pending]
    rcases back at_u with at_u | rfl
    · exact h.asked u a at_u asking
    · exact absurd asking young.2

theorem Apart.advance (h : Apart s) {t : Nat} {task : Task} {phase : Phase} {event : Event}
    (at_t : s.tasks[t]? = some task) (is : task.phase = phase) (reuse : s.Reuse event) :
    Apart (s.advance t task phase event) := by
  unfold Manager.advance
  split
  · exact h.moved at_t rfl rfl nofun (fun knows => by rw [is] at knows; cases knows) nofun
  · exact h.moved at_t rfl rfl nofun (fun knows => by rw [is] at knows; cases knows) nofun
  · dsimp only
    split
    · exact h.registered at_t is reuse rfl rfl
    · exact h
  · dsimp only
    split <;> exact h.moved at_t rfl rfl (fun _ => is ▸ rfl) (fun _ => rfl) nofun
  · next now =>
    obtain ⟨consents, eq⟩ := admitted_eq s task (s.admission task.peer now)
    dsimp only
    rw [eq]
    exact h.moved at_t rfl rfl (fun _ => is ▸ rfl) (fun _ => rfl) nofun
  · exact h.inserted at_t is
  · exact h.moved at_t rfl rfl (fun _ => is ▸ rfl) (fun _ => rfl) nofun
  · exact h.moved at_t rfl rfl (fun _ => is ▸ rfl) (fun _ => rfl) nofun
  · exact h.moved at_t rfl rfl (fun _ => is ▸ rfl) (fun _ => rfl) nofun
  · exact h.moved at_t rfl rfl (fun _ => is ▸ rfl) (fun _ => rfl) nofun
  · next now approves writes =>
    obtain ⟨trust, eq⟩ := remember_eq s task.peer now approves writes
    rw [eq]
    exact h.moved at_t rfl rfl (fun _ => is ▸ rfl) (fun _ => rfl) nofun
  · exact h.moved at_t rfl rfl (fun _ => is ▸ rfl) (fun _ => rfl) nofun
  · next writes =>
    obtain ⟨trust, consents, firstContact, eq⟩ := giveBack_eq s task.id writes
    rw [eq]
    exact h.moved at_t rfl rfl (fun _ => is ▸ rfl) (fun _ => rfl) nofun
  · next writes =>
    obtain ⟨trust, consents, firstContact, eq⟩ := giveBack_eq s task.id writes
    rw [eq]
    exact h.moved at_t rfl rfl (fun _ => is ▸ rfl) (fun _ => rfl) nofun
  · exact h.forgotten at_t is
  · exact h.moved at_t rfl rfl nofun (fun _ => rfl) nofun
  · exact h.moved at_t rfl rfl nofun (fun _ => rfl) nofun
  · exact h.congr rfl rfl
  · split
    · exact h
    · exact h.congr rfl rfl
  · exact h.moved at_t rfl rfl nofun (fun _ => rfl) nofun
  · exact h
  · split <;> exact h.moved at_t rfl rfl nofun (fun _ => rfl) nofun
  · split <;> exact h.moved at_t rfl rfl nofun (fun _ => rfl) nofun
  · exact h.moved at_t rfl rfl nofun (fun _ => rfl) nofun
  · exact h.moved at_t rfl rfl nofun (fun _ => rfl) nofun
  · split <;> exact h.moved at_t rfl rfl nofun (fun _ => rfl) nofun
  · exact h

theorem Apart.goOn (h : Apart s) (k : Nat) (writes : Bool) (call : Call) : Apart (s.goOn k writes call) := by
  unfold Manager.goOn
  split
  · exact (h.answer _ _).congr rfl rfl
  · split <;> exact h.congr rfl rfl
  · next d =>
    obtain ⟨trust, consents, eq⟩ := unpin_eq s d writes
    rw [eq]
    exact h.congr rfl rfl
  · exact (h.answer _ _).congr rfl rfl
  · exact h.congr rfl rfl

theorem Apart.step (h : Apart s) (event : Event) (reuse : s.Reuse event) : Apart (s.step event) := by
  unfold Manager.step
  split
  · split
    · split
      · exact h.met rfl rfl rfl
      · exact h
    · exact h.met rfl rfl rfl
  · split
    · exact h
    · exact h.congr rfl rfl
    · exact h.congr rfl rfl
  · split
    · exact (h.answer _ _).congr rfl rfl
    · exact h.answer _ _
  · split
    · exact h.congr rfl rfl
    · exact h
  · split
    · exact h.goOn _ _ _
    · exact h
  · exact h.congr rfl rfl
  · exact h.congr rfl rfl
  · exact h.congr rfl rfl
  · exact h.congr rfl rfl
  · exact h.congr rfl rfl
  · split
    · exact h.congr rfl rfl
    · exact h
  · exact apart_nobody rfl rfl
  · split
    · split
      · next at_t => exact h.advance at_t rfl reuse
      · exact h
    · exact h

end Manager
end PeerBeam.Inbound
