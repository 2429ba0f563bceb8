import PeerBeam.Inbound.Decisions

/-! Consent to what arrives. A transfer goes on by the settings, by a call, or because an earlier run left a
checkpoint of it; the last outlives the trust it was given in. -/
namespace PeerBeam.Inbound
open Trust (DeviceId Records TrustRecord)
open Transfer (Path TransferPreview TransferSession)

def Phase.turnedAway : Phase → Bool
  | .queued .refused _ | .turnedDown | .claimed _ | .finished | .done => true
  | .decided outcome | .settled outcome => outcome ≠ .accepted
  | _ => false

/-- The transfer goes on and may still write its checkpoint. -/
def Phase.ahead : Phase → Bool
  | .driven _ => false
  | phase => phase.passed

/-- The user approved the device and took the `files` permission away. -/
def revoked (trust : Trust.Lookup) (now : Int) : Bool := Trust.isApproved trust now && !Trust.may trust now .files

theorem admitTransferFor_refused {global perDevice : Bool} {trust : Trust.Lookup} {now : Int} :
    admitTransferFor global perDevice trust now = .refused ↔ revoked trust now = true := by
  unfold admitTransferFor admitTransfer revoked
  dsimp only
  split
  · next refused => exact iff_of_true rfl refused
  · next eligible =>
    refine iff_of_false ?_ eligible
    split <;> nofun

theorem admitTransferFor_autoAccept {global perDevice : Bool} {trust : Trust.Lookup} {now : Int}
    (auto : admitTransferFor global perDevice trust now = .autoAccept) :
    Trust.may trust now .files = true ∧ (global = true ∨ perDevice = true) := by
  unfold admitTransferFor admitTransfer at auto
  dsimp only at auto
  split at auto
  · cases auto
  · split at auto
    · next both => exact ⟨(Bool.and_eq_true_iff.mp both).2, Bool.or_eq_true_iff.mp (Bool.and_eq_true_iff.mp both).1⟩
    · cases auto

namespace Manager
variable {s : Manager}

inductive Grounds (s : Manager) (t : Nat) (task : Task) : Event → Prop
  | settings {now : Int} (marked : task.phase = .marked) (may : Trust.may (some (s.trust task.peer)) now .files = true)
      (on : s.autoAccept = true ∨ autoAccepts (some (s.trust task.peer)) now = true) : Grounds s t task (.announce t now)
  | called {k : Nat} {writes : Bool} {d : AcceptDecision} (asked : task.phase = .waiting .asked)
      (call : s.calls[k]? = some (.accept task.id d)) : Grounds s t task (.go k writes)
  | resumed {now : Int} (marked : task.phase = .marked) (allowed : revoked (some (s.trust task.peer)) now = false)
      (consented : task.consent ∈ s.consents) : Grounds s t task (.announce t now)

/-- A transfer that goes on did so before or has grounds now, and one that was turned away stays so. -/
def Turn (s : Manager) (event : Event) (t : Nat) (a b : Task) : Prop :=
  (b.phase.passed = true → b.id = a.id ∧ b.consent = a.consent ∧ (a.phase.passed = true ∨ s.Grounds t a event)) ∧
    (a.phase.turnedAway = true → b.phase.turnedAway = true)

def Turns (s : Manager) (event : Event) (s' : Manager) : Prop :=
  ∀ (t : Nat) (b : Task), s'.tasks[t]? = some b →
    (∃ a, s.tasks[t]? = some a ∧ s.Turn event t a b) ∨ (s.tasks[t]? = none ∧ b.phase.passed = false)

/-- An announcement turns a device away that may no longer send files. -/
def Refuses (s : Manager) (event : Event) : Prop :=
  ∀ (t : Nat) (now : Int) (task : Task), event = .announce t now → s.tasks[t]? = some task → task.phase = .marked →
    revoked (some (s.trust task.peer)) now = true →
      ∃ task', (s.step event).tasks[t]? = some task' ∧ task'.phase.turnedAway = true

structure Consented (s : Manager) (event : Event) : Prop where
  turns : s.Turns event (s.step event)
  refuses : s.Refuses event

def Clean (s : Manager) (d : DeviceId) : Prop :=
  (∀ (id : String) (c : TransferSession), s.store id = some c → c.direction = .receiving → c.peer ≠ d) ∧
    ∀ task ∈ s.tasks, task.peer = d → task.preview.isFolder = true ∨ task.phase.ahead = false

/-- Whom an unanswered prompt takes out of the trust store. -/
def unanswered (s : Manager) (t : Nat) (phase : Phase) : Option DeviceId :=
  match s.tasks[t]? with
  | some task => if task.phase = phase ∧ s.require = true then s.firstContact task.id else none
  | none => none

def removes (s : Manager) : Event → Option DeviceId
  | .remove d => some d
  | .go k true =>
    match s.calls[k]? with
    | some (.unpinning d) => some d
    | _ => none
  | .wake t _ _ true => s.unanswered t (.waiting .dropped)
  | .timeout t true => s.unanswered t (.waiting .asked)
  | _ => none

/-- A device with a record is removed only when nothing is left that its consents let in. -/
def Forgotten (s : Manager) (event : Event) : Prop :=
  ∀ d ∈ s.removes event, (s.trust d).isSome = true → s.Clean d

structure Backed (s : Manager) : Prop where
  listed : ∀ (id : String) (u : Nat), s.pending id = some u →
    ∃ task, s.tasks[u]? = some task ∧ task.id = id ∧ task.phase.known = true
  stored : ∀ (id : String) (c : TransferSession), s.store id = some c → c.direction = .receiving →
    ∀ file ∈ c.files.head?, ⟨c.peer, file.name, c.totalBytes⟩ ∈ s.consents
  ahead : ∀ (t : Nat) (task : Task), s.tasks[t]? = some task → task.preview.isFolder = false →
    task.phase.ahead = true → task.consent ∈ s.consents

theorem Backed.moved {s' : Manager} (h : Backed s) {t : Nat} {task : Task} {phase : Phase}
    (at_t : s.tasks[t]? = some task) (tasks : s'.tasks = (s.move t task phase).tasks)
    (pending : ∀ id u, s'.pending id = some u → s.pending id = some u ∨ (u = t ∧ id = task.id ∧ phase.known = true))
    (store : s'.store = s.store) (consents : ∀ c ∈ s.consents, c ∈ s'.consents)
    (known : task.phase.known = true → phase.known = true)
    (mine : task.preview.isFolder = false → phase.ahead = true → task.consent ∈ s'.consents) : Backed s' := by
  refine ⟨fun id u there => ?_, ?_, fun u a at_u file ahead => ?_⟩
  · rw [tasks]
    by_cases same : u = t
    · subst same
      rcases pending id u there with old | ⟨-, rfl, knows⟩
      · obtain ⟨a, at_u, is, knows⟩ := h.listed id u old
        cases at_t.symm.trans at_u
        exact ⟨_, move_self at_t .., is, known knows⟩
      · exact ⟨_, move_self at_t .., rfl, knows⟩
    · obtain ⟨a, at_u, is, knows⟩ := h.listed id u ((pending id u there).resolve_right fun new => same new.1)
      exact ⟨a, (move_other same ..).trans at_u, is, knows⟩
  · rw [store]
    exact fun id c there receiving file mem => consents _ (h.stored id c there receiving file mem)
  · rw [tasks] at at_u
    rcases move_at at_u with ⟨rfl, rfl⟩ | ⟨-, at_u⟩
    · exact mine file ahead
    · exact consents _ (h.ahead u a at_u file ahead)

theorem Backed.congr {s' : Manager} (h : Backed s) (tasks : s'.tasks = s.tasks)
    (pending : ∀ id u, s'.pending id = some u → s.pending id = some u)
    (store : ∀ id c, s'.store id = some c → c.direction = .receiving → s.store id = some c)
    (consents : ∀ c ∈ s.consents, c ∈ s'.consents) : Backed s' := by
  refine ⟨fun id u there => ?_, fun id c there receiving file mem => ?_, fun u a at_u file ahead => ?_⟩
  · rw [tasks]
    exact h.listed id u (pending id u there)
  · exact consents _ (h.stored id c (store id c there receiving) receiving file mem)
  · exact consents _ (h.ahead u a (tasks ▸ at_u) file ahead)

/-- A prompt goes, and nothing else is lost. -/
theorem Backed.dropped (h : Backed s) (id : String) (prompt : Option Nat)
    (there : ∀ u, prompt = some u → ∃ task, s.tasks[u]? = some task ∧ task.id = id ∧ task.phase.known = true) :
    Backed (s.setPending id prompt) := by
  have at_tasks {u : Nat} {a : Task} (at_u : (s.setPending id prompt).tasks[u]? = some a) :
      ∃ task, s.tasks[u]? = some task ∧ a.id = task.id ∧ a.peer = task.peer ∧ a.preview = task.preview ∧
        (a.phase.ahead = true → task.phase.ahead = true) := by
    obtain ⟨task, old, rfl | ⟨-, asked, rfl⟩⟩ := setPending_at at_u
    · exact ⟨_, old, rfl, rfl, rfl, fun h => h⟩
    · exact ⟨task, old, rfl, rfl, rfl, nofun⟩
  have still {u : Nat} {task : Task} (at_u : s.tasks[u]? = some task) (knows : task.phase.known = true) :
      ∃ a, (s.setPending id prompt).tasks[u]? = some a ∧ a.id = task.id ∧ a.phase.known = true := by
    have inside : u < (s.setPending id prompt).tasks.length :=
      setPending_length s id prompt ▸ (List.getElem?_eq_some_iff.mp at_u).1
    obtain ⟨old, at_u', same | ⟨-, asked, same⟩⟩ := setPending_at (List.getElem?_eq_getElem inside) <;>
      cases at_u.symm.trans at_u'
    · exact ⟨_, List.getElem?_eq_getElem inside, by rw [same], by rw [same]; exact knows⟩
    · exact ⟨_, List.getElem?_eq_getElem inside, by rw [same], by rw [same]; rfl⟩
  obtain ⟨tasks, eq⟩ := Manager.setPending_eq s id prompt
  have pending : (s.setPending id prompt).pending = Function.update s.pending id prompt := by rw [eq]
  have store : (s.setPending id prompt).store = s.store := by rw [eq]
  have consents : (s.setPending id prompt).consents = s.consents := by rw [eq]
  refine ⟨fun key u held => ?_, ?_, fun u a at_u file ahead => ?_⟩
  · rw [pending, Function.update_apply] at held
    split at held
    · next is =>
      obtain ⟨task, at_u, is', knows⟩ := there u held
      obtain ⟨a, at_u, same, knows⟩ := still at_u knows
      exact ⟨a, at_u, (same.trans is').trans is.symm, knows⟩
    · obtain ⟨task, at_u, is, knows⟩ := h.listed key u held
      obtain ⟨a, at_u, same, knows⟩ := still at_u knows
      exact ⟨a, at_u, same.trans is, knows⟩
  · rw [store, consents]
    exact h.stored
  · obtain ⟨task, at_u, -, peer, preview, was⟩ := at_tasks at_u
    rw [consents, Task.consent, peer, preview]
    exact h.ahead u task at_u (preview ▸ file) (was ahead)

/-- What is left after a device is removed is not of its consents. -/
theorem Backed.unpin (h : Backed s) {d : DeviceId} {writes : Bool}
    (clean : writes = true → (s.trust d).isSome = true → s.Clean d) : Backed (s.unpin d writes) := by
  unfold Manager.unpin
  split
  · next write =>
    by_cases pinned : (s.trust d).isSome = true
    · simp only [pinned, if_true]
      obtain ⟨stored, tasks⟩ := clean write pinned
      refine ⟨h.listed, fun id c there receiving file mem => ?_, fun u a at_u file ahead => ?_⟩
      · exact List.mem_filter.mpr ⟨h.stored id c there receiving file mem, decide_eq_true (stored id c there receiving)⟩
      · refine List.mem_filter.mpr ⟨h.ahead u a at_u file ahead, decide_eq_true fun peer => ?_⟩
        rcases tasks a (List.mem_of_getElem? at_u) peer with folder | behind
        · exact absurd (file.symm.trans folder) nofun
        · exact absurd (behind.symm.trans ahead) nofun
    · simp only [pinned, Bool.false_eq_true, if_false]
      exact h.congr rfl (fun _ _ => id) (fun _ _ there _ => there) fun _ => id
  · exact h

theorem Backed.giveBack (h : Backed s) {id : String} {writes : Bool}
    (clean : writes = true → s.require = true → ∀ d ∈ s.firstContact id, (s.trust d).isSome = true → s.Clean d) :
    Backed (s.giveBack id writes) := by
  unfold Manager.giveBack
  split
  · next d first =>
    split
    · next required =>
      have unpinned : Backed (s.unpin d writes) := h.unpin fun write => clean write required d first
      exact unpinned.congr rfl (fun _ _ => fun h => h) (fun _ _ there _ => there) fun _ => fun h => h
    · exact h
  · exact h

theorem Backed.answer (h : Backed s) (id : String) (x : AcceptDecision) : Backed (s.answer id x).1 := by
  have fewer {key : String} {u : Nat} (there : Function.update s.pending id none key = some u) : s.pending key = some u := by
    rw [Function.update_apply] at there
    split at there
    · cases there
    · exact there
  rcases answer_cases s id x with ⟨-, eq⟩ | ⟨u, held, ⟨task, at_u, asked, eq⟩ | ⟨-, eq⟩⟩ <;> rw [eq]
  · exact h
  · refine h.moved at_u rfl (fun key v there => .inl (fewer there)) rfl (fun c mem => ?_) (fun _ => rfl) fun _ ahead => ?_
    · dsimp only
      split
      · exact mem
      · exact List.mem_cons_of_mem _ mem
    · dsimp only
      split
      · next refused =>
        rw [refused] at ahead
        cases ahead
      · exact List.mem_cons_self
  · exact h.congr rfl (fun _ _ => fewer) (fun _ _ there _ => there) fun _ => fun h => h

/-- Whoever meets the claim of a stored checkpoint resumes what was consented to. -/
theorem Backed.resuming (h : Backed s) {task : Task} (resumes : s.resuming task = true) : task.consent ∈ s.consents := by
  obtain ⟨c, there, met⟩ := Transfer.resumesAcceptedReceive_iff.mp resumes
  obtain ⟨direction, -, peer, file, head, name, -, size⟩ := Transfer.checkResume_ok_iff.mp met
  have consented := h.stored task.id c there direction file head
  rw [peer, name, size] at consented
  exact consented

theorem Backed.registered {s' : Manager} (h : Backed s) {t : Nat} {task : Task} {id : String}
    {preview : TransferPreview} (at_t : s.tasks[t]? = some task) (unknown : task.phase.known = false)
    (tasks : s'.tasks = (s.move t { task with id := id, preview := preview } .registered).tasks)
    (pending : s'.pending = s.pending) (store : s'.store = s.store) (consents : s'.consents = s.consents) : Backed s' := by
  refine ⟨fun key u there => ?_, ?_, fun u a at_u file ahead => ?_⟩
  · obtain ⟨a, at_u, is, knows⟩ := h.listed key u (pending ▸ there)
    have other : u ≠ t := by
      rintro rfl
      cases at_t.symm.trans at_u
      cases unknown.symm.trans knows
    rw [tasks]
    exact ⟨a, (move_other other ..).trans at_u, is, knows⟩
  · rw [store, consents]
    exact h.stored
  · rw [tasks] at at_u
    rw [consents]
    rcases move_at at_u with ⟨rfl, rfl⟩ | ⟨-, at_u⟩
    · cases ahead
    · exact h.ahead u a at_u file ahead

theorem admitted_consents (s : Manager) (task : Task) (admission : FileAdmission) :
    (∀ c ∈ s.consents, c ∈ (s.admitted task admission).consents) ∧
      (admission = .autoAccept → task.consent ∈ (s.admitted task admission).consents) := by
  unfold admitted
  split
  · exact ⟨fun c mem => List.mem_cons_of_mem _ mem, fun _ => List.mem_cons_self⟩
  · next other => exact ⟨fun c mem => mem, fun auto => absurd auto other⟩

theorem unanswered_eq {t : Nat} {task : Task} {phase : Phase} (at_t : s.tasks[t]? = some task) (is : task.phase = phase)
    (required : s.require = true) : s.unanswered t phase = s.firstContact task.id := by
  unfold unanswered
  rw [at_t]
  dsimp only
  rw [if_pos ⟨is, required⟩]

theorem Backed.advance (h : Backed s) {t : Nat} {task : Task} {phase : Phase} {event : Event}
    (at_t : s.tasks[t]? = some task) (is : task.phase = phase) (is_t : event.task = some t)
    (forgotten : s.Forgotten event) : Backed (s.advance t task phase event) := by
  have same : ∀ id u, s.pending id = some u → s.pending id = some u ∨ (u = t ∧ id = task.id ∧ phase.known = true) :=
    fun _ _ => .inl
  have keep : ∀ c ∈ s.consents, c ∈ s.consents := fun _ h => h
  have before (file : task.preview.isFolder = false) (ahead : phase.ahead = true) : task.consent ∈ s.consents :=
    h.ahead t task at_t file (is ▸ ahead)
  -- nobody answered: the pin may go
  have given (writes : Bool) (known : task.phase.known = true) (clean : writes = true → s.require = true →
      ∀ d ∈ s.firstContact task.id, (s.trust d).isSome = true → s.Clean d) :
      Backed ((s.giveBack task.id writes).move t task (.woken .unanswered)) := by
    have at_t' : (s.giveBack task.id writes).tasks[t]? = some task := (giveBack_tasks s task.id writes).symm ▸ at_t
    exact (h.giveBack clean).moved at_t' rfl (fun _ _ => .inl) rfl (fun _ h => h) (fun _ => rfl) fun _ => nofun
  have young (knows : task.phase.known = true) (unknown : phase.known = false) : Phase.greeted.known = true := by
    rw [is, unknown] at knows
    cases knows
  unfold Manager.advance
  split
  · exact h.moved at_t rfl same rfl keep (fun knows => young knows rfl) fun _ => nofun
  · exact h.moved at_t rfl same rfl keep (fun knows => young knows rfl) fun _ => nofun
  · dsimp only
    split
    · exact h.registered at_t (is ▸ rfl) rfl rfl rfl rfl
    · exact h
  · dsimp only
    split <;> exact h.moved at_t rfl same rfl keep (fun _ => rfl) fun _ => nofun
  · next now =>
    obtain ⟨more, auto⟩ := admitted_consents s task (s.admission task.peer now)
    obtain ⟨consents, eq⟩ := admitted_eq s task (s.admission task.peer now)
    dsimp only
    rw [eq] at more auto ⊢
    refine h.moved at_t rfl (fun _ _ => .inl) rfl more (fun _ => rfl) fun _ ahead => ?_
    cases admission : s.admission task.peer now with
    | autoAccept => exact auto admission
    | refused =>
      rw [admission] at ahead
      cases ahead
    | prompt =>
      rw [admission] at ahead
      cases resuming : s.resuming task with
      | true => exact more _ (h.resuming resuming)
      | false =>
        rw [resuming] at ahead
        cases ahead
  · have at_t' := setPending_self at_t (is ▸ nofun) task.id (some t)
    have listed := h.dropped task.id (some t) fun u there => ⟨task, Option.some.inj there ▸ at_t, rfl, is ▸ rfl⟩
    exact listed.moved at_t' rfl (fun _ _ => .inl) rfl (fun _ h => h) (fun _ => rfl) fun _ => nofun
  · exact h.moved at_t rfl same rfl keep (fun _ => rfl) before
  · exact h.moved at_t rfl same rfl keep (fun _ => rfl) before
  · exact h.moved at_t rfl same rfl keep (fun _ => rfl) fun _ => nofun
  · exact h.moved at_t rfl same rfl keep (fun _ => rfl) before
  · next now approves writes =>
    obtain ⟨trust, eq⟩ := remember_eq s task.peer now approves writes
    rw [eq]
    exact h.moved at_t rfl same rfl keep (fun _ => rfl) before
  · exact h.moved at_t rfl same rfl keep (fun _ => rfl) fun _ => nofun
  · next writes =>
    refine given writes (is ▸ rfl) fun write required d first => forgotten d ?_
    cases is_t
    subst write
    exact (unanswered_eq at_t is required).trans first
  · next writes =>
    refine given writes (is ▸ rfl) fun write required d first => forgotten d ?_
    cases is_t
    subst write
    exact (unanswered_eq at_t is required).trans first
  · have at_t' := setPending_self at_t (is ▸ nofun) task.id none
    have listed := h.dropped task.id none nofun
    refine listed.moved at_t' rfl (fun _ _ => .inl) rfl (fun _ h => h) (fun _ => rfl) fun file ahead => ?_
    obtain ⟨tasks, eq⟩ := Manager.setPending_eq s task.id none
    rw [eq]
    exact before file ahead
  · exact h.moved at_t rfl same rfl keep (fun _ => rfl) before
  · exact h.moved at_t rfl same rfl keep (fun _ => rfl) before
  · exact h.congr rfl (fun _ _ h => h) (fun _ _ there _ => there) keep
  · split
    · exact h
    · next file =>
      refine ⟨h.listed, fun id c there receiving => ?_, h.ahead⟩
      dsimp only at there
      rw [Function.update_apply] at there
      split at there
      · cases there
        intro entry first
        cases first
        exact before (Bool.eq_false_iff.mpr file) rfl
      · exact h.stored id c there receiving
  · exact h.moved at_t rfl same rfl keep (fun _ => rfl) fun _ => nofun
  · exact h
  · split <;> exact h.moved at_t rfl same rfl keep (fun _ => rfl) fun _ => nofun
  · split <;> exact h.moved at_t rfl same rfl keep (fun _ => rfl) fun _ => nofun
  · exact h.moved at_t rfl same rfl keep (fun _ => rfl) fun _ => nofun
  · exact h.moved at_t rfl same rfl keep (fun _ => rfl) fun _ => nofun
  · split <;> exact h.moved at_t rfl same rfl keep (fun _ => rfl) fun _ => nofun
  · exact h

theorem Backed.goOn (h : Backed s) {k : Nat} {writes : Bool} {call : Call} (at_k : s.calls[k]? = some call)
    (forgotten : s.Forgotten (.go k writes)) : Backed (s.goOn k writes call) := by
  have same {s' : Manager} (back : Backed s') (calls : List Call) : Backed { s' with calls := calls } :=
    back.congr rfl (fun _ _ h => h) (fun _ _ there _ => there) fun _ h => h
  unfold Manager.goOn
  split
  · exact same (h.answer _ _) _
  · split <;> exact h.congr rfl (fun _ _ h => h) (fun _ _ there _ => there) fun _ h => h
  · next d =>
    refine same (h.unpin fun write => forgotten d ?_) _
    subst write
    rw [removes, at_k]
    rfl
  · exact same (h.answer _ _) _
  · exact h.congr rfl (fun _ _ h => h) (fun _ _ there _ => there) fun _ h => h

theorem Backed.step (h : Backed s) (event : Event) (forgotten : s.Forgotten event) : Backed (s.step event) := by
  have same {s' : Manager} (back : Backed s') (calls : List Call) : Backed { s' with calls := calls } :=
    back.congr rfl (fun _ _ h => h) (fun _ _ there _ => there) fun _ h => h
  have met (task : Task) (idle : task.phase.ahead = false) : Backed { s with tasks := s.tasks ++ [task] } := by
    refine ⟨fun id u there => ?_, h.stored, fun u a at_u file ahead => ?_⟩
    · obtain ⟨a, at_u, is⟩ := h.listed id u there
      exact ⟨a, (List.getElem?_append_left (List.getElem?_eq_some_iff.mp at_u).1).trans at_u, is⟩
    · dsimp only at at_u
      rcases lt_or_ge u s.tasks.length with inside | outside
      · rw [List.getElem?_append_left inside] at at_u
        exact h.ahead u a at_u file ahead
      · rw [List.getElem?_append_right outside] at at_u
        cases List.mem_singleton.mp (List.mem_of_getElem? at_u)
        cases idle.symm.trans ahead
  cases is_t : event.task with
  | some t =>
    cases at_t : s.tasks[t]? with
    | some task =>
      rw [step_task is_t at_t]
      exact h.advance at_t rfl is_t forgotten
    | none =>
      rw [step_nobody is_t at_t]
      exact h
  | none =>
  unfold Manager.step
  split
  · split
    · split
      · exact met _ rfl
      · exact h
    · exact met _ rfl
  · split
    · exact h
    · exact h.congr rfl (fun _ _ h => h) (fun _ _ there _ => there) fun _ h => h
    · exact h.congr rfl (fun _ _ h => h) (fun _ _ there _ => there) fun _ h => h
  · split
    · exact same (h.answer _ _) _
    · exact h.answer _ _
  · split
    · exact h.congr rfl (fun _ _ h => h) (fun _ _ there _ => there) fun _ h => h
    · exact h
  · split
    · next at_k => exact h.goOn at_k forgotten
    · exact h
  · exact h.congr rfl (fun _ _ h => h) (fun _ _ there _ => there) fun _ h => h
  · next d => exact h.unpin fun _ => forgotten d rfl
  · exact h.congr rfl (fun _ _ h => h) (fun _ _ there _ => there) fun _ h => h
  · exact h.congr rfl (fun _ _ h => h) (fun _ _ there _ => there) fun _ h => h
  · next id =>
    refine h.congr rfl (fun _ _ h => h) (fun key c there _ => ?_) fun _ h => h
    dsimp only at there
    rw [Function.update_apply] at there
    split at there
    · cases there
    · exact there
  · next session =>
    split
    · next sending =>
      refine h.congr rfl (fun _ _ h => h) (fun key c there receiving => ?_) fun _ h => h
      dsimp only at there
      rw [Function.update_apply] at there
      split at there
      · cases there
        cases sending.symm.trans receiving
      · exact there
    · exact h
  · exact ⟨nofun, h.stored, nofun⟩
  · split
    · next t is_t' => cases is_t.symm.trans is_t'
    · exact h

theorem Turn.refl (s : Manager) (event : Event) (t : Nat) (a : Task) : s.Turn event t a a :=
  ⟨fun passed => ⟨rfl, rfl, .inl passed⟩, fun away => away⟩

theorem turns_same {event : Event} {s' : Manager} (tasks : s'.tasks = s.tasks) : s.Turns event s' := by
  intro t b at_t
  exact .inl ⟨b, tasks ▸ at_t, Turn.refl s event t b⟩

theorem turns_moved {event : Event} {s' : Manager} {t : Nat} {task : Task} {phase : Phase} (at_t : s.tasks[t]? = some task)
    (tasks : s'.tasks = (s.move t task phase).tasks)
    (grounds : phase.passed = true → task.phase.passed = true ∨ s.Grounds t task event)
    (away : task.phase.turnedAway = true → phase.turnedAway = true) : s.Turns event s' := by
  intro u b at_u
  rw [tasks] at at_u
  rcases move_at at_u with ⟨rfl, rfl⟩ | ⟨-, at_u⟩
  · exact .inl ⟨task, at_t, fun passed => ⟨rfl, rfl, grounds passed⟩, away⟩
  · exact .inl ⟨b, at_u, Turn.refl s event u b⟩

/-- A prompt may go on the way. -/
theorem turns_dropped {event : Event} {t : Nat} {task : Task} {phase : Phase} {id : String} {prompt : Option Nat}
    (at_t : s.tasks[t]? = some task) (grounds : phase.passed = true → task.phase.passed = true)
    (away : task.phase.turnedAway = true → phase.turnedAway = true) :
    s.Turns event ((s.setPending id prompt).move t task phase) := by
  intro u b at_u
  rcases move_at at_u with ⟨rfl, rfl⟩ | ⟨-, old⟩
  · exact .inl ⟨task, at_t, fun passed => ⟨rfl, rfl, .inl (grounds passed)⟩, away⟩
  · obtain ⟨a, there, rfl | ⟨-, asked, rfl⟩⟩ := setPending_at old
    · exact .inl ⟨_, there, Turn.refl ..⟩
    · exact .inl ⟨a, there, nofun, fun away => by rw [asked] at away; cases away⟩

theorem turns_met {event : Event} {s' : Manager} {task : Task} (tasks : s'.tasks = s.tasks ++ [task])
    (idle : task.phase.passed = false) : s.Turns event s' := by
  intro u b at_u
  rw [tasks] at at_u
  rcases lt_or_ge u s.tasks.length with inside | outside
  · rw [List.getElem?_append_left inside] at at_u
    exact .inl ⟨b, at_u, Turn.refl ..⟩
  · rw [List.getElem?_append_right outside] at at_u
    cases List.mem_singleton.mp (List.mem_of_getElem? at_u)
    exact .inr ⟨List.getElem?_eq_none outside, idle⟩

theorem turns_answered (h : Backed s) {id : String} {x : AcceptDecision} {s' : Manager} {event : Event}
    (tasks : s'.tasks = (s.answer id x).1.tasks)
    (called : x = .reject ∨ ∃ k writes, event = .go k writes ∧ s.calls[k]? = some (.accept id x)) : s.Turns event s' := by
  rcases answer_cases s id x with ⟨-, eq⟩ | ⟨u, held, ⟨task, at_u, asked, eq⟩ | ⟨-, eq⟩⟩ <;> rw [eq] at tasks
  · exact turns_same tasks
  · obtain ⟨owner, there, rfl, -⟩ := h.listed id u held
    cases at_u.symm.trans there
    refine turns_moved at_u tasks (fun passed => ?_) fun away => by rw [asked] at away; cases away
    rcases called with rfl | ⟨k, writes, rfl, call⟩
    · cases passed
    · exact .inr (.called asked call)
  · exact turns_same tasks

/-- Where an announcement lets a transfer through, it has grounds to. -/
theorem grounds_announced (h : Backed s) {t : Nat} {task : Task} {now : Int} (marked : task.phase = .marked)
    (passed : Phase.passed (.queued (s.admission task.peer now) (s.resuming task)) = true) :
    s.Grounds t task (.announce t now) := by
  cases admission : s.admission task.peer now with
  | refused =>
    rw [admission] at passed
    cases passed
  | autoAccept =>
    obtain ⟨may, on⟩ := admitTransferFor_autoAccept admission
    exact .settings marked may on
  | prompt =>
    cases resuming : s.resuming task with
    | true =>
      refine .resumed marked (Bool.eq_false_iff.mpr fun refused => ?_) (h.resuming resuming)
      cases admission.symm.trans (admitTransferFor_refused.mpr refused)
    | false =>
      rw [admission, resuming] at passed
      cases passed

theorem turns_advance (h : Backed s) {t : Nat} {task : Task} {phase : Phase} {event : Event}
    (at_t : s.tasks[t]? = some task) (is : task.phase = phase) (is_t : event.task = some t) :
    s.Turns event (s.advance t task phase event) := by
  have never {next : Bool} {p : Prop} (off : next = false) : next = true → p := (ne_true_of_eq_false off).elim
  have still : phase.passed = true → task.phase.passed = true ∨ s.Grounds t task event := fun passed => .inl (is ▸ passed)
  have stays (next : Phase) (h : phase.turnedAway = true → next.turnedAway = true) :
      task.phase.turnedAway = true → next.turnedAway = true := is ▸ h
  have given (writes : Bool) (next : Phase) (grounds : next.passed = true → task.phase.passed = true)
      (away : task.phase.turnedAway = true → next.turnedAway = true) :
      s.Turns event ((s.giveBack task.id writes).move t task next) :=
    turns_moved at_t (by rw [move, giveBack_tasks, move]) (fun passed => .inl (grounds passed)) away
  unfold Manager.advance
  split
  · exact turns_moved at_t rfl (never rfl) (stays _ (never rfl))
  · exact turns_moved at_t rfl (never rfl) (stays _ (never rfl))
  · dsimp only
    split
    · intro u b at_u
      rcases move_at (s := s) at_u with ⟨rfl, rfl⟩ | ⟨-, at_u⟩
      · exact .inl ⟨task, at_t, never rfl, stays .registered (never rfl)⟩
      · exact .inl ⟨b, at_u, Turn.refl ..⟩
    · exact turns_same rfl
  · dsimp only
    split <;> exact turns_moved at_t rfl (never rfl) (stays _ (never rfl))
  · next u now =>
    cases is_t
    obtain ⟨consents, eq⟩ := admitted_eq s task (s.admission task.peer now)
    dsimp only
    rw [eq]
    exact turns_moved at_t rfl (fun passed => .inr (grounds_announced h is passed)) (stays _ (never rfl))
  · exact turns_dropped at_t (never rfl) (stays _ (never rfl))
  · exact turns_moved at_t rfl still (stays _ (never rfl))
  · exact turns_moved at_t rfl still (stays _ (never rfl))
  · exact turns_moved at_t rfl (never rfl) fun _ => rfl
  · exact turns_moved at_t rfl still (stays _ (never rfl))
  · next now approves writes =>
    have tasks : ((s.remember task.peer now approves writes).move t task (.woken .accepted)).tasks =
        (s.move t task (.woken .accepted)).tasks := by rw [move, remember_tasks, move]
    exact turns_moved at_t tasks still (stays _ (never rfl))
  · exact turns_moved at_t rfl (never rfl) (stays _ (never rfl))
  · exact given _ _ (never rfl) (stays _ (never rfl))
  · exact given _ _ (never rfl) (stays _ (never rfl))
  · exact turns_dropped at_t (fun passed => is ▸ passed) (stays _ (never rfl))
  · exact turns_moved at_t rfl still (stays _ fun away => away)
  · exact turns_moved at_t rfl still (stays _ (never rfl))
  · exact turns_same rfl
  · split <;> exact turns_same rfl
  · exact turns_moved at_t rfl still (stays _ (never rfl))
  · exact turns_same rfl
  · split <;> exact turns_moved at_t rfl (never rfl) fun _ => rfl
  · split <;> exact turns_moved at_t rfl (never rfl) fun _ => rfl
  · exact turns_moved at_t rfl (never rfl) fun _ => rfl
  · exact turns_moved at_t rfl (never rfl) fun _ => rfl
  · split <;> exact turns_moved at_t rfl (never rfl) fun _ => rfl
  · exact turns_same rfl

theorem turns_step (h : Backed s) (event : Event) : s.Turns event (s.step event) := by
  cases is_t : event.task with
  | some t =>
    cases at_t : s.tasks[t]? with
    | some task =>
      rw [step_task is_t at_t]
      exact turns_advance h at_t rfl is_t
    | none =>
      rw [step_nobody is_t at_t]
      exact turns_same rfl
  | none =>
  unfold Manager.step
  split
  · split
    · split
      · exact turns_met rfl rfl
      · exact turns_same rfl
    · exact turns_met rfl rfl
  · split <;> exact turns_same rfl
  · split <;> exact turns_answered h rfl (.inl rfl)
  · split <;> exact turns_same rfl
  · next k writes =>
    split
    · next call at_k =>
      unfold Manager.goOn
      split
      · exact turns_answered h rfl (.inr ⟨k, writes, rfl, at_k⟩)
      · split <;> exact turns_same rfl
      · next d =>
        obtain ⟨trust, consents, eq⟩ := unpin_eq s d writes
        rw [eq]
        exact turns_same rfl
      · exact turns_answered h rfl (.inl rfl)
      · exact turns_same rfl
    · exact turns_same rfl
  · exact turns_same rfl
  · next d =>
    obtain ⟨trust, consents, eq⟩ := unpin_eq s d true
    rw [eq]
    exact turns_same rfl
  · exact turns_same rfl
  · exact turns_same rfl
  · exact turns_same rfl
  · split <;> exact turns_same rfl
  · exact nofun
  · split
    · next t is_t' => cases is_t.symm.trans is_t'
    · exact turns_same rfl

theorem refuses_step (s : Manager) (event : Event) : s.Refuses event := by
  rintro t now task rfl at_t marked refused
  rw [step_task rfl at_t, marked]
  dsimp only [Manager.advance]
  have refuses : s.admission task.peer now = .refused := admitTransferFor_refused.mpr refused
  rw [refuses]
  exact ⟨_, move_self ((admitted_tasks ..).symm ▸ at_t) .., rfl⟩

/-- In a run in which a device is removed only when nothing is left that its consents let in, what proceeds has a
standing consent. -/
theorem consented {trust : Records} {events : List Event} {event : Event}
    (forgotten : TransitionRun.Along Manager.step Forgotten (fresh trust fun _ => none) events) :
    Consented (events.foldl Manager.step (fresh trust fun _ => none)) event := by
  have start : (fresh trust fun _ => none).Backed := ⟨nofun, nofun, nofun⟩
  have backed := TransitionRun.Along.invariant (I := Backed) forgotten start fun s event back ok => back.step event ok
  exact ⟨turns_step backed event, refuses_step _ event⟩

/-- Bob's file is accepted, and breaks off after three bytes. -/
def interrupted : List Event :=
  asking ++ [.insert 0, .accept "x" false true, .go 0 true, .wake 0 0 true true, .forget 0, .settle 0, .start 0,
    .save 0 "f.part".toList 3 0, .finishDrive 0 none, .claim 0, .emit 0]

def offeredAgain : List Event := [.lookup "bob" "key" "Bob", .register 1 offer "1-1", .mark 1]

theorem resumed_with_consent :
    Consented ((interrupted ++ offeredAgain).foldl Manager.step (fresh (fun _ => none) fun _ => none)) (.announce 1 0) := by
  have kept : TransitionRun.Along Manager.step (fun s event => s.removes event = none)
      (fresh (fun _ => none) fun _ => none) (interrupted ++ offeredAgain) := by decide +kernel
  exact consented (kept.mono fun s event none_removed d mem => nomatch none_removed.symm.trans mem)

/-- The user removes him in between; he is pinned anew, as an unknown device. -/
def offeredAnew : List Event := [.remove "bob", .lookup "bob" "key" "Bob", .pin 1 0, .register 1 offer "1-1", .mark 1]

/-- His second offer is accepted with nobody asked, on the consent of before. -/
theorem removed_device_resumes : ¬ ∀ (trust : Records) (events : List Event) (event : Event),
    Consented (events.foldl Manager.step (fresh trust fun _ => none)) event := by
  intro consented
  have turns := (consented (fun _ => none) (interrupted ++ offeredAnew) (.announce 1 0)).turns 1
    ⟨"bob", true, "x", offer, .queued .prompt true⟩ (by decide +kernel)
  rcases turns with ⟨a, at_1, grounds, -⟩ | ⟨-, passed⟩
  · have is : a = ⟨"bob", true, "x", offer, .marked⟩ := Option.some.inj (at_1.symm.trans (by decide +kernel))
    subst is
    rcases (grounds rfl).2.2 with passed | now
    · cases passed
    · cases now with
      | settings _ may _ => exact absurd may (by decide +kernel)
      | resumed _ _ consent => exact absurd consent (by decide +kernel)
  · cases passed

end Manager
end PeerBeam.Inbound
