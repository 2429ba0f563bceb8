import PeerBeam.Lib.Run
import PeerBeam.Transfer.Checkpoint
import PeerBeam.Transfer.FolderReceive

/-! How long an interrupted transfer stays resumable. Sends and receives, whoever they are with, keep
their checkpoints in one store under their ids. -/
namespace PeerBeam.Transfer
open Trust (DeviceId)

/-- A transfer's task, from its registration until it has unwound. -/
structure Task where
  id : String
  peer : DeviceId
  direction : Direction
  /-- What a send reads. -/
  source : Path
  name : Path
  size : Nat
  isFolder : Bool
  /-- The offer met a checkpoint it may go on from. -/
  resuming : Bool
  /-- What it saves, once it has begun. -/
  checkpoint : Option TransferSession
  /-- Still in `active`. -/
  registered : Bool
  /-- `cancel` was called on it. -/
  cancelled : Bool
  running : Bool

/-- The transfers of one installation: those of the process, and the checkpoints on disk. -/
structure Engine where
  pid : Nat
  counter : Nat
  tasks : List Task
  store : Std.ExtTreeMap String TransferSession
  /-- Calls of `discard_interrupted` that have read their checkpoint. -/
  discards : List TransferSession

inductive EngineEvent
  /-- A send of ours, under an id of the caller's choice or a fresh one. -/
  | send (requested : Option String) (peer : DeviceId) (source name : Path) (size : Nat) (isFolder : Bool)
  /-- `resume_interrupted`; the source's size on disk, if it can be read. -/
  | resume (id : String) (onDisk : Option Nat)
  | offer (peer : DeviceId) (preview : TransferPreview)
  /-- The session of a send is up, or an offer got past the gate: bytes are about to move. `dir` is what
  the rules say. -/
  | begin (t : Nat) (dir : Path) (now : Int) (saves : Bool)
  /-- The progress pump writes the checkpoint again. -/
  | record (t : Nat) (transferred : Nat) (saves : Bool)
  /-- The send engine drops the checkpoint before it returns its outcome. -/
  | drop (t : Nat) (outcome : TransferOutcome) (clears : Bool)
  /-- `drive` has returned; `none` is an error. -/
  | settle (t : Nat) (outcome : Option TransferOutcome) (clears : Bool)
  /-- The task of a cancelled transfer is aborted. -/
  | abort (t : Nat)
  | cancel (id : String)
  /-- `discard_interrupted` reads the checkpoint. -/
  | discard (id : String)
  | clear (k : Nat) (clears : Bool)
  /-- The process ends and starts again, with `sweep_checkpoints`. -/
  | restart (pid : Nat) (now : Int) (clears : String → Bool)

namespace Engine
variable (s : Engine)

def start : Engine := ⟨0, 0, [], ∅, []⟩

/-- The id is not in `active`. -/
def vacant (id : String) : Bool := s.tasks.all fun task => !(task.registered && task.id = id)

def nextId (pid n : Nat) : String := "tx-" ++ toString pid ++ "-" ++ toString n

/-- The loop of `register_fresh`; there are no more taken ids than tasks. -/
def freshFrom : (fuel n : Nat) → Nat
  | 0, n => n
  | fuel + 1, n => if s.vacant (nextId s.pid n) then n else freshFrom fuel (n + 1)

def register (task : Task) : Engine := { s with tasks := s.tasks ++ [task] }

/-- `register_fresh`. -/
def registerFresh (task : Task) : Engine :=
  let n := s.freshFrom s.tasks.length s.counter
  { s.register { task with id := nextId s.pid n } with counter := n + 1 }

/-- Under the peer's id, where it is valid and nobody has it now, or under a fresh one. -/
def registerOffer (peer : DeviceId) (preview : TransferPreview) : Engine :=
  let task (id : String) : Task :=
    ⟨id, peer, .receiving, [], preview.name, preview.size, preview.isFolder,
      resumesAcceptedReceive s.store[id]? peer preview, none, true, false, true⟩
  if isValidTransferId preview.transferId && s.vacant preview.transferId then s.register (task preview.transferId)
  else
    let n := s.freshFrom s.tasks.length s.counter
    { s.register (task (nextId s.pid n)) with counter := n + 1 }

def setTask (t : Nat) (task : Task) : Engine := { s with tasks := s.tasks.set t task }

def save (c : TransferSession) (saves : Bool) : Engine :=
  if saves then { s with store := s.store.insert c.id c } else s

def clear (id : String) (clears : Bool) : Engine :=
  if clears then { s with store := s.store.erase id } else s

/-- The checkpoint a task writes when it begins. A folder gets none. -/
def session (task : Task) (dir : Path) (now : Int) : Option TransferSession :=
  if task.isFolder then none
  else
    let prior := s.store[task.id]?
    let path :=
      match task.direction with
      | .sending => task.source
      | .receiving =>
        let preview : TransferPreview := ⟨task.id, task.name, task.size, task.isFolder⟩
        let resumed := if task.resuming then resumeDestination prior task.peer preview else none
        recordedPath (resumed.getD dir) task.name
    some (newCheckpoint prior task.id task.peer task.direction path task.name task.size true now)

/-- `drive` clears a completed transfer's checkpoint, and a receive that the user cancelled has its own
discarded. -/
def settled (task : Task) (outcome : Option TransferOutcome) : Bool :=
  outcome = some .completed || outcome = some .cancelled && task.cancelled && task.direction = .receiving

def stale (now : Int) : List TransferSession := (s.store.toList.map Prod.snd).filter fun c => isExpired c now

def step : EngineEvent → Engine
  | .send requested peer source name size isFolder =>
    let task : Task := ⟨"", peer, .sending, source, name, size, isFolder, false, none, true, false, true⟩
    match requested with
    | none => s.registerFresh task
    | some id => if isValidTransferId id && s.vacant id then s.register { task with id := id } else s
  | .resume id onDisk =>
    match s.store[id]?, onDisk with
    | some c, some size =>
      match c.files with
      | [] => s
      | file :: _ =>
        match checkResume c ⟨c.peer, file.name, size, .sending⟩ with
        | .ok () =>
          if s.vacant id then
            s.register ⟨id, c.peer, .sending, file.path, file.name, file.size, false, true, none, true, false, true⟩
          else s
        | .error _ => s
    | _, _ => s
  | .offer peer preview => s.registerOffer peer preview
  | .begin t dir now saves =>
    match s.tasks[t]? with
    | some task =>
      match s.session task dir now with
      | some c => if task.running && task.checkpoint.isNone then
          (s.setTask t { task with checkpoint := some c }).save c saves else s
      | none => s
    | none => s
  | .record t transferred saves =>
    match s.tasks[t]? with
    | some task =>
      match task.checkpoint with
      | some c => if task.running then s.save { c with transferredBytes := transferred } saves else s
      | none => s
    | none => s
  | .drop t outcome clears =>
    match s.tasks[t]? with
    | some task =>
      match task.checkpoint with
      -- A send comes to a cancelled end only by its own control.
      | some c =>
        if task.running && task.direction = .sending && (outcome = .completed || task.cancelled) then s.clear c.id clears
        else s
      | none => s
    | none => s
  | .settle t outcome clears =>
    match s.tasks[t]? with
    | some task =>
      if task.running then
        let done := s.setTask t { task with running := false, registered := false }
        match task.checkpoint with
        | some c => if settled task outcome then done.clear c.id clears else done
        | none => done
      else s
    | none => s
  | .abort t =>
    match s.tasks[t]? with
    | some task => if task.cancelled then s.setTask t { task with running := false } else s
    | none => s
  | .cancel id =>
    { s with tasks := s.tasks.map fun task =>
        if task.registered && task.id = id then { task with registered := false, cancelled := true } else task }
  | .discard id =>
    match s.store[id]? with
    | some c => if s.vacant id then { s with discards := s.discards ++ [c] } else s
    | none => s
  | .clear k clears =>
    match s.discards[k]? with
    | some c => { s.clear c.id clears with discards := s.discards.eraseIdx k }
    | none => s
  | .restart pid now clears =>
    { s with
      pid := pid
      counter := 0
      tasks := []
      discards := []
      store := ((s.stale now).filter fun c => clears c.id).foldl (fun store c => store.erase c.id) s.store }

def run (events : List EngineEvent) : Engine := events.foldl step start

/-- The running task `t` saves `c`. -/
def Writes (t : Nat) (c : TransferSession) : Prop :=
  ∃ task, s.tasks[t]? = some task ∧ task.running = true ∧ task.checkpoint = some c

end Engine

/-- The same file between the same devices in the same direction, with the same place on this one. -/
def SameTransfer (c d : TransferSession) : Prop := c.peer = d.peer ∧ c.direction = d.direction ∧ c.files = d.files

instance (c d : TransferSession) : Decidable (SameTransfer c d) := inferInstanceAs (Decidable (_ ∧ _ ∧ _))

theorem SameTransfer.refl (c : TransferSession) : SameTransfer c c := ⟨rfl, rfl, rfl⟩

theorem SameTransfer.symm {c d : TransferSession} (h : SameTransfer c d) : SameTransfer d c :=
  ⟨h.1.symm, h.2.1.symm, h.2.2.symm⟩

theorem SameTransfer.trans {c d e : TransferSession} (h : SameTransfer c d) (h' : SameTransfer d e) : SameTransfer c e :=
  ⟨h.1.trans h'.1, h.2.1.trans h'.2.1, h.2.2.trans h'.2.2⟩

namespace Engine
variable (s : Engine)

/-- The event ends the transfer whose checkpoint `c` is stored under an id: the transfer completes, the user
cancels or discards it, or it is too old at the next start. -/
def Ends (id : String) (c : TransferSession) : EngineEvent → Prop
  | .drop t outcome _ =>
    ∃ task ∈ s.tasks[t]?, (task.running ∧ (outcome = .completed ∨ task.cancelled)) ∧
      ∃ d ∈ task.checkpoint, d.id = id ∧ SameTransfer d c
  | .settle t outcome _ =>
    ∃ task ∈ s.tasks[t]?, (task.running ∧ settled task outcome) ∧
      ∃ d ∈ task.checkpoint, d.id = id ∧ SameTransfer d c
  | .clear k _ => ∃ d ∈ s.discards[k]?, d.id = id ∧ SameTransfer d c
  | .restart _ now _ => ∃ d ∈ s.store[id]?, isExpired d now = true
  | _ => False

/-- No transfer begins under an id where another one's checkpoint lies, where an earlier task is still unwinding,
or where a checkpoint is being discarded. -/
def Unshared : EngineEvent → Prop
  | .begin t dir now _ =>
    ∀ task ∈ s.tasks[t]?, ∀ c ∈ s.session task dir now,
      (∀ old ∈ s.store[c.id]?, SameTransfer old c) ∧
      (∀ other ∈ s.tasks.eraseIdx t, other.running = true → ∀ d ∈ other.checkpoint, d.id ≠ c.id) ∧
      ∀ d ∈ s.discards, d.id ≠ c.id
  | _ => True

instance (id : String) (c : TransferSession) (event : EngineEvent) : Decidable (s.Ends id c event) := by
  unfold Ends
  split <;> infer_instance

instance (event : EngineEvent) : Decidable (s.Unshared event) := by
  unfold Unshared
  split <;> infer_instance

/-- What is stored, what tasks save and what is being discarded agree under every id. -/
structure Consistent : Prop where
  keyed : ∀ id (c : TransferSession), s.store[id]? = some c → c.id = id
  one : ∀ t u (c d : TransferSession), s.Writes t c → s.Writes u d → c.id = d.id → t = u
  stored : ∀ t (c old : TransferSession), s.Writes t c → s.store[c.id]? = some old → SameTransfer old c
  discarding : ∀ d ∈ s.discards, (∀ old, s.store[d.id]? = some old → SameTransfer old d) ∧
    ∀ t (c : TransferSession), s.Writes t c → c.id = d.id → SameTransfer c d

variable {s}

theorem Writes.eq {t : Nat} {c d : TransferSession} (h : s.Writes t c) (h' : s.Writes t d) : c = d := by
  obtain ⟨task, at_t, -, saves⟩ := h
  obtain ⟨task', at_t', -, saves'⟩ := h'
  cases at_t.symm.trans at_t'
  exact Option.some.inj (saves.symm.trans saves')

/-- Less is written, stored and discarded. -/
theorem Consistent.shrink {s' : Engine} (h : Consistent s) (writes : ∀ t c, s'.Writes t c → s.Writes t c)
    (store : ∀ (id : String) (c : TransferSession), s'.store[id]? = some c → s.store[id]? = some c) (discards : ∀ d ∈ s'.discards, d ∈ s.discards) :
    Consistent s' where
  keyed id c there := h.keyed id c (store id c there)
  one t u c d first second same := h.one t u c d (writes t c first) (writes u d second) same
  stored t c old saves there := h.stored t c old (writes t c saves) (store c.id old there)
  discarding d mem :=
    ⟨fun old there => (h.discarding d (discards d mem)).1 old (store d.id old there),
      fun t c saves same => (h.discarding d (discards d mem)).2 t c (writes t c saves) same⟩

/-- A task saves its checkpoint again. -/
theorem Consistent.save (h : Consistent s) {t : Nat} {c c' : TransferSession} (saves : s.Writes t c) (id : c'.id = c.id)
    (same : SameTransfer c' c) (written : Bool) : Consistent (s.save c' written) := by
  unfold Engine.save
  split
  · have store (k : String) (old : TransferSession) (there : (s.store.insert c'.id c')[k]? = some old) :
        old = c' ∧ k = c.id ∨ s.store[k]? = some old := by
      rw [SortedMap.get_insert] at there
      split at there
      · next key => exact .inl ⟨(Option.some.inj there).symm, key ▸ id⟩
      · exact .inr there
    refine ⟨fun k old there => ?_, h.one, fun u d old writes there => ?_, fun d mem => ⟨fun old there => ?_, ?_⟩⟩
    · rcases store k old there with ⟨rfl, key⟩ | there
      · exact id.trans key.symm
      · exact h.keyed k old there
    · rcases store d.id old there with ⟨rfl, key⟩ | there
      · cases h.one u t d c writes saves key
        exact writes.eq saves ▸ same
      · exact h.stored u d old writes there
    · rcases store d.id old there with ⟨rfl, key⟩ | there
      · exact same.trans ((h.discarding d mem).2 t c saves key.symm)
      · exact (h.discarding d mem).1 old there
    · exact (h.discarding d mem).2
  · exact h

theorem clear_store (id k : String) (clears : Bool) (c : TransferSession)
    (there : (s.clear id clears).store[k]? = some c) : s.store[k]? = some c := by
  unfold clear at there
  split at there
  · rw [SortedMap.get_erase] at there
    split at there
    · cases there
    · exact there
  · exact there

theorem Consistent.clear (h : Consistent s) (id : String) (clears : Bool) : Consistent (s.clear id clears) := by
  refine h.shrink (fun t c writes => ?_) (fun k c => clear_store id k clears c) fun d mem => ?_
  · unfold Engine.clear at writes
    split at writes <;> exact writes
  · unfold Engine.clear at mem
    split at mem <;> exact mem

/-- A task that saves nothing is new. -/
theorem Consistent.register (h : Consistent s) {task : Task} (idle : task.checkpoint = none) :
    Consistent (s.register task) := by
  refine h.shrink (fun t c writes => ?_) (fun _ _ there => there) fun _ mem => mem
  obtain ⟨task', at_t, running, saves⟩ := writes
  rw [Engine.register, List.getElem?_append] at at_t
  split at at_t
  · exact ⟨task', at_t, running, saves⟩
  · cases (List.mem_singleton.mp (List.mem_of_getElem? at_t))
    cases idle.symm.trans saves

theorem setTask_at {t u : Nat} {old task task' : Task} (at_t : s.tasks[t]? = some old)
    (at_u : (s.setTask t task).tasks[u]? = some task') : u = t ∧ task' = task ∨ u ≠ t ∧ s.tasks[u]? = some task' := by
  by_cases same : u = t
  · subst same
    rw [setTask, List.getElem?_set_self (List.getElem?_eq_some_iff.mp at_t).1] at at_u
    exact .inl ⟨rfl, (Option.some.inj at_u).symm⟩
  · rw [setTask, List.getElem?_set_ne (Ne.symm same)] at at_u
    exact .inr ⟨same, at_u⟩

/-- A task that goes on saving what it saved, or stops. -/
theorem Consistent.setTask (h : Consistent s) {t : Nat} {old task : Task} (at_t : s.tasks[t]? = some old)
    (less : task.running = true → old.running = true ∧ task.checkpoint = old.checkpoint) :
    Consistent (s.setTask t task) := by
  refine h.shrink (fun u c writes => ?_) (fun _ _ there => there) fun _ mem => mem
  obtain ⟨task', at_u, running, saves⟩ := writes
  rcases setTask_at at_t at_u with ⟨rfl, rfl⟩ | ⟨-, at_u⟩
  · exact ⟨old, at_t, (less running).1, (less running).2 ▸ saves⟩
  · exact ⟨task', at_u, running, saves⟩

/-- A task begins under an id that is its own. -/
theorem Consistent.begin (h : Consistent s) {t : Nat} {task : Task} {c : TransferSession} {dir : Path} {now : Int}
    {saves : Bool} (ok : s.Unshared (.begin t dir now saves)) (at_t : s.tasks[t]? = some task)
    (session : s.session task dir now = some c) :
    Consistent (s.setTask t { task with checkpoint := some c }) := by
  obtain ⟨stored, others, discards⟩ := ok task at_t c session
  have writes (u : Nat) (d : TransferSession)
      (w : (s.setTask t { task with checkpoint := some c }).Writes u d) : u = t ∧ d = c ∨ u ≠ t ∧ s.Writes u d := by
    obtain ⟨task', at_u, running, saves⟩ := w
    rcases setTask_at at_t at_u with ⟨rfl, rfl⟩ | ⟨other, at_u⟩
    · exact .inl ⟨rfl, (Option.some.inj saves).symm⟩
    · exact .inr ⟨other, task', at_u, running, saves⟩
  have apart (u : Nat) (d : TransferSession) (other : u ≠ t) (w : s.Writes u d) : d.id ≠ c.id := by
    obtain ⟨task', at_u, running, saves⟩ := w
    exact others task' (List.mem_eraseIdx_iff_getElem?.mpr ⟨u, other, at_u⟩) running d saves
  constructor
  · exact h.keyed
  · intro u v d e first second same
    rcases writes u d first with ⟨here, is⟩ | ⟨other, first⟩ <;> rcases writes v e second with ⟨here', is'⟩ | ⟨other', second⟩
    · rw [here, here']
    · exact absurd (is ▸ same.symm) (apart v e other' second)
    · exact absurd (is' ▸ same) (apart u d other first)
    · exact h.one u v d e first second same
  · intro u d old w there
    rcases writes u d w with ⟨rfl, rfl⟩ | ⟨-, w⟩
    · exact stored old there
    · exact h.stored u d old w there
  · intro d mem
    refine ⟨(h.discarding d mem).1, fun u e w same => ?_⟩
    rcases writes u e w with ⟨rfl, rfl⟩ | ⟨-, w⟩
    · exact absurd same.symm (discards d mem)
    · exact (h.discarding d mem).2 u e w same

theorem mem_stale {now : Int} {c : TransferSession} : c ∈ s.stale now ↔ (∃ k : String, s.store[k]? = some c) ∧ isExpired c now = true := by
  simp only [stale, List.mem_filter, List.mem_map, Prod.exists, Std.ExtTreeMap.mem_toList_iff_getElem?_eq_some,
    exists_eq_right]

/-- What a sweep leaves. -/
theorem swept_store (now : Int) (clears : String → Bool) (id : String) :
    (((s.stale now).filter fun c => clears c.id).foldl (fun store c => store.erase c.id) s.store)[id]? =
      if ∃ c ∈ s.stale now, clears c.id = true ∧ c.id = id then none else s.store[id]? := by
  have keys (cs : List TransferSession) (m : Std.ExtTreeMap String TransferSession) :
      cs.foldl (fun store c => store.erase c.id) m = (cs.map TransferSession.id).foldl (fun m k => m.erase k) m :=
    List.foldl_map.symm
  rw [keys, SortedMap.get_foldl_erase]
  simp only [List.mem_map, List.mem_filter, and_assoc]

theorem Consistent.step (h : Consistent s) {event : EngineEvent} (ok : s.Unshared event) : Consistent (s.step event) := by
  cases event with
  | send requested peer source name size isFolder =>
    cases requested with
    | none =>
      have kept : Consistent (s.register ⟨nextId s.pid (s.freshFrom s.tasks.length s.counter), peer, .sending, source,
          name, size, isFolder, false, none, true, false, true⟩) := h.register rfl
      exact kept.shrink (fun _ _ w => w) (fun _ _ there => there) fun _ mem => mem
    | some id =>
      unfold Engine.step
      dsimp only
      split
      · exact h.register rfl
      · exact h
  | resume id onDisk =>
    unfold Engine.step
    dsimp only
    split
    · split
      · exact h
      · split
        · split
          · exact h.register rfl
          · exact h
        · exact h
    · exact h
  | offer peer preview =>
    unfold Engine.step registerOffer
    dsimp only
    split
    · exact h.register rfl
    · have kept : Consistent (s.register ⟨nextId s.pid (s.freshFrom s.tasks.length s.counter), peer, .receiving, [],
          preview.name, preview.size, preview.isFolder,
          resumesAcceptedReceive s.store[nextId s.pid (s.freshFrom s.tasks.length s.counter)]? peer preview, none,
          true, false, true⟩) := h.register rfl
      exact kept.shrink (fun _ _ w => w) (fun _ _ there => there) fun _ mem => mem
  | begin t dir now saves =>
    unfold Engine.step
    dsimp only
    cases at_t : s.tasks[t]? with
    | none => exact h
    | some task =>
      dsimp only
      cases session : s.session task dir now with
      | none => exact h
      | some c =>
        dsimp only
        split
        · next runs =>
          have inside := (List.getElem?_eq_some_iff.mp at_t).1
          refine (h.begin ok at_t session).save (t := t) ⟨_, List.getElem?_set_self inside, ?_, rfl⟩ rfl (.refl c) saves
          exact (Bool.and_eq_true_iff.mp runs).1
        · exact h
  | record t transferred saves =>
    unfold Engine.step
    dsimp only
    cases at_t : s.tasks[t]? with
    | none => exact h
    | some task =>
      dsimp only
      split
      · next c checkpoint =>
        split
        · next runs =>
          refine h.save ⟨task, at_t, runs, checkpoint⟩ ?_ ?_ saves
          · rfl
          · exact ⟨rfl, rfl, rfl⟩
        · exact h
      · exact h
  | drop t outcome clears =>
    unfold Engine.step
    dsimp only
    split
    · split
      · split
        · exact h.clear ..
        · exact h
      · exact h
    · exact h
  | settle t outcome clears =>
    unfold Engine.step
    dsimp only
    cases at_t : s.tasks[t]? with
    | none => exact h
    | some task =>
      dsimp only
      split
      · have done : Consistent (s.setTask t { task with running := false, registered := false }) :=
          h.setTask at_t fun running => nomatch running
        split
        · split
          · exact done.clear ..
          · exact done
        · exact done
      · exact h
  | abort t =>
    unfold Engine.step
    dsimp only
    cases at_t : s.tasks[t]? with
    | none => exact h
    | some task =>
      dsimp only
      split
      · exact h.setTask at_t fun running => nomatch running
      · exact h
  | cancel id =>
    refine h.shrink (fun t c w => ?_) (fun _ _ there => there) fun _ mem => mem
    obtain ⟨task, at_t, running, saves⟩ := w
    obtain ⟨before, found, rfl⟩ := Option.map_eq_some_iff.mp ((List.getElem?_map ..).symm.trans at_t)
    refine ⟨before, found, ?_, ?_⟩
    · split at running <;> exact running
    · split at saves <;> exact saves
  | discard id =>
    unfold Engine.step
    dsimp only
    cases stored : s.store[id]? with
    | none => exact h
    | some c =>
      dsimp only
      split
      · refine ⟨h.keyed, h.one, h.stored, fun d mem => ?_⟩
        rcases List.mem_append.mp mem with old | new
        · exact h.discarding d old
        · cases List.mem_singleton.mp new
          have key := h.keyed id c stored
          refine ⟨fun old there => ?_, fun t d w same => ?_⟩
          · cases stored.symm.trans (key ▸ there)
            exact .refl c
          · exact (h.stored t d c w (same ▸ key ▸ stored)).symm
      · exact h
  | clear k clears =>
    unfold Engine.step
    dsimp only
    split
    · next c _ =>
      refine (h.clear c.id clears).shrink (fun _ _ w => w) (fun _ _ there => there) fun d mem => ?_
      unfold Engine.clear
      split <;> exact List.mem_of_mem_eraseIdx mem
    · exact h
  | restart pid now clears =>
    refine h.shrink (fun t c w => ?_) (fun id c there => ?_) fun d mem => nomatch mem
    · obtain ⟨task, at_t, -⟩ := w
      cases at_t
    · unfold Engine.step at there
      dsimp only at there
      rw [swept_store] at there
      split at there
      · cases there
      · exact there

def Resumable (s : Engine) (id : String) (c : TransferSession) : Prop :=
  ∃ old, s.store[id]? = some old ∧ SameTransfer old c

theorem Resumable.save {id : String} {c d : TransferSession} {saves : Bool} (h : Resumable s id c)
    (same : ∀ old : TransferSession, s.store[d.id]? = some old → SameTransfer old d) : Resumable (s.save d saves) id c := by
  obtain ⟨old, there, kept⟩ := h
  unfold Engine.save
  split
  · by_cases key : d.id = id
    · subst key
      exact ⟨d, by rw [SortedMap.get_insert, if_pos rfl], (same old there).symm.trans kept⟩
    · exact ⟨old, by rw [SortedMap.get_insert, if_neg key]; exact there, kept⟩
  · exact ⟨old, there, kept⟩

theorem Resumable.clear {id : String} {c d : TransferSession} {clears : Bool} (h : Resumable s id c)
    (same : ∀ old : TransferSession, s.store[d.id]? = some old → SameTransfer old d)
    (unended : ¬ (d.id = id ∧ SameTransfer d c)) : Resumable (s.clear d.id clears) id c := by
  obtain ⟨old, there, kept⟩ := h
  have other : d.id ≠ id := by
    rintro rfl
    exact unended ⟨rfl, (same old there).symm.trans kept⟩
  unfold Engine.clear
  split
  · exact ⟨old, by rw [SortedMap.get_erase, if_neg other]; exact there, kept⟩
  · exact ⟨old, there, kept⟩

/-- As long as ids are not shared, only the end of a transfer takes its checkpoint away. -/
theorem Resumable.step (h : Consistent s) {event : EngineEvent} (ok : s.Unshared event) {id : String}
    {c : TransferSession} (there : Resumable s id c) (unended : ¬ s.Ends id c event) : Resumable (s.step event) id c := by
  cases event with
  | send requested peer source name size isFolder =>
    cases requested with
    | none => exact there
    | some id =>
      unfold Engine.step
      dsimp only
      split <;> exact there
  | resume id onDisk =>
    unfold Engine.step
    dsimp only
    split
    · split
      · exact there
      · split
        · split <;> exact there
        · exact there
    · exact there
  | offer peer preview =>
    unfold Engine.step registerOffer
    dsimp only
    split <;> exact there
  | begin t dir now saves =>
    unfold Engine.step
    dsimp only
    cases at_t : s.tasks[t]? with
    | none => exact there
    | some task =>
      dsimp only
      cases session : s.session task dir now with
      | none => exact there
      | some d =>
        dsimp only
        split
        · have begun : Resumable (s.setTask t { task with checkpoint := some d }) id c := there
          exact begun.save (ok task at_t d session).1
        · exact there
  | record t transferred saves =>
    unfold Engine.step
    dsimp only
    cases at_t : s.tasks[t]? with
    | none => exact there
    | some task =>
      dsimp only
      split
      · next d checkpoint =>
        split
        · next runs => exact there.save (h.stored t d · ⟨task, at_t, runs, checkpoint⟩)
        · exact there
      · exact there
  | drop t outcome clears =>
    unfold Engine.step
    dsimp only
    cases at_t : s.tasks[t]? with
    | none => exact there
    | some task =>
      dsimp only
      split
      · next d checkpoint =>
        split
        · next ends =>
          simp only [Bool.and_eq_true, Bool.or_eq_true, decide_eq_true_eq] at ends
          refine there.clear (h.stored t d · ⟨task, at_t, ends.1.1, checkpoint⟩) ?_
          rintro ⟨key, same⟩
          exact unended ⟨task, at_t, ⟨ends.1.1, ends.2⟩, d, checkpoint, key, same⟩
        · exact there
      · exact there
  | settle t outcome clears =>
    unfold Engine.step
    dsimp only
    cases at_t : s.tasks[t]? with
    | none => exact there
    | some task =>
      dsimp only
      split
      · next runs =>
        split
        · next d checkpoint =>
          split
          · next ends =>
            have done : Resumable (s.setTask t { task with running := false, registered := false }) id c := there
            refine done.clear (h.stored t d · ⟨task, at_t, runs, checkpoint⟩) ?_
            rintro ⟨key, same⟩
            exact unended ⟨task, at_t, ⟨runs, ends⟩, d, checkpoint, key, same⟩
          · exact there
        · exact there
      · exact there
  | abort t =>
    unfold Engine.step
    dsimp only
    split
    · split <;> exact there
    · exact there
  | cancel id => exact there
  | discard id =>
    unfold Engine.step
    dsimp only
    split
    · split <;> exact there
    · exact there
  | clear k clears =>
    unfold Engine.step
    dsimp only
    cases at_k : s.discards[k]? with
    | none => exact there
    | some d =>
      have cleared : Resumable (s.clear d.id clears) id c := by
        refine there.clear (h.discarding d (List.mem_of_getElem? at_k)).1 ?_
        rintro ⟨key, same⟩
        exact unended ⟨d, at_k, key, same⟩
      exact cleared
  | restart pid now clears =>
    obtain ⟨old, stored, kept⟩ := there
    refine ⟨old, ?_, kept⟩
    unfold Engine.step
    dsimp only
    rw [swept_store, if_neg]
    · exact stored
    · rintro ⟨d, stale, -, key⟩
      obtain ⟨⟨k, found⟩, expired⟩ := mem_stale.mp stale
      rw [← h.keyed k d found, key] at found
      exact unended ⟨d, found, expired⟩

theorem consistent_start : Consistent start := by
  have nothing (id : String) (c : TransferSession) : start.store[id]? ≠ some c := by simp [start]
  have nobody (t : Nat) (c : TransferSession) : ¬ start.Writes t c := by simp [Writes, start]
  exact ⟨fun id c there => absurd there (nothing id c), fun t _ c _ w => absurd w (nobody t c),
    fun t c _ w => absurd w (nobody t c), fun _ mem => nomatch mem⟩

/-- Once a checkpoint is saved, what is stored under its id is a checkpoint of the same transfer, with the same
device, direction and destination, until that transfer is over: in every run in which transfers do not share ids. -/
theorem checkpoint_lasts (pre post : List EngineEvent) (ok : TransitionRun.Along step Unshared start (pre ++ post))
    (id : String) (c : TransferSession) (saved : (run pre).store[id]? = some c)
    (unended : TransitionRun.Along step (fun s event => ¬ s.Ends id c event) (run pre) post) :
    ∃ old, (run (pre ++ post)).store[id]? = some old ∧ SameTransfer old c := by
  obtain ⟨before, after⟩ := TransitionRun.along_append.mp ok
  have consistent : Consistent (run pre) := before.invariant consistent_start fun _ _ h ok => h.step ok
  rw [run, List.foldl_append]
  have both : TransitionRun.Along step (fun s event => s.Unshared event ∧ ¬ s.Ends id c event) (run pre) post := by
    rw [TransitionRun.along_iff] at after unended ⊢
    intro early event late split
    exact ⟨after early event late split, unended early event late split⟩
  have kept := both.invariant (I := fun s => Consistent s ∧ Resumable s id c) ⟨consistent, c, saved, .refl c⟩
    fun _ _ h ok => ⟨h.1.step ok.1, h.2.step h.1 ok.1 ok.2⟩
  exact kept.2

/-- Bob's file comes in under an id of his choice, and stops half-way. -/
def interrupted : List EngineEvent :=
  [.offer "bob" ⟨"a", ['f'], 5, false⟩, .begin 0 ['d'] 0 true, .record 0 3 true, .settle 0 none true]

def remains : TransferSession := ⟨"a", "bob", .receiving, [⟨['d', '/', 'f'], ['f'], 5⟩], 5, 3, 0, false, true⟩

def again : List EngineEvent := [.offer "bob" ⟨"a", ['f'], 5, false⟩, .begin 1 ['e'] 1 true, .record 1 4 true]

theorem resumed_in_place :
    ∃ old, (run (interrupted ++ again)).store["a"]? = some old ∧ SameTransfer old remains :=
  checkpoint_lasts interrupted again (by decide +kernel) "a" remains (by decide +kernel) (by decide +kernel)

/-- Eve's file under the same id, once it is accepted, takes the place of what is left of Bob's. -/
theorem accepted_offer_replaces :
    let eve : List EngineEvent := [.offer "eve" ⟨"a", ['g'], 9, false⟩, .begin 1 ['d'] 1 true]
    (run interrupted).store["a"]? = some remains ∧ 0 < remains.transferredBytes ∧
      TransitionRun.Along step (fun s event => ¬ s.Ends "a" remains event) (run interrupted) eve ∧
      ¬ ∃ old, (run (interrupted ++ eve)).store["a"]? = some old ∧ SameTransfer old remains := by
  refine ⟨by decide +kernel, by decide, by decide +kernel, ?_⟩
  rintro ⟨old, there, same⟩
  have replaced : (run (interrupted ++ [.offer "eve" ⟨"a", ['g'], 9, false⟩, .begin 1 ['d'] 1 true])).store["a"]? =
      some ⟨"a", "eve", .receiving, [⟨['d', '/', 'g'], ['g'], 9⟩], 9, 0, 1, true, true⟩ := by decide +kernel
  cases replaced.symm.trans there
  exact absurd same.1 (by decide)

/-- Our own send after a restart has the id of one before it. -/
example :
    let events : List EngineEvent :=
      [.send none "bob" ['x'] ['x'] 5 false, .begin 0 [] 0 true, .record 0 3 true, .restart 0 1 fun _ => true,
        .send none "eve" ['y'] ['y'] 9 false, .begin 0 [] 1 true]
    (run events).store["tx-0-0"]?.map TransferSession.peer = some "eve" := by
  decide +kernel

end Engine
end PeerBeam.Transfer
