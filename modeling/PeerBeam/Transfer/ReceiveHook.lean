import PeerBeam.Groups.Record
import PeerBeam.Lib.Run
import PeerBeam.Transfer.FolderReceive

/-! The receive hook: a program of the user's that is run when a file has landed. A transfer's direction is a text that
is written where it is registered and read where its end is recorded. -/
namespace PeerBeam.Transfer.ReceiveHook
open TransitionRun

inductive Site
  | send (path : String)
  | sendFolder (path : String)
  | drainFiles (senderPath : Option String)
  | resumeTransfer (path : String)
  | handleIncoming
  deriving DecidableEq

namespace Site

def direction : Site → String
  | send _ => "sending"
  | sendFolder _ => "sending"
  | drainFiles _ => "sending"
  | resumeTransfer _ => "sending"
  | handleIncoming => "receiving"

def path : Site → Option String
  | send path => some path
  | sendFolder path => some path
  | drainFiles senderPath => senderPath
  | resumeTransfer path => some path
  | handleIncoming => none

end Site

/-- How a transfer ended; a completed one with the path it is announced under. -/
inductive Ending
  | completed (path : String)
  | failed
  | cancelled
  /-- It was turned down, or its id given back. -/
  | released
  deriving DecidableEq

inductive Stage
  | running
  /-- The bytes have moved or not; `none` is an error. -/
  | driven (outcome : Option TransferOutcome)
  /-- The task has taken the transfer out of the registry and is about to record its end. -/
  | claimed (outcome : Option TransferOutcome)
  | ended (how : Ending)
  deriving DecidableEq

def Stage.going : Stage → Bool
  | running | driven _ => true
  | _ => false

structure Active where
  site : Site
  id : String
  direction : String
  peerId : String
  file : String
  path : Option String
  stage : Stage
  deriving DecidableEq

structure HistoryEntry where
  id : String
  direction : String
  peerId : String
  file : String
  path : String
  success : Bool
  deriving DecidableEq

structure HookRun where
  transfer : ℕ
  program : String
  path : String
  peer : String
  deriving DecidableEq

/-- Every transfer so far, the registry of those that can still end, and what is recorded. -/
structure Manager where
  transfers : List Active
  active : String → Option ℕ
  saveDir : String
  receiveHook : String
  history : List HistoryEntry
  hookRuns : List HookRun

def start (saveDir receiveHook : String) : Manager := ⟨[], fun _ => none, saveDir, receiveHook, [], []⟩

def push (dir name : String) : String :=
  if dir.toList.getLast? = none ∨ dir.toList.getLast? = some '/' then dir ++ name else dir ++ "/" ++ name

def join (dir name : String) : String := if name.toList.head? = some '/' then name else push dir name

/-- `local_path`: components that mean something else are left out. -/
def localPath (root rel : String) : String :=
  ((rel.toList.splitOn '/').filter fun seg => seg ≠ [] ∧ seg ≠ ['.'] ∧ seg ≠ ['.', '.']).foldl
    (fun dir seg => push dir (String.ofList seg)) root

/-- `hook::run`; whether the program can be started changes nothing. -/
def run (hook : String) (transfer : ℕ) (path peer : String) : List HookRun :=
  if Groups.trim hook = "" then [] else [⟨transfer, hook, path, peer⟩]

def maxHistory : ℕ := 500

def testedDirection : String := "receive"

theorem Site.direction_ne_tested (site : Site) : site.direction ≠ testedDirection := by
  cases site <;> simp [direction, testedDirection]

theorem Site.direction_receiving_iff (site : Site) : site.direction = "receiving" ↔ site = .handleIncoming := by
  cases site <;> simp [direction]

namespace Manager
variable (tested : String) (s : Manager)

def set (t : ℕ) (a : Active) : Manager := { s with transfers := s.transfers.set t a }

def landedPath (a : Active) : String := a.path.getD (join s.saveDir a.file)

def recordHistory (t : ℕ) (a : Active) (success : Bool) : Manager :=
  let path := s.landedPath a
  let history := s.history ++ [⟨a.id, a.direction, a.peerId, a.file, path, success⟩]
  { s with
    hookRuns := s.hookRuns ++ if success ∧ a.direction = tested then run s.receiveHook t path a.peerId else []
    history := history.drop (history.length - maxHistory) }

inductive Event
  | register (site : Site) (id peerId file : String)
  | progress (t : ℕ) (file : String)
  /-- Where `handle_incoming` saves, and the root of what it received if that is a folder. -/
  | drive (t : ℕ) (outcome : Option TransferOutcome) (saveDir : String) (root : Option String)
  | finish (t : ℕ)
  | release (t : ℕ)
  | record (t : ℕ)
  | cancel (id : String)
  | setSaveDir (dir : String)

def register (site : Site) (id peerId file : String) : Manager :=
  if s.active id = none then
    { s with
      transfers := s.transfers ++ [⟨site, id, site.direction, peerId, file, site.path, .running⟩]
      active := Function.update s.active id (some s.transfers.length) }
  else s

/-- What is known of the path once the bytes of an incoming transfer have landed. -/
def drive (a : Active) (outcome : Option TransferOutcome) (saveDir : String) (root : Option String) : Active :=
  let landed := root.getD a.file
  if a.site = .handleIncoming ∧ outcome = some .completed ∧ landed ≠ "" then
    { a with path := some (localPath saveDir landed), stage := .driven outcome }
  else { a with stage := .driven outcome }

/-- The claim: only the transfer that is registered under its id is taken out. -/
def claim (t : ℕ) (a : Active) (stage : Stage) : Manager :=
  if s.active a.id = some t then { s.set t { a with stage } with active := Function.update s.active a.id none } else s

def record (t : ℕ) (a : Active) : Option TransferOutcome → Manager
  | some .completed => (s.set t { a with stage := .ended (.completed (s.landedPath a)) }).recordHistory tested t a true
  | some .cancelled => s.set t { a with stage := .ended .cancelled }
  | none => (s.set t { a with stage := .ended .failed }).recordHistory tested t a false

def step : Event → Manager
  | .register site id peerId file => s.register site id peerId file
  | .progress t file =>
    match s.transfers[t]? with
    | some a => if a.stage = .running then s.set t { a with file } else s
    | none => s
  | .drive t outcome saveDir root =>
    match s.transfers[t]? with
    | some a => if a.stage = .running then s.set t (drive a outcome saveDir root) else s
    | none => s
  | .finish t =>
    match s.transfers[t]? with
    | some a =>
      match a.stage with
      | .driven outcome => s.claim t a (.claimed outcome)
      | _ => s
    | none => s
  | .release t =>
    match s.transfers[t]? with
    | some a => s.claim t a (.ended .released)
    | none => s
  | .record t =>
    match s.transfers[t]? with
    | some a =>
      match a.stage with
      | .claimed outcome => s.record tested t a outcome
      | _ => s
    | none => s
  | .cancel id =>
    match s.active id with
    | some t =>
      match s.transfers[t]? with
      | some a =>
        { s.set t { a with stage := .ended .cancelled } with active := Function.update s.active id none }
      | none => s
    | none => s
  | .setSaveDir dir => { s with saveDir := dir }

theorem getElem?_concat_cases {α : Type*} {l : List α} {a b : α} {u : ℕ} (at_u : (l ++ [a])[u]? = some b) :
    u = l.length ∧ b = a ∨ l[u]? = some b := by
  rw [List.getElem?_append] at at_u
  split at at_u
  next => exact .inr at_u
  next beyond =>
    rw [List.getElem?_singleton] at at_u
    split at at_u
    next last => cases at_u; exact .inl ⟨by omega, rfl⟩
    next => cases at_u

theorem getElem?_set_cases {α : Type*} {l : List α} {a b : α} {t u : ℕ} (at_u : (l.set t a)[u]? = some b) :
    u = t ∧ b = a ∨ u ≠ t ∧ l[u]? = some b := by
  rw [List.getElem?_set] at at_u
  split at at_u
  next eq =>
    split at at_u
    next => cases at_u; exact .inl ⟨eq.symm, rfl⟩
    next => cases at_u
  next other => exact .inr ⟨fun eq => other eq.symm, at_u⟩

/-- Who is registered has not ended, nor has its task claimed it. -/
def Registered : Prop :=
  ∀ id t, s.active id = some t → ∃ a, s.transfers[t]? = some a ∧ a.id = id ∧ a.stage.going = true

def Ran (t : ℕ) (a : Active) (how : Ending) (ran : List HookRun) : Prop :=
  match a.stage with
  | .claimed (some .completed) => how = .completed (s.landedPath a) ∧
      ran = if a.direction = tested then run s.receiveHook t (s.landedPath a) a.peerId else []
  | .claimed _ => how ∈ [Ending.failed, .cancelled] ∧ ran = []
  | _ => False

inductive Moves (e : Event) (s' : Manager) : Prop
  | still (transfers : s'.transfers = s.transfers) (active : s'.active = s.active) (hookRuns : s'.hookRuns = s.hookRuns)
  | registered (a : Active) (fresh : a.direction = a.site.direction ∧ a.stage = .running) (vacant : s.active a.id = none)
      (transfers : s'.transfers = s.transfers ++ [a])
      (active : s'.active = Function.update s.active a.id (some s.transfers.length)) (hookRuns : s'.hookRuns = s.hookRuns)
  | advanced (t : ℕ) (a a' : Active) (at_t : s.transfers[t]? = some a) (going : a.stage.going = true)
      (same : a'.site = a.site ∧ a'.id = a.id ∧ a'.direction = a.direction ∧ a'.stage.going = true)
      (transfers : s'.transfers = s.transfers.set t a') (active : s'.active = s.active) (hookRuns : s'.hookRuns = s.hookRuns)
  | claimed (t : ℕ) (a : Active) (stage : Stage) (at_t : s.transfers[t]? = some a) (here : s.active a.id = some t)
      (how : (∃ outcome, stage = .claimed outcome) ∨ stage = .ended .released ∨ stage = .ended .cancelled)
      (transfers : s'.transfers = s.transfers.set t { a with stage })
      (active : s'.active = Function.update s.active a.id none) (hookRuns : s'.hookRuns = s.hookRuns)
  | recorded (t : ℕ) (a : Active) (how : Ending) (ran : List HookRun) (event : e = .record t)
      (at_t : s.transfers[t]? = some a) (rest : s.Ran tested t a how ran)
      (transfers : s'.transfers = s.transfers.set t { a with stage := .ended how })
      (active : s'.active = s.active) (hookRuns : s'.hookRuns = s.hookRuns ++ ran)

variable {tested s}

theorem claim_moves {e : Event} {t : ℕ} {a : Active} {stage : Stage} (at_t : s.transfers[t]? = some a)
    (how : (∃ outcome, stage = .claimed outcome) ∨ stage = .ended .released ∨ stage = .ended .cancelled) :
    Moves tested s e (s.claim t a stage) := by
  rw [claim]
  split
  next here => exact .claimed t a stage at_t here how rfl rfl rfl
  next => exact .still rfl rfl rfl

theorem record_moves {t : ℕ} {a : Active} {outcome : Option TransferOutcome} (at_t : s.transfers[t]? = some a)
    (stage : a.stage = .claimed outcome) : Moves tested s (.record t) (s.record tested t a outcome) := by
  match outcome with
  | some .completed =>
    refine .recorded t a _ _ rfl at_t ?_ rfl rfl rfl
    rw [Ran, stage]
    refine ⟨rfl, ?_⟩
    simp only [true_and]
    rfl
  | some .cancelled =>
    refine .recorded t a .cancelled [] rfl at_t ?_ rfl rfl (List.append_nil _).symm
    rw [Ran, stage]
    exact ⟨by simp, rfl⟩
  | none =>
    refine .recorded t a .failed [] rfl at_t ?_ rfl rfl ?_
    · rw [Ran, stage]
      exact ⟨by simp, rfl⟩
    · rw [record, recordHistory]
      simp [set]

theorem step_moves (h : s.Registered) (e : Event) : Moves tested s e (s.step tested e) := by
  cases e with
  | register site id peerId file =>
    rw [step, register]
    split
    next vacant => exact .registered _ ⟨rfl, rfl⟩ vacant rfl rfl rfl
    next => exact .still rfl rfl rfl
  | progress t file =>
    rw [step]
    split
    next a at_t =>
      split
      next running => exact .advanced t a { a with file } at_t (running ▸ rfl) ⟨rfl, rfl, rfl, running ▸ rfl⟩ rfl rfl rfl
      next => exact .still rfl rfl rfl
    next => exact .still rfl rfl rfl
  | drive t outcome saveDir root =>
    rw [step]
    split
    next a at_t =>
      split
      next running =>
        have same : (drive a outcome saveDir root).site = a.site ∧ (drive a outcome saveDir root).id = a.id ∧
            (drive a outcome saveDir root).direction = a.direction ∧
            (drive a outcome saveDir root).stage.going = true := by
          rw [drive]
          split <;> exact ⟨rfl, rfl, rfl, rfl⟩
        exact .advanced t a _ at_t (running ▸ rfl) same rfl rfl rfl
      next => exact .still rfl rfl rfl
    next => exact .still rfl rfl rfl
  | finish t =>
    rw [step]
    split
    next a at_t =>
      split
      next outcome driven => exact claim_moves at_t (.inl ⟨outcome, rfl⟩)
      next => exact .still rfl rfl rfl
    next => exact .still rfl rfl rfl
  | release t =>
    rw [step]
    split
    next a at_t => exact claim_moves at_t (.inr (.inl rfl))
    next => exact .still rfl rfl rfl
  | record t =>
    rw [step]
    split
    next a at_t =>
      split
      next outcome stage => exact record_moves at_t stage
      next => exact .still rfl rfl rfl
    next => exact .still rfl rfl rfl
  | cancel id =>
    rw [step]
    split
    next t here =>
      obtain ⟨a, at_t, rfl, -⟩ := h id t here
      rw [at_t]
      exact .claimed t a _ at_t here (.inr (.inr rfl)) rfl rfl rfl
    next => exact .still rfl rfl rfl
  | setSaveDir dir => exact .still rfl rfl rfl

theorem step_receiveHook (e : Event) : (s.step tested e).receiveHook = s.receiveHook := by
  have claim (t : ℕ) (a : Active) (stage : Stage) : (s.claim t a stage).receiveHook = s.receiveHook := by
    rw [Manager.claim]
    split <;> rfl
  have record (t : ℕ) (a : Active) (outcome : Option TransferOutcome) :
      (s.record tested t a outcome).receiveHook = s.receiveHook := by
    match outcome with
    | some .completed => rfl
    | some .cancelled => rfl
    | none => rfl
  cases e <;> rw [step]
  case register => rw [register]; split <;> rfl
  case progress => split; split; all_goals rfl
  case drive => split; split; all_goals rfl
  case finish => split; split; exact claim ..; all_goals rfl
  case release => split; exact claim ..; rfl
  case record => split; split; exact record ..; all_goals rfl
  case cancel => split; split; all_goals rfl

theorem registered_set (h : s.Registered) {s' : Manager} {t : ℕ} {a a' : Active} (at_t : s.transfers[t]? = some a)
    (transfers : s'.transfers = s.transfers.set t a')
    (kept : ∀ id u, s'.active id = some u → s.active id = some u ∧ (u = t → a'.id = id ∧ a'.stage.going = true)) :
    s'.Registered := by
  intro id u here
  obtain ⟨old, own⟩ := kept id u here
  rw [transfers]
  by_cases same : u = t
  · subst same
    have bound : u < s.transfers.length := (List.getElem?_eq_some_iff.mp at_t).1
    exact ⟨a', List.getElem?_set_self bound, own rfl⟩
  · rw [List.getElem?_set_ne (Ne.symm same)]
    exact h id u old

/-- What is to have been run for a transfer, where its end was tested for `tested`. -/
def due (tested : String) (s : Manager) (t : ℕ) (a : Active) : List HookRun :=
  match a.stage with
  | .ended (.completed path) => if a.direction = tested then run s.receiveHook t path a.peerId else []
  | _ => []

structure Sound (tested : String) (s : Manager) : Prop where
  registered : s.Registered
  directions : ∀ a ∈ s.transfers, a.direction = a.site.direction
  known : ∀ r ∈ s.hookRuns, r.transfer < s.transfers.length
  ran : ∀ t a, s.transfers[t]? = some a → s.hookRuns.filter (·.transfer = t) = s.due tested t a
  landed : ∀ (t : ℕ) (a : Active) path, s.transfers[t]? = some a → a.stage = .ended (.completed path) → ∀ p ∈ a.path, path = p

theorem due_of_going {t : ℕ} {a : Active} (going : a.stage.going = true) : s.due tested t a = [] := by
  rw [due]
  split
  next ended => rw [ended] at going; cases going
  next => rfl

namespace Ran
variable {t : ℕ} {a : Active} {how : Ending} {ran : List HookRun} (h : s.Ran tested t a how ran)
include h

theorem cases : (∃ outcome, a.stage = .claimed outcome) ∧
    ((a.stage = .claimed (some .completed) ∧ how = .completed (s.landedPath a)) ∧
        ran = (if a.direction = tested then run s.receiveHook t (s.landedPath a) a.peerId else []) ∨
      how ∈ [Ending.failed, .cancelled] ∧ ran = []) := by
  rw [Ran] at h
  split at h
  next stage => exact ⟨⟨_, stage⟩, .inl ⟨⟨stage, h.1⟩, h.2⟩⟩
  next stage => exact ⟨⟨_, stage⟩, .inr h⟩
  next => exact h.elim

theorem claimed : ∃ outcome, a.stage = .claimed outcome := h.cases.1

theorem completes {path : String} (completed : how = .completed path) :
    a.stage = .claimed (some .completed) ∧ path = s.landedPath a := by
  obtain ⟨-, ⟨⟨stage, same⟩, -⟩ | ⟨other, -⟩⟩ := h.cases
  · exact ⟨stage, Ending.completed.inj (completed.symm.trans same)⟩
  · rw [completed] at other
    simp at other

theorem own : ∀ r ∈ ran, r.transfer = t := by
  intro r mem
  obtain ⟨-, ⟨-, rfl⟩ | ⟨-, rfl⟩⟩ := h.cases
  · split at mem
    next =>
      rw [run] at mem
      split at mem
      next => cases mem
      next => rw [List.mem_singleton.mp mem]
    next => cases mem
  · cases mem

theorem due_eq : ran = s.due tested t { a with stage := .ended how } := by
  obtain ⟨-, ⟨⟨-, rfl⟩, rfl⟩ | ⟨other, rfl⟩⟩ := h.cases
  · rfl
  · simp only [List.mem_cons, List.not_mem_nil, or_false] at other
    rcases other with rfl | rfl <;> rfl

end Ran

namespace Sound
variable {s' : Manager} (h : Sound tested s)
include h

theorem still (hook : s'.receiveHook = s.receiveHook) (transfers : s'.transfers = s.transfers)
    (active : s'.active = s.active) (hookRuns : s'.hookRuns = s.hookRuns) : Sound tested s' := by
  refine ⟨?_, ?_, ?_, fun t a => ?_, ?_⟩
  · rw [Registered, active, transfers]
    exact h.registered
  · rw [transfers]
    exact h.directions
  · rw [transfers, hookRuns]
    exact h.known
  · rw [transfers, hookRuns, due, hook]
    exact h.ran t a
  · rw [transfers]
    exact h.landed

/-- A transfer that is put in the place of one that has not ended. -/
theorem replaced (hook : s'.receiveHook = s.receiveHook) {t : ℕ} {a : Active} (a' : Active) {ran : List HookRun}
    (at_t : s.transfers[t]? = some a) (same : a'.site = a.site ∧ a'.direction = a.direction)
    (pending : s.due tested t a = []) (own : ∀ r ∈ ran, r.transfer = t) (new : ran = s.due tested t a')
    (landed : ∀ path, a'.stage = .ended (.completed path) → ∀ p ∈ a'.path, path = p)
    (transfers : s'.transfers = s.transfers.set t a') (registered : s'.Registered)
    (hookRuns : s'.hookRuns = s.hookRuns ++ ran) : Sound tested s' := by
  have bound : t < s.transfers.length := (List.getElem?_eq_some_iff.mp at_t).1
  have here (u : ℕ) (b : Active) (at_u : s'.transfers[u]? = some b) :
      u = t ∧ b = a' ∨ u ≠ t ∧ s.transfers[u]? = some b := getElem?_set_cases (transfers ▸ at_u)
  refine ⟨registered, fun b mem => ?_, fun r mem => ?_, fun u b at_u => ?_, fun u b path at_u => ?_⟩
  · obtain ⟨u, at_u⟩ := List.mem_iff_getElem?.mp mem
    rcases here u b at_u with ⟨-, rfl⟩ | ⟨-, old⟩
    · rw [same.1, same.2]
      exact h.directions a (List.mem_of_getElem? at_t)
    · exact h.directions b (List.mem_of_getElem? old)
  · rw [transfers, List.length_set]
    rw [hookRuns, List.mem_append] at mem
    rcases mem with old | mem
    · exact h.known r old
    · exact own r mem ▸ bound
  · rw [hookRuns, List.filter_append, due, hook]
    rcases here u b at_u with ⟨rfl, rfl⟩ | ⟨other, old⟩
    · rw [h.ran u a at_t, pending, List.nil_append, List.filter_eq_self.mpr fun r mem => decide_eq_true (own r mem)]
      exact new
    · rw [h.ran u b old, List.filter_eq_nil_iff.mpr fun r mem => ?_, List.append_nil]
      · rfl
      · rw [own r mem]
        simpa using Ne.symm other
  · rcases here u b at_u with ⟨rfl, rfl⟩ | ⟨-, old⟩
    · exact landed path
    · exact h.landed u b path old

theorem step (e : Event) : Sound tested (s.step tested e) := by
  have hook : (s.step tested e).receiveHook = s.receiveHook := step_receiveHook e
  cases step_moves h.registered e with
  | still transfers active hookRuns => exact h.still hook transfers active hookRuns
  | registered a fresh vacant transfers active hookRuns =>
    have split (u : ℕ) (b : Active) (at_u : (s.step tested e).transfers[u]? = some b) :
        u = s.transfers.length ∧ b = a ∨ s.transfers[u]? = some b := getElem?_concat_cases (transfers ▸ at_u)
    refine ⟨fun id u here => ?_, fun b mem => ?_, fun r mem => ?_, fun u b at_u => ?_, fun u b path at_u ended => ?_⟩
    · rw [active, Function.update_apply] at here
      rw [transfers]
      split at here
      next same =>
        cases here
        exact ⟨a, List.getElem?_concat_length, same.symm, fresh.2 ▸ rfl⟩
      next other =>
        obtain ⟨b, at_u, own⟩ := h.registered id u here
        exact ⟨b, List.getElem?_append_left (List.getElem?_eq_some_iff.mp at_u).1 ▸ at_u, own⟩
    · rw [transfers, List.mem_append, List.mem_singleton] at mem
      rcases mem with old | rfl
      · exact h.directions b old
      · exact fresh.1
    · rw [transfers, List.length_append]
      rw [hookRuns] at mem
      exact Nat.lt_add_right _ (h.known r mem)
    · rw [hookRuns, due, hook]
      rcases split u b at_u with ⟨rfl, rfl⟩ | old
      · rw [fresh.2, List.filter_eq_nil_iff.mpr fun r mem => ?_]
        have := h.known r mem
        simp only [decide_eq_true_eq]
        omega
      · exact h.ran u b old
    · rcases split u b at_u with ⟨rfl, rfl⟩ | old
      · rw [fresh.2] at ended
        cases ended
      · exact h.landed u b path old ended
  | advanced t a a' at_t going same transfers active hookRuns =>
    refine h.replaced hook a' at_t ⟨same.1, same.2.2.1⟩ (due_of_going going) (List.forall_mem_nil _)
      (due_of_going same.2.2.2).symm (fun path ended => ?_) transfers ?_ (hookRuns.trans (List.append_nil _).symm)
    · rw [ended] at same
      cases same.2.2.2
    · refine registered_set h.registered at_t transfers fun id u here => ?_
      rw [active] at here
      refine ⟨here, ?_⟩
      rintro rfl
      obtain ⟨b, at_u, own, -⟩ := h.registered id u here
      cases at_t.symm.trans at_u
      exact ⟨same.2.1.trans own, same.2.2.2⟩
  | claimed t a stage at_t here how transfers active hookRuns =>
    obtain ⟨b, at_u, -, going⟩ := h.registered a.id t here
    cases at_t.symm.trans at_u
    have open_ (path : String) : stage ≠ .ended (.completed path) := by
      rcases how with ⟨outcome, rfl⟩ | rfl | rfl <;> exact nofun
    refine h.replaced hook { a with stage } at_t ⟨rfl, rfl⟩ (due_of_going going) (List.forall_mem_nil _) ?_
      (fun path ended => absurd ended (open_ path)) transfers ?_ (hookRuns.trans (List.append_nil _).symm)
    · rw [due]
      rcases how with ⟨outcome, rfl⟩ | rfl | rfl <;> rfl
    · refine registered_set h.registered at_t transfers fun id u there => ?_
      rw [active, Function.update_apply] at there
      split at there
      next => cases there
      next other =>
        refine ⟨there, ?_⟩
        rintro rfl
        obtain ⟨b, at_u, own, -⟩ := h.registered id u there
        cases at_t.symm.trans at_u
        exact absurd own.symm other
  | recorded t a how ran event at_t rest transfers active hookRuns =>
    obtain ⟨outcome, stage⟩ := rest.claimed
    refine h.replaced hook { a with stage := .ended how } at_t ⟨rfl, rfl⟩ ?_ rest.own rest.due_eq (fun path ended => ?_)
      transfers ?_ hookRuns
    · rw [due, stage]
    · intro p known
      cases ended
      rw [(rest.completes rfl).2, landedPath, Option.mem_def.mp known]
      rfl
    · refine registered_set h.registered at_t transfers fun id u there => ?_
      rw [active] at there
      refine ⟨there, ?_⟩
      rintro rfl
      obtain ⟨b, at_u, -, going⟩ := h.registered id u there
      cases at_t.symm.trans at_u
      rw [stage] at going
      cases going

end Sound

theorem sound_start (tested saveDir receiveHook : String) : Sound tested (start saveDir receiveHook) := by
  refine ⟨nofun, List.forall_mem_nil _, List.forall_mem_nil _, nofun, nofun⟩

theorem sound_run (tested saveDir receiveHook : String) (events : List Event) :
    Sound tested (events.foldl (step tested) (start saveDir receiveHook)) :=
  invariant (sound_start tested saveDir receiveHook) (fun _ e h => h.step e) events

/-- The hook is run once for each file that was received, with the path it landed under, and for nothing else; and
what the end is tested for means a transfer that came in. -/
structure AsConfigured (tested : String) (s : Manager) : Prop where
  once : ∀ t a, s.transfers[t]? = some a → s.hookRuns.filter (·.transfer = t) =
    match a.stage with
    | .ended (.completed path) => if a.site = .handleIncoming then run s.receiveHook t path a.peerId else []
    | _ => []
  known : ∀ r ∈ s.hookRuns, r.transfer < s.transfers.length
  landed : ∀ (t : ℕ) (a : Active) path, s.transfers[t]? = some a → a.stage = .ended (.completed path) →
    ∀ p ∈ a.path, path = p
  agree : ∀ (t : ℕ) (a : Active) path, s.transfers[t]? = some a → a.stage = .ended (.completed path) →
    (a.direction = tested ↔ a.site = .handleIncoming)

theorem Sound.asConfigured_iff (h : Sound tested s) : AsConfigured tested s ↔
    ∀ (t : ℕ) (a : Active) path, s.transfers[t]? = some a → a.stage = .ended (.completed path) →
      (a.direction = tested ↔ a.site = .handleIncoming) := by
  refine ⟨fun configured => configured.agree, fun agree => ⟨fun t a at_t => ?_, h.known, h.landed, agree⟩⟩
  rw [h.ran t a at_t, due]
  cases stage : a.stage with
  | ended how =>
    cases how with
    | completed path => simp only [agree t a path at_t stage]
    | _ => rfl
  | _ => rfl

/-- Where the end is tested for what is registered, the hook is run as it is configured. -/
theorem asConfigured_receiving (saveDir receiveHook : String) (events : List Event) :
    AsConfigured "receiving" (events.foldl (step "receiving") (start saveDir receiveHook)) := by
  have sound := sound_run "receiving" saveDir receiveHook events
  refine sound.asConfigured_iff.mpr fun t a path at_t _ => ?_
  rw [sound.directions a (List.mem_of_getElem? at_t), Site.direction_receiving_iff]

/-- A file that came in has landed and its end is about to be recorded. -/
def Receives (s : Manager) (e : Event) : Prop :=
  ∃ (t : ℕ) (a : Active), e = .record t ∧ s.transfers[t]? = some a ∧ a.site = .handleIncoming ∧
    a.stage = .claimed (some .completed)

def Received (s : Manager) : Prop :=
  ∃ (t : ℕ) (a : Active) (path : String), s.transfers[t]? = some a ∧ a.site = .handleIncoming ∧
    a.stage = .ended (.completed path)

theorem Receives.received {e : Event} (h : s.Receives e) : (s.step tested e).Received := by
  obtain ⟨t, a, rfl, at_t, site, stage⟩ := h
  have bound : t < s.transfers.length := (List.getElem?_eq_some_iff.mp at_t).1
  refine ⟨t, { a with stage := .ended (.completed (s.landedPath a)) }, s.landedPath a, ?_, site, rfl⟩
  rw [step, at_t]
  dsimp only
  rw [stage]
  exact List.getElem?_set_self bound

/-- A transfer is replaced only before it has ended. -/
theorem Moves.replaces {s' : Manager} {e : Event} (h : s.Registered) (moves : Moves tested s e s') :
    s'.transfers = s.transfers ∨ (∃ a : Active, a.stage = .running ∧ s'.transfers = s.transfers ++ [a]) ∨
      ∃ (t : ℕ) (a a' : Active), s.transfers[t]? = some a ∧ s'.transfers = s.transfers.set t a' ∧ a'.site = a.site ∧
        (∀ path, a.stage ≠ .ended (.completed path)) ∧
        ∀ path, a'.stage = .ended (.completed path) → e = .record t ∧ a.stage = .claimed (some .completed) := by
  have pending {a : Active} (going : a.stage.going = true) (path : String) : a.stage ≠ .ended (.completed path) := by
    intro ended
    rw [ended] at going
    cases going
  cases moves with
  | still transfers => exact .inl transfers
  | registered a fresh vacant transfers => exact .inr (.inl ⟨a, fresh.2, transfers⟩)
  | advanced t a a' at_t going same transfers =>
    refine .inr (.inr ⟨t, a, a', at_t, transfers, same.1, pending going, fun path ended => ?_⟩)
    exact absurd ended (pending same.2.2.2 path)
  | claimed t a stage at_t here how transfers =>
    obtain ⟨b, at_u, -, going⟩ := h a.id t here
    cases at_t.symm.trans at_u
    refine .inr (.inr ⟨t, a, { a with stage }, at_t, transfers, rfl, pending going, fun path ended => ?_⟩)
    dsimp only at ended
    rcases how with ⟨outcome, rfl⟩ | rfl | rfl <;> cases ended
  | recorded t a how ran event at_t rest transfers =>
    obtain ⟨outcome, stage⟩ := rest.claimed
    refine .inr (.inr ⟨t, a, { a with stage := .ended how }, at_t, transfers, rfl, ?_, fun path ended => ?_⟩)
    · rw [stage]
      exact nofun
    · exact ⟨event, (rest.completes (Stage.ended.inj ended)).1⟩

theorem received_step_iff (h : Sound tested s) (e : Event) :
    (s.step tested e).Received ↔ s.Received ∨ s.Receives e := by
  have moves : Moves tested s e (s.step tested e) := step_moves h.registered e
  have replaces := moves.replaces h.registered
  constructor
  · rintro ⟨u, b, path, at_u, site, ended⟩
    rcases replaces with same | ⟨a, running, transfers⟩ | ⟨t, a, a', at_t, transfers, own, -, completes⟩
    · exact .inl ⟨u, b, path, same ▸ at_u, site, ended⟩
    · rcases getElem?_concat_cases (transfers ▸ at_u) with ⟨-, rfl⟩ | old
      · rw [running] at ended
        cases ended
      · exact .inl ⟨u, b, path, old, site, ended⟩
    · rcases getElem?_set_cases (transfers ▸ at_u) with ⟨-, rfl⟩ | ⟨-, old⟩
      · obtain ⟨event, stage⟩ := completes path ended
        exact .inr ⟨t, a, event, at_t, own.symm.trans site, stage⟩
      · exact .inl ⟨u, b, path, old, site, ended⟩
  · rintro (⟨u, b, path, at_u, site, ended⟩ | receives)
    · refine ⟨u, b, path, ?_, site, ended⟩
      rcases replaces with same | ⟨a, running, transfers⟩ | ⟨t, a, a', at_t, transfers, -, open_, -⟩
      · rw [same]
        exact at_u
      · rw [transfers]
        exact List.getElem?_append_left (List.getElem?_eq_some_iff.mp at_u).1 ▸ at_u
      · rw [transfers, List.getElem?_set_ne]
        · exact at_u
        · rintro rfl
          cases at_t.symm.trans at_u
          exact open_ path ended
    · exact receives.received

theorem received_run_iff (h : Sound tested s) (events : List Event) :
    (events.foldl (step tested) s).Received ↔ s.Received ∨ ¬ Along (step tested) (fun s e => ¬ s.Receives e) s events := by
  induction events generalizing s with
  | nil => exact (or_iff_left (not_not.mpr trivial)).symm
  | cons e rest ih =>
    rw [List.foldl_cons, ih (h.step e), received_step_iff h, Along, not_and_or, not_not, or_assoc]

/-- In a history the hook is run as it is configured exactly where no file that came in is ever recorded. -/
theorem configured_run_iff (saveDir receiveHook : String) (events : List Event) :
    AsConfigured testedDirection (events.foldl (step testedDirection) (start saveDir receiveHook)) ↔
      Along (step testedDirection) (fun s e => ¬ s.Receives e) (start saveDir receiveHook) events := by
  have sound := sound_run testedDirection saveDir receiveHook events
  have nothing : ¬ (start saveDir receiveHook).Received := fun ⟨_, _, _, at_t, _⟩ => nomatch at_t
  have received := (received_run_iff (sound_start testedDirection saveDir receiveHook) events).trans (or_iff_right nothing)
  rw [sound.asConfigured_iff, ← not_iff_not, ← received]
  constructor
  · intro wrong
    obtain ⟨t, a, path, at_t, ended, differ⟩ : ∃ (t : ℕ) (a : Active) (path : String),
        (events.foldl (step testedDirection) (start saveDir receiveHook)).transfers[t]? = some a ∧
          a.stage = .ended (.completed path) ∧ ¬ (a.direction = testedDirection ↔ a.site = .handleIncoming) := by
      simpa only [not_forall, exists_prop] using wrong
    refine ⟨t, a, path, at_t, by_contra fun other => differ ?_, ended⟩
    rw [sound.directions a (List.mem_of_getElem? at_t)]
    exact iff_of_false a.site.direction_ne_tested other
  · rintro ⟨t, a, path, at_t, site, ended⟩ agree
    have tested := (agree t a path at_t ended).mpr site
    rw [sound.directions a (List.mem_of_getElem? at_t)] at tested
    exact a.site.direction_ne_tested tested

/-- A file comes in, lands and is recorded, and the hook is not run. -/
theorem received_without_hook :
    let events : List Event := [.register .handleIncoming "tx-1" "pb-bob" "photo.jpg",
      .drive 0 (some .completed) "/home/user" none, .finish 0, .record 0]
    let s := events.foldl (step testedDirection) (start "/home/user" "/usr/bin/notify")
    ¬ AsConfigured testedDirection s ∧ s.hookRuns = [] ∧
      s.history = [⟨"tx-1", "receiving", "pb-bob", "photo.jpg", "/home/user/photo.jpg", true⟩] := by
  refine ⟨?_, by decide, by decide⟩
  intro configured
  exact absurd ((configured.agree 0 _ _ rfl rfl).mpr rfl) (by decide)

end Manager

end PeerBeam.Transfer.ReceiveHook
