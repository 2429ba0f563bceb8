import Mathlib.Logic.Function.Basic
import PeerBeam.Lib.Run

/-! Parts of a machine that are started behind a flag: a start raises the flag before it does what may fail, and where
the flag is up already it is reported to have worked. -/
namespace FlaggedStart
open TransitionRun

/-- A part that is started: its flag, whether it runs, and whether a start of it has been reported to have worked since
it was last stopped. -/
structure Switch where
  flag : Bool
  running : Bool
  reported : Bool

namespace Switch
variable {s : Switch}

def start (s : Switch) (works : Bool) : Switch :=
  if s.flag then { s with reported := true } else ⟨true, works, works⟩

def off : Switch := ⟨false, false, false⟩

def Sound (s : Switch) : Prop := s.reported = true → s.running = true

def Stuck (s : Switch) : Prop := s.flag = true ∧ s.running = false

instance : Decidable s.Stuck := inferInstanceAs (Decidable (_ ∧ _))

theorem start_up {works : Bool} (up : s.flag = true) : s.start works = { s with reported := true } := if_pos up

theorem start_down {works : Bool} (down : s.flag = false) : s.start works = ⟨true, works, works⟩ :=
  if_neg (Bool.eq_false_iff.mp down)

theorem sound_start_iff (works : Bool) : (s.start works).Sound ↔ ¬ s.Stuck := by
  obtain ⟨flag, running, reported⟩ := s
  cases flag with
  | false => exact iff_of_true id fun stuck => nomatch stuck.1
  | true =>
    cases running with
    | false => exact iff_of_false (fun sound => nomatch sound rfl) fun free => free ⟨rfl, rfl⟩
    | true => exact iff_of_true (fun _ => rfl) fun stuck => nomatch stuck.2

theorem sound_off : off.Sound := id

end Switch

structure Machine (σ ι β ε : Type*) (α : ι → Type*) where
  start : (i : ι) → σ → α i → Except ε Unit × σ
  stop : σ → β → σ
  flag : ι → σ → Bool
  running : ι → σ → Bool

inductive Call (ι β : Type*) (α : ι → Type*)
  | start (i : ι) (a : α i)
  | stop (b : β)

structure Reported (σ ι : Type*) where
  machine : σ
  reported : ι → Bool

namespace Machine
variable {σ ι β ε : Type*} {α : ι → Type*} [DecidableEq ι] (m : Machine σ ι β ε α)

def step (r : Reported σ ι) : Call ι β α → Reported σ ι
  | .start i a =>
    let started := m.start i r.machine a
    ⟨started.2, Function.update r.reported i (r.reported i || started.1.isOk)⟩
  | .stop b => ⟨m.stop r.machine b, fun _ => false⟩

def switch (r : Reported σ ι) (i : ι) : Switch := ⟨m.flag i r.machine, m.running i r.machine, r.reported i⟩

def Sound (r : Reported σ ι) : Prop := ∀ i, (m.switch r i).Sound

def Free (r : Reported σ ι) : Call ι β α → Prop
  | .start i _ => ¬ (m.switch r i).Stuck
  | .stop _ => True

instance (r : Reported σ ι) : DecidablePred (m.Free r)
  | .start i _ => inferInstanceAs (Decidable (¬ (m.switch r i).Stuck))
  | .stop _ => .isTrue trivial

/-- Starts go by the flag of their part, and one that is carried out leaves the other parts alone. -/
structure Guarded (Fits : σ → Prop) : Prop where
  up : ∀ i s a, m.flag i s = true → m.start i s a = (.ok (), s)
  down : ∀ i s a, Fits s → m.flag i s = false →
    m.flag i (m.start i s a).2 = true ∧ m.running i (m.start i s a).2 = (m.start i s a).1.isOk
  others : ∀ i j s a, Fits s → m.flag i s = false → j ≠ i →
    m.flag j (m.start i s a).2 = m.flag j s ∧ m.running j (m.start i s a).2 = m.running j s
  fits_down : ∀ i s a, Fits s → m.flag i s = false → Fits (m.start i s a).2
  stopped : ∀ i s b, m.flag i (m.stop s b) = false ∧ m.running i (m.stop s b) = false
  fits_stop : ∀ s b, Fits s → Fits (m.stop s b)

variable {m} {Fits : σ → Prop}

omit [DecidableEq ι] in
/-- After a start that failed, every further one is reported to have worked and starts nothing. -/
theorem Guarded.retry (h : m.Guarded Fits) {i : ι} {s : σ} {a : α i} (fits : Fits s)
    (failed : (m.start i s a).1.isOk = false) (a' : α i) :
    m.start i (m.start i s a).2 a' = (.ok (), (m.start i s a).2) ∧ m.running i (m.start i s a).2 = false := by
  cases flag : m.flag i s with
  | true =>
    rw [h.up i s a flag] at failed
    cases failed
  | false =>
    obtain ⟨raised, running⟩ := h.down i s a fits flag
    exact ⟨h.up i _ a' raised, running.trans failed⟩

omit [DecidableEq ι] in
theorem Guarded.fits_start (h : m.Guarded Fits) (i : ι) {s : σ} (fits : Fits s) (a : α i) :
    Fits (m.start i s a).2 := by
  cases flag : m.flag i s with
  | true => rwa [h.up i s a flag]
  | false => exact h.fits_down i s a fits flag

omit [DecidableEq ι] in
theorem Guarded.leaves (h : m.Guarded Fits) {i j : ι} {s : σ} (fits : Fits s) (apart : j ≠ i) (a : α i) :
    m.flag j (m.start i s a).2 = m.flag j s ∧ m.running j (m.start i s a).2 = m.running j s := by
  cases flag : m.flag i s with
  | true => rw [h.up i s a flag]; exact ⟨rfl, rfl⟩
  | false => exact h.others i j s a fits flag apart

structure Fit (m : Machine σ ι β ε α) (Fits : σ → Prop) (r : Reported σ ι) : Prop where
  machine : Fits r.machine
  quiet : ∀ i, m.flag i r.machine = false → r.reported i = false

theorem Guarded.switch_start (h : m.Guarded Fits) {r : Reported σ ι} (fit : m.Fit Fits r) (i j : ι) (a : α i) :
    m.switch (m.step r (.start i a)) j =
      if j = i then (m.switch r i).start (m.start i r.machine a).1.isOk else m.switch r j := by
  split
  next same =>
    subst same
    cases flag : m.flag j r.machine with
    | true =>
      rw [Switch.start_up flag]
      simp only [switch, step, Function.update_self, h.up j r.machine a flag]
      exact congrArg _ (Bool.or_true _)
    | false =>
      obtain ⟨raised, running⟩ := h.down j r.machine a fit.machine flag
      rw [Switch.start_down flag]
      simp only [switch, step, Function.update_self, raised, running, fit.quiet j flag, Bool.false_or]
  next apart =>
    obtain ⟨flag, running⟩ := h.leaves fit.machine apart a
    simp only [switch, step, flag, running, Function.update_of_ne apart]

theorem Guarded.switch_stop (h : m.Guarded Fits) (r : Reported σ ι) (b : β) (i : ι) :
    m.switch (m.step r (.stop b)) i = Switch.off := by
  obtain ⟨flag, running⟩ := h.stopped i r.machine b
  simp only [switch, step, flag, running, Switch.off]

theorem Guarded.fit_step (h : m.Guarded Fits) {r : Reported σ ι} (fit : m.Fit Fits r) (c : Call ι β α) :
    m.Fit Fits (m.step r c) := by
  cases c with
  | start i a =>
    refine ⟨h.fits_start i fit.machine a, fun j down => ?_⟩
    have switch := h.switch_start fit i j a
    have flag : (m.switch (m.step r (.start i a)) j).flag = false := down
    show (m.switch (m.step r (.start i a)) j).reported = false
    rw [switch] at flag ⊢
    split at flag
    next =>
      cases up : (m.switch r i).flag with
      | true => rw [Switch.start_up up, up] at flag; cases flag
      | false => rw [Switch.start_down up] at flag; cases flag
    next apart =>
      rw [if_neg apart]
      exact fit.quiet j flag
  | stop b => exact ⟨h.fits_stop r.machine b fit.machine, fun _ _ => rfl⟩

/-- A call leaves what has been reported to be on running if and only if it starts no part that is stuck. -/
theorem Guarded.sound_step_iff (h : m.Guarded Fits) {r : Reported σ ι} (fit : m.Fit Fits r) (sound : m.Sound r)
    (c : Call ι β α) : m.Sound (m.step r c) ↔ m.Free r c := by
  cases c with
  | start i a =>
    refine Iff.trans ⟨fun all => ?_, fun here j => ?_⟩ (Switch.sound_start_iff (m.start i r.machine a).1.isOk)
    · have here := all i
      rwa [h.switch_start fit, if_pos rfl] at here
    · rw [h.switch_start fit]
      split
      · exact here
      · exact sound j
  | stop b =>
    refine iff_of_true (fun i => ?_) trivial
    rw [h.switch_stop]
    exact Switch.sound_off

/-- What has been reported to be on runs after every call of a run if and only if the run starts no part that is
stuck. -/
theorem Guarded.sound_along_iff (h : m.Guarded Fits) {s : σ} (fits : Fits s) (calls : List (Call ι β α)) :
    Along m.step (fun r c => m.Sound (m.step r c)) ⟨s, fun _ => false⟩ calls ↔
      Along m.step m.Free ⟨s, fun _ => false⟩ calls := by
  refine along_congr (I := fun r => m.Fit Fits r ∧ m.Sound r) ?_ ?_ ?_ calls
  · exact ⟨⟨fits, fun _ _ => rfl⟩, fun _ reported => nomatch reported⟩
  · exact fun r c good => h.sound_step_iff good.1 good.2 c
  · exact fun r c good sound => ⟨h.fit_step good.1 c, sound⟩

end Machine

end FlaggedStart
