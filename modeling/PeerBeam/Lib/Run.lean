import Mathlib.Data.List.Basic
import Mathlib.Data.List.Zip

/-! Finite runs of a step function whose actions may carry a condition on the
state they are taken from. A run is the left fold of its actions. Two queues
that are fed along a run pair up what comes to them, position by position. -/
namespace TransitionRun
variable {σ α : Type*}

/-- Every action of the run meets its condition in the state it is taken from. -/
def Along (step : σ → α → σ) (ok : σ → α → Prop) : σ → List α → Prop
  | _, [] => True
  | s, a :: rest => ok s a ∧ Along step ok (step s a) rest

instance decidableAlong {step : σ → α → σ} {ok : σ → α → Prop} [∀ s, DecidablePred (ok s)] :
    ∀ (s : σ) (as : List α), Decidable (Along step ok s as)
  | _, [] => .isTrue trivial
  | s, a :: rest =>
    have := @decidableAlong step ok _ (step s a) rest
    inferInstanceAs (Decidable (ok s a ∧ Along step ok (step s a) rest))

theorem along_append {step : σ → α → σ} {ok : σ → α → Prop} {s : σ} {as bs : List α} :
    Along step ok s (as ++ bs) ↔ Along step ok s as ∧ Along step ok (as.foldl step s) bs := by
  induction as generalizing s with
  | nil => exact ⟨fun h => ⟨trivial, h⟩, And.right⟩
  | cons a as ih => exact (and_congr_right fun _ => ih).trans and_assoc.symm

/-- The condition, at each action of the run. -/
theorem along_iff {step : σ → α → σ} {ok : σ → α → Prop} {s : σ} {as : List α} :
    Along step ok s as ↔ ∀ pre a post, as = pre ++ a :: post → ok (pre.foldl step s) a := by
  constructor
  · rintro h pre a post rfl
    exact (along_append.mp h).2.1
  · intro h
    induction as generalizing s with
    | nil => trivial
    | cons a as ih =>
      refine ⟨h [] a as rfl, ih fun pre b post split => ?_⟩
      exact h (a :: pre) b post (congrArg (a :: ·) split)

theorem Along.mono {step : σ → α → σ} {ok ok' : σ → α → Prop} {s : σ} {as : List α} (h : Along step ok s as)
    (weaker : ∀ s a, ok s a → ok' s a) : Along step ok' s as := by
  induction as generalizing s with
  | nil => trivial
  | cons a as ih => exact ⟨weaker s a h.1, ih h.2⟩

/-- What every conditioned step preserves holds at the end of every run whose
steps meet the condition, hence in every state the run passes through. -/
theorem Along.invariant {step : σ → α → σ} {ok : σ → α → Prop} {I : σ → Prop} {s : σ}
    {as : List α} (h : Along step ok s as) (start : I s)
    (preserve : ∀ s a, I s → ok s a → I (step s a)) : I (as.foldl step s) := by
  induction as generalizing s with
  | nil => exact start
  | cons a as ih => exact ih h.2 (preserve s a start h.1)

/-- The unconditional form: an inductive invariant holds after every run. -/
theorem invariant {step : σ → α → σ} {I : σ → Prop} {s : σ} (start : I s)
    (preserve : ∀ s a, I s → I (step s a)) (as : List α) : I (as.foldl step s) := by
  induction as generalizing s with
  | nil => exact start
  | cons a as ih => exact ih (preserve s a start)

/-- A run relates its ends as each of its steps does. -/
theorem foldl_related {step : σ → α → σ} {R : σ → σ → Prop} (refl : ∀ s, R s s)
    (trans : ∀ {s t u}, R s t → R t u → R s u) (related : ∀ s a, R s (step s a)) (s : σ) (as : List α) :
    R s (as.foldl step s) :=
  invariant (I := R s) (refl s) (fun t a h => trans h (related t a)) as

/-- What holds in the states an invariant allows, and keeps the invariant, holds along every run. -/
theorem along_of_invariant {step : σ → α → σ} {ok : σ → α → Prop} {I : σ → Prop} {s : σ} (start : I s)
    (holds : ∀ s a, I s → ok s a) (preserve : ∀ s a, I s → ok s a → I (step s a)) (as : List α) :
    Along step ok s as := by
  induction as generalizing s with
  | nil => trivial
  | cons a as ih => exact ⟨holds s a start, ih (preserve s a start (holds s a start))⟩

/-- Conditions that agree in the states an invariant allows are met by the same runs. -/
theorem along_congr {step : σ → α → σ} {ok ok' : σ → α → Prop} {I : σ → Prop} {s : σ} (start : I s)
    (agree : ∀ s a, I s → (ok s a ↔ ok' s a)) (preserve : ∀ s a, I s → ok s a → I (step s a)) (as : List α) :
    Along step ok s as ↔ Along step ok' s as := by
  induction as generalizing s with
  | nil => exact Iff.rfl
  | cons a as ih =>
    rw [Along, Along, ← agree s a start]
    exact and_congr_right fun here => ih (preserve s a start here)

/-- The log's measures strictly increase and none exceeds `top`. -/
def Rising (measure : α → Nat) (log : List α) (top : Nat) : Prop :=
  log.Pairwise (measure · < measure ·) ∧ ∀ x ∈ log, measure x ≤ top

namespace Rising
variable {measure : α → Nat} {log : List α} {top : Nat}

theorem mono (h : Rising measure log top) {top' : Nat} (le : top ≤ top') :
    Rising measure log top' :=
  ⟨h.1, fun x mem => Nat.le_trans (h.2 x mem) le⟩

/-- What exceeds the ceiling may be logged and becomes the new one. -/
theorem push (h : Rising measure log top) {x : α} (above : top < measure x) :
    Rising measure (log ++ [x]) (measure x) := by
  refine ⟨List.pairwise_append.mpr ⟨h.1, List.pairwise_singleton .., ?_⟩, ?_⟩
  · intro y mem z last
    rw [List.mem_singleton.mp last]
    exact Nat.lt_of_le_of_lt (h.2 y mem) above
  · intro y mem
    rcases List.mem_append.mp mem with old | last
    · exact Nat.le_trans (h.2 y old) (Nat.le_of_lt above)
    · exact Nat.le_of_eq (congrArg measure (List.mem_singleton.mp last))

/-- The same for what may be absent, under any ceiling that covers it. -/
theorem pushOption (h : Rising measure log top) {x : Option α} {top' : Nat} (le : top ≤ top')
    (above : ∀ y, x = some y → top < measure y ∧ measure y ≤ top') :
    Rising measure (log ++ x.toList) top' := by
  cases x with
  | none => rw [Option.toList_none, List.append_nil]; exact h.mono le
  | some y =>
    obtain ⟨higher, covered⟩ := above y rfl
    exact (h.push higher).mono covered

end Rising

end TransitionRun

namespace FifoPairing
variable {α β : Type*}

/-- `done` is paired, and `lefts` and `rights` are what still waits of `xs` and `ys`. -/
structure Paired (xs : List α) (ys : List β) (done : List (α × β)) (lefts : List α)
    (rights : List β) : Prop where
  left : xs = done.map Prod.fst ++ lefts
  right : ys = done.map Prod.snd ++ rights

namespace Paired
variable {xs : List α} {ys : List β} {done : List (α × β)} {lefts : List α} {rights : List β}

theorem nil : Paired ([] : List α) ([] : List β) [] [] [] := ⟨rfl, rfl⟩

theorem pushLeft (h : Paired xs ys done lefts rights) (x : α) :
    Paired (xs ++ [x]) ys done (lefts ++ [x]) rights :=
  ⟨by rw [h.left, List.append_assoc], h.right⟩

theorem pushRight (h : Paired xs ys done lefts rights) (y : β) :
    Paired xs (ys ++ [y]) done lefts (rights ++ [y]) :=
  ⟨h.left, by rw [h.right, List.append_assoc]⟩

theorem pair {x : α} {y : β} (h : Paired xs ys done (x :: lefts) (y :: rights)) :
    Paired xs ys (done ++ [(x, y)]) lefts rights :=
  ⟨by simp [h.left], by simp [h.right]⟩

/-- Once one side has nothing waiting, the pairs are exactly the zip. -/
theorem eq_zip (h : Paired xs ys done lefts rights) (drained : lefts = [] ∨ rights = []) :
    done = xs.zip ys := by
  have split : (done.map Prod.fst).zip (done.map Prod.snd) = done := by
    rw [← List.unzip_fst, ← List.unzip_snd, List.zip_unzip]
  rw [h.left, h.right, List.zip_append (by simp), split]
  rcases drained with rfl | rfl <;> simp

end Paired

end FifoPairing
