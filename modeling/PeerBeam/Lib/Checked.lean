import Mathlib.Data.List.Basic
import Mathlib.Tactic.Common

/-! Computations that may fail. A sequence that succeeds has succeeded at each step; of one that refuses some of its
inputs and must not panic, rules for what exactly it yields. -/
namespace Outcome
variable {ε α β : Type}

theorem ok_of_bind {x : Except ε α} {f : α → Except ε β} {b : β} (h : x >>= f = .ok b) :
    ∃ a, x = .ok a ∧ f a = .ok b := by
  cases x with
  | error e => cases h
  | ok a => exact ⟨a, rfl, h⟩

theorem ok_of_map {x : Except ε α} {f : α → β} {b : β} (h : x.map f = .ok b) :
    ∃ a, x = .ok a ∧ f a = b := by
  cases x with
  | error e => cases h
  | ok a => exact ⟨a, rfl, Except.ok.inj h⟩

theorem ok_of_mapError {ε' : Type} {x : Except ε α} {f : ε → ε'} {a : α} (h : x.mapError f = .ok a) : x = .ok a := by
  cases x with
  | error e => cases h
  | ok b => exact congrArg Except.ok (Except.ok.inj h)

end Outcome

namespace Checked

/-- How a computation ends without a result. -/
inductive Stop (ε π : Type)
  | refused (error : ε)
  | panicked (site : π)
  deriving DecidableEq

variable {ε π α β : Type}

def lift (x : Except ε α) : Except (Stop ε π) α := x.mapError .refused

def expect (site : π) : Option α → Except (Stop ε π) α
  | some a => .ok a
  | none => .error (.panicked site)

structure Yields (run : Except (Stop ε π) α) (spec : α → Prop) : Prop where
  ok_iff : ∀ a, run = .ok a ↔ spec a
  calm : ∀ site, run ≠ .error (.panicked site)

namespace Yields
variable {run : Except (Stop ε π) α} {spec spec' : α → Prop}

theorem congr (h : Yields run spec) (same : ∀ a, spec a ↔ spec' a) : Yields run spec' :=
  ⟨fun a => (h.ok_iff a).trans (same a), h.calm⟩

theorem ok (a : α) : Yields (.ok a : Except (Stop ε π) α) (a = ·) :=
  ⟨fun _ => ⟨Except.ok.inj, congrArg _⟩, fun _ same => nomatch same⟩

theorem refused (error : ε) (none_ : ∀ a, ¬ spec a) : Yields (.error (.refused error) : Except (Stop ε π) α) spec :=
  ⟨fun a => iff_of_false (fun same => nomatch same) (none_ a), fun _ same => nomatch same⟩

theorem lift {x : Except ε α} (h : ∀ a, x = .ok a ↔ spec a) : Yields (lift x : Except (Stop ε π) α) spec := by
  cases x with
  | ok a => exact (ok a).congr fun b => by rw [← h b, Except.ok.injEq]
  | error error => exact refused error fun a there => nomatch (h a).mpr there

/-- One after the other. -/
theorem bind {f : α → Except (Stop ε π) β} {next : α → β → Prop} (h : Yields run spec)
    (rest : ∀ a, spec a → Yields (f a) (next a)) : Yields (run >>= f) fun b => ∃ a, spec a ∧ next a b := by
  cases result : run with
  | ok a =>
    have here := (h.ok_iff a).mp result
    refine (rest a here).congr fun b => ⟨fun there => ⟨a, here, there⟩, fun ⟨a', here', there⟩ => ?_⟩
    cases result.symm.trans ((h.ok_iff a').mpr here')
    exact there
  | error stop =>
    cases stop with
    | refused error =>
      refine refused error fun b ⟨a, here, _⟩ => ?_
      cases result.symm.trans ((h.ok_iff a).mpr here)
    | panicked site => exact absurd result (h.calm site)

/-- A check of each element in turn. -/
theorem forM {γ : Type} {check : γ → Except (Stop ε π) PUnit} {passes : γ → Prop}
    (h : ∀ c, Yields (check c) fun _ => passes c) (l : List γ) : Yields (forM l check) fun _ => ∀ c ∈ l, passes c := by
  induction l with
  | nil => exact (ok PUnit.unit).congr fun _ => iff_of_true rfl fun c mem => absurd mem List.not_mem_nil
  | cons c l ih =>
    rw [List.forM_cons]
    refine ((h c).bind fun _ _ => ih).congr fun _ => ?_
    rw [List.forall_mem_cons]
    exact ⟨fun ⟨_, here, rest⟩ => ⟨here, rest⟩, fun ⟨here, rest⟩ => ⟨PUnit.unit, here, rest⟩⟩

end Yields

end Checked
