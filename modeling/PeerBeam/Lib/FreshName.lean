import Mathlib.Data.Finset.Card
import Mathlib.Data.Finset.Image

/-! The first of a row of candidates that is not taken yet. -/
namespace FreshName
variable {α : Type} [DecidableEq α]

/-- The candidates from `n` on, so many of them at most. -/
def search (candidate : ℕ → α) (taken : List α) : (count n : ℕ) → Option α
  | 0, _ => none
  | count + 1, n => if candidate n ∈ taken then search candidate taken count (n + 1) else some (candidate n)

variable {candidate : ℕ → α} {taken : List α} {count n : ℕ}

theorem search_eq_some {name : α} (found : search candidate taken count n = some name) :
    name ∉ taken ∧ ∃ k, name = candidate k := by
  induction count generalizing n with
  | zero => cases found
  | succ count ih =>
    rw [search] at found
    split at found
    · exact ih found
    · next free =>
      cases found
      exact ⟨free, n, rfl⟩

theorem search_eq_none (none_ : search candidate taken count n = none) : ∀ k < count, candidate (n + k) ∈ taken := by
  induction count generalizing n with
  | zero => exact fun k lt => absurd lt (Nat.not_lt_zero k)
  | succ count ih =>
    rw [search] at none_
    split at none_
    · next held =>
      intro k lt
      cases k with
      | zero => exact held
      | succ k =>
        rw [← Nat.add_assoc, Nat.add_right_comm]
        exact ih none_ k (Nat.lt_of_succ_lt_succ lt)
    · cases none_

/-- With one more name taken, as many candidates as taken names are enough. -/
theorem exists_search (injective : Function.Injective candidate) {base : α} (other : ∀ k, candidate k ≠ base)
    (used : base ∈ taken) (few : taken.length ≤ count) : ∃ name, search candidate taken count n = some name := by
  cases found : search candidate taken count n with
  | some name => exact ⟨name, rfl⟩
  | none =>
    have all : insert base ((Finset.range count).image fun k => candidate (n + k)) ⊆ taken.toFinset := by
      intro name mem
      rw [List.mem_toFinset]
      rcases Finset.mem_insert.mp mem with rfl | mem
      · exact used
      · obtain ⟨k, lt, rfl⟩ := Finset.mem_image.mp mem
        exact search_eq_none found k (Finset.mem_range.mp lt)
    have outside : base ∉ (Finset.range count).image fun k => candidate (n + k) := by
      intro mem
      obtain ⟨k, -, same⟩ := Finset.mem_image.mp mem
      exact other _ same
    have size : ((Finset.range count).image fun k => candidate (n + k)).card = count := by
      rw [Finset.card_image_of_injective, Finset.card_range]
      exact injective.comp fun a b same => Nat.add_left_cancel same
    have most := (Finset.card_le_card all).trans taken.toFinset_card_le
    rw [Finset.card_insert_of_notMem outside, size] at most
    omega

end FreshName
