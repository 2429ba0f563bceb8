import Mathlib.Data.Set.Function
import Mathlib.Order.Lattice

/-! Registers that keep one of the values they are offered, chosen by rank: where ranks tell the
values apart, what is kept depends only on which values were offered. -/
namespace Selection
variable {α ρ : Type*} [LinearOrder ρ] {rank : α → ρ} {pick : α → α → α}

/-- The choice returns one of its arguments, and none of lower rank than the other. -/
def Selects (rank : α → ρ) (pick : α → α → α) : Prop :=
  ∀ a b, pick a b = a ∧ rank b ≤ rank a ∨ pick a b = b ∧ rank a ≤ rank b

/-- An offered value is taken by an empty register, and weighed against what a full one holds. -/
def take (pick : α → α → α) (held : Option α) (x : α) : Option α := some (held.elim x (pick · x))

def IsBest (rank : α → ρ) (s : Set α) : Option α → Prop
  | none => s = ∅
  | some a => a ∈ s ∧ ∀ b ∈ s, rank b ≤ rank a

theorem IsBest.unique {s : Set α} (apart : Set.InjOn rank s) {r r' : Option α}
    (h : IsBest rank s r) (h' : IsBest rank s r') : r = r' := by
  cases r with
  | none =>
    cases r' with
    | none => rfl
    | some b => exact absurd (h ▸ h'.1 : b ∈ (∅ : Set α)) (Set.notMem_empty b)
  | some a =>
    cases r' with
    | none => exact absurd (h' ▸ h.1 : a ∈ (∅ : Set α)) (Set.notMem_empty a)
    | some b =>
      have same : rank a = rank b := le_antisymm (h'.2 a h.1) (h.2 b h'.1)
      exact congrArg some (apart h.1 h'.1 same)

theorem Selects.take_isBest (h : Selects rank pick) {s : Set α} {held : Option α}
    (best : IsBest rank s held) (x : α) : IsBest rank (insert x s) (take pick held x) := by
  cases held with
  | none =>
    have empty : s = ∅ := best
    refine ⟨Set.mem_insert x s, fun b mem => ?_⟩
    rcases mem with rfl | mem
    · exact le_refl _
    · rw [empty] at mem
      exact absurd mem (Set.notMem_empty b)
  | some a =>
    show pick a x ∈ insert x s ∧ ∀ b ∈ insert x s, rank b ≤ rank (pick a x)
    rcases h a x with ⟨kept, le⟩ | ⟨taken, le⟩
    · rw [kept]
      refine ⟨Set.mem_insert_of_mem x best.1, fun b mem => ?_⟩
      rcases mem with rfl | mem
      · exact le
      · exact best.2 b mem
    · rw [taken]
      refine ⟨Set.mem_insert x s, fun b mem => ?_⟩
      rcases mem with rfl | mem
      · exact le_refl _
      · exact le_trans (best.2 b mem) le

/-- A register that is offered a list of values ends with a best one. -/
theorem Selects.foldl_isBest (h : Selects rank pick) (items : List α) {s : Set α}
    {held : Option α} (best : IsBest rank s held) :
    IsBest rank (s ∪ {a | a ∈ items}) (items.foldl (take pick) held) := by
  induction items generalizing s held with
  | nil =>
    have same : s ∪ {a | a ∈ ([] : List α)} = s := by simp
    rw [same]
    exact best
  | cons x items ih =>
    have same : s ∪ {a | a ∈ x :: items} = insert x s ∪ {a | a ∈ items} := by
      ext a
      simp [or_left_comm, or_assoc]
    rw [same]
    exact ih (h.take_isBest best x)

/-- What a register holds, as the best of a set. -/
theorem isBest_held (held : Option α) : IsBest rank {a | held = some a} held := by
  cases held with
  | none => exact Set.eq_empty_of_forall_notMem fun a same => by cases same
  | some a => exact ⟨rfl, fun b same => le_of_eq (congrArg rank (Option.some.inj same).symm)⟩

end Selection
