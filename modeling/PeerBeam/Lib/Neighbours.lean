import Mathlib.Data.List.Destutter
import PeerBeam.Lib.Ranked

/-! Lists from which neighbours that are alike are struck out: when what is left is distinct, also after a sort that
compares less than all of an element. -/
namespace Neighbours
variable {α : Type*} [DecidableEq α]

/-- Of neighbours that are alike the first stays. -/
def dedup (l : List α) : List α := l.destutter (· ≠ ·)

def Grouped (l : List α) : Prop := ∀ a b, [a, b, a].Sublist l → a = b

omit [DecidableEq α] in
theorem Grouped.sublist {l l' : List α} (h : Grouped l) (sub : l'.Sublist l) : Grouped l' :=
  fun a b there => h a b (there.trans sub)

omit [DecidableEq α] in
theorem grouped_singleton (a : α) : Grouped [a] := by
  intro x y there
  exact absurd there.length_le (by simp)

omit [DecidableEq α] in
/-- In front of another element a new group begins. -/
theorem grouped_cons_of_ne {a b : α} (apart : a ≠ b) (l : List α) :
    Grouped (a :: b :: l) ↔ a ∉ b :: l ∧ Grouped (b :: l) := by
  constructor
  · intro h
    refine ⟨fun mem => ?_, h.sublist (List.sublist_cons_self _ _)⟩
    have again : a ∈ l := (List.mem_cons.mp mem).resolve_left apart
    exact apart (h a b (((List.singleton_sublist.mpr again).cons_cons b).cons_cons a))
  · intro ⟨new, h⟩ x y there
    cases there with
    | cons _ inside => exact h x y inside
    | cons_cons _ inside => exact absurd (inside.subset (by simp)) new

omit [DecidableEq α] in
/-- One more of what comes first anyway. -/
theorem grouped_cons_self (a : α) (l : List α) : Grouped (a :: a :: l) ↔ Grouped (a :: l) := by
  refine ⟨fun h => h.sublist (List.sublist_cons_self _ _), fun h x y there => ?_⟩
  cases there with
  | cons _ inside => exact h x y inside
  | cons_cons _ inside =>
    cases inside with
    | cons _ inside => exact h _ y (inside.cons_cons _)
    | cons_cons _ inside => rfl

theorem mem_destutter' {a b : α} {l : List α} : b ∈ l.destutter' (· ≠ ·) a ↔ b ∈ a :: l := by
  induction l generalizing a with
  | nil => rfl
  | cons c l ih =>
    by_cases apart : a ≠ c
    · rw [List.destutter'_cons_pos _ apart, List.mem_cons, ih]
      exact List.mem_cons.symm
    · rw [List.destutter'_cons_neg _ apart, ih, not_not.mp apart, List.mem_cons, List.mem_cons, List.mem_cons]
      exact (or_self_left).symm

theorem mem_dedup {b : α} {l : List α} : b ∈ dedup l ↔ b ∈ l := by
  cases l with
  | nil => rfl
  | cons a l => exact mem_destutter'

theorem dedup_sublist (l : List α) : (dedup l).Sublist l := List.destutter_sublist _ l

theorem nodup_destutter'_iff (a : α) (l : List α) : (l.destutter' (· ≠ ·) a).Nodup ↔ Grouped (a :: l) := by
  induction l generalizing a with
  | nil => exact iff_of_true (List.nodup_singleton a) (grouped_singleton a)
  | cons b l ih =>
    by_cases apart : a ≠ b
    · rw [List.destutter'_cons_pos _ apart, List.nodup_cons, mem_destutter', ih, grouped_cons_of_ne apart]
    · obtain rfl := not_not.mp apart
      rw [List.destutter'_cons_neg _ apart, ih, grouped_cons_self]

/-- What is left is distinct if and only if what is alike stood together. -/
theorem nodup_dedup_iff (l : List α) : (dedup l).Nodup ↔ Grouped l := by
  cases l with
  | nil => exact iff_of_true List.nodup_nil fun x y there => nomatch there
  | cons a l => exact nodup_destutter'_iff a l

section
variable {cmp : α → α → Ordering} [Std.TransCmp cmp]

omit [DecidableEq α] in
/-- After a sort like elements stand together unless the list has others between them that compare the same. -/
theorem grouped_sort_iff (l : List α) :
    Grouped (Ranked.sort cmp l) ↔ ∀ a b, cmp a b = .eq → [a, b, a].Sublist l → a = b := by
  have refl (a : α) : cmp a a = .eq := Std.ReflCmp.compare_self
  have sorted : Ranked.Sorted cmp (Ranked.sort cmp l) := Ranked.sorted_sort l
  constructor
  · intro h a b same there
    refine h a b (Ranked.sublist_sort ?_ there)
    have same' : cmp b a = .eq := Std.OrientedCmp.eq_symm same
    simp [Ranked.Sorted, same, same', refl]
  · intro h a b there
    have ordered := sorted.sublist there
    simp only [List.pairwise_cons, List.mem_cons, List.not_mem_nil, or_false, forall_eq_or_imp, forall_eq] at ordered
    have same : cmp a b = .eq := Std.OrientedCmp.isLE_antisymm ordered.1.1 ordered.2.1
    refine h a b same ?_
    have kept := there.filter fun c => cmp c a = .eq
    rw [Ranked.filter_sort] at kept
    · simpa [same, Std.OrientedCmp.eq_symm same, refl] using kept.trans List.filter_sublist
    · intro c d alike alike'
      exact Std.TransCmp.eq_trans (of_decide_eq_true alike) (Std.OrientedCmp.eq_symm (of_decide_eq_true alike'))

end

end Neighbours
