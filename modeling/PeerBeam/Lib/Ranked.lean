import Mathlib.Data.List.Induction
import Mathlib.Data.List.InsertIdx
import Mathlib.Data.List.Pairwise
import Mathlib.Data.List.Sort

/-! Lists in the order of a comparison, and the best so far of what comes one by one. -/
namespace Ranked
variable {α : Type*} (cmp : α → α → Ordering)

def Sorted (l : List α) : Prop := l.Pairwise fun a b => (cmp a b).isLE = true

def sort (l : List α) : List α := l.mergeSort fun a b => (cmp a b).isLE

/-- The element stands in front of the first that is not before it. -/
def insert (a : α) (l : List α) : List α := l.insertIdx (l.takeWhile fun b => (cmp b a).isLT).length a

def arrange (l : List α) : List α := l.foldl (fun placed a => insert cmp a placed) []

variable {cmp}

theorem perm_sort (l : List α) : (sort cmp l).Perm l := List.mergeSort_perm _ _

theorem insert_cons_of_before {a b : α} (l : List α) (before : (cmp b a).isLT = true) :
    insert cmp a (b :: l) = b :: insert cmp a l := by
  rw [insert, List.takeWhile_cons_of_pos (p := fun b => (cmp b a).isLT) before, List.length_cons,
    List.insertIdx_succ_cons]
  rfl

theorem insert_cons_of_not_before {a b : α} (l : List α) (after : (cmp b a).isLT = false) :
    insert cmp a (b :: l) = a :: b :: l := by
  rw [insert, List.takeWhile_cons_of_neg (p := fun b => (cmp b a).isLT) (by simp [after])]
  rfl

theorem perm_insert (a : α) (l : List α) : (insert cmp a l).Perm (a :: l) :=
  List.perm_insertIdx _ _ (List.takeWhile_sublist _).length_le

@[simp]
theorem length_insert (a : α) (l : List α) : (insert cmp a l).length = l.length + 1 :=
  (perm_insert a l).length_eq

/-- What is beyond the bound never comes back in. -/
theorem take_insert_take (a : α) (limit : Nat) (l : List α) :
    (insert cmp a (l.take limit)).take limit = (insert cmp a l).take limit := by
  induction l generalizing limit with
  | nil => simp
  | cons b l ih =>
    cases limit with
    | zero => rfl
    | succ limit =>
      rw [List.take_succ_cons]
      cases before : (cmp b a).isLT with
      | true =>
        rw [insert_cons_of_before _ before, insert_cons_of_before _ before, List.take_succ_cons, List.take_succ_cons, ih]
      | false =>
        rw [insert_cons_of_not_before _ before, insert_cons_of_not_before _ before, List.take_succ_cons,
          List.take_succ_cons]
        refine congrArg (a :: ·) ?_
        rw [← List.take_succ_cons, List.take_take, min_eq_left (Nat.le_succ limit)]

theorem arrange_concat (l : List α) (a : α) : arrange cmp (l ++ [a]) = insert cmp a (arrange cmp l) :=
  List.foldl_concat _ _ _ _

theorem perm_arrange (l : List α) : (arrange cmp l).Perm l := by
  induction l using List.reverseRecOn with
  | nil => exact .nil
  | append_singleton l a ih =>
    rw [arrange_concat]
    exact ((perm_insert a _).trans (ih.cons a)).trans (List.perm_append_singleton a l).symm

theorem insert_map {β : Type*} (f : β → α) (b : β) (l : List β) :
    insert cmp (f b) (l.map f) = (insert (fun a b => cmp (f a) (f b)) b l).map f := by
  rw [insert, insert, List.map_insertIdx, List.takeWhile_map, List.length_map]
  rfl

/-- Only what the elements are compared by matters. -/
theorem arrange_map {β : Type*} (f : β → α) (l : List β) :
    arrange cmp (l.map f) = (arrange (fun a b => cmp (f a) (f b)) l).map f := by
  induction l using List.reverseRecOn with
  | nil => rfl
  | append_singleton l b ih => rw [List.map_append, List.map_singleton, arrange_concat, arrange_concat, ih, insert_map]

/-- The best `limit` elements of a list, and whether some were left out. -/
def Best (cmp : α → α → Ordering) (limit : Nat) (l best : List α) (cut : Bool) : Prop :=
  best = (arrange cmp l).take limit ∧ cut = decide (limit < l.length)

theorem best_nil (limit : Nat) : Best cmp limit [] [] false := ⟨List.take_nil.symm, rfl⟩

/-- One more element that comes in. -/
theorem Best.concat {limit : Nat} {l best : List α} {cut : Bool} (h : Best cmp limit l best cut) (a : α) :
    Best cmp limit (l ++ [a]) ((insert cmp a best).take limit) (cut || decide (limit ≤ best.length)) := by
  obtain ⟨rfl, rfl⟩ := h
  refine ⟨by rw [take_insert_take, arrange_concat], ?_⟩
  rw [List.length_take, (perm_arrange l).length_eq, List.length_append, List.length_singleton, ← Bool.decide_or]
  congr 1
  rw [eq_iff_iff]
  omega

section
variable [Std.TransCmp cmp]

theorem isLE_total (a b : α) : ((cmp a b).isLE || (cmp b a).isLE) = true := by
  rw [show cmp b a = (cmp a b).swap from Std.OrientedCmp.eq_swap]
  cases cmp a b <;> rfl

theorem sorted_sort (l : List α) : Sorted cmp (sort cmp l) :=
  List.pairwise_mergeSort (fun _ _ _ => Std.TransCmp.isLE_trans) isLE_total l

/-- What is in order stays in its place among the rest. -/
theorem sublist_sort {l l' : List α} (sorted : Sorted cmp l') (sub : l'.Sublist l) : l'.Sublist (sort cmp l) :=
  List.sublist_mergeSort (fun _ _ _ => Std.TransCmp.isLE_trans) isLE_total sorted sub

/-- Elements that compare the same stay in the order they had. -/
theorem filter_sort {p : α → Bool} (alike : ∀ a b, p a = true → p b = true → cmp a b = .eq) (l : List α) :
    (sort cmp l).filter p = l.filter p := by
  have sorted : Sorted cmp (l.filter p) := by
    refine List.pairwise_of_forall_mem_list fun a mem b mem' => ?_
    rw [alike a b (List.mem_filter.mp mem).2 (List.mem_filter.mp mem').2]
    rfl
  have there := (sublist_sort sorted List.filter_sublist).filter p
  simp only [List.filter_filter, Bool.and_self] at there
  exact (there.eq_of_length ((perm_sort l).filter p).length_eq.symm).symm

theorem sorted_insert {a : α} {l : List α} (sorted : Sorted cmp l) : Sorted cmp (insert cmp a l) := by
  induction l with
  | nil => exact List.pairwise_singleton _ a
  | cons b l ih =>
    obtain ⟨first, rest⟩ := List.pairwise_cons.mp sorted
    cases before : (cmp b a).isLT with
    | true =>
      rw [insert_cons_of_before _ before]
      refine List.pairwise_cons.mpr ⟨fun d mem => ?_, ih rest⟩
      rcases List.mem_cons.mp ((perm_insert a l).mem_iff.mp mem) with rfl | mem
      · exact Ordering.isLE_of_eq_lt (Ordering.isLT_iff_eq_lt.mp before)
      · exact first d mem
    | false =>
      rw [insert_cons_of_not_before _ before]
      have le : (cmp a b).isLE = true := by
        rw [show cmp a b = (cmp b a).swap from Std.OrientedCmp.eq_swap]
        cases here : cmp b a <;> simp_all
      refine List.pairwise_cons.mpr ⟨fun d mem => ?_, sorted⟩
      rcases List.mem_cons.mp mem with rfl | mem
      · exact le
      · exact Std.TransCmp.isLE_trans le (first d mem)

theorem sorted_arrange (l : List α) : Sorted cmp (arrange cmp l) := by
  induction l using List.reverseRecOn with
  | nil => exact .nil
  | append_singleton l a ih =>
    rw [arrange_concat]
    exact sorted_insert ih

/-- Where no two elements stand equal, there is one order to put them in. -/
theorem arrange_eq_sort {l : List α} (apart : l.Pairwise fun a b => cmp a b ≠ .eq) : arrange cmp l = sort cmp l := by
  have symm : Std.Symm fun a b => cmp a b ≠ .eq :=
    ⟨fun a b other same => other (by rw [show cmp a b = (cmp b a).swap from Std.OrientedCmp.eq_swap, same]; rfl)⟩
  refine ((perm_arrange l).trans (perm_sort l).symm).eq_of_pairwise (fun a b mem mem' le ge => ?_) (sorted_arrange l)
    (sorted_sort l)
  by_contra other
  exact apart.forall ((perm_arrange l).mem_iff.mp mem) ((perm_sort l).mem_iff.mp mem') other
    (Std.OrientedCmp.isLE_antisymm le ge)

end

end Ranked
