import Mathlib

/-! Sorted maps whose order tells keys apart: lookups, and walks over the keys. -/
namespace SortedMap
variable {α β : Type*} [Ord α] [Std.TransOrd α]

/-- Of keys in order, a walk that stops at the first that fails reaches those all of whose
predecessors pass. -/
theorem mem_takeWhile {keys : List α} (sorted : keys.Pairwise (compare · · = .lt)) (p : α → Bool)
    (a : α) : a ∈ keys.takeWhile p ↔
      a ∈ keys ∧ p a = true ∧ ∀ b ∈ keys, compare b a = .lt → p b = true := by
  induction keys with
  | nil => simp
  | cons k keys ih =>
    obtain ⟨first, sorted⟩ := List.pairwise_cons.mp sorted
    cases pass : p k with
    | false =>
      rw [List.takeWhile_cons_of_neg (by simp [pass])]
      refine iff_of_false List.not_mem_nil ?_
      rintro ⟨mem, here, before⟩
      rcases List.mem_cons.mp mem with rfl | mem
      · cases pass.symm.trans here
      · cases pass.symm.trans (before k List.mem_cons_self (first a mem))
    | true =>
      rw [List.takeWhile_cons_of_pos pass, List.mem_cons, ih sorted]
      constructor
      · rintro (rfl | ⟨mem, here, before⟩)
        · refine ⟨List.mem_cons_self, pass, fun b mem less => ?_⟩
          rcases List.mem_cons.mp mem with rfl | mem
          · exact pass
          · cases less.symm.trans (Std.OrientedCmp.gt_of_lt (first b mem))
        · refine ⟨List.mem_cons_of_mem _ mem, here, fun b mem' less => ?_⟩
          rcases List.mem_cons.mp mem' with rfl | mem'
          · exact pass
          · exact before b mem' less
      · rintro ⟨mem, here, before⟩
        rcases List.mem_cons.mp mem with rfl | mem
        · exact .inl rfl
        · exact .inr ⟨mem, here, fun b mem' less => before b (List.mem_cons_of_mem _ mem') less⟩

variable [Std.LawfulEqOrd α] [DecidableEq α]

theorem get_insert (m : Std.ExtTreeMap α β) (k a : α) (v : β) :
    (m.insert k v)[a]? = if k = a then some v else m[a]? := by
  rw [Std.ExtTreeMap.getElem?_insert]
  simp only [Std.LawfulEqOrd.compare_eq_iff_eq]

theorem get_erase (m : Std.ExtTreeMap α β) (k a : α) :
    (m.erase k)[a]? = if k = a then none else m[a]? := by
  rw [Std.ExtTreeMap.getElem?_erase]
  simp only [Std.LawfulEqOrd.compare_eq_iff_eq]

/-- Erasing a list of keys, one after the other. -/
theorem get_foldl_erase (keys : List α) (m : Std.ExtTreeMap α β) (a : α) :
    (keys.foldl (fun m k => m.erase k) m)[a]? = if a ∈ keys then none else m[a]? := by
  induction keys generalizing m with
  | nil => simp
  | cons k keys ih =>
    rw [List.foldl_cons, ih, get_erase]
    by_cases same : k = a
    · subst same
      simp
    · simp [same, Ne.symm same]

omit [Ord α] [Std.TransOrd α] [Std.LawfulEqOrd α] in
/-- Of pairs whose keys differ, the one that is found is the one that is there. -/
theorem lookup_eq_some_iff {k : α} {v : β} {pairs : List (α × β)}
    (distinct : pairs.Pairwise fun a b => a.1 ≠ b.1) :
    pairs.lookup k = some v ↔ (k, v) ∈ pairs := by
  induction pairs with
  | nil => simp
  | cons pair pairs ih =>
    obtain ⟨first, distinct⟩ := List.pairwise_cons.mp distinct
    rw [List.lookup_cons, List.mem_cons]
    by_cases same : k = pair.1
    · rw [beq_iff_eq.mpr same, Option.some.injEq]
      constructor
      · rintro rfl
        exact .inl (Prod.ext same rfl)
      · rintro (rfl | mem)
        · rfl
        · exact absurd same.symm (first _ mem)
    · rw [beq_eq_false_iff_ne.mpr same, ih distinct]
      constructor
      · exact .inr
      · rintro (rfl | mem)
        · exact absurd rfl same
        · exact mem

omit [DecidableEq α] in
theorem distinct_toList (m : Std.ExtTreeMap α β) : m.toList.Pairwise fun a b => a.1 ≠ b.1 :=
  m.distinct_keys_toList.imp fun differ same => differ (Std.LawfulEqOrd.compare_eq_iff_eq.mpr same)

theorem lookup_toList (m : Std.ExtTreeMap α β) (k : α) : m.toList.lookup k = m[k]? := by
  cases found : m[k]? with
  | none =>
    cases listed : m.toList.lookup k with
    | none => rfl
    | some v =>
      have mem := (lookup_eq_some_iff (distinct_toList m)).mp listed
      cases found.symm.trans (Std.ExtTreeMap.mem_toList_iff_getElem?_eq_some.mp mem)
  | some v =>
    refine (lookup_eq_some_iff (distinct_toList m)).mpr ?_
    exact Std.ExtTreeMap.mem_toList_iff_getElem?_eq_some.mpr found

end SortedMap
