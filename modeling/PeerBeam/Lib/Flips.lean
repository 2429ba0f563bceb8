import Mathlib.Data.List.Destutter

/-! How often a sequence changes: the elements that differ from the one before them. -/
namespace Flips

variable {α : Type*}

def final (a : α) (l : List α) : α := l.getLastD a

@[simp] theorem final_nil (a : α) : final a [] = a := rfl

@[simp] theorem final_cons (a b : α) (l : List α) : final a (b :: l) = final b l := by
  cases l <;> rfl

@[simp] theorem final_append (a : α) (l m : List α) : final a (l ++ m) = final (final a l) m := by
  induction l generalizing a with
  | nil => rfl
  | cons b l ih => rw [List.cons_append, final_cons, final_cons, ih]

theorem getLast?_cons (a : α) (l : List α) : (a :: l).getLast? = some (final a l) := by
  rw [List.getLast?_cons, final, List.getLastD_eq_getLast?]

variable [DecidableEq α]

/-- The changes of a sequence that starts from `a`. -/
def flips (a : α) (l : List α) : List α := (l.destutter' (· ≠ ·) a).tail

theorem destutter'_eq (a : α) (l : List α) : l.destutter' (· ≠ ·) a = a :: flips a l := by
  induction l generalizing a with
  | nil => rfl
  | cons b l ih =>
    by_cases same : a = b
    · subst same
      rw [flips, List.destutter'_cons_neg l (not_not.mpr rfl), ih, List.tail_cons]
    · rw [flips, List.destutter'_cons_pos l same, List.tail_cons]

@[simp] theorem flips_nil (a : α) : flips a [] = [] := rfl

theorem flips_cons (a b : α) (l : List α) : flips a (b :: l) = if a = b then flips a l else b :: flips b l := by
  split
  next same =>
    subst same
    rw [flips, List.destutter'_cons_neg l (not_not.mpr rfl), flips]
  next apart =>
    rw [flips, List.destutter'_cons_pos l apart, List.tail_cons, destutter'_eq]

theorem flips_append (a : α) (l m : List α) : flips a (l ++ m) = flips a l ++ flips (final a l) m := by
  induction l generalizing a with
  | nil => rfl
  | cons b l ih =>
    rw [List.cons_append, flips_cons, flips_cons, final_cons]
    by_cases same : a = b
    · subst same
      rw [if_pos rfl, if_pos rfl, ih]
    · rw [if_neg same, if_neg same, ih, List.cons_append]

/-- Neighbours among the changes differ, and the first differs from the start. -/
theorem isChain_flips (a : α) (l : List α) : (a :: flips a l).IsChain (· ≠ ·) := by
  rw [← destutter'_eq]
  exact List.isChain_destutter' ..

/-- The last change is where the sequence stands. -/
theorem final_flips (a : α) (l : List α) : final a (flips a l) = final a l := by
  induction l generalizing a with
  | nil => rfl
  | cons b l ih =>
    rw [flips_cons, final_cons]
    by_cases same : a = b
    · subst same
      rw [if_pos rfl, ih]
    · rw [if_neg same, final_cons, ih]

theorem length_flips_singleton (a b : α) : (flips a [b]).length = if a = b then 0 else 1 := by
  rw [flips_cons]
  split <;> rfl

/-- Leaving elements out changes less often. -/
theorem length_flips_sublist (a : α) {l m : List α} (sub : l.Sublist m) : (flips a l).length ≤ (flips a m).length := by
  have inside : (a :: flips a l).Sublist (a :: m) := by
    rw [← destutter'_eq]
    exact (List.destutter'_sublist ..).trans (sub.cons_cons a)
  have longest := (isChain_flips a l).length_le_length_destutter inside
  rw [List.destutter_cons', destutter'_eq, List.length_cons, List.length_cons] at longest
  omega

/-- From another start it changes at most once more. -/
theorem length_flips_start (a b : α) (l : List α) : (flips a l).length ≤ (flips b l).length + 1 := by
  have more := length_flips_sublist a (l.sublist_cons_self b)
  rw [flips_cons] at more
  split at more
  next same => rw [← same]; omega
  next => exact more

/-- One more element makes at most two more changes. -/
theorem length_flips_insert (a x : α) (l m : List α) :
    (flips a (l ++ x :: m)).length ≤ (flips a (l ++ m)).length + 2 := by
  have rest := length_flips_start x (final a l) m
  rw [flips_append, flips_append, List.length_append, List.length_append, flips_cons]
  split
  · omega
  · rw [List.length_cons]
    omega

/-- Another end makes at most one more change. -/
theorem length_flips_end (a x y : α) (l : List α) :
    (flips a (l ++ [x])).length ≤ (flips a (l ++ [y])).length + 1 := by
  rw [flips_append, flips_append, List.length_append, List.length_append, length_flips_singleton]
  split <;> omega

/-- An element repeated changes nothing. -/
theorem flips_repeat (a x : α) (l m : List α) : flips a (l ++ x :: x :: m) = flips a (l ++ x :: m) := by
  rw [flips_append, flips_append]
  congr 1
  by_cases same : final a l = x
  · rw [flips_cons, if_pos same]
  · rw [flips_cons, if_neg same, flips_cons, if_pos rfl, flips_cons, if_neg same]

theorem destutter_concat_same {l : List α} {x : α} (same : l.getLast? = some x) :
    (l ++ [x]).destutter (· ≠ ·) = l.destutter (· ≠ ·) := by
  cases l with
  | nil => cases same
  | cons a l =>
    rw [getLast?_cons] at same
    rw [List.cons_append, List.destutter_cons', List.destutter_cons', destutter'_eq, destutter'_eq, flips_append, flips_cons,
      if_pos (Option.some.inj same), flips_nil, List.append_nil]

theorem destutter_concat_ne {l : List α} {x : α} (apart : l.getLast? ≠ some x) :
    (l ++ [x]).destutter (· ≠ ·) = l.destutter (· ≠ ·) ++ [x] := by
  cases l with
  | nil => rfl
  | cons a l =>
    rw [getLast?_cons] at apart
    have changes : final a l ≠ x := fun same => apart (congrArg some same)
    rw [List.cons_append, List.destutter_cons', List.destutter_cons', destutter'_eq, destutter'_eq, flips_append, flips_cons,
      if_neg changes, flips_nil, List.cons_append]

/-- Leaving out equal neighbours keeps the marks, where no mark repeats the one before it. -/
theorem filterMap_destutter {β : Type*} {mark : α → Option β} {l : List α}
    (apart : (l.filterMap mark).IsChain (· ≠ ·)) : (l.destutter (· ≠ ·)).filterMap mark = l.filterMap mark := by
  cases l with
  | nil => rfl
  | cons a l =>
    rw [List.destutter_cons']
    induction l generalizing a with
    | nil => rfl
    | cons b l ih =>
      by_cases same : a = b
      · subst same
        rw [List.destutter'_cons_neg l (not_not.mpr rfl)]
        cases marked : mark a with
        | none =>
          rw [List.filterMap_cons_none marked] at apart ⊢
          exact ih a apart
        | some x =>
          rw [List.filterMap_cons_some marked, List.filterMap_cons_some marked] at apart
          exact absurd rfl (List.isChain_cons_cons.mp apart).1
      · rw [List.destutter'_cons_pos l same]
        cases marked : mark a with
        | none =>
          rw [List.filterMap_cons_none marked] at apart
          rw [List.filterMap_cons_none marked, List.filterMap_cons_none marked, ih b apart]
        | some x =>
          rw [List.filterMap_cons_some marked] at apart
          rw [List.filterMap_cons_some marked, List.filterMap_cons_some marked, ih b apart.tail]

end Flips
