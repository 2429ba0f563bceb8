import Mathlib.Data.List.Pairwise
import Mathlib.Order.Lattice

/-! Vectors kept sorted by a key without repeats, and the binary search on them. -/
namespace SortedVec
variable {α κ : Type*} [LinearOrder κ] (key : α → κ)

/-- The loop of a binary search, on the window of `size` places from `base` on. -/
def narrow (k : κ) (xs : List α) : ℕ → ℕ → ℕ → ℕ
  | 0, base, _ => base
  | fuel + 1, base, size =>
    if 1 < size then
      let half := size / 2
      let mid := base + half
      narrow k xs fuel (if xs[mid]?.any (k < key ·) then base else mid) (size - half)
    else base

def search (k : κ) (xs : List α) : Except ℕ ℕ :=
  if xs = [] then .error 0
  else
    let base := narrow key k xs xs.length 0 xs.length
    match xs[base]? with
    | none => .error base
    | some x =>
      match compare (key x) k with
      | .eq => .ok base
      | .lt => .error (base + 1)
      | .gt => .error base

def get (k : κ) (xs : List α) : Option α :=
  match search key k xs with
  | .ok i => xs[i]?
  | .error _ => none

/-- Replace the element of the same key, or insert at its place. -/
def upsert (x : α) (xs : List α) : List α :=
  match search key (key x) xs with
  | .ok i => xs.set i x
  | .error i => xs.insertIdx i x

def Sorted (xs : List α) : Prop := xs.Pairwise (key · < key ·)

def lookup (k : κ) (xs : List α) : Option α := xs.find? (key · = k)

variable {key} {k : κ} {xs : List α}

theorem Sorted.key_lt (sorted : Sorted key xs) {i j : ℕ} {x y : α} (lt : i < j) (atI : xs[i]? = some x)
    (atJ : xs[j]? = some y) : key x < key y := by
  obtain ⟨hi, rfl⟩ := List.getElem?_eq_some_iff.mp atI
  obtain ⟨hj, rfl⟩ := List.getElem?_eq_some_iff.mp atJ
  exact List.pairwise_iff_getElem.mp sorted i j hi hj lt

/-- What the loop keeps: nothing right of the window is at most the key, and the window's first
element is, unless it is the vector's. -/
structure Window (key : α → κ) (k : κ) (xs : List α) (base size : ℕ) : Prop where
  inside : base + size ≤ xs.length
  full : 0 < size
  left : base = 0 ∨ ∃ x, xs[base]? = some x ∧ key x ≤ k
  right : ∀ j x, base + size ≤ j → xs[j]? = some x → k < key x

theorem window_narrow (sorted : Sorted key xs) {fuel base size : ℕ} (enough : size ≤ fuel + 1)
    (w : Window key k xs base size) : Window key k xs (narrow key k xs fuel base size) 1 := by
  induction fuel generalizing base size with
  | zero =>
    obtain rfl : size = 1 := by have := w.full; omega
    exact w
  | succ fuel ih =>
    rw [narrow]
    by_cases wide : 1 < size
    · rw [if_pos wide]
      have inside := w.inside
      obtain ⟨x, found⟩ : ∃ x, xs[base + size / 2]? = some x :=
        ⟨_, List.getElem?_eq_getElem (by omega)⟩
      apply ih (by omega)
      rw [found, Option.any_some]
      by_cases above : k < key x
      · rw [if_pos (decide_eq_true above)]
        refine ⟨by omega, by omega, w.left, fun j y beyond atJ => ?_⟩
        rcases Nat.lt_or_eq_of_le (show base + size / 2 ≤ j by omega) with lt | rfl
        · exact above.trans (sorted.key_lt lt found atJ)
        · exact Option.some.inj (found.symm.trans atJ) ▸ above
      · rw [if_neg (by simpa using above)]
        refine ⟨by omega, by omega, .inr ⟨x, found, not_lt.mp above⟩, fun j y beyond atJ => ?_⟩
        exact w.right j y (by omega) atJ
    · rw [if_neg wide]
      obtain rfl : size = 1 := by have := w.full; omega
      exact w

/-- A search parts the vector at the key's place. -/
theorem search_spec (sorted : Sorted key xs) (k : κ) :
    (∃ before x after, search key k xs = .ok before.length ∧ xs = before ++ x :: after ∧ key x = k) ∨
    ∃ before after, search key k xs = .error before.length ∧ xs = before ++ after ∧
      (∀ x ∈ before, key x < k) ∧ ∀ x ∈ after, k < key x := by
  by_cases empty : xs = []
  · right
    exact ⟨[], [], by rw [search, if_pos empty]; rfl, empty, by simp, by simp⟩
  have positive : 0 < xs.length := List.length_pos_iff.mpr empty
  have w : Window key k xs (narrow key k xs xs.length 0 xs.length) 1 := by
    refine window_narrow sorted (Nat.le_succ _) ⟨by omega, positive, .inl rfl, fun j x beyond found => ?_⟩
    rw [List.getElem?_eq_none (by omega)] at found
    cases found
  generalize base_def : narrow key k xs xs.length 0 xs.length = base at w
  have bound : base < xs.length := w.inside
  have found : xs[base]? = some xs[base] := List.getElem?_eq_getElem bound
  have parted : xs = xs.take base ++ xs[base] :: xs.drop (base + 1) := by
    rw [← List.drop_eq_getElem_cons bound, List.take_append_drop]
  have length : (xs.take base).length = base := List.length_take_of_le bound.le
  have before (x : α) (mem : x ∈ xs.take base) : key x < key xs[base] := by
    obtain ⟨i, hi, rfl⟩ := List.mem_iff_getElem.mp mem
    rw [length] at hi
    rw [List.getElem_take]
    exact List.pairwise_iff_getElem.mp sorted i base (by omega) bound hi
  have after (x : α) (mem : x ∈ xs.drop (base + 1)) : k < key x := by
    obtain ⟨i, hi, rfl⟩ := List.mem_iff_getElem.mp mem
    rw [List.length_drop] at hi
    rw [List.getElem_drop]
    exact w.right (base + 1 + i) _ (by omega) (List.getElem?_eq_getElem (by omega))
  have found' : search key k xs = match compare (key xs[base]) k with
      | .eq => .ok base
      | .lt => .error (base + 1)
      | .gt => .error base := by
    rw [search, if_neg empty]
    dsimp only
    rw [base_def, found]
  rcases lt_trichotomy (key xs[base]) k with lt | eq | gt
  · right
    rw [compare_lt_iff_lt.mpr lt] at found'
    refine ⟨xs.take (base + 1), xs.drop (base + 1), ?_, (List.take_append_drop _ _).symm, ?_, after⟩
    · rw [found', List.length_take_of_le bound]
    · intro x mem
      rw [List.take_add_one, found, Option.toList_some, List.mem_append, List.mem_singleton] at mem
      rcases mem with mem | rfl
      · exact (before x mem).trans lt
      · exact lt
  · left
    rw [compare_eq_iff_eq.mpr eq] at found'
    exact ⟨_, _, _, by rw [found', length], parted, eq⟩
  · right
    rw [compare_gt_iff_gt.mpr gt] at found'
    refine ⟨xs.take base, xs.drop base, by rw [found', length], (List.take_append_drop _ _).symm, ?_, ?_⟩
    · intro x mem
      rcases w.left with rfl | ⟨y, atBase, le⟩
      · cases mem
      · rw [found] at atBase
        exact (before x mem).trans_le (Option.some.inj atBase ▸ le)
    · intro x mem
      rw [List.drop_eq_getElem_cons bound, List.mem_cons] at mem
      rcases mem with rfl | mem
      · exact gt
      · exact after x mem

theorem insertIdx_append (before after : List α) (x : α) :
    (before ++ after).insertIdx before.length x = before ++ x :: after := by
  induction before with
  | nil => rfl
  | cons y before ih => rw [List.cons_append, List.length_cons, List.insertIdx_succ_cons, ih, List.cons_append]

/-- An upsert leaves everything below and above the key, and the new element between. -/
theorem upsert_parts (sorted : Sorted key xs) (x : α) :
    ∃ before same after, xs = before ++ (same ++ after) ∧ upsert key x xs = before ++ x :: after ∧
      (∀ y ∈ before, key y < key x) ∧ (∀ y ∈ same, key y = key x) ∧ ∀ y ∈ after, key x < key y := by
  rcases search_spec sorted (key x) with ⟨before, y, after, found, rfl, same⟩ | ⟨before, after, found, rfl, lt, gt⟩
  · obtain ⟨-, sortedTail, across⟩ := List.pairwise_append.mp sorted
    refine ⟨before, [y], after, rfl, ?_, fun z mem => ?_, fun z mem => ?_, fun z mem => ?_⟩
    · rw [upsert, found]
      simp
    · exact same ▸ across z mem y List.mem_cons_self
    · rw [List.mem_singleton.mp mem, same]
    · exact same ▸ (List.pairwise_cons.mp sortedTail).1 z mem
  · refine ⟨before, [], after, rfl, ?_, lt, by simp, gt⟩
    rw [upsert, found]
    exact insertIdx_append before after x

theorem sorted_upsert (sorted : Sorted key xs) (x : α) : Sorted key (upsert key x xs) := by
  obtain ⟨before, same, after, rfl, result, lt, -, gt⟩ := upsert_parts sorted x
  obtain ⟨left, rest, across⟩ := List.pairwise_append.mp sorted
  rw [Sorted, result, List.pairwise_append, List.pairwise_cons]
  refine ⟨left, ⟨gt, (List.pairwise_append.mp rest).2.1⟩, fun y memY z memZ => ?_⟩
  rcases List.mem_cons.mp memZ with rfl | memZ
  · exact lt y memY
  · exact across y memY z (List.mem_append_right _ memZ)

theorem mem_upsert (sorted : Sorted key xs) {x y : α} :
    y ∈ upsert key x xs ↔ y = x ∨ y ∈ xs ∧ key y ≠ key x := by
  obtain ⟨before, same, after, rfl, result, lt, eq, gt⟩ := upsert_parts sorted x
  rw [result]
  simp only [List.mem_append, List.mem_cons]
  constructor
  · rintro (mem | rfl | mem)
    · exact .inr ⟨.inl mem, (lt y mem).ne⟩
    · exact .inl rfl
    · exact .inr ⟨.inr (.inr mem), (gt y mem).ne'⟩
  · rintro (rfl | ⟨mem | mem | mem, other⟩)
    · exact .inr (.inl rfl)
    · exact .inl mem
    · exact absurd (eq y mem) other
    · exact .inr (.inr mem)

theorem Sorted.eq_of_key (sorted : Sorted key xs) {x y : α} (memX : x ∈ xs) (memY : y ∈ xs)
    (same : key x = key y) : x = y := by
  obtain ⟨i, atI⟩ := List.mem_iff_getElem?.mp memX
  obtain ⟨j, atJ⟩ := List.mem_iff_getElem?.mp memY
  rcases lt_trichotomy i j with lt | rfl | gt
  · exact absurd same (sorted.key_lt lt atI atJ).ne
  · exact Option.some.inj (atI.symm.trans atJ)
  · exact absurd same (sorted.key_lt gt atJ atI).ne'

theorem lookup_eq_some (sorted : Sorted key xs) {x : α} : lookup key k xs = some x ↔ x ∈ xs ∧ key x = k := by
  constructor
  · intro found
    exact ⟨List.mem_of_find?_eq_some found, by simpa using List.find?_some found⟩
  · rintro ⟨mem, rfl⟩
    cases found : lookup key (key x) xs with
    | none =>
      have other := List.find?_eq_none.mp found x mem
      simp at other
    | some y =>
      have same : key y = key x := by simpa using List.find?_some found
      exact congrArg some (sorted.eq_of_key (List.mem_of_find?_eq_some found) mem same)

/-- The binary search finds what a linear scan does. -/
theorem get_eq_lookup (sorted : Sorted key xs) (k : κ) : get key k xs = lookup key k xs := by
  rw [get]
  rcases search_spec sorted k with ⟨before, x, after, found, rfl, same⟩ | ⟨before, after, found, rfl, lt, gt⟩
  · rw [found, (lookup_eq_some sorted).mpr ⟨by simp, same⟩]
    simp
  · rw [found, eq_comm, lookup, List.find?_eq_none]
    intro x mem
    rcases List.mem_append.mp mem with mem | mem
    · simpa using (lt x mem).ne
    · simpa using (gt x mem).ne'

/-- Vectors that answer alike are one vector. -/
theorem ext_lookup {ys : List α} (sortedX : Sorted key xs) (sortedY : Sorted key ys)
    (same : ∀ k, lookup key k xs = lookup key k ys) : xs = ys := by
  have members (x : α) : x ∈ xs ↔ x ∈ ys := by
    have inX : lookup key (key x) xs = some x ↔ x ∈ xs := by simp [lookup_eq_some sortedX]
    have inY : lookup key (key x) ys = some x ↔ x ∈ ys := by simp [lookup_eq_some sortedY]
    rw [← inX, ← inY, same]
  have distinct {zs : List α} (sorted : Sorted key zs) : zs.Nodup := sorted.imp fun lt eq => lt.ne (congrArg key eq)
  have below (x y : α) (_ : x ∈ xs) (_ : y ∈ ys) (lt : key x < key y) (gt : key y < key x) : x = y := absurd gt lt.not_gt
  refine List.Perm.eq_of_pairwise below sortedX sortedY ?_
  exact (List.perm_ext_iff_of_nodup (distinct sortedX) (distinct sortedY)).mpr members

end SortedVec
