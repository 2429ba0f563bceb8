import Mathlib.Data.List.Nodup

/-! Scans that pass over what carries a key they have met. What carries no key is never passed over. -/
namespace FirstSeen
variable {α κ : Type*} [DecidableEq κ] (key : α → Option κ)

/-- The elements that are not passed over, where the keys in `seen` were met before. -/
def keep (seen : List κ) : List α → List α
  | [] => []
  | a :: rest =>
    match key a with
    | none => a :: keep seen rest
    | some k => if k ∈ seen then keep seen rest else a :: keep (k :: seen) rest

variable {key}

theorem keep_cons_of_none {a : α} (free : key a = none) (seen : List κ) (rest : List α) :
    keep key seen (a :: rest) = a :: keep key seen rest := by
  rw [keep, free]

theorem keep_cons_of_mem {a : α} {k : κ} (keyed : key a = some k) {seen : List κ} (met : k ∈ seen) (rest : List α) :
    keep key seen (a :: rest) = keep key seen rest := by
  rw [keep, keyed]
  exact if_pos met

theorem keep_cons_of_not_mem {a : α} {k : κ} (keyed : key a = some k) {seen : List κ} (new : k ∉ seen)
    (rest : List α) : keep key seen (a :: rest) = a :: keep key (k :: seen) rest := by
  rw [keep, keyed]
  exact if_neg new

/-- Only which keys were met matters. -/
theorem keep_congr {seen seen' : List κ} (same : ∀ k, k ∈ seen ↔ k ∈ seen') (l : List α) :
    keep key seen l = keep key seen' l := by
  induction l generalizing seen seen' with
  | nil => rfl
  | cons a rest ih =>
    cases keyed : key a with
    | none => rw [keep_cons_of_none keyed, keep_cons_of_none keyed, ih same]
    | some k =>
      by_cases met : k ∈ seen
      · rw [keep_cons_of_mem keyed met, keep_cons_of_mem keyed ((same k).mp met), ih same]
      · rw [keep_cons_of_not_mem keyed met, keep_cons_of_not_mem keyed (mt (same k).mpr met)]
        refine congrArg (a :: ·) (ih fun k' => ?_)
        rw [List.mem_cons, List.mem_cons, same]

/-- A scan goes on with the keys it has met. -/
theorem keep_append (seen : List κ) (l l' : List α) :
    keep key seen (l ++ l') = keep key seen l ++ keep key (l.filterMap key ++ seen) l' := by
  induction l generalizing seen with
  | nil => rfl
  | cons a rest ih =>
    rw [List.cons_append]
    cases keyed : key a with
    | none => rw [keep_cons_of_none keyed, keep_cons_of_none keyed, ih, List.filterMap_cons_none keyed, List.cons_append]
    | some k =>
      rw [List.filterMap_cons_some keyed]
      by_cases met : k ∈ seen
      · rw [keep_cons_of_mem keyed met, keep_cons_of_mem keyed met, ih]
        refine congrArg (_ ++ ·) (keep_congr (fun k' => ?_) l')
        rw [List.cons_append, List.mem_cons, iff_or_self]
        rintro rfl
        exact List.mem_append_right _ met
      · rw [keep_cons_of_not_mem keyed met, keep_cons_of_not_mem keyed met, ih, List.cons_append]
        refine congrArg (fun kept => a :: (_ ++ kept)) (keep_congr (fun k' => ?_) l')
        simp only [List.mem_append, List.mem_cons]
        rw [or_left_comm, or_assoc]

theorem keep_sublist (seen : List κ) (l : List α) : (keep key seen l).Sublist l := by
  induction l generalizing seen with
  | nil => exact .slnil
  | cons a rest ih =>
    cases keyed : key a with
    | none =>
      rw [keep_cons_of_none keyed]
      exact (ih seen).cons_cons a
    | some k =>
      by_cases met : k ∈ seen
      · rw [keep_cons_of_mem keyed met]
        exact (ih seen).cons a
      · rw [keep_cons_of_not_mem keyed met]
        exact (ih (k :: seen)).cons_cons a

theorem not_mem_of_mem_keep {seen : List κ} {l : List α} {a : α} (mem : a ∈ keep key seen l) {k : κ}
    (keyed : key a = some k) : k ∉ seen := by
  induction l generalizing seen with
  | nil => cases mem
  | cons b rest ih =>
    cases first : key b with
    | none =>
      rw [keep_cons_of_none first] at mem
      rcases List.mem_cons.mp mem with rfl | mem
      · cases keyed.symm.trans first
      · exact ih mem
    | some k' =>
      by_cases met : k' ∈ seen
      · rw [keep_cons_of_mem first met] at mem
        exact ih mem
      · rw [keep_cons_of_not_mem first met] at mem
        rcases List.mem_cons.mp mem with rfl | mem
        · cases keyed.symm.trans first
          exact met
        · exact fun before => ih mem (List.mem_cons_of_mem _ before)

/-- What is kept under a key is kept once. -/
theorem keep_apart (seen : List κ) (l : List α) :
    (keep key seen l).Pairwise fun a b => ∀ k, key a = some k → key b ≠ some k := by
  induction l generalizing seen with
  | nil => exact .nil
  | cons a rest ih =>
    cases keyed : key a with
    | none =>
      rw [keep_cons_of_none keyed]
      exact List.pairwise_cons.mpr ⟨fun b _ k here => (nomatch here.symm.trans keyed), ih seen⟩
    | some k =>
      by_cases met : k ∈ seen
      · rw [keep_cons_of_mem keyed met]
        exact ih seen
      · rw [keep_cons_of_not_mem keyed met]
        refine List.pairwise_cons.mpr ⟨fun b mem k' here there => ?_, ih (k :: seen)⟩
        cases keyed.symm.trans here
        exact not_mem_of_mem_keep mem there List.mem_cons_self

/-- Of each key that was not met before, something is kept. -/
theorem exists_kept {seen : List κ} {l : List α} {a : α} (mem : a ∈ l) {k : κ} (keyed : key a = some k)
    (new : k ∉ seen) : ∃ b ∈ keep key seen l, key b = some k := by
  induction l generalizing seen with
  | nil => cases mem
  | cons b rest ih =>
    rcases List.mem_cons.mp mem with rfl | mem
    · rw [keep_cons_of_not_mem keyed new]
      exact ⟨a, List.mem_cons_self, keyed⟩
    · cases first : key b with
      | none =>
        rw [keep_cons_of_none first]
        obtain ⟨c, kept, same⟩ := ih mem new
        exact ⟨c, List.mem_cons_of_mem _ kept, same⟩
      | some k' =>
        by_cases met : k' ∈ seen
        · rw [keep_cons_of_mem first met]
          exact ih mem new
        · rw [keep_cons_of_not_mem first met]
          by_cases same : k = k'
          · exact ⟨b, List.mem_cons_self, first.trans (congrArg some same.symm)⟩
          · obtain ⟨c, kept, here⟩ := ih mem (fun before => (List.mem_cons.mp before).elim same new)
            exact ⟨c, List.mem_cons_of_mem _ kept, here⟩

end FirstSeen
