import Mathlib.Data.List.Basic
import PeerBeam.Lib.Run

/-! Folds over items whose steps leave something alone, in particular over keyed items where
a step changes only what belongs to its own key. -/
namespace KeyedFold
variable {σ ι κ β : Type*} {step : σ → ι → σ} {key : ι → κ} {look : σ → κ → β}

/-- What no item changes the whole fold does not change. -/
theorem foldl_unchanged (observe : σ → β) {items : List ι}
    (unchanged : ∀ i ∈ items, ∀ s, observe (step s i) = observe s) (s : σ) :
    observe (items.foldl step s) = observe s := by
  induction items generalizing s with
  | nil => rfl
  | cons i items ih =>
    obtain ⟨first, rest⟩ := List.forall_mem_cons.mp unchanged
    rw [List.foldl_cons, ih rest, first]

def Local (step : σ → ι → σ) (key : ι → κ) (look : σ → κ → β) : Prop :=
  ∀ s i k, key i ≠ k → look (step s i) k = look s k

/-- A key no item has is left alone by the whole fold. -/
theorem look_of_absent (isLocal : Local step key look) (s : σ) {items : List ι} {k : κ}
    (absent : ∀ i ∈ items, key i ≠ k) : look (items.foldl step s) k = look s k :=
  foldl_unchanged (look · k) (fun i mem s => isLocal s i k (absent i mem)) s

/-- Where keys are distinct, an item's key ends as its own step leaves it, and that
step still found there what the fold began with. -/
theorem look_of_mem (isLocal : Local step key look) (s : σ) {items : List ι}
    (distinct : items.Pairwise (key · ≠ key ·)) {i : ι} (mem : i ∈ items) :
    ∃ s', look s' (key i) = look s (key i) ∧
      look (items.foldl step s) (key i) = look (step s' i) (key i) := by
  induction items generalizing s with
  | nil => cases mem
  | cons j items ih =>
    obtain ⟨head, rest⟩ := List.pairwise_cons.mp distinct
    rcases List.mem_cons.mp mem with rfl | later
    · exact ⟨s, rfl, look_of_absent isLocal _ fun j' mem' => (head j' mem').symm⟩
    · obtain ⟨s', begun, ended⟩ := ih (step s j) rest later
      exact ⟨s', begun.trans (isLocal s j _ (head i later)), ended⟩

/-- What an item's own step establishes, from any state that still has its key as the
fold began, and what no step destroys, holds when the fold ends. -/
theorem holds_of_mem (isLocal : Local step key look) (s : σ) {items : List ι}
    (distinct : items.Pairwise (key · ≠ key ·)) {i : ι} (mem : i ∈ items) {P : σ → Prop}
    (establish : ∀ s', look s' (key i) = look s (key i) → P (step s' i))
    (preserve : ∀ s' j, P s' → P (step s' j)) : P (items.foldl step s) := by
  induction items generalizing s with
  | nil => cases mem
  | cons j items ih =>
    obtain ⟨head, rest⟩ := List.pairwise_cons.mp distinct
    rcases List.mem_cons.mp mem with rfl | later
    · exact TransitionRun.invariant (establish s rfl) preserve items
    · exact ih (step s j) rest later fun s' begun =>
        establish s' (begun.trans (isLocal s j _ (head i later)))

/-- A fold whose steps fail at the items that are not taken ends at the first of them, with
what that step leaves. -/
theorem foldlM_stops {ε : Type*} {tryStep : σ → ι → Except ε σ} {left : σ → ι → ε} {takes : ι → Bool}
    (stops : ∀ s i, tryStep s i = if takes i then .ok (step s i) else .error (left s i)) (items : List ι) (s : σ) :
    items.foldlM tryStep s = (items.dropWhile takes).head?.elim (.ok (items.foldl step s))
      fun i => .error (left ((items.takeWhile takes).foldl step s) i) := by
  induction items generalizing s with
  | nil => rfl
  | cons i items ih =>
    rw [List.foldlM_cons, stops]
    by_cases taken : takes i
    · rw [if_pos taken, List.dropWhile_cons_of_pos taken, List.takeWhile_cons_of_pos taken]
      exact ih (step s i)
    · rw [if_neg taken, List.dropWhile_cons_of_neg taken, List.takeWhile_cons_of_neg taken]
      rfl

structure Framed (step : σ → ι → σ) (places : ι → List κ) (look : σ → κ → β) : Prop where
  outside : ∀ s i k, k ∉ places i → look (step s i) k = look s k
  inside : ∀ s s' i, (∀ k ∈ places i, look s k = look s' k) →
    ∀ k ∈ places i, look (step s i) k = look (step s' i) k

section
variable {places : ι → List κ} (framed : Framed step places look)
include framed

theorem Framed.untouched (s : σ) {items : List ι} {k : κ} (absent : ∀ i ∈ items, k ∉ places i) :
    look (items.foldl step s) k = look s k :=
  foldl_unchanged (look · k) (fun i mem s => framed.outside s i k (absent i mem)) s

/-- Where no place belongs to two items, an item leaves its places as it would alone. -/
theorem Framed.alone (s : σ) {items : List ι} (distinct : (items.flatMap places).Nodup) {i : ι}
    (mem : i ∈ items) {k : κ} (own : k ∈ places i) :
    look (items.foldl step s) k = look (step s i) k := by
  induction items generalizing s with
  | nil => cases mem
  | cons j items ih =>
    rw [List.flatMap_cons] at distinct
    obtain ⟨-, rest, apart⟩ := List.nodup_append.mp distinct
    have foreign (k : κ) (first : k ∈ places j) (i : ι) (later : i ∈ items) : k ∉ places i :=
      fun mem => apart k first k (List.mem_flatMap.mpr ⟨i, later, mem⟩) rfl
    rcases List.mem_cons.mp mem with rfl | later
    · exact framed.untouched _ (foreign k own)
    · rw [List.foldl_cons, ih _ rest later]
      exact framed.inside _ _ i (fun k' mem' => framed.outside s j k' fun first =>
        foreign k' first i later mem') k own

end

end KeyedFold
