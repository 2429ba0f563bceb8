import Mathlib.Data.Set.Insert

/-! The membership of one group, seen from outside: who holds it, whom each holder names, and
whose announcements are under way to whom. -/
namespace PeerBeam.Groups
variable {δ : Type*}

structure View (δ : Type*) where
  holds : Set δ
  names : δ → Set δ
  joining : δ → Set δ
  leaving : δ → Set δ

namespace View

/-- Whatever a holder's roster gets wrong, an announcement that is under way to it will mend, and
no announcement is out of date. -/
structure Consistent (v : View δ) : Prop where
  named : ∀ d ∈ v.holds, ∀ x ∈ v.names d, x ∈ v.holds ∨ x ∈ v.leaving d
  heard : ∀ d ∈ v.holds, ∀ x ∈ v.holds, x ∈ v.names d ∨ x ∈ v.joining d
  left : ∀ d ∈ v.holds, ∀ x ∈ v.leaving d, x ∉ v.holds
  joined : ∀ d ∈ v.holds, ∀ x ∈ v.joining d, x ∈ v.holds

variable {v v' : View δ}

/-- Once nothing is under way to a holder, it names exactly the holders. -/
theorem Consistent.names_eq (h : v.Consistent) {d : δ} (holder : d ∈ v.holds)
    (joining : v.joining d = ∅) (leaving : v.leaving d = ∅) : v.names d = v.holds := by
  ext x
  constructor
  · intro named
    rcases h.named d holder x named with here | gone
    · exact here
    · rw [leaving] at gone
      exact absurd gone (Set.notMem_empty x)
  · intro here
    rcases h.heard d holder x here with named | coming
    · exact named
    · rw [joining] at coming
      exact absurd coming (Set.notMem_empty x)

theorem consistent_of_unheld (none : v.holds = ∅) : v.Consistent := by
  have empty (d : δ) : d ∉ v.holds := none ▸ Set.notMem_empty d
  exact ⟨fun d h => absurd h (empty d), fun d h => absurd h (empty d),
    fun d h => absurd h (empty d), fun d h => absurd h (empty d)⟩

/-- A group that nobody held, and of which nothing is under way. -/
theorem consistent_of_founded {x : δ} (holds : v.holds = {x}) (names : v.names x = {x})
    (joining : v.joining x = ∅) (leaving : v.leaving x = ∅) : v.Consistent := by
  refine ⟨?_, ?_, ?_, ?_⟩ <;> rw [holds] <;> rintro d rfl y
  · rw [names]
    exact .inl
  · rw [names]
    exact .inl
  · rw [leaving]
    exact fun under => absurd under (Set.notMem_empty y)
  · rw [joining]
    exact fun under => absurd under (Set.notMem_empty y)

/-- A device joins with a roster that is exactly the holders, and announces itself to them. -/
theorem Consistent.join (h : v.Consistent) {x : δ} (holds : v'.holds = insert x v.holds)
    (own : v'.names x = insert x v.holds) (names : ∀ d, d ≠ x → v'.names d = v.names d)
    (joining : ∀ d y, y ∈ v'.joining d ↔ y ∈ v.joining d ∨ y = x ∧ d ∈ v.holds)
    (leaving : v'.leaving = v.leaving) (departed : ∀ y ∈ v.leaving x, y ∉ insert x v.holds)
    (arrived : ∀ y ∈ v.joining x, y ∈ insert x v.holds)
    (settled : ∀ d ∈ v.holds, x ∉ v.leaving d) : v'.Consistent := by
  refine ⟨?_, ?_, ?_, ?_⟩ <;> rw [holds] <;> intro d holder y
  · rw [leaving]
    intro named
    by_cases same : d = x
    · rw [same, own] at named
      exact .inl named
    · rw [names d same] at named
      exact (h.named d (holder.resolve_left same) y named).imp_left .inr
  · intro here
    rw [joining]
    by_cases same : d = x
    · rw [same, own]
      exact .inl here
    · have old := holder.resolve_left same
      rw [names d same]
      rcases here with rfl | here
      · exact .inr (.inr ⟨rfl, old⟩)
      · exact (h.heard d old y here).imp_right .inl
  · rw [leaving]
    intro under
    by_cases same : d = x
    · subst same
      exact departed y under
    · have old := holder.resolve_left same
      rintro (rfl | here)
      · exact settled d old under
      · exact h.left d old y under here
  · rw [joining]
    rintro (under | ⟨rfl, -⟩)
    · by_cases same : d = x
      · subst same
        exact arrived y under
      · exact .inr (h.joined d (holder.resolve_left same) y under)
    · exact Set.mem_insert y v.holds

/-- A holder leaves that every other holder has heard of, and tells all of them. -/
theorem Consistent.leave (h : v.Consistent) {x : δ} (holds : v'.holds = v.holds \ {x})
    (names : ∀ d, d ≠ x → v'.names d = v.names d) (joining : v'.joining = v.joining)
    (leaving : ∀ d y, y ∈ v'.leaving d ↔ y ∈ v.leaving d ∨ y = x ∧ d ∈ v.names x ∧ d ≠ x)
    (known : ∀ d ∈ v.holds, d ≠ x → d ∈ v.names x ∧ x ∉ v.joining d) : v'.Consistent := by
  refine ⟨?_, ?_, ?_, ?_⟩ <;> rw [holds] <;> rintro d ⟨holder, other⟩ y
  · rw [names d other, leaving]
    intro named
    by_cases same : y = x
    · exact .inr (.inr ⟨same, (known d holder other).1, other⟩)
    · exact (h.named d holder y named).imp (fun here => ⟨here, same⟩) .inl
  · rintro ⟨here, -⟩
    rw [names d other, joining]
    exact h.heard d holder y here
  · rw [leaving]
    rintro (under | ⟨same, -⟩)
    · exact fun here => h.left d holder y under here.1
    · exact fun here => here.2 same
  · rw [joining]
    intro under
    refine ⟨h.joined d holder y under, fun same : y = x => ?_⟩
    exact (known d holder other).2 (same ▸ under)

/-- An announcement arrives: nobody holds the group who did not, and the receiver alone changes
its roster, by the sender alone. -/
theorem Consistent.arrive (h : v.Consistent) {x r : δ} (holds : v'.holds = v.holds)
    (names : ∀ d y, y ≠ x ∨ d ≠ r → (y ∈ v'.names d ↔ y ∈ v.names d))
    (joining : ∀ d y, y ∈ v'.joining d → y ∈ v.joining d)
    (leaving : ∀ d y, y ∈ v'.leaving d → y ∈ v.leaving d)
    (others : ∀ d y, y ≠ x ∨ d ≠ r →
      (y ∈ v.joining d → y ∈ v'.joining d) ∧ (y ∈ v.leaving d → y ∈ v'.leaving d))
    (sender : r ∈ v.holds → (x ∈ v'.names r → x ∈ v.holds ∨ x ∈ v'.leaving r) ∧
      (x ∈ v.holds → x ∈ v'.names r ∨ x ∈ v'.joining r)) : v'.Consistent := by
  refine ⟨?_, ?_, ?_, ?_⟩ <;> rw [holds] <;> intro d holder y
  · intro named
    by_cases same : y = x ∧ d = r
    · obtain ⟨rfl, rfl⟩ := same
      exact (sender holder).1 named
    · have elsewhere : y ≠ x ∨ d ≠ r := not_and_or.mp same
      exact (h.named d holder y ((names d y elsewhere).mp named)).imp_right (others d y elsewhere).2
  · intro here
    by_cases same : y = x ∧ d = r
    · obtain ⟨rfl, rfl⟩ := same
      exact (sender holder).2 here
    · have elsewhere : y ≠ x ∨ d ≠ r := not_and_or.mp same
      exact (h.heard d holder y here).imp (names d y elsewhere).mpr (others d y elsewhere).1
  · exact fun under => h.left d holder y (leaving d y under)
  · exact fun under => h.joined d holder y (joining d y under)

end View

end PeerBeam.Groups
