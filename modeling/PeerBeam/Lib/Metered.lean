import Mathlib.Algebra.Order.Field.Basic
import Mathlib.Algebra.BigOperators.Group.List.Basic
import Mathlib.Algebra.Order.BigOperators.Group.List
import Mathlib.Tactic.Linarith
import Mathlib.Tactic.Ring

/-! Amounts that leave at instants, metered by a credit that grows with time up to a burst and is spent
as they leave. What leaves in any interval is bounded by the time in it and one burst. -/
namespace Metered
variable {K : Type*} [Field K] [LinearOrder K]

/-- What has left by the instants of an interval, its ends included. -/
def amountIn (log : List (K × K)) (a b : K) : K :=
  ((log.filter fun out => a ≤ out.1 ∧ out.1 ≤ b).map Prod.snd).sum

theorem amountIn_append (log more : List (K × K)) (a b : K) :
    amountIn (log ++ more) a b = amountIn log a b + amountIn more a b := by
  rw [amountIn, List.filter_append, List.map_append, List.sum_append]
  rfl

theorem amountIn_singleton (t n a b : K) :
    amountIn [(t, n)] a b = if a ≤ t ∧ t ≤ b then n else 0 := by
  rw [amountIn, List.filter_singleton]
  by_cases here : a ≤ t ∧ t ≤ b
  · rw [if_pos here, decide_eq_true here]
    exact add_zero n
  · rw [if_neg here, decide_eq_false here]
    rfl

/-- After the last departure an interval ends where it may. -/
theorem amountIn_of_le {log : List (K × K)} {clock : K} (h : ∀ out ∈ log, out.1 ≤ clock) (a : K) {b : K}
    (late : clock ≤ b) : amountIn log a b = amountIn log a clock := by
  rw [amountIn, amountIn]
  congr 2
  refine List.filter_congr fun out mem => ?_
  have before := h out mem
  simp only [before, before.trans late, and_true]

theorem amountIn_of_lt {log : List (K × K)} {clock : K} (h : ∀ out ∈ log, out.1 ≤ clock) {a : K} (b : K)
    (late : clock < a) : amountIn log a b = 0 := by
  rw [amountIn, List.filter_eq_nil_iff.mpr]
  · rfl
  · intro out mem here
    exact absurd (of_decide_eq_true here).1 (not_le.mpr ((h out mem).trans_lt late))

variable [IsStrictOrderedRing K]

/-- What has left since any instant, with the credit that is left, is covered by the time since then and
one burst. -/
structure Covered (rate burst : K) (log : List (K × K)) (clock credit : K) : Prop where
  nonneg : 0 ≤ credit
  bounded : credit ≤ burst
  past : ∀ out ∈ log, out.1 ≤ clock
  amounts : ∀ out ∈ log, 0 ≤ out.2
  since : ∀ a ≤ clock, amountIn log a clock + credit ≤ burst + rate * (clock - a)
  within : ∀ a b, a ≤ b → amountIn log a b ≤ burst + rate * (b - a)

namespace Covered
variable {rate burst clock credit : K} {log : List (K × K)}

theorem start (clock : K) (nonneg : 0 ≤ credit) (bounded : credit ≤ burst) (rising : 0 ≤ rate) :
    Covered rate burst [] clock credit := by
  have later {a b : K} (order : a ≤ b) : 0 ≤ rate * (b - a) := mul_nonneg rising (sub_nonneg.mpr order)
  refine ⟨nonneg, bounded, by simp, by simp, fun a before => ?_, fun a b order => ?_⟩
  · have := later before
    simp only [amountIn, List.filter_nil, List.map_nil, List.sum_nil]
    linarith
  · have := later order
    simp only [amountIn, List.filter_nil, List.map_nil, List.sum_nil]
    linarith

/-- Time passes, and no more credit is given than it earns. -/
theorem pass (h : Covered rate burst log clock credit) (rising : 0 ≤ rate) {time credit' : K}
    (forward : 0 ≤ time) (nonneg : 0 ≤ credit') (bounded : credit' ≤ burst)
    (earned : credit' ≤ credit + rate * time) : Covered rate burst log (clock + time) credit' := by
  have order : clock ≤ clock + time := le_add_of_nonneg_right forward
  refine ⟨nonneg, bounded, fun out mem => (h.past out mem).trans order, h.amounts, fun a before => ?_,
    h.within⟩
  rw [amountIn_of_le h.past a order]
  rcases le_or_gt a clock with early | late
  · have since := h.since a early
    have split : rate * (clock + time - a) = rate * (clock - a) + rate * time := by ring
    linarith
  · rw [amountIn_of_lt h.past _ late]
    have := mul_nonneg rising (sub_nonneg.mpr before)
    linarith

/-- What leaves now is paid for. -/
theorem spend (h : Covered rate burst log clock credit) (rising : 0 ≤ rate) {n : K} (amount : 0 ≤ n)
    (paid : n ≤ credit) : Covered rate burst (log ++ [(clock, n)]) clock (credit - n) := by
  refine ⟨sub_nonneg.mpr paid, (sub_le_self credit amount).trans h.bounded, ?_, ?_, ?_, ?_⟩
  · intro out mem
    rcases List.mem_append.mp mem with mem | mem
    · exact h.past out mem
    · rw [List.mem_singleton.mp mem]
  · intro out mem
    rcases List.mem_append.mp mem with mem | mem
    · exact h.amounts out mem
    · rw [List.mem_singleton.mp mem]
      exact amount
  · intro a before
    rw [amountIn_append, amountIn_singleton, if_pos ⟨before, le_rfl⟩]
    linarith [h.since a before]
  · intro a b order
    rw [amountIn_append, amountIn_singleton]
    split
    next here =>
      rw [amountIn_of_le h.past a here.2]
      have since := h.since a here.1
      have later := mul_le_mul_of_nonneg_left (sub_le_sub_right here.2 a) rising
      linarith
    next => simpa using h.within a b order

end Covered

end Metered
