import PeerBeam.Lib.Metered
import PeerBeam.Lib.Run

/-! Holding a transfer to a speed: the bucket, the meter it is charged through, and the loop that waits.
Seconds and bytes of credit are rational numbers. -/
namespace PeerBeam.Transfer

def burstSeconds : ℚ := 1

/-- Bytes a second, where 0 is unlimited, and the bytes of credit there are. -/
structure Bucket where
  rate : ℕ
  allowance : ℚ

namespace Bucket
variable (b : Bucket)

def new (rate : ℕ) : Bucket := ⟨rate, rate * burstSeconds⟩

/-- An unlimited bucket has banked nothing, and starts full. -/
def setRate (rate : ℕ) : Bucket :=
  { rate := rate
    allowance := if b.rate = 0 ∧ rate ≠ 0 then rate * burstSeconds else b.allowance }

/-- How long to wait before so many bytes, the given time after the last call. -/
def take (bytes : ℕ) (elapsed : ℚ) : ℚ × Bucket :=
  if b.rate = 0 then (0, b)
  else
    let credit := min (b.allowance + elapsed * b.rate) (b.rate * burstSeconds)
    if bytes ≤ credit then (0, { b with allowance := credit - bytes })
    else ((bytes - credit) / b.rate, { b with allowance := 0 })

end Bucket

structure Meter where
  bucket : Bucket
  last : Option ℚ

structure TransferControl where
  rate : ℕ
  meter : Meter

namespace TransferControl
variable (ctrl : TransferControl)

def new : TransferControl := ⟨0, .new 0, none⟩

def setRateLimit (bytesPerSec : ℕ) : TransferControl :=
  { rate := bytesPerSec, meter := { ctrl.meter with bucket := ctrl.meter.bucket.setRate bytesPerSec } }

/-- The instant of the call is the next one's last, whatever is waited in between. -/
def throttle (now : ℚ) (bytes : ℕ) : ℚ × TransferControl :=
  if ctrl.rate = 0 then (0, ctrl)
  else
    let elapsed := ctrl.meter.last.elim 0 (now - ·)
    let out := ctrl.meter.bucket.take bytes elapsed
    (out.1, { ctrl with meter := ⟨out.2, some now⟩ })

end TransferControl

/-- The send loop: the instant it has come to, how long it slept since it was last metered, and what it
has sent when. -/
structure SendLoop where
  ctrl : TransferControl
  clock : ℚ
  slept : ℚ
  sent : List (ℚ × ℚ)

namespace SendLoop
variable (s : SendLoop)

def start (rate : ℕ) (t : ℚ) : SendLoop := ⟨TransferControl.new.setRateLimit rate, t, 0, []⟩

/-- The next chunk, so long after the last one was sent. -/
def step (turn : ℚ × ℕ) : SendLoop :=
  let out := s.ctrl.throttle (s.clock + turn.1) turn.2
  let sentAt := s.clock + turn.1 + out.1
  { ctrl := out.2, clock := sentAt, slept := out.1, sent := s.sent ++ [(sentAt, (turn.2 : ℚ))] }

/-- The loop has not slept since it was last metered, or it has been awake for a full burst. -/
def Awake (turn : ℚ × ℕ) : Prop := s.slept = 0 ∨ burstSeconds ≤ turn.1

def credit (turn : ℚ × ℕ) : ℚ :=
  let bucket := s.ctrl.meter.bucket
  min (bucket.allowance + s.ctrl.meter.last.elim 0 (s.clock + turn.1 - ·) * bucket.rate)
    (bucket.rate * burstSeconds)

/-- The loop at a rate: what the meter last saw, and no credit is left after a sleep. -/
structure At (rate : ℕ) : Prop where
  limit : s.ctrl.rate = rate
  rated : s.ctrl.meter.bucket.rate = rate
  nonneg : 0 ≤ s.ctrl.meter.bucket.allowance
  banked : s.ctrl.meter.bucket.allowance ≤ rate
  metered : (s.ctrl.meter.last = none ∧ s.slept = 0 ∧ s.ctrl.meter.bucket.allowance = rate) ∨
    s.ctrl.meter.last = some (s.clock - s.slept)
  rested : 0 ≤ s.slept
  spent : s.slept ≠ 0 → s.ctrl.meter.bucket.allowance = 0

variable {s} {rate : ℕ} {turn : ℚ × ℕ}

theorem at_start (rate : ℕ) (t : ℚ) : (start rate t).At rate := by
  have full : (TransferControl.new.setRateLimit rate).meter.bucket.allowance = rate := by
    show (if 0 = 0 ∧ rate ≠ 0 then (rate : ℚ) * 1 else (0 : ℕ) * 1) = rate
    by_cases zero : rate = 0
    · simp [zero]
    · simp [zero]
  refine ⟨rfl, rfl, ?_, full.le, .inl ⟨rfl, rfl, full⟩, le_rfl, fun h => absurd rfl h⟩
  exact full.symm ▸ Nat.cast_nonneg rate

section
variable (h : s.At rate) (forward : 0 ≤ turn.1)
include h

theorem At.credit_eq : s.credit turn = min (s.ctrl.meter.bucket.allowance +
    s.ctrl.meter.last.elim 0 (s.clock + turn.1 - ·) * rate) rate := by
  rw [credit, h.rated, burstSeconds, mul_one]

theorem At.credit_le : s.credit turn ≤ rate := by
  rw [h.credit_eq]
  exact min_le_right _ _

include forward

theorem At.elapsed_nonneg : 0 ≤ s.ctrl.meter.last.elim 0 (s.clock + turn.1 - ·) := by
  rcases h.metered with ⟨first, -⟩ | later
  · rw [first]
    exact le_rfl
  · rw [later]
    show 0 ≤ s.clock + turn.1 - (s.clock - s.slept)
    linarith [h.rested]

theorem At.credit_nonneg : 0 ≤ s.credit turn := by
  rw [h.credit_eq]
  exact le_min (add_nonneg h.nonneg (mul_nonneg (h.elapsed_nonneg forward) rate.cast_nonneg))
    rate.cast_nonneg

/-- A turn is given the credit of the time since the last chunk was sent, the sleep before it not
counted, exactly where it does not follow a sleep too soon. -/
theorem credit_once_iff (pos : 0 < rate) : s.credit turn =
    min (s.ctrl.meter.bucket.allowance + turn.1 * rate) rate ↔ s.Awake turn := by
  have rising : (0 : ℚ) < rate := Nat.cast_pos.mpr pos
  rw [h.credit_eq, Awake, burstSeconds]
  rcases h.metered with ⟨first, still, full⟩ | later
  · rw [first, full, Option.elim_none, zero_mul, add_zero, min_self]
    refine iff_of_true ?_ (.inl still)
    rw [min_eq_right (le_add_of_nonneg_right (mul_nonneg forward rising.le))]
  · have elapsed : s.ctrl.meter.last.elim 0 (s.clock + turn.1 - ·) = turn.1 + s.slept := by
      rw [later]
      show s.clock + turn.1 - (s.clock - s.slept) = _
      ring
    rw [elapsed]
    by_cases still : s.slept = 0
    · exact iff_of_true (by rw [still, add_zero]) (.inl still)
    · have slept : 0 < s.slept := lt_of_le_of_ne h.rested (Ne.symm still)
      rw [h.spent still, zero_add, zero_add]
      rcases le_or_gt 1 turn.1 with full | short
      · refine iff_of_true ?_ (.inr full)
        rw [min_eq_right (le_mul_of_one_le_left rising.le full),
          min_eq_right (le_mul_of_one_le_left rising.le (by linarith))]
      · refine iff_of_false (ne_of_gt ?_) (not_or.mpr ⟨still, not_le.mpr short⟩)
        have earned : turn.1 * rate < rate := mul_lt_of_lt_one_left rising short
        rw [min_eq_left earned.le]
        exact lt_min (mul_lt_mul_of_pos_right (lt_add_of_pos_right _ slept) rising) earned

theorem At.credit_earned (pos : 0 < rate) (awake : s.Awake turn) :
    s.credit turn ≤ s.ctrl.meter.bucket.allowance + rate * turn.1 := by
  rw [(credit_once_iff h forward pos).mpr awake, mul_comm (rate : ℚ)]
  exact min_le_left _ _

end

/-- Within the credit nothing is waited, and beyond it exactly what is short. -/
theorem At.throttle_eq (h : s.At rate) (pos : 0 < rate) :
    s.ctrl.throttle (s.clock + turn.1) turn.2 =
      (if turn.2 ≤ s.credit turn then 0 else (turn.2 - s.credit turn) / rate,
        { rate := rate
          meter := ⟨⟨rate, if turn.2 ≤ s.credit turn then s.credit turn - turn.2 else 0⟩,
            some (s.clock + turn.1)⟩ }) := by
  have nonzero : rate ≠ 0 := pos.ne'
  rw [TransferControl.throttle, h.limit, if_neg nonzero]
  simp only [Bucket.take, h.rated, if_neg nonzero, credit]
  split <;> rfl

theorem At.step (h : s.At rate) (pos : 0 < rate) : (s.step turn).At rate := by
  have rising : (0 : ℚ) < rate := Nat.cast_pos.mpr pos
  rw [SendLoop.step, h.throttle_eq pos]
  by_cases paid : (turn.2 : ℚ) ≤ s.credit turn
  · simp only [if_pos paid]
    refine ⟨rfl, rfl, sub_nonneg.mpr paid, ?_, .inr (by simp), le_rfl, fun slept => absurd rfl slept⟩
    exact (sub_le_self _ (Nat.cast_nonneg _)).trans h.credit_le
  · simp only [if_neg paid]
    refine ⟨rfl, rfl, le_rfl, rising.le, .inr (by simp), ?_, fun _ => rfl⟩
    exact div_nonneg (sub_nonneg.mpr (not_le.mp paid).le) rising.le

/-- What is sent is paid by the time it took and one burst. -/
theorem At.covered (h : s.At rate) (pos : 0 < rate) (forward : 0 ≤ turn.1) (small : turn.2 ≤ rate)
    (awake : s.Awake turn)
    (covered : Metered.Covered (rate : ℚ) rate s.sent s.clock s.ctrl.meter.bucket.allowance) :
    Metered.Covered (rate : ℚ) rate (s.step turn).sent (s.step turn).clock
      (s.step turn).ctrl.meter.bucket.allowance := by
  have rising : (0 : ℚ) < rate := Nat.cast_pos.mpr pos
  have size : (0 : ℚ) ≤ turn.2 := Nat.cast_nonneg _
  have waited := covered.pass rising.le forward (h.credit_nonneg forward) h.credit_le
    (h.credit_earned forward pos awake)
  rw [SendLoop.step, h.throttle_eq pos]
  by_cases paid : (turn.2 : ℚ) ≤ s.credit turn
  · simp only [if_pos paid, add_zero]
    exact waited.spend rising.le size paid
  · simp only [if_neg paid]
    have short : 0 ≤ (turn.2 - s.credit turn) / rate :=
      div_nonneg (sub_nonneg.mpr (not_le.mp paid).le) rising.le
    have earned : (turn.2 : ℚ) ≤ s.credit turn + rate * ((turn.2 - s.credit turn) / rate) := by
      rw [mul_div_cancel₀ _ rising.ne']
      linarith
    have slept := waited.pass rising.le short size (Nat.cast_le.mpr small) earned
    simpa using slept.spend rising.le size le_rfl

/-- No chunk waits longer than its own bytes take. -/
theorem At.clock_le (h : s.At rate) (pos : 0 < rate) (forward : 0 ≤ turn.1) :
    rate * ((s.step turn).clock - s.clock) ≤ rate * turn.1 + turn.2 := by
  have rising : (0 : ℚ) < rate := Nat.cast_pos.mpr pos
  have size : (0 : ℚ) ≤ turn.2 := Nat.cast_nonneg _
  rw [SendLoop.step, h.throttle_eq pos]
  by_cases paid : (turn.2 : ℚ) ≤ s.credit turn
  · simp only [if_pos paid]
    linarith
  · simp only [if_neg paid]
    have split : rate * (s.clock + turn.1 + (turn.2 - s.credit turn) / rate - s.clock) =
        rate * turn.1 + (turn.2 - s.credit turn) := by
      rw [add_sub_right_comm, mul_add, mul_div_cancel₀ _ rising.ne', add_sub_cancel_left]
    rw [split]
    linarith [h.credit_nonneg forward]

/-- A run that never pauses between chunks is not slower than the limit. -/
theorem At.saturated (h : s.At rate) (pos : 0 < rate) {turns : List (ℚ × ℕ)}
    (steady : ∀ turn ∈ turns, turn.1 = 0) :
    rate * ((turns.foldl SendLoop.step s).clock - s.clock) ≤ (turns.map Prod.snd).sum := by
  induction turns generalizing s with
  | nil => simp
  | cons turn turns ih =>
    have next : (s.step turn).At rate := h.step pos
    have rest := ih next fun turn mem => steady turn (List.mem_cons_of_mem _ mem)
    have now := steady turn List.mem_cons_self
    have here := h.clock_le pos now.ge
    rw [List.foldl_cons, List.map_cons, List.sum_cons, Nat.cast_add]
    rw [now, mul_zero, zero_add] at here
    have split : rate * ((turns.foldl SendLoop.step (s.step turn)).clock - s.clock) =
        rate * ((turns.foldl SendLoop.step (s.step turn)).clock - (s.step turn).clock) +
          rate * ((s.step turn).clock - s.clock) := by
      rw [← mul_add, sub_add_sub_cancel]
    rw [split, add_comm]
    exact add_le_add here rest

/-- Where no chunk follows a sleep by less than a second, an interval of a run carries no more than the
rate allows it and one burst; and a run that never pauses carries what the rate allows. -/
theorem speed_limit_holds (rate : ℕ) (pos : 0 < rate) (t : ℚ) (turns : List (ℚ × ℕ))
    (fits : ∀ turn ∈ turns, 0 ≤ turn.1 ∧ turn.2 ≤ rate)
    (awake : TransitionRun.Along step Awake (start rate t) turns) :
    let s := turns.foldl step (start rate t)
    (∀ a b, a ≤ b → Metered.amountIn s.sent a b ≤ rate + rate * (b - a)) ∧
      ((∀ turn ∈ turns, turn.1 = 0) → rate * (s.clock - t) ≤ (turns.map Prod.snd).sum) := by
  intro s
  refine ⟨?_, fun steady => (at_start rate t).saturated pos steady⟩
  have rising : (0 : ℚ) ≤ rate := Nat.cast_nonneg rate
  have covered : s.At rate ∧
      Metered.Covered (rate : ℚ) rate s.sent s.clock s.ctrl.meter.bucket.allowance := by
    have along : TransitionRun.Along step
        (fun s turn => s.Awake turn ∧ 0 ≤ turn.1 ∧ turn.2 ≤ rate) (start rate t) turns := by
      rw [TransitionRun.along_iff] at awake ⊢
      intro pre turn post split
      refine ⟨awake pre turn post split, fits turn ?_⟩
      rw [split]
      exact List.mem_append_right _ List.mem_cons_self
    refine along.invariant (I := fun s => s.At rate ∧
      Metered.Covered (rate : ℚ) rate s.sent s.clock s.ctrl.meter.bucket.allowance)
      ⟨at_start rate t, ?_⟩ ?_
    · have begun := at_start rate t
      exact Metered.Covered.start t begun.nonneg begun.banked rising
    · rintro s turn ⟨h, covered⟩ ⟨awake, forward, small⟩
      exact ⟨h.step pos, h.covered pos forward small awake covered⟩
  exact covered.2.within

/-- A file kept to ten bytes a second, sent at once and again after a second's pause. -/
theorem speed_limit_paused :
    let s := [((0 : ℚ), 10), (0, 10), (1, 10)].foldl step (start 10 0)
    (∀ a b, a ≤ b → Metered.amountIn s.sent a b ≤ (10 : ℕ) + (10 : ℕ) * (b - a)) ∧
      ((∀ turn ∈ [((0 : ℚ), 10), (0, 10), (1, 10)], turn.1 = 0) →
        (10 : ℕ) * (s.clock - 0) ≤ (([((0 : ℚ), 10), (0, 10), (1, 10)].map Prod.snd).sum : ℕ)) :=
  speed_limit_holds 10 (by decide) 0 [(0, 10), (0, 10), (1, 10)] (by decide)
    ⟨.inl rfl, .inl (by decide +kernel), .inr (by decide), trivial⟩

/-- Chunks of a full second each, sent without a pause: five seconds carry eleven of them, the sleep
before every second one bought twice. -/
theorem saturated_runs_over :
    Metered.amountIn ((List.replicate 11 ((0 : ℚ), 10)).foldl step (start 10 0)).sent 0 5 >
      10 * 5 + 10 + 10 := by
  decide +kernel

end SendLoop

end PeerBeam.Transfer
