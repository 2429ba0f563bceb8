import Mathlib.Data.Nat.Basic
import Mathlib.Data.List.Basic
import Mathlib.Tactic.IntervalCases

/-! Numerals with leading zeros: of one width they are in the order of the numbers. -/
namespace Numerals

/-- At least `width` characters. -/
def padded (base width n : Nat) : List Char := List.leftpad width '0' (Nat.toDigits base n)

/-- The low `width` digits. -/
def fixed (base : Nat) : Nat → Nat → List Char
  | 0, _ => []
  | width + 1, n => fixed base width (n / base) ++ [Nat.digitChar (n % base)]

@[simp]
theorem length_fixed (base width n : Nat) : (fixed base width n).length = width := by
  induction width generalizing n with
  | zero => rfl
  | succ width ih => rw [fixed, List.length_append, ih, List.length_singleton]

@[simp]
theorem length_padded (base width n : Nat) :
    (padded base width n).length = max width (Nat.toDigits base n).length := List.length_leftpad

theorem leftpad_concat (width : Nat) (digits : List Char) (last : Char) :
    List.leftpad (width + 1) '0' (digits ++ [last]) = List.leftpad width '0' digits ++ [last] := by
  rw [List.leftpad, List.leftpad, List.length_append, List.length_singleton, Nat.add_sub_add_right, List.append_assoc]

/-- A number that fits is written with zeros in front. -/
theorem padded_eq_fixed {base width n : Nat} (large : 1 < base) (fits : n < base ^ (width + 1)) :
    padded base (width + 1) n = fixed base (width + 1) n := by
  induction width generalizing n with
  | zero =>
    rw [Nat.zero_add, Nat.pow_one] at fits
    rw [padded, Nat.toDigits_of_lt_base fits, fixed, fixed, Nat.mod_eq_of_lt fits]
    rfl
  | succ width ih =>
    have rest : n / base < base ^ (width + 1) := Nat.div_lt_of_lt_mul (by rwa [Nat.pow_succ, Nat.mul_comm] at fits)
    rw [fixed, ← ih rest, padded, padded]
    by_cases small : n < base
    · have one : Nat.toDigits base n = [] ++ [Nat.digitChar n] := Nat.toDigits_of_lt_base small
      rw [one, leftpad_concat, Nat.div_eq_of_lt small, Nat.mod_eq_of_lt small, Nat.toDigits_zero]
      refine congrArg (· ++ [Nat.digitChar n]) ?_
      rw [List.leftpad, List.leftpad, List.length_nil, List.length_singleton, List.append_nil, Nat.add_sub_cancel,
        Nat.sub_zero, List.replicate_succ']
    · rw [Nat.toDigits_of_base_le large (Nat.not_lt.mp small), leftpad_concat]

theorem digitChar_lt_digitChar {d e : Nat} (small : e < 16) (lt : d < e) : Nat.digitChar d < Nat.digitChar e := by
  interval_cases e <;> interval_cases d <;> decide

/-- What comes after lists of one length does not matter to their order. -/
theorem append_lt_append {α : Type*} [LT α] {l l' : List α} (lt : l < l') (same : l.length = l'.length)
    (rest rest' : List α) : l ++ rest < l' ++ rest' := by
  induction l generalizing l' with
  | nil =>
    rw [List.eq_nil_of_length_eq_zero same.symm] at lt
    cases lt
  | cons a l ih =>
    cases l' with
    | nil => cases lt
    | cons a' l' =>
      rw [List.cons_append, List.cons_append, List.cons_lt_cons_iff]
      exact (List.cons_lt_cons_iff.mp lt).imp_right fun both => ⟨both.1, ih both.2 (Nat.succ.inj same)⟩

theorem fixed_lt_fixed {base width n m : Nat} (pos : 0 < base) (small : base ≤ 16) (fits : m < base ^ width)
    (lt : n < m) : fixed base width n < fixed base width m := by
  induction width generalizing n m with
  | zero =>
    rw [Nat.pow_zero] at fits
    omega
  | succ width ih =>
    rw [fixed, fixed]
    rcases (Nat.div_le_div_right lt.le : n / base ≤ m / base).lt_or_eq with less | same
    · refine append_lt_append (ih ?_ less) (by rw [length_fixed, length_fixed]) _ _
      exact Nat.div_lt_of_lt_mul (by rwa [Nat.pow_succ, Nat.mul_comm] at fits)
    · rw [same]
      refine List.append_left_lt (List.cons_lt_cons_iff.mpr (.inl ?_))
      refine digitChar_lt_digitChar ((Nat.mod_lt m pos).trans_le small) ?_
      have split := Nat.div_add_mod n base
      have split' := Nat.div_add_mod m base
      rw [same] at split
      omega

theorem padded_length_pos (base width n : Nat) : 0 < (padded base width n).length := by
  rw [length_padded]
  exact Nat.length_toDigits_pos.trans_le (Nat.le_max_right _ _)

theorem lt_pow_length_padded {base : Nat} (large : 1 < base) (width n : Nat) :
    n < base ^ (padded base width n).length := by
  refine (Nat.length_toDigits_le_iff large (padded_length_pos base width n)).mp ?_
  rw [length_padded]
  exact Nat.le_max_right _ _

/-- A numeral as long as it turns out to be. -/
theorem padded_eq_fixed_length {base : Nat} (large : 1 < base) (width n : Nat) :
    padded base width n = fixed base (padded base width n).length n := by
  have fits := lt_pow_length_padded large width n
  obtain ⟨w, same⟩ := Nat.exists_eq_add_one.mpr (padded_length_pos base width n)
  rw [same] at fits ⊢
  rw [← padded_eq_fixed large fits, padded, padded, List.leftpad, List.leftpad]
  rw [length_padded] at same
  congr 2
  omega

/-- Numerals of one width are in the order of the numbers. -/
theorem padded_lt_padded {base width n m : Nat} (large : 1 < base) (small : base ≤ 16)
    (same : (padded base width n).length = (padded base width m).length) (lt : n < m) :
    padded base width n < padded base width m := by
  have fits := lt_pow_length_padded large width m
  rw [padded_eq_fixed_length large width n, padded_eq_fixed_length large width m, same]
  exact fixed_lt_fixed (Nat.zero_lt_of_lt large) small fits lt

end Numerals
