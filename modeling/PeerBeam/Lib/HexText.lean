import Mathlib

/-! Texts written one symbol after another: codes that can be read back, and bytes as hexadecimal digits. -/

namespace SymbolCode
variable {α β : Type}

/-- Texts that are written alike are alike, where the first symbol can be read off whatever follows it. -/
theorem flatMap_injective {code : α → List β} (read : List β → Option (α × List β))
    (reads : ∀ a rest, read (code a ++ rest) = some (a, rest)) (some_ : ∀ a, code a ≠ []) :
    Function.Injective fun xs : List α => xs.flatMap code := by
  intro xs ys same
  dsimp only at same
  induction xs generalizing ys with
  | nil =>
    cases ys with
    | nil => rfl
    | cons y ys =>
      rw [List.flatMap_nil, List.flatMap_cons] at same
      exact absurd (List.append_eq_nil_iff.mp same.symm).1 (some_ y)
  | cons x xs ih =>
    cases ys with
    | nil =>
      rw [List.flatMap_nil, List.flatMap_cons] at same
      exact absurd (List.append_eq_nil_iff.mp same).1 (some_ x)
    | cons y ys =>
      rw [List.flatMap_cons, List.flatMap_cons] at same
      have first := congrArg read same
      rw [reads, reads] at first
      obtain ⟨rfl, rest⟩ := Prod.mk.inj (Option.some.inj first)
      rw [ih rest]

end SymbolCode

namespace HexText

def digit (n : ℕ) : Char := if n < 10 then Char.ofNat (48 + n) else Char.ofNat (87 + n)

def upperDigit (n : ℕ) : Char := if n < 10 then Char.ofNat (48 + n) else Char.ofNat (55 + n)

def value (c : Char) : Option ℕ :=
  if 48 ≤ c.toNat ∧ c.toNat ≤ 57 then some (c.toNat - 48)
  else if 65 ≤ c.toNat ∧ c.toNat ≤ 70 then some (c.toNat - 55)
  else if 97 ≤ c.toNat ∧ c.toNat ≤ 102 then some (c.toNat - 87)
  else none

def encode (bytes : List UInt8) : List Char := bytes.flatMap fun b => [digit (b.toNat / 16), digit (b.toNat % 16)]

/-- `u8::from_str_radix` of two characters; a sign is read too. -/
def readByte (high low : Char) : Option UInt8 :=
  (value low).bind fun l =>
    match value high with
    | some h => some (UInt8.ofNat (16 * h + l))
    | none => if high = '+' then some (UInt8.ofNat l) else none

def decode : List Char → Option (List UInt8)
  | [] => some []
  | [_] => none
  | high :: low :: rest => (readByte high low).bind fun b => (decode rest).map (b :: ·)

theorem value_digit : ∀ n < 16, value (digit n) = some n := by decide

theorem value_upperDigit : ∀ n < 16, value (upperDigit n) = some n := by decide

theorem nibbles (b : UInt8) : b.toNat / 16 < 16 ∧ b.toNat % 16 < 16 ∧
    UInt8.ofNat (16 * (b.toNat / 16) + b.toNat % 16) = b := by
  have small := b.toNat_lt
  refine ⟨by omega, Nat.mod_lt _ (by decide), ?_⟩
  rw [Nat.div_add_mod, UInt8.ofNat_toNat]

theorem decode_encode (bytes : List UInt8) : decode (encode bytes) = some bytes := by
  induction bytes with
  | nil => rfl
  | cons b bytes ih =>
    obtain ⟨high, low, joined⟩ := nibbles b
    have text : encode (b :: bytes) = digit (b.toNat / 16) :: digit (b.toNat % 16) :: encode bytes := rfl
    rw [text, decode, ih, readByte, value_digit _ high, value_digit _ low]
    rw [Option.bind_some]
    dsimp only
    rw [joined]
    rfl

theorem encode_injective : Function.Injective encode := by
  intro xs ys same
  have read := decode_encode xs
  rw [same, decode_encode] at read
  exact (Option.some.inj read).symm

/-- What is read is made of digits and signs. -/
theorem of_decode {text : List Char} {bytes : List UInt8} (read : decode text = some bytes) :
    ∀ c ∈ text, c = '+' ∨ value c ≠ none := by
  induction text using decode.induct generalizing bytes with
  | case1 => exact nofun
  | case2 c => cases read
  | case3 high low rest ih =>
    rw [decode, Option.bind_eq_some_iff] at read
    obtain ⟨b, first, later⟩ := read
    obtain ⟨bytes, read, -⟩ := Option.map_eq_some_iff.mp later
    obtain ⟨l, lowRead, joined⟩ := Option.bind_eq_some_iff.mp first
    have highRead : high = '+' ∨ value high ≠ none := by
      rw [or_iff_not_imp_right, not_not]
      intro none_
      rw [none_] at joined
      by_contra sign
      exact Option.some_ne_none b (joined.symm.trans (if_neg sign))
    intro c mem
    rcases List.mem_cons.mp mem with rfl | mem
    · exact highRead
    · rcases List.mem_cons.mp mem with rfl | mem
      · exact .inr (by rw [lowRead]; exact Option.some_ne_none l)
      · exact ih read c mem

theorem mem_encode {bytes : List UInt8} {c : Char} (mem : c ∈ encode bytes) : ∃ n < 16, c = digit n := by
  obtain ⟨b, -, here⟩ := List.mem_flatMap.mp mem
  obtain ⟨high, low, -⟩ := nibbles b
  rcases List.mem_cons.mp here with rfl | here
  · exact ⟨_, high, rfl⟩
  · exact ⟨_, low, List.mem_singleton.mp here⟩

theorem lower_digit : ∀ n < 16, (digit n).toLower = digit n := by decide

theorem lower_upperDigit : ∀ n < 16, (upperDigit n).toLower = digit n := by decide

/-- A character that has a value is the digit of it in one of the cases. -/
theorem digit_of_value {c : Char} {n : ℕ} (h : value c = some n) : n < 16 ∧ (c = digit n ∨ c = upperDigit n) := by
  unfold value at h
  split_ifs at h with decimal upper lower
  · obtain rfl := Option.some.inj h
    refine ⟨by omega, .inl ?_⟩
    rw [digit, if_pos (by omega), Nat.add_sub_cancel' decimal.1, Char.ofNat_toNat]
  · obtain rfl := Option.some.inj h
    refine ⟨by omega, .inr ?_⟩
    rw [upperDigit, if_neg (by omega), Nat.add_sub_cancel' (by omega), Char.ofNat_toNat]
  · obtain rfl := Option.some.inj h
    refine ⟨by omega, .inl ?_⟩
    rw [digit, if_neg (by omega), Nat.add_sub_cancel' (by omega), Char.ofNat_toNat]

theorem lower_of_value {c : Char} {n : ℕ} (h : value c = some n) : c.toLower = digit n := by
  obtain ⟨small, rfl | rfl⟩ := digit_of_value h
  · exact lower_digit n small
  · exact lower_upperDigit n small

theorem value_toLower (c : Char) : value c.toLower = value c := by
  by_cases upper : c.val ≥ 'A'.val ∧ c.val ≤ 'Z'.val
  · have low : 65 ≤ c.toNat := UInt32.le_iff_toNat_le.mp upper.1
    have high : c.toNat ≤ 90 := UInt32.le_iff_toNat_le.mp upper.2
    have shifted : c.toLower.toNat = c.toNat + 32 := by
      rw [Char.toLower, dif_pos upper]
      change (c.val + 32).toNat = c.val.toNat + 32
      rw [UInt32.toNat_add]
      exact Nat.mod_eq_of_lt (Nat.lt_of_le_of_lt (Nat.add_le_add_right high 32) (by decide))
    unfold value
    rw [shifted]
    split_ifs <;> first | rfl | omega
  · rw [Char.toLower, dif_neg upper]

theorem value_of_lower {c : Char} {n : ℕ} (small : n < 16) (h : c.toLower = digit n) : value c = some n := by
  rw [← value_toLower, h, value_digit n small]

@[simp]
theorem length_encode (bytes : List UInt8) : (encode bytes).length = 2 * bytes.length := by
  induction bytes with
  | nil => rfl
  | cons b bytes ih =>
    change (encode bytes).length + 2 = _
    rw [ih, List.length_cons]
    omega

theorem lower_encode (bytes : List UInt8) : (encode bytes).map Char.toLower = encode bytes := by
  refine (List.map_congr_left fun c mem => ?_).trans (List.map_id _)
  obtain ⟨n, small, rfl⟩ := mem_encode mem
  exact lower_digit n small

theorem value_of_lower_encode {text : List Char} {bytes : List UInt8} (h : text.map Char.toLower = encode bytes) :
    ∀ c ∈ text, value c ≠ none := by
  intro c mem
  have there : c.toLower ∈ encode bytes := by
    rw [← h]
    exact List.mem_map_of_mem mem
  obtain ⟨n, small, same⟩ := mem_encode there
  rw [value_of_lower small same]
  exact Option.some_ne_none n

/-- Two digits of either case are those of one byte. -/
theorem lower_pair {high low : Char} {h l : ℕ} (highRead : value high = some h) (lowRead : value low = some l) :
    [high, low].map Char.toLower = encode [UInt8.ofNat (16 * h + l)] := by
  have smallHigh := (digit_of_value highRead).1
  have smallLow := (digit_of_value lowRead).1
  have joined : (UInt8.ofNat (16 * h + l)).toNat = 16 * h + l := UInt8.toNat_ofNat_of_lt' (by change _ < 256; omega)
  have quotient : (16 * h + l) / 16 = h := by omega
  have remainder : (16 * h + l) % 16 = l := by omega
  change [high.toLower, low.toLower] = [digit _, digit _]
  rw [lower_of_value highRead, lower_of_value lowRead, joined, quotient, remainder]

/-- Digits of either case, an even number of them, are those of some bytes. -/
theorem exists_lower_encode {n : ℕ} {text : List Char} (even : text.length = 2 * n)
    (digits : ∀ c ∈ text, value c ≠ none) : ∃ bytes, bytes.length = n ∧ text.map Char.toLower = encode bytes := by
  induction n generalizing text with
  | zero => exact ⟨[], rfl, by rw [List.length_eq_zero_iff.mp even]; rfl⟩
  | succ n ih =>
    match text, even, digits with
    | high :: low :: rest, even, digits =>
      obtain ⟨h, highRead⟩ := Option.ne_none_iff_exists'.mp (digits high (by simp))
      obtain ⟨l, lowRead⟩ := Option.ne_none_iff_exists'.mp (digits low (by simp))
      obtain ⟨bytes, length, same⟩ := @ih rest (by simp only [List.length_cons] at even; omega)
        fun c mem => digits c (by simp [mem])
      refine ⟨UInt8.ofNat (16 * h + l) :: bytes, by rw [List.length_cons, length], ?_⟩
      change [high, low].map Char.toLower ++ rest.map Char.toLower = encode [_] ++ encode bytes
      rw [lower_pair highRead lowRead, same]

theorem readByte_of_lower {high low : Char} {b : UInt8} (h : [high, low].map Char.toLower = encode [b]) :
    readByte high low = some b := by
  obtain ⟨smallHigh, smallLow, joined⟩ := nibbles b
  have same : [high.toLower, low.toLower] = [digit (b.toNat / 16), digit (b.toNat % 16)] := h
  injection same with first second
  injection second with second
  rw [readByte, value_of_lower smallLow second, value_of_lower smallHigh first, Option.bind_some]
  exact congrArg some joined

/-- The two digits of one byte. -/
theorem pair_encode {bytes : List UInt8} {i : ℕ} (inside : i < bytes.length) :
    ((encode bytes).drop (2 * i)).take 2 = encode [bytes[i]] := by
  induction bytes generalizing i with
  | nil => exact absurd inside (Nat.not_lt_zero i)
  | cons b bytes ih =>
    cases i with
    | zero => rfl
    | succ i => exact ih (Nat.lt_of_succ_lt_succ inside)

end HexText
