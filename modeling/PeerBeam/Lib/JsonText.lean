import PeerBeam.Lib.Bytes

/-! JSON texts as bytes, the way a compact serializer writes them, and a reader of what it wrote. -/
namespace JsonText

def hexDigit (n : Nat) : UInt8 := if n < 10 then UInt8.ofNat (48 + n) else UInt8.ofNat (87 + n)

def hexValue (b : UInt8) : Option Nat :=
  if 48 ≤ b ∧ b ≤ 57 then some (b.toNat - 48) else if 97 ≤ b ∧ b ≤ 102 then some (b.toNat - 87) else none

/-- The letter behind the backslash, for the bytes that have one. -/
def shortEscape (b : UInt8) : Option UInt8 :=
  if b = 34 then some 34
  else if b = 92 then some 92
  else if b = 8 then some 98
  else if b = 9 then some 116
  else if b = 10 then some 110
  else if b = 12 then some 102
  else if b = 13 then some 114
  else none

/-- One byte of a string: quotes, backslashes and control characters are escaped. -/
def escape (b : UInt8) : List UInt8 :=
  match shortEscape b with
  | some letter => [92, letter]
  | none => if b < 32 then [92, 117, 48, 48, hexDigit (b.toNat / 16), hexDigit (b.toNat % 16)] else [b]

def quoted (bytes : List UInt8) : List UInt8 := 34 :: (bytes.flatMap escape ++ [34])

/-- How many bytes one byte of a string is written as. -/
def escapedSize (b : UInt8) : Nat := if (shortEscape b).isSome then 2 else if b < 32 then 6 else 1

theorem length_escape (b : UInt8) : (escape b).length = escapedSize b := by
  rw [escape, escapedSize]
  cases shortEscape b with
  | some letter => rfl
  | none =>
    rw [Option.isSome_none, if_neg Bool.false_ne_true]
    dsimp only
    split <;> rfl

theorem length_quoted (bytes : List UInt8) : (quoted bytes).length = (bytes.map escapedSize).sum + 2 := by
  rw [quoted, List.length_cons, List.length_append, List.length_singleton, List.length_flatMap]
  simp only [length_escape]

def unescape (letter : UInt8) : Option UInt8 :=
  if letter = 34 then some 34
  else if letter = 92 then some 92
  else if letter = 98 then some 8
  else if letter = 116 then some 9
  else if letter = 110 then some 10
  else if letter = 102 then some 12
  else if letter = 114 then some 13
  else none

def readByte : List UInt8 → Option (UInt8 × List UInt8)
  | [] => none
  | b :: rest =>
    if b = 92 then
      match rest with
      | 117 :: 48 :: 48 :: high :: low :: rest =>
        match hexValue high, hexValue low with
        | some h, some l => some (UInt8.ofNat (16 * h + l), rest)
        | _, _ => none
      | letter :: rest => (unescape letter).map (·, rest)
      | [] => none
    else if b = 34 ∨ b < 32 then none
    else some (b, rest)

def readBytes : ℕ → List UInt8 → Option (List UInt8 × List UInt8)
  | 0, _ => none
  | fuel + 1, text =>
    if text.head? = some 34 then some ([], text.tail)
    else
      match readByte text with
      | none => none
      | some (b, rest) => (readBytes fuel rest).map fun read => (b :: read.1, read.2)

def readQuoted : List UInt8 → Option (List UInt8 × List UInt8)
  | [] => none
  | quote :: text => if quote = 34 then readBytes (text.length + 1) text else none

def expect (literal text : List UInt8) : Option (List UInt8) :=
  if literal <+: text then some (text.drop literal.length) else none

theorem hexValue_hexDigit : ∀ n < 16, hexValue (hexDigit n) = some n := by decide

theorem unescape_shortEscape {b letter : UInt8} (short : shortEscape b = some letter) :
    letter ≠ 117 ∧ unescape letter = some b := by
  rw [shortEscape] at short
  split_ifs at short with eq eq eq eq eq eq eq <;> (subst eq; cases short; decide)

/-- A byte is written behind a backslash, as a control character or as it is. -/
theorem escape_cases (b : UInt8) :
    (∃ letter, escape b = [92, letter] ∧ letter ≠ 117 ∧ unescape letter = some b) ∨
    (escape b = [92, 117, 48, 48, hexDigit (b.toNat / 16), hexDigit (b.toNat % 16)]) ∨
    (escape b = [b] ∧ b ≠ 34 ∧ b ≠ 92 ∧ ¬ b < 32) := by
  rw [escape]
  cases short : shortEscape b with
  | some letter => exact .inl ⟨letter, rfl, unescape_shortEscape short⟩
  | none =>
    right
    dsimp only
    split
    · exact .inl rfl
    · next printable =>
      refine .inr ⟨rfl, ?_, ?_, printable⟩
      · rintro rfl
        cases short
      · rintro rfl
        cases short

theorem readByte_escape (b : UInt8) (rest : List UInt8) : readByte (escape b ++ rest) = some (b, rest) := by
  rcases escape_cases b with ⟨letter, written, plain, read⟩ | written | ⟨written, quote, slash, printable⟩
  · rw [written, List.cons_append, List.singleton_append, readByte, if_pos rfl, read]
    · rfl
    · intro high low rest eq
      exact absurd eq plain
  · have high : b.toNat / 16 < 16 := by
      have small := b.toNat_lt
      omega
    have low : b.toNat % 16 < 16 := Nat.mod_lt _ (by decide)
    have value : UInt8.ofNat (16 * (b.toNat / 16) + b.toNat % 16) = b := by
      rw [Nat.div_add_mod, UInt8.ofNat_toNat]
    rw [written]
    simp only [List.cons_append, List.nil_append, readByte, if_true, hexValue_hexDigit _ high, hexValue_hexDigit _ low]
    rw [value]
  · rw [written, List.singleton_append]
    simp only [readByte, if_neg slash]
    rw [if_neg]
    rintro (eq | control)
    · exact quote eq
    · exact printable control

theorem head_escape (b : UInt8) (rest : List UInt8) : (escape b ++ rest).head? ≠ some 34 := by
  rcases escape_cases b with ⟨letter, written, -⟩ | written | ⟨written, quote, -⟩
  · simp [written]
  · simp [written]
  · simpa [written] using quote

theorem readBytes_escaped (bytes rest : List UInt8) {fuel : ℕ} (enough : bytes.length < fuel) :
    readBytes fuel (bytes.flatMap escape ++ 34 :: rest) = some (bytes, rest) := by
  induction bytes generalizing fuel with
  | nil =>
    cases fuel with
    | zero => cases enough
    | succ fuel => rfl
  | cons b bytes ih =>
    cases fuel with
    | zero => cases enough
    | succ fuel =>
      rw [List.flatMap_cons, List.append_assoc, readBytes, if_neg (head_escape b _), readByte_escape]
      dsimp only
      rw [ih (Nat.lt_of_succ_lt_succ enough)]
      rfl

theorem length_le_escaped (bytes : List UInt8) : bytes.length ≤ (bytes.flatMap escape).length := by
  induction bytes with
  | nil => exact Nat.le_refl _
  | cons b bytes ih =>
    have one : 1 ≤ (escape b).length := by
      rcases escape_cases b with ⟨letter, written, -⟩ | written | ⟨written, -⟩ <;> simp [written]
    rw [List.flatMap_cons, List.length_append, List.length_cons]
    omega

/-- A quoted string is read back, whatever follows it. -/
theorem readQuoted_quoted (bytes rest : List UInt8) : readQuoted (quoted bytes ++ rest) = some (bytes, rest) := by
  have text : quoted bytes ++ rest = 34 :: (bytes.flatMap escape ++ 34 :: rest) := by
    rw [quoted, List.cons_append, List.append_assoc, List.singleton_append]
  rw [text, readQuoted, if_pos rfl]
  apply readBytes_escaped
  have long := length_le_escaped bytes
  rw [List.length_append]
  omega

theorem expect_append (literal text : List UInt8) : expect literal (literal ++ text) = some text := by
  rw [expect, if_pos (List.prefix_append ..), List.drop_left]

end JsonText
