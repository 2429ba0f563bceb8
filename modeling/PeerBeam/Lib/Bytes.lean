import Mathlib

/-! Fixed-width big-endian words as byte lists, and the inverse reading. -/
namespace BigEndian

/-- The low `w` bytes of `n`, most significant first. -/
def write : Nat → Nat → List UInt8
  | 0, _ => []
  | w + 1, n => write w (n / 256) ++ [UInt8.ofNat n]

def read (bytes : List UInt8) : Nat :=
  bytes.foldl (fun acc b => acc * 256 + b.toNat) 0

@[simp] theorem length_write (w n : Nat) : (write w n).length = w := by
  induction w generalizing n with
  | zero => rfl
  | succ w ih => simp [write, ih]

@[simp] theorem read_append_singleton (bytes : List UInt8) (b : UInt8) :
    read (bytes ++ [b]) = read bytes * 256 + b.toNat := by
  simp [read, List.foldl_append]

/-- Reading back what was written drops only what does not fit. -/
theorem read_write (w n : Nat) : read (write w n) = n % 256 ^ w := by
  induction w generalizing n with
  | zero => simp [write, read, Nat.mod_one]
  | succ w ih =>
    have low : (UInt8.ofNat n).toNat = n % 256 := by simp
    rw [write, read_append_singleton, ih, low, Nat.pow_succ, Nat.mul_comm (256 ^ w) 256, Nat.mod_mul]
    omega

theorem read_write_of_lt {w n : Nat} (h : n < 256 ^ w) : read (write w n) = n := by
  rw [read_write, Nat.mod_eq_of_lt h]

/-- What was read is written again, in as many bytes. -/
theorem write_read (bytes : List UInt8) : write bytes.length (read bytes) = bytes := by
  induction bytes using List.reverseRecOn with
  | nil => rfl
  | append_singleton bytes last ih =>
    have small : last.toNat < 256 := last.toNat_lt
    have high : (read bytes * 256 + last.toNat) / 256 = read bytes := by omega
    have low : UInt8.ofNat (read bytes * 256 + last.toNat) = last := by
      apply UInt8.toNat_inj.mp
      rw [UInt8.toNat_ofNat']
      omega
    rw [List.length_append, List.length_singleton, read_append_singleton, write, high, low, ih]

theorem read_lt (bytes : List UInt8) : read bytes < 256 ^ bytes.length := by
  rw [← write_read bytes, read_write, length_write]
  exact Nat.mod_lt _ (Nat.pow_pos (by decide))

/-- Only zero bytes spell zero. -/
theorem eq_zero_of_read {bytes : List UInt8} (h : read bytes = 0) : ∀ b ∈ bytes, b = 0 := by
  induction bytes using List.reverseRecOn with
  | nil => simp
  | append_singleton bytes last ih =>
    rw [read_append_singleton] at h
    intro b mem
    rcases List.mem_append.mp mem with mem | mem
    · exact ih (by omega) b mem
    · rw [List.mem_singleton.mp mem]
      apply UInt8.toNat_inj.mp
      simp only [UInt8.toNat_zero]
      omega

theorem read_zeros {bytes : List UInt8} (h : ∀ b ∈ bytes, b = 0) : read bytes = 0 := by
  induction bytes using List.reverseRecOn with
  | nil => rfl
  | append_singleton bytes last ih =>
    rw [read_append_singleton, ih fun b mem => h b (List.mem_append_left _ mem),
      h last (List.mem_append_right _ (List.mem_singleton_self last))]
    rfl

/-- Words that fit their width are recovered from their bytes. -/
theorem write_injective {w m n : Nat} (hm : m < 256 ^ w) (hn : n < 256 ^ w)
    (h : write w m = write w n) : m = n := by
  rw [← read_write_of_lt hm, ← read_write_of_lt hn, h]

/-- Two equal concatenations of equally long heads split. -/
theorem append_write_inj {w m n : Nat} {xs ys : List UInt8}
    (hm : m < 256 ^ w) (hn : n < 256 ^ w) (h : write w m ++ xs = write w n ++ ys) :
    m = n ∧ xs = ys := by
  obtain ⟨hw, hr⟩ := List.append_inj h (by simp)
  exact ⟨write_injective hm hn hw, hr⟩

/-- A field written behind its length ends where its length says. -/
theorem append_framed_inj {w : Nat} {field field' rest rest' : List UInt8} (short : field.length < 256 ^ w)
    (short' : field'.length < 256 ^ w)
    (h : write w field.length ++ (field ++ rest) = write w field'.length ++ (field' ++ rest')) :
    field = field' ∧ rest = rest' := by
  obtain ⟨same, h⟩ := append_write_inj short short' h
  exact List.append_inj h same

end BigEndian

/-! The bytes of a text. -/
namespace TextBytes

private theorem toList_loop (bytes : ByteArray) (i : Nat) (read : List UInt8) :
    ByteArray.toList.loop bytes i read = read.reverse ++ bytes.data.toList.drop i := by
  fun_induction ByteArray.toList.loop bytes i read with
  | case1 i read inside ih =>
    have bound : i < bytes.data.toList.length := by simpa using inside
    have next : bytes.get! i = bytes.data.toList[i] := getElem!_pos bytes.data i inside
    rw [ih, List.drop_eq_getElem_cons bound, next, List.reverse_cons, List.append_assoc,
      List.singleton_append]
  | case2 i read outside =>
    rw [List.drop_eq_nil_of_le (by simpa using outside), List.append_nil]

theorem toList_eq (bytes : ByteArray) : bytes.toList = bytes.data.toList := by
  rw [ByteArray.toList, toList_loop]
  rfl

theorem toUTF8_injective : Function.Injective fun text : String => text.toUTF8.toList := by
  intro text text' h
  have data : text.toUTF8.toList = text'.toUTF8.toList := h
  rw [toList_eq, toList_eq, Array.toList_inj] at data
  exact String.toByteArray_inj.mp (ByteArray.ext data)

def utf8 (text : String) : List UInt8 := text.toUTF8.toList

theorem utf8_injective : Function.Injective utf8 := toUTF8_injective

theorem utf8_ofList (text : List Char) : utf8 (String.ofList text) = text.flatMap String.utf8EncodeChar := by
  rw [utf8, toList_eq, String.toUTF8, String.toByteArray_ofList, List.utf8Encode]
  simp

theorem length_utf8 (text : String) : (utf8 text).length = text.utf8ByteSize := by
  rw [utf8, toList_eq, Array.length_toList]
  rfl

/-- In ASCII each character is its own byte. -/
theorem utf8_ofList_of_ascii {text : List Char} (ascii : ∀ c ∈ text, c.toNat < 128) :
    utf8 (String.ofList text) = text.map fun c => UInt8.ofNat c.toNat := by
  rw [utf8_ofList]
  induction text with
  | nil => rfl
  | cons c text ih =>
    have one : c.utf8Size = 1 := Char.utf8Size_eq_one_iff.mpr (UInt32.le_iff_toNat_le.mpr (by
      have := ascii c (by simp)
      change c.toNat ≤ 127
      omega))
    rw [List.flatMap_cons, String.utf8EncodeChar_eq_singleton one, ih fun c mem => ascii c (List.mem_cons_of_mem _ mem)]
    rfl

/-- `String::from_utf8`. -/
def ofUtf8 (bytes : List UInt8) : Option String := String.fromUTF8? ⟨bytes.toArray⟩

theorem ofUtf8_utf8 (text : String) : ofUtf8 (utf8 text) = some text := by
  have bytes : (⟨(utf8 text).toArray⟩ : ByteArray) = text.toByteArray := by
    rw [utf8, toList_eq, Array.toArray_toList]
    rfl
  rw [ofUtf8, bytes]
  exact dif_pos text.isValidUTF8

end TextBytes
