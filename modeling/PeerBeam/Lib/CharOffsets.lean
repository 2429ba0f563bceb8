import Mathlib

/-! Texts as lists of characters, cut at byte offsets. A cut that is inside a character fails. -/
namespace CharOffsets

def size (text : List Char) : Nat := (text.map Char.utf8Size).sum

def charIndices : Nat → List Char → List (Nat × Char)
  | _, [] => []
  | offset, c :: rest => (offset, c) :: charIndices (offset + c.utf8Size) rest

def splitAt : List Char → Nat → Option (List Char × List Char)
  | text, 0 => some ([], text)
  | [], _ + 1 => none
  | c :: rest, offset + 1 =>
    if c.utf8Size ≤ offset + 1 then
      (splitAt rest (offset + 1 - c.utf8Size)).map fun cut => (c :: cut.1, cut.2)
    else none

def sliceTo (text : List Char) (offset : Nat) : Option (List Char) := (splitAt text offset).map Prod.fst

def sliceFrom (text : List Char) (offset : Nat) : Option (List Char) := (splitAt text offset).map Prod.snd

@[simp]
theorem size_nil : size [] = 0 := rfl

@[simp]
theorem size_cons (c : Char) (text : List Char) : size (c :: text) = c.utf8Size + size text := List.sum_cons

@[simp]
theorem size_append (text text' : List Char) : size (text ++ text') = size text + size text' := by
  rw [size, List.map_append, List.sum_append]
  rfl

/-- A cut between two characters gives what stands on either side. -/
theorem splitAt_size (before after : List Char) : splitAt (before ++ after) (size before) = some (before, after) := by
  induction before with
  | nil => cases after <;> rfl
  | cons c before ih =>
    have pos := c.utf8Size_pos
    rw [size_cons, List.cons_append]
    obtain ⟨n, same⟩ := Nat.exists_eq_add_one.mpr (Nat.add_pos_left pos (size before))
    rw [same, splitAt, if_pos (by omega), ← same, Nat.add_sub_cancel_left, ih]
    rfl

theorem splitAt_take (text : List Char) (n : Nat) :
    splitAt text (size (text.take n)) = some (text.take n, text.drop n) := by
  have cut := splitAt_size (text.take n) (text.drop n)
  rwa [List.take_append_drop] at cut

theorem sliceTo_take (text : List Char) (n : Nat) : sliceTo text (size (text.take n)) = some (text.take n) := by
  rw [sliceTo, splitAt_take]
  rfl

theorem sliceFrom_take (text : List Char) (n : Nat) : sliceFrom text (size (text.take n)) = some (text.drop n) := by
  rw [sliceFrom, splitAt_take]
  rfl

theorem charIndices_getElem? (text : List Char) (offset n : Nat) :
    (charIndices offset text)[n]? = text[n]?.map fun c => (offset + size (text.take n), c) := by
  induction text generalizing offset n with
  | nil => rfl
  | cons c text ih =>
    cases n with
    | zero => rfl
    | succ n =>
      rw [charIndices, List.getElem?_cons_succ, List.getElem?_cons_succ, ih, List.take_succ_cons, size_cons,
        Nat.add_assoc]

@[simp]
theorem length_charIndices (text : List Char) (offset : Nat) : (charIndices offset text).length = text.length := by
  induction text generalizing offset with
  | nil => rfl
  | cons c text ih => rw [charIndices, List.length_cons, ih, List.length_cons]

theorem map_charIndices (text : List Char) :
    (charIndices 0 text).map Prod.fst = (List.range text.length).map fun n => size (text.take n) := by
  refine List.ext_getElem? fun n => ?_
  rw [List.getElem?_map, List.getElem?_map, charIndices_getElem?]
  by_cases inside : n < text.length
  · rw [List.getElem?_eq_getElem inside, List.getElem?_range inside, Option.map_some, Option.map_some, Option.map_some,
      Nat.zero_add]
  · rw [List.getElem?_eq_none (Nat.not_lt.mp inside), List.getElem?_eq_none (by simpa using inside)]
    rfl

/-- The first of the last `n` elements. -/
theorem getLast?_take_reverse {α : Type*} (l : List α) (n : Nat) :
    (l.reverse.take n).getLast? = l[l.length - n]? := by
  rw [List.take_reverse, List.getLast?_reverse, List.head?_drop]

/-- The part between two offsets. -/
def slice (text : List Char) (start stop : Nat) : Option (List Char) :=
  if stop < start then none else (sliceFrom text start).bind fun rest => sliceTo rest (stop - start)

theorem slice_drop_take (text : List Char) (start n : Nat) :
    slice text (size (text.take start)) (size (text.take start) + size ((text.drop start).take n)) =
      some ((text.drop start).take n) := by
  rw [slice, if_neg (Nat.not_lt.mpr (Nat.le_add_right _ _)), sliceFrom_take, Option.bind_some,
    Nat.add_sub_cancel_left, sliceTo_take]

theorem size_take_add_drop (text : List Char) (n : Nat) : size (text.take n) + size (text.drop n) = size text := by
  rw [← size_append, List.take_append_drop]

end CharOffsets
