import PeerBeam.Chat.Readers
import PeerBeam.Lib.CharOffsets

/-! The text a search cuts out of a field, at the byte offsets at which it cuts. -/
namespace PeerBeam.Chat.Search
open CharOffsets

variable (lower : Char → List Char)

/-- One character of the text, in lower case, against what is still wanted; an answer ends the comparison. -/
def matchFolded : List Char → List Char → Except Bool (List Char)
  | want, [] => .ok want
  | [], _ :: _ => .error true
  | w :: want, lc :: rest => if w ≠ lc then .error false else matchFolded want rest

/-- The loop of `folded_starts_with`. -/
def startsWithFrom : List Char → List Char → Bool
  | want, [] => want.isEmpty
  | want, c :: hay =>
    match matchFolded want (lower c) with
    | .error answer => answer
    | .ok want => startsWithFrom want hay

/-- The first offset from which the text begins with the needle; no value where a cut fails. -/
def firstOffset (haystack needle : List Char) : List Nat → Option (Option Nat)
  | [] => some none
  | i :: rest => (sliceFrom haystack i).bind fun tail =>
      if startsWithFrom lower needle tail then some (some i) else firstOffset haystack needle rest

def findOffset (haystack needle : List Char) : Option (Option Nat) :=
  if needle = [] then some none else firstOffset lower haystack needle ((charIndices 0 haystack).map Prod.fst)

def cutSnippet (field : List Char) (position : Nat) : Option (List Char) :=
  (sliceTo field position).bind fun lead =>
    let start := (((charIndices 0 lead).reverse.take snippetLead).getLast?.map Prod.fst).getD position
    (sliceFrom field start).bind fun rest =>
      slice field start (((charIndices 0 rest)[snippetChars]?.map fun at_ => start + at_.1).getD (size field))

def snippetAt (field needle : List Char) : Option (Option (List Char)) :=
  (findOffset lower field needle).bind fun found =>
    match found with
    | none => some none
    | some position => (cutSnippet field position).map some

variable {lower}

theorem matchFolded_ok {want folded rest : List Char} (h : matchFolded want folded = .ok rest) :
    want = folded ++ rest := by
  induction folded generalizing want with
  | nil =>
    cases want <;> cases h <;> rfl
  | cons lc folded ih =>
    cases want with
    | nil => cases h
    | cons w want =>
      rw [matchFolded] at h
      split at h
      next => cases h
      next same => rw [ih h, not_not.mp same, List.cons_append]

theorem matchFolded_error {want folded : List Char} {answer : Bool} (h : matchFolded want folded = .error answer)
    (tail : List Char) : want.isPrefixOf (folded ++ tail) = answer := by
  induction folded generalizing want with
  | nil =>
    cases want <;> cases h
  | cons lc folded ih =>
    cases want with
    | nil => cases h; rfl
    | cons w want =>
      rw [matchFolded] at h
      split at h
      next other =>
        cases h
        rw [List.cons_append, List.isPrefixOf_cons_cons, beq_eq_false_iff_ne.mpr other, Bool.false_and]
      next same =>
        rw [List.cons_append, List.isPrefixOf_cons_cons, beq_iff_eq.mpr (not_not.mp same), Bool.true_and, ih h]

theorem startsWithFrom_eq (hay want : List Char) : startsWithFrom lower want hay = foldedStartsWith lower hay want := by
  rw [foldedStartsWith]
  induction hay generalizing want with
  | nil => cases want <;> rfl
  | cons c hay ih =>
    rw [fold, List.flatMap_cons, startsWithFrom]
    split
    next answer stopped => exact (matchFolded_error stopped _).symm
    next rest met =>
      rw [ih, matchFolded_ok met, Bool.eq_iff_iff, List.isPrefixOf_iff_prefix, List.isPrefixOf_iff_prefix,
        List.prefix_append_right_inj]
      rfl

theorem firstOffset_eq (haystack needle : List Char) (positions : List Nat) :
    firstOffset lower haystack needle (positions.map fun n => size (haystack.take n)) =
      some ((positions.find? fun n => foldedStartsWith lower (haystack.drop n) needle).map
        fun n => size (haystack.take n)) := by
  induction positions with
  | nil => rfl
  | cons n positions ih =>
    rw [List.map_cons, firstOffset, sliceFrom_take, Option.bind_some, startsWithFrom_eq, List.find?_cons]
    cases foldedStartsWith lower (haystack.drop n) needle with
    | true => rfl
    | false => exact ih

theorem findOffset_eq (haystack needle : List Char) : findOffset lower haystack needle =
    some ((findFolded lower haystack needle).map fun position => size (haystack.take position)) := by
  rw [findOffset, findFolded]
  split
  next => rfl
  next => rw [map_charIndices, firstOffset_eq]

theorem cutSnippet_eq (field : List Char) {position : Nat} (inside : position ≤ field.length) :
    cutSnippet field (size (field.take position)) =
      some ((field.drop (position - snippetLead)).take snippetChars) := by
  have start : (((charIndices 0 (field.take position)).reverse.take snippetLead).getLast?.map Prod.fst).getD
      (size (field.take position)) = size (field.take (position - snippetLead)) := by
    rw [getLast?_take_reverse, length_charIndices, List.length_take_of_le inside, charIndices_getElem?]
    cases position with
    | zero => rfl
    | succ position =>
      have there : position + 1 - snippetLead < (field.take (position + 1)).length := by
        rw [List.length_take_of_le inside]
        exact Nat.sub_lt (Nat.succ_pos _) (by decide)
      rw [List.getElem?_eq_getElem there, Option.map_some, Option.map_some, Option.getD_some, Nat.zero_add,
        List.take_take, min_eq_left (Nat.sub_le _ _)]
  have stop : ((charIndices 0 (field.drop (position - snippetLead)))[snippetChars]?.map fun at_ =>
      size (field.take (position - snippetLead)) + at_.1).getD (size field) =
        size (field.take (position - snippetLead)) +
          size ((field.drop (position - snippetLead)).take snippetChars) := by
    rw [charIndices_getElem?]
    by_cases long : snippetChars < (field.drop (position - snippetLead)).length
    · rw [List.getElem?_eq_getElem long, Option.map_some, Option.map_some, Option.getD_some, Nat.zero_add]
    · rw [List.getElem?_eq_none (Nat.not_lt.mp long), List.take_of_length_le (Nat.not_lt.mp long), Option.map_none,
        Option.map_none, Option.getD_none, size_take_add_drop]
  rw [cutSnippet, sliceTo_take, Option.bind_some]
  dsimp only
  rw [start, sliceFrom_take, Option.bind_some, stop, slice_drop_take]

/-- No cut is inside a character, and what is cut out is the window in characters. -/
theorem snippetAt_eq (field needle : List Char) : snippetAt lower field needle =
    some ((findFolded lower field needle).map fun position =>
      (field.drop (position - snippetLead)).take snippetChars) := by
  rw [snippetAt, findOffset_eq, Option.bind_some]
  cases found : findFolded lower field needle with
  | none => rfl
  | some position =>
    have inside : position ≤ field.length := by
      rw [findFolded] at found
      split at found
      next => cases found
      next => exact (List.mem_range.mp (List.mem_of_find?_eq_some found)).le
    rw [Option.map_some]
    dsimp only
    rw [cutSnippet_eq field inside]
    rfl

end PeerBeam.Chat.Search
