import PeerBeam.Update.Verify

/-! Which texts are versions of a release. A version is served, and becomes part of a file's name. -/
namespace PeerBeam.Update

inductive ResolveError
  | unknownLinuxFormat
  | ambiguousLinuxFormat (owners : String)
  | unsupportedOs (os : String)
  | unsupportedArch
  | noVersion
  | notAVersion (version : String)
  deriving DecidableEq

def splitOnce (sep : Char) (s : List Char) : Option (List Char × List Char) :=
  match s.dropWhile (· ≠ sep) with
  | [] => none
  | _ :: rest => some (s.takeWhile (· ≠ sep), rest)

def digits (s : List Char) : Bool := !s.isEmpty && s.all Char.isDigit

def ident (s : List Char) : Bool := !s.isEmpty && s.all fun c => c.isAlphanum || c = '-'

/-- What is in front of the first hyphen and what follows it. -/
def coreAndPre (v : List Char) : List Char × Option (List Char) :=
  match splitOnce '-' v with
  | some (core, pre) => (core, some pre)
  | none => (v, none)

def stripped (version : String) : List Char := (trim version.toList).dropWhile (· = 'v')

def releaseVersion (version : String) : Except ResolveError String :=
  let v := stripped version
  if v = [] then .error .noVersion
  else
    let core := (coreAndPre v).1
    let coreOk := (core.splitOn '.').length = 3 && (core.splitOn '.').all digits
    let preOk := (coreAndPre v).2.all fun pre => (pre.splitOn '.').all ident
    if coreOk && preOk then .ok (String.ofList v) else .error (.notAVersion version)

structure Version where
  major : List Char
  minor : List Char
  patch : List Char
  pre : Option (List (List Char))
  numbers : ∀ part ∈ [major, minor, patch], digits part = true
  idents : ∀ ids ∈ pre, ids ≠ [] ∧ ∀ id ∈ ids, ident id = true

namespace Version
variable (w : Version)

def core : List Char := ['.'].intercalate [w.major, w.minor, w.patch]

def preText : Option (List Char) := w.pre.map fun ids => ['.'].intercalate ids

def text : List Char :=
  match w.preText with
  | none => w.core
  | some pre => w.core ++ '-' :: pre

end Version

theorem splitOnce_append {sep : Char} {a : List Char} (b : List Char) (free : sep ∉ a) :
    splitOnce sep (a ++ sep :: b) = some (a, b) := by
  have all (c : Char) (mem : c ∈ a) : decide (c ≠ sep) = true :=
    decide_eq_true fun same => free (same ▸ mem)
  rw [splitOnce, List.dropWhile_append_of_pos all, List.takeWhile_append_of_pos all]
  simp

theorem splitOnce_of_not_mem {sep : Char} {s : List Char} (free : sep ∉ s) : splitOnce sep s = none := by
  have all (c : Char) (mem : c ∈ s) : decide (c ≠ sep) = true :=
    decide_eq_true fun same => free (same ▸ mem)
  rw [splitOnce, List.dropWhile_eq_nil_iff.mpr all]

theorem eq_of_splitOnce {sep : Char} {s a b : List Char} (split : splitOnce sep s = some (a, b)) :
    s = a ++ sep :: b ∧ sep ∉ a := by
  rw [splitOnce] at split
  split at split
  next => cases split
  next head rest tail =>
    cases split
    have stop := List.head?_dropWhile_not (· ≠ sep) s
    rw [tail] at stop
    have here : head = sep := by simpa using stop
    refine ⟨?_, fun mem => ?_⟩
    · have whole : s.takeWhile (· ≠ sep) ++ s.dropWhile (· ≠ sep) = s := List.takeWhile_append_dropWhile
      rw [tail, here] at whole
      exact whole.symm
    · simpa using List.mem_takeWhile_imp mem

theorem digits_iff {s : List Char} : digits s = true ↔ s ≠ [] ∧ ∀ c ∈ s, c.isDigit = true := by
  rw [digits, Bool.and_eq_true, List.all_eq_true, Bool.not_eq_true', List.isEmpty_eq_false_iff]

theorem ident_iff {s : List Char} : ident s = true ↔ s ≠ [] ∧ ∀ c ∈ s, c.isAlphanum = true ∨ c = '-' := by
  rw [ident, Bool.and_eq_true, List.all_eq_true, Bool.not_eq_true', List.isEmpty_eq_false_iff]
  simp

namespace Version
variable (w : Version)

theorem major_ne_nil : w.major ≠ [] := (digits_iff.mp (w.numbers _ List.mem_cons_self)).1

theorem core_eq : w.core = w.major ++ '.' :: (w.minor ++ '.' :: w.patch) := by
  simp [core, List.intercalate]

theorem mem_core {c : Char} (mem : c ∈ w.core) : c.isDigit = true ∨ c = '.' := by
  have number (part : List Char) (own : part ∈ [w.major, w.minor, w.patch]) (mem : c ∈ part) : c.isDigit = true :=
    (digits_iff.mp (w.numbers part own)).2 c mem
  rw [core_eq, List.mem_append, List.mem_cons, List.mem_append, List.mem_cons] at mem
  rcases mem with mem | same | mem | same | mem
  · exact .inl (number _ (by simp) mem)
  · exact .inr same
  · exact .inl (number _ (by simp) mem)
  · exact .inr same
  · exact .inl (number _ (by simp) mem)

theorem hyphen_not_mem_core : '-' ∉ w.core := by
  intro mem
  rcases w.mem_core mem with digit | same
  · exact absurd digit (by decide)
  · exact absurd same (by decide)

theorem coreAndPre_text : coreAndPre w.text = (w.core, w.preText) := by
  rw [coreAndPre, text]
  cases w.preText with
  | none => rw [splitOnce_of_not_mem w.hyphen_not_mem_core]
  | some pre => rw [splitOnce_append _ w.hyphen_not_mem_core]

theorem splitOn_core : w.core.splitOn '.' = [w.major, w.minor, w.patch] := by
  refine List.splitOn_intercalate '.' (fun part own mem => ?_) (List.cons_ne_nil _ _)
  exact absurd ((digits_iff.mp (w.numbers part own)).2 _ mem) (by decide)

theorem splitOn_preText {pre : List Char} (own : w.preText = some pre) : w.pre = some (pre.splitOn '.') := by
  obtain ⟨ids, some_, rfl⟩ := Option.map_eq_some_iff.mp own
  obtain ⟨nonempty, named⟩ := w.idents ids some_
  rw [some_, List.splitOn_intercalate '.' (fun id mem dot => ?_) nonempty]
  rcases (ident_iff.mp (named id mem)).2 _ dot with alphanum | hyphen
  · exact absurd alphanum (by decide)
  · exact absurd hyphen (by decide)

/-- A version begins with a digit. -/
theorem text_head : ∃ c rest, w.text = c :: rest ∧ c.isDigit = true := by
  obtain ⟨c, rest, first⟩ := List.exists_cons_of_ne_nil w.major_ne_nil
  have digit := (digits_iff.mp (w.numbers _ List.mem_cons_self)).2 c (first ▸ List.mem_cons_self)
  rw [text, core_eq, first]
  cases w.preText with
  | none => exact ⟨c, _, rfl, digit⟩
  | some pre => exact ⟨c, _, rfl, digit⟩

end Version

theorem dropWhile_replicate_text (n : Nat) (w : Version) :
    (List.replicate n 'v' ++ w.text).dropWhile (· = 'v') = w.text := by
  obtain ⟨c, rest, first, digit⟩ := w.text_head
  rw [List.dropWhile_append_of_pos fun c mem => decide_eq_true (List.eq_of_mem_replicate mem), first,
    List.dropWhile_cons_of_neg]
  rw [decide_eq_true_iff]
  rintro rfl
  exact absurd digit (by decide)

/-- What was checked is put together as a version. -/
theorem exists_text_eq {v : List Char} (three : ((coreAndPre v).1.splitOn '.').length = 3)
    (numbers : ∀ part ∈ (coreAndPre v).1.splitOn '.', digits part = true)
    (idents : ∀ pre ∈ (coreAndPre v).2, ∀ id ∈ pre.splitOn '.', ident id = true) : ∃ w : Version, w.text = v := by
  obtain ⟨major, minor, patch, parts⟩ := List.length_eq_three.mp three
  rw [parts] at numbers
  refine ⟨⟨major, minor, patch, (coreAndPre v).2.map (·.splitOn '.'), numbers, fun ids mem => ?_⟩, ?_⟩
  · obtain ⟨pre, some_, rfl⟩ := Option.map_eq_some_iff.mp mem
    exact ⟨List.splitOn_ne_nil _ _, idents pre some_⟩
  · have core : ['.'].intercalate ((coreAndPre v).1.splitOn '.') = (coreAndPre v).1 := List.intercalate_splitOn '.'
    rw [parts] at core
    rw [Version.text, Version.preText, Version.core, core]
    dsimp only
    rw [coreAndPre]
    cases split : splitOnce '-' v with
    | none => rfl
    | some both =>
      obtain ⟨whole, -⟩ := eq_of_splitOnce (a := both.1) (b := both.2) split
      dsimp only [Option.map_some]
      rw [List.intercalate_splitOn, ← whole]

/-- A text is a version of a release exactly where, trimmed, it is a version after any number of the letter v. -/
theorem releaseVersion_ok_iff {version v : String} : releaseVersion version = .ok v ↔
    ∃ n w, trim version.toList = List.replicate n 'v' ++ Version.text w ∧ v = String.ofList w.text := by
  constructor
  · intro accepted
    rw [releaseVersion] at accepted
    dsimp only at accepted
    split at accepted
    next => cases accepted
    next =>
      split at accepted
      next ok =>
        cases accepted
        simp only [Bool.and_eq_true, decide_eq_true_eq, List.all_eq_true, Option.all_eq_true] at ok
        obtain ⟨w, same⟩ := exists_text_eq ok.1.1 ok.1.2 ok.2
        refine ⟨((trim version.toList).takeWhile (· = 'v')).length, w, ?_, by rw [same]⟩
        have lead : (trim version.toList).takeWhile (· = 'v') =
            List.replicate ((trim version.toList).takeWhile (· = 'v')).length 'v' :=
          List.eq_replicate_iff.mpr ⟨rfl, fun c mem => by simpa using List.mem_takeWhile_imp mem⟩
        rw [← lead, same, stripped, List.takeWhile_append_dropWhile]
      next => cases accepted
  · rintro ⟨n, w, trimmed, rfl⟩
    have strip : stripped version = w.text := by rw [stripped, trimmed, dropWhile_replicate_text]
    obtain ⟨c, rest, first, -⟩ := w.text_head
    rw [releaseVersion, strip, if_neg (first ▸ List.cons_ne_nil _ _), w.coreAndPre_text, if_pos]
    simp only [Bool.and_eq_true, decide_eq_true_eq, List.all_eq_true, Option.all_eq_true, w.splitOn_core]
    refine ⟨⟨rfl, w.numbers⟩, fun pre own id mem => ?_⟩
    exact (w.idents _ (w.splitOn_preText own)).2 id mem

end PeerBeam.Update
