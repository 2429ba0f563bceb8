import PeerBeam.Update.Fetch
import PeerBeam.Update.Versions
import Mathlib.Order.PiLex

/-! Which version is newer. All parts of a version are compared as numbers, those of a pre-release as well. -/
namespace PeerBeam.Update

def value (s : List Char) : Nat := s.foldl (fun n c => 10 * n + (c.toNat - '0'.toNat)) 0

/-- `str::parse` of an unsigned number of 64 bits; no part has a sign. -/
def parseU64 (s : List Char) : Option Nat := if digits s && value s < 2 ^ 64 then some (value s) else none

def parts (v : List Char) : List Nat :=
  (v.splitOnP fun c => c = '.' || c = '-' || c = '+').map fun p => (parseU64 p).getD 0

def partAt (a : List Nat) (i : Nat) : Nat := a[i]?.getD 0

def newerParts (a b : List Nat) : Bool :=
  match (List.range (max a.length b.length)).find? fun i => partAt a i ≠ partAt b i with
  | some i => partAt b i < partAt a i
  | none => false

def isNewer (latest current : String) : Bool := newerParts (parts latest.toList) (parts current.toList)

/-- Numbers in lexicographic order, with zeros after the last. -/
def Above (a b : List Nat) : Prop := toLex (partAt b) < toLex (partAt a)

theorem above_iff {a b : List Nat} :
    Above a b ↔ ∃ i, (∀ j < i, partAt b j = partAt a j) ∧ partAt b i < partAt a i := Iff.rfl

theorem newerParts_iff {a b : List Nat} : newerParts a b = true ↔ Above a b := by
  rw [above_iff, newerParts]
  constructor
  · intro newer
    split at newer
    next i found =>
      obtain ⟨_, _, before⟩ := List.find?_range_eq_some.mp found
      refine ⟨i, fun j less => ?_, of_decide_eq_true newer⟩
      have same : partAt a j = partAt b j := by simpa using before j less
      exact same.symm
    next => cases newer
  · rintro ⟨i, before, greater⟩
    have inside : i < max a.length b.length := by
      by_contra outside
      rw [partAt, partAt, List.getElem?_eq_none (by omega), List.getElem?_eq_none (by omega)] at greater
      exact absurd greater (Nat.lt_irrefl _)
    have found : ((List.range (max a.length b.length)).find? fun i => partAt a i ≠ partAt b i) = some i := by
      refine List.find?_range_eq_some.mpr ⟨decide_eq_true greater.ne', List.mem_range.mpr inside, fun j less => ?_⟩
      simpa using (before j less).symm
    rw [found]
    exact decide_eq_true greater

theorem isNewer_iff {latest current : String} :
    isNewer latest current = true ↔ Above (parts latest.toList) (parts current.toList) := newerParts_iff

theorem isNewer_irrefl (version : String) : isNewer version version = false := by
  rw [Bool.eq_false_iff, Ne, isNewer_iff]
  exact lt_irrefl _

theorem isNewer_trans {a b c : String} (first : isNewer a b = true) (next : isNewer b c = true) :
    isNewer a c = true := by
  rw [isNewer_iff] at first next ⊢
  exact lt_trans next first

theorem above_cons_cons {x y : Nat} {a b : List Nat} : Above (x :: a) (y :: b) ↔ y < x ∨ x = y ∧ Above a b := by
  simp only [above_iff]
  constructor
  · rintro ⟨_ | i, before, greater⟩
    · exact .inl greater
    · exact .inr ⟨(before 0 (Nat.succ_pos i)).symm, i, fun j less => before (j + 1) (Nat.succ_lt_succ less), greater⟩
  · rintro (greater | ⟨rfl, i, before, greater⟩)
    · exact ⟨0, fun j less => absurd less (Nat.not_lt_zero j), greater⟩
    · refine ⟨i + 1, fun j less => ?_, greater⟩
      cases j with
      | zero => rfl
      | succ j => exact before j (Nat.lt_of_succ_lt_succ less)

theorem not_above_nil (b : List Nat) : ¬ Above [] b := by
  rintro ⟨i, -, greater⟩
  exact Nat.not_lt_zero _ greater

theorem partAt_zero : partAt [0] = partAt [] := by
  funext i
  cases i <;> rfl

theorem above_nil_iff {a : List Nat} : Above a [] ↔ ∃ n ∈ a, n ≠ 0 := by
  induction a with
  | nil => exact iff_of_false (not_above_nil []) fun ⟨_, mem, _⟩ => absurd mem List.not_mem_nil
  | cons x a ih =>
    have padded : Above (x :: a) [] ↔ Above (x :: a) [0] := by rw [Above, Above, partAt_zero]
    rw [padded, above_cons_cons, ih, List.exists_mem_cons_iff]
    by_cases zero : x = 0
    · simp [zero]
    · simp [zero, Nat.pos_of_ne_zero zero]

inductive Identifier
  | number (n : Nat)
  | name (s : List Char)
  deriving DecidableEq

/-- Numbers come first, by value; names follow, by their characters. -/
def Identifier.Before : Identifier → Identifier → Prop
  | number n, number m => n < m
  | number _, name _ => True
  | name _, number _ => False
  | name s, name t => s < t

structure SemVer where
  major : Nat
  minor : Nat
  patch : Nat
  pre : Option (List Identifier)
  deriving DecidableEq

namespace SemVer

def SameCore (v w : SemVer) : Prop := v.major = w.major ∧ v.minor = w.minor ∧ v.patch = w.patch

/-- The three numbers of the one come before those of the other. -/
def CoreBefore (v w : SemVer) : Prop :=
  v.major < w.major ∨ v.major = w.major ∧
    (v.minor < w.minor ∨ v.minor = w.minor ∧ v.patch < w.patch)

/-- A pre-release comes before its release; of two the identifiers decide, and then that one has more of them. -/
def PreBefore : Option (List Identifier) → Option (List Identifier) → Prop
  | some _, none => True
  | some p, some q => List.Lex Identifier.Before p q
  | none, _ => False

theorem SameCore.symm {v w : SemVer} (h : v.SameCore w) : w.SameCore v := ⟨h.1.symm, h.2.1.symm, h.2.2.symm⟩

theorem SameCore.not_coreBefore {v w : SemVer} (h : v.SameCore w) : ¬ v.CoreBefore w := by
  obtain ⟨major, minor, patch⟩ := h
  rw [CoreBefore]
  omega

theorem not_preBefore_none (pre : Option (List Identifier)) : ¬ PreBefore none pre := by
  cases pre <;> exact id

def Precedes (v w : SemVer) : Prop := v.CoreBefore w ∨ v.SameCore w ∧ PreBefore v.pre w.pre

end SemVer

namespace Version
variable (w : Version)

def identifier (s : List Char) : Identifier := if digits s then .number (value s) else .name s

def semver : SemVer := ⟨value w.major, value w.minor, value w.patch, w.pre.map fun ids => ids.map identifier⟩

/-- The three numbers are numbers of 64 bits. -/
def Small : Prop := value w.major < 2 ^ 64 ∧ value w.minor < 2 ^ 64 ∧ value w.patch < 2 ^ 64

def preNumbers : List Nat := w.preText.elim [] parts

variable {w} in
theorem preNumbers_eq_nil (release : w.pre = none) : w.preNumbers = [] := by
  rw [preNumbers, preText, release]
  rfl

end Version

theorem parseU64_of_digits {s : List Char} (number : digits s = true) (small : value s < 2 ^ 64) :
    parseU64 s = some (value s) := by
  rw [parseU64, number, decide_eq_true small]
  rfl

/-- Digits are not split. -/
theorem not_separator {s : List Char} (number : digits s = true) (c : Char) (mem : c ∈ s) :
    (decide (c = '.') || decide (c = '-') || decide (c = '+')) = false := by
  have digit := (digits_iff.mp number).2 c mem
  rw [Bool.or_eq_false_iff, Bool.or_eq_false_iff]
  refine ⟨⟨?_, ?_⟩, ?_⟩ <;>
    · refine decide_eq_false fun same => ?_
      rw [same] at digit
      exact absurd digit (by decide)

theorem parts_append {s : List Char} (number : digits s = true) (small : value s < 2 ^ 64) {sep : Char}
    (separates : (decide (sep = '.') || decide (sep = '-') || decide (sep = '+')) = true) (rest : List Char) :
    parts (s ++ sep :: rest) = value s :: parts rest := by
  rw [parts, List.splitOnP_append_cons_of_forall_mem (not_separator number) _ separates, List.map_cons,
    parseU64_of_digits number small]
  rfl

theorem parts_digits {s : List Char} (number : digits s = true) (small : value s < 2 ^ 64) : parts s = [value s] := by
  rw [parts, List.splitOnP_eq_singleton (not_separator number), List.map_singleton, parseU64_of_digits number small]
  rfl

namespace Version
variable {v w : Version}

theorem parts_text (small : w.Small) :
    parts w.text = value w.major :: value w.minor :: value w.patch :: w.preNumbers := by
  have number (part : List Char) (own : part ∈ [w.major, w.minor, w.patch]) : digits part = true := w.numbers part own
  rw [text, preNumbers, core_eq]
  cases w.preText with
  | none =>
    dsimp only [Option.elim]
    rw [parts_append (number _ (by simp)) small.1 rfl, parts_append (number _ (by simp)) small.2.1 rfl,
      parts_digits (number _ (by simp)) small.2.2]
  | some pre =>
    dsimp only [Option.elim]
    rw [List.append_assoc, List.cons_append, List.append_assoc, List.cons_append,
      parts_append (number _ (by simp)) small.1 rfl, parts_append (number _ (by simp)) small.2.1 rfl,
      parts_append (number _ (by simp)) small.2.2 rfl]

/-- The three numbers decide, and then the numbers of the pre-release. -/
theorem isNewer_text_iff (small : v.Small) (small' : w.Small) :
    isNewer (String.ofList v.text) (String.ofList w.text) = true ↔
      w.semver.CoreBefore v.semver ∨ w.semver.SameCore v.semver ∧ Above v.preNumbers w.preNumbers := by
  rw [isNewer_iff, String.toList_ofList, String.toList_ofList, parts_text small, parts_text small', above_cons_cons,
    above_cons_cons, above_cons_cons, SemVer.CoreBefore, SemVer.SameCore]
  simp only [semver]
  grind

end Version

inductive DownloadOutcome
  | downloaded (latest : String) (file : Downloaded)
  | nothingNewer (latest : Option String)
  | checkFailed (why : String)
  | notWritten (latest : Option String) (why : DownloadError)

/-- What is asked of the machine, the site and the server is arbitrary. -/
def downloadNewest (artifactForThisBuild : String → Except DownloadError Unit)
    (check : Except String (Option String)) (fetch : String → Except DownloadError Downloaded) (current : String) :
    DownloadOutcome :=
  match artifactForThisBuild current with
  | .error why => .notWritten none why
  | .ok () =>
    match check with
    | .error e => .checkFailed e
    | .ok none => .nothingNewer none
    | .ok (some latest) =>
      if !isNewer latest current then .nothingNewer (some latest)
      else
        match fetch latest with
        | .ok file => .downloaded latest file
        | .error why => .notWritten (some latest) why

def Updates (current latest : String) : Prop :=
  ∃ artifact check fetch file, downloadNewest artifact check fetch current = .downloaded latest file

theorem Updates.newer {current latest : String} (h : Updates current latest) : isNewer latest current = true := by
  obtain ⟨artifact, check, fetch, file, done⟩ := h
  rw [downloadNewest.eq_def] at done
  split at done
  · cases done
  · split at done
    · cases done
    · cases done
    · split at done
      next => cases done
      next newer =>
        split at done
        · cases done
          simpa using newer
        · cases done

/-- However many downloads follow each other, no version comes again. -/
theorem nodup_updates {versions : List String} (updates : versions.IsChain Updates) : versions.Nodup := by
  have trans : IsTrans String fun current latest => isNewer latest current = true :=
    ⟨fun _ _ _ first next => isNewer_trans next first⟩
  have newer := (updates.imp fun _ _ => Updates.newer).pairwise
  refine newer.imp fun {a b} greater same => ?_
  rw [same, isNewer_irrefl] at greater
  cases greater

/-- The comparison is the precedence of versions where the three numbers differ or neither is a pre-release. Of two
with the same numbers the pre-releases are compared as numbers. On all texts it is a strict order. -/
theorem isNewer_order :
    (∀ a b va vb, releaseVersion a = .ok va → releaseVersion b = .ok vb →
      ∃ v w : Version, va = String.ofList v.text ∧ vb = String.ofList w.text ∧ (v.Small → w.Small →
        (¬ v.semver.SameCore w.semver ∨ v.pre = none ∧ w.pre = none →
          (isNewer va vb = true ↔ w.semver.Precedes v.semver)) ∧
        (v.semver.SameCore w.semver →
          (isNewer va vb = true ↔ Above v.preNumbers w.preNumbers) ∧
          (v.pre = none → isNewer va vb = false) ∧
          (w.pre = none → (isNewer va vb = true ↔ ∃ n ∈ v.preNumbers, n ≠ 0))))) ∧
    (∀ version, isNewer version version = false) ∧
    (∀ a b c, isNewer a b = true → isNewer b c = true → isNewer a c = true) ∧
    ∀ versions : List String, versions.IsChain Updates → versions.Nodup := by
  refine ⟨fun a b va vb accepted accepted' => ?_, isNewer_irrefl, fun _ _ _ => isNewer_trans,
    fun _ => nodup_updates⟩
  obtain ⟨_, v, -, rfl⟩ := releaseVersion_ok_iff.mp accepted
  obtain ⟨_, w, -, rfl⟩ := releaseVersion_ok_iff.mp accepted'
  refine ⟨v, w, rfl, rfl, fun small small' => ?_⟩
  have newer := Version.isNewer_text_iff small small'
  constructor
  · intro apart
    rw [newer, SemVer.Precedes]
    refine or_congr_right (and_congr_right fun same => ?_)
    rcases apart with other | ⟨release, release'⟩
    · exact absurd same.symm other
    · rw [Version.preNumbers_eq_nil release, Version.semver, release']
      exact iff_of_false (not_above_nil _) (SemVer.not_preBefore_none _)
  · intro same
    have newer : isNewer (String.ofList v.text) (String.ofList w.text) = true ↔ Above v.preNumbers w.preNumbers :=
      newer.trans ((or_iff_right same.symm.not_coreBefore).trans (and_iff_right same.symm))
    refine ⟨newer, fun release => ?_, fun release => ?_⟩
    · rw [Bool.eq_false_iff, Ne, newer, Version.preNumbers_eq_nil release]
      exact not_above_nil _
    · rw [newer, Version.preNumbers_eq_nil release, above_nil_iff]

private def plainRelease : Version := ⟨['1'], ['0'], ['0'], none, by decide, nofun⟩

private def candidate (id : List Char) (named : ident id = true) : Version :=
  ⟨['1'], ['0'], ['0'], some [id], by decide, fun _ some_ => by cases some_; exact ⟨nofun, by simpa using named⟩⟩

/-- A release is not newer than its first candidate, and a numbered pre-release is newer than the release. -/
theorem release_not_newer_than_candidate :
    releaseVersion "1.0.0" = .ok (String.ofList plainRelease.text) ∧
      releaseVersion "1.0.0-rc1" = .ok (String.ofList (candidate ['r', 'c', '1'] rfl).text) ∧
      (candidate ['r', 'c', '1'] rfl).semver.Precedes plainRelease.semver ∧ isNewer "1.0.0" "1.0.0-rc1" = false ∧
      releaseVersion "1.0.0-1" = .ok (String.ofList (candidate ['1'] rfl).text) ∧
      (candidate ['1'] rfl).semver.Precedes plainRelease.semver ∧ isNewer "1.0.0-1" "1.0.0" = true :=
  ⟨by decide, by decide, .inr ⟨⟨rfl, rfl, rfl⟩, trivial⟩, by decide, by decide, .inr ⟨⟨rfl, rfl, rfl⟩, trivial⟩,
    by decide⟩

end PeerBeam.Update
