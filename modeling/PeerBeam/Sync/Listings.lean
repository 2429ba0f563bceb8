import Mathlib.Data.List.ReduceOption
import PeerBeam.Sync.Serving

/-! What a share listing leaves out at its limit, and what it says of that. -/
namespace PeerBeam.Sync
open Std

section
variable (versions : Option (ExtTreeMap WirePath VersionVector compare))
  (hashes : Option (ExtTreeMap WirePath String compare)) (limit : ℕ)

mutual
/-- `walkNode` for a given entry limit. -/
def walkNodeWithin (components : List FileName) (w : Walk) : Node → Walk
  | .symlink => w
  | .dir listing => if w.truncated then w else walkListingWithin components w listing
  | .file file => { w with out := w.out ++ [fileEntry versions hashes (wirePath components) file] }
/-- `walkListing` for a given entry limit. -/
def walkListingWithin (components : List FileName) (w : Walk) : Listing → Walk
  | .nil => w
  | .cons name node rest =>
    if limit ≤ w.out.length then { w with truncated := true }
    else walkListingWithin components (walkNodeWithin (components ++ [name]) w node) rest
end

/-- The manifest of a shared directory, for a given entry limit. -/
def buildWithin (listing : Listing) (path : WirePath) : Manifest :=
  let w := walkListingWithin versions hashes limit [] ⟨[], false⟩ listing
  ⟨path, w.out.mergeSort fun a b => (compare a.path b.path).isLE, w.truncated, false⟩

mutual
/-- What a walk without a limit meets under a name, in order: the entry of a regular file, or nothing to list. -/
def metNode (components : List FileName) : Node → List (Option FileEntry)
  | .symlink => [none]
  | .dir listing => none :: met components listing
  | .file file => [some (fileEntry versions hashes (wirePath components) file)]
def met (components : List FileName) : Listing → List (Option FileEntry)
  | .nil => []
  | .cons name node rest => metNode (components ++ [name]) node ++ met components rest
end

def regularFiles (listing : Listing) : List FileEntry := (met versions hashes [] listing).reduceOption

def walkMet : List (Option FileEntry) → List FileEntry → Walk
  | [], out => ⟨out, false⟩
  | item :: rest, out => if limit ≤ out.length then ⟨out, true⟩ else walkMet rest (out ++ item.toList)

variable {versions hashes limit}

mutual
theorem walkNode_eq (components : List FileName) (w : Walk) (node : Node) :
    walkNode versions hashes components w node = walkNodeWithin versions hashes maxFiles components w node := by
  cases node with
  | symlink => rfl
  | file file => rfl
  | dir listing => rw [walkNode, walkNodeWithin, walkListing_eq components w listing]
theorem walkListing_eq (components : List FileName) (w : Walk) (listing : Listing) :
    walkListing versions hashes components w listing =
      walkListingWithin versions hashes maxFiles components w listing := by
  cases listing with
  | nil => rfl
  | cons name node rest => rw [walkListing, walkListingWithin, walkNode_eq _ w node, walkListing_eq _ _ rest]
end

/-- The manifest that is sent is the one for the protocol's limit. -/
theorem buildFull_eq (listing : Listing) (path : WirePath) :
    buildFull versions hashes (some (.dir listing)) path = buildWithin versions hashes maxFiles listing path := by
  rw [buildFull, buildWithin, walkListing_eq]

theorem walkMet_append (a b : List (Option FileEntry)) (out : List FileEntry) :
    walkMet limit (a ++ b) out =
      if (walkMet limit a out).truncated then walkMet limit a out else walkMet limit b (walkMet limit a out).out := by
  induction a generalizing out with
  | nil => rfl
  | cons item a ih =>
    rw [List.cons_append, walkMet, walkMet]
    split
    · rfl
    · exact ih _

theorem full_of_truncated {items : List (Option FileEntry)} {out : List FileEntry}
    (truncated : (walkMet limit items out).truncated = true) : limit ≤ (walkMet limit items out).out.length := by
  induction items generalizing out with
  | nil => cases truncated
  | cons item items ih =>
    rw [walkMet] at truncated ⊢
    split at truncated
    · next full => rwa [if_pos full]
    · next room =>
      rw [if_neg room]
      exact ih truncated

/-- A walk that was stopped goes nowhere from there. -/
theorem walkListingWithin_full {components : List FileName} {w : Walk} (truncated : w.truncated = true)
    (full : limit ≤ w.out.length) (listing : Listing) :
    walkListingWithin versions hashes limit components w listing = w := by
  cases listing with
  | nil => rfl
  | cons name node rest =>
    rw [walkListingWithin, if_pos full, ← truncated]

mutual
theorem walkNodeWithin_eq (components : List FileName) (node : Node) {out : List FileEntry}
    (room : ¬ limit ≤ out.length) :
    walkNodeWithin versions hashes limit components ⟨out, false⟩ node =
      walkMet limit (metNode versions hashes components node) out := by
  cases node with
  | symlink => rw [walkNodeWithin, metNode, walkMet, if_neg room, walkMet, Option.toList_none, List.append_nil]
  | file file => rw [walkNodeWithin, metNode, walkMet, if_neg room, walkMet, Option.toList_some]
  | dir listing =>
    rw [walkNodeWithin, if_neg Bool.false_ne_true, metNode, walkMet, if_neg room, Option.toList_none, List.append_nil,
      walkListingWithin_eq components listing]
theorem walkListingWithin_eq (components : List FileName) (listing : Listing) (out : List FileEntry) :
    walkListingWithin versions hashes limit components ⟨out, false⟩ listing =
      walkMet limit (met versions hashes components listing) out := by
  cases listing with
  | nil => rfl
  | cons name node rest =>
    rw [walkListingWithin, met, walkMet_append]
    by_cases full : limit ≤ out.length
    · have stopped : walkMet limit (metNode versions hashes (components ++ [name]) node) out = ⟨out, true⟩ := by
        cases node <;> rw [metNode, walkMet, if_pos full]
      rw [if_pos full, stopped, if_pos rfl]
    · rw [if_neg full, walkNodeWithin_eq (components ++ [name]) node full]
      split
      · next truncated => exact walkListingWithin_full truncated (full_of_truncated truncated) rest
      · next going =>
        rw [← walkListingWithin_eq components rest, ← Bool.eq_false_of_not_eq_true going]
end

/-- What a stopped walk has listed, and when it says that it was stopped. -/
theorem walkMet_spec (items : List (Option FileEntry)) (out : List FileEntry) :
    (walkMet limit items out).out = out ++ items.reduceOption.take (limit - out.length) ∧
    ((walkMet limit items out).truncated = true ↔
      items ≠ [] ∧ limit ≤ out.length + items.dropLast.reduceOption.length) := by
  induction items generalizing out with
  | nil => simp [walkMet]
  | cons item items ih =>
    rw [walkMet]
    by_cases full : limit ≤ out.length
    · rw [if_pos full]
      refine ⟨by simp [Nat.sub_eq_zero_of_le full], ?_⟩
      simp
      omega
    · rw [if_neg full]
      obtain ⟨listed, stopped⟩ := ih (out ++ item.toList)
      refine ⟨?_, ?_⟩
      · rw [listed]
        cases item with
        | none => simp
        | some e =>
          have room : limit - out.length = limit - (out.length + 1) + 1 := by omega
          simp [room]
      · rw [stopped]
        cases items with
        | nil => simp; omega
        | cons next items =>
          cases item with
          | none => simp
          | some e => simp; omega

def LeavesOut (m : Manifest) (files : List FileEntry) : Prop := ∃ e, m.files.count e < files.count e

theorem build_files (listing : Listing) (path : WirePath) :
    (buildWithin versions hashes limit listing path).files.Perm
      ((regularFiles versions hashes listing).take limit) := by
  rw [buildWithin, walkListingWithin_eq, (walkMet_spec _ _).1]
  exact List.mergeSort_perm _ _

theorem build_truncated (listing : Listing) (path : WirePath) :
    (buildWithin versions hashes limit listing path).truncated = true ↔
      met versions hashes [] listing ≠ [] ∧ limit ≤ (met versions hashes [] listing).dropLast.reduceOption.length := by
  rw [buildWithin, walkListingWithin_eq, (walkMet_spec _ _).2, List.length_nil, Nat.zero_add]

theorem leavesOut_iff (listing : Listing) (path : WirePath) :
    LeavesOut (buildWithin versions hashes limit listing path) (regularFiles versions hashes listing) ↔
      limit < (regularFiles versions hashes listing).length := by
  have counts (e : FileEntry) :
      (buildWithin versions hashes limit listing path).files.count e =
        ((regularFiles versions hashes listing).take limit).count e := (build_files listing path).count_eq e
  generalize regularFiles versions hashes listing = files at counts ⊢
  constructor
  · rintro ⟨e, fewer⟩
    by_contra fits
    rw [counts, List.take_of_length_le (Nat.not_lt.mp fits)] at fewer
    exact lt_irrefl _ fewer
  · intro long
    have beyond : files.drop limit ≠ [] := by simpa using long
    obtain ⟨e, mem⟩ := List.exists_mem_of_ne_nil _ beyond
    have more := List.count_pos_iff.mpr mem
    have parted : files.count e = (files.take limit).count e + (files.drop limit).count e := by
      rw [← List.count_append, List.take_append_drop]
    exact ⟨e, by rw [counts, parted]; omega⟩

theorem truncated_iff_leavesOut (listing : Listing) (path : WirePath) :
    ((buildWithin versions hashes limit listing path).truncated = true ↔
      LeavesOut (buildWithin versions hashes limit listing path) (regularFiles versions hashes listing)) ↔
    ¬ ((regularFiles versions hashes listing).length = limit ∧
      (met versions hashes [] listing).getLast? = some none) := by
  rw [leavesOut_iff, build_truncated, regularFiles]
  generalize met versions hashes [] listing = items
  induction items using List.reverseRecOn with
  | nil => simp
  | append_singleton items last _ =>
    rw [List.dropLast_concat, List.getLast?_concat, List.reduceOption_append, List.length_append]
    cases last with
    | none =>
      simp
      omega
    | some e => simp

theorem listed_of_whole {listing : Listing} {path : WirePath}
    (whole : (buildWithin versions hashes limit listing path).truncated = false) :
    (buildWithin versions hashes limit listing path).files.Perm (regularFiles versions hashes listing) := by
  have fits : (regularFiles versions hashes listing).length ≤ limit := by
    have going := (not_congr (build_truncated listing path)).mp (Bool.eq_false_iff.mp whole)
    rw [regularFiles]
    generalize met versions hashes [] listing = items at going
    induction items using List.reverseRecOn with
    | nil => exact Nat.zero_le _
    | append_singleton items last _ =>
      rw [List.dropLast_concat] at going
      rw [List.reduceOption_append, List.length_append]
      have one : ([last].reduceOption).length ≤ 1 := List.reduceOption_length_le _
      have below : ¬ limit ≤ items.reduceOption.length := fun full => going ⟨by simp, full⟩
      omega
  have all : (buildWithin versions hashes limit listing path).files.Perm _ := build_files listing path
  rwa [List.take_of_length_le fits] at all

/-- A listing for a limit says that it is truncated exactly when it leaves a file out, and else has every file once,
unless the directory has exactly as many files as the limit and a walk of it meets something else after them. -/
theorem truncation_told_iff (versions : Option (ExtTreeMap WirePath VersionVector compare))
    (hashes : Option (ExtTreeMap WirePath String compare)) (limit : ℕ) (listing : Listing) (path : WirePath) :
    (((buildWithin versions hashes limit listing path).truncated = true ↔
        LeavesOut (buildWithin versions hashes limit listing path) (regularFiles versions hashes listing)) ∧
      ((buildWithin versions hashes limit listing path).truncated = false →
        (buildWithin versions hashes limit listing path).files.Perm (regularFiles versions hashes listing))) ↔
    ¬ ((regularFiles versions hashes listing).length = limit ∧
      (met versions hashes [] listing).getLast? = some none) := by
  rw [truncated_iff_leavesOut]
  exact and_iff_left listed_of_whole

def digits (n : ℕ) : FileName :=
  ⟨Nat.toDigits 10 n, by
    have digit (c : Char) (mem : c ∈ Nat.toDigits 10 n) : c.isDigit = true :=
      Nat.isDigit_of_mem_toDigits (by decide) (by decide) mem
    have other (segment : List Char) (dot : '.' ∈ segment) : Nat.toDigits 10 n ≠ segment := fun same =>
      absurd (digit '.' (same ▸ dot)) (by decide)
    exact ⟨List.length_pos_iff.mp Nat.length_toDigits_pos, other _ (by decide), other _ (by decide),
      fun mem => absurd (digit '/' mem) (by decide)⟩⟩

def filesThenLink : ℕ → Listing
  | 0 => .cons (digits 0) .symlink .nil
  | n + 1 => .cons (digits (n + 1)) (.file ⟨[], 0⟩) (filesThenLink n)

theorem met_filesThenLink (n : ℕ) :
    (regularFiles none none (filesThenLink n)).length = n ∧
      (met none none [] (filesThenLink n)).getLast? = some none := by
  induction n with
  | zero => exact ⟨rfl, rfl⟩
  | succ n ih =>
    obtain ⟨length, last⟩ := ih
    have step : met none none [] (filesThenLink (n + 1)) =
        some (fileEntry none none (wirePath [digits (n + 1)]) ⟨[], 0⟩) :: met none none [] (filesThenLink n) := rfl
    refine ⟨?_, ?_⟩
    · rw [regularFiles, step, List.reduceOption_cons_of_some, List.length_cons]
      exact congrArg (· + 1) length
    · rw [step, List.getLast?_cons, last, Option.getD_some]

/-- Of as many files as a manifest holds and a link, every file is listed, and the manifest says that some are not. -/
theorem full_listing_called_truncated :
    ¬ ((buildFull none none (some (.dir (filesThenLink maxFiles))) []).truncated = true ↔
      LeavesOut (buildFull none none (some (.dir (filesThenLink maxFiles))) [])
        (regularFiles none none (filesThenLink maxFiles))) := by
  rw [buildFull_eq, truncated_iff_leavesOut, not_not]
  exact met_filesThenLink maxFiles

end

end PeerBeam.Sync
