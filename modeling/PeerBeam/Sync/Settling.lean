import PeerBeam.Lib.SortedMap

/-! Which files of a polled folder have stopped changing. -/
namespace PeerBeam.Sync

structure Observed where
  size : UInt64
  modified : Int64
  deriving DecidableEq

/-- What the scanner remembers of a file between passes. -/
structure Pending where
  seen : Observed
  /-- The scans in a row this state has held. -/
  holds : ℕ
  reported : Bool
  deriving DecidableEq

abbrev Scan := List (String × Observed)

structure Settling where
  pending : Std.ExtTreeMap String Pending

namespace Settling

def requiredHolds : ℕ := 2

def new : Settling := ⟨∅⟩

/-- `u32::saturating_add` of one. -/
def addHold (holds : ℕ) : ℕ := min (holds + 1) (2 ^ 32 - 1)

/-- The holds of a file and whether its state was reported, once this scan is counted. -/
def counted (prev : Option Pending) (now : Observed) : ℕ × Bool :=
  match prev with
  | some prev => if prev.seen = now then (addHold prev.holds, prev.reported) else (1, false)
  | none => (1, false)

def reports (prev : Option Pending) (now : Observed) : Bool :=
  decide (requiredHolds ≤ (counted prev now).1) && !(counted prev now).2

def followed (prev : Option Pending) (now : Observed) : Pending :=
  ⟨now, (counted prev now).1, (counted prev now).2 || reports prev now⟩

/-- One file of a scan: the paths settled so far, and the map the scan leaves. -/
def meet (s : Settling) (acc : List String × Std.ExtTreeMap String Pending) (file : String × Observed) :
    List String × Std.ExtTreeMap String Pending :=
  (if reports s.pending[file.1]? file.2 then acc.1 ++ [file.1] else acc.1,
    acc.2.insert file.1 (followed s.pending[file.1]? file.2))

/-- Feed one scan; the paths that have settled, sorted. -/
def observe (s : Settling) (scan : Scan) : Settling × List String :=
  let (settled, next) := scan.foldl s.meet ([], ∅)
  (⟨next⟩, settled.mergeSort)

/-- The scanner behind a history of scans, the oldest first. -/
def after (scans : List Scan) : Settling := scans.foldl (fun s scan => (s.observe scan).1) new

def reported (scans : List Scan) (k : ℕ) : List String := ((after (scans.take k)).observe (scans.getD k [])).2

end Settling

def Scan.saw (scan : Scan) (path : String) : Option Observed := (scan.find? (·.1 = path)).map (·.2)

def seenAt (scans : List Scan) (k : ℕ) (path : String) : Option Observed := Scan.saw (scans.getD k []) path

def Scan.Distinct (scan : Scan) : Prop := (scan.map (·.1)).Nodup

instance Scan.instDecidableDistinct (scan : Scan) : Decidable (Scan.Distinct scan) := inferInstanceAs (Decidable (scan.map (·.1)).Nodup)

namespace Settling
variable {s : Settling} {scan : Scan} {path : String}

theorem saw_cons (path' : String) (now : Observed) (scan : Scan) :
    Scan.saw ((path', now) :: scan) path = if path' = path then some now else Scan.saw scan path := by
  rw [Scan.saw, List.find?_cons]
  by_cases same : path' = path
  · simp [same]
  · simp [same, Scan.saw]

theorem saw_eq_none : Scan.saw scan path = none ↔ path ∉ scan.map (·.1) := by
  rw [Scan.saw, Option.map_eq_none_iff, List.find?_eq_none, List.mem_map]
  constructor
  · rintro absent ⟨file, mem, same⟩
    exact absent file mem (decide_eq_true same)
  · exact fun absent file mem same => absent ⟨file, mem, of_decide_eq_true same⟩

/-- What a scan makes of each of its files depends on nothing it made of another. -/
theorem foldl_meet (distinct : scan.Distinct) (acc : List String × Std.ExtTreeMap String Pending) (path : String) :
    (scan.foldl s.meet acc).2[path]? =
        (match scan.saw path with
        | some now => some (followed s.pending[path]? now)
        | none => acc.2[path]?) ∧
      (scan.foldl s.meet acc).1.count path =
        acc.1.count path + if (scan.saw path).any (reports s.pending[path]? ·) then 1 else 0 := by
  induction scan generalizing acc with
  | nil => exact ⟨rfl, rfl⟩
  | cons file scan ih =>
    obtain ⟨path', now⟩ := file
    obtain ⟨fresh, distinct⟩ := List.nodup_cons.mp distinct
    obtain ⟨entry, count⟩ := ih distinct (s.meet acc (path', now))
    rw [List.foldl_cons, entry, count, saw_cons]
    by_cases same : path' = path
    · subst same
      rw [saw_eq_none.mpr fresh, if_pos rfl]
      refine ⟨?_, ?_⟩
      · exact (SortedMap.get_insert ..).trans (if_pos rfl)
      · rw [meet]
        by_cases report : reports s.pending[path']? now = true
        · simp [report]
        · simp [report]
    · rw [if_neg same]
      refine ⟨?_, ?_⟩
      · cases Scan.saw scan path with
        | some now' => rfl
        | none => exact (SortedMap.get_insert ..).trans (if_neg same)
      · rw [meet]
        by_cases report : reports s.pending[path']? now = true
        · simp [report, same]
        · simp [report]

theorem observe_entry (distinct : scan.Distinct) (path : String) :
    (s.observe scan).1.pending[path]? = (scan.saw path).map (followed s.pending[path]?) := by
  have entry := (foldl_meet (s := s) distinct ([], ∅) path).1
  rw [observe]
  dsimp only
  rw [entry]
  cases scan.saw path with
  | some now => rfl
  | none => exact Std.ExtTreeMap.getElem?_empty

theorem observe_count (distinct : scan.Distinct) (path : String) :
    (s.observe scan).2.count path = if (scan.saw path).any (reports s.pending[path]? ·) then 1 else 0 := by
  have count := (foldl_meet (s := s) distinct ([], ∅) path).2
  rw [List.count_nil, Nat.zero_add] at count
  rw [observe]
  exact ((List.mergeSort_perm _ _).count_eq path).trans count

/-- What the scanner remembers of a path, where the last scan saw `last` and the one before it `prev`. -/
def Follows (prev last : Option Observed) (entry : Option Pending) : Prop :=
  match last with
  | none => entry = none
  | some now => ∃ holds, entry = some ⟨now, holds, decide (2 ≤ holds)⟩ ∧ 0 < holds ∧ (2 ≤ holds ↔ prev = some now)

theorem two_le_addHold {holds : ℕ} (positive : 0 < holds) : 2 ≤ addHold holds := by
  rw [addHold, le_min_iff]
  omega

/-- One scan of a path. -/
theorem follows_followed {prev last : Option Observed} {entry : Option Pending} (follows : Follows prev last entry)
    (now : Observed) :
    Follows last (some now) (some (followed entry now)) ∧
      (reports entry now = true ↔ last = some now ∧ prev ≠ some now) := by
  cases last with
  | none =>
    obtain rfl : entry = none := follows
    exact ⟨⟨1, rfl, Nat.one_pos, by simp⟩, by simp [reports, counted, requiredHolds]⟩
  | some before =>
    obtain ⟨holds, rfl, positive, twice⟩ := follows
    by_cases same : before = now
    · subst same
      have held := two_le_addHold positive
      have step : counted (some ⟨before, holds, decide (2 ≤ holds)⟩) before = (addHold holds, decide (2 ≤ holds)) :=
        if_pos rfl
      refine ⟨⟨addHold holds, ?_, by omega, by simp [held]⟩, ?_⟩
      · rw [followed, reports, step, requiredHolds]
        simp [held]
      · rw [reports, step, requiredHolds, ne_eq, ← not_congr twice]
        simp [held]
    · have step : counted (some ⟨before, holds, decide (2 ≤ holds)⟩) now = (1, false) := if_neg same
      refine ⟨⟨1, ?_, Nat.one_pos, by simp [same]⟩, ?_⟩
      · rw [followed, reports, step, requiredHolds]
        rfl
      · rw [reports, step, requiredHolds]
        simp [same]

/-- What was seen of a path some scans before a given one, if there were so many. -/
def ago (scans : List Scan) (back k : ℕ) (path : String) : Option Observed :=
  if back ≤ k then seenAt scans (k - back) path else none

theorem ago_succ (scans : List Scan) (k : ℕ) (path : String) : ago scans 2 (k + 1) path = ago scans 1 k path := by
  cases k with
  | zero => rfl
  | succ k => rw [ago, ago, if_pos (by omega), if_pos (by omega)]; rfl

theorem after_take_succ {scans : List Scan} {k : ℕ} (inside : k < scans.length) :
    after (scans.take (k + 1)) = ((after (scans.take k)).observe (scans.getD k [])).1 := by
  have last : scans.getD k [] = scans[k] := by rw [List.getD_eq_getElem?_getD, List.getElem?_eq_getElem inside]; rfl
  rw [after, List.take_succ_eq_append_getElem inside, List.foldl_append, last]
  rfl

/-- The scanner follows each path through a whole history. -/
theorem follows_after {scans : List Scan} (distinct : ∀ scan ∈ scans, Scan.Distinct scan) {k : ℕ}
    (inside : k ≤ scans.length) (path : String) :
    Follows (ago scans 2 k path) (ago scans 1 k path) (after (scans.take k)).pending[path]? := by
  induction k with
  | zero => exact Std.ExtTreeMap.getElem?_empty
  | succ k ih =>
    have here : scans.getD k [] ∈ scans := by
      rw [List.getD_eq_getElem?_getD, List.getElem?_eq_getElem inside]
      exact List.getElem_mem inside
    have last : ago scans 1 (k + 1) path = Scan.saw (scans.getD k []) path := if_pos (Nat.le_add_left 1 k)
    rw [after_take_succ inside, observe_entry (distinct _ here), ago_succ, last]
    cases Scan.saw (scans.getD k []) path with
    | none => rfl
    | some now => exact (follows_followed (ih (Nat.le_of_succ_le inside)) now).1

def FirstOfRun (scans : List Scan) (k : ℕ) (path : String) (now : Observed) : Prop :=
  seenAt scans k path = some now ∧ ∀ j, j + 1 = k → seenAt scans j path ≠ some now

theorem firstOfRun_iff {scans : List Scan} {k : ℕ} {now : Observed} :
    FirstOfRun scans k path now ↔ ago scans 1 (k + 1) path = some now ∧ ago scans 2 (k + 1) path ≠ some now := by
  rw [FirstOfRun, ago_succ]
  cases k with
  | zero => simp [ago]
  | succ k => simp [ago]

theorem mem_reported {scans : List Scan} (distinct : ∀ scan ∈ scans, Scan.Distinct scan) {k : ℕ}
    (inside : k < scans.length) (path : String) :
    path ∈ reported scans k ↔
      ∃ j now, k = j + 1 ∧ FirstOfRun scans j path now ∧ seenAt scans k path = some now := by
  have here : Scan.Distinct (scans.getD k []) := by
    rw [List.getD_eq_getElem?_getD, List.getElem?_eq_getElem inside]
    exact distinct _ (List.getElem_mem inside)
  have count : (reported scans k).count path =
      if (seenAt scans k path).any (reports (after (scans.take k)).pending[path]? ·) then 1 else 0 :=
    observe_count here path
  rw [← List.count_pos_iff, count]
  cases saw : seenAt scans k path with
  | none => simp
  | some now =>
    have report := (follows_followed (follows_after distinct inside.le path) now).2
    have positive : (0 < if reports (after (scans.take k)).pending[path]? now = true then 1 else 0) ↔
        reports (after (scans.take k)).pending[path]? now = true := by
      split <;> simp [*]
    rw [Option.any_some, positive, report]
    constructor
    · rintro ⟨last, prev⟩
      cases k with
      | zero => simp [ago] at last
      | succ j => exact ⟨j, now, rfl, firstOfRun_iff.mpr ⟨last, prev⟩, rfl⟩
    · rintro ⟨j, now', rfl, first, same⟩
      exact Option.some.inj same ▸ firstOfRun_iff.mp first

theorem nodup_reported {scans : List Scan} (distinct : ∀ scan ∈ scans, Scan.Distinct scan) {k : ℕ}
    (inside : k < scans.length) : (reported scans k).Nodup := by
  have here : Scan.Distinct (scans.getD k []) := by
    rw [List.getD_eq_getElem?_getD, List.getElem?_eq_getElem inside]
    exact distinct _ (List.getElem_mem inside)
  rw [List.nodup_iff_count_le_one]
  intro path
  have count := observe_count (s := after (scans.take k)) here path
  rw [reported, count]
  split <;> simp

/-- In a row of scans that see the same of a path only the second reports it. -/
theorem reported_in_run {scans : List Scan} (distinct : ∀ scan ∈ scans, Scan.Distinct scan) {k first : ℕ}
    (inside : k < scans.length) {now : Observed} (start : FirstOfRun scans first path now)
    (same : ∀ j, first ≤ j → j ≤ k → seenAt scans j path = some now) (le : first ≤ k) :
    path ∈ reported scans k ↔ k = first + 1 := by
  rw [mem_reported distinct inside]
  constructor
  · rintro ⟨j, now', rfl, begins, saw⟩
    by_contra later
    have now_eq : now = now' := Option.some.inj ((same (j + 1) le (le_refl _)).symm.trans saw)
    rcases Nat.lt_or_eq_of_le le with lt | rfl
    · have before : first < j := by omega
      exact begins.2 (j - 1) (by omega) (now_eq ▸ same (j - 1) (by omega) (by omega))
    · exact start.2 j rfl (now_eq ▸ begins.1)
  · rintro rfl
    exact ⟨first, now, rfl, start, same (first + 1) le (le_refl _)⟩

/-- A history of scans, each with distinct paths: a scan reports the paths that it sees as the scan before it did,
where that scan was the first to see them so, each once. In a row of scans that see the same of a path, however
long, only the second reports it. -/
theorem settles_once (scans : List Scan) (distinct : ∀ scan ∈ scans, Scan.Distinct scan) (k : ℕ)
    (inside : k < scans.length) :
    (reported scans k).Nodup ∧
    (∀ path, path ∈ reported scans k ↔
      ∃ j now, k = j + 1 ∧ FirstOfRun scans j path now ∧ seenAt scans k path = some now) ∧
    (∀ path first now, FirstOfRun scans first path now → first ≤ k →
      (∀ j, first ≤ j → j ≤ k → seenAt scans j path = some now) → (path ∈ reported scans k ↔ k = first + 1)) ∧
    ∀ path j, k = j + 1 → seenAt scans k path ≠ seenAt scans j path → path ∉ reported scans k := by
  refine ⟨nodup_reported distinct inside, mem_reported distinct inside,
    fun path first now start le same => reported_in_run distinct inside start same le, fun path j next changed mem => ?_⟩
  obtain ⟨j', now, next', first, saw⟩ := (mem_reported distinct inside path).mp mem
  obtain rfl : j = j' := by omega
  exact changed (saw.trans first.1.symm)

/-- A file that grows, holds still, vanishes and comes back is reported once while it is there, and not on its
return. -/
theorem growing_file_reported :
    let scans : List Scan := [[("big", ⟨10, 5⟩)], [("big", ⟨200, 5⟩)], [("big", ⟨200, 5⟩)], [], [("big", ⟨200, 5⟩)]]
    "big" ∈ reported scans 2 ∧ "big" ∉ reported scans 1 ∧ "big" ∉ reported scans 4 := by
  intro scans
  have distinct : ∀ scan ∈ scans, Scan.Distinct scan := by decide
  refine ⟨?_, ?_, ?_⟩
  · exact ((settles_once scans distinct 2 (by decide)).2.1 "big").mpr
      ⟨1, ⟨200, 5⟩, rfl, firstOfRun_iff.mpr (by decide), by decide⟩
  · exact (settles_once scans distinct 1 (by decide)).2.2.2 "big" 0 rfl (by decide)
  · exact (settles_once scans distinct 4 (by decide)).2.2.2 "big" 3 rfl (by decide)

end Settling

end PeerBeam.Sync
