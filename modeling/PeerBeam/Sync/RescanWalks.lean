import PeerBeam.Sync.Index
import PeerBeam.Sync.VersionLattice

/-! A rescan of whatever a walk meets: files that cannot be read, names that are the same on
the wire although two files carry them, because a name that is not Unicode is rendered lossily,
and paths that the store has no record for, because the name of its file would be too long. -/
namespace PeerBeam.Sync
open Std (ExtTreeMap)

structure WalkedFile where
  path : WirePath
  size : Nat
  modified : Int
  /-- What reading it afterwards gives. -/
  bytes : Option Bytes

def WalkedFile.ofFile (item : WirePath × File) : WalkedFile :=
  ⟨item.1, item.2.size, item.2.modified, some item.2.bytes⟩

namespace Scanner
variable (sc : Scanner)

/-- `record_chunks`; nothing is recorded of a file that cannot be read. -/
def recordWalked (chunks : ChunkStore) (file : WalkedFile) : String × ChunkStore :=
  match file.bytes with
  | none => ("", chunks)
  | some bytes => sc.recordChunks chunks ⟨bytes, file.modified⟩

/-- The first guard of `rescan`. -/
def Fresh (e : IndexEntry) (file : WalkedFile) : Prop :=
  e.deleted = false ∧ e.size = file.size ∧ e.modified = file.modified

instance (e : IndexEntry) (file : WalkedFile) : Decidable (Fresh e file) :=
  inferInstanceAs (Decidable (_ ∧ _ ∧ _))

def editedWalked (version : VersionVector) (file : WalkedFile) (content : String) : IndexEntry where
  size := file.size
  modified := file.modified
  version := version.bump sc.device
  content := content
  deleted := false

def meet (p : Progress) (file : WalkedFile) : Progress :=
  let known := p.known.erase file.path
  match p.known[file.path]? with
  | some e =>
    if Fresh e file then
      { p with known, index := { p.index with entries := p.index.entries.insert file.path e } }
    else
      let (content, chunks) := sc.recordWalked p.index.chunks file
      let entries := p.index.entries.insert file.path (sc.editedWalked e.version file content)
      { index := ⟨entries, chunks⟩, known, changed := p.changed ++ [file.path] }
  | none =>
    let (content, chunks) := sc.recordWalked p.index.chunks file
    let entries := p.index.entries.insert file.path (sc.editedWalked .new file content)
    { index := ⟨entries, chunks⟩, known, changed := p.changed ++ [file.path] }

/-- `rescan`, on what its walk met, where the store takes every entry. -/
def rescanWalk (ix : SyncIndex) (walk : List WalkedFile) : SyncIndex × List WirePath :=
  let met := walk.foldl sc.meet ⟨ix, ix.entries, []⟩
  let done := met.known.toList.foldl sc.bury met
  (done.index, done.changed)

/-- Where every file can be read and has a name of its own this is the rescan of the folder. -/
theorem rescan_eq_walk (ix : SyncIndex) (d : Folder) :
    sc.rescan ix d = sc.rescanWalk ix (d.walk.map .ofFile) := by
  rw [rescanWalk, List.foldl_map]
  rfl

end Scanner

/-- A scanner and the store its entries go to. -/
structure Indexer extends Scanner where
  /-- Whether the store takes a record of this path. -/
  stores : WirePath → Bool

namespace Indexer
open Scanner
variable (x : Indexer)

/-- The index after `put`, or as a refused one leaves it. -/
def put (ix : SyncIndex) (path : WirePath) (e : IndexEntry) : Except SyncIndex SyncIndex :=
  if x.stores path then .ok { ix with entries := ix.entries.insert path e } else .error ix

def meet (p : Progress) (file : WalkedFile) : Except SyncIndex Progress :=
  let known := p.known.erase file.path
  match p.known[file.path]? with
  | some e =>
    if Fresh e file then do
      let index ← x.put p.index file.path e
      return { p with index, known }
    else do
      -- the chunk map is recorded before the entry is put
      let (content, chunks) := x.recordWalked p.index.chunks file
      let index ← x.put { p.index with chunks } file.path (x.editedWalked e.version file content)
      return { index, known, changed := p.changed ++ [file.path] }
  | none => do
    let (content, chunks) := x.recordWalked p.index.chunks file
    let index ← x.put { p.index with chunks } file.path (x.editedWalked .new file content)
    return { index, known, changed := p.changed ++ [file.path] }

def bury (p : Progress) (item : WirePath × IndexEntry) : Except SyncIndex Progress :=
  let (path, e) := item
  if e.deleted then .ok p
  else do
    let index ← x.put p.index path (x.missing e)
    return { p with index, changed := p.changed ++ [path] }

/-- The two loops; an error is the index that the failed `put` leaves. -/
def loops (ix : SyncIndex) (walk : List WalkedFile) : Except SyncIndex Progress := do
  let met ← walk.foldlM x.meet ⟨ix, ix.entries, []⟩
  met.known.toList.foldlM x.bury met

/-- The index a rescan leaves, and the changed paths unless it fails. -/
def rescan (ix : SyncIndex) (walk : List WalkedFile) : SyncIndex × Option (List WirePath) :=
  match x.loops ix walk with
  | .ok p => (p.index, some p.changed)
  | .error left => (left, none)

/-- Whether the store takes what meeting an entry without a file puts. -/
def takes (item : WirePath × IndexEntry) : Bool := item.2.deleted || x.stores item.1

theorem meet_stops (p : Progress) (file : WalkedFile) :
    x.meet p file = if x.stores file.path then .ok (x.toScanner.meet p file)
      else .error ⟨p.index.entries, (x.toScanner.meet p file).index.chunks⟩ := by
  cases known : p.known[file.path]? with
  | none =>
    simp only [meet, Scanner.meet, known, put]
    split <;> rfl
  | some e =>
    by_cases fresh : Fresh e file
    · simp only [meet, Scanner.meet, known, put, if_pos fresh]
      split <;> rfl
    · simp only [meet, Scanner.meet, known, put, if_neg fresh]
      split <;> rfl

theorem bury_stops (p : Progress) (item : WirePath × IndexEntry) :
    x.bury p item = if x.takes item then .ok (x.toScanner.bury p item) else .error p.index := by
  by_cases gone : item.2.deleted = true
  · simp [bury, Scanner.bury, takes, gone]
  · simp only [bury, Scanner.bury, takes, put, gone, Bool.false_or, if_false, Bool.false_eq_true]
    split <;> rfl

/-- Where the walk meets a path that the store does not take, the rescan ends there. -/
theorem rescan_refused (ix : SyncIndex) {walk : List WalkedFile} {file : WalkedFile}
    (first : (walk.dropWhile (x.stores ·.path)).head? = some file) :
    let met := (walk.takeWhile (x.stores ·.path)).foldl x.toScanner.meet ⟨ix, ix.entries, []⟩
    x.rescan ix walk = (⟨met.index.entries, (x.toScanner.meet met file).index.chunks⟩, none) := by
  intro met
  have ended := KeyedFold.foldlM_stops x.meet_stops walk ⟨ix, ix.entries, []⟩
  rw [first] at ended
  rw [rescan, loops, ended]
  rfl

/-- Otherwise it goes on to the entries without a file. -/
theorem rescan_met (ix : SyncIndex) {walk : List WalkedFile}
    (stored : (walk.dropWhile (x.stores ·.path)).head? = none) :
    let met := walk.foldl x.toScanner.meet ⟨ix, ix.entries, []⟩
    x.rescan ix walk = (met.known.toList.dropWhile x.takes).head?.elim
      ((x.toScanner.rescanWalk ix walk).1, some (x.toScanner.rescanWalk ix walk).2)
      fun _ => (((met.known.toList.takeWhile x.takes).foldl x.toScanner.bury met).index, none) := by
  intro met
  have through := KeyedFold.foldlM_stops x.meet_stops walk ⟨ix, ix.entries, []⟩
  rw [stored] at through
  have ended : x.loops ix walk = met.known.toList.foldlM x.bury met := by
    rw [loops, through]
    rfl
  rw [KeyedFold.foldlM_stops x.bury_stops] at ended
  rw [rescan, ended]
  cases (met.known.toList.dropWhile x.takes).head? with
  | none => rfl
  | some item => rfl

/-- Every path that a rescan puts has a record: those of the walk, and those of live entries
without a file. -/
structure Stored (ix : SyncIndex) (walk : List WalkedFile) : Prop where
  walked : ∀ file ∈ walk, x.stores file.path
  buried : ∀ path e, ix.entries[path]? = some e → e.deleted = false →
    (∀ file ∈ walk, file.path ≠ path) → x.stores path

end Indexer

namespace Scanner
variable (sc : Scanner)

def Needs : Option IndexEntry → Option WalkedFile → Prop
  | none, none => False
  | none, some _ => True
  | some e, some file => ¬ Fresh e file
  | some e, none => e.deleted = false

instance : (e : Option IndexEntry) → (file : Option WalkedFile) → Decidable (Needs e file)
  | none, none => .isFalse id
  | none, some _ => .isTrue trivial
  | some e, some file => inferInstanceAs (Decidable (¬ Fresh e file))
  | some e, none => inferInstanceAs (Decidable (e.deleted = false))

def settled : Option IndexEntry → Option WalkedFile → Option IndexEntry
  | none, none => none
  | none, some file => some (sc.editedWalked .new file (sc.recordWalked ∅ file).1)
  | some e, some file =>
    if Fresh e file then some e
    else some (sc.editedWalked e.version file (sc.recordWalked ∅ file).1)
  | some e, none => if e.deleted then some e else some (sc.missing e)

/-- What the loops read and write at one path, and how often they have reported it. -/
def Progress.seen (p : Progress) (path : WirePath) : Option IndexEntry × Option IndexEntry × ℕ :=
  (p.index.entries[path]?, p.known[path]?, p.changed.count path)

theorem recordWalked_content (chunks : ChunkStore) (file : WalkedFile) :
    (sc.recordWalked chunks file).1 = (sc.recordWalked ∅ file).1 := by
  unfold recordWalked
  cases file.bytes <;> rfl

theorem meet_local : KeyedFold.Local sc.meet WalkedFile.path Progress.seen := by
  intro p file other differ
  have apart (changed : List WirePath) :
      (changed ++ [file.path]).count other = changed.count other := by
    rw [List.count_append, List.count_singleton, if_neg (by simpa using differ), Nat.add_zero]
  simp only [meet, Progress.seen]
  split
  · split
    · simp only [SortedMap.get_insert, SortedMap.get_erase, if_neg differ]
    · simp only [SortedMap.get_insert, SortedMap.get_erase, if_neg differ, apart]
  · simp only [SortedMap.get_insert, SortedMap.get_erase, if_neg differ, apart]

theorem bury_seen_local : KeyedFold.Local sc.bury Prod.fst Progress.seen := by
  intro p item other differ
  simp only [bury, Progress.seen]
  split
  · rfl
  · rw [List.count_append, List.count_singleton, if_neg (by simpa using differ), Nat.add_zero,
      SortedMap.get_insert, if_neg differ]

/-- A file that is met settles its path. -/
theorem meet_seen (p : Progress) (file : WalkedFile) :
    (sc.meet p file).seen file.path = (sc.settled p.known[file.path]? (some file), none,
      p.changed.count file.path + if Needs p.known[file.path]? (some file) then 1 else 0) := by
  cases known : p.known[file.path]? with
  | none =>
    simp [meet, known, Progress.seen, settled, Needs, sc.recordWalked_content p.index.chunks]
  | some e =>
    by_cases fresh : Fresh e file
    · simp [meet, known, Progress.seen, settled, Needs, fresh]
    · simp [meet, known, Progress.seen, settled, Needs, fresh,
        sc.recordWalked_content p.index.chunks]

theorem bury_seen (p : Progress) (path : WirePath) (e : IndexEntry)
    (held : p.index.entries[path]? = some e) :
    (sc.bury p (path, e)).seen path = (sc.settled (some e) none, p.known[path]?,
      p.changed.count path + if Needs (some e) none then 1 else 0) := by
  by_cases deleted : e.deleted = true
  · simp [bury, Progress.seen, settled, Needs, deleted, held]
  · simp [bury, Progress.seen, settled, Needs, deleted]

def fileAt (walk : List WalkedFile) (path : WirePath) : Option WalkedFile :=
  walk.find? (·.path = path)

def Distinct (walk : List WalkedFile) : Prop := walk.Pairwise (·.path ≠ ·.path)

theorem path_of_fileAt {walk : List WalkedFile} {path : WirePath} {file : WalkedFile}
    (found : fileAt walk path = some file) : file ∈ walk ∧ file.path = path := by
  refine ⟨List.mem_of_find?_eq_some found, ?_⟩
  simpa using List.find?_some found

theorem fileAt_eq_none {walk : List WalkedFile} {path : WirePath} :
    fileAt walk path = none ↔ ∀ file ∈ walk, file.path ≠ path := by
  rw [fileAt, List.find?_eq_none]
  exact forall₂_congr fun _ _ => not_congr decide_eq_true_iff

theorem fileAt_of_mem {walk : List WalkedFile} (distinct : Distinct walk) {file : WalkedFile}
    (mem : file ∈ walk) : fileAt walk file.path = some file := by
  induction walk with
  | nil => cases mem
  | cons first rest ih =>
    obtain ⟨head, later⟩ := List.pairwise_cons.mp distinct
    rcases List.mem_cons.mp mem with rfl | mem
    · rw [fileAt, List.find?_cons_of_pos (by simp)]
    · rw [fileAt, List.find?_cons_of_neg (by simpa using head file mem)]
      exact ih later mem

theorem met_seen (ix : SyncIndex) {walk : List WalkedFile} (distinct : Distinct walk)
    (path : WirePath) :
    (walk.foldl sc.meet ⟨ix, ix.entries, []⟩).seen path =
      match fileAt walk path with
      | some file => (sc.settled ix.entries[path]? (some file), none,
          if Needs ix.entries[path]? (some file) then 1 else 0)
      | none => (ix.entries[path]?, ix.entries[path]?, 0) := by
  cases found : fileAt walk path with
  | none => exact KeyedFold.look_of_absent sc.meet_local _ (fileAt_eq_none.mp found)
  | some file =>
    obtain ⟨mem, rfl⟩ := path_of_fileAt found
    obtain ⟨p, begun, ended⟩ := KeyedFold.look_of_mem sc.meet_local ⟨ix, ix.entries, []⟩ distinct mem
    have known : p.known[file.path]? = ix.entries[file.path]? := congrArg (·.2.1) begun
    have count : p.changed.count file.path = 0 := congrArg (·.2.2) begun
    rw [ended, meet_seen, known, count, Nat.zero_add]

/-- A rescan settles every path by itself and reports it once if it needed an edit. -/
theorem rescanWalk_seen (ix : SyncIndex) {walk : List WalkedFile} (distinct : Distinct walk)
    (path : WirePath) :
    (sc.rescanWalk ix walk).1.entries[path]? = sc.settled ix.entries[path]? (fileAt walk path) ∧
      (sc.rescanWalk ix walk).2.count path =
        if Needs ix.entries[path]? (fileAt walk path) then 1 else 0 := by
  have met := sc.met_seen ix distinct path
  unfold rescanWalk
  generalize walk.foldl sc.meet ⟨ix, ix.entries, []⟩ = p at met
  have buried (done : (p.known.toList.foldl sc.bury p).seen path = p.seen path) :
      (p.known.toList.foldl sc.bury p).index.entries[path]? = p.index.entries[path]? ∧
        (p.known.toList.foldl sc.bury p).changed.count path = p.changed.count path :=
    ⟨congrArg (·.1) done, congrArg (·.2.2) done⟩
  have absent (unknown : p.known[path]? = none) :
      (p.known.toList.foldl sc.bury p).seen path = p.seen path := by
    refine KeyedFold.look_of_absent sc.bury_seen_local p fun item mem same => ?_
    have held := ExtTreeMap.mem_toList_iff_getElem?_eq_some.mp
      (show (item.1, item.2) ∈ p.known.toList from mem)
    rw [same, unknown] at held
    cases held
  cases found : fileAt walk path with
  | some file =>
    rw [found] at met
    obtain ⟨entry, count⟩ := buried (absent (congrArg (·.2.1) met))
    exact ⟨entry.trans (congrArg (·.1) met), count.trans (congrArg (·.2.2) met)⟩
  | none =>
    rw [found] at met
    have known : p.known[path]? = ix.entries[path]? := congrArg (·.2.1) met
    have entry : p.index.entries[path]? = ix.entries[path]? := congrArg (·.1) met
    have count : p.changed.count path = 0 := congrArg (·.2.2) met
    cases held : ix.entries[path]? with
    | none =>
      rw [held] at known entry
      obtain ⟨entry', count'⟩ := buried (absent known)
      exact ⟨entry'.trans entry, count'.trans count⟩
    | some e =>
      rw [held] at known entry
      -- The path is on the list of entries that no file was met for, and only there.
      obtain ⟨q, begun, ended⟩ := KeyedFold.look_of_mem sc.bury_seen_local p
        (distinct_keys p.known) (ExtTreeMap.mem_toList_iff_getElem?_eq_some.mpr known)
      have entry' : q.index.entries[path]? = some e := (congrArg (·.1) begun).trans entry
      have count' : q.changed.count path = 0 := (congrArg (·.2.2) begun).trans count
      have last := ended.trans (sc.bury_seen q path e entry')
      rw [count', Nat.zero_add] at last
      exact ⟨congrArg (·.1) last, congrArg (·.2.2) last⟩

/-- The index describes every file of the walk, and every other entry is a tombstone. -/
structure Current (ix : SyncIndex) (walk : List WalkedFile) : Prop where
  fresh : ∀ file ∈ walk, ∃ e, ix.entries[file.path]? = some e ∧ Fresh e file
  buried : ∀ path e, ix.entries[path]? = some e → (∀ file ∈ walk, file.path ≠ path) →
    e.deleted = true

theorem meet_fresh {p : Progress} {file : WalkedFile} {e : IndexEntry}
    (known : p.known[file.path]? = some e) (entry : p.index.entries[file.path]? = some e)
    (fresh : Fresh e file) : sc.meet p file = { p with known := p.known.erase file.path } := by
  have same : p.index.entries.insert file.path e = p.index.entries := by
    apply ExtTreeMap.ext_getElem?
    intro path
    rw [SortedMap.get_insert]
    split
    · next at' => rw [← at', entry]
    · rfl
  simp only [meet, known, if_pos fresh, same]

theorem foldl_meet_fresh {walk : List WalkedFile} (distinct : Distinct walk) (p : Progress)
    (fresh : ∀ file ∈ walk, ∃ e, p.known[file.path]? = some e ∧
      p.index.entries[file.path]? = some e ∧ Fresh e file) :
    ∃ known : Entries, walk.foldl sc.meet p = { p with known } ∧
      ∀ path e, known[path]? = some e → p.known[path]? = some e ∧ ∀ file ∈ walk, file.path ≠ path := by
  induction walk generalizing p with
  | nil => exact ⟨p.known, rfl, fun path e held => ⟨held, nofun⟩⟩
  | cons file rest ih =>
    obtain ⟨apart, distinct⟩ := List.pairwise_cons.mp distinct
    obtain ⟨⟨e, known, entry, own⟩, others⟩ := List.forall_mem_cons.mp fresh
    rw [List.foldl_cons, sc.meet_fresh known entry own]
    obtain ⟨left, same, kept⟩ := ih distinct { p with known := p.known.erase file.path } (by
      intro other mem
      obtain ⟨e', known', entry', fresh'⟩ := others other mem
      exact ⟨e', by rw [SortedMap.get_erase, if_neg (apart other mem), known'], entry', fresh'⟩)
    refine ⟨left, same, fun path e' held => ?_⟩
    obtain ⟨still, unmet⟩ := kept path e' held
    rw [SortedMap.get_erase] at still
    split at still
    · cases still
    · next differ => exact ⟨still, List.forall_mem_cons.mpr ⟨differ, unmet⟩⟩

/-- Nothing happens. -/
theorem rescanWalk_current {ix : SyncIndex} {walk : List WalkedFile} (distinct : Distinct walk)
    (current : Current ix walk) : sc.rescanWalk ix walk = (ix, []) := by
  obtain ⟨known, same, kept⟩ := sc.foldl_meet_fresh distinct ⟨ix, ix.entries, []⟩ (by
    intro file mem
    obtain ⟨e, entry, fresh⟩ := current.fresh file mem
    exact ⟨e, entry, entry, fresh⟩)
  have idle : ∀ item ∈ known.toList, ∀ p, sc.bury p item = p := by
    intro item mem p
    obtain ⟨entry, unmet⟩ := kept item.1 item.2 (ExtTreeMap.mem_toList_iff_getElem?_eq_some.mp mem)
    rw [bury, if_pos (current.buried item.1 item.2 entry unmet)]
  have done : known.toList.foldl sc.bury ⟨ix, known, []⟩ = ⟨ix, known, []⟩ :=
    KeyedFold.foldl_unchanged id idle _
  rw [rescanWalk, same]
  exact congrArg (fun p : Progress => (p.index, p.changed)) done

/-- A rescan leaves such an index. -/
theorem current_rescanWalk (ix : SyncIndex) {walk : List WalkedFile} (distinct : Distinct walk) :
    Current (sc.rescanWalk ix walk).1 walk where
  fresh := by
    intro file mem
    rw [(sc.rescanWalk_seen ix distinct file.path).1, fileAt_of_mem distinct mem]
    cases ix.entries[file.path]? with
    | none => exact ⟨_, rfl, rfl, rfl, rfl⟩
    | some e =>
      rw [settled]
      split
      · next fresh => exact ⟨e, rfl, fresh⟩
      · exact ⟨_, rfl, rfl, rfl, rfl⟩
  buried := by
    intro path e entry unmet
    rw [(sc.rescanWalk_seen ix distinct path).1, fileAt_eq_none.mpr unmet] at entry
    cases held : ix.entries[path]? with
    | none =>
      rw [held] at entry
      cases entry
    | some e' =>
      rw [held, settled] at entry
      split at entry
      · next deleted => exact Option.some.inj entry ▸ deleted
      · exact Option.some.inj entry ▸ rfl

theorem meet_changed {p : Progress} (file : WalkedFile) (told : p.changed ≠ []) :
    (sc.meet p file).changed ≠ [] := by
  unfold meet
  split
  · split
    · exact told
    · exact List.append_ne_nil_of_left_ne_nil told _
  · exact List.append_ne_nil_of_left_ne_nil told _

theorem bury_changed {p : Progress} (item : WirePath × IndexEntry) (told : p.changed ≠ []) :
    (sc.bury p item).changed ≠ [] := by
  simp only [bury]
  split
  · exact told
  · exact List.append_ne_nil_of_left_ne_nil told _

theorem meet_known (p : Progress) (file : WalkedFile) :
    (sc.meet p file).known = p.known.erase file.path := by
  unfold meet
  split
  · split <;> rfl
  · rfl

theorem meet_unknown {p : Progress} {file : WalkedFile} (unknown : p.known[file.path]? = none) :
    (sc.meet p file).changed ≠ [] := by
  simp only [meet, unknown]
  exact List.append_ne_nil_of_right_ne_nil _ (List.cons_ne_nil _ _)

/-- A file that finds no entry is reported. -/
theorem foldl_meet_unknown {walk : List WalkedFile} {p : Progress} {file : WalkedFile}
    (mem : file ∈ walk) (unknown : p.known[file.path]? = none) :
    (walk.foldl sc.meet p).changed ≠ [] := by
  induction walk generalizing p with
  | nil => cases mem
  | cons first rest ih =>
    rcases List.mem_cons.mp mem with rfl | later
    · exact TransitionRun.invariant (I := fun p : Progress => p.changed ≠ [])
        (sc.meet_unknown unknown) (fun _ other => sc.meet_changed other) rest
    · refine ih later ?_
      rw [meet_known, SortedMap.get_erase, unknown, ite_self]

/-- The second file of a name finds the entry taken by the first, so every rescan reports it. -/
theorem rescanWalk_repeated (ix : SyncIndex) {walk : List WalkedFile} (repeated : ¬ Distinct walk) :
    (sc.rescanWalk ix walk).2 ≠ [] := by
  have met (p : Progress) : (walk.foldl sc.meet p).changed ≠ [] := by
    induction walk generalizing p with
    | nil => exact absurd List.Pairwise.nil repeated
    | cons file rest ih =>
      rw [List.foldl_cons]
      by_cases apart : ∀ other ∈ rest, file.path ≠ other.path
      · exact ih (fun distinct => repeated (List.pairwise_cons.mpr ⟨apart, distinct⟩)) _
      · simp only [not_forall, not_not] at apart
        obtain ⟨other, mem, same⟩ := apart
        refine sc.foldl_meet_unknown mem ?_
        rw [meet_known, ← same, SortedMap.get_erase, if_pos rfl]
  exact TransitionRun.invariant (I := fun p : Progress => p.changed ≠ []) (met _)
    (fun _ item => sc.bury_changed item) _

theorem get_known_met (walk : List WalkedFile) (p : Progress) (path : WirePath) :
    (walk.foldl sc.meet p).known[path]? =
      if ∃ file ∈ walk, file.path = path then none else p.known[path]? := by
  induction walk generalizing p with
  | nil => simp
  | cons file rest ih =>
    rw [List.foldl_cons, ih, meet_known, SortedMap.get_erase]
    by_cases here : file.path = path
    · simp [here]
    · simp [here]

end Scanner

namespace Indexer
open Scanner
variable (x : Indexer)

/-- A rescan comes to its end exactly where every path it puts has a record. -/
theorem rescan_stored (ix : SyncIndex) (walk : List WalkedFile) :
    (x.Stored ix walk →
      x.rescan ix walk = ((x.toScanner.rescanWalk ix walk).1, some (x.toScanner.rescanWalk ix walk).2)) ∧
    (∀ changed, (x.rescan ix walk).2 = some changed → x.Stored ix walk) := by
  have left (path : WirePath) (e : IndexEntry) :
      (path, e) ∈ (walk.foldl x.toScanner.meet ⟨ix, ix.entries, []⟩).known.toList ↔
        ix.entries[path]? = some e ∧ ∀ file ∈ walk, file.path ≠ path := by
    rw [ExtTreeMap.mem_toList_iff_getElem?_eq_some, get_known_met]
    split
    · next met =>
      obtain ⟨file, mem, same⟩ := met
      exact iff_of_false (by simp) fun ⟨_, unmet⟩ => unmet file mem same
    · next unmet =>
      simp only [not_exists, not_and] at unmet
      exact (and_iff_left unmet).symm
  constructor
  · intro stored
    have walked : walk.dropWhile (x.stores ·.path) = [] :=
      List.dropWhile_eq_nil_iff.mpr stored.walked
    rw [x.rescan_met ix (by rw [walked]; rfl), List.dropWhile_eq_nil_iff.mpr]
    · rfl
    · intro item mem
      obtain ⟨held, unmet⟩ := (left item.1 item.2).mp mem
      cases gone : item.2.deleted with
      | true => simp [takes, gone]
      | false => simp [takes, stored.buried item.1 item.2 held gone unmet]
  · intro changed ended
    cases first : (walk.dropWhile (x.stores ·.path)).head? with
    | some file =>
      rw [x.rescan_refused ix first] at ended
      cases ended
    | none =>
      rw [x.rescan_met ix first] at ended
      have walked := List.dropWhile_eq_nil_iff.mp (List.head?_eq_none_iff.mp first)
      cases second : ((walk.foldl x.toScanner.meet ⟨ix, ix.entries, []⟩).known.toList.dropWhile
          x.takes).head? with
      | some item =>
        rw [second] at ended
        cases ended
      | none =>
        have taken := List.dropWhile_eq_nil_iff.mp (List.head?_eq_none_iff.mp second)
        refine ⟨walked, fun path e held live unmet => ?_⟩
        have := taken _ ((left path e).mpr ⟨held, unmet⟩)
        simpa [takes, live] using this

end Indexer

namespace Scanner
variable (sc : Scanner)

/-- A path with a file that is new, differs from its entry or has come back, or with a live entry and
no file. -/
def Due (ix : SyncIndex) (walk : List WalkedFile) (path : WirePath) : Prop :=
  match ix.entries[path]? with
  | none => ∃ file ∈ walk, file.path = path
  | some e => (∃ file ∈ walk, file.path = path ∧ ¬ Fresh e file) ∨
      ((∀ file ∈ walk, file.path ≠ path) ∧ e.deleted = false)

/-- The counters of a path; one without an entry has none. -/
def countsAt (ix : SyncIndex) (path : WirePath) : String → ℕ :=
  (ix.entries[path]?.elim .new IndexEntry.version).counts

theorem needs_iff_due (ix : SyncIndex) {walk : List WalkedFile} (distinct : Distinct walk)
    (path : WirePath) : Needs ix.entries[path]? (fileAt walk path) ↔ Due ix walk path := by
  unfold Due
  cases found : fileAt walk path with
  | none =>
    have unmet := fileAt_eq_none.mp found
    cases ix.entries[path]? with
    | none => exact ⟨False.elim, fun ⟨file, mem, same⟩ => unmet file mem same⟩
    | some e =>
      constructor
      · exact fun live => .inr ⟨unmet, live⟩
      · rintro (⟨file, mem, same, -⟩ | ⟨-, live⟩)
        · exact absurd same (unmet file mem)
        · exact live
  | some file =>
    obtain ⟨mem, at'⟩ := path_of_fileAt found
    cases ix.entries[path]? with
    | none => exact ⟨fun _ => ⟨file, mem, at'⟩, fun _ => trivial⟩
    | some e =>
      constructor
      · exact fun stale => .inl ⟨file, mem, at', stale⟩
      · rintro (⟨other, mem', same, stale⟩ | ⟨unmet, -⟩)
        · rw [← same, fileAt_of_mem distinct mem'] at found
          exact Option.some.inj found ▸ stale
        · exact absurd at' (unmet file mem)

/-- An edit of this device, and no other change of the vector. -/
theorem version_settled {e : Option IndexEntry} {file : Option WalkedFile} (needs : Needs e file) :
    (sc.settled e file).elim .new IndexEntry.version =
      (e.elim .new IndexEntry.version).bump sc.device := by
  cases e with
  | none =>
    cases file with
    | none => exact needs.elim
    | some file => rfl
  | some e =>
    cases file with
    | none => rw [settled, if_neg (ne_true_of_eq_false needs)]; rfl
    | some file => rw [settled, if_neg needs]; rfl

theorem settled_of_not_needs {e : Option IndexEntry} {file : Option WalkedFile}
    (idle : ¬ Needs e file) : sc.settled e file = e := by
  cases e with
  | none =>
    cases file with
    | none => rfl
    | some file => exact absurd trivial idle
  | some e =>
    cases file with
    | none => rw [settled, if_pos (eq_true_of_ne_false idle)]
    | some file => rw [settled, if_pos (not_not.mp idle)]

theorem countsAt_rescanWalk (ix : SyncIndex) {walk : List WalkedFile} (distinct : Distinct walk)
    {path : WirePath} (due : Due ix walk path)
    (room : countsAt ix path sc.device + 1 < UInt64.size) :
    countsAt (sc.rescanWalk ix walk).1 path =
      Function.update (countsAt ix path) sc.device (countsAt ix path sc.device + 1) := by
  rw [countsAt, (sc.rescanWalk_seen ix distinct path).1,
    sc.version_settled ((needs_iff_due ix distinct path).mpr due)]
  funext device
  rw [VersionVector.counts_bump_of_lt room, Function.update_apply]
  exact if_congr eq_comm rfl rfl

end Scanner

namespace Indexer
open Scanner
variable (x : Indexer)

/-- What a rescan owes to the index and the walk, whatever its loops do. -/
structure Owed (ix : SyncIndex) (walk : List WalkedFile) (after : SyncIndex) (changed : List WirePath) : Prop where
  reported : ∀ path, path ∈ changed ↔ Due ix walk path
  once : changed.Nodup
  counted : ∀ path, Due ix walk path → countsAt after path =
    Function.update (countsAt ix path) x.device (countsAt ix path x.device + 1)
  untouched : ∀ path, ¬ Due ix walk path → after.entries[path]? = ix.entries[path]?
  live : ∀ file ∈ walk, ∃ e, after.entries[file.path]? = some e ∧ e.deleted = false
  tombstone : ∀ path e, ix.entries[path]? = some e → (∀ file ∈ walk, file.path ≠ path) →
    ∃ e', after.entries[path]? = some e' ∧ e'.deleted = true ∧ e'.content = e.content
  grows : ∀ path, countsAt ix path ≤ countsAt after path
  again : x.rescan after walk = (after, some [])

/-- It returns the changed paths and leaves what it owes. -/
def Exact (ix : SyncIndex) (walk : List WalkedFile) : Prop :=
  ∃ changed, (x.rescan ix walk).2 = some changed ∧ x.Owed ix walk (x.rescan ix walk).1 changed

/-- A rescan of what it left puts nothing but paths of the walk. -/
theorem Stored.again {x : Indexer} {ix : SyncIndex} {walk : List WalkedFile} (stored : x.Stored ix walk)
    (distinct : Distinct walk) : x.Stored (x.toScanner.rescanWalk ix walk).1 walk where
  walked := stored.walked
  buried := by
    intro path e held live unmet
    have gone := (x.toScanner.current_rescanWalk ix distinct).buried path e held unmet
    rw [live] at gone
    cases gone

/-- A rescan is exact where the store takes every path it puts, no two files of the walk have
one name and no counter it has to raise is full. -/
theorem rescan_exact_iff (ix : SyncIndex) (walk : List WalkedFile) :
    x.Exact ix walk ↔ x.Stored ix walk ∧ Distinct walk ∧
      ∀ path, Due ix walk path → countsAt ix path x.device + 1 < UInt64.size := by
  have ended := x.rescan_stored ix walk
  constructor
  · rintro ⟨changed, returned, owed⟩
    have stored := ended.2 changed returned
    have same := ended.1 stored
    refine ⟨stored, ?_, fun path due => ?_⟩
    · by_contra repeated
      have again := owed.again
      have stored' := (x.rescan_stored _ walk).2 [] (congrArg Prod.snd again)
      rw [(x.rescan_stored _ walk).1 stored'] at again
      have told := x.toScanner.rescanWalk_repeated (x.rescan ix walk).1 repeated
      exact told (Option.some.inj (congrArg Prod.snd again))
    · have counted := congrFun (owed.counted path due) x.device
      rw [Function.update_self] at counted
      rw [← counted]
      exact UInt64.toNat_lt_size _
  · rintro ⟨stored, distinct, room⟩
    have entry := fun path => (x.toScanner.rescanWalk_seen ix distinct path).1
    have count (path : WirePath) : (x.toScanner.rescanWalk ix walk).2.count path =
        if Needs ix.entries[path]? (fileAt walk path) then 1 else 0 :=
      (x.toScanner.rescanWalk_seen ix distinct path).2
    have current := x.toScanner.current_rescanWalk ix distinct
    have untouched (path : WirePath) (idle : ¬ Due ix walk path) :
        (x.toScanner.rescanWalk ix walk).1.entries[path]? = ix.entries[path]? := by
      rw [entry, x.toScanner.settled_of_not_needs ((needs_iff_due ix distinct path).not.mpr idle)]
    have counted (path : WirePath) (due : Due ix walk path) :=
      x.toScanner.countsAt_rescanWalk ix distinct due (room path due)
    have again : x.rescan (x.toScanner.rescanWalk ix walk).1 walk =
        ((x.toScanner.rescanWalk ix walk).1, some []) := by
      rw [(x.rescan_stored _ walk).1 (stored.again distinct), x.toScanner.rescanWalk_current distinct current]
    rw [Exact, ended.1 stored]
    refine ⟨_, rfl, fun path => ?_, ?_, counted, untouched, fun file mem => ?_, fun path e held unmet => ?_,
      fun path => ?_, again⟩
    · rw [← List.count_pos_iff, count, ← needs_iff_due ix distinct path]
      split <;> simp_all
    · apply List.nodup_iff_count_le_one.mpr
      intro path
      rw [count]
      split
      · exact le_rfl
      · exact Nat.zero_le 1
    · obtain ⟨e, held, live, -⟩ := current.fresh file mem
      exact ⟨e, held, live⟩
    · have after := entry path
      rw [held, fileAt_eq_none.mpr unmet, settled] at after
      split at after
      · next deleted => exact ⟨e, after, deleted, rfl⟩
      · exact ⟨x.missing e, after, rfl, rfl⟩
    · by_cases due : Due ix walk path
      · rw [counted path due]
        exact le_update_iff.mpr ⟨Nat.le_succ _, fun _ _ => le_rfl⟩
      · rw [countsAt, countsAt, untouched path due]

/-- Two files whose names are rendered alike are reported by every rescan. -/
theorem lossy_names_never_settle :
    let x : Indexer := ⟨⟨fun _ => "", "pb-a"⟩, fun _ => true⟩
    let walk : List WalkedFile := [⟨['\uFFFD'], 1, 0, none⟩, ⟨['\uFFFD'], 2, 0, none⟩]
    ¬ x.Exact ⟨∅, ∅⟩ walk := by
  intro x walk exact'
  obtain ⟨changed, -, owed⟩ := exact'
  have again := owed.again
  have stored := (x.rescan_stored _ walk).2 [] (congrArg Prod.snd again)
  rw [(x.rescan_stored _ walk).1 stored] at again
  refine x.toScanner.rescanWalk_repeated (x.rescan ⟨∅, ∅⟩ walk).1 ?_ (Option.some.inj (congrArg Prod.snd again))
  intro distinct
  exact (List.pairwise_cons.mp distinct).1 _ (List.mem_singleton_self _) rfl

end Indexer

end PeerBeam.Sync
