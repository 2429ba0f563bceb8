import PeerBeam.Lib.KeyedFold
import PeerBeam.Sync.Chunk
import PeerBeam.Sync.Version

/-! What a device knows about the files it syncs, and the rescan that brings this in
line with the disk. A scanner's stores keep what is put into them; an indexer's may refuse a path. -/
namespace PeerBeam.Sync
open Std

/-- What this device last knew about one file. Entries are kept under their path. -/
structure IndexEntry where
  /-- Size and mtime when last indexed, for spotting an outside edit. -/
  size : Nat
  modified : Int
  version : VersionVector
  /-- Hash of the bytes when last indexed; empty for a file never held. -/
  content : String
  deleted : Bool
  deriving DecidableEq

abbrev Entries := ExtTreeMap WirePath IndexEntry compare

abbrev ChunkStore := ExtTreeMap String (List Chunk) compare

structure SyncIndex where
  entries : Entries
  chunks : ChunkStore

/-- A larger file is hashed by streaming and gets no chunk map. -/
def maxChunkable : Nat := 256 * 1024 * 1024

/-- What scanning needs from its surroundings: the content hash, and this device. -/
structure Scanner where
  hash : Bytes → String
  device : String

namespace Scanner
variable (sc : Scanner)

/-- `hash_and_chunk`, for a file that can be read. -/
def hashAndChunk (file : File) : String × List Chunk :=
  (sc.hash file.bytes, if maxChunkable < file.size then [] else split sc.hash file.bytes)

def recordChunks (chunks : ChunkStore) (file : File) : String × ChunkStore :=
  let (content, map) := sc.hashAndChunk file
  (content, if map = [] then chunks else chunks.insert content map)

/-- The locals of `rescan`. -/
structure Progress where
  index : SyncIndex
  /-- Entries whose file has not been met. -/
  known : Entries
  changed : List WirePath

/-- `e` still describes this file, as far as size and mtime tell. -/
def Unchanged (e : IndexEntry) (file : File) : Prop :=
  e.deleted = false ∧ e.size = file.size ∧ e.modified = file.modified

instance (e : IndexEntry) (file : File) : Decidable (Unchanged e file) :=
  inferInstanceAs (Decidable (_ ∧ _ ∧ _))

def edited (version : VersionVector) (file : File) (content : String) : IndexEntry where
  size := file.size
  modified := file.modified
  version := version.bump sc.device
  content := content
  deleted := false

/-- The entry of a file that is gone; its hash is kept. -/
def missing (e : IndexEntry) : IndexEntry :=
  { e with deleted := true, size := 0, version := e.version.bump sc.device }

def visit (p : Progress) (item : WirePath × File) : Progress :=
  let (path, file) := item
  let known := p.known.erase path
  match p.known[path]? with
  | some e =>
    if Unchanged e file then
      { p with known, index := { p.index with entries := p.index.entries.insert path e } }
    else
      let (content, chunks) := sc.recordChunks p.index.chunks file
      let entries := p.index.entries.insert path (sc.edited e.version file content)
      { index := ⟨entries, chunks⟩, known, changed := p.changed ++ [path] }
  | none =>
    let (content, chunks) := sc.recordChunks p.index.chunks file
    let entries := p.index.entries.insert path (sc.edited .new file content)
    { index := ⟨entries, chunks⟩, known, changed := p.changed ++ [path] }

def bury (p : Progress) (item : WirePath × IndexEntry) : Progress :=
  let (path, e) := item
  if e.deleted then p
  else
    { p with
      index := { p.index with entries := p.index.entries.insert path (sc.missing e) }
      changed := p.changed ++ [path] }

/-- Bring the index in line with the disk; also returns the changed paths. -/
def rescan (ix : SyncIndex) (d : Folder) : SyncIndex × List WirePath :=
  let met := d.walk.foldl sc.visit ⟨ix, ix.entries, []⟩
  let done := met.known.toList.foldl sc.bury met
  (done.index, done.changed)

def rescanEntry : Option IndexEntry → Option File → Option IndexEntry
  | none, none => none
  | none, some file => some (sc.edited .new file (sc.hash file.bytes))
  | some e, some file =>
    if Unchanged e file then some e else some (sc.edited e.version file (sc.hash file.bytes))
  | some e, none => if e.deleted then some e else some (sc.missing e)

def Progress.at (p : Progress) (path : WirePath) : Option IndexEntry × Option IndexEntry :=
  (p.index.entries[path]?, p.known[path]?)

theorem visit_local : KeyedFold.Local sc.visit Prod.fst Progress.at := by
  rintro p ⟨path, file⟩ other (differ : path ≠ other)
  simp only [visit, Progress.at]
  repeat' split
  all_goals simp [ExtTreeMap.getElem?_insert, ExtTreeMap.getElem?_erase,
    LawfulEqCmp.compare_eq_iff_eq, differ]

theorem bury_local : KeyedFold.Local sc.bury Prod.fst Progress.at := by
  rintro p ⟨path, e⟩ other (differ : path ≠ other)
  simp only [bury, Progress.at]
  split <;> simp [ExtTreeMap.getElem?_insert, LawfulEqCmp.compare_eq_iff_eq, differ]

/-- Visiting a path settles it and takes it off the list. -/
theorem visit_at (p : Progress) (path : WirePath) (file : File) :
    (sc.visit p (path, file)).at path = (sc.rescanEntry p.known[path]? (some file), none) := by
  cases hk : p.known[path]? with
  | none => simp [visit, hk, Progress.at, rescanEntry, recordChunks, hashAndChunk]
  | some e =>
    by_cases same : Unchanged e file
    · simp [visit, hk, Progress.at, rescanEntry, same]
    · simp [visit, hk, Progress.at, rescanEntry, same, recordChunks, hashAndChunk]

theorem distinct_keys {β : Type} (t : ExtTreeMap WirePath β compare) :
    t.toList.Pairwise (·.1 ≠ ·.1) :=
  ExtTreeMap.distinct_keys_toList.imp fun differ same => differ (LawfulEqCmp.compare_eq_iff_eq.mpr same)

private theorem met_at (ix : SyncIndex) (d : Folder) (path : WirePath) :
    (d.walk.foldl sc.visit ⟨ix, ix.entries, []⟩).at path =
      match d.find path with
      | some file => (sc.rescanEntry ix.entries[path]? (some file), none)
      | none => (ix.entries[path]?, ix.entries[path]?) := by
  cases hf : d.find path with
  | none =>
    refine KeyedFold.look_of_absent sc.visit_local _ fun item mem same => ?_
    have found := Folder.mem_walk.mp (show (item.1, item.2) ∈ d.walk from mem)
    rw [same, hf] at found
    cases found
  | some file =>
    obtain ⟨s', begun, ended⟩ := KeyedFold.look_of_mem sc.visit_local ⟨ix, ix.entries, []⟩
      (distinct_keys d.files) (Folder.mem_walk.mpr hf)
    rw [Folder.walk, ended, visit_at]
    rw [show s'.known[path]? = ix.entries[path]? from congrArg Prod.snd begun]

/-- A rescan settles every path by itself. -/
theorem entries_rescan (ix : SyncIndex) (d : Folder) (path : WirePath) :
    (sc.rescan ix d).1.entries[path]? = sc.rescanEntry ix.entries[path]? (d.find path) := by
  have met := sc.met_at ix d path
  unfold rescan
  generalize hp : d.walk.foldl sc.visit ⟨ix, ix.entries, []⟩ = p at met
  have absent : p.known[path]? = none →
      (p.known.toList.foldl sc.bury p).index.entries[path]? = p.index.entries[path]? := by
    intro none
    refine congrArg Prod.fst (KeyedFold.look_of_absent sc.bury_local p fun item mem same => ?_)
    have known := ExtTreeMap.mem_toList_iff_getElem?_eq_some.mp
      (show (item.1, item.2) ∈ p.known.toList from mem)
    rw [same, none] at known
    cases known
  cases hf : d.find path with
  | some file =>
    rw [hf] at met
    exact (absent (congrArg Prod.snd met)).trans (congrArg Prod.fst met)
  | none =>
    rw [hf] at met
    have entry : p.index.entries[path]? = ix.entries[path]? := congrArg Prod.fst met
    have known : p.known[path]? = ix.entries[path]? := congrArg Prod.snd met
    cases he : ix.entries[path]? with
    | none =>
      rw [he] at entry known
      exact (absent known).trans entry
    | some e =>
      rw [he] at entry known
      obtain ⟨s', begun, ended⟩ := KeyedFold.look_of_mem sc.bury_local p (distinct_keys p.known)
        (ExtTreeMap.mem_toList_iff_getElem?_eq_some.mpr known)
      have kept : s'.index.entries[path]? = some e := (congrArg Prod.fst begun).trans entry
      refine (congrArg Prod.fst ended).trans ?_
      simp only [bury, Progress.at, rescanEntry]
      split
      · exact kept
      · simp

end Scanner

end PeerBeam.Sync
