import PeerBeam.Lib.Run
import PeerBeam.Sync.RescanWalks

/-! The chunks a device says it has, and the chunks it can read back. -/
namespace PeerBeam.Sync
open Std Scanner

def ChunkStore.haves (chunks : ChunkStore) : List String :=
  chunks.toList.flatMap fun entry => entry.2.map Chunk.hash

def readEntry (sc : Scanner) (ix : SyncIndex) (d : Folder) (want : String)
    (item : WirePath × IndexEntry) : Option Bytes :=
  if item.2.deleted || item.2.content = "" then none
  else do
    let map ← ix.chunks[item.2.content]?
    let c ← map.find? fun c => c.hash = want
    let file ← d.find item.1
    let bytes ← readRange file.bytes c.offset c.len
    if sc.hash bytes = want then some bytes else none

/-- `ChunkStore::read`: search the live index for a file that has the chunk. -/
def read (sc : Scanner) (ix : SyncIndex) (d : Folder) (want : String) : Option Bytes :=
  ix.entries.toList.findSome? (readEntry sc ix d want)

section Store
variable (sc : Scanner)

/-- The file is new here or looks changed, so a rescan hashes it. -/
def Hashed (ix : SyncIndex) (path : WirePath) (file : File) : Prop :=
  ∀ e, ix.entries[path]? = some e → ¬ Unchanged e file

theorem recordChunks_eq (chunks : ChunkStore) (file : File) :
    sc.recordChunks chunks file = (sc.hash file.bytes,
      if file.size ≤ maxChunkable ∧ split sc.hash file.bytes ≠ [] then
        chunks.insert (sc.hash file.bytes) (split sc.hash file.bytes)
      else chunks) := by
  unfold recordChunks hashAndChunk
  by_cases large : maxChunkable < file.size
  · simp [large]
  · by_cases empty : split sc.hash file.bytes = [] <;> simp [large, empty, Nat.not_lt.mp large]

/-- The chunk maps after a file was met. -/
theorem chunks_visit (p : Progress) (path : WirePath) (file : File) :
    (sc.visit p (path, file)).index.chunks =
      if ∃ e, p.known[path]? = some e ∧ Unchanged e file then p.index.chunks
      else (sc.recordChunks p.index.chunks file).2 := by
  cases hk : p.known[path]? with
  | none => simp [visit, hk]
  | some e =>
    by_cases same : Unchanged e file
    · simp [visit, hk, same]
    · simp [visit, hk, same]

theorem chunks_foldl_bury (items : List (WirePath × IndexEntry)) (p : Progress) :
    (items.foldl sc.bury p).index.chunks = p.index.chunks := by
  apply KeyedFold.foldl_unchanged (fun p : Progress => p.index.chunks)
  intro item _ p
  simp only [bury]
  split <;> rfl

variable {sc}

/-- A map that meeting a file may add. -/
theorem getElem?_chunks_visit {p : Progress} {path : WirePath} {file : File} {k : String}
    {m : List Chunk} (h : (sc.visit p (path, file)).index.chunks[k]? = some m) :
    p.index.chunks[k]? = some m ∨
      (∀ e, p.known[path]? = some e → ¬ Unchanged e file) ∧ file.size ≤ maxChunkable ∧
        k = sc.hash file.bytes ∧ m = split sc.hash file.bytes := by
  rw [chunks_visit] at h
  split at h
  · exact .inl h
  · rename_i changed
    rw [recordChunks_eq] at h
    dsimp only at h
    split at h
    · rename_i chunked
      rw [ExtTreeMap.getElem?_insert] at h
      split at h
      · rename_i same
        cases h
        refine .inr ⟨fun e some same' => changed ⟨e, some, same'⟩, chunked.1, ?_, rfl⟩
        exact (LawfulEqCmp.compare_eq_iff_eq.mp same).symm
      · exact .inl h
    · exact .inl h

theorem getElem?_chunks_foldl_visit {ix : SyncIndex} {items : List (WirePath × File)} {p : Progress}
    (distinct : items.Pairwise (·.1 ≠ ·.1)) (known : ∀ item ∈ items, p.known[item.1]? = ix.entries[item.1]?)
    {k : String} {m : List Chunk} (h : (items.foldl sc.visit p).index.chunks[k]? = some m) :
    p.index.chunks[k]? = some m ∨ ∃ item ∈ items, Hashed ix item.1 item.2 ∧
      item.2.size ≤ maxChunkable ∧ k = sc.hash item.2.bytes ∧ m = split sc.hash item.2.bytes := by
  induction items generalizing p with
  | nil => exact .inl h
  | cons item items ih =>
    obtain ⟨head, rest⟩ := List.pairwise_cons.mp distinct
    have later : ∀ j ∈ items, (sc.visit p item).known[j.1]? = ix.entries[j.1]? := by
      intro j mem
      rw [← known j (List.mem_cons_of_mem _ mem)]
      exact congrArg Prod.snd (sc.visit_local p item j.1 (head j mem))
    rcases ih rest later h with before | ⟨j, mem, found⟩
    · rcases getElem?_chunks_visit before with old | ⟨hashed, small, key, map⟩
      · exact .inl old
      · refine .inr ⟨item, List.mem_cons_self, ?_, small, key, map⟩
        intro e some
        exact hashed e ((known item List.mem_cons_self).trans some)
    · exact .inr ⟨j, List.mem_cons_of_mem _ mem, found⟩

/-- A rescan drops no map. -/
theorem isSome_chunks_visit {k : String} (p : Progress) (item : WirePath × File)
    (h : p.index.chunks[k]?.isSome) : (sc.visit p item).index.chunks[k]?.isSome := by
  rw [show item = (item.1, item.2) from rfl, chunks_visit, recordChunks_eq]
  dsimp only
  split
  · exact h
  · split
    · rw [ExtTreeMap.getElem?_insert]
      split
      · rfl
      · exact h
    · exact h

theorem isSome_chunks_foldl_visit (items : List (WirePath × File)) {p : Progress} {k : String}
    (h : p.index.chunks[k]?.isSome) : (items.foldl sc.visit p).index.chunks[k]?.isSome :=
  TransitionRun.invariant (I := fun p : Progress => p.index.chunks[k]?.isSome = true) h
    (fun p item kept => isSome_chunks_visit p item kept) items

/-- A file a rescan hashes has its map recorded, if it is cut into chunks at all. -/
theorem isSome_chunks_of_hashed {ix : SyncIndex} {items : List (WirePath × File)}
    (distinct : items.Pairwise (·.1 ≠ ·.1)) {path : WirePath} {file : File} (mem : (path, file) ∈ items)
    (hashed : Hashed ix path file) (small : file.size ≤ maxChunkable) (chunked : split sc.hash file.bytes ≠ []) :
    (items.foldl sc.visit ⟨ix, ix.entries, []⟩).index.chunks[sc.hash file.bytes]?.isSome := by
  refine KeyedFold.holds_of_mem sc.visit_local ⟨ix, ix.entries, []⟩ distinct mem
    (P := fun p => p.index.chunks[sc.hash file.bytes]?.isSome = true) ?_
    (fun p item kept => isSome_chunks_visit p item kept)
  intro p begun
  have known : p.known[path]? = ix.entries[path]? := congrArg Prod.snd begun
  rw [chunks_visit, if_neg, recordChunks_eq]
  · dsimp only
    rw [if_pos ⟨small, chunked⟩]
    simp
  · rintro ⟨e, some, same⟩
    exact hashed e (known.symm.trans some) same

end Store

namespace Indexer
variable (x : Indexer) (ix : SyncIndex) (d : Folder)

def scan : SyncIndex := (x.rescan ix (d.walk.map .ofFile)).1

def reached : List (WirePath × File) := d.walk.takeWhile (x.stores ·.1)

/-- The file that ends the rescan: its chunks are recorded, its entry is refused. -/
def refused : Option (WirePath × File) := (d.walk.dropWhile (x.stores ·.1)).head?

/-- The files whose chunks it records where they are new or changed. -/
def hashes : List (WirePath × File) := x.reached d ++ (x.refused d).toList

theorem hashes_sublist : (x.hashes d).Sublist d.walk := by
  have head (rest : List (WirePath × File)) : rest.head?.toList.Sublist rest := by
    cases rest with
    | nil => exact List.Sublist.refl _
    | cons item rest => exact List.singleton_sublist.mpr List.mem_cons_self
  have parts := List.Sublist.append (List.Sublist.refl (x.reached d)) (head (d.walk.dropWhile (x.stores ·.1)))
  rwa [reached, List.takeWhile_append_dropWhile] at parts

theorem hashes_distinct : (x.hashes d).Pairwise (·.1 ≠ ·.1) :=
  (distinct_keys d.files).sublist (x.hashes_sublist d)

/-- The loop's state behind the files it put. -/
def settled : Progress := (x.reached d).foldl x.toScanner.visit ⟨ix, ix.entries, []⟩

theorem foldl_meet_ofFile (items : List (WirePath × File)) (p : Progress) :
    (items.map WalkedFile.ofFile).foldl x.toScanner.meet p = items.foldl x.toScanner.visit p := by
  rw [List.foldl_map]
  rfl

theorem scan_refused {item : WirePath × File} (ends : x.refused d = some item) :
    x.scan ix d = ⟨(x.settled ix d).index.entries, (x.toScanner.visit (x.settled ix d) item).index.chunks⟩ := by
  have first : ((d.walk.map WalkedFile.ofFile).dropWhile (x.stores ·.path)).head? = some (.ofFile item) := by
    rw [List.dropWhile_map, List.head?_map]
    exact congrArg (Option.map WalkedFile.ofFile) ends
  rw [scan, x.rescan_refused ix first, List.takeWhile_map, foldl_meet_ofFile]
  rfl

theorem scan_reached (ends : x.refused d = none) :
    ∃ items, (∀ item ∈ items, item ∈ (x.settled ix d).known.toList) ∧
      x.scan ix d = (List.foldl x.toScanner.bury (x.settled ix d) items).index := by
  have none : d.walk.dropWhile (x.stores ·.1) = [] := List.head?_eq_none_iff.mp ends
  have all : x.reached d = d.walk := by
    have parts := List.takeWhile_append_dropWhile (p := (x.stores ·.1)) (l := d.walk)
    rwa [none, List.append_nil] at parts
  have first : ((d.walk.map WalkedFile.ofFile).dropWhile (x.stores ·.path)).head? = Option.none := by
    rw [List.dropWhile_map, List.head?_map]
    exact congrArg (Option.map WalkedFile.ofFile) ends
  have whole : (d.walk.map WalkedFile.ofFile).foldl x.toScanner.meet ⟨ix, ix.entries, []⟩ = x.settled ix d := by
    rw [foldl_meet_ofFile, settled, all]
  rw [scan, x.rescan_met ix first, rescanWalk, whole]
  cases ((x.settled ix d).known.toList.dropWhile x.takes).head? with
  | none => exact ⟨_, fun _ mem => mem, rfl⟩
  | some item => exact ⟨_, fun _ mem => (List.takeWhile_prefix _).subset mem, rfl⟩

/-- The chunk maps are those of the files it looked at. -/
theorem chunks_scan : (x.scan ix d).chunks =
    ((x.hashes d).foldl x.toScanner.visit ⟨ix, ix.entries, []⟩).index.chunks := by
  cases ends : x.refused d with
  | some item =>
    rw [x.scan_refused ix d ends, hashes, ends, List.foldl_append]
    rfl
  | none =>
    obtain ⟨items, -, eq⟩ := x.scan_reached ix d ends
    rw [eq, chunks_foldl_bury, hashes, ends, Option.toList_none, List.append_nil]
    rfl

theorem settled_reached {path : WirePath} {file : File} (mem : (path, file) ∈ x.reached d) :
    (x.settled ix d).at path = (x.toScanner.rescanEntry ix.entries[path]? (some file), none) := by
  have distinct := (distinct_keys d.files).sublist (List.takeWhile_prefix (x.stores ·.1)).sublist
  obtain ⟨p, begun, ended⟩ := KeyedFold.look_of_mem x.toScanner.visit_local ⟨ix, ix.entries, []⟩ distinct mem
  have known : p.known[path]? = ix.entries[path]? := congrArg Prod.snd begun
  have alone := ended.trans (x.toScanner.visit_at p path file)
  rw [known] at alone
  exact alone

theorem settled_unreached {path : WirePath} (absent : ∀ file, (path, file) ∉ x.reached d) :
    (x.settled ix d).at path = (ix.entries[path]?, ix.entries[path]?) := by
  apply KeyedFold.look_of_absent x.toScanner.visit_local
  intro item mem same
  exact absent item.2 (same ▸ mem)

/-- A live entry behind the second loop was there before it. -/
theorem live_before_bury {items : List (WirePath × IndexEntry)} {p : Progress} {path : WirePath} {e : IndexEntry}
    (held : (items.foldl x.toScanner.bury p).index.entries[path]? = some e) (live : e.deleted = false) :
    p.index.entries[path]? = some e := by
  induction items generalizing p with
  | nil => exact held
  | cons item items ih =>
    have after := ih held
    simp only [Scanner.bury] at after
    split at after
    · exact after
    · rw [SortedMap.get_insert] at after
      split at after
      · cases after
        cases live
      · exact after

/-- The entry of a file that was put. -/
theorem entry_reached {path : WirePath} {file : File} (mem : (path, file) ∈ x.reached d) :
    (x.scan ix d).entries[path]? = x.toScanner.rescanEntry ix.entries[path]? (some file) := by
  have put := x.settled_reached ix d mem
  cases ends : x.refused d with
  | some item =>
    rw [x.scan_refused ix d ends]
    exact congrArg Prod.fst put
  | none =>
    obtain ⟨items, known, eq⟩ := x.scan_reached ix d ends
    rw [eq]
    have apart : ∀ item ∈ items, item.1 ≠ path := by
      intro item mem same
      have held := ExtTreeMap.mem_toList_iff_getElem?_eq_some.mp
        (show (item.1, item.2) ∈ (x.settled ix d).known.toList from known item mem)
      rw [same, show (x.settled ix d).known[path]? = none from congrArg Prod.snd put] at held
      cases held
    have kept := KeyedFold.look_of_absent x.toScanner.bury_local (x.settled ix d) apart
    exact congrArg Prod.fst (kept.trans put)

/-- A live entry afterwards is that of a file that was put, or an old one. -/
theorem live_entry {path : WirePath} {e : IndexEntry} (held : (x.scan ix d).entries[path]? = some e)
    (live : e.deleted = false) : ix.entries[path]? = some e ∨
      ∃ file, (path, file) ∈ x.reached d ∧ x.toScanner.rescanEntry ix.entries[path]? (some file) = some e := by
  by_cases put : ∃ file, (path, file) ∈ x.reached d
  · obtain ⟨file, mem⟩ := put
    rw [x.entry_reached ix d mem] at held
    exact .inr ⟨file, mem, held⟩
  · have unreached := x.settled_unreached ix d (not_exists.mp put)
    left
    cases ends : x.refused d with
    | some item =>
      rw [x.scan_refused ix d ends] at held
      exact (congrArg Prod.fst unreached).symm.trans held
    | none =>
      obtain ⟨items, -, eq⟩ := x.scan_reached ix d ends
      rw [eq] at held
      exact (congrArg Prod.fst unreached).symm.trans (x.live_before_bury held live)

variable {x ix d}

/-- Every map after a rescan was there before or is that of a file just hashed. -/
theorem getElem?_chunks_scan {k : String} {m : List Chunk} (h : (x.scan ix d).chunks[k]? = some m) :
    ix.chunks[k]? = some m ∨ ∃ item ∈ x.hashes d, Hashed ix item.1 item.2 ∧
      item.2.size ≤ maxChunkable ∧ k = x.hash item.2.bytes ∧ m = split x.hash item.2.bytes := by
  rw [x.chunks_scan] at h
  exact getElem?_chunks_foldl_visit (x.hashes_distinct d) (fun _ _ => rfl) h

theorem isSome_chunks_scan (d : Folder) {k : String} (h : ix.chunks[k]?.isSome) :
    (x.scan ix d).chunks[k]?.isSome := by
  rw [x.chunks_scan]
  exact isSome_chunks_foldl_visit _ h

end Indexer

section Invariant
variable {x : Indexer}

/-- A map kept under a hash is that of the bytes with the hash, and a live entry's
content is the hash of bytes whose map is kept. -/
structure MapsKept (sc : Scanner) (ix : SyncIndex) : Prop where
  faithful : ∀ (k : String) (m : List Chunk), ix.chunks[k]? = some m →
    ∃ b, b.length ≤ maxChunkable ∧ sc.hash b = k ∧ m = split sc.hash b
  recorded : ∀ (path : WirePath) (e : IndexEntry), ix.entries[path]? = some e → e.deleted = false →
    ∃ b, e.content = sc.hash b ∧
      (b.length ≤ maxChunkable → split sc.hash b ≠ [] → ix.chunks[e.content]?.isSome)

/-- An entry that the rescan wrote anew has the hash of its file. -/
theorem content_of_hashed {sc : Scanner} {ix : SyncIndex} {path : WirePath} {file : File} {e : IndexEntry}
    (hashed : Hashed ix path file) (put : sc.rescanEntry ix.entries[path]? (some file) = some e) :
    e.deleted = false ∧ e.content = sc.hash file.bytes := by
  cases old : ix.entries[path]? with
  | none =>
    rw [old] at put
    cases put
    exact ⟨rfl, rfl⟩
  | some before =>
    rw [old, rescanEntry, if_neg (hashed before old)] at put
    cases put
    exact ⟨rfl, rfl⟩

theorem MapsKept.scan {ix : SyncIndex} (h : MapsKept x.toScanner ix) (d : Folder) :
    MapsKept x.toScanner (x.scan ix d) := by
  constructor
  · intro k m kept
    rcases Indexer.getElem?_chunks_scan kept with old | ⟨item, -, -, small, rfl, rfl⟩
    · exact h.faithful k m old
    · exact ⟨item.2.bytes, small, rfl, rfl⟩
  · intro path e after live
    have before (old : ix.entries[path]? = some e) : ∃ b, e.content = x.hash b ∧
        (b.length ≤ maxChunkable → split x.hash b ≠ [] → (x.scan ix d).chunks[e.content]?.isSome) := by
      obtain ⟨b, content, kept⟩ := h.recorded path e old live
      exact ⟨b, content, fun small chunked => Indexer.isSome_chunks_scan d (kept small chunked)⟩
    rcases x.live_entry ix d after live with old | ⟨file, mem, put⟩
    · exact before old
    · by_cases hashed : Hashed ix path file
      · obtain ⟨-, content⟩ := content_of_hashed hashed put
        refine ⟨file.bytes, content, fun small chunked => ?_⟩
        rw [content, x.chunks_scan]
        exact isSome_chunks_of_hashed (x.hashes_distinct d) (List.mem_append_left _ mem) hashed small chunked
      · obtain ⟨old, held, same⟩ : ∃ old, ix.entries[path]? = some old ∧ Unchanged old file := by
          simpa [Hashed] using hashed
        rw [held, rescanEntry, if_pos same] at put
        cases put
        exact before held

/-- A map survives a rescan as it is. -/
theorem MapsKept.persists {ix : SyncIndex} (h : MapsKept x.toScanner ix) (inj : Function.Injective x.hash)
    (d : Folder) {k : String} {m : List Chunk} (kept : ix.chunks[k]? = some m) :
    (x.scan ix d).chunks[k]? = some m := by
  obtain ⟨m', after⟩ : ∃ m', (x.scan ix d).chunks[k]? = some m' := by
    rw [← Option.isSome_iff_exists]
    exact Indexer.isSome_chunks_scan d (Option.isSome_of_eq_some kept)
  rw [after]
  rcases Indexer.getElem?_chunks_scan after with old | ⟨item, -, -, -, key, rfl⟩
  · exact old.symm.trans kept
  · obtain ⟨b, -, hb, rfl⟩ := h.faithful k m kept
    rw [inj (hb.trans key)]

end Invariant

section Reads
variable {sc : Scanner} {ix : SyncIndex} {d : Folder} {want : String}

def HoldsAt (sc : Scanner) (file : File) (map : List Chunk) (want : String) : Prop :=
  ∃ c bytes, map.find? (fun c => c.hash = want) = some c ∧
    readRange file.bytes c.offset c.len = some bytes ∧ sc.hash bytes = want

theorem mem_of_find {m : List Chunk} {c : Chunk} (h : m.find? (fun c => c.hash = want) = some c) :
    c ∈ m ∧ c.hash = want := by
  refine ⟨List.mem_of_find?_eq_some h, ?_⟩
  have := List.find?_some h
  exact of_decide_eq_true this

theorem HoldsAt.mem {file : File} {m : List Chunk} (h : HoldsAt sc file m want) :
    want ∈ m.map Chunk.hash := by
  obtain ⟨c, -, first, -⟩ := h
  obtain ⟨listed, rfl⟩ := mem_of_find first
  exact List.mem_map_of_mem listed

end Reads

/-- What happens to a synced folder: its user's edits, and rescans. -/
inductive FolderEvent where
  /-- A file is created or edited. -/
  | write (path : WirePath) (file : File)
  | delete (path : WirePath)
  | rename («from» «to» : WirePath)
  | rescan

structure Scanned where
  index : SyncIndex
  folder : Folder

def Scanned.step (x : Indexer) (s : Scanned) : FolderEvent → Scanned
  | .write path file => { s with folder := s.folder.write path file }
  | .delete path => { s with folder := s.folder.remove path }
  | .rename «from» «to» => { s with folder := (s.folder.rename «from» «to»).getD s.folder }
  | .rescan => { s with index := x.scan s.index s.folder }

def Scanned.run (x : Indexer) (folder : Folder) (events : List FolderEvent) : Scanned :=
  events.foldl (Scanned.step x) ⟨⟨∅, ∅⟩, folder⟩

def EveryChunkReads (sc : Scanner) (s : Scanned) : Prop :=
  ∀ want ∈ s.index.chunks.haves, ∃ bytes, read sc s.index s.folder want = some bytes ∧ sc.hash bytes = want

/-- The chunk is recorded already, or belongs to the new or changed file that ends the coming
rescan. -/
def Offered (x : Indexer) (s : Scanned) (want : String) : Prop :=
  want ∈ s.index.chunks.haves ∨
    ∃ path file, x.refused s.folder = some (path, file) ∧ Hashed s.index path file ∧
      file.size ≤ maxChunkable ∧ want ∈ (split x.hash file.bytes).map Chunk.hash

theorem mem_haves {chunks : ChunkStore} {want : String} :
    want ∈ chunks.haves ↔ ∃ (k : String) (m : List Chunk), chunks[k]? = some m ∧ want ∈ m.map Chunk.hash := by
  simp only [ChunkStore.haves, List.mem_flatMap, Prod.exists, ExtTreeMap.mem_toList_iff_getElem?_eq_some]

section Main
variable {x : Indexer} (inj : Function.Injective x.hash) (nonempty : ∀ b, x.hash b ≠ "")

include inj

/-- The entry of a hashed file has its map recorded by the rescan. -/
theorem chunks_of_hashed {s : Scanned} (h : MapsKept x.toScanner s.index) {path : WirePath} {file : File}
    (mem : (path, file) ∈ x.hashes s.folder) (hashed : Hashed s.index path file)
    (small : file.size ≤ maxChunkable) {want : String} (chunk : want ∈ (split x.hash file.bytes).map Chunk.hash) :
    (x.scan s.index s.folder).chunks[x.hash file.bytes]? = some (split x.hash file.bytes) := by
  have chunked : split x.hash file.bytes ≠ [] := by
    intro empty
    rw [empty] at chunk
    cases chunk
  have recorded : (x.scan s.index s.folder).chunks[x.hash file.bytes]?.isSome := by
    rw [x.chunks_scan]
    exact isSome_chunks_of_hashed (x.hashes_distinct s.folder) mem hashed small chunked
  obtain ⟨m, after⟩ := Option.isSome_iff_exists.mp recorded
  obtain ⟨b, -, same, rfl⟩ := (h.scan s.folder).faithful _ _ after
  rw [after, inj same]

theorem Offered.listed {s : Scanned} (kept : MapsKept x.toScanner s.index) {want : String}
    (offered : Offered x s want) : want ∈ (x.scan s.index s.folder).chunks.haves := by
  rcases offered with before | ⟨path, file, ends, hashed, small, mem⟩
  · obtain ⟨k, m, before, mem⟩ := mem_haves.mp before
    exact mem_haves.mpr ⟨k, m, kept.persists inj s.folder before, mem⟩
  · have here : (path, file) ∈ x.hashes s.folder := by
      rw [Indexer.hashes, ends]
      exact List.mem_append_right _ (List.mem_singleton_self _)
    exact mem_haves.mpr ⟨_, _, chunks_of_hashed inj kept here hashed small mem, mem⟩

include nonempty

end Main

/-! A file is edited between two rescans. -/

/-- The digests of the two one-byte files below; every other file has a name of its own. -/
def digest (b : Bytes) : String :=
  if b = [120] then "2d711642b726b04401627ca9fbac32f5c8530fb1903cc4db02258717921a4881"
  else if b = [121] then "a1fce4363854ff888cff4b8e7875d600c2682390412a8cf79b37d0b11148b0fa"
  else String.ofList ('#' :: b.map Char.ofUInt8)

private theorem ofUInt8_injective : Function.Injective Char.ofUInt8 := by
  intro x y same
  have : x.toUInt32 = y.toUInt32 := congrArg Char.val same
  exact UInt8.toNat_inj.mp (by simpa using congrArg UInt32.toNat this)

private theorem unmarked {text : String} (h : text.toList.head? ≠ some '#') (c : Bytes) :
    text ≠ String.ofList ('#' :: c.map Char.ofUInt8) := by
  rintro rfl
  exact h (by rw [String.toList_ofList]; rfl)

private theorem digest_cases (b : Bytes) : b = [120] ∨ b = [121] ∨
    digest b = String.ofList ('#' :: b.map Char.ofUInt8) := by
  by_cases x : b = [120]
  · exact .inl x
  · by_cases y : b = [121]
    · exact .inr (.inl y)
    · exact .inr (.inr (by rw [digest, if_neg x, if_neg y]))

theorem digest_injective : Function.Injective digest := by
  intro a b same
  have letters : digest [120] ≠ digest [121] := by decide
  have x : (digest [120]).toList.head? ≠ some '#' := by decide
  have y : (digest [121]).toList.head? ≠ some '#' := by decide
  obtain rfl | rfl | ha := digest_cases a <;> obtain rfl | rfl | hb := digest_cases b
  · rfl
  · exact absurd same letters
  · exact absurd (same.trans hb) (unmarked x b)
  · exact absurd same.symm letters
  · rfl
  · exact absurd (same.trans hb) (unmarked y b)
  · exact absurd (same.symm.trans ha) (unmarked x a)
  · exact absurd (same.symm.trans ha) (unmarked y a)
  · rw [ha, hb] at same
    have lists := congrArg String.toList same
    rw [String.toList_ofList, String.toList_ofList] at lists
    exact ofUInt8_injective.list_map (List.cons.inj lists).2

private def oneByte (b : UInt8) (modified : Int) : FolderEvent := .write ['f'] ⟨[b], modified⟩

end PeerBeam.Sync
