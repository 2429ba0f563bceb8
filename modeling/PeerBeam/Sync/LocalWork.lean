import PeerBeam.Sync.ChunkReads
import PeerBeam.Sync.Convergence
import PeerBeam.Sync.Mirror
import PeerBeam.Sync.RenameCollapse

/-! What a pass does to the files a device already has. A plan is made for the paths a peer
wrote, and carried out where these lead. -/
namespace PeerBeam.Sync
open Std

def stagingSuffix : List Char := ['.', 'p', 'b', 's', 'y', 'n', 'c']

theorem isName_staging {name : List Char} (h : IsName name) : IsName (name ++ stagingSuffix) := by
  have longer : 2 < (name ++ stagingSuffix).length := by simp [stagingSuffix]
  refine ⟨?_, ?_, ?_, ?_⟩
  · intro eq; simp [eq] at longer
  · intro eq; simp [eq] at longer
  · intro eq; simp [eq] at longer
  · simp [h.2.2.2, stagingSuffix]

def stagingName (name : FileName) : FileName := ⟨name.val ++ stagingSuffix, isName_staging name.2⟩

/-- Where a fetched file is built; the staging file of the root lies outside the folder. -/
def stagingPath (path : WirePath) : WirePath :=
  match (localPath path).getLast? with
  | none => []
  | some name => wirePath ((localPath path).dropLast ++ [stagingName name])

inductive Delivery where
  /-- Nothing is written, not even the staging file. -/
  | refused
  /-- The staging file was created and is removed again. -/
  | failed
  | landed (file : File)

structure FetchIo extends PassIo where
  /-- How a remote path, to be written to a path of ours, arrives. -/
  delivery : WirePath → WirePath → Delivery

/-- The staging file replaces whatever has its name, and then the destination. -/
def fetchInto (io : FetchIo) (d : Folder) (path writeTo : WirePath) : Folder :=
  match io.delivery path writeTo with
  | .refused => d
  | .failed => d.remove (stagingPath writeTo)
  | .landed file => (d.remove (stagingPath writeTo)).write writeTo file

def fetchAction (io : FetchIo) (d : Folder) : Action → Folder
  | .fetch path => fetchInto io d path path
  | .conflict path keepAs => fetchInto io d path keepAs
  | _ => d

section Pass
variable (sc : Scanner) (peer : String) (remote : List RemoteFile) (s : Device)

def planned : List Action := reconcile (sc.rescan s.index s.folder).1.entries remote peer

def folderAfter (io : FetchIo) : Folder :=
  let entries := (sc.rescan s.index s.folder).1.entries
  let remoteVersions := collect (remote.map fun f => (f.path, f.version))
  let applied := applyLocal io.toPassIo entries remoteVersions s.folder (planned sc peer remote s)
  (planned sc peer remote s).foldl (fetchAction io) applied.folder

/-- The list has an entry for exactly this path that supersedes ours. -/
def Superseded (path : WirePath) : Prop :=
  ∃ f ∈ remote, f.path = path ∧ ∃ mine, s.before sc path = some mine ∧ f.version.Dominates mine.version

/-- These bytes of a file are still there: at its path, at its own conflict copy or at the
target of its own rename. -/
def StillThere (plan : List Action) (d : Folder) (path : WirePath) (bytes : Bytes) : Prop :=
  ∃ q, (d.find q).map File.bytes = some bytes ∧
    (q = path ∨ (∃ keepAs, .conflict path keepAs ∈ plan ∧ q = resolve keepAs) ∨
      ∃ dst, .rename path dst ∈ plan ∧ q = resolve dst)

def KeepsWork (io : FetchIo) : Prop :=
  ∀ path file, s.folder.find path = some file → Superseded sc remote s path ∨
    StillThere (planned sc peer remote s) (folderAfter sc peer remote s io) path file.bytes

inductive WrittenTo (f : RemoteFile) : WirePath → Prop
  /-- A live file that is new to the index, or ahead of its entry. -/
  | taken : f.deleted = false → (∀ mine, s.before sc f.path = some mine → f.version.Dominates mine.version) →
      WrittenTo f f.path
  | conflict (mine : IndexEntry) : s.before sc f.path = some mine → mine.version.Concurrent f.version →
      WrittenTo f (conflictName f.path peer)

/-- What a listed file is written to, or staged at, is no file that is here to stay. -/
def Clear : Prop :=
  ∀ f ∈ remote, ∀ dst, WrittenTo sc peer s f dst → ∀ path file, s.folder.find path = some file →
    ¬ Superseded sc remote s path → resolve dst ≠ path ∧ stagingPath dst ≠ path

end Pass

theorem resolve_stagingPath (path : WirePath) : resolve (stagingPath path) = stagingPath path := by
  unfold stagingPath
  split
  · rfl
  · exact resolve_wirePath _

section Plan
variable {sc : Scanner} {peer : String} {remote : List RemoteFile} {s : Device}

theorem decide_fetch_iff {entries : Entries} {f : RemoteFile} :
    decideRemote entries peer f = some (.fetch f.path) ↔
      f.deleted = false ∧ ∀ mine, entries[f.path]? = some mine → f.version.Dominates mine.version := by
  constructor
  · intro decided
    have live := (behind_of_fetch decided).1
    exact ⟨live, fun mine held => (decideRemote_fetch held live).mp decided⟩
  · rintro ⟨live, ahead⟩
    cases held : entries[f.path]? with
    | none => simp [decideRemote, held, live]
    | some mine => exact (decideRemote_fetch held live).mpr (ahead mine held)

theorem decide_conflict_iff {entries : Entries} {f : RemoteFile} {keepAs : WirePath} :
    decideRemote entries peer f = some (.conflict f.path keepAs) ↔
      ∃ mine, entries[f.path]? = some mine ∧ mine.version.Concurrent f.version ∧
        keepAs = conflictName f.path peer := by
  constructor
  · intro decided
    cases held : entries[f.path]? with
    | none =>
      simp only [decideRemote, held] at decided
      split at decided <;> cases decided
    | some mine => exact ⟨mine, rfl, (decideRemote_conflict held keepAs).mp decided⟩
  · rintro ⟨mine, held, apart⟩
    exact (decideRemote_conflict held keepAs).mpr apart

/-- The fetches of a list, before some become renames, write what is taken. -/
theorem fetch_raw_iff {path : WirePath} :
    .fetch path ∈ reconcileRaw (sc.rescan s.index s.folder).1.entries remote peer ↔
      ∃ f ∈ remote, f.path = path ∧ f.deleted = false ∧
        ∀ mine, s.before sc f.path = some mine → f.version.Dominates mine.version := by
  rw [fetch_mem_reconcileRaw]
  simp only [decide_fetch_iff, before_eq]

theorem conflict_raw_iff {path keepAs : WirePath} :
    .conflict path keepAs ∈ reconcileRaw (sc.rescan s.index s.folder).1.entries remote peer ↔
      ∃ f ∈ remote, f.path = path ∧ ∃ mine, s.before sc f.path = some mine ∧
        mine.version.Concurrent f.version ∧ keepAs = conflictName f.path peer := by
  rw [conflict_mem_reconcileRaw]
  simp only [decide_conflict_iff, before_eq]

theorem written_of_fetch {path : WirePath}
    (raw : .fetch path ∈ reconcileRaw (sc.rescan s.index s.folder).1.entries remote peer) :
    ∃ f ∈ remote, WrittenTo sc peer s f path := by
  obtain ⟨f, listed, rfl, live, ahead⟩ := fetch_raw_iff.mp raw
  exact ⟨f, listed, .taken live ahead⟩

theorem written_of_conflict {path keepAs : WirePath}
    (raw : .conflict path keepAs ∈ reconcileRaw (sc.rescan s.index s.folder).1.entries remote peer) :
    ∃ f ∈ remote, WrittenTo sc peer s f keepAs := by
  obtain ⟨f, listed, rfl, mine, held, apart, rfl⟩ := conflict_raw_iff.mp raw
  exact ⟨f, listed, .conflict mine held apart⟩

/-- What is deleted is a live file under its own name that the list supersedes. -/
theorem superseded_of_delete {path : WirePath}
    (raw : .delete path ∈ reconcileRaw (sc.rescan s.index s.folder).1.entries remote peer) :
    resolve path = path ∧ Superseded sc remote s path := by
  obtain ⟨f, listed, rfl, decided, -⟩ := delete_mem_reconcileRaw raw
  obtain ⟨mine, held, live, -, dominates⟩ := decideRemote_delete decided
  rw [before_eq] at held
  exact ⟨named_of_before held live, f, listed, rfl, mine, held, dominates⟩

theorem conflict_mem_planned {path keepAs : WirePath} (mem : .conflict path keepAs ∈ planned sc peer remote s) :
    .conflict path keepAs ∈ reconcileRaw (sc.rescan s.index s.folder).1.entries remote peer := by
  obtain here | ⟨_, _, eq⟩ := mem_of_mem_collapseRenames mem
  · exact here
  · cases eq

variable {path : WirePath}

/-- An action that neither removes nor writes this path. -/
def Action.Spares (path : WirePath) : Action → Prop
  | .fetch p => resolve p ≠ path ∧ stagingPath p ≠ path
  | .conflict _ keepAs => resolve keepAs ≠ path ∧ stagingPath keepAs ≠ path
  | .delete p => resolve p ≠ path
  | .rename src dst => resolve src ≠ path ∧ resolve dst ≠ path
  | .push _ => True

theorem planned_spares (clear : Clear sc peer remote s) {file : File} (here : s.folder.find path = some file)
    (stays : ¬ Superseded sc remote s path) : ∀ a ∈ planned sc peer remote s, a.Spares path := by
  have deletes {p : WirePath}
      (raw : .delete p ∈ reconcileRaw (sc.rescan s.index s.folder).1.entries remote peer) : resolve p ≠ path := by
    obtain ⟨named, gone⟩ := superseded_of_delete raw
    rintro rfl
    exact stays (named.symm ▸ gone)
  intro a mem
  cases a with
  | push p => trivial
  | fetch p =>
    obtain ⟨f, listed, written⟩ := written_of_fetch (fetch_mem_reconcile mem).1
    exact clear f listed p written path file here stays
  | conflict p keepAs =>
    obtain ⟨f, listed, written⟩ := written_of_conflict (conflict_mem_planned mem)
    exact clear f listed keepAs written path file here stays
  | delete p => exact deletes (delete_mem_reconcile mem)
  | rename src dst =>
    obtain ⟨deleted, fetched, -⟩ := rename_mem_reconcile mem
    obtain ⟨f, listed, written⟩ := written_of_fetch fetched
    exact ⟨deletes deleted, (clear f listed dst written path file here stays).1⟩

theorem find_applyAction {io : PassIo} {known : Entries} {versions : ExtTreeMap WirePath VersionVector compare}
    {a : Action} (spares : a.Spares path) (t : Applied) :
    (applyAction io known versions t a).folder.find path = t.folder.find path := by
  cases a with
  | push p | fetch p | conflict p k => rfl
  | delete p =>
    simp only [applyAction, applyDelete]
    split
    · rfl
    · rw [Folder.find_remove, if_neg spares]
  | rename src dst =>
    simp only [applyAction, applyRename]
    split
    · next folder moved =>
      split at moved
      · unfold Folder.rename at moved
        split at moved
        · cases moved
        · obtain ⟨file, -, rfl⟩ := Option.map_eq_some_iff.mp moved
          rw [Folder.find_write, if_neg (fun h => spares.2 h.1), Folder.find_remove, if_neg spares.1]
      · cases moved
    · rfl

theorem find_fetchAction {io : FetchIo} {a : Action} (spares : a.Spares path) (d : Folder) :
    (fetchAction io d a).find path = d.find path := by
  have into (p q : WirePath) (written : resolve q ≠ path) (staged : stagingPath q ≠ path) :
      (fetchInto io d p q).find path = d.find path := by
    have unstaged : (d.remove (stagingPath q)).find path = d.find path := by
      rw [Folder.find_remove, resolve_stagingPath, if_neg staged]
    unfold fetchInto
    split
    · rfl
    · exact unstaged
    · rw [Folder.find_write, if_neg (fun h => written h.1), unstaged]
  cases a with
  | push p | delete p | rename src dst => rfl
  | fetch p => exact into p p spares.1 spares.2
  | conflict p keepAs => exact into p keepAs spares.1 spares.2

/-- Nothing a pass does reaches a file that every action of its plan spares. -/
theorem find_folderAfter {io : FetchIo} (spares : ∀ a ∈ planned sc peer remote s, a.Spares path) :
    (folderAfter sc peer remote s io).find path = s.folder.find path := by
  have applied (known : Entries) (versions : ExtTreeMap WirePath VersionVector compare) :
      (applyLocal io.toPassIo known versions s.folder (planned sc peer remote s)).folder.find path =
        s.folder.find path :=
    KeyedFold.foldl_unchanged (fun t : Applied => t.folder.find path)
      (fun a mem => find_applyAction (spares a mem)) _
  have fetched (d : Folder) : ((planned sc peer remote s).foldl (fetchAction io) d).find path = d.find path :=
    KeyedFold.foldl_unchanged (fun d : Folder => d.find path)
      (fun a mem => find_fetchAction (spares a mem)) d
  unfold folderAfter
  dsimp only
  rw [fetched, applied]

def Action.Hits (path : WirePath) : Action → Prop
  | .fetch p => resolve p = path ∨ stagingPath p = path
  | .conflict _ keepAs => resolve keepAs = path ∨ stagingPath keepAs = path
  | _ => False

/-- The system refuses every move and removal; every fetch lands with these bytes. -/
def spoiling (bytes : Bytes) : FetchIo where
  mayRename _ _ := false
  mayRemove _ := false
  received _ _ := ⟨bytes, 0⟩
  delivery _ _ := .landed ⟨bytes, 0⟩

theorem fetchInto_spoiling {bytes : Bytes} (d : Folder) (p q : WirePath)
    (h : (resolve q = path ∨ stagingPath q = path) ∨ (d.find path).map File.bytes ∈ [none, some bytes]) :
    ((fetchInto (spoiling bytes) d p q).find path).map File.bytes ∈ [none, some bytes] := by
  have eq : fetchInto (spoiling bytes) d p q = (d.remove (stagingPath q)).write q ⟨bytes, 0⟩ := rfl
  rw [eq, Folder.find_write, Folder.find_remove, resolve_stagingPath]
  by_cases written : resolve q = path ∧ path ≠ []
  · simp [written]
  · rw [if_neg written]
    split
    · simp
    · next unstaged =>
      rcases h with (here | staged) | held
      · -- only the root is written to and stays without a file
        have root : path = [] := by
          by_contra other
          exact written ⟨here, other⟩
        cases found : d.find path with
        | none => simp
        | some file => exact absurd root (Folder.named_of_find found).2
      · exact absurd staged unstaged
      · exact held

theorem foldl_spoiling (bytes : Bytes) (actions : List Action) (d : Folder)
    (h : (∃ a ∈ actions, a.Hits path) ∨ (d.find path).map File.bytes ∈ [none, some bytes]) :
    ((actions.foldl (fetchAction (spoiling bytes)) d).find path).map File.bytes ∈ [none, some bytes] := by
  induction actions generalizing d with
  | nil => exact h.resolve_left (by simp)
  | cons a actions ih =>
    apply ih
    rcases h with ⟨b, mem, hits⟩ | held
    · rcases List.mem_cons.mp mem with rfl | later
      · right
        cases b with
        | fetch p => exact fetchInto_spoiling d p p (.inl hits)
        | conflict p keepAs => exact fetchInto_spoiling d p keepAs (.inl hits)
        | push | delete | rename => exact hits.elim
      · exact .inl ⟨b, later, hits⟩
    · right
      cases a with
      | fetch p => exact fetchInto_spoiling d p p (.inr held)
      | conflict p keepAs => exact fetchInto_spoiling d p keepAs (.inr held)
      | push | delete | rename => exact held

/-- A conflict stays in the plan, and so does a fetch that no rename replaces. -/
theorem conflict_planned {keepAs : WirePath}
    (raw : .conflict path keepAs ∈ reconcileRaw (sc.rescan s.index s.folder).1.entries remote peer) :
    .conflict path keepAs ∈ planned sc peer remote s := by
  unfold planned reconcile collapseRenames
  dsimp only
  split
  · exact raw
  · exact List.mem_filterMap.mpr ⟨_, raw, rfl⟩

/-- The moves that a pass makes out of deletions and fetches. -/
def moves (sc : Scanner) (peer : String) (remote : List RemoteFile) (s : Device) : List Rename :=
  renames (sc.rescan s.index s.folder).1.entries remote
    (reconcileRaw (sc.rescan s.index s.folder).1.entries remote peer)

theorem fetch_planned (raw : .fetch path ∈ reconcileRaw (sc.rescan s.index s.folder).1.entries remote peer) :
    .fetch path ∈ planned sc peer remote s ∨ ∃ r ∈ moves sc peer remote s, r.to = path := by
  unfold planned reconcile collapseRenames
  dsimp only
  split
  · exact .inl raw
  · by_cases moved : path ∈ (moves sc peer remote s).map Rename.to
    · exact .inr (List.mem_map.mp moved)
    · refine .inl (List.mem_filterMap.mpr ⟨_, raw, ?_⟩)
      simp only [collapseAction]
      rw [if_neg (by simpa [moves] using moved)]

/-- Where an action hits a file that is here to stay, some peer destroys it. -/
theorem spared_of_keepsWork (keeps : ∀ io, KeepsWork sc peer remote s io) {file : File}
    (here : s.folder.find path = some file) (stays : ¬ Superseded sc remote s path) :
    ∀ a ∈ planned sc peer remote s, ¬ a.Hits path := by
  intro a mem hits
  let other : Bytes := file.bytes ++ [0]
  have differs : some file.bytes ∉ [none, some other] := by simp [other]
  rcases keeps (spoiling other) path file here with gone | ⟨q, holds, origin⟩
  · exact stays gone
  · have spoiled (hit : ∃ b ∈ planned sc peer remote s, b.Hits q) : False := by
      have := foldl_spoiling other (planned sc peer remote s)
        (applyLocal (spoiling other).toPassIo (sc.rescan s.index s.folder).1.entries
          (collect (remote.map fun f => (f.path, f.version))) s.folder (planned sc peer remote s)).folder (.inl hit)
      exact differs (holds ▸ this)
    rcases origin with rfl | ⟨keepAs, planned_conflict, rfl⟩ | ⟨dst, renamed, -⟩
    · exact spoiled ⟨a, mem, hits⟩
    · exact spoiled ⟨_, planned_conflict, .inl rfl⟩
    · exact stays (superseded_of_delete (rename_mem_reconcile renamed).1).2

def NothingMoves (sc : Scanner) (remote : List RemoteFile) (s : Device) : Prop :=
  ∀ f ∈ remote, ∀ g ∈ remote, ∀ mine, s.before sc g.path = some mine → mine.deleted = false → g.deleted = true →
    mine.content = f.content → mine.content = ""

theorem moves_of_nothingMoves (h : NothingMoves sc remote s) : moves sc peer remote s = [] := by
  rw [List.eq_nil_iff_forall_not_mem]
  intro r mem
  obtain ⟨a, raw, kept⟩ := List.mem_filterMap.mp (detect_from mem)
  obtain ⟨b, -, kept'⟩ := List.mem_filterMap.mp (detect_to mem)
  cases a with
  | delete p =>
    obtain ⟨content, found, kept⟩ := Option.bind_eq_some_iff.mp kept
    obtain ⟨mine, held, rfl⟩ := Option.map_eq_some_iff.mp found
    split at kept
    · cases kept
    · next nonempty =>
      have same : mine.content = r.hash := congrArg Prod.snd (Option.some.inj kept)
      obtain ⟨g, listed, rfl, decided, -⟩ := delete_mem_reconcileRaw raw
      obtain ⟨mine', held', live, gone, -⟩ := decideRemote_delete decided
      cases held.symm.trans held'
      cases b with
      | fetch q =>
        obtain ⟨content, found', kept'⟩ := Option.bind_eq_some_iff.mp kept'
        obtain ⟨f, listed', pair⟩ := List.mem_map.mp (mem_of_collect found')
        split at kept'
        · cases kept'
        · have same' : content = r.hash := congrArg Prod.snd (Option.some.inj kept')
          have listed_content : f.content = content := congrArg Prod.snd pair
          refine nonempty (h f listed' g listed mine (before_eq g.path ▸ held) live gone ?_)
          rw [same, listed_content, same']
      | _ => cases kept'
  | _ => cases kept

end Plan

/-- A pass destroys no local work where no listed file is written or staged over a file
that is here to stay. Conversely, if no peer and no system can make the pass destroy
work, then every such overlap belongs to a fetch that became a move of a local file; in
particular there is none where nothing moves. -/
theorem local_work_kept (sc : Scanner) (peer : String) (remote : List RemoteFile) (s : Device) :
    (Clear sc peer remote s → ∀ io, KeepsWork sc peer remote s io) ∧
    ((∀ io, KeepsWork sc peer remote s io) → ∀ f ∈ remote, ∀ dst, WrittenTo sc peer s f dst →
      ∀ path file, s.folder.find path = some file → ¬ Superseded sc remote s path →
      resolve dst = path ∨ stagingPath dst = path → ∃ r ∈ moves sc peer remote s, r.to = dst) ∧
    (NothingMoves sc remote s → ((∀ io, KeepsWork sc peer remote s io) ↔ Clear sc peer remote s)) := by
  have enough (clear : Clear sc peer remote s) (io : FetchIo) : KeepsWork sc peer remote s io := by
    intro path file here
    by_cases gone : Superseded sc remote s path
    · exact .inl gone
    · refine .inr ⟨path, ?_, .inl rfl⟩
      rw [find_folderAfter (planned_spares clear here gone), here]
      rfl
  have needed (keeps : ∀ io, KeepsWork sc peer remote s io) : ∀ f ∈ remote, ∀ dst, WrittenTo sc peer s f dst →
      ∀ path file, s.folder.find path = some file → ¬ Superseded sc remote s path →
      resolve dst = path ∨ stagingPath dst = path → ∃ r ∈ moves sc peer remote s, r.to = dst := by
    intro f listed dst written path file here stays hit
    have spared := spared_of_keepsWork keeps here stays
    cases written with
    | taken live ahead =>
      rcases fetch_planned (fetch_raw_iff.mpr ⟨f, listed, rfl, live, ahead⟩) with planned | moved
      · exact absurd hit (spared _ planned)
      · exact moved
    | conflict mine held apart =>
      have raw : .conflict f.path (conflictName f.path peer) ∈ planned sc peer remote s :=
        conflict_planned (conflict_raw_iff.mpr ⟨f, listed, rfl, mine, held, apart, rfl⟩)
      exact absurd hit (spared _ raw)
  refine ⟨enough, needed, fun still => ⟨fun keeps => ?_, enough⟩⟩
  intro f listed dst written path file here stays
  rw [← not_or]
  intro hit
  obtain ⟨r, moved, -⟩ := needed keeps f listed dst written path file here stays hit
  rw [moves_of_nothingMoves still] at moved
  cases moved

/-! A device with the file `a`, and a peer that lists `./a`. -/

private def oneFile : Device := ⟨⟨∅, ∅⟩, Folder.empty.write ['a'] ⟨[120], 1700000000⟩⟩

private def aliasFile : RemoteFile := ⟨['.', '/', 'a'], 1, VersionVector.new.bump "pb-b", "", false⟩

/-- The list has no entry for `a`; the fetch of `./a` replaces it all the same. -/
theorem alias_destroys_local_work :
    ¬ KeepsWork ⟨digest, "pb-a"⟩ "pb-b" [aliasFile] oneFile (spoiling [121]) := by
  intro keeps
  have plan : planned ⟨digest, "pb-a"⟩ "pb-b" [aliasFile] oneFile = [.fetch ['.', '/', 'a'], .push ['a']] := by
    decide +kernel
  have left : ((folderAfter ⟨digest, "pb-a"⟩ "pb-b" [aliasFile] oneFile (spoiling [121])).find ['a']).map
      File.bytes = some [121] := by
    decide +kernel
  have here : oneFile.folder.find ['a'] = some ⟨[120], 1700000000⟩ := by decide +kernel
  rcases keeps ['a'] ⟨[120], 1700000000⟩ here with ⟨f, listed, named, -⟩ | ⟨q, holds, origin⟩
  · cases List.mem_singleton.mp listed
    cases named
  · rw [plan] at origin
    rcases origin with rfl | ⟨keepAs, mem, -⟩ | ⟨dst, mem, -⟩
    · rw [left] at holds
      cases holds
    · simp at mem
    · simp at mem

end PeerBeam.Sync
