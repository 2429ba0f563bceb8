import PeerBeam.Sync.Reconcile

/-! Carrying out what reconciliation decided, and one whole pass as `sync_once` runs it. -/
namespace PeerBeam.Sync
open Std

structure Outcome where
  renamed : Nat
  fetching : Nat
  pushing : Nat
  deleted : Nat
  conflicts : List WirePath
  deriving DecidableEq

structure PassIo where
  /-- Whether the system lets a file be moved, or removed. -/
  mayRename : WirePath → WirePath → Bool
  mayRemove : WirePath → Bool
  /-- The file that fetching a remote path leaves where it is written. -/
  received : WirePath → WirePath → File

structure Applied where
  entries : Entries
  folder : Folder
  outcome : Outcome
  /-- Where files were moved, oldest first. -/
  moved : List WirePath

/-- The entry a moved file is recorded under: the old vector, and no mtime. -/
def movedEntry (e : IndexEntry) (size : Nat) : IndexEntry where
  size := size
  modified := 0
  content := e.content
  version := e.version
  deleted := false

section Apply
variable (io : PassIo) (known : Entries) (remoteVersions : ExtTreeMap WirePath VersionVector compare)

def applyRename (s : Applied) («from» «to» : WirePath) : Applied :=
  match if io.mayRename «from» «to» then s.folder.rename «from» «to» else none with
  | some folder =>
    let size := ((folder.find (resolve «to»)).map File.size).getD 0
    { entries :=
        match known[«from»]? with
        | some e =>
          (s.entries.insert «from» { e with deleted := true, size := 0 }).insert «to» (movedEntry e size)
        | none => s.entries
      folder
      outcome := { s.outcome with renamed := s.outcome.renamed + 1 }
      moved := s.moved ++ [«to»] }
  -- fall back to fetching it
  | none => { s with outcome := { s.outcome with fetching := s.outcome.fetching + 1 } }

def buried (path : WirePath) : IndexEntry :=
  match known[path]? with
  | some e =>
    { e with
      deleted := true
      size := 0
      version :=
        match remoteVersions[path]? with
        | some v => e.version.merge v
        | none => e.version }
  | none => ⟨0, 0, remoteVersions[path]?.getD .new, "", true⟩

def applyDelete (s : Applied) (path : WirePath) : Applied :=
  -- already gone is success; what could not be removed, as the root, is not indexed as deleted
  if resolve path = [] ∨ (s.folder.find (resolve path)).isSome ∧ io.mayRemove path = false then s
  else
    { s with
      folder := s.folder.remove path
      entries := s.entries.insert path (buried known remoteVersions path)
      outcome := { s.outcome with deleted := s.outcome.deleted + 1 } }

def applyAction (s : Applied) : Action → Applied
  | .rename «from» «to» => applyRename io known s «from» «to»
  | .fetch _ => { s with outcome := { s.outcome with fetching := s.outcome.fetching + 1 } }
  | .push _ => { s with outcome := { s.outcome with pushing := s.outcome.pushing + 1 } }
  | .conflict _ keepAs => { s with outcome := { s.outcome with conflicts := s.outcome.conflicts ++ [keepAs] } }
  | .delete path => applyDelete io known remoteVersions s path

/-- Apply the local half of a plan, with the index as it was when the plan was made. -/
def applyLocal (folder : Folder) (actions : List Action) : Applied :=
  actions.foldl (applyAction io known remoteVersions) ⟨known, folder, ⟨0, 0, 0, 0, []⟩, []⟩

end Apply

/-- One transfer that lands: a conflict's copy goes to its conflict name. -/
def receive (io : PassIo) (d : Folder) : Action → Folder
  | .fetch path => d.write path (io.received path path)
  | .conflict path keepAs => d.write keepAs (io.received path keepAs)
  | _ => d

structure Device where
  index : SyncIndex
  folder : Folder

structure Pass where
  device : Device
  plan : List Action
  moved : List WirePath

/-- One pass against a peer's list: rescan, reconcile, apply, fetch. -/
def syncOnce (sc : Scanner) (peer : String) (remote : List RemoteFile) (io : PassIo) (s : Device) : Pass :=
  let index := (sc.rescan s.index s.folder).1
  let plan := reconcile index.entries remote peer
  let remoteVersions := collect (remote.map fun f => (f.path, f.version))
  let applied := applyLocal io index.entries remoteVersions s.folder plan
  { device := ⟨⟨applied.entries, index.chunks⟩, plan.foldl (receive io) applied.folder⟩
    plan
    moved := applied.moved }

/-- The path was fetched, or a file was moved there. Nothing can be fetched onto
the root. -/
def Pass.Landed (p : Pass) (path : WirePath) : Prop :=
  .fetch path ∈ p.plan ∧ resolve path ≠ [] ∨ path ∈ p.moved

section Touch
variable {io : PassIo} {known : Entries} {remoteVersions : ExtTreeMap WirePath VersionVector compare}

end Touch

/-- A path that was fetched holds a file when the pass ends. -/
theorem find_foldl_receive {io : PassIo} {actions : List Action} {path : WirePath}
    (named : resolve path = path ∧ path ≠ []) (d : Folder)
    (h : .fetch path ∈ actions ∨ (d.find path).isSome) :
    ((actions.foldl (receive io) d).find path).isSome := by
  induction actions generalizing d with
  | nil => exact h.resolve_left List.not_mem_nil
  | cons a actions ih =>
    -- a write at this path puts a file there, any other leaves the one it has
    have kept : (d.find path).isSome → ((receive io d a).find path).isSome := by
      intro some
      cases a with
      | fetch p | conflict p k =>
        simp only [receive, Folder.find_write]
        split
        · rfl
        · exact some
      | push _ | delete _ | rename _ _ => exact some
    refine ih _ ?_
    rcases h with mem | some
    · rcases List.mem_cons.mp mem with rfl | later
      · refine .inr ?_
        simp [receive, named.1, named.2]
      · exact .inl later
    · exact .inr (kept some)

end PeerBeam.Sync
