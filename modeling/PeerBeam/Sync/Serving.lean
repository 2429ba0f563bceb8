import PeerBeam.Lib.Run
import PeerBeam.Sync.Apply

/-! A peer that serves a share: the manifest it answers with, and a device that keeps
syncing from it. -/
namespace PeerBeam.Sync
open Std

mutual
/-- What stands under a name on the serving disk. -/
inductive Node where
  | file (file : File)
  | symlink
  | dir (listing : Listing)
/-- A directory's entries, in the order the system reads them. -/
inductive Listing where
  | nil
  | cons (name : FileName) (node : Node) (rest : Listing)
end

def maxFiles : Nat := 2000

structure FileEntry where
  path : WirePath
  size : Nat
  modified : Int
  version : VersionVector
  content : String
  deleted : Bool
  deriving DecidableEq

structure Manifest where
  path : WirePath
  files : List FileEntry
  truncated : Bool
  denied : Bool
  deriving DecidableEq

/-- The same answer for every reason not to answer. -/
def Manifest.refusal (path : WirePath) : Manifest := ⟨path, [], false, true⟩

/-- The accumulators of `walk`. -/
structure Walk where
  out : List FileEntry
  truncated : Bool

section Build
variable (versions : Option (ExtTreeMap WirePath VersionVector compare))
  (hashes : Option (ExtTreeMap WirePath String compare))

def fileEntry (path : WirePath) (file : File) : FileEntry where
  path := path
  size := file.size
  modified := file.modified
  version := (versions.bind (·[path]?)).getD .new
  content := (hashes.bind (·[path]?)).getD ""
  deleted := false

mutual
/-- One entry of a directory: links are skipped, directories entered. -/
def walkNode (components : List FileName) (w : Walk) : Node → Walk
  | .symlink => w
  | .dir listing => if w.truncated then w else walkListing components w listing
  | .file file => { w with out := w.out ++ [fileEntry versions hashes (wirePath components) file] }
def walkListing (components : List FileName) (w : Walk) : Listing → Walk
  | .nil => w
  | .cons name node rest =>
    if maxFiles ≤ w.out.length then { w with truncated := true }
    else walkListing components (walkNode (components ++ [name]) w node) rest
end

/-- The manifest of a share-relative path, which leads to `share` or to nothing. A
file that is shared itself has no directory to read. -/
def buildFull (share : Option Node) (path : WirePath) : Manifest :=
  match share with
  | none => .refusal path
  | some (.dir listing) =>
    let w := walkListing versions hashes [] ⟨[], false⟩ listing
    ⟨path, w.out.mergeSort fun a b => (compare a.path b.path).isLE, w.truncated, false⟩
  | some _ => ⟨path, [], false, false⟩

end Build

def build (share : Option Node) (path : WirePath) : Manifest := buildFull none none share path

def answerManifestRequest (mayBrowse : Bool) (share : Option Node) (path : WirePath) : Manifest :=
  if mayBrowse then build share path else .refusal path

theorem wirePath_ne_nil {components : List FileName} (h : components ≠ []) : wirePath components ≠ [] := by
  intro empty
  refine h ?_
  rw [← localPath_wirePath components, empty]
  rfl

/-- An entry of a device that keeps no index: an empty vector under the file's own name. -/
structure Unversioned (e : FileEntry) : Prop where
  version : e.version = .new
  named : resolve e.path = e.path ∧ e.path ≠ []

mutual
theorem walkNode_unversioned (node : Node) {components : List FileName} {w : Walk}
    (below : components ≠ []) (h : ∀ e ∈ w.out, Unversioned e) :
    ∀ e ∈ (walkNode none none components w node).out, Unversioned e := by
  cases node with
  | symlink => exact h
  | dir listing =>
    simp only [walkNode]
    split
    · exact h
    · exact walkListing_unversioned listing h
  | file file =>
    simp only [walkNode, List.mem_append, List.mem_singleton]
    rintro e (old | rfl)
    · exact h e old
    · exact ⟨rfl, resolve_wirePath components, wirePath_ne_nil below⟩
theorem walkListing_unversioned (listing : Listing) {components : List FileName} {w : Walk}
    (h : ∀ e ∈ w.out, Unversioned e) :
    ∀ e ∈ (walkListing none none components w listing).out, Unversioned e := by
  cases listing with
  | nil => exact h
  | cons name node rest =>
    simp only [walkListing]
    split
    · exact h
    · exact walkListing_unversioned rest (walkNode_unversioned node (by simp) h)
end

theorem build_unversioned (share : Option Node) (path : WirePath) :
    ∀ e ∈ (build share path).files, Unversioned e := by
  unfold build buildFull
  split
  · exact fun e mem => absurd mem List.not_mem_nil
  · intro e mem
    refine walkListing_unversioned _ ?_ e (List.mem_mergeSort.mp mem)
    exact fun e mem => absurd mem List.not_mem_nil
  · exact fun e mem => absurd mem List.not_mem_nil

def Manifest.remote (m : Manifest) : List RemoteFile :=
  m.files.map fun e => ⟨e.path, e.size, e.version, e.content, e.deleted⟩

structure Served where
  device : Device
  share : Option Node
  /-- Paths the device has fetched whose files it has left alone since. -/
  fetched : List WirePath

inductive ServedEvent where
  /-- The user leaves the device's folder like this. -/
  | editDevice (folder : Folder)
  /-- The peer's share changes. -/
  | editShare (share : Option Node)
  | rescan
  | pass (io : PassIo) (mayBrowse : Bool)

def fetchedPath : Action → Option WirePath
  | .fetch path => some path
  | _ => none

section Run
variable (sc : Scanner) (peer : String) (path : WirePath)

def Served.step (w : Served) : ServedEvent → Served
  | .editDevice folder =>
    { w with
      device := { w.device with folder }
      fetched := w.fetched.filter fun f => folder.find f = w.device.folder.find f }
  | .editShare share => { w with share }
  | .rescan => { w with device := { w.device with index := (sc.rescan w.device.index w.device.folder).1 } }
  | .pass io mayBrowse =>
    let manifest := answerManifestRequest mayBrowse w.share path
    if manifest.denied then w
    else
      let p := syncOnce sc peer manifest.remote io w.device
      { w with device := p.device, fetched := w.fetched ++ p.plan.filterMap fetchedPath }

def Served.run (w : Served) (events : List ServedEvent) : Served :=
  events.foldl (Served.step sc peer path) w

def Served.nextPlan (w : Served) (mayBrowse : Bool) : List Action :=
  reconcile (sc.rescan w.device.index w.device.folder).1.entries
    (answerManifestRequest mayBrowse w.share path).remote peer

end Run

/-- Every file of a list comes without a vector and under its own name. -/
def AllUnversioned (remote : List RemoteFile) : Prop :=
  ∀ f ∈ remote, f.version = .new ∧ resolve f.path = f.path ∧ f.path ≠ []

theorem answer_unversioned (mayBrowse : Bool) (share : Option Node) (path : WirePath) :
    AllUnversioned (answerManifestRequest mayBrowse share path).remote := by
  intro f mem
  obtain ⟨e, listed, rfl⟩ := List.mem_map.mp mem
  unfold answerManifestRequest at listed
  split at listed
  · have unversioned := build_unversioned share path e listed
    exact ⟨unversioned.version, unversioned.named⟩
  · cases listed

section Unversioned
variable {entries : Entries} {remote : List RemoteFile} {peer : String}

/-- A file without a vector is never taken where an entry exists: the entry covers it. -/
theorem settled_of_unversioned {f : RemoteFile} {mine : IndexEntry} (h : f.version = .new) :
    Settled (some mine) f := by
  refine .inl ?_
  rw [h]
  exact mine.version.covers_new

theorem decideRemote_of_unversioned {f : RemoteFile} {a : Action} (h : f.version = .new)
    (decided : decideRemote entries peer f = some a) : a = .fetch f.path ∨ a = .push f.path := by
  cases he : entries[f.path]? with
  | none =>
    simp only [decideRemote, he] at decided
    split at decided
    · cases decided
    · cases decided; exact .inl rfl
  | some mine =>
    have seen : mine.version.Covers f.version := h ▸ mine.version.covers_new
    simp only [decideRemote, he, VersionVector.relate_eq, if_pos seen] at decided
    by_cases known : f.version.Covers mine.version
    · simp [known] at decided
    · simp only [known, if_false] at decided
      split at decided
      · cases decided
      · cases decided; exact .inr rfl

theorem plan_of_unversioned (h : AllUnversioned remote) {a : Action}
    (mem : a ∈ reconcile entries remote peer) :
    (∃ f ∈ remote, a = .fetch f.path) ∨ ∃ path, a = .push path := by
  have raw : ∀ a ∈ reconcileRaw entries remote peer,
      (∃ f ∈ remote, a = .fetch f.path) ∨ ∃ path, a = .push path := by
    intro a mem
    rcases List.mem_append.mp mem with mem | mem
    · obtain ⟨f, listed, decided⟩ := List.mem_filterMap.mp mem
      obtain rfl | rfl := decideRemote_of_unversioned (h f listed).1 decided
      · exact .inl ⟨f, listed, rfl⟩
      · exact .inr ⟨_, rfl⟩
    · obtain ⟨item, -, decided⟩ := List.mem_filterMap.mp mem
      unfold decideLocal at decided
      split at decided
      · cases decided
      · cases decided; exact .inr ⟨_, rfl⟩
  obtain here | ⟨src, dst, rfl⟩ := mem_of_mem_collapseRenames mem
  · exact raw a here
  · obtain ⟨f, -, eq⟩ | ⟨path, eq⟩ := raw _ (rename_mem_reconcile mem).1
    · cases eq
    · cases eq

/-- A pass against such a list removes and moves nothing. -/
theorem folder_of_unversioned (h : AllUnversioned remote) (sc : Scanner) (io : PassIo) (s : Device) :
    (syncOnce sc peer remote io s).device.folder =
      (syncOnce sc peer remote io s).plan.foldl (receive io) s.folder := by
  apply congrArg fun d => List.foldl (receive io) d (syncOnce sc peer remote io s).plan
  apply KeyedFold.foldl_unchanged Applied.folder
  intro a mem applied
  obtain ⟨f, -, rfl⟩ | ⟨path, rfl⟩ := plan_of_unversioned h mem
  · rfl
  · rfl

end Unversioned

section Runs
variable (sc : Scanner) (peer : String) (path : WirePath)

/-- A fetched file that was left alone is on the disk. -/
def Held (w : Served) : Prop := ∀ f ∈ w.fetched, (w.device.folder.find f).isSome

theorem step_held (w : Served) (event : ServedEvent) (h : Held w) : Held (w.step sc peer path event) := by
  cases event with
  | editDevice folder =>
    intro f mem
    obtain ⟨old, same⟩ := List.mem_filter.mp mem
    have same : folder.find f = w.device.folder.find f := of_decide_eq_true same
    exact same ▸ h f old
  | editShare share => exact h
  | rescan => exact h
  | pass io mayBrowse =>
    simp only [Served.step]
    split
    · exact h
    · have unversioned := answer_unversioned mayBrowse w.share path
      intro f mem
      simp only [folder_of_unversioned unversioned]
      rcases List.mem_append.mp mem with old | new
      · have some := h f old
        obtain ⟨file, found⟩ := Option.isSome_iff_exists.mp some
        exact find_foldl_receive (Folder.named_of_find found) _ (.inr some)
      · obtain ⟨a, planned, kept⟩ := List.mem_filterMap.mp new
        obtain ⟨g, listed, rfl⟩ | ⟨_, rfl⟩ := plan_of_unversioned unversioned planned
        · cases kept
          exact find_foldl_receive (unversioned g listed).2 _ (.inl planned)
        · cases kept

/-- In every run, whatever the device's index and folder and the share were at first
and however both change, as long as no directory of the folder is a symlink: a path the
device fetched and left alone is not taken again, though the share's file has changed
since. Nor is any file without a vector taken where the device has an entry. -/
theorem fetched_never_retaken (device : Device) (share : Option Node) (events : List ServedEvent)
    (mayBrowse : Bool) :
    let w := Served.run sc peer path ⟨device, share, []⟩ events
    (∀ f ∈ w.fetched, Quiet f (w.nextPlan sc peer path mayBrowse)) ∧
    ∀ (entries : Entries) (f : RemoteFile) (mine : IndexEntry), entries[f.path]? = some mine →
      f.version = .new → decideRemote entries peer f ≠ some (.fetch f.path) ∧
        ∀ keepAs, decideRemote entries peer f ≠ some (.conflict f.path keepAs) := by
  intro w
  constructor
  · intro f mem
    have held : Held w := TransitionRun.invariant (I := Held)
      (fun f none => absurd none List.not_mem_nil) (step_held sc peer path) events
    obtain ⟨file, found⟩ := Option.isSome_iff_exists.mp (held f mem)
    refine (quiet_reconcileRaw.mpr ?_).collapse
    intro g listed same
    have unversioned := answer_unversioned mayBrowse w.share path
    rw [sc.entries_rescan, found]
    cases w.device.index.entries[f]? with
    | none => exact settled_of_unversioned (unversioned g listed).1
    | some e =>
      simp only [Scanner.rescanEntry]
      split
      · exact settled_of_unversioned (unversioned g listed).1
      · exact settled_of_unversioned (unversioned g listed).1
  · intro entries f mine held empty
    refine (settled_iff peer f).mp ?_
    rw [held]
    exact settled_of_unversioned empty

end Runs

/-! The peer edits a file the device has fetched. -/

private def letterHash : Bytes → String
  | [120] => "2d711642b726b04401627ca9fbac32f5c8530fb1903cc4db02258717921a4881"
  | _ => ""

private def shareOf (bytes : Bytes) (modified : Int) : Option Node :=
  some (.dir (.cons ⟨['f'], by decide⟩ (.file ⟨bytes, modified⟩) .nil))

private def letterIo : PassIo where
  mayRename _ _ := true
  mayRemove _ := true
  received _ _ := ⟨[120], 1700000010⟩

private def editAfterFetch : List ServedEvent :=
  [.pass letterIo true, .editShare (shareOf [120, 121] 1700000060)]

/-- After the peer's edit the device plans to push its old copy. -/
theorem remote_edit_pushed_over :
    let sc : Scanner := ⟨letterHash, "pb-a"⟩
    let w := Served.run sc "pb-b" [] ⟨⟨⟨∅, ∅⟩, .empty⟩, shareOf [120] 1700000000, []⟩ editAfterFetch
    w.fetched = [['f']] ∧ w.nextPlan sc "pb-b" [] true = [.push ['f']] ∧
      ¬ (.fetch ['f'] ∈ w.nextPlan sc "pb-b" [] true ∨
        ∃ keepAs, .conflict ['f'] keepAs ∈ w.nextPlan sc "pb-b" [] true) := by
  intro sc w
  have fetched : w.fetched = [['f']] := by decide +kernel
  have plan : w.nextPlan sc "pb-b" [] true = [.push ['f']] := by decide +kernel
  refine ⟨fetched, plan, ?_⟩
  rw [plan]
  simp

end PeerBeam.Sync
