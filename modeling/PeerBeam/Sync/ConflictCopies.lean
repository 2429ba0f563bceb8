import PeerBeam.Lib.Run
import PeerBeam.Sync.CollapsedRuns
import PeerBeam.Sync.ConflictNames
import PeerBeam.Sync.LocalWork

/-! Where the copies of conflicting files go, and what lay there before. A copy's name is made from
one path, without a look at any other. -/
namespace PeerBeam.Sync

def Action.keepAs : Action → Option WirePath
  | .conflict _ keepAs => some keepAs
  | _ => none

def Diverges (entries : Entries) (f : RemoteFile) : Prop :=
  ∃ mine, entries[f.path]? = some mine ∧ mine.version.Concurrent f.version

section Index
variable (entries : Entries) (remote : List RemoteFile) (peer : String)

/-- In the plan no copy has the name of anything else, and every copy lies beside its file, named by
the rule for a file name. -/
structure CopiesApart : Prop where
  live : ∀ path keepAs, .conflict path keepAs ∈ reconcile entries remote peer →
    ∀ e, entries[keepAs]? = some e → e.deleted = true
  listed : ∀ path keepAs, .conflict path keepAs ∈ reconcile entries remote peer →
    ∀ f ∈ remote, f.path ≠ keepAs
  apart : ∀ path keepAs, .conflict path keepAs ∈ reconcile entries remote peer →
    ∀ a ∈ reconcile entries remote peer, keepAs ∉ a.paths
  once : ((reconcile entries remote peer).filterMap Action.keepAs).Nodup
  beside : ∀ path keepAs, .conflict path keepAs ∈ reconcile entries remote peer →
    ∀ dir name, IsDirectory dir → '/' ∉ name → path = dir ++ name →
      keepAs = dir ++ conflictName name peer ∧ '/' ∉ conflictName name peer

structure NamesFree : Prop where
  /-- No diverging file is listed twice. -/
  single : remote.Pairwise fun f g => Diverges entries f → Diverges entries g → f.path ≠ g.path
  flat : ∀ f ∈ remote, Diverges entries f → '/' ∉ peer.toList
  /-- A hidden file below the root would be marked before its name. -/
  visible : ∀ f ∈ remote, Diverges entries f → ∀ dir stem ext, Cut f.path dir stem ext →
    Hidden dir stem ext → conflictMark peer ++ stem = stem ++ conflictMark peer
  /-- The name is new to both sides. -/
  free : ∀ f ∈ remote, Diverges entries f → ∀ dir stem ext, Cut f.path dir stem ext →
    (∀ e, entries[copyName dir stem ext peer]? = some e → e.deleted = true) ∧
      ∀ g ∈ remote, g.path ≠ copyName dir stem ext peer

end Index

section Folder
variable (sc : Scanner) (peer : String) (remote : List RemoteFile) (s : Device)

/-- Whatever the peer sends, nothing is lost where a copy is built or written. -/
def CopiesKeep : Prop :=
  ∀ io path keepAs, .conflict path keepAs ∈ planned sc peer remote s →
    ∀ place file, resolve keepAs = place ∨ stagingPath keepAs = place → s.folder.find place = some file →
      (folderAfter sc peer remote s io).find place = some file

def Vacant : Prop :=
  ∀ f ∈ remote, Diverges (sc.rescan s.index s.folder).1.entries f → ∀ dir stem ext, Cut f.path dir stem ext →
    ∀ place, resolve (copyName dir stem ext peer) = place ∨ stagingPath (copyName dir stem ext peer) = place →
      s.folder.find place = none

end Folder

section Plan
variable {entries : Entries} {remote : List RemoteFile} {peer : String} {path keepAs : WirePath}

theorem keepAs_eq_some {a : Action} (kept : a.keepAs = some keepAs) : ∃ path, a = .conflict path keepAs := by
  cases a with
  | conflict path k => exact ⟨path, congrArg _ (Option.some.inj kept)⟩
  | _ => cases kept

theorem keepAs_decideRemote {f : RemoteFile} :
    (decideRemote entries peer f).bind Action.keepAs = some keepAs ↔
      Diverges entries f ∧ keepAs = conflictName f.path peer := by
  constructor
  · intro kept
    obtain ⟨a, decided, kept⟩ := Option.bind_eq_some_iff.mp kept
    obtain ⟨path, rfl⟩ := keepAs_eq_some kept
    obtain rfl : path = f.path := (by simpa using decideRemote_path decided : path = f.path ∧ _).1
    obtain ⟨mine, held, concurrent, named⟩ := decide_conflict_iff.mp decided
    exact ⟨⟨mine, held, concurrent⟩, named⟩
  · rintro ⟨⟨mine, held, concurrent⟩, rfl⟩
    exact Option.bind_eq_some_iff.mpr ⟨_, decide_conflict_iff.mpr ⟨mine, held, concurrent, rfl⟩, rfl⟩

/-- The copies of a plan are those of the list, in its order. -/
theorem filterMap_keepAs : (reconcile entries remote peer).filterMap Action.keepAs =
    remote.filterMap fun f => (decideRemote entries peer f).bind Action.keepAs := by
  have collapsed (actions : List Action) :
      (collapseRenames entries remote actions).filterMap Action.keepAs = actions.filterMap Action.keepAs := by
    simp only [collapseRenames]
    split
    · rfl
    · rw [List.filterMap_filterMap]
      apply List.filterMap_congr
      intro a _
      cases a with
      | delete path =>
        simp only [collapseAction]
        split <;> rfl
      | fetch path =>
        simp only [collapseAction]
        split <;> rfl
      | _ => rfl
  have unlisted : (entries.toList.filterMap (decideLocal remote)).filterMap Action.keepAs = [] := by
    rw [List.filterMap_filterMap]
    apply List.filterMap_eq_nil_iff.mpr
    intro item _
    simp only [decideLocal]
    split <;> rfl
  rw [reconcile, collapsed, reconcileRaw, List.filterMap_append, unlisted, List.append_nil,
    List.filterMap_filterMap]

theorem conflict_mem_iff : .conflict path keepAs ∈ reconcile entries remote peer ↔
    ∃ f ∈ remote, f.path = path ∧ Diverges entries f ∧ keepAs = conflictName f.path peer := by
  have raw : .conflict path keepAs ∈ reconcile entries remote peer ↔
      .conflict path keepAs ∈ reconcileRaw entries remote peer := by
    constructor
    · intro mem
      obtain here | ⟨_, _, eq⟩ := mem_of_mem_collapseRenames mem
      · exact here
      · cases eq
    · intro mem
      simp only [reconcile, collapseRenames]
      split
      · exact mem
      · exact List.mem_filterMap.mpr ⟨_, mem, rfl⟩
  rw [raw, conflict_mem_reconcileRaw]
  simp only [decide_conflict_iff, Diverges]
  constructor
  · rintro ⟨f, listed, named, mine, held, concurrent, kept⟩
    exact ⟨f, listed, named, ⟨mine, held, concurrent⟩, kept⟩
  · rintro ⟨f, listed, named, ⟨mine, held, concurrent⟩, kept⟩
    exact ⟨f, listed, named, mine, held, concurrent, kept⟩

/-- Every path of a plan is listed, or is a live one of ours. -/
theorem known_of_paths {a : Action} (mem : a ∈ reconcile entries remote peer) (named : path ∈ a.paths) :
    (∃ f ∈ remote, f.path = path) ∨ ∃ e, entries[path]? = some e ∧ e.deleted = false := by
  have ofRaw {b : Action} (mem : b ∈ reconcileRaw entries remote peer) (named : path ∈ b.paths) :
      (∃ f ∈ remote, f.path = path) ∨ ∃ e, entries[path]? = some e ∧ e.deleted = false := by
    rcases List.mem_append.mp mem with mem | mem
    · obtain ⟨f, listed, decided⟩ := List.mem_filterMap.mp mem
      refine .inl ⟨f, listed, ?_⟩
      rcases decideRemote_path decided with rfl | rfl | rfl | rfl <;>
        exact (List.mem_singleton.mp named).symm
    · obtain ⟨⟨p, e⟩, held, pushed⟩ := List.mem_filterMap.mp mem
      simp only [decideLocal] at pushed
      split at pushed
      · cases pushed
      · next unlisted =>
        obtain rfl := Option.some.inj pushed
        obtain rfl : path = p := List.mem_singleton.mp named
        refine .inr ⟨e, Std.ExtTreeMap.mem_toList_iff_getElem?_eq_some.mp held, ?_⟩
        cases dead : e.deleted with
        | false => rfl
        | true => exact absurd (by simp [dead]) unlisted
  obtain here | ⟨src, dst, rfl⟩ := mem_of_mem_collapseRenames mem
  · exact ofRaw here named
  · obtain ⟨deleted, fetched, -⟩ := rename_mem_reconcile mem
    rcases List.mem_cons.mp named with rfl | named
    · exact ofRaw deleted (List.mem_singleton_self _)
    · exact ofRaw fetched named

theorem nodup_copies_iff (flat : ∀ f ∈ remote, Diverges entries f → '/' ∉ peer.toList) :
    ((reconcile entries remote peer).filterMap Action.keepAs).Nodup ↔
      remote.Pairwise fun f g => Diverges entries f → Diverges entries g → f.path ≠ g.path := by
  rw [filterMap_keepAs, List.Nodup, List.pairwise_filterMap]
  constructor
  · intro apart
    refine apart.imp fun {f g} differ df dg same => ?_
    exact differ _ (keepAs_decideRemote.mpr ⟨df, rfl⟩) _ (keepAs_decideRemote.mpr ⟨dg, rfl⟩)
      (congrArg (conflictName · peer) same)
  · intro single
    refine single.imp_of_mem fun {f g} listed _ differ k kept k' kept' same => ?_
    obtain ⟨df, rfl⟩ := keepAs_decideRemote.mp kept
    obtain ⟨dg, rfl⟩ := keepAs_decideRemote.mp kept'
    exact differ df dg (conflictName_injective (flat f listed df) same)

/-- In a plan whose copies are named well. -/
theorem CopiesApart.cut (apart : CopiesApart entries remote peer) {f : RemoteFile} (listed : f ∈ remote)
    (diverges : Diverges entries f) {dir stem ext : WirePath} (cut : Cut f.path dir stem ext) :
    '/' ∉ peer.toList ∧ (Hidden dir stem ext → conflictMark peer ++ stem = stem ++ conflictMark peer) := by
  have planned : .conflict f.path (conflictName f.path peer) ∈ reconcile entries remote peer :=
    conflict_mem_iff.mpr ⟨f, listed, rfl, diverges, rfl⟩
  exact cut.beside_iff.mp (apart.beside _ _ planned dir (stem ++ ext) cut.directory cut.flat cut.whole)

theorem copiesApart_iff : CopiesApart entries remote peer ↔ NamesFree entries remote peer := by
  constructor
  · intro apart
    have flat : ∀ f ∈ remote, Diverges entries f → '/' ∉ peer.toList := by
      intro f listed diverges
      obtain ⟨dir, name, whole, directory, unslashed⟩ := exists_directory f.path
      obtain ⟨stem, ext, -, cut⟩ := exists_cut directory unslashed
      exact (apart.cut listed diverges (whole ▸ cut)).1
    refine ⟨(nodup_copies_iff flat).mp apart.once, flat, ?_, ?_⟩
    · intro f listed diverges dir stem ext cut
      exact (apart.cut listed diverges cut).2
    · intro f listed diverges dir stem ext cut
      have planned : .conflict f.path (copyName dir stem ext peer) ∈ reconcile entries remote peer := by
        rw [← cut.conflictName_eq_copyName (apart.cut listed diverges cut).2]
        exact conflict_mem_iff.mpr ⟨f, listed, rfl, diverges, rfl⟩
      exact ⟨apart.live _ _ planned, apart.listed _ _ planned⟩
  · intro names
    have fresh {path keepAs : WirePath} (mem : .conflict path keepAs ∈ reconcile entries remote peer) :
        (∀ e, entries[keepAs]? = some e → e.deleted = true) ∧ ∀ g ∈ remote, g.path ≠ keepAs := by
      obtain ⟨f, listed, -, diverges, rfl⟩ := conflict_mem_iff.mp mem
      obtain ⟨dir, name, whole, directory, unslashed⟩ := exists_directory f.path
      obtain ⟨stem, ext, -, cut⟩ := exists_cut directory unslashed
      rw [← whole] at cut
      rw [cut.conflictName_eq_copyName (names.visible f listed diverges dir stem ext cut)]
      exact names.free f listed diverges dir stem ext cut
    refine ⟨fun _ _ mem => (fresh mem).1, fun _ _ mem => (fresh mem).2, ?_, ?_, ?_⟩
    · intro path keepAs mem a planned named
      rcases known_of_paths planned named with ⟨f, listed, same⟩ | ⟨e, held, live⟩
      · exact (fresh mem).2 f listed same
      · have dead := (fresh mem).1 e held
        rw [live] at dead
        cases dead
    · exact (nodup_copies_iff names.flat).mpr names.single
    · intro path keepAs mem dir name directory unslashed whole
      obtain ⟨f, listed, rfl, diverges, rfl⟩ := conflict_mem_iff.mp mem
      obtain ⟨stem, ext, rfl, cut⟩ := exists_cut directory unslashed
      rw [← whole] at cut
      exact cut.beside_iff.mpr ⟨names.flat f listed diverges, names.visible f listed diverges dir stem ext cut⟩

end Plan

section Pass
variable {sc : Scanner} {peer : String} {remote : List RemoteFile} {s : Device}

/-- A file that some conflict is built at or written to is lost to a peer who sends other bytes. -/
theorem unoccupied_of_keep (keep : CopiesKeep sc peer remote s) {path keepAs place : WirePath}
    (mem : .conflict path keepAs ∈ planned sc peer remote s)
    (hits : resolve keepAs = place ∨ stagingPath keepAs = place) : s.folder.find place = none := by
  cases found : s.folder.find place with
  | none => rfl
  | some file =>
    let other : Bytes := file.bytes ++ [0]
    have spoiled : ((folderAfter sc peer remote s (spoiling other)).find place).map File.bytes ∈
        [none, some other] :=
      foldl_spoiling other _ _ (.inl ⟨_, mem, hits⟩)
    rw [keep (spoiling other) path keepAs mem place file hits found] at spoiled
    simp [other] at spoiled

theorem copiesKeep_iff (names : NamesFree (sc.rescan s.index s.folder).1.entries remote peer) :
    CopiesKeep sc peer remote s ↔ Vacant sc peer remote s := by
  have named {f : RemoteFile} (listed : f ∈ remote)
      (diverges : Diverges (sc.rescan s.index s.folder).1.entries f) {dir stem ext : WirePath}
      (cut : Cut f.path dir stem ext) : conflictName f.path peer = copyName dir stem ext peer :=
    cut.conflictName_eq_copyName (names.visible f listed diverges dir stem ext cut)
  constructor
  · intro keep f listed diverges dir stem ext cut place hits
    have mem : .conflict f.path (copyName dir stem ext peer) ∈ planned sc peer remote s := by
      rw [← named listed diverges cut]
      exact conflict_mem_iff.mpr ⟨f, listed, rfl, diverges, rfl⟩
    exact unoccupied_of_keep keep mem hits
  · intro vacant io path keepAs mem place file hits found
    obtain ⟨f, listed, -, diverges, rfl⟩ := conflict_mem_iff.mp mem
    obtain ⟨dir, name, whole, directory, unslashed⟩ := exists_directory f.path
    obtain ⟨stem, ext, -, cut⟩ := exists_cut directory unslashed
    rw [← whole] at cut
    rw [named listed diverges cut] at hits
    rw [vacant f listed diverges dir stem ext cut place hits] at found
    cases found

end Pass

/-- What happens to a device: a pass against some peer's list, or its user's work in the folder. -/
inductive Event where
  | pass (peer : String) (remote : List RemoteFile) (io : FetchIo)
  | work (folder : Folder)

def happen (sc : Scanner) (s : Device) : Event → Device
  | .pass peer remote io =>
    ⟨(syncOnce sc peer remote io.toPassIo s).device.index, folderAfter sc peer remote s io⟩
  | .work folder => { s with folder }

/-- A pass that gives no copy the name of anything else, or builds it over a file. -/
def FreePass (sc : Scanner) (s : Device) : Event → Prop
  | .pass peer remote _ =>
    NamesFree (sc.rescan s.index s.folder).1.entries remote peer ∧ Vacant sc peer remote s
  | .work _ => True

/-- Nothing but conflicts, if these, is about the file at a place. -/
def Leaves (sc : Scanner) (place : WirePath) (s : Device) : Event → Prop
  | .pass peer remote _ => ∀ a ∈ planned sc peer remote s, a.keepAs = none → a.Spares place
  | .work folder => folder.find place = s.folder.find place

theorem find_happen {sc : Scanner} {s : Device} {e : Event} {place : WirePath} {file : File}
    (here : s.folder.find place = some file) (free : FreePass sc s e) (leaves : Leaves sc place s e) :
    (happen sc s e).folder.find place = some file := by
  cases e with
  | work folder => exact leaves.trans here
  | pass peer remote io =>
    by_cases hit : ∃ path keepAs, .conflict path keepAs ∈ planned sc peer remote s ∧
        (resolve keepAs = place ∨ stagingPath keepAs = place)
    · obtain ⟨path, keepAs, mem, hits⟩ := hit
      exact (copiesKeep_iff free.1).mpr free.2 io path keepAs mem place file hits here
    · refine Eq.trans (find_folderAfter fun a mem => ?_) here
      cases kept : a.keepAs with
      | none => exact leaves a mem kept
      | some keepAs =>
        obtain ⟨path, rfl⟩ := keepAs_eq_some kept
        exact not_or.mp fun hits => hit ⟨path, keepAs, mem, hits⟩

/-- A plan's copies stand apart from everything and beside their files exactly where the marked names
are free, and its execution overwrites nothing there exactly where no file is at them. Through any
run of such passes a file, as an earlier copy, stays until something other than a conflict is about it. -/
theorem conflict_copies_kept_iff (sc : Scanner) (peer : String) (remote : List RemoteFile) (s : Device) :
    (∀ entries : Entries, CopiesApart entries remote peer ↔ NamesFree entries remote peer) ∧
    (CopiesApart (sc.rescan s.index s.folder).1.entries remote peer ∧ CopiesKeep sc peer remote s ↔
      NamesFree (sc.rescan s.index s.folder).1.entries remote peer ∧ Vacant sc peer remote s) ∧
    (∀ (events : List Event) (place : WirePath) (file : File), s.folder.find place = some file →
      TransitionRun.Along (happen sc) (fun s e => FreePass sc s e ∧ Leaves sc place s e) s events →
        (events.foldl (happen sc) s).folder.find place = some file) := by
  refine ⟨fun _ => copiesApart_iff, ?_, ?_⟩
  · rw [copiesApart_iff]
    exact and_congr_right copiesKeep_iff
  · intro events place file here along
    exact along.invariant (I := fun s => s.folder.find place = some file) here
      fun s e here ok => find_happen here ok.1 ok.2

/-- A file of ours, and the copy of a peer's version that an earlier pass put beside it. -/
private def withCopy : Device :=
  ⟨⟨∅, ∅⟩, (Folder.empty.write ['n'] ⟨[1], 10⟩).write (conflictName ['n'] "b") ⟨[2], 20⟩⟩

private def listedAgain : List RemoteFile := [⟨['n'], 1, (VersionVector.new.bump "b").bump "b", "", false⟩]

/-- The peer edits the file once more: its copy goes over the earlier one, which is then nowhere. -/
theorem second_conflict_overwrites_first :
    withCopy.folder.find (conflictName ['n'] "b") = some ⟨[2], 20⟩ ∧
      ((Scanner.rescan ⟨digest, "a"⟩ withCopy.index withCopy.folder).1.entries[conflictName ['n'] "b"]?.map
        IndexEntry.deleted) = some false ∧
      .conflict ['n'] (conflictName ['n'] "b") ∈ planned ⟨digest, "a"⟩ "b" listedAgain withCopy ∧
      (folderAfter ⟨digest, "a"⟩ "b" listedAgain withCopy (spoiling [3])).find (conflictName ['n'] "b") =
        some ⟨[3], 0⟩ ∧
      ¬ CopiesKeep ⟨digest, "a"⟩ "b" listedAgain withCopy := by
  have first : withCopy.folder.find (conflictName ['n'] "b") = some ⟨[2], 20⟩ := by decide +kernel
  have live : ((Scanner.rescan ⟨digest, "a"⟩ withCopy.index withCopy.folder).1.entries[conflictName ['n']
      "b"]?.map IndexEntry.deleted) = some false := by decide +kernel
  have again : .conflict ['n'] (conflictName ['n'] "b") ∈ planned ⟨digest, "a"⟩ "b" listedAgain withCopy := by
    decide +kernel
  have lost : (folderAfter ⟨digest, "a"⟩ "b" listedAgain withCopy (spoiling [3])).find
      (conflictName ['n'] "b") = some ⟨[3], 0⟩ := by
    decide +kernel
  have leads : resolve (conflictName ['n'] "b") = conflictName ['n'] "b" := by decide +kernel
  refine ⟨first, live, again, lost, fun keep => ?_⟩
  have kept := keep (spoiling [3]) _ _ again _ _ (.inl leads) first
  rw [lost] at kept
  cases kept

end PeerBeam.Sync
