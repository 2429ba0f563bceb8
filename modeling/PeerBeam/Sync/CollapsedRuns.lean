import PeerBeam.Sync.LocalWork

/-! Carrying out a collapsed plan beside the plan it came from. Where no two actions lead to one
place the outcome is settled pair by pair. -/
namespace PeerBeam.Sync
open Std (ExtTreeMap)

/-- The staging file's place; that of the root is not in the folder. -/
def stagingPlaces (path : WirePath) : List WirePath := if resolve path = [] then [] else [stagingPath path]

def writtenPlaces (path : WirePath) : List WirePath := resolve path :: stagingPlaces path

def Action.places : Action → List WirePath
  | .fetch path => writtenPlaces path
  | .delete path => [resolve path]
  | .conflict _ keepAs => writtenPlaces keepAs
  | .rename «from» «to» => resolve «from» :: writtenPlaces «to»
  | .push _ => []

/-- What `apply_local` does to the files, action by action. -/
def applyFile (io : PassIo) (d : Folder) : Action → Folder
  | .rename «from» «to» => (if io.mayRename «from» «to» then d.rename «from» «to» else none).getD d
  | .delete path =>
    if resolve path = [] ∨ (d.find (resolve path)).isSome ∧ io.mayRemove path = false then d
    else d.remove path
  | _ => d

/-- A plan carried out: the local half, then the transfers. -/
def execute (io : FetchIo) (known : Entries) (versions : ExtTreeMap WirePath VersionVector compare)
    (d : Folder) (actions : List Action) : Folder :=
  actions.foldl (fetchAction io) (applyLocal io.toPassIo known versions d actions).folder

def SameFiles (d d' : Folder) : Prop :=
  ∀ path, (d.find path).map File.bytes = (d'.find path).map File.bytes

section
variable {io : PassIo} {known : Entries} {versions : ExtTreeMap WirePath VersionVector compare}
  {d d' : Folder}

theorem find_root (d : Folder) : d.find [] = none := by
  cases found : d.find [] with
  | none => rfl
  | some file => exact absurd rfl (Folder.named_of_find found).2

theorem folder_applyAction (s : Applied) (a : Action) :
    (applyAction io known versions s a).folder = applyFile io s.folder a := by
  cases a with
  | rename src dst =>
    simp only [applyAction, applyRename, applyFile]
    cases if io.mayRename src dst = true then s.folder.rename src dst else none <;> rfl
  | delete path =>
    simp only [applyAction, applyDelete, applyFile]
    split <;> rfl
  | _ => rfl

theorem folder_applyLocal (actions : List Action) :
    (applyLocal io known versions d actions).folder = actions.foldl (applyFile io) d :=
  (List.foldl_hom Applied.folder fun s a => (folder_applyAction s a).symm).symm

/-- The system lets this file be moved, and there is one. -/
def Movable (io : PassIo) (d : Folder) (src dst : WirePath) : Prop :=
  io.mayRename src dst = true ∧ resolve dst ≠ [] ∧ (d.find (resolve src)).isSome

instance (io : PassIo) (d : Folder) (src dst : WirePath) : Decidable (Movable io d src dst) :=
  inferInstanceAs (Decidable (_ ∧ _ ∧ _))

theorem find_applyFile_rename (src dst path : WirePath) :
    (applyFile io d (.rename src dst)).find path =
      if Movable io d src dst then
        if resolve dst = path then d.find (resolve src)
        else if resolve src = path then none else d.find path
      else d.find path := by
  by_cases lets : io.mayRename src dst = true
  · by_cases root : resolve dst = []
    · have stays : ¬ Movable io d src dst := fun movable => movable.2.1 root
      rw [if_neg stays, applyFile, if_pos lets, Folder.rename, if_pos root]
      rfl
    · cases found : d.find (resolve src) with
      | none =>
        have stays : ¬ Movable io d src dst := fun movable => by
          have held := movable.2.2
          rw [found] at held
          cases held
        rw [if_neg stays, applyFile, if_pos lets, Folder.rename, if_neg root, found]
        rfl
      | some file =>
        have movable : Movable io d src dst := ⟨lets, root, by rw [found]; rfl⟩
        rw [if_pos movable, applyFile, if_pos lets, Folder.rename, if_neg root, found]
        change ((d.remove src).write dst file).find path = _
        rw [Folder.find_write, Folder.find_remove]
        refine if_congr ⟨And.left, fun same => ⟨same, same ▸ root⟩⟩ rfl rfl
  · have stays : ¬ Movable io d src dst := fun movable => lets movable.1
    rw [if_neg stays, applyFile, if_neg lets]
    rfl

theorem find_applyFile_delete (target path : WirePath) :
    (applyFile io d (.delete target)).find path =
      if resolve target = path ∧ io.mayRemove target = true then none else d.find path := by
  rw [applyFile]
  by_cases kept : resolve target = [] ∨ (d.find (resolve target)).isSome ∧ io.mayRemove target = false
  · rw [if_pos kept]
    split
    · next gone =>
      rcases kept with root | ⟨-, refused⟩
      · rw [← gone.1, root, find_root]
      · rw [refused] at gone
        cases gone.2
    · rfl
  · rw [if_neg kept, Folder.find_remove]
    by_cases here : resolve target = path
    · rw [if_pos here]
      split
      · rfl
      · next refused =>
        have absent : ¬ (d.find (resolve target)).isSome := fun held =>
          kept (.inr ⟨held, Bool.eq_false_of_not_eq_true fun lets => refused ⟨here, lets⟩⟩)
        rw [← here, Option.not_isSome_iff_eq_none.mp absent]
    · rw [if_neg here, if_neg fun gone => here gone.1]

/-- Applying reads and writes nothing but the places of its action. -/
theorem applyFile_framed : KeyedFold.Framed (applyFile io) Action.places Folder.find where
  outside := by
    intro d a path outside
    cases a with
    | rename src dst =>
      simp only [Action.places, writtenPlaces, List.mem_cons, not_or] at outside
      rw [find_applyFile_rename]
      split
      · rw [if_neg (Ne.symm outside.2.1), if_neg (Ne.symm outside.1)]
      · rfl
    | delete target =>
      rw [find_applyFile_delete, if_neg fun gone => outside (List.mem_singleton.mpr gone.1.symm)]
    | _ => rfl
  inside := by
    intro d d' a same path own
    cases a with
    | rename src dst =>
      have source : d.find (resolve src) = d'.find (resolve src) := same _ List.mem_cons_self
      have movable : Movable io d src dst ↔ Movable io d' src dst := by
        rw [Movable, Movable, source]
      rw [find_applyFile_rename, find_applyFile_rename, source, same path own]
      exact if_congr movable rfl rfl
    | delete target => rw [find_applyFile_delete, find_applyFile_delete, same path own]
    | _ => exact same path own

end

section
variable {io : FetchIo} {known : Entries} {versions : ExtTreeMap WirePath VersionVector compare}
  {d d' : Folder}

theorem find_unstaged (path place : WirePath) :
    (d.remove (stagingPath path)).find place = if place ∈ stagingPlaces path then none else d.find place := by
  rw [Folder.find_remove, resolve_stagingPath, stagingPlaces]
  by_cases root : resolve path = []
  · have outside : stagingPath path = [] := by
      have named := localPath_wirePath (localPath path)
      rw [← resolve, root] at named
      rw [stagingPath, ← named]
      rfl
    rw [outside, if_pos root, if_neg List.not_mem_nil]
    split
    · next here => rw [← here, find_root]
    · rfl
  · rw [if_neg root]
    exact if_congr (List.mem_singleton.trans eq_comm).symm rfl rfl

/-- What a fetch leaves at a place. -/
theorem find_fetchInto (path writeTo place : WirePath) : (fetchInto io d path writeTo).find place =
    match io.delivery path writeTo with
    | .refused => d.find place
    | .failed => if place ∈ stagingPlaces writeTo then none else d.find place
    | .landed file =>
      if resolve writeTo = place ∧ place ≠ [] then some file
      else if place ∈ stagingPlaces writeTo then none else d.find place := by
  rw [fetchInto]
  cases io.delivery path writeTo with
  | refused => rfl
  | failed => exact find_unstaged writeTo place
  | landed file =>
    dsimp only
    rw [Folder.find_write, find_unstaged]

theorem fetchAction_framed : KeyedFold.Framed (fetchAction io) Action.places Folder.find where
  outside := by
    have into (d : Folder) (path writeTo place : WirePath) (outside : place ∉ writtenPlaces writeTo) :
        (fetchInto io d path writeTo).find place = d.find place := by
      rw [writtenPlaces, List.mem_cons, not_or] at outside
      rw [find_fetchInto]
      cases io.delivery path writeTo with
      | refused => rfl
      | failed => exact if_neg outside.2
      | landed file =>
        dsimp only
        rw [if_neg fun here : resolve writeTo = place ∧ place ≠ [] => outside.1 here.1.symm, if_neg outside.2]
    intro d a place outside
    cases a with
    | fetch path => exact into d path path place outside
    | conflict path keepAs => exact into d path keepAs place outside
    | _ => rfl
  inside := by
    intro d d' a same place own
    cases a with
    | fetch path | conflict path keepAs => rw [fetchAction, fetchAction, find_fetchInto, find_fetchInto, same place own]
    | _ => exact same place own

theorem find_execute_untouched {actions : List Action} {path : WirePath}
    (absent : ∀ a ∈ actions, path ∉ a.places) :
    (execute io known versions d actions).find path = d.find path := by
  rw [execute, fetchAction_framed.untouched _ absent, folder_applyLocal, applyFile_framed.untouched _ absent]

/-- An action leaves its places as it would alone. -/
theorem find_execute {actions : List Action} (distinct : (actions.flatMap Action.places).Nodup)
    {a : Action} (mem : a ∈ actions) {path : WirePath} (own : path ∈ a.places) :
    (execute io known versions d actions).find path =
      (fetchAction io (applyFile io.toPassIo d a) a).find path := by
  rw [execute, fetchAction_framed.alone _ distinct mem own, folder_applyLocal]
  exact fetchAction_framed.inside _ _ a (fun place own => applyFile_framed.alone d distinct mem own) path own

/-- A fetch would leave these bytes at the path, and take nobody's file from under the staging name. -/
def FetchLeaves (io : FetchIo) (d : Folder) (path : WirePath) (bytes : Option Bytes) : Prop :=
  match io.delivery path path with
  | .refused => bytes = (d.find (resolve path)).map File.bytes
  | .failed => bytes = (d.find (resolve path)).map File.bytes ∧ ∀ place ∈ stagingPlaces path, d.find place = none
  | .landed file =>
    (resolve path ≠ [] → bytes = some file.bytes) ∧ ∀ place ∈ stagingPlaces path, d.find place = none

/-- Moving a file has the outcome that deleting and fetching it has. -/
def Fits (io : FetchIo) (d : Folder) (r : Rename) : Prop :=
  if Movable io.toPassIo d r.from r.to then
    io.mayRemove r.from = true ∧ FetchLeaves io d r.to ((d.find (resolve r.from)).map File.bytes)
  else
    (io.mayRemove r.from = true → d.find (resolve r.from) = none) ∧
      FetchLeaves io d r.to ((d.find (resolve r.to)).map File.bytes)

theorem fetchLeaves_iff {path : WirePath} {bytes : Option Bytes} (apart : resolve path ∉ stagingPlaces path)
    (root : resolve path = [] → bytes = none) : FetchLeaves io d path bytes ↔
      bytes = ((fetchAction io d (.fetch path)).find (resolve path)).map File.bytes ∧
        ∀ place ∈ stagingPlaces path, (d.find place).map File.bytes =
          ((fetchAction io d (.fetch path)).find place).map File.bytes := by
  have emptied (none_ : ∀ place ∈ stagingPlaces path, (fetchAction io d (.fetch path)).find place = none) :
      (∀ place ∈ stagingPlaces path, d.find place = none) ↔ ∀ place ∈ stagingPlaces path,
        (d.find place).map File.bytes = ((fetchAction io d (.fetch path)).find place).map File.bytes := by
    refine forall₂_congr fun place mem => ?_
    rw [none_ place mem, Option.map_none, Option.map_eq_none_iff]
  rw [FetchLeaves]
  cases delivered : io.delivery path path with
  | refused =>
    have same (place : WirePath) : (fetchAction io d (.fetch path)).find place = d.find place := by
      rw [fetchAction, find_fetchInto, delivered]
    simp only [same, implies_true, and_true]
  | failed =>
    have left (place : WirePath) : (fetchAction io d (.fetch path)).find place =
        if place ∈ stagingPlaces path then none else d.find place := by
      rw [fetchAction, find_fetchInto, delivered]
    rw [left, if_neg apart]
    refine and_congr Iff.rfl (emptied fun place mem => ?_)
    rw [left, if_pos mem]
  | landed file =>
    have left (place : WirePath) : (fetchAction io d (.fetch path)).find place =
        if resolve path = place ∧ place ≠ [] then some file
        else if place ∈ stagingPlaces path then none else d.find place := by
      rw [fetchAction, find_fetchInto, delivered]
    refine and_congr ?_ (emptied fun place mem => ?_)
    · rw [left, if_neg apart]
      by_cases stands : resolve path = []
      · rw [if_neg fun here => here.2 stands, stands, find_root]
        exact ⟨fun _ => root stands, fun _ named => absurd rfl named⟩
      · rw [if_pos ⟨rfl, stands⟩]
        exact ⟨fun same => same stands, fun same _ => same⟩
    · have elsewhere : resolve path ≠ place := fun here => apart (here ▸ mem)
      rw [left, if_neg fun here => elsewhere here.1, if_pos mem]

/-- At the places of a pair. -/
theorem fits_iff {r : Rename} (apart : resolve r.from ∉ writtenPlaces r.to)
    (own : resolve r.to ∉ stagingPlaces r.to) : Fits io d r ↔
      ((applyFile io.toPassIo d r.action).find (resolve r.from)).map File.bytes =
          ((applyFile io.toPassIo d (.delete r.from)).find (resolve r.from)).map File.bytes ∧
        ∀ place ∈ writtenPlaces r.to, ((applyFile io.toPassIo d r.action).find place).map File.bytes =
          ((fetchAction io d (.fetch r.to)).find place).map File.bytes := by
  rw [writtenPlaces, List.mem_cons, not_or] at apart
  -- moving a file leaves alone what lies at the staging name
  have staging : (∀ place ∈ stagingPlaces r.to,
        ((applyFile io.toPassIo d (.rename r.from r.to)).find place).map File.bytes =
          ((fetchAction io d (.fetch r.to)).find place).map File.bytes) ↔
      ∀ place ∈ stagingPlaces r.to, (d.find place).map File.bytes =
        ((fetchAction io d (.fetch r.to)).find place).map File.bytes := by
    refine forall₂_congr fun place mem => ?_
    have elsewhere : resolve r.to ≠ place := fun here => own (here ▸ mem)
    have kept : resolve r.from ≠ place := fun here => apart.2 (here ▸ mem)
    rw [find_applyFile_rename, if_neg elsewhere, if_neg kept, ite_self]
  rw [Rename.action, find_applyFile_delete, Fits, writtenPlaces, List.forall_mem_cons, staging,
    find_applyFile_rename, find_applyFile_rename]
  by_cases movable : Movable io.toPassIo d r.from r.to
  · have held := movable.2.2
    rw [if_pos movable, if_pos movable, if_pos movable, if_neg (Ne.symm apart.1), if_pos rfl, if_pos rfl]
    refine and_congr ?_ (fetchLeaves_iff own fun root => absurd root movable.2.1)
    cases lets : io.mayRemove r.from with
    | true => simp
    | false =>
      rw [if_neg (by simp)]
      constructor
      · intro impossible
        cases impossible
      · intro gone
        rw [Option.map_none, eq_comm, Option.map_eq_none_iff] at gone
        rw [gone] at held
        cases held
  · rw [if_neg movable, if_neg movable, if_neg movable]
    refine and_congr ?_ (fetchLeaves_iff own fun root => ?_)
    · cases lets : io.mayRemove r.from with
      | true => simp
      | false => simp
    · rw [root, find_root]
      rfl

/-- Carrying out the collapsed plan leaves the same files exactly where every rename fits. -/
theorem sameFiles_iff {entries : Entries} {remote : List RemoteFile} {actions : List Action}
    (paths : (actions.flatMap Action.paths).Nodup) (distinct : (actions.flatMap Action.places).Nodup) :
    SameFiles (execute io known versions d (collapseRenames entries remote actions))
        (execute io known versions d actions) ↔
      ∀ r ∈ renames entries remote actions, Fits io d r := by
  have perm : ((collapseRenames entries remote actions).flatMap Action.places).Perm
      (actions.flatMap Action.places) := flatMap_collapse_perm paths fun r _ => by
        rw [Rename.halves, Rename.action, List.flatMap_cons, List.flatMap_singleton]
        rfl
  have distinct' := perm.nodup_iff.mpr distinct
  have pair (r : Rename) (mem : r ∈ renames entries remote actions) :
      Fits io d r ↔ ∀ path ∈ r.action.places,
        ((execute io known versions d (collapseRenames entries remote actions)).find path).map File.bytes =
          ((execute io known versions d actions).find path).map File.bytes := by
    have planned : r.action ∈ collapseRenames entries remote actions :=
      (mem_collapseRenames paths).mpr (.inr ⟨r, mem, rfl⟩)
    have deleted := (halves_mem mem).1
    have fetched := (halves_mem mem).2
    have apart : resolve r.from ∉ writtenPlaces r.to := by
      intro shared
      cases eq_of_shared distinct deleted fetched (List.mem_singleton_self (resolve r.from)) shared
    have own : resolve r.to ∉ stagingPlaces r.to :=
      (List.nodup_cons.mp ((List.nodup_flatMap.mp distinct).1 _ fetched)).1
    rw [fits_iff apart own, Rename.action, Action.places, List.forall_mem_cons]
    refine and_congr ?_ (forall₂_congr fun place mem => ?_)
    · rw [find_execute distinct' planned List.mem_cons_self,
        find_execute distinct deleted (List.mem_singleton_self (resolve r.from))]
      rfl
    · rw [find_execute distinct' planned (List.mem_cons_of_mem _ mem), find_execute distinct fetched mem]
      rfl
  constructor
  · intro same r mem
    exact (pair r mem).mpr fun path _ => same path
  · intro fits path
    by_cases touched : ∃ a ∈ collapseRenames entries remote actions, path ∈ a.places
    · obtain ⟨a, planned, own⟩ := touched
      rcases (mem_collapseRenames paths).mp planned with ⟨here, -⟩ | ⟨r, mem, rfl⟩
      · rw [find_execute distinct' planned own, find_execute distinct here own]
      · exact (pair r mem).mp (fits r mem) path own
    · have absent : ∀ a ∈ collapseRenames entries remote actions, path ∉ a.places :=
        fun a planned own => touched ⟨a, planned, own⟩
      have absent' : ∀ a ∈ actions, path ∉ a.places := by
        intro a here own
        obtain ⟨b, planned, own'⟩ := List.mem_flatMap.mp
          (perm.mem_iff.mpr (List.mem_flatMap.mpr ⟨a, here, own⟩))
        exact absent b planned own'
      rw [find_execute_untouched absent, find_execute_untouched absent']

end

/-- Collapsing loses no action. Carrying out the collapsed plan, where no two actions lead to one place,
leaves the same files as the original one exactly where every rename has the outcome of its halves. -/
theorem collapse_loses_nothing_iff (entries : Entries) (remote : List RemoteFile) (actions : List Action)
    (paths : (actions.flatMap Action.paths).Nodup) :
    Collapsed entries remote actions (renames entries remote actions)
        (collapseRenames entries remote actions) ∧
      ∀ (io : FetchIo) (versions : ExtTreeMap WirePath VersionVector compare) (d : Folder),
        (actions.flatMap Action.places).Nodup →
          (SameFiles (execute io entries versions d (collapseRenames entries remote actions))
              (execute io entries versions d actions) ↔
            ∀ r ∈ renames entries remote actions, Fits io d r) :=
  ⟨collapsed_collapseRenames paths, fun _ _ _ distinct => sameFiles_iff paths distinct⟩

private def held : Entries := ExtTreeMap.empty.insert ['a'] ⟨1, 0, .new, "h", false⟩

private def listed : List RemoteFile := [⟨['a', '/', 'b'], 1, .new, "h", false⟩]

/-- A peer turned the file `a` into a directory with the file in it. -/
private def moving : List Action := [.delete ['a'], .fetch ['a', '/', 'b']]

private def kept : Folder := Folder.empty.write ['a'] ⟨[1], 0⟩

private theorem renames_moving : renames held listed moving = [⟨['a'], ['a', '/', 'b'], "h"⟩] := by
  decide

/-- Every fetch lands; whether files may be moved is the system's. -/
private def landing (moves : Bool) : FetchIo where
  mayRename _ _ := moves
  mayRemove _ := true
  received _ _ := ⟨[1], 5⟩
  delivery _ _ := .landed ⟨[1], 5⟩

/-- A system that lets every file be moved. -/
theorem moved_file_same :
    SameFiles (execute (landing true) held ∅ kept (collapseRenames held listed moving))
      (execute (landing true) held ∅ kept moving) := by
  refine ((collapse_loses_nothing_iff held listed moving (by decide)).2 _ _ _ (by decide)).mpr ?_
  intro r mem
  rw [renames_moving, List.mem_singleton] at mem
  subst mem
  refine ⟨rfl, fun _ => rfl, fun place staging => ?_⟩
  cases List.mem_singleton.mp staging
  decide

/-- The system refuses the move, as `a` is no directory: the file stays where it was, and nothing
arrives. Deleting and fetching would have gone through. -/
theorem refused_rename_not_fetched :
    (execute (landing false) held ∅ kept (collapseRenames held listed moving)).find ['a'] = some ⟨[1], 0⟩ ∧
      (execute (landing false) held ∅ kept (collapseRenames held listed moving)).find ['a', '/', 'b'] = none ∧
      (execute (landing false) held ∅ kept moving).find ['a'] = none ∧
      (execute (landing false) held ∅ kept moving).find ['a', '/', 'b'] = some ⟨[1], 5⟩ := by
  decide

end PeerBeam.Sync
