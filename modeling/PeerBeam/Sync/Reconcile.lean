import PeerBeam.Sync.Index

/-! Deciding what to do about each file, given both sides' versions. -/
namespace PeerBeam.Sync
open Std

inductive Action where
  | fetch (path : WirePath)
  | push (path : WirePath)
  | delete (path : WirePath)
  /-- Both sides changed: the peer's copy goes to `keepAs`. -/
  | conflict (path keepAs : WirePath)
  /-- The peer has this file under a new name and we hold the bytes. -/
  | rename («from» «to» : WirePath)
  deriving DecidableEq

structure RemoteFile where
  path : WirePath
  size : Nat
  version : VersionVector
  /-- The peer's content hash; empty when it sent none. -/
  content : String
  deleted : Bool
  deriving DecidableEq

/-- Where a peer's copy goes when both sides edited the file: the conflict mark
stands before the extension. A leading dot starts no extension. -/
def conflictName (path : WirePath) (peer : String) : WirePath :=
  let after := path.reverse.takeWhile (· ≠ '.')
  -- position of the last dot, if there is one
  let i := path.length - after.length - 1
  let (stem, ext) :=
    if after.length < path.length ∧ 0 < i ∧ '/' ∉ after then (path.take i, path.drop i) else (path, [])
  stem ++ ".sync-conflict-".toList ++ peer.toList ++ ext

/-- A file that vanished and reappeared under another name. -/
structure Rename where
  «from» : WirePath
  «to» : WirePath
  hash : String
  deriving DecidableEq

/-- The locals of `detect`. -/
structure Pairing where
  renames : List Rename
  stillDeleted : List WirePath
  byHash : ExtTreeMap String (List WirePath) compare

def pairDeletion (p : Pairing) (item : WirePath × String) : Pairing :=
  let (path, hash) := item
  let created := p.byHash[hash]?.getD []
  match created.getLast? with
  | some «to» =>
    { p with
      renames := p.renames ++ [⟨path, «to», hash⟩]
      byHash := p.byHash.insert hash created.dropLast }
  | none => { p with stillDeleted := p.stillDeleted ++ [path] }

def detect (deleted created : List (WirePath × String)) :
    List Rename × List WirePath × List WirePath :=
  let byHash := created.foldl (fun m item => m.insert item.2 (m[item.2]?.getD [] ++ [item.1])) ∅
  let p := deleted.foldl pairDeletion ⟨[], [], byHash⟩
  let claimed := p.renames.map Rename.to
  (p.renames, p.stillDeleted, (created.map Prod.fst).filter fun path => !claimed.contains path)

/-- Collecting into a map: the last value of a key stays. -/
def collect {β : Type} (items : List (WirePath × β)) : ExtTreeMap WirePath β compare :=
  items.foldl (fun m item => m.insert item.1 item.2) ∅

section Collapse
variable (entries : Entries) (remote : List RemoteFile) (actions : List Action)

/-- The deletions planned, with the hash of our bytes. -/
def deleting : List (WirePath × String) :=
  actions.filterMap fun
    | .delete path => (entries[path]?.map IndexEntry.content).bind fun h =>
      if h = "" then none else some (path, h)
    | _ => none

def fetching : List (WirePath × String) :=
  let remoteHash := collect (remote.map fun f => (f.path, f.content))
  actions.filterMap fun
    | .fetch path => remoteHash[path]?.bind fun h => if h = "" then none else some (path, h)
    | _ => none

def renames : List Rename := (detect (deleting entries actions) (fetching remote actions)).1

/-- The delete becomes the rename; the matching fetch disappears. -/
def collapseAction (movedFrom : ExtTreeMap WirePath WirePath compare) (movedTo : List WirePath) :
    Action → Option Action
  | .delete path =>
    match movedFrom[path]? with
    | some «to» => some (.rename path «to»)
    | none => some (.delete path)
  | .fetch path => if movedTo.contains path then none else some (.fetch path)
  | action => some action

/-- Turn a fetch and a delete of the same bytes into a rename. -/
def collapseRenames : List Action :=
  let moves := renames entries remote actions
  if moves = [] then actions
  else
    actions.filterMap (collapseAction (collect (moves.map fun r => (r.from, r.to)))
      (moves.map Rename.to))

end Collapse

section Decide
variable (entries : Entries) (remote : List RemoteFile) (peer : String)

def decideRemote (f : RemoteFile) : Option Action :=
  match entries[f.path]? with
  -- never seen: take it, unless it is a deletion of something we never had
  | none => if f.deleted then none else some (.fetch f.path)
  | some mine =>
    match mine.version.relate f.version with
    | .same => none
    | .ahead => if mine.deleted && f.deleted then none else some (.push f.path)
    | .behind =>
      if f.deleted then if mine.deleted then none else some (.delete f.path)
      else some (.fetch f.path)
    | .diverged => some (.conflict f.path (conflictName f.path peer))

/-- What a file the peer never mentioned asks for. -/
def decideLocal (item : WirePath × IndexEntry) : Option Action :=
  if remote.any (fun f => f.path = item.1) || item.2.deleted then none else some (.push item.1)

def reconcileRaw : List Action :=
  remote.filterMap (decideRemote entries peer) ++ entries.toList.filterMap (decideLocal remote)

/-- Work out what to do about every file either side knows. -/
def reconcile : List Action :=
  collapseRenames entries remote (reconcileRaw entries remote peer)

end Decide

def Quiet (path : WirePath) (actions : List Action) : Prop :=
  .fetch path ∉ actions ∧ ∀ keepAs, .conflict path keepAs ∉ actions

/-- A remote file from which there is nothing to take: ours has seen it, or it is a
deletion that ours has not grown apart from. -/
def Settled (entry : Option IndexEntry) (f : RemoteFile) : Prop :=
  match entry with
  | none => f.deleted = true
  | some mine => mine.version.Covers f.version ∨ f.deleted = true ∧ f.version.Covers mine.version

section Quiet
variable {entries : Entries} {remote : List RemoteFile} {peer : String}

variable (peer) in
theorem settled_iff (f : RemoteFile) : Settled entries[f.path]? f ↔
    decideRemote entries peer f ≠ some (.fetch f.path) ∧
      ∀ keepAs, decideRemote entries peer f ≠ some (.conflict f.path keepAs) := by
  cases he : entries[f.path]? with
  | none =>
    simp only [Settled, decideRemote, he]
    cases f.deleted <;> simp
  | some mine =>
    simp only [Settled, decideRemote, he]
    rw [VersionVector.relate_eq]
    by_cases seen : mine.version.Covers f.version <;> by_cases known : f.version.Covers mine.version <;>
      cases f.deleted <;> cases mine.deleted <;> simp [seen, known]

theorem decideRemote_path {f : RemoteFile} {a : Action} (h : decideRemote entries peer f = some a) :
    a = .fetch f.path ∨ a = .push f.path ∨ a = .delete f.path ∨
      a = .conflict f.path (conflictName f.path peer) := by
  unfold decideRemote at h
  repeat' split at h
  all_goals simp_all

theorem fetch_mem_reconcileRaw {path : WirePath} :
    .fetch path ∈ reconcileRaw entries remote peer ↔
      ∃ f ∈ remote, f.path = path ∧ decideRemote entries peer f = some (.fetch f.path) := by
  simp only [reconcileRaw, List.mem_append, List.mem_filterMap]
  constructor
  · rintro (⟨f, mem, decided⟩ | ⟨item, -, pushed⟩)
    · have : path = f.path := by simpa using decideRemote_path decided
      exact ⟨f, mem, this.symm, this ▸ decided⟩
    · simp [decideLocal] at pushed
  · rintro ⟨f, mem, rfl, decided⟩
    exact .inl ⟨f, mem, decided⟩

theorem conflict_mem_reconcileRaw {path keepAs : WirePath} :
    .conflict path keepAs ∈ reconcileRaw entries remote peer ↔
      ∃ f ∈ remote, f.path = path ∧ decideRemote entries peer f = some (.conflict f.path keepAs) := by
  simp only [reconcileRaw, List.mem_append, List.mem_filterMap]
  constructor
  · rintro (⟨f, mem, decided⟩ | ⟨item, -, pushed⟩)
    · have : path = f.path := (by simpa using decideRemote_path decided : path = f.path ∧ _).1
      exact ⟨f, mem, this.symm, this ▸ decided⟩
    · simp [decideLocal] at pushed
  · rintro ⟨f, mem, rfl, decided⟩
    exact .inl ⟨f, mem, decided⟩

/-- A path is left alone exactly when every remote file of that name is settled. -/
theorem quiet_reconcileRaw {path : WirePath} : Quiet path (reconcileRaw entries remote peer) ↔
    ∀ f ∈ remote, f.path = path → Settled entries[path]? f := by
  constructor
  · rintro ⟨unfetched, unconflicted⟩ f mem rfl
    refine (settled_iff peer f).mpr ⟨?_, ?_⟩
    · exact fun decided => unfetched (fetch_mem_reconcileRaw.mpr ⟨f, mem, rfl, decided⟩)
    · exact fun keepAs decided =>
        unconflicted keepAs (conflict_mem_reconcileRaw.mpr ⟨f, mem, rfl, decided⟩)
  · intro settled
    constructor
    · intro fetched
      obtain ⟨f, mem, rfl, decided⟩ := fetch_mem_reconcileRaw.mp fetched
      exact ((settled_iff peer f).mp (settled f mem rfl)).1 decided
    · intro keepAs conflicted
      obtain ⟨f, mem, rfl, decided⟩ := conflict_mem_reconcileRaw.mp conflicted
      exact ((settled_iff peer f).mp (settled f mem rfl)).2 keepAs decided

theorem collapseAction_cases {movedFrom : ExtTreeMap WirePath WirePath compare}
    {movedTo : List WirePath} {a b : Action} (h : collapseAction movedFrom movedTo a = some b) :
    b = a ∨ ∃ path «to», a = .delete path ∧ movedFrom[path]? = some «to» ∧ b = .rename path «to» := by
  cases a with
  | delete path =>
    cases hm : movedFrom[path]? with
    | none =>
      simp only [collapseAction, hm, Option.some.injEq] at h
      exact .inl h.symm
    | some dst =>
      simp only [collapseAction, hm, Option.some.injEq] at h
      exact .inr ⟨path, dst, rfl, hm, h.symm⟩
  | fetch path =>
    simp only [collapseAction] at h
    split at h
    · cases h
    · exact .inl (Option.some.inj h).symm
  | push path | conflict path keepAs | rename src dst => exact .inl (Option.some.inj h).symm

/-- Collapsing renames takes fetches away and adds neither fetch nor conflict. -/
theorem mem_of_mem_collapseRenames {actions : List Action} {a : Action}
    (mem : a ∈ collapseRenames entries remote actions) : a ∈ actions ∨ ∃ src dst, a = .rename src dst := by
  simp only [collapseRenames] at mem
  split at mem
  · exact .inl mem
  · obtain ⟨b, here, kept⟩ := List.mem_filterMap.mp mem
    obtain rfl | ⟨path, dst, -, -, rfl⟩ := collapseAction_cases kept
    · exact .inl here
    · exact .inr ⟨path, dst, rfl⟩

theorem Quiet.collapse {path : WirePath} {actions : List Action} (h : Quiet path actions) :
    Quiet path (collapseRenames entries remote actions) := by
  constructor
  · intro mem
    obtain here | ⟨_, _, eq⟩ := mem_of_mem_collapseRenames mem
    · exact h.1 here
    · cases eq
  · intro keepAs mem
    obtain here | ⟨_, _, eq⟩ := mem_of_mem_collapseRenames mem
    · exact h.2 keepAs here
    · cases eq

end Quiet

theorem mem_of_collect {β : Type} {items : List (WirePath × β)} {key : WirePath} {value : β}
    (h : (collect items)[key]? = some value) : (key, value) ∈ items := by
  have general : ∀ (items : List (WirePath × β)) (m : ExtTreeMap WirePath β compare),
      (items.foldl (fun m item => m.insert item.1 item.2) m)[key]? = some value →
      (key, value) ∈ items ∨ m[key]? = some value := by
    intro items
    induction items with
    | nil => exact fun m found => .inr found
    | cons item items ih =>
      intro m found
      rcases ih _ found with later | here
      · exact .inl (List.mem_cons_of_mem _ later)
      · rw [ExtTreeMap.getElem?_insert] at here
        split at here
        · rename_i same
          cases here
          rw [← LawfulEqCmp.compare_eq_iff_eq.mp same]
          exact .inl List.mem_cons_self
        · exact .inr here
  rcases general items ∅ h with mem | absurd
  · exact mem
  · rw [ExtTreeMap.getElem?_empty] at absurd
    cases absurd

def createdWith (created : List (WirePath × String)) (hash : String) : List WirePath :=
  (created.filter fun item => item.2 = hash).map Prod.fst

private theorem byHash_eq (created : List (WirePath × String)) (hash : String) :
    (created.foldl (fun m item => m.insert item.2 (m[item.2]?.getD [] ++ [item.1]))
      (∅ : ExtTreeMap String (List WirePath) compare))[hash]?.getD [] = createdWith created hash := by
  have general : ∀ (created : List (WirePath × String)) (m : ExtTreeMap String (List WirePath) compare),
      (created.foldl (fun m item => m.insert item.2 (m[item.2]?.getD [] ++ [item.1])) m)[hash]?.getD [] =
        m[hash]?.getD [] ++ createdWith created hash := by
    intro created
    induction created with
    | nil => simp [createdWith]
    | cons item created ih =>
      intro m
      rw [List.foldl_cons, ih, ExtTreeMap.getElem?_insert]
      by_cases same : item.2 = hash
      · simp [createdWith, same]
      · simp [createdWith, same]
  rw [general, ExtTreeMap.getElem?_empty]
  rfl

/-- What is still unclaimed of one content, then what was claimed, latest first. -/
private theorem detect_invariant (deleted created : List (WirePath × String)) (hash : String) :
    let p := deleted.foldl pairDeletion ⟨[], [], created.foldl (fun m item =>
      m.insert item.2 (m[item.2]?.getD [] ++ [item.1])) ∅⟩
    p.byHash[hash]?.getD [] ++ ((p.renames.filter (·.hash = hash)).map Rename.to).reverse =
      createdWith created hash := by
  intro p
  have step : ∀ (q : Pairing) (item : WirePath × String),
      (pairDeletion q item).byHash[hash]?.getD [] ++
        (((pairDeletion q item).renames.filter (·.hash = hash)).map Rename.to).reverse =
      q.byHash[hash]?.getD [] ++ ((q.renames.filter (·.hash = hash)).map Rename.to).reverse := by
    rintro q ⟨path, h⟩
    simp only [pairDeletion]
    split
    · rename_i dst last
      by_cases same : h = hash
      · subst same
        obtain ⟨rest, split_eq⟩ := List.getLast?_eq_some_iff.mp last
        simp [split_eq]
      · simp [ExtTreeMap.getElem?_insert, same]
    · rfl
  have run : ∀ (deleted : List (WirePath × String)) (q : Pairing),
      (deleted.foldl pairDeletion q).byHash[hash]?.getD [] ++
        (((deleted.foldl pairDeletion q).renames.filter (·.hash = hash)).map Rename.to).reverse =
      q.byHash[hash]?.getD [] ++ ((q.renames.filter (·.hash = hash)).map Rename.to).reverse := by
    intro deleted
    induction deleted with
    | nil => exact fun q => rfl
    | cons item deleted ih => exact fun q => (ih _).trans (step q item)
  refine (run deleted _).trans ?_
  rw [byHash_eq]
  simp

/-- A rename leads to a creation of its content. -/
theorem detect_to {deleted created : List (WirePath × String)} {r : Rename}
    (mem : r ∈ (detect deleted created).1) : (r.to, r.hash) ∈ created := by
  have inv := detect_invariant deleted created r.hash
  have claimed : r.to ∈ createdWith created r.hash := by
    rw [← inv]
    refine List.mem_append_right _ (List.mem_reverse.mpr (List.mem_map_of_mem ?_))
    exact List.mem_filter.mpr ⟨mem, decide_eq_true rfl⟩
  obtain ⟨item, here, same⟩ := List.mem_map.mp claimed
  obtain ⟨here, hashed⟩ := List.mem_filter.mp here
  rw [← same, ← of_decide_eq_true hashed]
  exact here

/-- A creation is claimed at most once. -/
theorem detect_to_unique {deleted created : List (WirePath × String)}
    (distinct : (created.map Prod.fst).Nodup) {r r' : Rename} (mem : r ∈ (detect deleted created).1)
    (mem' : r' ∈ (detect deleted created).1) (same : r.to = r'.to) : r = r' := by
  have hashed : r.hash = r'.hash :=
    congrArg Prod.snd (List.inj_on_of_nodup_map distinct (detect_to mem) (detect_to mem') same)
  have inv := detect_invariant deleted created r.hash
  have once : (((detect deleted created).1.filter (·.hash = r.hash)).map Rename.to).Nodup := by
    have all : (createdWith created r.hash).Nodup := distinct.sublist (List.filter_sublist.map _)
    rw [← inv] at all
    exact List.nodup_reverse.mp (List.nodup_append.mp all).2.1
  refine List.inj_on_of_nodup_map once ?_ ?_ same
  · exact List.mem_filter.mpr ⟨mem, decide_eq_true rfl⟩
  · exact List.mem_filter.mpr ⟨mem', decide_eq_true hashed.symm⟩

section Moves
variable {entries : Entries} {remote : List RemoteFile} {peer : String}

theorem fetch_of_fetching {actions : List Action} {path : WirePath} {hash : String}
    (mem : (path, hash) ∈ fetching remote actions) : .fetch path ∈ actions := by
  obtain ⟨a, here, kept⟩ := List.mem_filterMap.mp mem
  cases a with
  | fetch p =>
    obtain ⟨h, -, kept⟩ := Option.bind_eq_some_iff.mp kept
    split at kept
    · cases kept
    · cases kept; exact here
  | _ => cases kept

/-- A fetch that stays a fetch is no rename's target. -/
theorem fetch_mem_reconcile {path : WirePath} (mem : .fetch path ∈ reconcile entries remote peer) :
    .fetch path ∈ reconcileRaw entries remote peer ∧
      ∀ r ∈ renames entries remote (reconcileRaw entries remote peer), r.to ≠ path := by
  simp only [reconcile, collapseRenames] at mem
  split at mem
  · rename_i still
    refine ⟨mem, fun r here => ?_⟩
    rw [still] at here
    cases here
  · obtain ⟨a, here, kept⟩ := List.mem_filterMap.mp mem
    obtain rfl | ⟨_, _, -, -, eq⟩ := collapseAction_cases kept
    · refine ⟨here, fun r moved same => ?_⟩
      simp only [collapseAction] at kept
      split at kept
      · cases kept
      · rename_i stays
        exact stays (List.contains_iff_mem.mpr (same ▸ List.mem_map_of_mem moved))
    · cases eq

/-- A rename of the plan was a delete of its source and a fetch of its target. -/
theorem rename_mem_reconcile {src dst : WirePath} (mem : .rename src dst ∈ reconcile entries remote peer) :
    .delete src ∈ reconcileRaw entries remote peer ∧ .fetch dst ∈ reconcileRaw entries remote peer ∧
      ∃ r ∈ renames entries remote (reconcileRaw entries remote peer), r.from = src ∧ r.to = dst := by
  have planned : ∀ a ∈ reconcileRaw entries remote peer, a ≠ .rename src dst := by
    rintro a here rfl
    rcases List.mem_append.mp here with here | here
    · obtain ⟨f, -, decided⟩ := List.mem_filterMap.mp here
      simpa using decideRemote_path decided
    · obtain ⟨item, -, decided⟩ := List.mem_filterMap.mp here
      simp [decideLocal] at decided
  simp only [reconcile, collapseRenames] at mem
  split at mem
  · exact absurd rfl (planned _ mem)
  · obtain ⟨a, here, kept⟩ := List.mem_filterMap.mp mem
    obtain eq | ⟨path, dst', rfl, moved, eq⟩ := collapseAction_cases kept
    · exact absurd eq.symm (planned a here)
    · cases eq
      obtain ⟨r, paired, same⟩ := List.mem_map.mp (mem_of_collect moved)
      cases same
      exact ⟨here, fetch_of_fetching (detect_to paired), r, paired, rfl, rfl⟩

theorem delete_mem_reconcile {path : WirePath} (mem : .delete path ∈ reconcile entries remote peer) :
    .delete path ∈ reconcileRaw entries remote peer := by
  obtain here | ⟨_, _, eq⟩ := mem_of_mem_collapseRenames mem
  · exact here
  · cases eq

theorem delete_mem_reconcileRaw {path : WirePath} (mem : .delete path ∈ reconcileRaw entries remote peer) :
    ∃ f ∈ remote, f.path = path ∧ decideRemote entries peer f = some (.delete path) ∧
      ∃ mine, entries[path]? = some mine := by
  rcases List.mem_append.mp mem with here | here
  · obtain ⟨f, listed, decided⟩ := List.mem_filterMap.mp here
    have same : path = f.path := by simpa using decideRemote_path decided
    refine ⟨f, listed, same.symm, decided, ?_⟩
    cases he : entries[path]? with
    | some mine => exact ⟨mine, rfl⟩
    | none =>
      simp only [decideRemote, ← same, he] at decided
      split at decided <;> cases decided
  · obtain ⟨item, -, decided⟩ := List.mem_filterMap.mp here
    simp [decideLocal] at decided

/-! A list that names each path once asks for one action per path. -/

variable (once : (remote.map RemoteFile.path).Nodup)
include once

end Moves

end PeerBeam.Sync
