import PeerBeam.Sync.Reconcile

/-! Two devices that reconcile against each other's lists decide as mirror images. -/
namespace PeerBeam.Sync
open Std

def Action.path : Action → WirePath
  | .fetch path | .push path | .delete path | .conflict path _ | .rename path _ => path

/-- The list a device sends about its index: each path once, with the entry's vector
and state, in any order. -/
structure Describes (files : List RemoteFile) (entries : Entries) : Prop where
  once : (files.map RemoteFile.path).Nodup
  listed : ∀ f ∈ files, ∃ e, entries[f.path]? = some e ∧
    e.size = f.size ∧ e.version = f.version ∧ e.content = f.content ∧ e.deleted = f.deleted
  complete : ∀ (path : WirePath) (e : IndexEntry), entries[path]? = some e → ∃ f ∈ files, f.path = path

namespace Describes
variable {files : List RemoteFile} {entries : Entries}

/-- What the list says about an indexed path. -/
theorem lists (h : Describes files entries) {path : WirePath} {e : IndexEntry}
    (held : entries[path]? = some e) :
    ∃ f ∈ files, f.path = path ∧ f.version = e.version ∧ f.deleted = e.deleted := by
  obtain ⟨f, mem, rfl⟩ := h.complete path e held
  obtain ⟨e', held', -, version, -, deleted⟩ := h.listed f mem
  cases held.symm.trans held'
  exact ⟨f, mem, rfl, version.symm, deleted.symm⟩

end Describes

section Decisions
variable {entries : Entries} {remote : List RemoteFile} {peer : String}

theorem decideRemote_about {f : RemoteFile} {a : Action} (decided : decideRemote entries peer f = some a) :
    a.path = f.path := by
  obtain rfl | rfl | rfl | rfl := decideRemote_path decided <;> rfl

/-- What is only here is pushed. -/
theorem decideLocal_about {item : WirePath × IndexEntry} {a : Action} (decided : decideLocal remote item = some a) :
    a.path = item.1 ∧ ∀ f ∈ remote, f.path ≠ item.1 := by
  simp only [decideLocal] at decided
  split at decided
  · cases decided
  · next unlisted =>
    cases decided
    simp only [Bool.or_eq_true, List.any_eq_true, decide_eq_true_eq, not_or] at unlisted
    exact ⟨rfl, fun f listed same => unlisted.1 ⟨f, listed, same⟩⟩

/-- The actions `reconcile_raw` takes for a path the peer's list names once. -/
theorem mem_reconcileRaw_of_listed (once : (remote.map RemoteFile.path).Nodup) {f : RemoteFile}
    (listed : f ∈ remote) {a : Action} (about : a.path = f.path) :
    a ∈ reconcileRaw entries remote peer ↔ decideRemote entries peer f = some a := by
  simp only [reconcileRaw, List.mem_append, List.mem_filterMap]
  constructor
  · rintro (⟨g, mem, decided⟩ | ⟨item, -, pushed⟩)
    · have same : g.path = f.path := (decideRemote_about decided).symm.trans about
      exact List.inj_on_of_nodup_map once mem listed same ▸ decided
    · obtain ⟨own, unlisted⟩ := decideLocal_about pushed
      exact absurd (about.symm.trans own) (unlisted f listed)
  · exact fun decided => .inl ⟨f, listed, decided⟩

variable {f : RemoteFile} {mine : IndexEntry}

theorem decideRemote_fetch (held : entries[f.path]? = some mine) (live : f.deleted = false) :
    decideRemote entries peer f = some (.fetch f.path) ↔ f.version.Dominates mine.version := by
  rw [← VersionVector.behind_iff_dominates]
  simp only [decideRemote, held]
  cases mine.version.relate f.version <;> simp [live]

theorem decideRemote_push (held : entries[f.path]? = some mine) (live : f.deleted = false) :
    decideRemote entries peer f = some (.push f.path) ↔ mine.version.Dominates f.version := by
  rw [← VersionVector.relate_eq_ahead]
  simp only [decideRemote, held]
  cases mine.version.relate f.version <;> simp [live]

theorem decideRemote_conflict (held : entries[f.path]? = some mine) (keepAs : WirePath) :
    decideRemote entries peer f = some (.conflict f.path keepAs) ↔
      mine.version.Concurrent f.version ∧ keepAs = conflictName f.path peer := by
  rw [← VersionVector.relate_eq_diverged]
  simp only [decideRemote, held]
  cases mine.version.relate f.version <;> cases mine.deleted <;> cases f.deleted <;> simp [eq_comm]

theorem decideRemote_delete (decided : decideRemote entries peer f = some (.delete f.path)) :
    ∃ mine, entries[f.path]? = some mine ∧ mine.deleted = false ∧ f.deleted = true ∧
      f.version.Dominates mine.version := by
  cases held : entries[f.path]? with
  | none =>
    simp only [decideRemote, held] at decided
    split at decided <;> cases decided
  | some mine =>
    refine ⟨mine, rfl, ?_⟩
    rw [← VersionVector.behind_iff_dominates]
    simp only [decideRemote, held] at decided
    cases related : mine.version.relate f.version <;> rw [related] at decided <;>
      cases hm : mine.deleted <;> cases hf : f.deleted <;> simp [hm, hf] at decided
    exact ⟨rfl, rfl, rfl⟩

/-- A list that names each path once asks for one action a path at most. -/
theorem nodup_paths (once : (remote.map RemoteFile.path).Nodup) :
    ((reconcileRaw entries remote peer).map Action.path).Nodup := by
  have sublist {α : Type} {keep : α → Option Action} {key : α → WirePath}
      (kept : ∀ x a, keep x = some a → a.path = key x) (xs : List α) :
      ((xs.filterMap keep).map Action.path).Sublist (xs.map key) := by
    induction xs with
    | nil => exact List.nil_sublist _
    | cons x xs ih =>
      cases hx : keep x with
      | none =>
        rw [List.filterMap_cons_none hx]
        exact ih.cons _
      | some a =>
        rw [List.filterMap_cons_some hx, List.map_cons, List.map_cons, kept x a hx]
        exact ih.cons_cons _
  have keys : (entries.toList.map Prod.fst).Nodup := by
    rw [List.Nodup, List.pairwise_map]
    exact ExtTreeMap.distinct_keys_toList.imp fun differ same => differ (by rw [same]; exact ReflCmp.compare_self)
  rw [reconcileRaw, List.map_append, List.nodup_append]
  refine ⟨once.sublist (sublist (fun f a => decideRemote_about) _),
    keys.sublist (sublist (fun item a decided => (decideLocal_about decided).1) _), ?_⟩
  · -- what only we have is not in the peer's list
    rintro path mem path' mem' rfl
    obtain ⟨a, here, rfl⟩ := List.mem_map.mp mem
    obtain ⟨f, listed, decided⟩ := List.mem_filterMap.mp here
    obtain ⟨a', here', same⟩ := List.mem_map.mp mem'
    obtain ⟨item, -, pushed⟩ := List.mem_filterMap.mp here'
    obtain ⟨own, unlisted⟩ := decideLocal_about pushed
    exact unlisted f listed ((decideRemote_about decided).symm.trans (same.symm.trans own))

end Decisions

/-- For any two devices that send each other the list of their index: on a path live on
both sides one fetches exactly when the other pushes, and both see a conflict or neither
does. Each path gets at most one action; only a live file whose entry the peer deleted
with a dominating vector is deleted; and nothing is taken or deleted where the vectors
are concurrent. -/
theorem mirrored_decisions {a b : Entries} {filesA filesB : List RemoteFile}
    (describesA : Describes filesA a) (describesB : Describes filesB b) (nameA nameB : String) :
    (∀ (path : WirePath) (mine theirs : IndexEntry), a[path]? = some mine → b[path]? = some theirs →
      mine.deleted = false → theirs.deleted = false →
      (.fetch path ∈ reconcileRaw a filesB nameB ↔ .push path ∈ reconcileRaw b filesA nameA) ∧
      ((∃ keepAs, .conflict path keepAs ∈ reconcileRaw a filesB nameB) ↔
        ∃ keepAs, .conflict path keepAs ∈ reconcileRaw b filesA nameA)) ∧
    ((reconcileRaw a filesB nameB).map Action.path).Nodup ∧
    (∀ path, .delete path ∈ reconcileRaw a filesB nameB → ∃ mine f, a[path]? = some mine ∧
      mine.deleted = false ∧ f ∈ filesB ∧ f.path = path ∧ f.deleted = true ∧
      f.version.Dominates mine.version) ∧
    (∀ f ∈ filesB, ∀ mine, a[f.path]? = some mine → mine.version.Concurrent f.version →
      .fetch f.path ∉ reconcileRaw a filesB nameB ∧ .delete f.path ∉ reconcileRaw a filesB nameB) := by
  refine ⟨?_, nodup_paths describesB.once, ?_, ?_⟩
  · intro path mine theirs heldA heldB liveA liveB
    obtain ⟨f, listedB, rfl, versionB, deletedB⟩ := describesB.lists heldB
    obtain ⟨g, listedA, pathA, versionA, deletedA⟩ := describesA.lists heldA
    have heldB' : b[g.path]? = some theirs := pathA ▸ heldB
    constructor
    · rw [mem_reconcileRaw_of_listed describesB.once listedB rfl,
        decideRemote_fetch heldA (deletedB.trans liveB), ← pathA,
        mem_reconcileRaw_of_listed describesA.once listedA rfl,
        decideRemote_push heldB' (deletedA.trans liveA), versionA, versionB]
    · have sideA (keepAs : WirePath) : .conflict f.path keepAs ∈ reconcileRaw a filesB nameB ↔
          mine.version.Concurrent theirs.version ∧ keepAs = conflictName f.path nameB := by
        rw [mem_reconcileRaw_of_listed describesB.once listedB rfl, decideRemote_conflict heldA, versionB]
      have sideB (keepAs : WirePath) : .conflict g.path keepAs ∈ reconcileRaw b filesA nameA ↔
          theirs.version.Concurrent mine.version ∧ keepAs = conflictName g.path nameA := by
        rw [mem_reconcileRaw_of_listed describesA.once listedA rfl, decideRemote_conflict heldB', versionA]
      rw [← pathA] at sideA ⊢
      simp only [sideA, sideB, exists_and_left, exists_eq, and_true]
      exact VersionVector.concurrent_comm
  · intro path deleted
    obtain ⟨f, listed, rfl, decided, -⟩ := delete_mem_reconcileRaw deleted
    obtain ⟨mine, held, live, gone, dominates⟩ := decideRemote_delete decided
    exact ⟨mine, f, held, live, listed, rfl, gone, dominates⟩
  · intro f listed mine held concurrent
    rw [mem_reconcileRaw_of_listed describesB.once listed rfl,
      mem_reconcileRaw_of_listed describesB.once listed rfl,
      (decideRemote_conflict held (conflictName f.path nameB)).mpr ⟨concurrent, rfl⟩]
    exact ⟨by simp, by simp⟩

/-! One file that both devices hold, edited on the second. -/

private def sharedEntry (version : VersionVector) : IndexEntry := ⟨1, 1700000000, version, "", false⟩

private def sharedFile (version : VersionVector) : RemoteFile := ⟨['f'], 1, version, "", false⟩

private theorem describes_shared (version : VersionVector) :
    Describes [sharedFile version] (ExtTreeMap.insert ∅ ['f'] (sharedEntry version)) where
  once := List.nodup_singleton _
  listed f mem := by
    cases List.mem_singleton.mp mem
    exact ⟨sharedEntry version, ExtTreeMap.getElem?_insert_self, rfl, rfl, rfl, rfl⟩
  complete path e held := by
    refine ⟨sharedFile version, List.mem_singleton_self _, ?_⟩
    rw [ExtTreeMap.getElem?_insert] at held
    split at held
    · rename_i same
      exact LawfulEqCmp.compare_eq_iff_eq.mp same
    · rw [ExtTreeMap.getElem?_empty] at held
      cases held

theorem mirrored_decisions_one_edit :
    let old := VersionVector.new.bump "pb-a"
    let new := old.bump "pb-b"
    .fetch ['f'] ∈ reconcileRaw (ExtTreeMap.insert ∅ ['f'] (sharedEntry old)) [sharedFile new] "pb-b" ∧
    .push ['f'] ∈ reconcileRaw (ExtTreeMap.insert ∅ ['f'] (sharedEntry new)) [sharedFile old] "pb-a" := by
  intro old new
  have fetched : .fetch ['f'] ∈
      reconcileRaw (ExtTreeMap.insert ∅ ['f'] (sharedEntry old)) [sharedFile new] "pb-b" := by
    decide +kernel
  have mirrored := (mirrored_decisions (describes_shared old) (describes_shared new) "pb-a" "pb-b").1
    ['f'] _ _ ExtTreeMap.getElem?_insert_self ExtTreeMap.getElem?_insert_self rfl rfl
  exact ⟨fetched, mirrored.1.mp fetched⟩

end PeerBeam.Sync
