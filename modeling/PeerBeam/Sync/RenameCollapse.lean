import PeerBeam.Lib.SortedMap
import PeerBeam.Sync.Apply

/-! Collapsing a delete and a fetch of the same bytes into a rename: what becomes of every action
of the plan, and when carrying out the shorter plan leaves the same files. -/
namespace PeerBeam.Sync
open Std (ExtTreeMap)

def Action.paths : Action → List WirePath
  | .fetch path | .push path | .delete path | .conflict path _ => [path]
  | .rename «from» «to» => [«from», «to»]

def Rename.action (r : Rename) : Action := .rename r.from r.to

def Rename.halves (r : Rename) : List Action := [.delete r.from, .fetch r.to]

def parts (moves : List Rename) (a : Action) : List Action :=
  (moves.find? fun r => r.action = a).elim [a] Rename.halves

section
variable {α β : Type*} {f : α → List β} {xs : List α}

/-- Where nothing is named twice, what two items share a name with is one item. -/
theorem eq_of_shared (distinct : (xs.flatMap f).Nodup) {x y : α} {b : β} (hx : x ∈ xs) (hy : y ∈ xs)
    (bx : b ∈ f x) (by' : b ∈ f y) : x = y := by
  by_contra differ
  have apart := (List.nodup_flatMap.mp distinct).2
  have symm : Std.Symm (Function.onFun List.Disjoint f) := ⟨fun _ _ h => h.symm⟩
  exact apart.forall hx hy differ bx by'

theorem nodup_of_nodup_flatMap (distinct : (xs.flatMap f).Nodup) (named : ∀ x ∈ xs, f x ≠ []) :
    xs.Nodup := by
  have apart := (List.nodup_flatMap.mp distinct).2
  refine apart.imp_of_mem fun hx _ disjoint same => ?_
  obtain ⟨b, mem⟩ := List.exists_mem_of_ne_nil _ (named _ hx)
  exact disjoint mem (same ▸ mem)

theorem filterMap_sublist_flatMap {γ : Type*} {g : α → Option γ} {k : γ → β}
    (alone : ∀ a c, g a = some c → f a = [k c]) :
    ((xs.filterMap g).map k).Sublist (xs.flatMap f) := by
  induction xs with
  | nil => exact List.Sublist.refl _
  | cons x xs ih =>
    rw [List.filterMap_cons, List.flatMap_cons]
    cases got : g x with
    | none => exact ih.trans (List.sublist_append_right _ _)
    | some c =>
      rw [alone x c got]
      exact ih.cons_cons _

end

/-- A map collected from distinct keys holds every item. -/
theorem collect_of_mem {β : Type} {items : List (WirePath × β)} (distinct : (items.map Prod.fst).Nodup)
    {key : WirePath} {value : β} (mem : (key, value) ∈ items) :
    (collect items)[key]? = some value := by
  have isLocal : KeyedFold.Local
      (fun (m : ExtTreeMap WirePath β compare) (item : WirePath × β) => m.insert item.1 item.2)
      Prod.fst (fun m key => m[key]?) := by
    intro m item other differ
    exact (SortedMap.get_insert ..).trans (if_neg differ)
  have apart : items.Pairwise (·.1 ≠ ·.1) := List.pairwise_map.mp distinct
  obtain ⟨m, -, ended⟩ := KeyedFold.look_of_mem isLocal ∅ apart mem
  refine ended.trans ?_
  exact (SortedMap.get_insert ..).trans (if_pos rfl)

section
variable {entries : Entries} {remote : List RemoteFile} {actions : List Action}

theorem delete_of_deleting {path : WirePath} {hash : String} (mem : (path, hash) ∈ deleting entries actions) :
    .delete path ∈ actions ∧ entries[path]?.map IndexEntry.content = some hash ∧ hash ≠ "" := by
  obtain ⟨a, here, kept⟩ := List.mem_filterMap.mp mem
  cases a with
  | delete p =>
    obtain ⟨h, held, kept⟩ := Option.bind_eq_some_iff.mp kept
    split at kept
    · cases kept
    · next filled =>
      cases kept
      exact ⟨here, held, filled⟩
  | _ => cases kept

theorem hash_of_fetching {path : WirePath} {hash : String} (mem : (path, hash) ∈ fetching remote actions) :
    (collect (remote.map fun f => (f.path, f.content)))[path]? = some hash ∧ hash ≠ "" := by
  obtain ⟨a, -, kept⟩ := List.mem_filterMap.mp mem
  cases a with
  | fetch p =>
    obtain ⟨h, held, kept⟩ := Option.bind_eq_some_iff.mp kept
    split at kept
    · cases kept
    · next filled =>
      cases kept
      exact ⟨held, filled⟩
  | _ => cases kept

theorem deleting_sublist : ((deleting entries actions).map Prod.fst).Sublist (actions.flatMap Action.paths) := by
  apply filterMap_sublist_flatMap
  intro a item kept
  cases a with
  | delete path =>
    obtain ⟨h, -, kept⟩ := Option.bind_eq_some_iff.mp kept
    split at kept
    · cases kept
    · cases kept
      rfl
  | _ => cases kept

theorem fetching_sublist : ((fetching remote actions).map Prod.fst).Sublist (actions.flatMap Action.paths) := by
  apply filterMap_sublist_flatMap
  intro a item kept
  cases a with
  | fetch path =>
    obtain ⟨h, -, kept⟩ := Option.bind_eq_some_iff.mp kept
    split at kept
    · cases kept
    · cases kept
      rfl
  | _ => cases kept

/-- Every deletion starts at most one rename, in their order. -/
theorem detect_from_sublist (deleted created : List (WirePath × String)) :
    ((detect deleted created).1.map fun r => (r.from, r.hash)).Sublist deleted := by
  have general (p : Pairing) : ∃ later, later.Sublist deleted ∧
      ((deleted.foldl pairDeletion p).renames.map fun r => (r.from, r.hash)) =
        (p.renames.map fun r => (r.from, r.hash)) ++ later := by
    induction deleted generalizing p with
    | nil => exact ⟨[], List.Sublist.refl _, (List.append_nil _).symm⟩
    | cons item deleted ih =>
      obtain ⟨later, sub, whole⟩ := ih (pairDeletion p item)
      rw [List.foldl_cons, whole]
      cases last : (p.byHash[item.2]?.getD []).getLast? with
      | none =>
        refine ⟨later, sub.cons _, ?_⟩
        simp only [pairDeletion, last]
      | some dst =>
        refine ⟨item :: later, sub.cons_cons _, ?_⟩
        simp only [pairDeletion, last, List.map_append, List.map_cons, List.map_nil, List.append_assoc,
          List.cons_append, List.nil_append]
  obtain ⟨later, sub, whole⟩ := general ⟨[], [], _⟩
  exact whole ▸ sub

/-- A rename starts from a deletion of its content. -/
theorem detect_from {deleted created : List (WirePath × String)} {r : Rename}
    (mem : r ∈ (detect deleted created).1) : (r.from, r.hash) ∈ deleted :=
  (detect_from_sublist deleted created).subset (List.mem_map_of_mem mem)

variable {r : Rename}

theorem halves_mem (mem : r ∈ renames entries remote actions) :
    .delete r.from ∈ actions ∧ .fetch r.to ∈ actions :=
  ⟨(delete_of_deleting (detect_from mem)).1, fetch_of_fetching (detect_to mem)⟩

/-- What the source of a rename is called, and the bytes that go with it. -/
theorem content_of_rename (mem : r ∈ renames entries remote actions) :
    entries[r.from]?.map IndexEntry.content = some r.hash ∧
      (collect (remote.map fun f => (f.path, f.content)))[r.to]? = some r.hash ∧ r.hash ≠ "" :=
  ⟨(delete_of_deleting (detect_from mem)).2.1, hash_of_fetching (detect_to mem)⟩

/-- The loop of `collapse_renames`, also where there is nothing to collapse. -/
private def collapsed (entries : Entries) (remote : List RemoteFile) (actions : List Action) :
    Action → Option Action :=
  collapseAction (collect ((renames entries remote actions).map fun r => (r.from, r.to)))
    ((renames entries remote actions).map Rename.to)

private theorem collapseRenames_eq :
    collapseRenames entries remote actions = actions.filterMap (collapsed entries remote actions) := by
  simp only [collapseRenames, collapsed]
  split
  · next none =>
    rw [none]
    refine (List.filterMap_some.symm.trans (List.filterMap_congr fun a _ => ?_))
    cases a with
    | delete path => simp [collapseAction, collect]
    | fetch path => simp [collapseAction]
    | _ => rfl
  · rfl

def halves (moves : List Rename) : List Action := moves.flatMap Rename.halves

private theorem collapsed_fetch (mem : r ∈ renames entries remote actions) :
    collapsed entries remote actions (.fetch r.to) = none :=
  if_pos (List.contains_iff_mem.mpr (List.mem_map_of_mem mem))

private theorem collapsed_other {a : Action} (whole : a ∉ halves (renames entries remote actions)) :
    collapsed entries remote actions a = some a := by
  have differ (r : Rename) (mem : r ∈ renames entries remote actions) :
      a ≠ .delete r.from ∧ a ≠ .fetch r.to := by
    constructor <;> rintro rfl <;>
      exact whole (List.mem_flatMap.mpr ⟨r, mem, by simp [Rename.halves]⟩)
  cases a with
  | delete path =>
    cases held : (collect ((renames entries remote actions).map fun r => (r.from, r.to)))[path]? with
    | none => simp only [collapsed, collapseAction, held]
    | some dst =>
      obtain ⟨r, mem, same⟩ := List.mem_map.mp (mem_of_collect held)
      cases same
      exact absurd rfl (differ r mem).1
  | fetch path =>
    refine if_neg fun claimed => ?_
    obtain ⟨r, mem, rfl⟩ := List.mem_map.mp (List.contains_iff_mem.mp claimed)
    exact (differ r mem).2 rfl
  | _ => rfl

variable (entries remote actions) in
/-- An action is a deleted half, a fetched half, or none. -/
private theorem half_cases (a : Action) :
    (∃ r ∈ renames entries remote actions, a = .delete r.from) ∨
      (∃ r ∈ renames entries remote actions, a = .fetch r.to) ∨
        a ∉ halves (renames entries remote actions) := by
  by_cases half : a ∈ halves (renames entries remote actions)
  · obtain ⟨r, mem, side⟩ := List.mem_flatMap.mp half
    rcases List.mem_cons.mp side with rfl | side
    · exact .inl ⟨r, mem, rfl⟩
    · exact .inr (.inl ⟨r, mem, List.mem_singleton.mp side⟩)
  · exact .inr (.inr half)

private theorem parts_action (mem : r ∈ renames entries remote actions) :
    parts (renames entries remote actions) r.action = r.halves := by
  have found : ∃ r', (renames entries remote actions).find? (fun r' => r'.action = r.action) = some r' :=
    Option.isSome_iff_exists.mp (List.find?_isSome.mpr ⟨r, mem, by simp⟩)
  obtain ⟨r', found⟩ := found
  have same : r'.action = r.action := by simpa using List.find?_some found
  rw [Rename.action, Rename.action, Action.rename.injEq] at same
  rw [parts, found, Option.elim_some, Rename.halves, Rename.halves, same.1, same.2]

private def left (entries : Entries) (remote : List RemoteFile) (actions : List Action) (a : Action) :
    List Action :=
  (collapsed entries remote actions a).toList.flatMap (parts (renames entries remote actions))

private theorem left_fetch (mem : r ∈ renames entries remote actions) :
    left entries remote actions (.fetch r.to) = [] := by
  rw [left, collapsed_fetch mem]
  rfl

private theorem parts_collapse : (collapseRenames entries remote actions).flatMap
    (parts (renames entries remote actions)) = actions.flatMap (left entries remote actions) := by
  rw [collapseRenames_eq, List.filterMap_eq_flatMap_toList, List.flatMap_assoc]
  rfl

/-- What an action names, all its parts name. -/
theorem flatMap_parts {β : Type*} {f : Action → List β}
    (whole : ∀ r ∈ renames entries remote actions, f r.action = r.halves.flatMap f) (a : Action) :
    (parts (renames entries remote actions) a).flatMap f = f a := by
  rw [parts]
  cases found : (renames entries remote actions).find? fun r => r.action = a with
  | none => exact List.flatMap_singleton f a
  | some r =>
    have same : r.action = a := by simpa using List.find?_some found
    rw [Option.elim_some, ← same, whole r (List.mem_of_find?_eq_some found)]

variable (distinct : (actions.flatMap Action.paths).Nodup)
include distinct

theorem nodup_from : ((renames entries remote actions).map Rename.from).Nodup := by
  have deleted : ((deleting entries actions).map Prod.fst).Nodup := distinct.sublist deleting_sublist
  have sub := (detect_from_sublist (deleting entries actions) (fetching remote actions)).map Prod.fst
  rw [List.map_map] at sub
  exact deleted.sublist sub

theorem nodup_to : ((renames entries remote actions).map Rename.to).Nodup := by
  have created : ((fetching remote actions).map Prod.fst).Nodup := distinct.sublist fetching_sublist
  exact (List.Nodup.of_map _ (nodup_from distinct)).map_on fun _ mem _ mem' same =>
    detect_to_unique created mem mem' same

/-- An action that shares its path with a half is that half. -/
theorem eq_delete_half (mem : r ∈ renames entries remote actions) {a : Action} (here : a ∈ actions)
    (shared : r.from ∈ a.paths) : a = .delete r.from :=
  eq_of_shared distinct here (halves_mem mem).1 shared (List.mem_singleton_self _)

theorem rename_of_from (mem : r ∈ renames entries remote actions) {r' : Rename}
    (mem' : r' ∈ renames entries remote actions) (same : r'.from = r.from) : r' = r :=
  List.inj_on_of_nodup_map (nodup_from distinct) mem' mem same

theorem rename_of_to (mem : r ∈ renames entries remote actions) {r' : Rename}
    (mem' : r' ∈ renames entries remote actions) (same : r'.to = r.to) : r' = r :=
  List.inj_on_of_nodup_map (nodup_to distinct) mem' mem same

/-- No action of the plan looks like the rename of a pair. -/
private theorem action_ne (mem : r ∈ renames entries remote actions) {a : Action} (here : a ∈ actions) :
    r.action ≠ a := by
  rintro rfl
  cases eq_delete_half distinct mem here List.mem_cons_self

private theorem collapsed_delete (mem : r ∈ renames entries remote actions) :
    collapsed entries remote actions (.delete r.from) = some r.action := by
  have keys : (((renames entries remote actions).map fun r => (r.from, r.to)).map Prod.fst).Nodup := by
    rw [List.map_map]
    exact nodup_from distinct
  simp only [collapsed, collapseAction, collect_of_mem keys (List.mem_map_of_mem mem)]
  rfl

private theorem parts_other {a : Action} (here : a ∈ actions) :
    parts (renames entries remote actions) a = [a] := by
  have absent : (renames entries remote actions).find? (fun r => r.action = a) = none := by
    apply List.find?_eq_none.mpr
    intro r mem same
    exact action_ne distinct mem here (of_decide_eq_true same)
  rw [parts, absent, Option.elim_none]

private theorem left_delete (mem : r ∈ renames entries remote actions) :
    left entries remote actions (.delete r.from) = r.halves := by
  rw [left, collapsed_delete distinct mem, Option.toList_some, List.flatMap_singleton,
    parts_action mem]

private theorem left_other {a : Action} (here : a ∈ actions)
    (whole : a ∉ halves (renames entries remote actions)) : left entries remote actions a = [a] := by
  rw [left, collapsed_other whole, Option.toList_some, List.flatMap_singleton,
    parts_other distinct here]

private theorem nodup_left {a : Action} (here : a ∈ actions) : (left entries remote actions a).Nodup := by
  rcases half_cases entries remote actions a with
    ⟨r, mem, rfl⟩ | ⟨r, mem, rfl⟩ | whole
  · rw [left_delete distinct mem]
    simp [Rename.halves]
  · rw [left_fetch mem]
    exact List.nodup_nil
  · rw [left_other distinct here whole]
    exact List.nodup_singleton a

/-- What an action leaves is itself, or the halves of the pair it heads. -/
private theorem mem_left {a x : Action} (here : a ∈ actions) (mem : x ∈ left entries remote actions a) :
    x ∈ actions ∧ (x = a ∧ (∀ r ∈ renames entries remote actions, x ≠ .fetch r.to) ∨
      ∃ r ∈ renames entries remote actions, a = .delete r.from ∧ x = .fetch r.to) := by
  rcases half_cases entries remote actions a with
    ⟨r, paired, rfl⟩ | ⟨r, paired, rfl⟩ | whole
  · rw [left_delete distinct paired] at mem
    rcases List.mem_cons.mp mem with rfl | side
    · exact ⟨here, .inl ⟨rfl, nofun⟩⟩
    · rw [List.mem_singleton.mp side]
      exact ⟨(halves_mem paired).2, .inr ⟨r, paired, rfl, rfl⟩⟩
  · rw [left_fetch paired] at mem
    cases mem
  · rw [left_other distinct here whole, List.mem_singleton] at mem
    subst mem
    refine ⟨here, .inl ⟨rfl, ?_⟩⟩
    rintro r paired rfl
    exact whole (List.mem_flatMap.mpr ⟨r, paired, by simp [Rename.halves]⟩)

/-- Every action of the plan stands in the collapsed one exactly once, as itself or as a half. -/
theorem parts_perm : ((collapseRenames entries remote actions).flatMap
    (parts (renames entries remote actions))).Perm actions := by
  have once : actions.Nodup := nodup_of_nodup_flatMap distinct fun a _ => by cases a <;> exact List.cons_ne_nil _ _
  rw [parts_collapse]
  refine (List.perm_ext_iff_of_nodup ?_ once).mpr fun x => ?_
  · apply List.nodup_flatMap.mpr
    refine ⟨fun a here => nodup_left distinct here, once.imp_of_mem fun {a b} ha hb differ x inA inB => ?_⟩
    rcases (mem_left distinct ha inA).2 with ⟨rfl, whole⟩ | ⟨r, paired, rfl, rfl⟩
    · rcases (mem_left distinct hb inB).2 with ⟨same, -⟩ | ⟨r, paired, -, rfl⟩
      · exact differ same
      · exact whole r paired rfl
    · rcases (mem_left distinct hb inB).2 with ⟨-, whole⟩ | ⟨r', paired', rfl, same⟩
      · exact whole r paired rfl
      · cases rename_of_to distinct paired paired' (Action.fetch.inj same).symm
        exact differ rfl
  · constructor
    · intro mem
      obtain ⟨a, here, inside⟩ := List.mem_flatMap.mp mem
      exact (mem_left distinct here inside).1
    · intro here
      apply List.mem_flatMap.mpr
      rcases half_cases entries remote actions x with
        ⟨r, paired, rfl⟩ | ⟨r, paired, rfl⟩ | whole
      · exact ⟨_, here, by rw [left_delete distinct paired]; exact List.mem_cons_self⟩
      · refine ⟨_, (halves_mem paired).1, ?_⟩
        rw [left_delete distinct paired]
        exact List.mem_cons_of_mem _ (List.mem_singleton_self _)
      · exact ⟨_, here, by rw [left_other distinct here whole]; exact List.mem_singleton_self _⟩

/-- What is no half stays, in its order. -/
theorem others_in_order :
    (collapseRenames entries remote actions).filter
        (· ∉ (renames entries remote actions).map Rename.action) =
      actions.filter (· ∉ halves (renames entries remote actions)) := by
  rw [collapseRenames_eq, ← List.filterMap_eq_filter, ← List.filterMap_eq_filter, List.filterMap_filterMap]
  apply List.filterMap_congr
  intro a here
  rcases half_cases entries remote actions a with
    ⟨r, paired, rfl⟩ | ⟨r, paired, rfl⟩ | whole
  · have half : Action.delete r.from ∈ halves (renames entries remote actions) :=
      List.mem_flatMap.mpr ⟨r, paired, List.mem_cons_self⟩
    have move : ∃ r' ∈ renames entries remote actions, r'.action = r.action := ⟨r, paired, rfl⟩
    rw [collapsed_delete distinct paired]
    simp [Option.guard, half, move]
  · have half : Action.fetch r.to ∈ halves (renames entries remote actions) :=
      List.mem_flatMap.mpr ⟨r, paired, List.mem_cons_of_mem _ (List.mem_singleton_self _)⟩
    rw [collapsed_fetch paired]
    simp [Option.guard, half]
  · have stays : ∀ r ∈ renames entries remote actions, r.action ≠ a := fun r paired =>
      action_ne distinct paired here
    rw [collapsed_other whole]
    simpa [Option.guard, whole] using stays

theorem flatMap_collapse_perm {β : Type*} {f : Action → List β}
    (whole : ∀ r ∈ renames entries remote actions, f r.action = r.halves.flatMap f) :
    ((collapseRenames entries remote actions).flatMap f).Perm (actions.flatMap f) := by
  have perm : ((collapseRenames entries remote actions).flatMap
      (parts (renames entries remote actions))).Perm actions := parts_perm distinct
  have parted := perm.flatMap_right f
  rw [List.flatMap_assoc] at parted
  rwa [List.flatMap_congr fun a _ => flatMap_parts whole a] at parted

/-- The collapsed plan is the renames and what is no half. -/
theorem mem_collapseRenames {a : Action} : a ∈ collapseRenames entries remote actions ↔
    (a ∈ actions ∧ a ∉ halves (renames entries remote actions)) ∨
      ∃ r ∈ renames entries remote actions, r.action = a := by
  rw [collapseRenames_eq, List.mem_filterMap]
  constructor
  · rintro ⟨b, here, kept⟩
    rcases half_cases entries remote actions b with
      ⟨r, paired, rfl⟩ | ⟨r, paired, rfl⟩ | whole
    · rw [collapsed_delete distinct paired] at kept
      exact .inr ⟨r, paired, Option.some.inj kept⟩
    · rw [collapsed_fetch paired] at kept
      cases kept
    · rw [collapsed_other whole] at kept
      obtain rfl := Option.some.inj kept
      exact .inl ⟨here, whole⟩
  · rintro (⟨here, whole⟩ | ⟨r, paired, rfl⟩)
    · exact ⟨a, here, collapsed_other whole⟩
    · exact ⟨_, (halves_mem paired).1, collapsed_delete distinct paired⟩

end

def Action.ends : Action → List WirePath
  | .rename «from» «to» => [«from», «to»]
  | _ => []

structure Collapsed (entries : Entries) (remote : List RemoteFile) (actions : List Action)
    (moves : List Rename) (plan : List Action) : Prop where
  paired : ∀ r ∈ moves, .delete r.from ∈ actions ∧ .fetch r.to ∈ actions ∧
    entries[r.from]?.map IndexEntry.content = some r.hash ∧
    (collect (remote.map fun f => (f.path, f.content)))[r.to]? = some r.hash ∧ r.hash ≠ ""
  disjoint : (halves moves).Nodup
  renamed : ∀ r ∈ moves, r.action ∈ plan
  once : (plan.flatMap (parts moves)).Perm actions
  order : plan.filter (· ∉ moves.map Rename.action) = actions.filter (· ∉ halves moves)
  single : (plan.flatMap Action.ends).Nodup

theorem collapsed_collapseRenames {entries : Entries} {remote : List RemoteFile} {actions : List Action}
    (distinct : (actions.flatMap Action.paths).Nodup) :
    Collapsed entries remote actions (renames entries remote actions)
      (collapseRenames entries remote actions) where
  paired := fun _ mem => ⟨(halves_mem mem).1, (halves_mem mem).2, content_of_rename mem⟩
  disjoint := by
    have froms : (renames entries remote actions).Nodup := List.Nodup.of_map _ (nodup_from distinct)
    refine List.nodup_flatMap.mpr ⟨fun r _ => by simp [Rename.halves], ?_⟩
    refine froms.imp_of_mem fun {r r'} mem mem' differ a side side' => ?_
    rcases List.mem_cons.mp side with rfl | side
    · rcases List.mem_cons.mp side' with same | side'
      · exact differ (rename_of_from distinct mem' mem (Action.delete.inj same))
      · cases List.mem_singleton.mp side'
    · obtain rfl := List.mem_singleton.mp side
      rcases List.mem_cons.mp side' with same | side'
      · cases same
      · exact differ (rename_of_to distinct mem' mem (Action.fetch.inj (List.mem_singleton.mp side')))
  renamed := fun r mem => (mem_collapseRenames distinct).mpr (.inr ⟨r, mem, rfl⟩)
  once := parts_perm distinct
  order := others_in_order distinct
  single := by
    have paths : ((collapseRenames entries remote actions).flatMap Action.paths).Nodup :=
      (flatMap_collapse_perm distinct fun _ _ => rfl).nodup_iff.mpr distinct
    refine paths.sublist (List.Sublist.flatMap_right _ fun a _ => ?_)
    cases a with
    | rename src dst => exact List.Sublist.refl _
    | _ => exact List.nil_sublist _

end PeerBeam.Sync
