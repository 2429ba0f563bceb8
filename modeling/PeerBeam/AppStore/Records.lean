import PeerBeam.AppStore.Files
import PeerBeam.Sync.Namespaces

/-! What a store holds after any run of puts, deletes and clears, and the records of synced folders in it. -/
namespace PeerBeam.AppStore

inductive Op (Nonce : Type)
  | put (name key : String) (value : Bytes) (nonce : Nonce) (pid seq : ℕ) (faults : PutFaults)
  | delete (name key : String) (fault : Option String)
  | clear (name : String) (fault : Option (List String × String))

/-- The values that were put and not deleted since. -/
abbrev Kept := String → String → Option Bytes

/-- A call that succeeds settles what is kept; a clear that fails deletes what it has removed. -/
def Op.settle {Nonce : Type} (kept : Kept) : Op Nonce → Bool → Kept
  | .put name key value .., true => Function.update kept name (Function.update (kept name) key (some value))
  | .delete name key _, true => Function.update kept name (Function.update (kept name) key none)
  | .clear name _, true => Function.update kept name fun _ => none
  | .clear name (some (removed, _)), false =>
    Function.update kept name fun key => if fileName key ∈ removed then none else kept name key
  | _, false => kept

section
variable {Nonce : Type} (enc : EncryptionProvider Nonce) (root : Loc)

def perform (d : Disk) : Op Nonce → Disk × Bool
  | .put name key value nonce pid seq faults =>
    let done := put enc root d name key value nonce pid seq faults
    (done.1, done.2.isOk)
  | .delete name key fault =>
    let done := delete root d name key fault
    (done.1, done.2.isOk)
  | .clear name fault =>
    let done := clear root d name fault
    (done.1, done.2.isOk)

/-- A run from an empty root, with what is put and not deleted. -/
def run (ops : List (Op Nonce)) : Disk × Kept :=
  ops.foldl (fun s op => ((perform enc root s.1 op).1, op.settle s.2 (perform enc root s.1 op).2))
    (fun _ => none, fun _ _ => none)

end

/-- The files of a directory are the records of what is kept, and files that are no records. -/
structure Reflects {Nonce : Type} (enc : EncryptionProvider Nonce) (files : List (String × Bytes))
    (kept : String → Option Bytes) : Prop where
  distinct : (files.map Prod.fst).Nodup
  record : ∀ f ∈ files, '.' ∈ f.1.toList ∨
    ∃ key value, f.1 = fileName key ∧ kept key = some value ∧ enc.open f.2 = .ok value
  stored : ∀ key value, kept key = some value → fileName key ∈ files.map Prod.fst

namespace Reflects
variable {Nonce : Type} {enc : EncryptionProvider Nonce} {files : List (String × Bytes)} {kept : String → Option Bytes}

theorem empty : Reflects enc [] fun _ => none := ⟨List.nodup_nil, nofun, nofun⟩

theorem filter (reflects : Reflects enc files kept) {p : String → Bool} {kept' : String → Option Bytes}
    (same : ∀ key, kept' key = if p (fileName key) then kept key else none) :
    Reflects enc (files.filter fun f => p f.1) kept' where
  distinct := reflects.distinct.sublist (List.filter_sublist.map Prod.fst)
  record f mem := by
    obtain ⟨here, keeps⟩ := List.mem_filter.mp mem
    refine (reflects.record f here).imp_right ?_
    rintro ⟨key, value, named, held, opens⟩
    refine ⟨key, value, named, ?_, opens⟩
    rw [named] at keeps
    rw [same, if_pos keeps, held]
  stored key value held := by
    rw [same] at held
    split at held
    · next keeps =>
      obtain ⟨f, mem, named⟩ := List.mem_map.mp (reflects.stored key value held)
      refine List.mem_map.mpr ⟨f, List.mem_filter.mpr ⟨mem, ?_⟩, named⟩
      rw [named]
      exact keeps
    · cases held

theorem cons (reflects : Reflects enc files kept) {f : String × Bytes} (new : f.1 ∉ files.map Prod.fst)
    {kept' : String → Option Bytes}
    (record : '.' ∈ f.1.toList ∨ ∃ key value, f.1 = fileName key ∧ kept' key = some value ∧ enc.open f.2 = .ok value)
    (grown : ∀ key value, kept key = some value → kept' key = some value)
    (stored : ∀ key value, kept' key = some value → f.1 = fileName key ∨ kept key = some value) :
    Reflects enc (f :: files) kept' where
  distinct := by
    rw [List.map_cons]
    exact List.nodup_cons.mpr ⟨new, reflects.distinct⟩
  record g mem := by
    rcases List.mem_cons.mp mem with rfl | mem
    · exact record
    · refine (reflects.record g mem).imp_right ?_
      rintro ⟨key, value, named, held, opens⟩
      exact ⟨key, value, named, grown key value held, opens⟩
  stored key value held := by
    rw [List.map_cons]
    rcases stored key value held with named | before
    · exact named ▸ List.mem_cons_self
    · exact List.mem_cons_of_mem _ (reflects.stored key value before)

/-- What a file takes the place of is gone. -/
theorem others (file : String) : file ∉ (files.filter (·.1 ≠ file)).map Prod.fst := by
  intro mem
  obtain ⟨f, here, same⟩ := List.mem_map.mp mem
  simpa [same] using (List.mem_filter.mp here).2

/-- A temp file that is left is no record. -/
theorem leave (reflects : Reflects enc files kept) {file : String} (dot : '.' ∈ file.toList) (bytes : Bytes) :
    Reflects enc ((file, bytes) :: files.filter (·.1 ≠ file)) kept := by
  have rest : Reflects enc (files.filter (·.1 ≠ file)) kept := by
    refine reflects.filter (p := fun name => decide (name ≠ file)) fun key => ?_
    rw [if_pos]
    exact decide_eq_true fun same => no_dot_fileName key (same ▸ dot)
  exact rest.cons (others file) (.inl dot) (fun _ _ held => held) fun _ _ held => .inr held

/-- A record takes the place of an older one of its key. -/
theorem put (reflects : Reflects enc files kept) (key : String) {value sealed : Bytes}
    (opens : enc.open sealed = .ok value) :
    Reflects enc ((fileName key, sealed) :: files.filter (·.1 ≠ fileName key)) (Function.update kept key (some value)) := by
  have rest : Reflects enc (files.filter (·.1 ≠ fileName key)) (Function.update kept key none) := by
    refine reflects.filter (p := fun name => decide (name ≠ fileName key)) fun other => ?_
    rw [Function.update_apply]
    by_cases same : other = key
    · simp [same]
    · simp [same, fileName_injective.ne same]
  refine rest.cons (others _) (.inr ⟨key, value, rfl, Function.update_self .., opens⟩) ?_ ?_
  · intro other held kept_
    rw [Function.update_apply] at kept_ ⊢
    split at kept_
    · cases kept_
    · next different => rwa [if_neg different]
  · intro other held kept_
    rw [Function.update_apply] at kept_
    rw [Function.update_apply]
    split at kept_
    · next same => exact .inl (by rw [same])
    · next different => exact .inr (by rwa [if_neg different])

theorem erase (reflects : Reflects enc files kept) (key : String) :
    Reflects enc (files.filter (·.1 ≠ fileName key)) (Function.update kept key none) := by
  refine reflects.filter (p := fun name => decide (name ≠ fileName key)) fun other => ?_
  rw [Function.update_apply]
  by_cases same : other = key
  · simp [same]
  · simp [same, fileName_injective.ne same]

end Reflects

theorem files_createDirAll (d : Disk) (dir : Loc) : (d.createDirAll dir).files dir = d.files dir := by
  rw [Disk.files, Disk.createDirAll, Function.update_self, Option.getD_some]

theorem files_set (d : Disk) (dir : Loc) (file : String) (bytes : Bytes) :
    (d.set dir file bytes).files dir = (file, bytes) :: (d.files dir).filter (·.1 ≠ file) := by
  rw [Disk.files, Disk.set, Function.update_self, Option.getD_some]

/-- A write touched one directory: the record was set, or a temp file is left there at most. -/
structure Wrote (d : Disk) (dir : Loc) (file : String) (sealed : Bytes) (tmp : String)
    (out : Disk × Except StoreError Unit) : Prop where
  off : ∀ other, other ≠ dir → out.1 other = d other
  files : out.2.isOk = false ∧ (out.1.files dir = d.files dir ∨
      ∃ bytes, out.1.files dir = (tmp, bytes) :: (d.files dir).filter (·.1 ≠ tmp)) ∨
    out.2.isOk = true ∧ out.1.files dir = (file, sealed) :: (d.files dir).filter (·.1 ≠ file)

section
variable {d here : Disk} {dir : Loc} {file tmp : String} {sealed : Bytes}

theorem wrote_commit (off : ∀ other, other ≠ dir → here other = d other) (same : here.files dir = d.files dir)
    (faults : PutFaults) : Wrote d dir file sealed tmp (commit here dir file sealed tmp faults) := by
  have set_off (name : String) (bytes : Bytes) (other : Loc) (apart : other ≠ dir) :
      here.set dir name bytes other = d other := by
    rw [Disk.set, Function.update_of_ne apart, off other apart]
  have set_files (name : String) (bytes : Bytes) :
      (here.set dir name bytes).files dir = (name, bytes) :: (d.files dir).filter (·.1 ≠ name) := by
    rw [files_set, same]
  rw [commit]
  split
  · next left e _ =>
    cases left with
    | none => exact ⟨off, .inl ⟨rfl, .inl same⟩⟩
    | some bytes => exact ⟨set_off tmp bytes, .inl ⟨rfl, .inr ⟨bytes, set_files tmp bytes⟩⟩⟩
  · split
    · next left e _ =>
      cases left with
      | false => exact ⟨off, .inl ⟨rfl, .inl same⟩⟩
      | true => exact ⟨set_off tmp sealed, .inl ⟨rfl, .inr ⟨sealed, set_files tmp sealed⟩⟩⟩
    · split
      · exact ⟨off, .inl ⟨rfl, .inl same⟩⟩
      · exact ⟨set_off file sealed, .inr ⟨rfl, set_files file sealed⟩⟩

theorem wrote_write (d : Disk) (dir : Loc) (file : String) (sealed : Bytes) (tmp : String) (faults : PutFaults) :
    Wrote d dir file sealed tmp (write d dir file sealed tmp faults) := by
  rw [write]
  split
  · exact ⟨fun _ _ => rfl, .inl ⟨rfl, .inl rfl⟩⟩
  · generalize made : (if file = "" then d else d.createDirAll dir) = here
    have same : here.files dir = d.files dir := by
      rw [← made]
      split
      · rfl
      · exact files_createDirAll d dir
    have off (other : Loc) (apart : other ≠ dir) : here other = d other := by
      rw [← made]
      split
      · rfl
      · exact Function.update_of_ne apart ..
    dsimp only
    split
    · exact ⟨off, .inl ⟨rfl, .inl same⟩⟩
    · split
      · exact ⟨off, .inl ⟨rfl, .inl same⟩⟩
      · split
        · exact ⟨off, .inl ⟨rfl, .inl same⟩⟩
        · exact wrote_commit off same _

end

section
variable {Nonce : Type} {enc : EncryptionProvider Nonce} {root : Loc} {d : Disk} {kept : Kept}

structure Settled (enc : EncryptionProvider Nonce) (root : Loc) (d : Disk) (kept : Kept) : Prop where
  valid : ∀ name dir, namespaceDir root name = .ok dir → Reflects enc (d.files dir) (kept name)
  invalid : ∀ name e, namespaceDir root name = .error e → ∀ key, kept name key = none

/-- A call on one directory leaves the other namespaces as they are. -/
theorem Settled.update (settled : Settled enc root d kept) {name : String} {dir : Loc}
    (made : namespaceDir root name = .ok dir) {d' : Disk} (off : ∀ other, other ≠ dir → d' other = d other)
    {held : String → Option Bytes} (reflects : Reflects enc (d'.files dir) held) :
    Settled enc root d' (Function.update kept name held) where
  valid other dir' made' := by
    by_cases same : other = name
    · subst same
      cases made.symm.trans made'
      rwa [Function.update_self]
    · have apart : dir' ≠ dir := by
        intro eq
        have places := (namespaceDir_eq_ok made').1.symm.trans (eq.trans (namespaceDir_eq_ok made).1)
        exact same (by simpa using places)
      rw [Function.update_of_ne same, Disk.files, off dir' apart]
      exact settled.valid other dir' made'
  invalid other e refused := by
    have different : other ≠ name := by
      rintro rfl
      cases made.symm.trans refused
    rw [Function.update_of_ne different]
    exact settled.invalid other e refused

/-- What a call that fails leaves. -/
theorem Settled.left (settled : Settled enc root d kept) {name : String} {dir : Loc}
    (made : namespaceDir root name = .ok dir) {d' : Disk} (off : ∀ other, other ≠ dir → d' other = d other)
    (reflects : Reflects enc (d'.files dir) (kept name)) : Settled enc root d' kept := by
  have same := settled.update made off reflects
  rwa [Function.update_eq_self] at same

theorem Settled.put (opens : enc.Opens) (settled : Settled enc root d kept) (name key : String) (value : Bytes)
    (nonce : Nonce) (pid seq : ℕ) (faults : PutFaults) :
    Settled enc root (perform enc root d (.put name key value nonce pid seq faults)).1
      (Op.settle kept (.put name key value nonce pid seq faults)
        (perform enc root d (.put name key value nonce pid seq faults)).2) := by
  rw [perform, AppStore.put]
  cases made : namespaceDir root name with
  | error e => exact settled
  | ok dir =>
    have reflects := settled.valid name dir made
    cases closed : enc.seal nonce value with
    | error e => exact settled
    | ok sealed =>
      dsimp only
      obtain ⟨off, ⟨failed, left⟩ | ⟨done, files⟩⟩ :=
        wrote_write d dir (fileName key) sealed (uniqueTmp (fileName key) pid seq) faults
      · rw [failed]
        refine settled.left made off ?_
        rcases left with same | ⟨bytes, files⟩
        · rwa [same]
        · rw [files]
          exact reflects.leave (dot_uniqueTmp ..) bytes
      · rw [done]
        refine settled.update made off ?_
        rw [files]
        exact reflects.put key (opens nonce value sealed closed)

/-- A removal fails and changes nothing, finds nothing, or takes the file away. -/
theorem delete_cases {name : String} {dir : Loc} (made : namespaceDir root name = .ok dir) (key : String)
    (fault : Option String) :
    ((delete root d name key fault).2.isOk = false ∧ (delete root d name key fault).1 = d) ∨
    (delete root d name key fault).2.isOk = true ∧
      (fileName key ∉ (d.files dir).map Prod.fst ∧ (delete root d name key fault).1 = d ∨
        (delete root d name key fault).1 = d.erase dir (fileName key)) := by
  rw [AppStore.delete, made]
  dsimp only
  split
  · exact .inl ⟨rfl, rfl⟩
  · split
    · next absent =>
      refine .inr ⟨rfl, .inl ⟨?_, rfl⟩⟩
      rw [Disk.files, absent]
      exact List.not_mem_nil
    · next files there =>
      have listed : d.files dir = files := by rw [Disk.files, there, Option.getD_some]
      split
      · exact .inl ⟨rfl, rfl⟩
      · split
        · exact .inr ⟨rfl, .inr rfl⟩
        · next out => exact .inr ⟨rfl, .inl ⟨listed ▸ out, rfl⟩⟩

theorem Settled.delete (settled : Settled enc root d kept) (name key : String) (fault : Option String) :
    Settled enc root (perform enc root d (.delete name key fault)).1
      (Op.settle kept (.delete name key fault : Op Nonce) (perform enc root d (.delete name key fault)).2) := by
  rw [perform]
  cases made : namespaceDir root name with
  | error e =>
    rw [AppStore.delete, made]
    exact settled
  | ok dir =>
    have reflects := settled.valid name dir made
    dsimp only
    rcases delete_cases made key fault with ⟨failed, same⟩ | ⟨done, ⟨absent, same⟩ | same⟩
    · rw [failed, same]
      exact settled
    · rw [done, same]
      refine settled.update made (fun _ _ => rfl) ?_
      have gone : kept name key = none := by
        cases held : kept name key with
        | none => rfl
        | some value => exact absurd (reflects.stored key value held) absent
      rwa [← gone, Function.update_eq_self]
    · rw [done, same]
      refine settled.update made (fun other apart => by rw [Disk.erase, Function.update_of_ne apart]) ?_
      rw [Disk.files, Disk.erase, Function.update_self, Option.getD_some]
      exact reflects.erase key

theorem Settled.clear (settled : Settled enc root d kept) (name : String) (fault : Option (List String × String)) :
    Settled enc root (perform enc root d (.clear name fault)).1
      (Op.settle kept (.clear name fault : Op Nonce) (perform enc root d (.clear name fault)).2) := by
  rw [perform]
  cases made : namespaceDir root name with
  | error e =>
    rw [AppStore.clear, made]
    cases fault with
    | none => exact settled
    | some fault =>
      -- nothing is kept under a name that is no namespace
      have same : (Function.update kept name fun key => if fileName key ∈ fault.1 then none else kept name key) = kept := by
        rw [Function.update_eq_self_iff]
        funext key
        rw [settled.invalid name e made key, ite_self]
      show Settled enc root d (Function.update kept name _)
      rwa [same]
  | ok dir =>
    have reflects := settled.valid name dir made
    rw [AppStore.clear, made]
    cases fault with
    | none =>
      have files : Disk.files (Function.update d dir none) dir = [] := by
        rw [Disk.files, Function.update_self, Option.getD_none]
      refine settled.update made (fun other apart => Function.update_of_ne apart ..) ?_
      dsimp only
      rw [files]
      exact .empty
    | some fault =>
      have files : Disk.files (Function.update d dir ((d dir).map fun files => files.filter (·.1 ∉ fault.1))) dir =
          (d.files dir).filter (·.1 ∉ fault.1) := by
        rw [Disk.files, Function.update_self, Disk.files]
        cases d dir <;> rfl
      refine settled.update made (fun other apart => Function.update_of_ne apart ..) ?_
      dsimp only
      rw [files]
      refine reflects.filter (p := fun name => decide (name ∉ fault.1)) fun key => ?_
      by_cases removed : fileName key ∈ fault.1 <;> simp [removed]

theorem Settled.perform (opens : enc.Opens) (settled : Settled enc root d kept) (op : Op Nonce) :
    Settled enc root (perform enc root d op).1 (op.settle kept (perform enc root d op).2) := by
  cases op with
  | put name key value nonce pid seq faults => exact settled.put opens name key value nonce pid seq faults
  | delete name key fault => exact settled.delete name key fault
  | clear name fault => exact settled.clear name fault

def row (enc : EncryptionProvider Nonce) (f : String × Bytes) : Option (String × Bytes) :=
  (recordKey f.1).bind fun key => (enc.open f.2).toOption.map (key, ·)

theorem row_eq_some {f r : String × Bytes} :
    row enc f = some r ↔ recordKey f.1 = some r.1 ∧ enc.open f.2 = .ok r.2 := by
  rw [row, Option.bind_eq_some_iff]
  constructor
  · rintro ⟨key, named, later⟩
    obtain ⟨value, opened, rfl⟩ := Option.map_eq_some_iff.mp later
    refine ⟨named, ?_⟩
    cases opens : enc.open f.2 with
    | error e =>
      rw [opens] at opened
      cases opened
    | ok value' =>
      rw [opens] at opened
      rw [Option.some.inj opened]
  · rintro ⟨named, opens⟩
    exact ⟨r.1, named, by rw [opens]; rfl⟩

theorem collect_eq {files : List (String × Bytes)}
    (opens : ∀ f ∈ files, ∀ key, recordKey f.1 = some key → ∃ value, enc.open f.2 = .ok value)
    (out : List (String × Bytes)) : collect enc files out = .ok (out ++ files.filterMap (row enc)) := by
  induction files generalizing out with
  | nil => rw [collect, List.filterMap_nil, List.append_nil]
  | cons f files ih =>
    have rest := ih fun g mem => opens g (List.mem_cons_of_mem _ mem)
    rw [collect]
    cases named : recordKey f.1 with
    | none =>
      have none_ : row enc f = none := by rw [row, named, Option.bind_none]
      dsimp only
      rw [rest, List.filterMap_cons_none none_]
    | some key =>
      obtain ⟨value, opened⟩ := opens f List.mem_cons_self key named
      have some_ : row enc f = some (key, value) := row_eq_some.mpr ⟨named, opened⟩
      dsimp only
      rw [opened]
      dsimp only
      rw [rest, List.filterMap_cons_some some_, List.append_assoc, List.singleton_append]

namespace Reflects
variable {files : List (String × Bytes)} {held : String → Option Bytes}

theorem record_of_key (reflects : Reflects enc files held) {f : String × Bytes} (mem : f ∈ files) {key : String}
    (named : recordKey f.1 = some key) :
    f.1 = fileName key ∧ ∃ value, held key = some value ∧ enc.open f.2 = .ok value := by
  rcases reflects.record f mem with dot | ⟨key', value, same, kept, opens⟩
  · rw [recordKey_of_dot dot] at named
    cases named
  · rw [same, recordKey_fileName] at named
    cases named
    exact ⟨same, value, kept, opens⟩

/-- The rows of a directory are what is kept. -/
theorem mem_rows (reflects : Reflects enc files held) (key : String) (value : Bytes) :
    (key, value) ∈ files.filterMap (row enc) ↔ held key = some value := by
  rw [List.mem_filterMap]
  constructor
  · rintro ⟨f, mem, made⟩
    obtain ⟨named, opened⟩ := row_eq_some.mp made
    obtain ⟨-, value', kept, opens⟩ := reflects.record_of_key mem named
    cases opens.symm.trans opened
    exact kept
  · intro kept
    obtain ⟨f, mem, same⟩ := List.mem_map.mp (reflects.stored key value kept)
    have named : recordKey f.1 = some key := by rw [same, recordKey_fileName]
    obtain ⟨-, value', kept', opens⟩ := reflects.record_of_key mem named
    cases kept'.symm.trans kept
    exact ⟨f, mem, row_eq_some.mpr ⟨named, opens⟩⟩

/-- Each key has one row. -/
theorem rows_distinct (reflects : Reflects enc files held) : ((files.filterMap (row enc)).map Prod.fst).Nodup := by
  have below {part : List (String × Bytes)} (inside : ∀ f ∈ part, f ∈ files) :
      ((part.filterMap (row enc)).map fun r => fileName r.1).Sublist (part.map Prod.fst) := by
    induction part with
    | nil => exact .slnil
    | cons f part ih =>
      have rest := ih fun g mem => inside g (List.mem_cons_of_mem _ mem)
      cases made : row enc f with
      | none =>
        rw [List.filterMap_cons_none made]
        exact rest.cons _
      | some r =>
        have same := (reflects.record_of_key (inside f List.mem_cons_self) (row_eq_some.mp made).1).1
        rw [List.filterMap_cons_some made, List.map_cons, List.map_cons, ← same]
        exact rest.cons_cons _
  have files_distinct := reflects.distinct.sublist (below fun _ mem => mem)
  rw [← Function.comp_def, ← List.map_map] at files_distinct
  exact files_distinct.of_map

end Reflects

theorem fileName_ne_empty {key : String} (some_ : key ≠ "") : fileName key ≠ "" := by
  intro same
  have empty : fileName "" = "" := by decide +kernel
  exact some_ (fileName_injective (same.trans empty.symm))

/-- A key other than the empty one reads what is kept under it. -/
theorem Settled.get (settled : Settled enc root d kept) {name : String} {dir : Loc}
    (made : namespaceDir root name = .ok dir) {key : String} (some_ : key ≠ "") :
    get enc root d name key none = .ok (kept name key) := by
  have reflects := settled.valid name dir made
  rw [AppStore.get, made]
  dsimp only
  cases there : d dir with
  | none =>
    have files : d.files dir = [] := by rw [Disk.files, there, Option.getD_none]
    cases held : kept name key with
    | none => rfl
    | some value =>
      have listed := reflects.stored key value held
      rw [files] at listed
      cases listed
  | some files =>
    have same : d.files dir = files := by rw [Disk.files, there, Option.getD_some]
    rw [same] at reflects
    dsimp only
    rw [if_neg (fileName_ne_empty some_)]
    cases found : files.find? (·.1 = fileName key) with
    | none =>
      cases held : kept name key with
      | none => rfl
      | some value =>
        obtain ⟨f, mem, named⟩ := List.mem_map.mp (reflects.stored key value held)
        exact absurd (decide_eq_true named) (List.find?_eq_none.mp found f mem)
    | some f =>
      have named : f.1 = fileName key := by simpa using List.find?_some found
      have key_ : recordKey f.1 = some key := by rw [named, recordKey_fileName]
      obtain ⟨-, value, held, opened⟩ := reflects.record_of_key (List.mem_of_find?_eq_some found) key_
      dsimp only
      rw [opened, held]

/-- A listing has one row for each key that is kept, in their order. -/
theorem Settled.list (settled : Settled enc root d kept) {name : String} {dir : Loc}
    (made : namespaceDir root name = .ok dir) :
    ∃ rows, list enc root d name = .ok rows ∧ rows.Pairwise (·.1 < ·.1) ∧
      ∀ key value, (key, value) ∈ rows ↔ kept name key = some value := by
  have reflects := settled.valid name dir made
  have opens : ∀ f ∈ d.files dir, ∀ key, recordKey f.1 = some key → ∃ value, enc.open f.2 = .ok value := by
    intro f mem key named
    obtain ⟨-, value, -, opened⟩ := reflects.record_of_key mem named
    exact ⟨value, opened⟩
  have perm := List.mergeSort_perm ((d.files dir).filterMap (row enc)) fun a b => decide (a.1 ≤ b.1)
  refine ⟨_, by rw [AppStore.list, made]; dsimp only; rw [collect_eq opens]; rfl, ?_, fun key value => ?_⟩
  · have trans (a b c : String × Bytes) (ab : decide (a.1 ≤ b.1) = true) (bc : decide (b.1 ≤ c.1) = true) :
        decide (a.1 ≤ c.1) = true := decide_eq_true ((of_decide_eq_true ab).trans (of_decide_eq_true bc))
    have total (a b : String × Bytes) : (decide (a.1 ≤ b.1) || decide (b.1 ≤ a.1)) = true := by
      simpa using le_total a.1 b.1
    have sorted := List.pairwise_mergeSort trans total ((d.files dir).filterMap (row enc))
    have distinct := List.pairwise_map.mp ((perm.map Prod.fst).nodup_iff.mpr reflects.rows_distinct)
    exact (sorted.and distinct).imp fun both => lt_of_le_of_ne (of_decide_eq_true both.1) both.2
  · rw [List.nil_append, perm.mem_iff]
    exact reflects.mem_rows key value

end

def clearText : EncryptionProvider (Vector UInt8 12) where
  «seal» nonce value := .ok (nonce.toList ++ value)
  «open» sealed := .ok (sealed.drop 12)

theorem clearText_opens : clearText.Opens := by
  intro nonce value sealed closed
  cases closed
  rw [clearText]
  simp

end PeerBeam.AppStore
