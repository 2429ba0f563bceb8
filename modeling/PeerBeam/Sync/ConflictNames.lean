import PeerBeam.Sync.Reconcile

/-! The name of a conflict copy: where the mark goes, which directory that leaves it in, and that
two files of one peer never share it. -/
namespace PeerBeam.Sync

def conflictMark (peer : String) : WirePath := ".sync-conflict-".toList ++ peer.toList

/-- A dot past the first character, with no slash behind it, starts an extension. -/
def Extended (path : WirePath) : Prop :=
  ∃ stem after, path = stem ++ '.' :: after ∧ stem ≠ [] ∧ '.' ∉ after ∧ '/' ∉ after

section Mark
variable {peer : String}

theorem conflictMark_head (peer : String) : ∃ rest, conflictMark peer = '.' :: rest := by
  have start : ".sync-conflict-".toList = '.' :: "sync-conflict-".toList := by decide +kernel
  exact ⟨"sync-conflict-".toList ++ peer.toList, congrArg (· ++ peer.toList) start⟩

theorem slash_mem_conflictMark : '/' ∈ conflictMark peer ↔ '/' ∈ peer.toList := by
  have flat : '/' ∉ ".sync-conflict-".toList := by decide +kernel
  exact List.mem_append.trans (or_iff_right flat)

theorem conflictName_eq {path after : WirePath} (found : path.reverse.takeWhile (· ≠ '.') = after) :
    conflictName path peer =
      if after.length < path.length ∧ 0 < path.length - after.length - 1 ∧ '/' ∉ after then
        path.take (path.length - after.length - 1) ++ conflictMark peer ++
          path.drop (path.length - after.length - 1)
      else path ++ conflictMark peer := by
  unfold conflictName conflictMark
  generalize ".sync-conflict-".toList = start
  rw [found]
  dsimp only
  split
  · rw [← List.append_assoc]
  · rw [List.append_nil, List.append_assoc]

theorem last_of_mem {α : Type*} {c : α} {xs : List α} (mem : c ∈ xs) :
    ∃ before after, xs = before ++ c :: after ∧ c ∉ after := by
  induction xs with
  | nil => cases mem
  | cons x xs ih =>
    by_cases later : c ∈ xs
    · obtain ⟨before, after, rfl, last⟩ := ih later
      exact ⟨x :: before, after, rfl, last⟩
    · obtain rfl | here := List.mem_cons.mp mem
      · exact ⟨[], xs, rfl, later⟩
      · exact absurd here later

theorem extended_of_dot {stem after : WirePath} (named : stem ≠ []) (flat : '/' ∉ after) :
    Extended (stem ++ '.' :: after) := by
  by_cases more : '.' ∈ after
  · obtain ⟨before, last, rfl, plain⟩ := last_of_mem more
    refine ⟨stem ++ '.' :: before, last, ?_, ?_, plain, fun slash => flat ?_⟩
    · rw [List.append_assoc, List.cons_append]
    · exact List.append_ne_nil_of_left_ne_nil named _
    · exact List.mem_append_right _ (List.mem_cons_of_mem _ slash)
  · exact ⟨stem, after, rfl, named, more, flat⟩

private theorem takeWhile_dot {before after : WirePath} (plain : '.' ∉ after) :
    (before ++ '.' :: after).reverse.takeWhile (· ≠ '.') = after.reverse := by
  have kept : ∀ c ∈ after.reverse, decide (c ≠ '.') = true := by
    intro c mem
    exact decide_eq_true fun same => plain (same ▸ List.mem_reverse.mp mem)
  rw [List.reverse_append, List.reverse_cons, List.append_assoc, List.takeWhile_append_of_pos kept]
  simp

/-- The mark goes before the extension. -/
theorem conflictName_extended {stem after : WirePath} (named : stem ≠ []) (plain : '.' ∉ after)
    (flat : '/' ∉ after) :
    conflictName (stem ++ '.' :: after) peer = stem ++ conflictMark peer ++ '.' :: after := by
  have filled : 0 < stem.length := List.length_pos_iff.mpr named
  have position : (stem ++ '.' :: after).length - after.reverse.length - 1 = stem.length := by
    simp only [List.length_append, List.length_cons, List.length_reverse]
    omega
  have holds : after.reverse.length < (stem ++ '.' :: after).length ∧ 0 < stem.length ∧
      '/' ∉ after.reverse := by
    refine ⟨?_, filled, fun slash => flat (List.mem_reverse.mp slash)⟩
    simp only [List.length_append, List.length_cons, List.length_reverse]
    omega
  rw [conflictName_eq (takeWhile_dot plain), position, if_pos holds, List.take_left, List.drop_left]

/-- Without an extension it goes to the end. -/
theorem conflictName_plain {path : WirePath} (none : ¬ Extended path) :
    conflictName path peer = path ++ conflictMark peer := by
  by_cases dotted : '.' ∈ path
  · obtain ⟨before, after, rfl, plain⟩ := last_of_mem dotted
    rw [conflictName_eq (takeWhile_dot plain), if_neg]
    rintro ⟨-, filled, flat⟩
    apply none
    refine extended_of_dot ?_ fun slash => flat (List.mem_reverse.mpr slash)
    rintro rfl
    simp at filled
  · have all : path.reverse.takeWhile (· ≠ '.') = path.reverse := by
      apply List.takeWhile_eq_self_iff.mpr
      intro c mem
      exact decide_eq_true fun same => dotted (same ▸ List.mem_reverse.mp mem)
    rw [conflictName_eq all, if_neg fun holds => ?_]
    rw [List.length_reverse] at holds
    exact Nat.lt_irrefl _ holds.1

theorem eq_of_last {α : Type*} {c : α} {before before' after after' : List α}
    (same : before ++ c :: after = before' ++ c :: after') (last : c ∉ after) (last' : c ∉ after') :
    before = before' ∧ after = after' := by
  rcases List.append_eq_append_iff.mp same with ⟨more, rfl, tail⟩ | ⟨more, rfl, tail⟩
  · cases more with
    | nil => exact ⟨(List.append_nil _).symm, (List.cons.inj tail).2⟩
    | cons d more =>
      refine absurd ?_ last
      rw [(List.cons.inj tail).2]
      exact List.mem_append_right _ List.mem_cons_self
  · cases more with
    | nil => exact ⟨List.append_nil _, (List.cons.inj tail).2.symm⟩
    | cons d more =>
      refine absurd ?_ last'
      rw [(List.cons.inj tail).2]
      exact List.mem_append_right _ List.mem_cons_self

/-- A name that is marked at its end has an extension where a marked one before it has. -/
private theorem eq_of_marked (flat : '/' ∉ peer.toList) {stem after path : WirePath} (named : stem ≠ [])
    (plain : '.' ∉ after) (none : ¬ Extended path)
    (same : stem ++ conflictMark peer ++ '.' :: after = path ++ conflictMark peer) :
    stem ++ '.' :: after = path := by
  obtain ⟨rest, marked⟩ := conflictMark_head peer
  have unslashed : '/' ∉ conflictMark peer := fun slash => flat (slash_mem_conflictMark.mp slash)
  rcases List.append_eq_append_iff.mp same with ⟨more, rfl, tail⟩ | ⟨more, split, tail⟩
  · cases more with
    | nil => rw [List.append_nil, tail, List.nil_append]
    | cons c more =>
      refine absurd ?_ plain
      rw [(List.cons.inj tail).2, marked]
      exact List.mem_append_right _ List.mem_cons_self
  · -- the mark overlaps itself: what precedes it in the longer name starts an extension
    have shorter : more.length < (conflictMark peer).length := by
      rw [tail, List.length_append, List.length_cons]
      omega
    rcases List.append_eq_append_iff.mp split with ⟨front, rfl, overlap⟩ | ⟨front, rfl, overlap⟩
    · cases front with
      | nil =>
        rw [overlap, List.nil_append] at shorter
        exact absurd shorter (Nat.lt_irrefl _)
      | cons c front =>
        rw [marked] at overlap
        rw [← (List.cons.inj overlap).1] at none
        refine absurd (extended_of_dot named fun slash => unslashed ?_) none
        rw [marked, (List.cons.inj overlap).2]
        exact List.mem_cons_of_mem _ (List.mem_append_left _ slash)
    · rw [overlap, List.length_append] at shorter
      omega

/-- A peer without a slash in its name gives different files different copies. -/
theorem conflictName_injective (flat : '/' ∉ peer.toList) :
    Function.Injective fun path => conflictName path peer := by
  intro path path' (same : conflictName path peer = conflictName path' peer)
  by_cases extended : Extended path
  · obtain ⟨stem, after, rfl, named, plain, unslashed⟩ := extended
    rw [conflictName_extended named plain unslashed] at same
    by_cases extended' : Extended path'
    · obtain ⟨stem', after', rfl, named', plain', unslashed'⟩ := extended'
      rw [conflictName_extended named' plain' unslashed'] at same
      obtain ⟨stems, afters⟩ := eq_of_last same plain plain'
      rw [List.append_cancel_right stems, afters]
    · rw [conflictName_plain extended'] at same
      exact eq_of_marked flat named plain extended' same
  · rw [conflictName_plain extended] at same
    by_cases extended' : Extended path'
    · obtain ⟨stem', after', rfl, named', plain', unslashed'⟩ := extended'
      rw [conflictName_extended named' plain' unslashed'] at same
      exact (eq_of_marked flat named' plain' extended same.symm).symm
    · rw [conflictName_plain extended'] at same
      exact List.append_cancel_right same

def IsDirectory (dir : WirePath) : Prop := dir = [] ∨ ∃ parent, dir = parent ++ ['/']

/-- A path as its directory, and its file name cut before the extension. A leading dot starts none. -/
structure Cut (path dir stem ext : WirePath) : Prop where
  whole : path = dir ++ (stem ++ ext)
  directory : IsDirectory dir
  flat : '/' ∉ stem ++ ext
  extension : ext = [] ∧ '.' ∉ stem.tail ∨ stem ≠ [] ∧ ∃ after, ext = '.' :: after ∧ '.' ∉ after

/-- A hidden file below the root, with no extension. -/
def Hidden (dir stem ext : WirePath) : Prop := dir ≠ [] ∧ ext = [] ∧ '.' ∈ stem

def copyName (dir stem ext : WirePath) (peer : String) : WirePath := dir ++ (stem ++ conflictMark peer ++ ext)

variable {path dir stem ext : WirePath}

theorem exists_cut {name : WirePath} (directory : IsDirectory dir) (flat : '/' ∉ name) :
    ∃ stem ext, name = stem ++ ext ∧ Cut (dir ++ name) dir stem ext := by
  by_cases extended : Extended name
  · obtain ⟨stem, after, rfl, named, plain, -⟩ := extended
    exact ⟨stem, '.' :: after, rfl, rfl, directory, flat, .inr ⟨named, after, rfl, plain⟩⟩
  · refine ⟨name, [], (List.append_nil name).symm, ?_⟩
    refine ⟨by rw [List.append_nil], directory, by rwa [List.append_nil], .inl ⟨rfl, fun dotted => ?_⟩⟩
    cases name with
    | nil => cases dotted
    | cons c rest =>
      obtain ⟨before, after, rfl, -⟩ := last_of_mem (show '.' ∈ rest from dotted)
      have unslashed : '/' ∉ after := fun slash =>
        flat (List.mem_cons_of_mem _ (List.mem_append_right _ (List.mem_cons_of_mem _ slash)))
      exact extended (extended_of_dot (List.cons_ne_nil c before) unslashed)

theorem exists_directory (path : WirePath) :
    ∃ dir name, path = dir ++ name ∧ IsDirectory dir ∧ '/' ∉ name := by
  by_cases slashed : '/' ∈ path
  · obtain ⟨before, name, rfl, flat⟩ := last_of_mem slashed
    refine ⟨before ++ ['/'], name, ?_, .inr ⟨before, rfl⟩, flat⟩
    rw [List.append_assoc, List.singleton_append]
  · exact ⟨[], path, rfl, .inl rfl, slashed⟩

/-- Dots of a directory start no extension. -/
private theorem not_extended_of_plain {name : WirePath} (directory : IsDirectory dir) (plain : '.' ∉ name) :
    ¬ Extended (dir ++ name) := by
  rintro ⟨before, after, same, -, -, flat⟩
  rcases List.append_eq_append_iff.mp same with ⟨more, -, tail⟩ | ⟨more, split, tail⟩
  · apply plain
    rw [tail]
    exact List.mem_append_right _ List.mem_cons_self
  · cases more with
    | nil =>
      apply plain
      rw [← List.nil_append name, ← tail]
      exact List.mem_cons_self
    | cons c more =>
      rw [(List.cons.inj tail).2] at flat
      rw [← (List.cons.inj tail).1] at split
      rcases directory with rfl | ⟨parent, rfl⟩
      · simp at split
      · have ends := congrArg List.getLast? split
        cases more with
        | nil => simp at ends
        | cons d more =>
          have slash : '/' ∈ d :: more := by
            apply List.mem_of_getLast?
            simpa [List.getLast?_append] using ends.symm
          exact flat (List.mem_append_left _ slash)

/-- Where the mark of a cut path goes: a hidden file below the root has it before its name. -/
theorem Cut.conflictName_eq (cut : Cut path dir stem ext) :
    (Hidden dir stem ext → conflictName path peer = dir ++ (conflictMark peer ++ stem)) ∧
      (¬ Hidden dir stem ext → conflictName path peer = copyName dir stem ext peer) := by
  obtain ⟨rfl, directory, flat, ⟨rfl, plain⟩ | ⟨named, after, rfl, plain⟩⟩ := cut
  · rw [List.append_nil] at flat ⊢
    cases stem with
    | nil =>
      refine ⟨fun hidden => absurd hidden.2.2 List.not_mem_nil, fun _ => ?_⟩
      rw [conflictName_plain (not_extended_of_plain directory List.not_mem_nil), copyName]
      simp
    | cons c rest =>
      rw [List.tail_cons] at plain
      by_cases dotted : c = '.'
      · subst dotted
        by_cases root : dir = []
        · subst root
          refine ⟨fun hidden => absurd rfl hidden.1, fun _ => ?_⟩
          rw [conflictName_plain, copyName]
          · simp
          · rintro ⟨before, after, same, named, -, -⟩
            cases before with
            | nil => exact named rfl
            | cons d before =>
              apply plain
              rw [List.nil_append, List.cons_append] at same
              rw [(List.cons.inj same).2]
              exact List.mem_append_right _ List.mem_cons_self
        · refine ⟨fun _ => ?_, fun visible => absurd ⟨root, rfl, List.mem_cons_self⟩ visible⟩
          rw [conflictName_extended root plain fun slash => flat (List.mem_cons_of_mem _ slash),
            List.append_assoc]
      · have undotted : '.' ∉ c :: rest := by
          intro mem
          rcases List.mem_cons.mp mem with same | later
          · exact dotted same.symm
          · exact plain later
        refine ⟨fun hidden => absurd hidden.2.2 undotted, fun _ => ?_⟩
        rw [conflictName_plain (not_extended_of_plain directory undotted), copyName]
        simp
  · refine ⟨fun hidden => absurd hidden.2.1 (List.cons_ne_nil _ _), fun _ => ?_⟩
    rw [← List.append_assoc, conflictName_extended (List.append_ne_nil_of_right_ne_nil _ named) plain, copyName]
    · simp
    · exact fun slash => flat (List.mem_append_right _ (List.mem_cons_of_mem _ slash))

theorem Cut.of_name (cut : Cut path dir stem ext) :
    conflictName (stem ++ ext) peer = stem ++ conflictMark peer ++ ext := by
  have name : Cut (stem ++ ext) [] stem ext := ⟨rfl, .inl rfl, cut.flat, cut.extension⟩
  exact name.conflictName_eq.2 fun hidden => hidden.1 rfl

/-- The rule is applied to the file name only, and the copy lies in the directory of the file. -/
theorem Cut.beside_iff (cut : Cut path dir stem ext) :
    (conflictName path peer = dir ++ conflictName (stem ++ ext) peer ∧ '/' ∉ conflictName (stem ++ ext) peer) ↔
      '/' ∉ peer.toList ∧ (Hidden dir stem ext → conflictMark peer ++ stem = stem ++ conflictMark peer) := by
  have flat : '/' ∉ stem ++ conflictMark peer ++ ext ↔ '/' ∉ peer.toList := by
    have name := cut.flat
    rw [List.mem_append, not_or] at name
    simp [slash_mem_conflictMark, name.1, name.2]
  rw [cut.of_name, flat, and_comm]
  refine and_congr_right fun _ => ?_
  by_cases hidden : Hidden dir stem ext
  · obtain rfl : ext = [] := hidden.2.1
    rw [cut.conflictName_eq.1 hidden, List.append_cancel_left_eq, List.append_nil]
    exact ⟨fun same _ => same, fun same => same hidden⟩
  · rw [cut.conflictName_eq.2 hidden, copyName]
    exact ⟨fun _ absurd => (hidden absurd).elim, fun _ => rfl⟩

theorem Cut.conflictName_eq_copyName (cut : Cut path dir stem ext)
    (visible : Hidden dir stem ext → conflictMark peer ++ stem = stem ++ conflictMark peer) :
    conflictName path peer = copyName dir stem ext peer := by
  by_cases hidden : Hidden dir stem ext
  · rw [cut.conflictName_eq.1 hidden, visible hidden, copyName, hidden.2.1, List.append_nil]
  · exact cut.conflictName_eq.2 hidden

end Mark

end PeerBeam.Sync
