import PeerBeam.Browse.Shares

/-! What the answers to a peer's requests depend on: the shares, and the places a request is resolved through. -/
namespace PeerBeam.Browse

section
variable (shares : List Share)

def Inside (p : Loc) : Prop := ∃ s ∈ shares, s.root <+: p

instance (p : Loc) : Decidable (Inside shares p) := inferInstanceAs (Decidable (∃ s ∈ shares, _))

def AgreesInside (t t' : FileTree) : Prop :=
  ∀ p, Inside shares p → t'.node p = t.node p ∧ t'.names p = t.names p

def NoLinkBack (links : ℕ) (t : FileTree) : Prop :=
  ∀ cur name target, ¬ Inside shares (cur ++ [name]) → t.node (cur ++ [name]) = some (.symlink target) →
    ∀ q, (t.walk links (FileTree.base cur target) (FileTree.components target)).2 = some q → ¬ Inside shares q

/-- A tree that has in the shares what `t` has there. -/
structure Possible (links : ℕ) (t t' : FileTree) : Prop where
  agrees : AgreesInside shares t t'
  noLinkBack : NoLinkBack shares links t'

def Known (t : FileTree) (p : Loc) : Prop :=
  p = [] ∨ Inside shares p ∨ ∃ s ∈ shares, t.node s.root ≠ none ∧ p <+: s.root

instance (t : FileTree) (p : Loc) : Decidable (Known shares t p) := inferInstanceAs (Decidable (_ ∨ _ ∨ ∃ s ∈ shares, _))

/-- Resolving the request steps off the shares and the directories above them, and still ends in the share. -/
def ComesBack (links : ℕ) (t : FileTree) (rel : String) : Prop :=
  ∃ share rest, named shares rel = some (share, rest) ∧
    (∃ p ∈ (request t links share rest).1, ¬ Known shares t p) ∧
    ∃ real, (request t links share rest).2 = some real ∧ share.root <+: real

def SameAnswers (links : ℕ) (t t' : FileTree) (rel : String) : Prop :=
  (resolve t links shares rel).toOption = (resolve t' links shares rel).toOption ∧
    list t links shares rel = list t' links shares rel

end

variable {shares : List Share} {links : ℕ} {t t₁ t₂ : FileTree} {rel : String}

theorem mem_of_find {shares : List Share} {rel : String} {share : Share} {rest : List String}
    (h : named shares rel = some (share, rest)) : share ∈ shares := by
  unfold named at h
  split at h
  · cases h
  · obtain ⟨s, found, same⟩ := Option.map_eq_some_iff.mp h
    cases same
    exact List.mem_of_find?_eq_some found

theorem resolve_ok_iff {real : Loc} : resolve t links shares rel = .ok real ↔
    ∃ share rest, named shares rel = some (share, rest) ∧ (request t links share rest).2 = some real ∧
      share.root <+: real := by
  unfold resolve
  cases asked : named shares rel with
  | none => exact iff_of_false nofun fun ⟨_, _, h, _⟩ => nomatch h
  | some pair =>
    obtain ⟨share, rest⟩ := pair
    dsimp only
    cases out : (request t links share rest).2 with
    | none => exact iff_of_false nofun fun ⟨_, _, h, came, _⟩ => by cases h; cases out.symm.trans came
    | some q =>
      by_cases inside : share.root <+: q
      · dsimp only
        rw [if_pos inside]
        constructor
        · intro same
          cases same
          exact ⟨share, rest, rfl, out, inside⟩
        · rintro ⟨_, _, h, came, _⟩
          cases h
          rw [Option.some.inj (out.symm.trans came)]
      · dsimp only
        rw [if_neg inside]
        refine iff_of_false nofun ?_
        rintro ⟨_, _, h, came, inside'⟩
        cases h
        cases out.symm.trans came
        exact inside inside'

/-- What is resolved lies in its share, which is there. -/
theorem root_of_resolve {real : Loc} (ok : resolve t links shares rel = .ok real) :
    ∃ s ∈ shares, s.root <+: real ∧ t.node s.root ≠ none := by
  obtain ⟨share, rest, asked, came, inside⟩ := resolve_ok_iff.mp ok
  exact ⟨share, mem_of_find asked, inside,
    FileTree.node_of_prefix inside (FileTree.walk_lands links _ t.root real came)⟩

/-- Possible trees have the same at every place that is known. -/
theorem node_of_known (one : AgreesInside shares t t₁) (two : AgreesInside shares t t₂) {p : Loc}
    (known : Known shares t p) : t₂.node p = t₁.node p := by
  rcases known with rfl | inside | ⟨s, mem, there, above⟩
  · rw [t₁.root, t₂.root]
  · rw [(one p inside).1, (two p inside).1]
  · have own : Inside shares s.root := ⟨s, mem, List.prefix_rfl⟩
    have there₁ : t₁.node s.root ≠ none := by rwa [(one _ own).1]
    have there₂ : t₂.node s.root ≠ none := by rwa [(two _ own).1]
    rcases FileTree.node_prefix above there₁ with rfl | dir₁
    · rw [(one _ own).1, (two _ own).1]
    · rcases FileTree.node_prefix above there₂ with rfl | dir₂
      · rw [(one _ own).1, (two _ own).1]
      · rw [dir₁, dir₂]

theorem known_congr (one : AgreesInside shares t t₁) (p : Loc) : Known shares t₁ p ↔ Known shares t p := by
  refine or_congr_right (or_congr_right (exists_congr fun s => and_congr_right fun mem => and_congr_left fun _ => ?_))
  rw [(one s.root ⟨s, mem, List.prefix_rfl⟩).1]

/-- A request that stays in the shares and above them comes to the same in every possible tree. -/
theorem resolve_congr (one : AgreesInside shares t t₁) (two : AgreesInside shares t t₂) {real : Loc}
    (stays : ¬ ComesBack shares links t₁ rel) (ok : resolve t₁ links shares rel = .ok real) :
    resolve t₂ links shares rel = .ok real := by
  obtain ⟨share, rest, asked, came, inside⟩ := resolve_ok_iff.mp ok
  have same : request t₂ links share rest = request t₁ links share rest := by
    refine FileTree.walk_congr links [] _ fun p mem => ?_
    by_contra differ
    refine stays ⟨share, rest, asked, ⟨p, mem, fun known => differ ?_⟩, real, came, inside⟩
    exact node_of_known one two ((known_congr one p).mp known)
  exact resolve_ok_iff.mpr ⟨share, rest, asked, same ▸ came, inside⟩

/-- What is in a share is listed alike. -/
theorem collect_congr {real : Loc} (same : ∀ name, t₂.node (real ++ [name]) = t₁.node (real ++ [name]))
    (names : List String) (entries : List Entry) : collect t₂ real names entries = collect t₁ real names entries := by
  induction names generalizing entries with
  | nil => rfl
  | cons name names ih =>
    rw [collect, collect, same name]
    split
    · rfl
    · cases t₁.node (real ++ [name]) with
      | none => exact ih entries
      | some node => exact ih _

theorem list_congr (one : AgreesInside shares t t₁) (two : AgreesInside shares t t₂)
    (same : (resolve t₁ links shares rel).toOption = (resolve t₂ links shares rel).toOption) :
    list t₁ links shares rel = list t₂ links shares rel := by
  unfold list
  split
  · rfl
  cases first : resolve t₁ links shares rel with
  | error e =>
    cases second : resolve t₂ links shares rel with
    | error e' => rfl
    | ok real =>
      rw [first, second] at same
      cases same
  | ok real =>
    cases second : resolve t₂ links shares rel with
    | error e =>
      rw [first, second] at same
      cases same
    | ok real' =>
      rw [first, second] at same
      cases same
      obtain ⟨s, mem, inside, -⟩ := root_of_resolve first
      have here : Inside shares real := ⟨s, mem, inside⟩
      have below (name : String) : t₂.node (real ++ [name]) = t₁.node (real ++ [name]) :=
        node_of_known one two (.inr (.inl ⟨s, mem, inside.trans (List.prefix_append real [name])⟩))
      dsimp only
      rw [node_of_known one two (.inr (.inl here)), (one real here).2, (two real here).2, collect_congr below]

theorem known_parent {p : Loc} {name : String} (known : Known shares t (p ++ [name]))
    (there : t.node (p ++ [name]) ≠ none) : Known shares t p := by
  rcases known with nil | ⟨s, mem, inside⟩ | ⟨s, mem, here, above⟩
  · exact absurd nil (List.append_ne_nil_of_right_ne_nil p (List.cons_ne_nil name []))
  · rcases List.prefix_concat_iff.mp inside with same | inside
    · exact .inr (.inr ⟨s, mem, same ▸ there, same ▸ List.prefix_append p [name]⟩)
    · exact .inr (.inl ⟨s, mem, inside⟩)
  · exact .inr (.inr ⟨s, mem, here, (List.prefix_append p [name]).trans above⟩)

variable (shares t) in
def trimmed : FileTree where
  node p := if Known shares t p then t.node p else none
  names := t.names
  root := (if_pos (.inl rfl)).trans t.root
  parent p name there := by
    split at there
    next known => rw [if_pos (known_parent known there), t.parent p name there]
    next => exact absurd rfl there

theorem trimmed_possible (possible : Possible shares links t t₁) :
    Possible shares links t (trimmed shares t₁) := by
  constructor
  · intro p inside
    refine ⟨?_, (possible.agrees p inside).2⟩
    exact (if_pos (.inr (.inl inside))).trans (possible.agrees p inside).1
  · intro cur name target outside link
    have known : Known shares t₁ (cur ++ [name]) := by
      by_contra unknown
      cases (if_neg unknown).symm.trans link
    have here : t₁.node (cur ++ [name]) = some (.symlink target) := (if_pos known).symm.trans link
    rcases known with nil | inside | ⟨s, mem, there, above⟩
    · exact absurd nil (List.append_ne_nil_of_right_ne_nil cur (List.cons_ne_nil name []))
    · exact absurd inside outside
    · rcases FileTree.node_prefix above there with same | dir
      · exact absurd ⟨s, mem, same ▸ List.prefix_rfl⟩ outside
      · cases dir.symm.trans here

/-- Every request is answered alike in all file systems with the same in the shares, if and only if in none of them
the request steps off what is known and comes back. -/
theorem browsing_reveals_nothing_iff (shares : List Share) (links : ℕ) (t : FileTree) (rel : String) :
    (∀ t₁ t₂, Possible shares links t t₁ → Possible shares links t t₂ → SameAnswers shares links t₁ t₂ rel) ↔
      ∀ t', Possible shares links t t' → ¬ ComesBack shares links t' rel := by
  constructor
  · rintro same t' possible ⟨share, rest, asked, ⟨p, mem, off⟩, real, came, inside⟩
    have gone : (request (trimmed shares t') links share rest).2 = none :=
      FileTree.walk_cut (fun p known => if_pos known) (fun p unknown => if_neg unknown) links [] _ ⟨p, mem, off⟩
    have ok : resolve t' links shares rel = .ok real := resolve_ok_iff.mpr ⟨share, rest, asked, came, inside⟩
    have alike := (same t' _ possible (trimmed_possible possible)).1
    rw [ok, resolve, asked] at alike
    dsimp only at alike
    rw [gone] at alike
    cases alike
  · intro stays t₁ t₂ one two
    have same : (resolve t₁ links shares rel).toOption = (resolve t₂ links shares rel).toOption := by
      cases first : resolve t₁ links shares rel with
      | ok real => rw [resolve_congr one.agrees two.agrees (stays t₁ one) first]
      | error e =>
        cases second : resolve t₂ links shares rel with
        | error e' => rfl
        | ok real => cases first.symm.trans (resolve_congr two.agrees one.agrees (stays t₂ two) second)
    exact ⟨same, list_congr one.agrees two.agrees same⟩

/-- A request that is resolved through known places in one of the file systems comes back in none. -/
theorem stays_of_known {share : Share} {rest : List String} (asked : named shares rel = some (share, rest))
    (known : ∀ p ∈ (request t links share rest).1, Known shares t p) {t' : FileTree}
    (possible : Possible shares links t t') : ¬ ComesBack shares links t' rel := by
  rintro ⟨share', rest', asked', ⟨p, mem, off⟩, -⟩
  cases asked.symm.trans asked'
  have same : request t' links share rest = request t links share rest :=
    FileTree.walk_congr links [] _ fun p mem => node_of_known (fun _ _ => ⟨rfl, rfl⟩) possible.agrees (known p mem)
  rw [same] at mem
  exact off ((known_congr possible.agrees p).mpr (known p mem))

private def folders (all : List Loc) (rooted : [] ∈ all) (above : ∀ p ∈ all, p.dropLast ∈ all) : FileTree where
  node p := if p ∈ all then some .directory else none
  names _ := []
  root := if_pos rooted
  parent p name there := by
    split at there
    next mem =>
      have up := above _ mem
      rw [List.dropLast_concat] at up
      exact if_pos up
    next => exact absurd rfl there

private def bare : FileTree := folders [[], ["srv"], ["srv", "share"]] (by decide) (by decide)

private def housed : FileTree := folders [[], ["srv"], ["srv", "share"], ["srv", "taxes"]] (by decide) (by decide)

private def shared : List Share := [⟨"share", ["srv", "share"]⟩]

private theorem folders_possible {all all' : List Loc} {rooted rooted' above above'}
    (same : ∀ p ∈ all, p ∈ all') (inside : ∀ p ∈ all', ["srv", "share"] <+: p → p ∈ all) :
    Possible shared 40 (folders all rooted above) (folders all' rooted' above') := by
  constructor
  · rintro p ⟨s, mem, below⟩
    obtain rfl := List.mem_singleton.mp mem
    refine ⟨?_, rfl⟩
    exact if_congr ⟨fun there => inside p there below, same p⟩ rfl rfl
  · intro cur name target _ link
    have link : (if cur ++ [name] ∈ all' then some FileNode.directory else none) = some (.symlink target) := link
    split at link <;> cases link

/-- Whether there are taxes beside the share shows in the answer. -/
theorem unshared_folder_revealed :
    Possible shared 40 bare bare ∧ Possible shared 40 bare housed ∧
      ¬ SameAnswers shared 40 bare housed "share/../taxes/../share" := by
  refine ⟨folders_possible (by decide) (by decide), folders_possible (by decide) (by decide), fun same => ?_⟩
  have differ : (resolve bare 40 shared "share/../taxes/../share").toOption ≠
      (resolve housed 40 shared "share/../taxes/../share").toOption := by decide +kernel
  exact differ same.1

/-- Going up to the folder above and straight back tells nothing. -/
example {t' : FileTree} (possible : Possible shared 40 bare t') :
    ¬ ComesBack shared 40 t' "share/../share/./x" := by
  have asked : named shared "share/../share/./x" =
      some (⟨"share", ["srv", "share"]⟩, ["..", "share", ".", "x"]) := by decide +kernel
  exact stays_of_known asked (by decide +kernel) possible

end PeerBeam.Browse
