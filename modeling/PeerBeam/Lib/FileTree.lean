import Mathlib.Data.List.Induction

/-! Paths resolved in a tree of files with symbolic links. Resolution looks at one place after another;
what it finds there is all it depends on. -/

/-- A place in the tree, by its names from the root on. -/
abbrev Loc := List String

inductive FileNode
  | directory
  | file (size : ℕ)
  | symlink (target : String)
  deriving DecidableEq

/-- What is stored at each place, and the names of a directory in the order it lists them. -/
structure FileTree where
  node : Loc → Option FileNode
  names : Loc → List String
  root : node [] = some .directory
  parent : ∀ p n, node (p ++ [n]) ≠ none → node p = some .directory

namespace FileTree

/-- The names of a path. One that ends in a separator names what it does as a directory. -/
def components (path : String) : List String :=
  let pieces := (path.toList.splitOnP (· = '/')).map String.ofList
  pieces.filter (· ≠ "") ++ if pieces.getLast? = some "" then ["."] else []

def base (cur : Loc) (target : String) : Loc := if target.toList.head? = some '/' then [] else cur

/-- The places looked at, in order, and the one the path comes to. -/
abbrev Walk := List Loc × Option Loc

variable (t : FileTree)

/-- A walk that goes on with `follow` where it meets a link. -/
def walkFrom (follow : Loc → List String → Walk) : Loc → List String → Walk
  | cur, [] => ([], some cur)
  | cur, c :: rest =>
    if c = "." then walkFrom follow cur rest
    else if c = ".." then walkFrom follow cur.dropLast rest
    else
      let onward : Walk := match t.node (cur ++ [c]) with
        | none => ([], none)
        | some .directory => walkFrom follow (cur ++ [c]) rest
        | some (.file _) => ([], if rest = [] then some (cur ++ [c]) else none)
        | some (.symlink target) => follow (base cur target) (components target ++ rest)
      ((cur ++ [c]) :: onward.1, onward.2)

def walk : ℕ → Loc → List String → Walk
  | 0 => t.walkFrom fun _ _ => ([], none)
  | links + 1 => t.walkFrom (walk links)

variable {t}

section
variable {follow : Loc → List String → Walk} {cur : Loc} {c : String} {rest : List String}

theorem walkFrom_dot (dot : c = ".") : t.walkFrom follow cur (c :: rest) = t.walkFrom follow cur rest := if_pos dot

theorem walkFrom_dots (dot : c ≠ ".") (dots : c = "..") :
    t.walkFrom follow cur (c :: rest) = t.walkFrom follow cur.dropLast rest :=
  (if_neg dot).trans (if_pos dots)

theorem walkFrom_name (dot : c ≠ ".") (dots : c ≠ "..") :
    t.walkFrom follow cur (c :: rest) =
      let onward : Walk := match t.node (cur ++ [c]) with
        | none => ([], none)
        | some .directory => t.walkFrom follow (cur ++ [c]) rest
        | some (.file _) => ([], if rest = [] then some (cur ++ [c]) else none)
        | some (.symlink target) => follow (base cur target) (components target ++ rest)
      ((cur ++ [c]) :: onward.1, onward.2) :=
  (if_neg dot).trans (if_neg dots)

end

theorem node_prefix {p q : Loc} (pre : p <+: q) (there : t.node q ≠ none) :
    p = q ∨ t.node p = some .directory := by
  obtain ⟨rest, rfl⟩ := pre
  induction rest using List.reverseRecOn with
  | nil => exact .inl (List.append_nil p).symm
  | append_singleton rest n ih =>
    refine .inr ?_
    rw [← List.append_assoc] at there
    have above := t.parent _ n there
    rcases ih (by rw [above]; exact Option.some_ne_none _) with same | dir
    · rw [same]
      exact above
    · exact dir

theorem node_of_prefix {p q : Loc} (pre : p <+: q) (there : t.node q ≠ none) : t.node p ≠ none := by
  rcases node_prefix pre there with rfl | dir
  · exact there
  · rw [dir]
    exact Option.some_ne_none _

theorem directory_dropLast {cur : Loc} (dir : t.node cur = some .directory) :
    t.node cur.dropLast = some .directory := by
  rcases node_prefix (List.dropLast_prefix cur) (by rw [dir]; exact Option.some_ne_none _) with same | above
  · rwa [same]
  · exact above

theorem directory_base {cur : Loc} (dir : t.node cur = some .directory) (target : String) :
    t.node (base cur target) = some .directory := by
  unfold base
  split
  · exact t.root
  · exact dir

/-- No name on the way is a dot or two, and what is there is no link. -/
structure Canonical (t : FileTree) (q : Loc) : Prop where
  plain : ∀ n ∈ q, n ≠ "." ∧ n ≠ ".."
  solid : t.node q = some .directory ∨ ∃ size, t.node q = some (.file size)

theorem Canonical.there {q : Loc} (canonical : t.Canonical q) : t.node q ≠ none := by
  rcases canonical.solid with dir | ⟨size, file⟩
  · rw [dir]
    exact Option.some_ne_none _
  · rw [file]
    exact Option.some_ne_none _

structure Standing (t : FileTree) (cur : Loc) : Prop where
  plain : ∀ n ∈ cur, n ≠ "." ∧ n ≠ ".."
  dir : t.node cur = some .directory

theorem standing_root (t : FileTree) : t.Standing [] := ⟨fun _ mem => absurd mem List.not_mem_nil, t.root⟩

theorem walkFrom_canonical {follow : Loc → List String → Walk}
    (comes : ∀ cur comps q, t.Standing cur → (follow cur comps).2 = some q → t.Canonical q) {comps : List String}
    {cur q : Loc} (standing : t.Standing cur) (out : (t.walkFrom follow cur comps).2 = some q) : t.Canonical q := by
  induction comps generalizing cur with
  | nil =>
    cases out
    exact ⟨standing.plain, .inl standing.dir⟩
  | cons c rest ih =>
    by_cases dot : c = "."
    · rw [walkFrom_dot dot] at out
      exact ih standing out
    by_cases dots : c = ".."
    · rw [walkFrom_dots dot dots] at out
      exact ih ⟨fun n mem => standing.plain n ((List.dropLast_subset cur) mem), directory_dropLast standing.dir⟩ out
    rw [walkFrom_name dot dots] at out
    have plain : ∀ n ∈ cur ++ [c], n ≠ "." ∧ n ≠ ".." := by
      intro n mem
      rcases List.mem_append.mp mem with mem | mem
      · exact standing.plain n mem
      · rw [List.mem_singleton.mp mem]
        exact ⟨dot, dots⟩
    cases here : t.node (cur ++ [c]) with
    | none =>
      rw [here] at out
      cases out
    | some node =>
      rw [here] at out
      cases node with
      | directory => exact ih ⟨plain, here⟩ out
      | file size =>
        dsimp only at out
        split at out
        · cases out
          exact ⟨plain, .inr ⟨size, here⟩⟩
        · cases out
      | symlink target =>
        refine comes _ _ q ⟨?_, directory_base standing.dir target⟩ out
        rw [base]
        split
        · exact fun _ mem => absurd mem List.not_mem_nil
        · exact standing.plain

/-- A walk comes to a real place. -/
theorem walk_canonical {links : ℕ} {comps : List String} {cur q : Loc} (standing : t.Standing cur)
    (out : (t.walk links cur comps).2 = some q) : t.Canonical q := by
  induction links generalizing cur comps q with
  | zero => exact walkFrom_canonical (fun _ _ _ _ out => by cases out) standing out
  | succ links ih => exact walkFrom_canonical (fun _ _ _ standing out => ih standing out) standing out

/-- A real place is its own path: no link is followed on the way to it. -/
theorem Canonical.walk_self {p q : Loc} (canonical : t.Canonical (p ++ q)) (standing : t.Standing p) :
    (t.walk 0 p q).2 = some (p ++ q) := by
  rw [walk]
  induction q generalizing p with
  | nil =>
    rw [List.append_nil]
    rfl
  | cons c rest ih =>
    have joined : p ++ c :: rest = (p ++ [c]) ++ rest := by simp
    obtain ⟨dot, dots⟩ := canonical.plain c (by simp)
    rw [walkFrom_name dot dots]
    rw [joined] at canonical ⊢
    cases rest with
    | nil =>
      rw [List.append_nil] at canonical ⊢
      rcases canonical.solid with dir | ⟨size, file⟩
      · rw [dir]
        rfl
      · rw [file]
        rfl
    | cons d rest =>
      have above : t.node (p ++ [c]) = some .directory := by
        have cases_ := node_prefix (List.prefix_append _ _) canonical.there
        refine cases_.resolve_left fun same => ?_
        have longer := congrArg List.length same
        simp at longer
      rw [above]
      exact ih canonical ⟨fun n mem => canonical.plain n (List.mem_append_left _ mem), above⟩

def Lands (t : FileTree) (w : Walk) : Prop := ∀ q, w.2 = some q → t.node q ≠ none

theorem walkFrom_lands {follow : Loc → List String → Walk}
    (lands : ∀ cur comps, t.node cur = some .directory → t.Lands (follow cur comps)) (comps : List String)
    {cur : Loc} (dir : t.node cur = some .directory) : t.Lands (t.walkFrom follow cur comps) := by
  induction comps generalizing cur with
  | nil =>
    intro q out
    cases out
    rw [dir]
    exact Option.some_ne_none _
  | cons c rest ih =>
    by_cases dot : c = "."
    · rw [walkFrom_dot dot]
      exact ih dir
    by_cases dots : c = ".."
    · rw [walkFrom_dots dot dots]
      exact ih (directory_dropLast dir)
    · rw [walkFrom_name dot dots]
      intro q out
      dsimp only at out
      split at out
      · cases out
      next here => exact ih here q out
      next size here =>
        split at out
        · cases out
          rw [here]
          exact Option.some_ne_none _
        · cases out
      next target here => exact lands _ _ (directory_base dir target) q out

theorem walk_lands (links : ℕ) {cur : Loc} (comps : List String) (dir : t.node cur = some .directory) :
    t.Lands (t.walk links cur comps) := by
  induction links generalizing cur comps with
  | zero => exact walkFrom_lands (fun _ _ _ _ out => by cases out) comps dir
  | succ links ih => exact walkFrom_lands (fun _ comps dir => ih comps dir) comps dir

section
variable {t' : FileTree}

theorem walkFrom_congr {follow follow' : Loc → List String → Walk}
    (same : ∀ cur comps, (∀ p ∈ (follow cur comps).1, t'.node p = t.node p) → follow' cur comps = follow cur comps)
    (comps : List String) (cur : Loc)
    (agree : ∀ p ∈ (t.walkFrom follow cur comps).1, t'.node p = t.node p) :
    t'.walkFrom follow' cur comps = t.walkFrom follow cur comps := by
  induction comps generalizing cur with
  | nil => rfl
  | cons c rest ih =>
    by_cases dot : c = "."
    · rw [walkFrom_dot dot] at agree ⊢
      rw [walkFrom_dot dot]
      exact ih cur agree
    by_cases dots : c = ".."
    · rw [walkFrom_dots dot dots] at agree ⊢
      rw [walkFrom_dots dot dots]
      exact ih _ agree
    rw [walkFrom_name dot dots] at agree ⊢
    rw [walkFrom_name dot dots]
    obtain ⟨here, later⟩ := List.forall_mem_cons.mp agree
    rw [here]
    cases found : t.node (cur ++ [c]) with
    | none => rfl
    | some node =>
      rw [found] at later
      cases node with
      | directory =>
        dsimp only
        rw [ih _ later]
      | file size => rfl
      | symlink target =>
        dsimp only
        rw [same _ _ later]

/-- A walk is the same where all that it looks at is. -/
theorem walk_congr (links : ℕ) (cur : Loc) (comps : List String)
    (agree : ∀ p ∈ (t.walk links cur comps).1, t'.node p = t.node p) :
    t'.walk links cur comps = t.walk links cur comps := by
  induction links generalizing cur comps with
  | zero => exact walkFrom_congr (fun _ _ _ => rfl) comps cur agree
  | succ links ih => exact walkFrom_congr (fun cur comps agree => ih cur comps agree) comps cur agree

theorem walkFrom_cut {known : Loc → Prop} (kept : ∀ p, known p → t'.node p = t.node p)
    (cut : ∀ p, ¬ known p → t'.node p = none) {follow follow' : Loc → List String → Walk}
    (ends : ∀ cur comps, (∃ p ∈ (follow cur comps).1, ¬ known p) → (follow' cur comps).2 = none)
    (comps : List String) (cur : Loc) (stray : ∃ p ∈ (t.walkFrom follow cur comps).1, ¬ known p) :
    (t'.walkFrom follow' cur comps).2 = none := by
  induction comps generalizing cur with
  | nil =>
    obtain ⟨p, mem, -⟩ := stray
    cases mem
  | cons c rest ih =>
    by_cases dot : c = "."
    · rw [walkFrom_dot dot] at stray ⊢
      exact ih cur stray
    by_cases dots : c = ".."
    · rw [walkFrom_dots dot dots] at stray ⊢
      exact ih _ stray
    rw [walkFrom_name dot dots] at stray ⊢
    by_cases here : known (cur ++ [c])
    · obtain ⟨p, mem, off⟩ := stray
      rw [kept _ here]
      rcases List.mem_cons.mp mem with rfl | later
      · exact absurd here off
      cases found : t.node (cur ++ [c]) with
      | none => rfl
      | some node =>
        rw [found] at later
        cases node with
        | directory => exact ih _ ⟨p, later, off⟩
        | file size => cases later
        | symlink target => exact ends _ _ ⟨p, later, off⟩
    · rw [cut _ here]

/-- Of a walk that looks at a place that is no longer there, nothing comes. -/
theorem walk_cut {known : Loc → Prop} (kept : ∀ p, known p → t'.node p = t.node p)
    (cut : ∀ p, ¬ known p → t'.node p = none) (links : ℕ) (cur : Loc) (comps : List String)
    (stray : ∃ p ∈ (t.walk links cur comps).1, ¬ known p) : (t'.walk links cur comps).2 = none := by
  induction links generalizing cur comps with
  | zero =>
    refine walkFrom_cut kept cut (fun cur comps stray => ?_) comps cur stray
    obtain ⟨p, mem, -⟩ := stray
    cases mem
  | succ links ih => exact walkFrom_cut kept cut (fun cur comps stray => ih cur comps stray) comps cur stray

end

end FileTree
