import Mathlib
import PeerBeam.Browse.Secrecy
import PeerBeam.Lib.FreshName

/-! The names that configured folders are shared under, and what a request can address by them. -/
namespace PeerBeam.Browse

/-- The base name of a root, or `root` where it has none. -/
def label (root : Loc) : String :=
  match root.getLast? with
  | some name => if name = "" then "root" else name
  | none => "root"

def suffixed (base : String) (n : ℕ) : String := base ++ " (" ++ toString n ++ ")"

/-- The base itself, or the first of its suffixed forms up to `u32::MAX` that no share has. -/
def uniqueName (base : String) (taken : List Share) : String :=
  let names := taken.map (·.name)
  if base ∉ names then base
  else (FreshName.search (suffixed base) names (2 ^ 32 - 2) 2).getD base

/-- The configured folders: those that are shared, and those that do not resolve. -/
structure Shares (P : Type) where
  shares : List Share
  unresolved : List P
  deriving DecidableEq

namespace Shares
variable {P : Type} [DecidableEq P] (canonicalize : P → Option Loc)

/-- The body of the loop over the configured paths. -/
def add (s : Shares P) (p : P) : Shares P :=
  match canonicalize p with
  | none => if p ∈ s.unresolved then s else { s with unresolved := s.unresolved ++ [p] }
  | some root =>
    if s.shares.any fun x => x.root = root then s
    else { s with shares := s.shares ++ [⟨uniqueName (label root) s.shares, root⟩] }

def new (paths : List P) : Shares P := paths.foldl (add canonicalize) ⟨[], []⟩

end Shares

theorem label_ne_empty (root : Loc) : label root ≠ "" := by
  rw [label]
  split
  · split
    · decide
    · next nonempty => exact nonempty
  · decide

theorem suffixed_injective (base : String) : Function.Injective (suffixed base) := by
  intro m n same
  have digits := (String.append_right_inj _).mp ((String.append_left_inj ")").mp same)
  exact Nat.repr_injective digits

theorem suffixed_ne_base (base : String) (n : ℕ) : suffixed base n ≠ base := by
  intro same
  have longer := congrArg String.length same
  have opened : " (".length = 2 := rfl
  simp only [suffixed, String.length_append] at longer
  omega

theorem toList_suffixed (base : String) (n : ℕ) :
    (suffixed base n).toList = base.toList ++ (" (".toList ++ (Nat.toDigits 10 n ++ ")".toList)) := by
  simp [suffixed, Nat.repr]

/-- The name is free, and the base or a suffixed form of it. -/
theorem uniqueName_spec (base : String) {taken : List Share} (few : taken.length ≤ 2 ^ 32 - 2) :
    (∀ s ∈ taken, s.name ≠ uniqueName base taken) ∧
      (uniqueName base taken = base ∨ ∃ n, uniqueName base taken = suffixed base n) := by
  rw [uniqueName]
  have free {name : String} (out : name ∉ taken.map (·.name)) : ∀ s ∈ taken, s.name ≠ name :=
    fun s mem same => out (same ▸ List.mem_map_of_mem mem)
  by_cases base_free : base ∉ taken.map (·.name)
  · rw [if_pos base_free]
    exact ⟨free base_free, .inl rfl⟩
  · rw [if_neg base_free]
    have short : (taken.map (·.name)).length ≤ 2 ^ 32 - 2 := by rwa [List.length_map]
    obtain ⟨name, found⟩ := FreshName.exists_search (n := 2) (suffixed_injective base) (suffixed_ne_base base)
      (not_not.mp base_free) short
    obtain ⟨out, k, eq⟩ := FreshName.search_eq_some found
    rw [found, Option.getD_some]
    exact ⟨free out, .inr ⟨k, eq⟩⟩

def NamedAfter (x : Share) : Prop := x.name = label x.root ∨ ∃ n, x.name = suffixed (label x.root) n

theorem NamedAfter.ne_empty {x : Share} (named : NamedAfter x) : x.name ≠ "" := by
  rcases named with same | ⟨n, same⟩
  · rw [same]
    exact label_ne_empty x.root
  · rw [same]
    intro empty
    have text := congrArg String.toList empty
    rw [toList_suffixed] at text
    simp at text

theorem NamedAfter.no_slash {x : Share} (named : NamedAfter x) (plain : '/' ∉ (label x.root).toList) :
    '/' ∉ x.name.toList := by
  rcases named with same | ⟨n, same⟩
  · rwa [same]
  · have digits : '/' ∉ Nat.toDigits 10 n := by
      intro mem
      have digit := Nat.isDigit_of_mem_toDigits (by decide) (by decide) mem
      revert digit
      decide
    rw [same, toList_suffixed]
    simp [plain, digits]

namespace Shares
variable {P : Type} {canonicalize : P → Option Loc}

structure Built (canonicalize : P → Option Loc) (paths : List P) (shares : List Share) : Prop where
  names : (shares.map (·.name)).Nodup
  roots : (shares.map (·.root)).Nodup
  named : ∀ x ∈ shares, NamedAfter x
  configured : ∀ x ∈ shares, ∃ p ∈ paths, canonicalize p = some x.root
  served : ∀ p ∈ paths, ∀ root, canonicalize p = some root → ∃ x ∈ shares, x.root = root
  few : shares.length ≤ paths.length

theorem Built.more {paths : List P} {shares : List Share} (built : Built canonicalize paths shares) (p : P)
    (known : ∀ root, canonicalize p = some root → ∃ x ∈ shares, x.root = root) :
    Built canonicalize (paths ++ [p]) shares where
  names := built.names
  roots := built.roots
  named := built.named
  configured x mem := by
    obtain ⟨q, here, eq⟩ := built.configured x mem
    exact ⟨q, List.mem_append_left _ here, eq⟩
  served q mem := by
    rcases List.mem_append.mp mem with mem | mem
    · exact built.served q mem
    · rw [List.mem_singleton.mp mem]
      exact known
  few := by
    rw [List.length_append]
    exact Nat.le_add_right_of_le built.few

variable [DecidableEq P]

theorem Built.add {paths : List P} {s : Shares P} (built : Built canonicalize paths s.shares) (p : P)
    (room : paths.length ≤ 2 ^ 32 - 2) : Built canonicalize (paths ++ [p]) (add canonicalize s p).shares := by
  rw [Shares.add]
  cases resolved : canonicalize p with
  | none =>
    have same : (if p ∈ s.unresolved then s else { s with unresolved := s.unresolved ++ [p] }).shares = s.shares := by
      split <;> rfl
    dsimp only
    rw [same]
    exact built.more p (by rw [resolved]; exact nofun)
  | some root =>
    dsimp only
    by_cases repeated : (s.shares.any fun x => x.root = root) = true
    · rw [if_pos repeated]
      obtain ⟨x, mem, same⟩ := List.any_eq_true.mp repeated
      refine built.more p fun root' eq => ⟨x, mem, ?_⟩
      rw [of_decide_eq_true same]
      exact Option.some.inj (resolved.symm.trans eq)
    · rw [if_neg repeated]
      have fresh : ∀ x ∈ s.shares, x.root ≠ root := by
        intro x mem same
        exact repeated (List.any_eq_true.mpr ⟨x, mem, decide_eq_true same⟩)
      obtain ⟨free, named⟩ := uniqueName_spec (label root) (built.few.trans room)
      refine ⟨?_, ?_, ?_, ?_, ?_, ?_⟩
      · rw [List.map_append, List.map_singleton, ← List.concat_eq_append, List.nodup_concat]
        refine ⟨fun mem => ?_, built.names⟩
        obtain ⟨x, here, same⟩ := List.mem_map.mp mem
        exact free x here same
      · rw [List.map_append, List.map_singleton, ← List.concat_eq_append, List.nodup_concat]
        refine ⟨fun mem => ?_, built.roots⟩
        obtain ⟨x, here, same⟩ := List.mem_map.mp mem
        exact fresh x here same
      · intro x mem
        rcases List.mem_append.mp mem with mem | mem
        · exact built.named x mem
        · rw [List.mem_singleton.mp mem]
          exact named
      · intro x mem
        rcases List.mem_append.mp mem with mem | mem
        · obtain ⟨q, here, eq⟩ := built.configured x mem
          exact ⟨q, List.mem_append_left _ here, eq⟩
        · rw [List.mem_singleton.mp mem]
          exact ⟨p, by simp, resolved⟩
      · intro q mem root' eq
        rcases List.mem_append.mp mem with mem | mem
        · obtain ⟨x, here, same⟩ := built.served q mem root' eq
          exact ⟨x, List.mem_append_left _ here, same⟩
        · rw [List.mem_singleton.mp mem, resolved] at eq
          cases eq
          exact ⟨_, List.mem_append_right _ (List.mem_singleton_self _), rfl⟩
      · rw [List.length_append, List.length_append]
        exact Nat.add_le_add_right built.few 1

theorem built_new (paths : List P) (few : paths.length < 2 ^ 32) :
    Built canonicalize paths (new canonicalize paths).shares := by
  induction paths using List.reverseRecOn with
  | nil => exact ⟨List.nodup_nil, List.nodup_nil, nofun, nofun, nofun, Nat.le_refl 0⟩
  | append_singleton paths p ih =>
    rw [List.length_append, List.length_singleton] at few
    rw [new, List.foldl_append]
    exact (ih (by omega)).add p (by omega)

end Shares

theorem parts_join {name : String} (some_ : name ≠ "") (plain : '/' ∉ name.toList) (rest : String) :
    parts (name ++ "/" ++ rest) = name :: parts rest := by
  have whole : ∀ c ∈ name.toList, decide (c = '/') = false :=
    fun c mem => decide_eq_false fun slash => plain (slash ▸ mem)
  have text : (name ++ "/" ++ rest).toList = name.toList ++ '/' :: rest.toList := by simp
  rw [parts, parts, text, List.splitOnP_append_cons_of_forall_mem whole '/' (by decide), List.map_cons,
    String.ofList_toList, List.filter_cons_of_pos (by simpa using some_)]

theorem find_named {shares : List Share} (names : (shares.map (·.name)).Nodup) {s : Share} (mem : s ∈ shares) :
    shares.find? (·.name = s.name) = some s := by
  obtain ⟨before, after, rfl⟩ := List.append_of_mem mem
  rw [List.find?_eq_some_iff_append]
  refine ⟨by simp, before, after, rfl, fun x here => ?_⟩
  rw [List.map_append, List.map_cons] at names
  have apart := (List.nodup_middle.mp names).notMem
  have other : x.name ≠ s.name := fun same => apart (by simp [← same, List.mem_map_of_mem here])
  simp [other]

/-- What a request comes to is a real place inside the share that its first part names. -/
theorem resolve_inside {t : FileTree} {links : ℕ} {shares : List Share} {rel : String} {real : Loc}
    (resolved : resolve t links shares rel = .ok real) :
    ∃ s ∈ shares, (parts rel).head? = some s.name ∧ s.root <+: real ∧ t.Canonical real := by
  obtain ⟨s, rest, asked, came, inside⟩ := resolve_ok_iff.mp resolved
  have first : (parts rel).head? = some s.name := by
    rw [named] at asked
    split at asked
    · cases asked
    · next first rest eq =>
      obtain ⟨x, found, same⟩ := Option.map_eq_some_iff.mp asked
      cases same
      have same : s.name = first := by simpa using List.find?_some found
      rw [eq, List.head?_cons, same]
  exact ⟨s, mem_of_find asked, first, inside, FileTree.walk_canonical t.standing_root came⟩

/-- Whatever folders are configured, each that resolves is shared once and under a name of its own, a request that
starts with the name asks for that share, and what any request comes to is a real place inside the share it names. -/
theorem shares_addressable {P : Type} [DecidableEq P] (canonicalize : P → Option Loc) (paths : List P)
    (few : paths.length < 2 ^ 32)
    (plain : ∀ p ∈ paths, ∀ root, canonicalize p = some root → '/' ∉ (label root).toList) :
    let shares := (Shares.new canonicalize paths).shares
    (shares.map (·.root)).Nodup ∧ (shares.map (·.name)).Nodup ∧ (∀ s ∈ shares, s.name ≠ "") ∧
    (∀ p ∈ paths, ∀ root, canonicalize p = some root → ∃! s, s ∈ shares ∧ s.root = root) ∧
    (∀ s ∈ shares, ∀ rest, named shares (s.name ++ "/" ++ rest) = some (s, parts rest)) ∧
    ∀ (t : FileTree) (links : ℕ) (rel : String), (∃ e, resolve t links shares rel = .error e) ∨
      ∃ s ∈ shares, ∃ real, (parts rel).head? = some s.name ∧ resolve t links shares rel = .ok real ∧
        s.root <+: real ∧ (t.walk 0 [] real).2 = some real := by
  intro shares
  have built : Shares.Built canonicalize paths shares := Shares.built_new paths few
  refine ⟨built.roots, built.names, fun s mem => (built.named s mem).ne_empty, ?_, ?_, ?_⟩
  · intro p mem root eq
    obtain ⟨s, here, same⟩ := built.served p mem root eq
    refine ⟨s, ⟨here, same⟩, fun s' other => ?_⟩
    exact List.inj_on_of_nodup_map built.roots other.1 here (other.2.trans same.symm)
  · intro s mem rest
    obtain ⟨p, here, eq⟩ := built.configured s mem
    have own := built.named s mem
    rw [named, parts_join own.ne_empty (own.no_slash (plain p here s.root eq))]
    dsimp only
    rw [find_named built.names mem, Option.map_some]
  · intro t links rel
    cases resolved : resolve t links shares rel with
    | error e => exact .inl ⟨e, rfl⟩
    | ok real =>
      obtain ⟨s, mem, first, inside, canonical⟩ := resolve_inside resolved
      exact .inr ⟨s, mem, real, first, rfl, inside, canonical.walk_self t.standing_root⟩

/-- Two folders of one name, one that has the name the second gets, a repeat, and the root. -/
theorem documents_addressable :
    let shares := (Shares.new (fun p => some (parts p)) ["/a/docs", "/b/docs", "/c/docs (2)", "/a//docs", "/"]).shares
    shares.map (·.name) = ["docs", "docs (2)", "docs (2) (2)", "root"] ∧
      named shares "docs (2)/x" = some (⟨"docs (2)", ["b", "docs"]⟩, ["x"]) := by
  intro shares
  have names : shares = [⟨"docs", ["a", "docs"]⟩, ⟨"docs (2)", ["b", "docs"]⟩, ⟨"docs (2) (2)", ["c", "docs (2)"]⟩,
      ⟨"root", []⟩] := by decide +kernel
  have second : (⟨"docs (2)", ["b", "docs"]⟩ : Share) ∈ shares := by
    rw [names]
    decide
  have addressable := shares_addressable (fun p => some (parts p))
    ["/a/docs", "/b/docs", "/c/docs (2)", "/a//docs", "/"] (by decide) (by decide +kernel)
  exact ⟨by rw [names]; rfl, addressable.2.2.2.2.1 _ second "x"⟩

end PeerBeam.Browse
