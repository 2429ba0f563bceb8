import Mathlib

/-! Wire paths, what they name under a synced folder, and the folder itself. -/
namespace PeerBeam.Sync
open Std

abbrev Bytes := List UInt8

/-- A path as it travels: `/`-separated, whatever a peer put into it. -/
abbrev WirePath := List Char

def IsName (segment : List Char) : Prop :=
  segment ≠ [] ∧ segment ≠ ['.'] ∧ segment ≠ ['.', '.'] ∧ '/' ∉ segment

instance (segment : List Char) : Decidable (IsName segment) :=
  inferInstanceAs (Decidable (_ ∧ _ ∧ _ ∧ _))

abbrev FileName := { segment : List Char // IsName segment }

/-- Render the components of a relative path the way the protocol writes it. -/
def wirePath (components : List FileName) : WirePath :=
  ['/'].intercalate (components.map Subtype.val)

/-- The components under the root that a wire path names: every segment that is
one ordinary file name, the rest dropped. -/
def localPath (path : WirePath) : List FileName :=
  (path.splitOn '/').filterMap fun segment => if h : IsName segment then some ⟨segment, h⟩ else none

@[simp] theorem localPath_wirePath (components : List FileName) :
    localPath (wirePath components) = components := by
  have named : ∀ names : List FileName, (names.map Subtype.val).filterMap
      (fun segment => if h : IsName segment then some (⟨segment, h⟩ : FileName) else none) = names := by
    intro names
    rw [List.filterMap_map]
    exact (List.filterMap_congr fun name _ => dif_pos name.2).trans (List.filterMap_some)
  cases components with
  | nil => rfl
  | cons first rest =>
    rw [localPath, wirePath, List.splitOn_intercalate, named]
    · intro segment mem
      obtain ⟨name, -, rfl⟩ := List.mem_map.mp mem
      exact name.2.2.2.2
    · simp

/-- The name a file that is written to `path` gets when the folder is walked. -/
def resolve (path : WirePath) : WirePath := wirePath (localPath path)

@[simp] theorem resolve_wirePath (components : List FileName) :
    resolve (wirePath components) = wirePath components := by
  rw [resolve, localPath_wirePath]

@[simp] theorem resolve_resolve (path : WirePath) : resolve (resolve path) = resolve path :=
  resolve_wirePath _

structure File where
  bytes : Bytes
  /-- Unix seconds, zero when the system reports none. -/
  modified : Int
  deriving DecidableEq

def File.size (f : File) : Nat := f.bytes.length

/-- The regular files under a root that has no symlinks, by the name a walk gives them. -/
structure Folder where
  files : ExtTreeMap WirePath File compare
  named : ∀ path, path ∈ files → resolve path = path ∧ path ≠ []

namespace Folder

def empty : Folder := ⟨∅, fun _ mem => absurd mem ExtTreeMap.not_mem_empty⟩

def find (d : Folder) (path : WirePath) : Option File := d.files[path]?

def walk (d : Folder) : List (WirePath × File) := d.files.toList

/-- Put a file where `path` leads. The root cannot become one. -/
def write (d : Folder) (path : WirePath) (file : File) : Folder :=
  if root : resolve path = [] then d
  else
    { files := d.files.insert (resolve path) file
      named := by
        intro p mem
        rcases ExtTreeMap.mem_insert.mp mem with same | old
        · rw [← LawfulEqCmp.compare_eq_iff_eq.mp same]
          exact ⟨resolve_resolve path, root⟩
        · exact d.named p old }

/-- Remove the file `path` leads to, if it is there. -/
def remove (d : Folder) (path : WirePath) : Folder where
  files := d.files.erase (resolve path)
  named := fun p mem => d.named p (ExtTreeMap.mem_of_mem_erase mem)

/-- `fs::rename`, where the system lets it happen: the file moves with its bytes
and its mtime. A missing source cannot move, and nothing moves onto the root. -/
def rename (d : Folder) («from» «to» : WirePath) : Option Folder :=
  if resolve «to» = [] then none
  else (d.find (resolve «from»)).map fun file => (d.remove «from»).write «to» file

@[simp] theorem find_write (d : Folder) (path p : WirePath) (file : File) :
    (d.write path file).find p = if resolve path = p ∧ p ≠ [] then some file else d.find p := by
  unfold write
  split
  · rename_i root
    rw [if_neg]
    rintro ⟨rfl, named⟩
    exact named root
  · rename_i named
    simp only [find, ExtTreeMap.getElem?_insert, LawfulEqCmp.compare_eq_iff_eq]
    by_cases same : resolve path = p
    · rw [if_pos same, if_pos ⟨same, same ▸ named⟩]
    · rw [if_neg same, if_neg fun h => same h.1]

@[simp] theorem find_remove (d : Folder) (path p : WirePath) :
    (d.remove path).find p = if resolve path = p then none else d.find p := by
  simp only [find, remove, ExtTreeMap.getElem?_erase, LawfulEqCmp.compare_eq_iff_eq]

theorem named_of_find {d : Folder} {path : WirePath} {file : File} (h : d.find path = some file) :
    resolve path = path ∧ path ≠ [] :=
  d.named path (ExtTreeMap.mem_iff_isSome_getElem?.mpr (Option.isSome_of_eq_some h))

theorem mem_walk {d : Folder} {path : WirePath} {file : File} :
    (path, file) ∈ d.walk ↔ d.find path = some file :=
  ExtTreeMap.mem_toList_iff_getElem?_eq_some

end Folder

end PeerBeam.Sync
