import PeerBeam.Lib.FileTree

/-! Shared folders as a peer browses them: a request is resolved as a path of the file system, and what it comes to
is compared with the share afterwards. -/
namespace PeerBeam.Browse

inductive ShareError
  | noShare
  | outside
  | missing
  deriving DecidableEq

structure Share where
  name : String
  root : Loc
  deriving DecidableEq

structure Entry where
  name : String
  isDir : Bool
  size : ℕ
  deriving DecidableEq

structure ListResponse where
  path : String
  entries : List Entry
  truncated : Bool
  denied : Bool
  deriving DecidableEq

def ListResponse.refusal (path : String) : ListResponse := ⟨path, [], false, true⟩

def maxEntries : ℕ := 500

def parts (rel : String) : List String :=
  ((rel.toList.splitOnP (· = '/')).map String.ofList).filter (· ≠ "")

def named (shares : List Share) (rel : String) : Option (Share × List String) :=
  match parts rel with
  | [] => none
  | first :: rest => (shares.find? (·.name = first)).map (·, rest)

section
variable (t : FileTree) (links : ℕ) (shares : List Share)

/-- The walk of a request: `canonicalize` of the share's root with the parts after it. -/
def request (share : Share) (rest : List String) : FileTree.Walk := t.walk links [] (share.root ++ rest)

def resolve (rel : String) : Except ShareError Loc :=
  match named shares rel with
  | none => .error .noShare
  | some (share, rest) =>
    match (request t links share rest).2 with
    | none => .error .missing
    | some real => if share.root <+: real then .ok real else .error .outside

/-- A name in a directory, with what is stored under it; a link is not followed. -/
def entry (name : String) : FileNode → Entry
  | .directory => ⟨name, true, 0⟩
  | .file size => ⟨name, false, size⟩
  | .symlink target => ⟨name, false, target.utf8ByteSize⟩

/-- The loop over a directory's names: the entries so far, and whether some were left out. -/
def collect (real : Loc) : List String → List Entry → List Entry × Bool
  | [], entries => (entries, false)
  | name :: rest, entries =>
    if maxEntries ≤ entries.length then (entries, true)
    else
      match t.node (real ++ [name]) with
      | none => collect real rest entries
      | some node => collect real rest (entries ++ [entry name node])

def before (a b : Entry) : Bool := if a.isDir = b.isDir then decide (a.name ≤ b.name) else a.isDir

def list (path : String) : ListResponse :=
  if parts path = [] then ⟨path, shares.map fun s => ⟨s.name, true, 0⟩, false, false⟩
  else
    match resolve t links shares path with
    | .error _ => .refusal path
    | .ok real =>
      if t.node real = some .directory then
        let found := collect t real (t.names real) []
        ⟨path, found.1.mergeSort before, found.2, false⟩
      else .refusal path

end

end PeerBeam.Browse
