import PeerBeam.Transfer.Basic

/-! Path texts, and the numbered names a file gets beside one of its own name. -/
namespace PeerBeam.Transfer

/-- A path as text, `/`-separated. -/
abbrev Path := List Char

instance : LawfulBEq Path := inferInstance

def Path.text (p : Path) : String := String.ofList p

/-- `Path::file_name`: the last segment that is not empty or `.`, unless it is `..`. -/
def fileName (p : Path) : Option Path :=
  match ((p.splitOn '/').filter fun segment => segment ≠ [] ∧ segment ≠ ['.']).getLast? with
  | some ['.', '.'] => none
  | last => last

/-- `str::rsplit_once` at a dot. -/
def rsplitDot (name : Path) : Option (Path × Path) :=
  match name.reverse.span (· ≠ '.') with
  | (_, []) => none
  | (ext, _ :: stem) => some (stem.reverse, ext.reverse)

/-- A number goes before the extension; a leading dot names the file. -/
def stemExt (name : Path) : Path × Option Path :=
  match rsplitDot name with
  | some (stem, ext) => if stem = [] then (name, none) else (stem, some ext)
  | none => (name, none)

/-- `stem (n).ext`. -/
def numbered (stem : Path) (ext : Option Path) (n : Nat) : Path :=
  stem ++ [' ', '('] ++ Nat.toDigits 10 n ++ [')'] ++ (ext.map ('.' :: ·)).getD []

/-- The `n`-th name `free_destination` tries in place of `dest`. -/
def candidate (dest : Path) (n : Nat) : Path :=
  let name := (fileName dest).getD dest
  let dir := dest.take (dest.length - name.length)
  match stemExt name with
  | (stem, some ext) => numbered (dir ++ stem) (some ext) n
  | (_, none) => numbered dest none n

example : candidate "/in/archive.tar.gz".toList 2 = "/in/archive.tar (2).gz".toList := by decide +kernel
example : candidate "/in/.gitignore".toList 1 = "/in/.gitignore (1)".toList := by decide +kernel

/-- `Path::parent`, empty where there is none: the text up to the component before the
last, the root, or a leading dot. -/
def parent (p : Path) : Path :=
  let idle (segment : Path) : Bool := segment = [] ∨ segment = ['.']
  let segments := p.splitOn '/'
  match segments.reverse.dropWhile idle with
  | [] => []
  | _ :: rest =>
    match rest.dropWhile idle, segments.head? with
    | [], some [] => ['/']
    | [], some ['.'] => ['.']
    | [], _ => []
    | rest, _ => ['/'].intercalate rest.reverse

/-- The names `unique_path` tries: `dest` itself, then the numbered ones in its directory. -/
def uniqueCandidate (dest : Path) : Nat → Path
  | 0 => dest
  | n + 1 =>
    let (stem, ext) := ((fileName dest).map stemExt).getD ([], none)
    let name := numbered stem ext (n + 1)
    match parent dest with
    | [] => name
    | dir => if dir.getLast? = some '/' then dir ++ name else dir ++ '/' :: name

example : uniqueCandidate "/in//archive.tar.gz".toList 3 = "/in/archive.tar (3).gz".toList := by decide +kernel
example : uniqueCandidate "/.gitignore".toList 1 = "/.gitignore (1)".toList := by decide +kernel

def partSuffix : Path := ['.', 'p', 'a', 'r', 't']

/-- Where a partial receive of `dest` is written. -/
def partPath (dest : Path) : Path := dest ++ partSuffix

end PeerBeam.Transfer
