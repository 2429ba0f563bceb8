import Mathlib
import PeerBeam.Lib.Bytes
import PeerBeam.Lib.FileTree
import PeerBeam.Lib.HexText

/-! Records as files: each namespace is a directory, each key the hexadecimal name of a file in it. -/
namespace PeerBeam.AppStore
open TextBytes (ofUtf8 ofUtf8_utf8 utf8 utf8_injective)

abbrev Bytes := List UInt8

inductive StoreError
  | invalidNamespace (name : String)
  | crypto (text : String)
  | storage (text : String)
  deriving DecidableEq

def StoreError.toString : StoreError → String
  | .invalidNamespace name => "storage: invalid namespace " ++ name.quote
  | .crypto text => text
  | .storage text => "storage: " ++ text

structure EncryptionProvider (Nonce : Type) where
  «seal» : Nonce → Bytes → Except String Bytes
  «open» : Bytes → Except String Bytes

def EncryptionProvider.Opens {Nonce : Type} (enc : EncryptionProvider Nonce) : Prop :=
  ∀ nonce value sealed, enc.seal nonce value = .ok sealed → enc.open sealed = .ok value

/-- The components of a path text, `.` left out. -/
def components (text : String) : List String :=
  ((text.toList.splitOnP (· = '/')).map String.ofList).filter fun name => name ≠ "" ∧ name ≠ "."

/-- `Path::join`, by components: an absolute text replaces the path. -/
def join (dir : Loc) (text : String) : Loc :=
  if text.toList.head? = some '/' then components text else dir ++ components text

def namespaceDir (root : Loc) (name : String) : Except StoreError Loc :=
  if name ≠ "" ∧ name ≠ "." ∧ name ≠ ".." ∧
      (name.toList.all fun c => c.isAlphanum || c = '.' || c = '_' || c = '-') = true then
    .ok (join root name)
  else .error (.invalidNamespace name)

def hexEncode (bytes : Bytes) : String := String.ofList (HexText.encode bytes)

def hexDecode (text : String) : Option Bytes := HexText.decode text.toList

def fileName (key : String) : String := hexEncode (utf8 key)

def recordKey (file : String) : Option String := (hexDecode file).bind ofUtf8

abbrev Disk := Loc → Option (List (String × Bytes))

namespace Disk

def files (d : Disk) (dir : Loc) : List (String × Bytes) := (d dir).getD []

def createDirAll (d : Disk) (dir : Loc) : Disk := Function.update d dir (some (d.files dir))

def set (d : Disk) (dir : Loc) (file : String) (bytes : Bytes) : Disk :=
  Function.update d dir (some ((file, bytes) :: (d.files dir).filter (·.1 ≠ file)))

def erase (d : Disk) (dir : Loc) (file : String) : Disk :=
  Function.update d dir (some ((d.files dir).filter (·.1 ≠ file)))

end Disk

/-- The steps of a `put` that fail, with what the system says and what is left of the temp file; a process that dies
fails too. -/
structure PutFaults where
  createDir : Option String := none
  createTmp : Option String := none
  writeTmp : Option (Option Bytes × String) := none
  rename : Option (Bool × String) := none

/-- `unique_tmp`, beside the file. -/
def uniqueTmp (file : String) (pid seq : ℕ) : String := file ++ "." ++ toString pid ++ "." ++ toString seq ++ ".tmp"

/-- `write_private` once its temp file is there. The path of the empty key is the directory itself, and no file is
renamed to that. -/
def commit (d : Disk) (dir : Loc) (file : String) (sealed : Bytes) (tmp : String) (faults : PutFaults) :
    Disk × Except StoreError Unit :=
  match faults.writeTmp with
  | some (left, e) => ((left.map (d.set dir tmp)).getD d, .error (.storage ("write record tmp: " ++ e)))
  | none =>
    match faults.rename with
    | some (left, e) =>
      (if left then d.set dir tmp sealed else d, .error (.storage ("commit record after 20 attempts: " ++ e)))
    | none =>
      if file = "" then (d, .error (.storage "commit record after 20 attempts: is a directory"))
      else (d.set dir file sealed, .ok ())

/-- `put` after the record is sealed. The parent of the empty key's path is the root. -/
def write (d : Disk) (dir : Loc) (file : String) (sealed : Bytes) (tmp : String) (faults : PutFaults) :
    Disk × Except StoreError Unit :=
  match faults.createDir with
  | some e => (d, .error (.storage ("appstore dir: " ++ e)))
  | none =>
    let made := if file = "" then d else d.createDirAll dir
    match made dir with
    | none => (made, .error (.storage "create record tmp: not found"))
    | some files =>
      match faults.createTmp with
      | some e => (made, .error (.storage ("create record tmp: " ++ e)))
      | none =>
        if tmp ∈ files.map Prod.fst then (made, .error (.storage "create record tmp: exists"))
        else commit made dir file sealed tmp faults

section
variable {Nonce : Type} (enc : EncryptionProvider Nonce) (root : Loc)

def put (d : Disk) (name key : String) (value : Bytes) (nonce : Nonce) (pid seq : ℕ) (faults : PutFaults) :
    Disk × Except StoreError Unit :=
  match namespaceDir root name with
  | .error e => (d, .error e)
  | .ok dir =>
    match enc.seal nonce value with
    | .error e => (d, .error (.crypto e))
    | .ok sealed => write d dir (fileName key) sealed (uniqueTmp (fileName key) pid seq) faults

/-- `fault` is what the system says where the read fails. -/
def get (d : Disk) (name key : String) (fault : Option String) : Except StoreError (Option Bytes) :=
  match namespaceDir root name with
  | .error e => .error e
  | .ok dir =>
    match fault with
    | some e => .error (.storage ("read record: " ++ e))
    | none =>
      match d dir with
      | none => .ok none
      | some files =>
        if fileName key = "" then .error (.storage "read record: is a directory")
        else
          match files.find? (·.1 = fileName key) with
          | none => .ok none
          | some f =>
            match enc.open f.2 with
            | .error e => .error (.crypto e)
            | .ok value => .ok (some value)

/-- Whether the record was there; `fault` is what the system says where the removal fails. -/
def delete (d : Disk) (name key : String) (fault : Option String) : Disk × Except StoreError Bool :=
  match namespaceDir root name with
  | .error e => (d, .error e)
  | .ok dir =>
    match fault with
    | some e => (d, .error (.storage ("delete record: " ++ e)))
    | none =>
      match d dir with
      | none => (d, .ok false)
      | some files =>
        if fileName key = "" then (d, .error (.storage "delete record: is a directory"))
        else if fileName key ∈ files.map Prod.fst then (d.erase dir (fileName key), .ok true)
        else (d, .ok false)

def clear (d : Disk) (name : String) (fault : Option (List String × String)) : Disk × Except StoreError Unit :=
  match namespaceDir root name with
  | .error e => (d, .error e)
  | .ok dir =>
    match fault with
    | some (removed, e) =>
      (Function.update d dir ((d dir).map fun files => files.filter (·.1 ∉ removed)),
        .error (.storage ("clear namespace: " ++ e)))
    | none => (Function.update d dir none, .ok ())

/-- The loop over a directory: files that are no records are passed over. -/
def collect : List (String × Bytes) → List (String × Bytes) → Except StoreError (List (String × Bytes))
  | [], out => .ok out
  | (file, bytes) :: files, out =>
    match recordKey file with
    | none => collect files out
    | some key =>
      match enc.open bytes with
      | .error e => .error (.crypto e)
      | .ok value => collect files (out ++ [(key, value)])

def list (d : Disk) (name : String) : Except StoreError (List (String × Bytes)) :=
  match namespaceDir root name with
  | .error e => .error e
  | .ok dir => (collect enc (d.files dir) []).map fun out => out.mergeSort fun a b => decide (a.1 ≤ b.1)

end

theorem recordKey_fileName (key : String) : recordKey (fileName key) = some key := by
  rw [recordKey, fileName, hexDecode, hexEncode, String.toList_ofList, HexText.decode_encode, Option.bind_some,
    ofUtf8_utf8]

theorem fileName_injective : Function.Injective fileName := by
  intro a b same
  have read := recordKey_fileName a
  rw [same, recordKey_fileName] at read
  exact (Option.some.inj read).symm

/-- A file with a dot in its name is no record. -/
theorem recordKey_of_dot {file : String} (dot : '.' ∈ file.toList) : recordKey file = none := by
  rw [recordKey]
  cases read : hexDecode file with
  | none => rfl
  | some bytes =>
    rcases HexText.of_decode read '.' dot with sign | digit
    · cases sign
    · exact absurd (by decide) digit

theorem dot_uniqueTmp (file : String) (pid seq : ℕ) : '.' ∈ (uniqueTmp file pid seq).toList := by
  simp [uniqueTmp]

theorem no_dot_fileName (key : String) : '.' ∉ (fileName key).toList := by
  intro dot
  have none_ := recordKey_of_dot dot
  rw [recordKey_fileName] at none_
  cases none_

theorem components_plain {text : String} (some_ : text ≠ "") (not_dot : text ≠ ".") (plain : '/' ∉ text.toList) :
    components text = [text] := by
  have whole : ∀ c ∈ text.toList, decide (c = '/') = false :=
    fun c mem => decide_eq_false fun slash => plain (slash ▸ mem)
  rw [components, List.splitOnP_eq_singleton whole, List.map_singleton, String.ofList_toList]
  simp [some_, not_dot]

theorem join_plain {dir : Loc} {text : String} (plain : '/' ∉ text.toList) : join dir text = dir ++ components text := by
  rw [join, if_neg]
  intro head
  exact plain (List.mem_of_head? head)

theorem namespaceDir_eq_ok {root dir : Loc} {name : String} (ok : namespaceDir root name = .ok dir) :
    dir = root ++ [name] ∧ name ≠ "" ∧ name ≠ "." ∧ name ≠ ".." ∧ '/' ∉ name.toList := by
  rw [namespaceDir] at ok
  split at ok
  · next valid =>
    obtain ⟨some_, not_dot, not_dots, allowed⟩ := valid
    have plain : '/' ∉ name.toList := by
      intro slash
      have legal := List.all_eq_true.mp allowed '/' slash
      revert legal
      decide
    cases ok
    rw [join_plain plain, components_plain some_ not_dot plain]
    exact ⟨rfl, some_, not_dot, not_dots, plain⟩
  · cases ok

end PeerBeam.AppStore
