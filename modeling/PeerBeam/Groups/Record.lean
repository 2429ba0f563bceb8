import Mathlib

/-! Groups as one device records them, and the checks on names and device ids. -/
namespace PeerBeam.Groups

abbrev DeviceId := String

def maxName : Nat := 64
def maxMembers : Nat := 64

inductive GroupError
  | emptyName
  | nameTooLong
  | duplicateName (name : String)
  | unknownGroup (id : String)
  | tooManyMembers
  | badMember (id reason : String)
  deriving DecidableEq

/-- A group; `members` names every device in it, this one included. -/
structure Group where
  id : String
  name : String
  members : List DeviceId
  deriving DecidableEq

def Group.recipients (g : Group) (me : DeviceId) : List DeviceId := g.members.filter (· ≠ me)

/-- The characters of Unicode's `White_Space`. -/
def isWhitespace (c : Char) : Bool :=
  (9 ≤ c.toNat && c.toNat ≤ 13) || c.toNat = 0x20 || c.toNat = 0x85 || c.toNat = 0xa0 ||
    c.toNat = 0x1680 || (0x2000 ≤ c.toNat && c.toNat ≤ 0x200a) || c.toNat = 0x2028 ||
    c.toNat = 0x2029 || c.toNat = 0x202f || c.toNat = 0x205f || c.toNat = 0x3000

def isControl (c : Char) : Bool := c.toNat ≤ 0x1f || (0x7f ≤ c.toNat && c.toNat ≤ 0x9f)

def trim (s : String) : String :=
  String.ofList ((s.toList.dropWhile isWhitespace).rdropWhile isWhitespace)

/-- The form in which two names are compared; `toLowercase` is that of the standard library. -/
def normalise (toLowercase : String → String) (name : String) : String :=
  let words := (name.toList.splitOnP isWhitespace).filter (· ≠ [])
  toLowercase (String.intercalate " " (words.map String.ofList))

def validateName (name : String) : Except GroupError String :=
  if (trim name).toList = [] then .error .emptyName
  else if maxName < (trim name).toList.length then .error .nameTooLong
  else .ok (trim name)

/-- A character that a device id may not have, as the error shows it. -/
def showBad (c : Char) : String :=
  if c.toNat = 0 then "'\\0'"
  else if c = '\t' then "'\\t'"
  else if c = '\n' then "'\\n'"
  else if c = '\r' then "'\\r'"
  else if c = '\\' then "'\\\\'"
  else if isControl c then "'\\u\x7b" ++ String.ofList (Nat.toDigits 16 c.toNat) ++ "\x7d'"
  else "'" ++ c.toString ++ "'"

def validateMember (id : DeviceId) : Except GroupError Unit :=
  if (trim id).toList = [] then .error (.badMember id "it is empty")
  else
    match id.toList.find? fun c => isControl c || c = '/' || c = '\\' || c.toNat = 0 with
    | some bad => .error (.badMember id ("it contains " ++ showBad bad))
    | none => .ok ()

end PeerBeam.Groups
