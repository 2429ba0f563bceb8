import Mathlib

/-! Whether downloaded bytes are the release this project signed. The signature check and SHA-256 are
parameters. -/
namespace PeerBeam.Update

abbrev Bytes := List UInt8

inductive VerifyError
  | noKeyCompiledIn
  | malformedKey (why : String)
  | malformedSignature (why : String)
  | badSignature (why : String)
  | notListed (name : String)
  | digestMismatch (name expected actual : String)
  deriving DecidableEq

def VerifyError.text : VerifyError → String
  | noKeyCompiledIn =>
    "this build has no release signing key compiled in, so a download cannot be verified"
  | malformedKey why => s!"the compiled-in signing key is not a valid minisign public key: {why}"
  | malformedSignature why => s!"the signature file could not be read: {why}"
  | badSignature why => s!"the checksums are not signed by this project's key: {why}"
  | notListed name => s!"{name} is not listed in the signed checksums"
  | digestMismatch name expected actual =>
    s!"{name} does not match its signed checksum (expected {expected}, got {actual})"

/-- The `minisign-verify` crate. -/
structure Minisign where
  PublicKey : Type
  Signature : Type
  fromBase64 : String → Except String PublicKey
  decode : String → Except String Signature
  verify : PublicKey → ByteArray → Signature → (allowLegacy : Bool) → Except String Unit

abbrev Sha256 := Bytes → Vector UInt8 32

def signingPublicKey : String := "RWTGMEdNd5xF/JoeUsh7Y8S9ItJUd/MOzzDziVa53xMzW0EJuZIveB0D"

def hexDigit (n : UInt8) : Char := ("0123456789abcdef".toList[n.toNat]?).getD '0'

def hex (digest : Vector UInt8 32) : List Char :=
  digest.toList.flatMap fun (b : UInt8) => [hexDigit (b >>> 4), hexDigit (b &&& 0x0f)]

def digestOf (sha : Sha256) (bytes : Bytes) : String := String.ofList (hex (sha bytes))

def isWhitespace (c : Char) : Bool :=
  (9 ≤ c.toNat ∧ c.toNat ≤ 13) ∨ (0x2000 ≤ c.toNat ∧ c.toNat ≤ 0x200a) ∨
    c.toNat ∈ [0x20, 0x85, 0xa0, 0x1680, 0x2028, 0x2029, 0x202f, 0x205f, 0x3000]

def trim (s : List Char) : List Char := (s.dropWhile isWhitespace).rdropWhile isWhitespace

/-- The lines without their ends; nothing follows the last end. -/
def lines (s : List Char) : List (List Char) :=
  let split := s.splitOn '\n'
  let split := if split.getLast? = some [] then split.dropLast else split
  split.map fun line => if line.getLast? = some '\r' then line.dropLast else line

def splitWhitespace (s : List Char) : List (List Char) := (s.splitOnP isWhitespace).filter (· ≠ [])

def isHexdigit (c : Char) : Bool :=
  ('0' ≤ c ∧ c ≤ '9') ∨ ('a' ≤ c ∧ c ≤ 'f') ∨ ('A' ≤ c ∧ c ≤ 'F')

/-- What a line says of the file, if it is about it: no digest where the entry is malformed. -/
def digestInLine (name : String) (line : List Char) : Option (Option String) :=
  match splitWhitespace (trim line) with
  | digest :: file :: _ =>
    if file.dropWhile (· = '*') ≠ name.toList then none
    else if digest.length ≠ 64 ∨ !digest.all isHexdigit then some none
    else some (some (String.ofList (digest.map Char.toLower)))
  | _ => none

def digestFor (sums name : String) : Option String :=
  ((lines sums.toList).findSome? (digestInLine name)).join

variable (m : Minisign) (sha : Sha256)

def verifySumsWith (publicKeyB64 : String) (sums : ByteArray) (signature : String) :
    Except VerifyError Unit := do
  let publicKeyB64 := String.ofList (trim publicKeyB64.toList)
  if publicKeyB64 = "" then throw .noKeyCompiledIn
  let key ← (m.fromBase64 publicKeyB64).mapError .malformedKey
  let sig ← (m.decode signature).mapError .malformedSignature
  (m.verify key sums sig false).mapError .badSignature

def verifySums (sums : ByteArray) (signature : String) : Except VerifyError Unit :=
  verifySumsWith m signingPublicKey sums signature

def verifyArtifactWith (publicKeyB64 : String) (sums : ByteArray) (signature name : String)
    (bytes : Bytes) : Except VerifyError Unit := do
  verifySumsWith m publicKeyB64 sums signature
  let text ← (String.fromUTF8? sums).elim (.error (.malformedSignature "checksums are not UTF-8")) .ok
  let expected ← (digestFor text name).elim (.error (.notListed name)) .ok
  let actual := digestOf sha bytes
  if actual ≠ expected then throw (.digestMismatch name expected actual)

def verifyArtifact (sums : ByteArray) (signature name : String) (bytes : Bytes) : Except VerifyError Unit :=
  verifyArtifactWith m sha signingPublicKey sums signature name bytes

def Verified (name : String) (bytes : Bytes) : Prop :=
  ∃ sums signature, verifySums m sums.toUTF8 signature = .ok () ∧
    digestFor sums name = some (digestOf sha bytes)

variable {m sha}

theorem fromUTF8?_toUTF8 (text : String) : String.fromUTF8? text.toUTF8 = some text := by
  rw [String.fromUTF8?, String.toUTF8_eq_toByteArray, dif_pos text.isValidUTF8]
  rfl

theorem verifyArtifact_ok_iff {sums signature name : String} {bytes : Bytes} :
    verifyArtifact m sha sums.toUTF8 signature name bytes = .ok () ↔
      verifySums m sums.toUTF8 signature = .ok () ∧ digestFor sums name = some (digestOf sha bytes) := by
  show verifySums m sums.toUTF8 signature >>= _ = Except.ok () ↔ _
  cases verifySums m sums.toUTF8 signature with
  | error e => exact iff_of_false (fun h => nomatch h) fun h => nomatch h.1
  | ok =>
    show (Option.elim (String.fromUTF8? sums.toUTF8) _ Except.ok >>= _) = Except.ok () ↔ _
    rw [fromUTF8?_toUTF8]
    show ((digestFor sums name).elim _ Except.ok >>= _) = Except.ok () ↔ _
    cases digestFor sums name with
    | none => exact iff_of_false (fun h => nomatch h) fun h => nomatch h.2
    | some expected =>
      show (if digestOf sha bytes ≠ expected then _ else _) = Except.ok () ↔ _
      split
      next apart => exact iff_of_false (fun h => nomatch h) fun h => apart (Option.some.inj h.2).symm
      next same => exact iff_of_true rfl ⟨rfl, congrArg some (not_not.mp same).symm⟩

end PeerBeam.Update
