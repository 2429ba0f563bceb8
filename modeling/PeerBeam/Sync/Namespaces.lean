import Mathlib
import PeerBeam.Lib.Bytes
import PeerBeam.Lib.HexText

/-! Where the records of a synced folder are stored: the namespace its name is reduced to, and the key of a path. -/
namespace PeerBeam.Sync
open TextBytes (utf8 utf8_injective)

namespace SyncIndex

/-- The body of the loop: one byte of a folder's name. -/
def slugByte (b : UInt8) : List Char :=
  let c := Char.ofNat b.toNat
  if c.isAlphanum ∨ c = '.' ∨ c = '-' then [c]
  else if c = '_' then ['_', '_']
  else ['_', HexText.upperDigit (b.toNat / 16), HexText.upperDigit (b.toNat % 16)]

def namespaceSlug (folder : String) : String := String.ofList ((utf8 folder).flatMap slugByte)

def «namespace» (folder : String) : String := "sync-index" ++ "-" ++ namespaceSlug folder

/-- `str::replace` of one character. -/
def replace (c : Char) (by' : String) (text : List Char) : List Char :=
  text.flatMap fun d => if d = c then by'.toList else [d]

def key (path : String) : String := String.ofList (replace '/' "%2F" (replace '%' "%25" path.toList))

end SyncIndex

namespace ChunkStore

def slugByte (b : UInt8) : List Char :=
  let c := Char.ofNat b.toNat
  if c.isAlphanum ∨ c = '.' ∨ c = '-' then [c]
  else if c = '_' then ['_', '_']
  else ['_', HexText.upperDigit (b.toNat / 16), HexText.upperDigit (b.toNat % 16)]

def namespaceSlug (folder : String) : String := String.ofList ((utf8 folder).flatMap slugByte)

def «namespace» (folder : String) : String := "sync-chunks" ++ "-" ++ namespaceSlug folder

end ChunkStore

namespace SyncIndex

example : «namespace» "Photos/2026_é" = "sync-index-Photos_2F2026___C3_A9" := by decide +kernel

def readSlugByte : List Char → Option (UInt8 × List Char)
  | [] => none
  | c :: rest =>
    if c ≠ '_' then some (UInt8.ofNat c.toNat, rest)
    else if rest.head? = some '_' then some (95, rest.tail)
    else rest[0]?.bind fun high => rest[1]?.bind fun low => (HexText.readByte high low).map (·, rest.drop 2)

theorem toNat_ofNat (b : UInt8) : (Char.ofNat b.toNat).toNat = b.toNat := by
  have valid : b.toNat.isValidChar := .inl (by have small := b.toNat_lt; omega)
  rw [Char.toNat_ofNat, if_pos valid]

/-- What a byte of a slug is, and which characters it has. -/
theorem slugByte_cases (b : UInt8) :
    (∃ c : Char, slugByte b = [c] ∧ c ≠ '_' ∧ (c.isAlphanum ∨ c = '.' ∨ c = '-') ∧ c.toNat = b.toNat) ∨
    slugByte b = ['_', '_'] ∧ b = 95 ∨
    slugByte b = ['_', HexText.upperDigit (b.toNat / 16), HexText.upperDigit (b.toNat % 16)] := by
  rw [slugByte]
  split
  · next plain =>
    refine .inl ⟨_, rfl, ?_, plain, toNat_ofNat b⟩
    intro underscore
    rw [underscore] at plain
    revert plain
    decide
  · split
    · next underscore =>
      have value := congrArg Char.toNat underscore
      rw [toNat_ofNat] at value
      exact .inr (.inl ⟨rfl, UInt8.toNat_inj.mp value⟩)
    · exact .inr (.inr rfl)

theorem readSlugByte_slugByte (b : UInt8) (rest : List Char) : readSlugByte (slugByte b ++ rest) = some (b, rest) := by
  have digits : ∀ n < 16, HexText.upperDigit n ≠ '_' := by decide
  obtain ⟨high, low, joined⟩ := HexText.nibbles b
  rcases slugByte_cases b with ⟨c, written, plain, -, value⟩ | ⟨written, rfl⟩ | written
  · rw [written, List.singleton_append, readSlugByte, if_pos plain, value, UInt8.ofNat_toNat]
  · rw [written]
    rfl
  · have read : HexText.readByte (HexText.upperDigit (b.toNat / 16)) (HexText.upperDigit (b.toNat % 16)) = some b := by
      rw [HexText.readByte, HexText.value_upperDigit _ high, HexText.value_upperDigit _ low, Option.bind_some]
      dsimp only
      rw [joined]
    have other : ¬ some (HexText.upperDigit (b.toNat / 16)) = some '_' := fun same => digits _ high (Option.some.inj same)
    rw [written, List.cons_append, readSlugByte, if_neg (not_not.mpr rfl), List.cons_append, List.head?_cons, if_neg other]
    simp [read]

theorem slugByte_ne_nil (b : UInt8) : slugByte b ≠ [] := by
  rcases slugByte_cases b with ⟨c, written, -⟩ | ⟨written, -⟩ | written <;> simp [written]

theorem namespaceSlug_injective : Function.Injective namespaceSlug := by
  intro a b same
  exact utf8_injective (SymbolCode.flatMap_injective readSlugByte readSlugByte_slugByte slugByte_ne_nil (String.ofList_injective same))

theorem namespace_injective : Function.Injective «namespace» := by
  intro a b same
  exact namespaceSlug_injective ((String.append_right_inj _).mp same)

end SyncIndex

end PeerBeam.Sync
