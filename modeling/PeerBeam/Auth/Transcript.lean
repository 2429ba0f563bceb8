import Mathlib.Data.Sym.Sym2
import PeerBeam.Lib.Bytes

/-! The transcript of a handshake: what both sides presented, in one order and one encoding. -/
namespace PeerBeam.Auth

abbrev Bytes := List UInt8

abbrev PublicKey := Vector UInt8 32

structure HandshakeSide where
  pubkey : PublicKey
  nonce : Vector UInt8 16
  deviceId : String
  name : String
  deriving DecidableEq

def asBytes (text : String) : Bytes := text.toUTF8.toList

def framed (text : String) : Bytes := BigEndian.write 4 (asBytes text).length ++ asBytes text

namespace HandshakeSide

def bytes (side : HandshakeSide) : Bytes :=
  side.pubkey.toList ++ (side.nonce.toList ++ (framed side.deviceId ++ framed side.name))

def Short (side : HandshakeSide) : Prop :=
  (asBytes side.deviceId).length < 256 ^ 4 ∧ (asBytes side.name).length < 256 ^ 4

instance (side : HandshakeSide) : Decidable side.Short := inferInstanceAs (Decidable (_ ∧ _))

end HandshakeSide

/-- The sides by public key; where the keys are equal, as they are given. -/
def ordered (a b : HandshakeSide) : HandshakeSide × HandshakeSide :=
  if a.pubkey.toList ≤ b.pubkey.toList then (a, b) else (b, a)

def transcript (a b : HandshakeSide) : Bytes :=
  let (first, second) := ordered a b
  first.bytes ++ second.bytes

theorem transcript_eq (a b : HandshakeSide) :
    transcript a b = (ordered a b).1.bytes ++ (ordered a b).2.bytes :=
  rfl

theorem framed_append_inj {text text' : String} {rest rest' : Bytes} (short : (asBytes text).length < 256 ^ 4)
    (short' : (asBytes text').length < 256 ^ 4) (h : framed text ++ rest = framed text' ++ rest') :
    text = text' ∧ rest = rest' := by
  rw [framed, framed, List.append_assoc, List.append_assoc] at h
  obtain ⟨texts, rests⟩ := BigEndian.append_framed_inj short short' h
  exact ⟨TextBytes.toUTF8_injective texts, rests⟩

/-- A presented side ends where its own lengths say, whatever comes behind it. -/
theorem HandshakeSide.bytes_append_inj {side side' : HandshakeSide} {rest rest' : Bytes} (short : side.Short)
    (short' : side'.Short) (h : side.bytes ++ rest = side'.bytes ++ rest') : side = side' ∧ rest = rest' := by
  simp only [bytes, List.append_assoc] at h
  obtain ⟨pubkey, h⟩ := List.append_inj h (by simp)
  obtain ⟨nonce, h⟩ := List.append_inj h (by simp)
  obtain ⟨deviceId, h⟩ := framed_append_inj short.1 short'.1 h
  obtain ⟨name, rests⟩ := framed_append_inj short.2 short'.2 h
  cases side
  cases side'
  refine ⟨(HandshakeSide.mk.injEq ..).mpr ⟨?_, ?_, deviceId, name⟩, rests⟩
  · exact Vector.toList_inj.mp pubkey
  · exact Vector.toList_inj.mp nonce

section
variable {a b c d : HandshakeSide}

theorem ordered_comm (differ : a.pubkey ≠ b.pubkey) : ordered a b = ordered b a := by
  rw [ordered, ordered]
  rcases List.le_total a.pubkey.toList b.pubkey.toList with le | le
  · have gt : ¬ b.pubkey.toList ≤ a.pubkey.toList := fun ge =>
      differ (Vector.toList_inj.mp (List.le_antisymm le ge))
    rw [if_pos le, if_neg gt]
  · have gt : ¬ a.pubkey.toList ≤ b.pubkey.toList := fun ge =>
      differ (Vector.toList_inj.mp (List.le_antisymm ge le))
    rw [if_neg gt, if_pos le]

theorem ordered_cases (a b : HandshakeSide) : ordered a b = (a, b) ∨ ordered a b = (b, a) := by
  rw [ordered]
  split
  · exact .inl rfl
  · exact .inr rfl

theorem sym2_ordered (a b : HandshakeSide) : s((ordered a b).1, (ordered a b).2) = s(a, b) := by
  rcases ordered_cases a b with same | swapped
  · rw [same]
  · rw [swapped, Sym2.eq_swap]

/-- Whichever side speaks first. -/
theorem transcript_comm (differ : a.pubkey ≠ b.pubkey) : transcript a b = transcript b a := by
  rw [transcript_eq, transcript_eq, ordered_comm differ]

private theorem short_ordered (ha : a.Short) (hb : b.Short) : (ordered a b).1.Short ∧ (ordered a b).2.Short := by
  rcases ordered_cases a b with same | swapped
  · rw [same]
    exact ⟨ha, hb⟩
  · rw [swapped]
    exact ⟨hb, ha⟩

/-- A transcript tells the two sides, and all they presented. -/
theorem sides_of_transcript (ha : a.Short) (hb : b.Short) (hc : c.Short) (hd : d.Short)
    (h : transcript a b = transcript c d) : s(a, b) = s(c, d) := by
  obtain ⟨first, second⟩ := short_ordered ha hb
  obtain ⟨first', second'⟩ := short_ordered hc hd
  rw [transcript_eq, transcript_eq] at h
  obtain ⟨firsts, tail⟩ := HandshakeSide.bytes_append_inj first first' h
  have ends : (ordered a b).2.bytes ++ [] = (ordered c d).2.bytes ++ [] := congrArg (· ++ []) tail
  obtain ⟨seconds, -⟩ := HandshakeSide.bytes_append_inj second second' ends
  rw [← sym2_ordered a b, ← sym2_ordered c d, firsts, seconds]

end

end PeerBeam.Auth
