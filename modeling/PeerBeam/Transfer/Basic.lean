import Mathlib.Data.List.Basic

/-! Frames and errors of the transfer layer. -/
namespace PeerBeam.Transfer

abbrev Bytes := List UInt8

inductive DomainError where
  | transfer (detail : String)
  | connection (detail : String)
  | integrity (detail : String)
  | storage (detail : String)
  | cancelled
  deriving DecidableEq, Repr

inductive FrameKind where
  | handshake
  | «meta»
  | chunk
  | ack
  | control
  deriving DecidableEq, Repr

structure Frame where
  kind : FrameKind
  payload : Bytes
  deriving DecidableEq, Repr

/-- The buffers `read_fill` fills, one after the other, until one stays empty. -/
def readChunks (chunk : Nat) : (fuel : Nat) → Bytes → List Bytes
  | 0, _ => []
  | fuel + 1, bytes =>
    match bytes.take chunk with
    | [] => []
    | buf => buf :: readChunks chunk fuel (bytes.drop chunk)

theorem readChunks_length (chunk fuel : Nat) (bytes : Bytes) : (readChunks chunk fuel bytes).length ≤ fuel := by
  induction fuel generalizing bytes with
  | zero => exact Nat.le_refl _
  | succ fuel ih =>
    rw [readChunks]
    split
    · exact Nat.zero_le _
    · exact Nat.succ_le_succ (ih _)

/-- A source of `bytes.length` bytes is read to its end. -/
theorem readChunks_flatten {chunk : Nat} (pos : 0 < chunk) (fuel : Nat) (bytes : Bytes) (enough : bytes.length ≤ fuel) :
    (readChunks chunk fuel bytes).flatten = bytes := by
  induction fuel generalizing bytes with
  | zero => rw [List.eq_nil_of_length_eq_zero (Nat.le_zero.mp enough)]; rfl
  | succ fuel ih =>
    cases bytes with
    | nil => simp [readChunks]
    | cons b bytes =>
      obtain ⟨k, rfl⟩ := Nat.exists_eq_succ_of_ne_zero (Nat.ne_of_gt pos)
      rw [readChunks, List.take_succ_cons, List.drop_succ_cons]
      dsimp only
      have shorter : (bytes.drop k).length ≤ fuel := by
        rw [List.length_drop]
        rw [List.length_cons] at enough
        omega
      rw [List.flatten_cons, ih _ shorter, List.cons_append, List.take_append_drop]

end PeerBeam.Transfer
