import PeerBeam.Sync.Folder

/-! Content-defined chunking: where a file is cut, and what the pieces are called. -/
namespace PeerBeam.Sync

def minChunk : Nat := 16 * 1024
def avgChunk : Nat := 64 * 1024
def maxChunk : Nat := 256 * 1024

/-- `avgChunk` is `2 ^ 16`: a cut needs sixteen zero bits. -/
def mask : UInt64 := UInt64.ofNat (avgChunk - 1)

def gearState : Nat → UInt64
  | 0 => 0x0123456789abcdef
  | n + 1 => gearState n * 6364136223846793005 + 1442695040888963407

/-- The gear table: one value of a fixed linear congruential sequence per byte. -/
def gear (b : UInt8) : UInt64 := gearState (b.toNat + 1)

/-- The rolling hash over the bytes from position `i` up to the limit. -/
def scan (digest : UInt64) (i : Nat) : Bytes → Nat
  | [] => i
  | b :: rest =>
    let digest := (digest <<< 1) + gear b
    if digest &&& mask = 0 then i + 1 else scan digest (i + 1) rest

def nextBoundary (data : Bytes) : Nat :=
  if data.length ≤ minChunk then data.length
  else scan 0 minChunk ((data.take (min data.length maxChunk)).drop minChunk)

theorem scan_bounds (digest : UInt64) (i : Nat) (data : Bytes) :
    i ≤ scan digest i data ∧ scan digest i data ≤ i + data.length := by
  induction data generalizing digest i with
  | nil => exact ⟨Nat.le_refl _, Nat.le_refl _⟩
  | cons b rest ih =>
    simp only [scan, List.length_cons]
    split
    · omega
    · have := ih ((digest <<< 1) + gear b) (i + 1)
      omega

/-- A chunk is never empty and never reaches past its file. -/
theorem nextBoundary_bounds {data : Bytes} (nonempty : data ≠ []) :
    0 < nextBoundary data ∧ nextBoundary data ≤ data.length := by
  have positive := List.length_pos_iff.mpr nonempty
  unfold nextBoundary
  split
  · omega
  · obtain ⟨low, high⟩ := scan_bounds 0 minChunk ((data.take (min data.length maxChunk)).drop minChunk)
    have : 0 < minChunk := by decide
    simp only [List.length_drop, List.length_take] at high
    omega

structure Chunk where
  offset : Nat
  len : Nat
  /-- The hash of the chunk's bytes: its identity. -/
  hash : String
  deriving DecidableEq

section Split
variable (hash : Bytes → String)

/-- The loop of `split`. Every chunk takes a byte, so `fuel` bytes need no more. -/
def splitFrom : (fuel start : Nat) → Bytes → List Chunk
  | 0, _, _ => []
  | _ + 1, _, [] => []
  | fuel + 1, start, b :: rest =>
    let len := nextBoundary (b :: rest)
    ⟨start, len, hash ((b :: rest).take len)⟩ :: splitFrom fuel (start + len) ((b :: rest).drop len)

def split (data : Bytes) : List Chunk := splitFrom hash data.length 0 data

/-- Read `len` bytes at `offset`. -/
def readRange (data : Bytes) (offset len : Nat) : Option Bytes :=
  if offset + len ≤ data.length then some ((data.drop offset).take len) else none

variable {hash}

theorem mem_splitFrom {fuel start : Nat} {data : Bytes} {c : Chunk}
    (mem : c ∈ splitFrom hash fuel start data) :
    ∃ skip, c.offset = start + skip ∧ skip + c.len ≤ data.length ∧
      c.hash = hash ((data.drop skip).take c.len) := by
  induction fuel generalizing start data with
  | zero => cases mem
  | succ fuel ih =>
    cases data with
    | nil => cases mem
    | cons b rest =>
      have bounds := nextBoundary_bounds (List.cons_ne_nil b rest)
      rcases List.mem_cons.mp mem with rfl | later
      · exact ⟨0, rfl, by simpa using bounds.2, rfl⟩
      · obtain ⟨skip, offset, fits, named⟩ := ih later
        refine ⟨nextBoundary (b :: rest) + skip, ?_, ?_, ?_⟩
        · rw [offset, Nat.add_assoc]
        · rw [List.length_drop] at fits
          omega
        · rw [named, List.drop_drop]

end Split

end PeerBeam.Sync
