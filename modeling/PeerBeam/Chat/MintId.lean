import PeerBeam.Lib.Numerals
import PeerBeam.Lib.Run

/-! The ids of messages: milliseconds and a counter that starts at random, in digits whose order is that of the
messages. -/
namespace PeerBeam.Chat.MintId
open Numerals TransitionRun

/-- What a call reads, the clock in milliseconds and eight random bytes. -/
structure Reading where
  nowMillis : Int
  sample : UInt64
  deriving DecidableEq

structure Minter where
  lastId : Nat × UInt64
  minted : List String
  deriving DecidableEq

def start : Minter := ⟨(0, 0), []⟩

/-- The clock has moved on since the last call. -/
def Advanced (last : Nat × UInt64) (r : Reading) : Prop := last.1 < r.nowMillis.toNat

instance (last : Nat × UInt64) (r : Reading) : Decidable (Advanced last r) :=
  inferInstanceAs (Decidable (_ < _))

def nextId (last : Nat × UInt64) (r : Reading) : Nat × UInt64 :=
  if Advanced last r then (r.nowMillis.toNat, r.sample) else (last.1, last.2 + 1)

/-- Thirteen decimal digits or more, and sixteen of base sixteen. -/
def format (id : Nat × UInt64) : String := String.ofList (padded 10 13 id.1 ++ padded 16 16 id.2.toNat)

def mintId (m : Minter) (r : Reading) : Minter :=
  ⟨nextId m.lastId r, m.minted ++ [format (nextId m.lastId r)]⟩

def width (millis : Nat) : Nat := (padded 10 13 millis).length

theorem length_suffix (suffix : UInt64) : (padded 16 16 suffix.toNat).length = 16 := by
  rw [length_padded]
  exact Nat.max_eq_left ((Nat.length_toDigits_le_iff (by decide) (by decide)).mpr suffix.toNat_lt)

/-- Ids of one width are in the order of the pairs they spell. -/
theorem format_lt_format {id id' : Nat × UInt64} (same : width id.1 = width id'.1)
    (lt : id.1 < id'.1 ∨ id.1 = id'.1 ∧ id.2 < id'.2) : format id < format id' := by
  rw [format, format, String.lt_iff, String.toList_ofList, String.toList_ofList]
  rcases lt with less | ⟨millis, less⟩
  · exact append_lt_append (padded_lt_padded (by decide) (by decide) same less) same _ _
  · rw [millis]
    refine List.append_left_lt (padded_lt_padded (by decide) (by decide) ?_ less)
    rw [length_suffix, length_suffix]

/-- The counter is not at its end where the clock stands still. -/
def CanBump (last : Nat × UInt64) (r : Reading) : Prop := ¬ Advanced last r → last.2.toNat + 1 < 2 ^ 64

/-- Where the clock moves on, its digits do not become more. -/
def KeepsWidth (last : Nat × UInt64) (r : Reading) : Prop :=
  Advanced last r → width r.nowMillis.toNat = width last.1

instance (last : Nat × UInt64) (r : Reading) : Decidable (CanBump last r) := inferInstanceAs (Decidable (_ → _))

instance (last : Nat × UInt64) (r : Reading) : Decidable (KeepsWidth last r) := inferInstanceAs (Decidable (_ → _))

theorem bump_toNat {suffix : UInt64} (room : suffix.toNat + 1 < 2 ^ 64) : (suffix + 1).toNat = suffix.toNat + 1 := by
  rw [UInt64.toNat_add, UInt64.toNat_one, Nat.mod_eq_of_lt room]

/-- An id is greater than the last one unless the counter wraps. -/
theorem format_lt_nextId_iff {last : Nat × UInt64} {r : Reading} (keeps : KeepsWidth last r) :
    format last < format (nextId last r) ↔ CanBump last r := by
  rw [nextId]
  split
  next moved =>
    exact iff_of_true (format_lt_format (keeps moved).symm (.inl moved)) fun still => absurd moved still
  next still =>
    rw [CanBump, forall_prop_of_true still]
    constructor
    · intro greater
      by_contra full
      have wraps : (last.2 + 1).toNat = 0 := by
        have bound := last.2.toNat_lt
        rw [UInt64.toNat_add, UInt64.toNat_one]
        omega
      have less : format (last.1, last.2 + 1) < format last := by
        refine format_lt_format rfl (.inr ⟨rfl, UInt64.lt_iff_toNat_lt.mpr ?_⟩)
        rw [wraps]
        omega
      exact String.lt_asymm greater less
    · intro room
      refine format_lt_format rfl (.inr ⟨rfl, UInt64.lt_iff_toNat_lt.mpr ?_⟩)
      rw [bump_toNat room]
      exact Nat.lt_succ_self _

/-- Either nothing is there to be greater than, or neither the counter nor the digits of the clock run over. -/
def Sorts (m : Minter) (r : Reading) : Prop :=
  m.minted = [] ∨ KeepsWidth m.lastId r ∧ CanBump m.lastId r

instance (m : Minter) : DecidablePred (Sorts m) := fun _ => inferInstanceAs (Decidable (_ ∨ _ ∧ _))

def EndsInLast (m : Minter) : Prop := m.minted = [] ∨ ∃ earlier, m.minted = earlier ++ [format m.lastId]

theorem minted_last (readings : List Reading) : EndsInLast (readings.foldl mintId start) :=
  invariant (.inl rfl) (fun m _ _ => .inr ⟨m.minted, rfl⟩) readings

def Rising (m : Minter) : Prop := EndsInLast m ∧ m.minted.Pairwise (· < ·)

theorem mintId_rising {m : Minter} {r : Reading} (rising : Rising m) (sorts : Sorts m r) : Rising (mintId m r) := by
  refine ⟨.inr ⟨m.minted, rfl⟩, ?_⟩
  rw [mintId]
  obtain ⟨none_ | ⟨earlier, last⟩, sorted⟩ := rising
  · rw [none_]
    exact List.pairwise_singleton _ _
  · have some_ : m.minted ≠ [] := by
      rw [last]
      exact List.concat_ne_nil _ _
    obtain ⟨keeps, room⟩ := sorts.resolve_left some_
    have greater := (format_lt_nextId_iff keeps).mpr room
    refine List.pairwise_append.mpr ⟨sorted, List.pairwise_singleton _ _, fun id mem id' mem' => ?_⟩
    rw [List.mem_singleton.mp mem']
    rw [last] at mem sorted
    rcases List.mem_append.mp mem with before | here
    · exact String.lt_trans ((List.pairwise_append.mp sorted).2.2 id before _ (List.mem_singleton_self _)) greater
    · rw [List.mem_singleton.mp here]
      exact greater

theorem rising_run {readings : List Reading} (sorts : Along mintId Sorts start readings) :
    Rising (readings.foldl mintId start) :=
  sorts.invariant ⟨.inl rfl, .nil⟩ fun _ _ => mintId_rising

/-- In every run in which neither runs over, each id is greater than all before it. -/
theorem minted_increasing {readings : List Reading} (sorts : Along mintId Sorts start readings) :
    (readings.foldl mintId start).minted.Pairwise (· < ·) :=
  (rising_run sorts).2

/-- A clock that stands still, goes back and moves on. -/
theorem minted_increasing_back_and_forth : ([⟨1767225600000, 7⟩, ⟨1767225600000, 3⟩, ⟨1767225599000, 9⟩,
    ⟨1767225600001, 0⟩].foldl mintId start).minted.Pairwise (· < ·) :=
  minted_increasing (by decide)

theorem minted_prefix (readings : List Reading) (m : Minter) : m.minted <+: (readings.foldl mintId m).minted :=
  foldl_related (R := fun m m' : Minter => m.minted <+: m'.minted) (fun _ => List.prefix_refl _) List.IsPrefix.trans
    (fun _ _ => List.prefix_append _ _) m readings

/-- Where the digits of the clock never become more, the counter is all that can run over. -/
theorem minted_increasing_iff {readings : List Reading}
    (keeps : Along mintId (fun m r => m.minted = [] ∨ KeepsWidth m.lastId r) start readings) :
    (readings.foldl mintId start).minted.Pairwise (· < ·) ↔ Along mintId Sorts start readings := by
  refine ⟨fun sorted => along_iff.mpr fun pre r post split => ?_, fun sorts => (rising_run sorts).2⟩
  rcases along_iff.mp keeps pre r post split with none_ | keep
  · exact .inl none_
  rcases minted_last pre with none_ | ⟨earlier, last⟩
  · exact .inl none_
  have here : mintId (pre.foldl mintId start) r = (pre ++ [r]).foldl mintId start := by
    rw [List.foldl_append]
    rfl
  have grown := minted_prefix post ((pre ++ [r]).foldl mintId start)
  rw [← List.foldl_append, List.append_assoc, List.singleton_append, ← split, ← here] at grown
  have both := sorted.sublist grown.sublist
  rw [mintId, last, List.append_assoc] at both
  have greater := (List.pairwise_append.mp both).2.1
  exact .inr ⟨keep, (format_lt_nextId_iff keep).mp ((List.pairwise_cons.mp greater).1 _ List.mem_cons_self)⟩

/-- The counter starts at its end, and the next call finds the clock where it was. -/
theorem minted_wraps : ¬ ([⟨1767225600000, 0xffffffffffffffff⟩, ⟨1767225600000, 0⟩].foldl mintId start).minted.Pairwise
    (· < ·) := by
  decide

end PeerBeam.Chat.MintId
