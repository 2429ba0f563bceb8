import PeerBeam.Session.ChannelKeys

/-! The ids one side hands out, whatever ids it is told to keep from handing out. -/
namespace PeerBeam.Session

namespace SessionRole

/-- What is left of a side's ids by two. -/
def parity : SessionRole → ℕ
  | .initiator => 1
  | .responder => 0

def peer : SessionRole → SessionRole
  | .initiator => .responder
  | .responder => .initiator

theorem parity_peer (role : SessionRole) : role.peer.parity ≠ role.parity := by
  cases role <;> decide

end SessionRole

namespace ChannelIdAllocator

theorem parity_new (role : SessionRole) : (new role).parity.toNat = role.parity := by
  cases role <;> rfl

private theorem checkedAdd_two {x next : UInt64} (h : checkedAdd x 2 = some next) :
    x.toNat + 2 < 2 ^ 64 ∧ next.toNat = x.toNat + 2 :=
  checkedAdd_eq_some.mp h

/-- The rounds an allocation has reach the end of the id space: it gives up only there. -/
theorem allocateLoop_none {isTaken : ChannelId → Bool} {rounds : ℕ} {a a' : ChannelIdAllocator}
    (enough : 2 ^ 64 ≤ rounds + a.next.toNat) (h : allocateLoop isTaken rounds a = (none, a')) :
    ∀ id : ChannelId, a.next.toNat ≤ id.toNat → id.toNat % 2 = a.next.toNat % 2 → id.toNat + 2 < 2 ^ 64 →
      id = 0 ∨ isTaken id = true := by
  induction rounds generalizing a with
  | zero =>
    have small := a.next.toNat_lt
    omega
  | succ rounds ih =>
    intro id le same fits
    unfold allocateLoop at h
    cases hn : checkedAdd a.next 2 with
    | none =>
      have full : 2 ^ 64 ≤ a.next.toNat + 2 := checkedAdd_eq_none.mp hn
      omega
    | some next =>
      obtain ⟨-, value⟩ := checkedAdd_two hn
      simp only [hn] at h
      split at h
      · cases h
      · rename_i skipped
        by_cases here : id = a.next
        · subst here
          by_contra free
          rw [not_or] at free
          exact skipped ⟨free.1, Bool.eq_false_iff.mpr free.2⟩
        · have apart : id.toNat ≠ a.next.toNat := fun e => here (UInt64.toNat_inj.mp e)
          refine ih ?_ h id ?_ ?_ fits <;> simp only [value] <;> omega

/-- An allocation fails only where no id is left that it could hand out. -/
theorem allocate_none {isTaken : ChannelId → Bool} {a : ChannelIdAllocator}
    (h : (a.allocate isTaken).1 = none) (id : ChannelId) (ahead : a.next.toNat ≤ id.toNat)
    (same : id.toNat % 2 = a.next.toNat % 2) (fits : id.toNat + 2 < 2 ^ 64) :
    id = 0 ∨ isTaken id = true := by
  refine @allocateLoop_none isTaken _ a _ ?_ (Prod.ext h rfl) id ahead same fits
  have small := a.next.toNat_lt
  omega

theorem allocate_advances (a : ChannelIdAllocator) (isTaken : ChannelId → Bool) :
    Advances a (a.allocate isTaken).2 :=
  allocateLoop_advances rfl

/-- An id that is handed out stands where the allocator does or ahead, and the allocator moves past it. -/
theorem allocateLoop_between {isTaken : ChannelId → Bool} {rounds : ℕ} {a a' : ChannelIdAllocator}
    {id : ChannelId} (h : allocateLoop isTaken rounds a = (some id, a')) :
    a.next.toNat ≤ id.toNat ∧ id.toNat < a'.next.toNat := by
  induction rounds generalizing a with
  | zero => cases h
  | succ rounds ih =>
    unfold allocateLoop at h
    cases hn : checkedAdd a.next 2 with
    | none =>
      rw [hn] at h
      cases h
    | some next =>
      obtain ⟨-, value⟩ := checkedAdd_two hn
      simp only [hn] at h
      split at h
      · cases h
        simp only [value]
        omega
      · obtain ⟨above, below⟩ := ih h
        simp only [value] at above
        omega

inductive Call
  | allocate (isTaken : ChannelId → Bool)
  | reserve (id : ChannelId)

structure Ledger where
  ids : ChannelIdAllocator
  handedOut : List ChannelId
  reserved : List ChannelId

namespace Ledger

def start (role : SessionRole) : Ledger := ⟨.new role, [], []⟩

def step (l : Ledger) : Call → Ledger
  | .allocate isTaken =>
    ⟨(l.ids.allocate isTaken).2, l.handedOut ++ (l.ids.allocate isTaken).1.toList, l.reserved⟩
  | .reserve id => ⟨l.ids.reserve id, l.handedOut, l.reserved ++ [id]⟩

def run (role : SessionRole) (calls : List Call) : Ledger := calls.foldl step (start role)

structure Past (role : SessionRole) (l : Ledger) : Prop where
  aligned : l.ids.Aligned
  parity : l.ids.parity.toNat = role.parity
  behind : ∀ id ∈ l.handedOut, id.toNat % 2 = role.parity ∧ id.toNat < l.ids.next.toNat
  reserved : ∀ id ∈ l.reserved, l.ids.Passed id

variable {role : SessionRole} {l : Ledger}

/-- What an allocator that is past it all hands out. -/
theorem Past.allocated (h : l.Past role) {isTaken : ChannelId → Bool} {id : ChannelId}
    (out : (l.ids.allocate isTaken).1 = some id) :
    id ≠ 0 ∧ isTaken id = false ∧ id.toNat % 2 = role.parity ∧ id ∉ l.reserved ∧
      l.ids.next.toNat ≤ id.toNat ∧ id.toNat < (l.ids.allocate isTaken).2.next.toNat := by
  have eq : l.ids.allocate isTaken = (some id, (l.ids.allocate isTaken).2) := Prod.ext out rfl
  obtain ⟨fresh, -, nonzero, free⟩ := allocateLoop_some h.aligned eq
  obtain ⟨above, below⟩ := allocateLoop_between eq
  refine ⟨nonzero, free, ?_, fun mem => fresh (h.reserved id mem), above, below⟩
  unfold Passed at fresh
  rw [← h.parity]
  omega

/-- Moving ahead leaves it all behind. -/
theorem Past.advance (h : l.Past role) {ids : ChannelIdAllocator} (ahead : Advances l.ids ids) :
    Past role ⟨ids, l.handedOut, l.reserved⟩ where
  aligned := ahead.aligned h.aligned
  parity := (congrArg UInt64.toNat ahead.parity).trans h.parity
  behind id mem := ⟨(h.behind id mem).1, (h.behind id mem).2.trans_le ahead.forward⟩
  reserved id mem := ahead.passed (h.reserved id mem)

theorem Past.step (h : l.Past role) (call : Call) : (l.step call).Past role := by
  cases call with
  | allocate isTaken =>
    have moved := h.advance (l.ids.allocate_advances isTaken)
    refine { moved with behind := fun id mem => ?_ }
    rcases List.mem_append.mp mem with before | out
    · exact moved.behind id before
    · obtain ⟨-, -, parity, -, -, below⟩ := h.allocated (Option.mem_toList.mp out)
      exact ⟨parity, below⟩
  | reserve id =>
    obtain ⟨ahead, passed⟩ := l.ids.reserve_advances h.aligned id
    have moved := h.advance ahead
    refine { moved with reserved := fun other mem => ?_ }
    rcases List.mem_append.mp mem with before | last
    · exact moved.reserved other before
    · rw [List.mem_singleton.mp last]
      exact passed

theorem past_run (role : SessionRole) (calls : List Call) : (run role calls).Past role := by
  apply TransitionRun.invariant
  · exact ⟨new_aligned role, parity_new role, fun _ => nofun, fun _ => nofun⟩
  · exact fun l call h => h.step call

/-- Whatever was asked before, an id that is handed out is non-zero, of the side's parity, above all it handed
out, free, was not reserved, and is one the other side hands out in no run. -/
theorem allocated_fresh (role : SessionRole) (calls : List Call) (isTaken : ChannelId → Bool) (id : ChannelId)
    (out : ((run role calls).ids.allocate isTaken).1 = some id) :
    id ≠ 0 ∧ id.toNat % 2 = role.parity ∧ (∀ earlier ∈ (run role calls).handedOut, earlier < id) ∧
      isTaken id = false ∧ id ∉ (run role calls).reserved ∧
      ∀ calls', id ∉ (run role.peer calls').handedOut := by
  have past := past_run role calls
  obtain ⟨nonzero, free, parity, unreserved, above, -⟩ := past.allocated out
  refine ⟨nonzero, parity, fun earlier mem => ?_, free, unreserved, fun calls' mem => ?_⟩
  · rw [UInt64.lt_iff_toNat_lt]
    exact (past.behind earlier mem).2.trans_le above
  · have other := ((past_run role.peer calls').behind id mem).1
    exact role.parity_peer (other.symm.trans parity)

/-- An id near the end of the space was reserved, as was the next one: three is skipped. -/
theorem allocated_past_reserved :
    let calls : List Call := [.reserve (2 ^ 64 - 1), .allocate fun _ => false, .reserve 3]
    (run .initiator calls).handedOut = [1] ∧ ((run .initiator calls).ids.allocate (· == 5)).1 = some 7 ∧
      7 ∉ (run .initiator calls).reserved ∧ ∀ calls', 7 ∉ (run .responder calls').handedOut := by
  have out : ((run .initiator [.reserve (2 ^ 64 - 1), .allocate fun _ => false, .reserve 3]).ids.allocate
      (· == 5)).1 = some 7 := by decide +kernel
  obtain ⟨-, -, -, -, unreserved, apart⟩ := allocated_fresh _ _ _ _ out
  exact ⟨by decide +kernel, out, unreserved, apart⟩

end Ledger
end ChannelIdAllocator
end PeerBeam.Session
