import PeerBeam.Notes.Store

/-! One exchange of notes: the batches of one device, and the single answer to the last. -/
namespace PeerBeam.Notes

def maxBatchBytes : Nat := 256 * 1024
def maxBatchNotes : Nat := 256

/-- `more` announces a further batch; a batch with `reply` is never answered. -/
structure NoteBatch where
  notes : List Note
  more : Bool
  reply : Bool
  deriving DecidableEq

namespace NoteBatch

def cost (n : Note) : Nat :=
  n.id.utf8ByteSize + n.title.utf8ByteSize + n.body.utf8ByteSize + n.updatedAt.utf8ByteSize + 64

/-- The loop of `split`, with the open batch and its estimated size. -/
def splitFrom (reply : Bool) : List Note → List Note → Nat → List NoteBatch
  | [], current, _ => [⟨current, false, reply⟩]
  | n :: notes, current, bytes =>
    if current ≠ [] ∧ (maxBatchNotes ≤ current.length ∨ maxBatchBytes < bytes + cost n) then
      ⟨current, true, reply⟩ :: splitFrom reply notes [n] (cost n)
    else splitFrom reply notes (current ++ [n]) (bytes + cost n)

def split (notes : List Note) (reply : Bool) : List NoteBatch := splitFrom reply notes [] 0

/-- What `from_frame` asks of a decoded payload of `size` bytes. -/
def fromFrame (size : Nat) (batch : NoteBatch) : Except NoteError NoteBatch :=
  if maxBatchBytes < size then
    .error (.serialization ("batch of " ++ toString size ++ " bytes exceeds 262144"))
  else if maxBatchNotes < batch.notes.length then
    .error (.serialization ("batch of " ++ toString batch.notes.length ++ " notes exceeds 256"))
  else (batch.notes.forM fun n => Note.check n.id n.title n.body).map fun _ => batch

structure Sequence (batches : List NoteBatch) (notes : List Note) (reply : Bool) : Prop where
  last : ∃ init final, batches = init ++ [final] ∧ (∀ b ∈ init, b.more = true) ∧
    final.more = false
  notes : batches.flatMap (·.notes) = notes
  reply : ∀ b ∈ batches, b.reply = reply
  length : ∀ b ∈ batches, b.notes.length ≤ maxBatchNotes

theorem splitFrom_sequence (reply : Bool) (notes current : List Note) (bytes : Nat)
    (short : current.length ≤ maxBatchNotes) :
    Sequence (splitFrom reply notes current bytes) (current ++ notes) reply := by
  induction notes generalizing current bytes with
  | nil =>
    refine ⟨⟨[], ⟨current, false, reply⟩, rfl, by simp, rfl⟩, ?_, ?_, ?_⟩ <;>
      simp [splitFrom, short]
  | cons n notes ih =>
    rw [splitFrom]
    split
    · obtain ⟨⟨init, final, cut, open', closed⟩, contents, flags, bounds⟩ :=
        ih [n] (cost n) (by simp [maxBatchNotes])
      refine ⟨⟨⟨current, true, reply⟩ :: init, final, by rw [cut]; rfl, ?_, closed⟩, ?_, ?_, ?_⟩
      · exact List.forall_mem_cons.mpr ⟨rfl, open'⟩
      · rw [List.flatMap_cons, contents]
        rfl
      · exact List.forall_mem_cons.mpr ⟨rfl, flags⟩
      · exact List.forall_mem_cons.mpr ⟨short, bounds⟩
    · rename_i fits
      have room : (current ++ [n]).length ≤ maxBatchNotes := by
        rw [List.length_append, List.length_singleton]
        by_cases empty : current = []
        · rw [empty]
          exact Nat.le_add_left 1 255
        · exact Nat.not_le.mp fun full => fits ⟨empty, .inl full⟩
      have seq := ih (current ++ [n]) (bytes + cost n) room
      rwa [List.append_assoc] at seq

theorem split_sequence (notes : List Note) (reply : Bool) : Sequence (split notes reply) notes reply :=
  splitFrom_sequence reply notes [] 0 (Nat.zero_le _)

end NoteBatch

namespace NoteStore

/-- The handler of a session. Nothing is stored for a peer that may not sync notes or of a batch
that breaks a bound, and only the last batch of a peer's own exchange is answered. -/
def handle (permitted : Bool) (size : Nat) (s : NoteStore) (batch : NoteBatch) :
    Except NoteError (NoteStore × List NoteBatch) :=
  if permitted then
    (batch.fromFrame size).map fun batch =>
      let s' := s.mergeAll batch.notes
      (s', if !batch.more && !batch.reply then NoteBatch.split s'.all true else [])
  else .ok (s, [])

variable (size : NoteBatch → Nat)

/-- A sequence of batches from a permitted peer, with all answers. -/
def serve : NoteStore → List NoteBatch → Except NoteError (NoteStore × List NoteBatch)
  | s, [] => .ok (s, [])
  | s, batch :: rest =>
    match s.handle true (size batch) batch with
    | .error e => .error e
    | .ok (s', out) =>
      match s'.serve rest with
      | .error e => .error e
      | .ok (s'', outs) => .ok (s'', out ++ outs)

/-- Both stores after an exchange, what was answered and what would be sent next. -/
structure Exchanged where
  initiator : NoteStore
  responder : NoteStore
  answer : List NoteBatch
  further : List NoteBatch

def exchange (a b : NoteStore) : Except NoteError Exchanged :=
  match b.serve size (NoteBatch.split a.all false) with
  | .error e => .error e
  | .ok (b', answer) =>
    match a.serve size answer with
    | .error e => .error e
    | .ok (a', further) => .ok ⟨a', b', answer, further⟩

variable {size}

def Bounded (s : NoteStore) : Prop := ∀ n ∈ s.all, Note.check n.id n.title n.body = .ok ()

theorem mem_mergeAll {s : NoteStore} {notes : List Note} {n : Note}
    (mem : n ∈ (s.mergeAll notes).all) : n ∈ s.all ∨ n ∈ notes := by
  have found := mem_all.mp mem
  rw [get_mergeAll] at found
  have best := Note.wins_selects.foldl_isBest (notes.filter (·.id = n.id))
    (Selection.isBest_held (s.get n.id))
  rw [found] at best
  rcases best.1 with held | offered
  · exact .inl (mem_all.mpr held)
  · exact .inr (List.mem_of_mem_filter offered)

theorem mem_put {s : NoteStore} {n m : Note} (mem : m ∈ (s.put n).all) : m ∈ s.all ∨ m = n := by
  have found := mem_all.mp mem
  rw [get_put] at found
  split at found
  · exact .inr (Option.some.inj found).symm
  · exact .inl (mem_all.mpr found)

theorem Bounded.put {s : NoteStore} (bounded : s.Bounded) {n : Note}
    (fits : Note.check n.id n.title n.body = .ok ()) : (s.put n).Bounded := by
  intro m mem
  rcases mem_put mem with old | rfl
  · exact bounded m old
  · exact fits

theorem Bounded.mergeAll {s : NoteStore} (bounded : s.Bounded) {notes : List Note}
    (fits : ∀ n ∈ notes, Note.check n.id n.title n.body = .ok ()) : (s.mergeAll notes).Bounded :=
  fun n mem => (mem_mergeAll mem).elim (bounded n) (fits n)

theorem forM_check_ok {notes : List Note} :
    (notes.forM fun n => Note.check n.id n.title n.body) = .ok () ↔
      ∀ n ∈ notes, Note.check n.id n.title n.body = .ok () := by
  induction notes with
  | nil => exact ⟨fun _ n mem => absurd mem List.not_mem_nil, fun _ => rfl⟩
  | cons n notes ih =>
    rw [List.forall_mem_cons, ← ih, List.forM]
    cases Note.check n.id n.title n.body with
    | error e => exact ⟨fun h => (nomatch h), fun h => (nomatch h.1)⟩
    | ok u => exact ⟨fun h => ⟨rfl, h⟩, And.right⟩

theorem fromFrame_ok {size : Nat} {batch : NoteBatch} (small : size ≤ maxBatchBytes)
    (short : batch.notes.length ≤ maxBatchNotes)
    (fits : ∀ n ∈ batch.notes, Note.check n.id n.title n.body = .ok ()) :
    batch.fromFrame size = .ok batch := by
  rw [NoteBatch.fromFrame, if_neg (Nat.not_lt.mpr small), if_neg (Nat.not_lt.mpr short),
    forM_check_ok.mpr fits]
  rfl

end NoteStore

end PeerBeam.Notes
