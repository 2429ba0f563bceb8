import Mathlib
import PeerBeam.Lib.Selection
import PeerBeam.Lib.SortedMap

/-! Notes, their tombstones, and the store that keeps one version of each. -/
namespace PeerBeam.Notes

def maxBody : Nat := 65536
def maxTitle : Nat := 256
def maxId : Nat := 128

inductive NoteError
  | bodyTooLarge (len : Nat)
  | titleTooLarge (len : Nat)
  | badId (text : String)
  | serialization (text : String)
  deriving DecidableEq

structure Note where
  id : String
  title : String
  body : String
  updatedAt : String
  deleted : Bool
  deriving DecidableEq

namespace Note

/-- The bounds of an id, a title and a body, with the error of the first one exceeded. -/
def check (id title body : String) : Except NoteError Unit :=
  if id.utf8ByteSize = 0 ∨ maxId < id.utf8ByteSize then
    .error (.badId ("length " ++ toString id.utf8ByteSize))
  else if maxTitle < title.utf8ByteSize then .error (.titleTooLarge title.utf8ByteSize)
  else if maxBody < body.utf8ByteSize then .error (.bodyTooLarge body.utf8ByteSize)
  else .ok ()

/-- A live note of the given id, stamped with the clock reading. -/
def «at» (now id title body : String) : Except NoteError Note :=
  (check id title body).map fun _ => ⟨id, title, body, now, false⟩

def tombstone (now : String) (n : Note) : Note := ⟨n.id, "", "", now, true⟩

/-- The version of a note that is kept: stamps are compared as text. -/
def wins (a b : Note) : Note :=
  match compare a.updatedAt b.updatedAt with
  | .gt => a
  | .lt => b
  | .eq => if a.deleted then a else b

/-- Stamps decide, and among equal ones deletion. -/
def rank (n : Note) : String ×ₗ Bool := toLex (n.updatedAt, n.deleted)

theorem rank_lt_iff {a b : Note} :
    rank a < rank b ↔ a.updatedAt < b.updatedAt ∨
      a.updatedAt = b.updatedAt ∧ a.deleted = false ∧ b.deleted = true := by
  rw [rank, rank, Prod.Lex.toLex_lt_toLex, Bool.lt_iff]

theorem wins_selects : Selection.Selects rank wins := by
  intro a b
  rw [wins]
  rcases lt_trichotomy a.updatedAt b.updatedAt with lt | same | gt
  · rw [compare_lt_iff_lt.mpr lt]
    exact .inr ⟨rfl, (rank_lt_iff.mpr (.inl lt)).le⟩
  · rw [compare_eq_iff_eq.mpr same]
    have le {x y : Note} (stamp : x.updatedAt = y.updatedAt) (flag : x.deleted ≤ y.deleted) :
        rank x ≤ rank y := Prod.Lex.toLex_le_toLex.mpr (.inr ⟨stamp, flag⟩)
    cases dead : a.deleted with
    | true => exact .inl ⟨rfl, le same.symm (dead ▸ Bool.le_true b.deleted)⟩
    | false => exact .inr ⟨rfl, le same (dead ▸ Bool.false_le b.deleted)⟩
  · rw [compare_gt_iff_gt.mpr gt]
    exact .inl ⟨rfl, (rank_lt_iff.mpr (.inl gt)).le⟩

/-- Neither version ranks above the other, so the order in which they are met decides: the last
live one stays, and the first tombstone. -/
theorem wins_of_rank_eq {a b : Note} (same : rank a = rank b) :
    wins a b = if a.deleted then a else b := by
  have stamps : a.updatedAt = b.updatedAt := congrArg (fun r => (ofLex r).1) same
  rw [wins, compare_eq_iff_eq.mpr stamps]

theorem wins_self (n : Note) : wins n n = n := by
  rw [wins_of_rank_eq rfl]
  exact ite_self n

theorem wins_of_lt {a b : Note} (lt : rank a < rank b) : wins a b = b := by
  rcases wins_selects a b with ⟨-, le⟩ | ⟨taken, -⟩
  · exact absurd lt (not_lt.mpr le)
  · exact taken

theorem wins_of_gt {a b : Note} (gt : rank b < rank a) : wins a b = a := by
  rcases wins_selects a b with ⟨kept, -⟩ | ⟨-, le⟩
  · exact kept
  · exact absurd gt (not_lt.mpr le)

end Note

/-- The rows of the notes namespace that decode, each under the id of its note; the others are
skipped by every reader. -/
structure NoteStore where
  rows : Std.ExtTreeMap String Note
  keyed : ∀ (id : String) (n : Note), rows[id]? = some n → n.id = id

namespace NoteStore

def empty : NoteStore := ⟨∅, fun id n found => by simp at found⟩

def get (s : NoteStore) (id : String) : Option Note := s.rows[id]?

def put (s : NoteStore) (n : Note) : NoteStore where
  rows := s.rows.insert n.id n
  keyed := by
    intro id m found
    rw [SortedMap.get_insert] at found
    split at found
    · exact Option.some.inj found ▸ ‹n.id = id›
    · exact s.keyed id m found

theorem get_put (s : NoteStore) (n : Note) (id : String) :
    (s.put n).get id = if n.id = id then some n else s.get id :=
  SortedMap.get_insert ..

/-- Every note, tombstones included, in the order of their ids. -/
def all (s : NoteStore) : List Note := s.rows.toList.map Prod.snd

theorem mem_all {s : NoteStore} {n : Note} : n ∈ s.all ↔ s.get n.id = some n := by
  rw [all, List.mem_map]
  constructor
  · rintro ⟨⟨id, m⟩, mem, rfl⟩
    have found := Std.ExtTreeMap.mem_toList_iff_getElem?_eq_some.mp mem
    have same : m.id = id := s.keyed id m found
    subst same
    exact found
  · exact fun found => ⟨(n.id, n), Std.ExtTreeMap.mem_toList_iff_getElem?_eq_some.mpr found, rfl⟩

/-- The new content takes the place of a live note; an absent or deleted one stays as it is. -/
def edit (s : NoteStore) (now id title body : String) : Except NoteError (NoteStore × Bool) :=
  match s.get id with
  | none => .ok (s, false)
  | some existing =>
    if existing.deleted then .ok (s, false)
    else (Note.at now id title body).map fun n => (s.put n, true)

def delete (s : NoteStore) (now id : String) : NoteStore × Bool :=
  match s.get id with
  | none => (s, false)
  | some existing =>
    if existing.deleted then (s, false) else (s.put (existing.tombstone now), true)

/-- The note of a peer is stored if there is none yet or if it wins against a different one. -/
def merge (s : NoteStore) (incoming : Note) : NoteStore × Bool :=
  match s.get incoming.id with
  | none => (s.put incoming, true)
  | some mine =>
    if mine.wins incoming = incoming ∧ mine ≠ incoming then (s.put incoming, true) else (s, false)

def mergeAll (s : NoteStore) (notes : List Note) : NoteStore :=
  notes.foldl (fun s n => (s.merge n).1) s

theorem mergeAll_append (s : NoteStore) (xs ys : List Note) :
    s.mergeAll (xs ++ ys) = (s.mergeAll xs).mergeAll ys := List.foldl_append

/-- A merge is a choice between two versions at the note's own id. -/
theorem get_merge (s : NoteStore) (incoming : Note) (id : String) :
    (s.merge incoming).1.get id =
      if incoming.id = id then Selection.take Note.wins (s.get id) incoming else s.get id := by
  rw [merge]
  cases found : s.get incoming.id with
  | none =>
    simp only [get_put]
    split
    · rename_i same
      rw [← same, found]
      rfl
    · rfl
  | some mine =>
    have chosen : Selection.take Note.wins (some mine) incoming = some (mine.wins incoming) := rfl
    by_cases taken : mine.wins incoming = incoming ∧ mine ≠ incoming
    · simp only [if_pos taken, get_put]
      split
      · rename_i same
        rw [← same, found, chosen, taken.1]
      · rfl
    · simp only [if_neg taken]
      split
      · rename_i same
        rw [← same, found, chosen]
        rcases Note.wins_selects mine incoming with ⟨kept, -⟩ | ⟨lost, -⟩
        · rw [kept]
        · have equal : mine = incoming := by_contra fun ne => taken ⟨lost, ne⟩
          rw [← equal, Note.wins_self]
      · rfl

/-- At each id a batch acts as its versions of that note do on one register. -/
theorem get_mergeAll (s : NoteStore) (notes : List Note) (id : String) :
    (s.mergeAll notes).get id =
      (notes.filter (·.id = id)).foldl (Selection.take Note.wins) (s.get id) := by
  induction notes generalizing s with
  | nil => rfl
  | cons n notes ih =>
    show ((s.merge n).1.mergeAll notes).get id = _
    rw [ih, get_merge]
    by_cases same : n.id = id
    · rw [if_pos same, List.filter_cons_of_pos (by simpa using same)]
      rfl
    · rw [if_neg same, List.filter_cons_of_neg (by simpa using same)]

end NoteStore

end PeerBeam.Notes
