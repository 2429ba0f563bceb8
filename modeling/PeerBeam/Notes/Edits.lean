import PeerBeam.Lib.Run
import PeerBeam.Notes.Exchange

/-! The user's own changes, against the versions they replace. The new stamp is the clock's, and
the stamp it has to exceed may have come from anywhere. -/
namespace PeerBeam.Notes
namespace NoteStore

/-- The replaced version does not displace the new one where that is stored, however often it is
merged, and is never shown again by a device that has received the new one. -/
structure NotUndone (old new : Note) : Prop where
  kept : ∀ s : NoteStore, s.get new.id = some new →
    ∀ times, (s.mergeAll (List.replicate times old)).get new.id = some new
  gone : ∀ (s : NoteStore) (later : List Note),
    ((s.merge new).1.mergeAll later).get new.id = some old → old = new

theorem get_merge_self {s : NoteStore} {mine incoming : Note} (ids : incoming.id = mine.id)
    (found : s.get mine.id = some mine) :
    (s.merge incoming).1.get mine.id = some (mine.wins incoming) := by
  rw [get_merge, if_pos ids, found]
  rfl

/-- What a device shows after a version arrived ranks at least as high. -/
theorem rank_le_of_received {s : NoteStore} {new shown : Note} {later : List Note}
    (found : ((s.merge new).1.mergeAll later).get new.id = some shown) : new.rank ≤ shown.rank := by
  have received : ((s.mergeAll (new :: later)).get new.id) = some shown := found
  rw [get_mergeAll] at received
  have best := Note.wins_selects.foldl_isBest ((new :: later).filter (·.id = new.id))
    (Selection.isBest_held (s.get new.id))
  rw [received] at best
  exact best.2 new (.inr (List.mem_filter.mpr ⟨List.mem_cons_self, decide_eq_true rfl⟩))

theorem NotUndone.of_lt {old new : Note} (ids : old.id = new.id) (lt : old.rank < new.rank) :
    NotUndone old new where
  kept := by
    intro s found times
    induction times generalizing s with
    | zero => exact found
    | succ times ih =>
      refine ih (s.merge old).1 ?_
      rw [get_merge_self ids found, Note.wins_of_gt lt]
  gone := fun s later found => absurd lt (not_lt.mpr (rank_le_of_received found))

theorem NotUndone.refl (n : Note) : NotUndone n n where
  kept := by
    intro s found times
    induction times generalizing s with
    | zero => exact found
    | succ times ih =>
      refine ih (s.merge n).1 ?_
      rw [get_merge_self rfl found, Note.wins_self]
  gone := fun s later found => rfl

/-- A change stands exactly if its version outranks the one it replaced, or repeats it. -/
theorem notUndone_iff {old new : Note} (ids : old.id = new.id) :
    NotUndone old new ↔ old.rank < new.rank ∨ old = new := by
  constructor
  · intro h
    rcases lt_trichotomy old.rank new.rank with lt | same | gt
    · exact .inl lt
    · right
      cases dead : new.deleted with
      | true =>
        -- a device that still has the old tombstone keeps it
        have stays : (((empty.put old).merge new).1.mergeAll []).get new.id = some old := by
          show ((empty.put old).merge new).1.get new.id = some old
          have flags : old.deleted = new.deleted := congrArg (fun r => (ofLex r).2) same
          have held : (empty.put old).get old.id = some old := by rw [get_put, if_pos rfl]
          rw [← ids, get_merge_self ids.symm held, Note.wins_of_rank_eq same,
            if_pos (flags.trans dead)]
        exact h.gone _ [] stays
      | false =>
        have held : (empty.put new).get new.id = some new := by rw [get_put, if_pos rfl]
        have shown : some (new.wins old) = some new :=
          (get_merge_self ids held).symm.trans (h.kept _ held 1)
        rw [Note.wins_of_rank_eq same.symm, dead, if_neg Bool.false_ne_true] at shown
        exact Option.some.inj shown
    · have held : (empty.put new).get new.id = some new := by rw [get_put, if_pos rfl]
      have shown : some (new.wins old) = some new :=
        (get_merge_self ids held).symm.trans (h.kept _ held 1)
      rw [Note.wins_of_lt gt] at shown
      exact .inr (Option.some.inj shown)
  · rintro (lt | rfl)
    · exact .of_lt ids lt
    · exact .refl old

theorem delete_true {s s' : NoteStore} {now id : String} (h : s.delete now id = (s', true)) :
    ∃ old, s.get id = some old ∧ old.deleted = false ∧ s' = s.put (old.tombstone now) := by
  rw [delete] at h
  cases found : s.get id with
  | none =>
    rw [found] at h
    cases h
  | some old =>
    simp only [found] at h
    cases dead : old.deleted with
    | true =>
      rw [dead] at h
      cases h
    | false =>
      rw [dead] at h
      cases h
      exact ⟨old, rfl, dead, rfl⟩

/-- An edit changes nothing, or replaces a live note by a checked one. -/
theorem edit_ok {s : NoteStore} {now id title body : String} {out : NoteStore × Bool}
    (h : s.edit now id title body = .ok out) :
    out = (s, false) ∨ ∃ old, s.get id = some old ∧ old.deleted = false ∧
      Note.check id title body = .ok () ∧ out = (s.put ⟨id, title, body, now, false⟩, true) := by
  rw [edit] at h
  cases found : s.get id with
  | none =>
    rw [found] at h
    cases h
    exact .inl rfl
  | some old =>
    simp only [found] at h
    cases dead : old.deleted with
    | true =>
      rw [dead] at h
      cases h
      exact .inl rfl
    | false =>
      rw [dead, if_neg Bool.false_ne_true, Note.at] at h
      cases bounds : Note.check id title body with
      | error e =>
        rw [bounds] at h
        cases h
      | ok u =>
        rw [bounds] at h
        cases h
        exact .inr ⟨old, rfl, dead, rfl, rfl⟩

/-- A deletion outlasts the version it replaced exactly if the clock had reached that version's
stamp, and an edit exactly if the clock had passed it (or the edit repeats the old text and
stamp). -/
theorem change_not_undone_iff (s : NoteStore) (now id : String) :
    (∀ s', s.delete now id = (s', true) → ∃ old new, s.get id = some old ∧ s'.get id = some new ∧
      new = old.tombstone now ∧ (NotUndone old new ↔ old.updatedAt ≤ now)) ∧
    ∀ title body s', s.edit now id title body = .ok (s', true) →
      ∃ old new, s.get id = some old ∧ s'.get id = some new ∧ new = ⟨id, title, body, now, false⟩ ∧
        (NotUndone old new ↔ old.updatedAt < now ∨ old = new) := by
  constructor
  · intro s' deleted
    obtain ⟨old, found, alive, rfl⟩ := delete_true deleted
    have own : old.id = id := s.keyed id old found
    refine ⟨old, old.tombstone now, found, ?_, rfl, ?_⟩
    · exact (get_put ..).trans (if_pos own)
    · have ids : old.id = (old.tombstone now).id := rfl
      have differ : old ≠ old.tombstone now := fun same => by
        rw [same] at alive
        cases alive
      rw [notUndone_iff ids, Note.rank_lt_iff, or_iff_left differ, le_iff_lt_or_eq]
      exact or_congr_right ⟨And.left, fun same => ⟨same, alive, rfl⟩⟩
  · intro title body s' edited
    rcases edit_ok edited with unchanged | ⟨old, found, alive, bounds, stored⟩
    · cases unchanged
    cases stored
    have own : old.id = id := s.keyed id old found
    refine ⟨old, ⟨id, title, body, now, false⟩, found, ?_, rfl, ?_⟩
    · rw [get_put, if_pos rfl]
    · rw [notUndone_iff own, Note.rank_lt_iff]
      refine or_congr_left (or_iff_left ?_)
      rintro ⟨-, -, dead⟩
      cases dead

/-- A note whose stamp is ahead of this device's clock is deleted, and the next sync with its
sender brings it back; an edit of it is undone the same way. -/
theorem later_stamp_undoes_change :
    let theirs : Note := ⟨"n1", "", "draft", "2026-01-01T00:05:00+00:00", false⟩
    let now := "2026-01-01T00:00:00+00:00"
    let s := (empty.merge theirs).1
    (s.delete now "n1").2 = true ∧
      ((s.delete now "n1").1.merge theirs).1.get "n1" = some theirs ∧
      (s.edit now "n1" "" "final").map (fun r => (r.2, (r.1.merge theirs).1.get "n1")) =
        .ok (true, some theirs) := by
  decide

/-- What changes a store: a new note, the user's changes, and batches of peers. -/
inductive Change
  | add (now id title body : String)
  | edit (now id title body : String)
  | delete (now id : String)
  | deliver (permitted : Bool) (size : Nat) (batch : NoteBatch)

def change (s : NoteStore) : Change → NoteStore
  | .add now id title body => ((Note.at now id title body).toOption.map s.put).getD s
  | .edit now id title body => ((s.edit now id title body).toOption.map Prod.fst).getD s
  | .delete now id => (s.delete now id).1
  | .deliver permitted size batch => ((s.handle permitted size batch).toOption.map Prod.fst).getD s

theorem fromFrame_checked {size : Nat} {batch decoded : NoteBatch}
    (h : batch.fromFrame size = .ok decoded) :
    ∀ n ∈ decoded.notes, Note.check n.id n.title n.body = .ok () := by
  rw [NoteBatch.fromFrame] at h
  split at h
  · cases h
  · split at h
    · cases h
    · cases bounds : batch.notes.forM fun n => Note.check n.id n.title n.body with
      | error e =>
        rw [bounds] at h
        cases h
      | ok u =>
        rw [bounds] at h
        cases h
        exact forM_check_ok.mp bounds

theorem check_tombstone {id title body : String} (h : Note.check id title body = .ok ()) :
    Note.check id "" "" = .ok () := by
  rw [Note.check] at h ⊢
  split at h
  · cases h
  · rw [if_neg ‹_›]
    rfl

theorem Bounded.change {s : NoteStore} (bounded : s.Bounded) (c : Change) :
    (s.change c).Bounded := by
  cases c with
  | add now id title body =>
    rw [NoteStore.change, Note.at]
    cases checked : Note.check id title body with
    | error e => exact bounded
    | ok u => exact bounded.put checked
  | edit now id title body =>
    rw [NoteStore.change]
    cases edited : s.edit now id title body with
    | error e => exact bounded
    | ok out =>
      rcases edit_ok edited with rfl | ⟨old, found, alive, checked, rfl⟩
      · exact bounded
      · exact bounded.put checked
  | delete now id =>
    rw [NoteStore.change, NoteStore.delete]
    cases found : s.get id with
    | none => exact bounded
    | some old =>
      have stored : old ∈ s.all := mem_all.mpr (s.keyed id old found ▸ found)
      show (if old.deleted then (s, false) else (s.put (old.tombstone now), true)).1.Bounded
      split
      · exact bounded
      · exact bounded.put (check_tombstone (bounded old stored))
  | deliver permitted size batch =>
    rw [NoteStore.change, NoteStore.handle]
    split
    · cases decoded : batch.fromFrame size with
      | error e => exact bounded
      | ok batch => exact bounded.mergeAll (fromFrame_checked decoded)
    · exact bounded

/-- Whatever was done to a store that started empty, a peer refuses none of its notes. -/
theorem bounded_of_changes (changes : List Change) : (changes.foldl change empty).Bounded := by
  refine TransitionRun.invariant ?_ (fun s c bounded => bounded.change c) changes
  intro n mem
  rw [mem_all] at mem
  simp [get, empty] at mem

end NoteStore
end PeerBeam.Notes
