import PeerBeam.Chat.Calls

/-! What reading a conversation gives and leaves, row by row: a landing goes into the row it is for,
and everything else is as it was. -/
namespace PeerBeam.Chat

namespace ChatRecord

/-- Whether a read of a conversation, or of a search over it, returns the row. -/
def shownAt (c : Chrono) (includeGroups : Bool) (r : Retention) (now : Int) (rec : ChatRecord) : Bool :=
  !rec.hasDisappeared c r now && (rec.group.isNone || includeGroups)

end ChatRecord

namespace ChatStore
variable {c : Chrono} {s : ChatStore}

def landed (s : ChatStore) (rec : ChatRecord) : ChatRecord := (s.withLanding rec).2

def taken (s : ChatStore) (rec : ChatRecord) : ChatStore := (s.withLanding rec).1

theorem withLanding_of_not {rec : ChatRecord} (calm : rec.isSettleableFileRow .inn = false) :
    s.withLanding rec = (s, rec) := by
  rw [withLanding, calm]
  rfl

theorem withLanding_of_none {rec : ChatRecord} (none_ : s.landings rec.peerId rec.id = none) :
    s.withLanding rec = (s, rec) := by
  rw [withLanding, takePendingLanding, none_]
  split <;> rfl

theorem landed_congr {s' : ChatStore} {rec : ChatRecord}
    (same : s'.landings rec.peerId rec.id = s.landings rec.peerId rec.id) : s'.landed rec = s.landed rec := by
  rw [landed, landed, withLanding, withLanding, takePendingLanding, takePendingLanding, same]
  split
  · rcases s.landings rec.peerId rec.id with _ | _ | ⟨name, size⟩
    · rfl
    · rfl
    · dsimp only
      split <;> rfl
  · rfl

/-- Only the file of a row lands. -/
theorem landed_eq (s : ChatStore) (rec : ChatRecord) :
    s.landed rec = rec ∨ ∃ name size, s.landed rec = rec.land name size :=
  s.withLanding_record rec

@[simp]
theorem landed_key (s : ChatStore) (rec : ChatRecord) :
    (s.landed rec).peerId = rec.peerId ∧ (s.landed rec).id = rec.id := by
  rcases s.landed_eq rec with same | ⟨name, size, same⟩
  · rw [same]
    exact ⟨rfl, rfl⟩
  · rw [same]
    exact ⟨rfl, rfl⟩

theorem landed_direction (s : ChatStore) (rec : ChatRecord) : (s.landed rec).direction = rec.direction := by
  rcases s.landed_eq rec with same | ⟨name, size, same⟩
  · rw [same]
  · rw [same]
    rfl

theorem landed_group (s : ChatStore) (rec : ChatRecord) : (s.landed rec).group = rec.group := by
  rcases s.landed_eq rec with same | ⟨name, size, same⟩
  · rw [same]
  · rw [same]
    rfl

theorem landed_readAt (s : ChatStore) (rec : ChatRecord) : (s.landed rec).readAt = rec.readAt := by
  rcases s.landed_eq rec with same | ⟨name, size, same⟩
  · rw [same]
  · rw [same]
    rfl

theorem shownAt_landed (s : ChatStore) (includeGroups : Bool) (r : Retention) (now : Int) (rec : ChatRecord) :
    (s.landed rec).shownAt c includeGroups r now = rec.shownAt c includeGroups r now := by
  rw [ChatRecord.shownAt, ChatRecord.shownAt, ChatRecord.hasDisappeared, ChatRecord.hasDisappeared, landed_group]
  exact congrArg (fun basis => !r.closedOn c basis now && _) (ageBasis_withLanding c s rec)

/-- A row that is not one of the peer's files in flight stays what it is. -/
theorem landed_of_out {rec : ChatRecord} (out : rec.direction = .out) : s.withLanding rec = (s, rec) := by
  refine withLanding_of_not ?_
  rw [ChatRecord.isSettleableFileRow, out]
  simp

theorem landings_takePendingLanding (s : ChatStore) (rec : ChatRecord) (peer : DeviceId) (id : String) :
    (s.takePendingLanding rec.peerId rec.id).1.landings peer id =
      if rec.peerId = peer ∧ rec.id = id then none else s.landings peer id := by
  rw [takePendingLanding]
  cases held : s.landings rec.peerId rec.id with
  | none =>
    by_cases here : rec.peerId = peer ∧ rec.id = id
    · rw [if_pos here, ← here.1, ← here.2]
      exact held
    · rw [if_neg here]
  | some blob =>
    show Function.update s.landings rec.peerId (Function.update (s.landings rec.peerId) rec.id none) peer id = _
    by_cases own : peer = rec.peerId
    · subst own
      rw [Function.update_self, Function.update_apply]
      simp only [true_and, eq_comm]
    · rw [Function.update_of_ne own, if_neg fun here => own here.1.symm]

theorem rows_takePendingLanding (s : ChatStore) (peer : DeviceId) (id : String) :
    (s.takePendingLanding peer id).1.rows = s.rows := by
  rw [takePendingLanding]
  cases s.landings peer id <;> rfl

theorem landings_taken (s : ChatStore) (rec : ChatRecord) (peer : DeviceId) (id : String) :
    (s.taken rec).landings peer id =
      if rec.isSettleableFileRow .inn ∧ rec.peerId = peer ∧ rec.id = id then none else s.landings peer id := by
  have cleared := landings_takePendingLanding s rec peer id
  rw [taken, withLanding]
  cases rec.isSettleableFileRow .inn with
  | false => simp
  | true =>
    simp only [true_and]
    rw [← cleared, if_true]
    rcases s.takePendingLanding rec.peerId rec.id with ⟨s', _ | ⟨name, size⟩⟩
    · rfl
    · dsimp only
      split <;> rfl

/-- A row that is read is then stored as it was returned. -/
theorem rows_taken {rec : ChatRecord} (stored : (s.rows rec.peerId)[rec.id]? = some (some rec))
    (peer : DeviceId) (id : String) : ((s.taken rec).rows peer)[id]? =
      if rec.peerId = peer ∧ rec.id = id then some (some (s.landed rec)) else (s.rows peer)[id]? := by
  have kept : (s.rows peer)[id]? =
      if rec.peerId = peer ∧ rec.id = id then some (some rec) else (s.rows peer)[id]? := by
    split
    next here => rw [← here.1, ← here.2, stored]
    next => rfl
  have rows := s.rows_takePendingLanding rec.peerId rec.id
  rw [taken, landed, withLanding]
  split
  · generalize s.takePendingLanding rec.peerId rec.id = out at rows
    obtain ⟨s', _ | ⟨name, size⟩⟩ := out
    · change s'.rows = s.rows at rows
      show (s'.rows peer)[id]? = _
      rw [rows]
      exact kept
    · change s'.rows = s.rows at rows
      dsimp only
      split
      · dsimp only
        rw [rows_write, rows]
        rfl
      · dsimp only
        rw [rows]
        exact kept
  · exact kept

theorem windows_taken (s : ChatStore) (rec : ChatRecord) : (s.taken rec).windows = s.windows :=
  (s.outbox_withLanding rec).2

structure Listed (s : ChatStore) (peer : DeviceId) (rows : List (String × Option ChatRecord)) : Prop where
  distinct : rows.Pairwise fun a b => a.1 ≠ b.1
  placed : ∀ key rec, (key, some rec) ∈ rows → rec.peerId = peer ∧ rec.id = key
  stored : ∀ key rec, (key, some rec) ∈ rows → (s.rows peer)[key]? = some (some rec)

theorem wellKeyed_empty : empty.WellKeyed := by
  intro peer id rec stored
  simp [rows, empty] at stored

theorem WellKeyed.write (h : s.WellKeyed) (rec : ChatRecord) : (s.write rec).WellKeyed := by
  intro peer id rec' stored
  rw [rows_write] at stored
  split at stored
  next place => cases stored; exact place
  next => exact h peer id rec' stored

theorem WellKeyed.listed (h : s.WellKeyed) (peer : DeviceId) : s.Listed peer (s.rows peer).toList where
  distinct := SortedMap.distinct_toList _
  placed key rec mem := h peer key rec (Std.ExtTreeMap.mem_toList_iff_getElem?_eq_some.mp mem)
  stored _ _ mem := Std.ExtTreeMap.mem_toList_iff_getElem?_eq_some.mp mem

theorem Listed.of_cons {peer : DeviceId} {row : String × Option ChatRecord}
    {rows : List (String × Option ChatRecord)} (h : s.Listed peer (row :: rows)) : s.Listed peer rows where
  distinct := (List.pairwise_cons.mp h.distinct).2
  placed key rec mem := h.placed key rec (List.mem_cons_of_mem _ mem)
  stored key rec mem := h.stored key rec (List.mem_cons_of_mem _ mem)

/-- What is read later is as it was when the reading began. -/
theorem Listed.tail {peer : DeviceId} {key : String} {first : ChatRecord}
    {rows : List (String × Option ChatRecord)} (h : s.Listed peer ((key, some first) :: rows)) :
    (s.taken first).Listed peer rows ∧ ∀ key' rec, (key', some rec) ∈ rows →
      (s.taken first).landed rec = s.landed rec := by
  obtain ⟨other, distinct⟩ := List.pairwise_cons.mp h.distinct
  have own := h.placed key first List.mem_cons_self
  have stored := h.stored key first List.mem_cons_self
  rw [← own.1, ← own.2] at stored
  have apart (key' : String) (rec : ChatRecord) (mem : (key', some rec) ∈ rows) : first.id ≠ key' :=
    own.2 ▸ other _ mem
  refine ⟨⟨distinct, fun key' rec mem => h.placed key' rec (List.mem_cons_of_mem _ mem), fun key' rec mem => ?_⟩,
    fun key' rec mem => landed_congr ?_⟩
  · rw [rows_taken stored, if_neg fun here => apart key' rec mem here.2]
    exact h.stored key' rec (List.mem_cons_of_mem _ mem)
  · rw [landings_taken, if_neg]
    rintro ⟨-, -, same⟩
    exact apart key' rec mem (same.trans (h.placed key' rec (List.mem_cons_of_mem _ mem)).2)

theorem shown_cons (includeGroups : Bool) (r : Retention) (now : Int) (s : ChatStore) (key : String)
    (rec : ChatRecord) (rows : List (String × Option ChatRecord)) :
    shown c includeGroups r now s ((key, some rec) :: rows) =
      if rec.shownAt c includeGroups r now then
        ((shown c includeGroups r now (s.taken rec) rows).1,
          s.landed rec :: (shown c includeGroups r now (s.taken rec) rows).2)
      else shown c includeGroups r now s rows := by
  rw [shown, ChatRecord.shownAt]
  cases rec.hasDisappeared c r now with
  | true => rfl
  | false =>
    cases rec.group with
    | none => rfl
    | some group => cases includeGroups <;> rfl

section
variable {peer : DeviceId} {includeGroups : Bool} {r : Retention} {now : Int}
  {rows : List (String × Option ChatRecord)}

/-- The rows of a conversation that are shown, as they land. -/
theorem shown_snd (h : s.Listed peer rows) : (shown c includeGroups r now s rows).2 =
    ((rows.filterMap Prod.snd).filter (·.shownAt c includeGroups r now)).map s.landed := by
  induction rows generalizing s with
  | nil => rfl
  | cons row rows ih =>
    obtain ⟨key, _ | rec⟩ := row
    · exact ih h.of_cons
    · show _ = ((rec :: rows.filterMap Prod.snd).filter _).map s.landed
      rw [shown_cons, List.filter_cons]
      split
      · obtain ⟨rest, same⟩ := h.tail
        rw [List.map_cons, ih rest]
        refine congrArg (s.landed rec :: ·) (List.map_congr_left fun other mem => ?_)
        obtain ⟨⟨key', _⟩, listed, rfl⟩ := List.mem_filterMap.mp (List.mem_filter.mp mem).1
        exact same key' other listed
      · exact ih h.of_cons

/-- A conversation is stored as it was read. -/
theorem rows_shown (h : s.Listed peer rows) (p : DeviceId) (id : String) :
    ((shown c includeGroups r now s rows).1.rows p)[id]? = (s.rows p)[id]?.map fun row => row.map fun rec =>
      if p = peer ∧ (id, some rec) ∈ rows ∧ rec.shownAt c includeGroups r now = true then s.landed rec else rec := by
  induction rows generalizing s with
  | nil => simp [shown]
  | cons row rows ih =>
    obtain ⟨key, _ | first⟩ := row
    · rw [shown, ih h.of_cons]
      simp
    rw [shown_cons]
    split
    next due =>
      obtain ⟨rest, same⟩ := h.tail
      have own := h.placed key first List.mem_cons_self
      have stored := h.stored key first List.mem_cons_self
      have fresh (rec : ChatRecord) : (key, some rec) ∉ rows := fun mem =>
        (List.pairwise_cons.mp h.distinct).1 _ mem rfl
      dsimp only
      rw [ih rest, rows_taken (by rw [own.1, own.2]; exact stored), own.1, own.2]
      by_cases here : peer = p ∧ key = id
      · obtain ⟨rfl, rfl⟩ := here
        rw [if_pos ⟨rfl, rfl⟩, stored]
        simp [fresh, due]
      · rw [if_neg here]
        refine congrArg (fun f => Option.map f _) (funext fun row => congrArg (fun f => Option.map f row) ?_)
        funext rec
        have older : p = peer → (id, some rec) ≠ (key, some first) := fun at_ both =>
          here ⟨at_.symm, (Prod.ext_iff.mp both).1.symm⟩
        have listed : p = peer → ((id, some rec) ∈ (key, some first) :: rows ↔ (id, some rec) ∈ rows) :=
          fun at_ => by rw [List.mem_cons, or_iff_right (older at_)]
        refine ite_congr (propext (and_congr_right fun at_ => by rw [listed at_])) ?_ fun _ => rfl
        exact fun shown => same id rec ((listed shown.1).mp shown.2.1)
    next hidden =>
      rw [ih h.of_cons]
      refine congrArg (fun f => Option.map f _) (funext fun row => congrArg (fun f => Option.map f row) ?_)
      funext rec
      refine ite_congr (propext (and_congr_right fun _ => ?_)) (fun _ => rfl) fun _ => rfl
      rw [and_congr_left_iff]
      intro due
      rw [List.mem_cons]
      refine (or_iff_right fun both => hidden ?_).symm
      cases both
      exact due

/-- Reading is all that happens to a store. -/
theorem windows_shown (rows : List (String × Option ChatRecord)) (s : ChatStore) :
    (shown c includeGroups r now s rows).1.windows = s.windows :=
  (shown_open includeGroups r now rows s).1

/-- Of a row that was shown no landing is left, and no landing comes of a read. -/
theorem landings_shown (rows : List (String × Option ChatRecord)) (s : ChatStore) (rec : ChatRecord) :
    (s.landings rec.peerId rec.id = none →
        (shown c includeGroups r now s rows).1.landings rec.peerId rec.id = none) ∧
      ∀ key, (key, some rec) ∈ rows → rec.shownAt c includeGroups r now = true →
        rec.isSettleableFileRow .inn = true →
          (shown c includeGroups r now s rows).1.landings rec.peerId rec.id = none := by
  induction rows generalizing s with
  | nil => exact ⟨id, fun _ mem => absurd mem List.not_mem_nil⟩
  | cons row rows ih =>
    obtain ⟨key, _ | first⟩ := row
    · obtain ⟨kept, cleared⟩ := ih s
      refine ⟨kept, fun key' mem => cleared key' ?_⟩
      simpa using mem
    · rw [shown_cons]
      split
      next due =>
        obtain ⟨kept, cleared⟩ := ih (s.taken first)
        refine ⟨fun none_ => kept ?_, fun key' mem due live => ?_⟩
        · rw [landings_taken, none_, ite_self]
        · rcases List.mem_cons.mp mem with same | mem
          · cases same
            refine kept ?_
            rw [landings_taken, if_pos ⟨live, rfl, rfl⟩]
          · exact cleared key' mem due live
      next hidden =>
        obtain ⟨kept, cleared⟩ := ih s
        refine ⟨kept, fun key' mem due live => ?_⟩
        rcases List.mem_cons.mp mem with same | mem
        · cases same
          exact absurd due hidden
        · exact cleared key' mem due live

/-- Where nothing is to land a read changes nothing. -/
theorem shown_calm {rows : List (String × Option ChatRecord)}
    (calm : ∀ key rec, (key, some rec) ∈ rows → rec.shownAt c includeGroups r now = true →
      rec.isSettleableFileRow .inn = true → s.landings rec.peerId rec.id = none) :
    shown c includeGroups r now s rows =
      (s, (rows.filterMap Prod.snd).filter (·.shownAt c includeGroups r now)) := by
  induction rows with
  | nil => rfl
  | cons row rows ih =>
    have rest := ih fun key rec mem => calm key rec (List.mem_cons_of_mem _ mem)
    obtain ⟨key, _ | rec⟩ := row
    · exact rest
    · show _ = (s, (rec :: rows.filterMap Prod.snd).filter _)
      rw [shown_cons, List.filter_cons]
      split
      next due =>
        have still : s.withLanding rec = (s, rec) := by
          cases live : rec.isSettleableFileRow .inn with
          | false => exact withLanding_of_not live
          | true => exact withLanding_of_none (calm key rec List.mem_cons_self due live)
        rw [taken, landed, still, rest]
      next => exact rest

end

structure SameFor (s s' : ChatStore) (peer : DeviceId) : Prop where
  rows : s'.rows peer = s.rows peer
  landings : s'.landings peer = s.landings peer

/-- Reading a row changes nothing of another peer. -/
theorem sameFor_taken {rec : ChatRecord} (stored : (s.rows rec.peerId)[rec.id]? = some (some rec)) {other : DeviceId}
    (apart : rec.peerId ≠ other) : s.SameFor (s.taken rec) other where
  rows := Std.ExtTreeMap.ext_getElem? fun id => by rw [rows_taken stored, if_neg fun here => apart here.1]
  landings := funext fun id => by rw [landings_taken, if_neg fun here => apart here.2.1]

theorem SameFor.trans {s' s'' : ChatStore} {peer : DeviceId} (h : s.SameFor s' peer) (h' : s'.SameFor s'' peer) :
    s.SameFor s'' peer :=
  ⟨h'.rows.trans h.rows, h'.landings.trans h.landings⟩

theorem SameFor.listed {s' : ChatStore} {peer : DeviceId} (h : s.SameFor s' peer)
    {rows : List (String × Option ChatRecord)} (listed : s.Listed peer rows) : s'.Listed peer rows :=
  ⟨listed.distinct, listed.placed, fun key rec mem => h.rows ▸ listed.stored key rec mem⟩

theorem SameFor.landed {s' : ChatStore} {peer : DeviceId} (h : s.SameFor s' peer) {rec : ChatRecord}
    (own : rec.peerId = peer) : s'.landed rec = s.landed rec :=
  landed_congr (by rw [own, h.landings])

theorem sameFor_shown {peer other : DeviceId} (apart : peer ≠ other) {includeGroups : Bool} {r : Retention}
    {now : Int} {rows : List (String × Option ChatRecord)} (h : s.Listed peer rows) :
    s.SameFor (shown c includeGroups r now s rows).1 other := by
  induction rows generalizing s with
  | nil => exact ⟨rfl, rfl⟩
  | cons row rows ih =>
    obtain ⟨key, _ | rec⟩ := row
    · exact ih h.of_cons
    · rw [shown_cons]
      split
      next =>
        have place := h.placed key rec List.mem_cons_self
        have stored := h.stored key rec List.mem_cons_self
        rw [← place.1, ← place.2] at stored
        exact (sameFor_taken stored (place.1 ▸ apart)).trans (ih h.tail.1)
      next => exact ih h.of_cons

structure Untouched (s : ChatStore) (peers : List DeviceId) (s' : ChatStore) : Prop where
  windows : s'.windows = s.windows
  same : ∀ peer ∈ peers, s.SameFor s' peer

/-- One of them was read. -/
theorem Untouched.next {peers : List DeviceId} {peer : DeviceId} {s' s'' : ChatStore}
    (h : s.Untouched (peer :: peers) s') (new : peer ∉ peers) (windows : s''.windows = s'.windows)
    (others : ∀ other, peer ≠ other → s'.SameFor s'' other) : s.Untouched peers s'' where
  windows := windows.trans h.windows
  same other mem := (h.same other (List.mem_cons_of_mem _ mem)).trans (others other fun same => new (same ▸ mem))

theorem nodup_peerNamespaces (s : ChatStore) : s.peerNamespaces.Nodup := by
  rw [peerNamespaces, List.Nodup, List.pairwise_map]
  exact (SortedMap.distinct_toList s.conversations).filter _

end ChatStore

end PeerBeam.Chat
