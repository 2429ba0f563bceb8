import PeerBeam.Chat.Readers

/-! Whether disappearing messages disappear: from every read once their window has closed, and from
the store once every conversation has been pruned. -/
namespace PeerBeam.Chat

def ChatStore.Pruned.absorb (total other : ChatStore.Pruned) : ChatStore.Pruned :=
  ⟨total.records + other.records, total.queued + other.queued, total.staged ++ other.staged⟩

namespace ChatStore
variable (c : Chrono) (s : ChatStore)

def holdsPrivateRecord (peer : DeviceId) : Bool :=
  (s.rows peer).toList.any fun row => row.2.elim true (·.group.isNone)

/-- The private threads: a namespace of group rows alone is not one. -/
def conversationPeers : List DeviceId := s.peerNamespaces.filter s.holdsPrivateRecord

/-- The private threads, with the peers of all entries queued. -/
def prunablePeers : List DeviceId :=
  (Std.ExtTreeSet.ofList (s.conversationPeers ++
    s.outbox.toList.filterMap fun row => row.2.map (·.peerId))).toList

/-- A prune that fails ends the walk, and what was pruned before it stays so. -/
def pruneFrom (now : Int) : List DeviceId → ChatStore → Pruned → ChatStore × Except ChatError Pruned
  | [], s, total => (s, .ok total)
  | peer :: rest, s, total =>
    match s.prune c now peer with
    | .error error => (s, .error error)
    | .ok (s, pruned) => pruneFrom now rest s (total.absorb pruned)

def pruneAllConversations (now : Int) : ChatStore × Except ChatError Pruned :=
  pruneFrom c now s.prunablePeers s ⟨0, 0, []⟩

def Overdue (now : Int) (peer : DeviceId) : Prop :=
  ∃ r, s.retention peer = .ok r ∧
    ((∃ (id : String) (rec : ChatRecord), (s.rows peer)[id]? = some (some rec) ∧
        rec.hasDisappeared c r now = true) ∨
      ∃ (id : String) (e : OutboxEntry), s.outbox[id]? = some (some e) ∧ e.peerId = peer ∧
        e.expired c r now = true)

/-- The peer has a row that is private or does not decode, or an entry that is queued for it. -/
def Offered (peer : DeviceId) : Prop :=
  (∃ id : String, (s.rows peer)[id]? = some none ∨
      ∃ rec : ChatRecord, (s.rows peer)[id]? = some (some rec) ∧ rec.group = none) ∨
    ∃ (id : String) (e : OutboxEntry), s.outbox[id]? = some (some e) ∧ e.peerId = peer

/-- The peer is offered, and no lookup of a policy fails among those offered before it. -/
def Reached (peer : DeviceId) : Prop :=
  s.Offered peer ∧ ∀ other, s.Offered other → compare other peer = .lt → s.windows other ≠ some none

variable {c s}

theorem mem_peerNamespaces {peer : DeviceId} :
    peer ∈ s.peerNamespaces ↔ (s.rows peer).isEmpty = false := by
  simp only [peerNamespaces, List.mem_map, List.mem_filter, Prod.exists, exists_and_right,
    exists_eq_right, Std.ExtTreeMap.mem_toList_iff_getElem?_eq_some, Bool.not_eq_true']
  rw [rows]
  cases s.conversations[peer]? with
  | none => simp
  | some rows => simp

theorem holdsPrivateRecord_iff {peer : DeviceId} : s.holdsPrivateRecord peer = true ↔
    ∃ id : String, (s.rows peer)[id]? = some none ∨
      ∃ rec : ChatRecord, (s.rows peer)[id]? = some (some rec) ∧ rec.group = none := by
  rw [holdsPrivateRecord, List.any_eq_true]
  simp only [Prod.exists, Std.ExtTreeMap.mem_toList_iff_getElem?_eq_some]
  refine exists_congr fun id => ?_
  rcases (s.rows peer)[id]? with _ | _ | rec
  · simp
  · simp
  · simp

theorem mem_prunablePeers {peer : DeviceId} : peer ∈ s.prunablePeers ↔ s.Offered peer := by
  rw [prunablePeers, Std.ExtTreeSet.mem_toList, Std.ExtTreeSet.mem_ofList, List.contains_iff_mem,
    List.mem_append, conversationPeers, List.mem_filter, holdsPrivateRecord_iff, mem_peerNamespaces,
    Offered]
  refine or_congr ⟨And.right, fun h => ⟨?_, h⟩⟩ ?_
  · obtain ⟨id, held⟩ := h
    refine Std.ExtTreeMap.isEmpty_eq_false_iff.mpr fun empty => ?_
    rw [empty] at held
    simp at held
  · simp only [List.mem_filterMap, Prod.exists, Std.ExtTreeMap.mem_toList_iff_getElem?_eq_some,
      Option.map_eq_some_iff]
    constructor
    · rintro ⟨id, value, held, e, rfl, own⟩
      exact ⟨id, e, held, own⟩
    · rintro ⟨id, e, held, own⟩
      exact ⟨id, some e, held, e, rfl, own⟩

theorem closedOn_of_isOff {r : Retention} (off : r.isOff = true) (basis : Option Int) (now : Int) :
    r.closedOn c basis now = false := by
  have never : r.ttlSecs = none := Option.isNone_iff_eq_none.mp off
  rw [Retention.closedOn, Retention.cutoff, never]
  rfl

theorem not_overdue_of_isOff {r : Retention} {now : Int} {peer : DeviceId}
    (window : s.retention peer = .ok r) (off : r.isOff = true) : ¬ s.Overdue c now peer := by
  rintro ⟨r', set, ⟨_, rec, _, closed⟩ | ⟨_, e, _, _, closed⟩⟩
  · cases window.symm.trans set
    rw [ChatRecord.hasDisappeared, closedOn_of_isOff off] at closed
    cases closed
  · cases window.symm.trans set
    rw [OutboxEntry.expired, OutboxEntry.hasDisappeared, closedOn_of_isOff off] at closed
    simp at closed

/-- A prune of a peer leaves nothing of that peer's overdue, and all of the others'. -/
theorem prune_overdue {now : Int} {peer : DeviceId} {out : ChatStore × Pruned}
    (h : s.prune c now peer = .ok out) : out.1.windows = s.windows ∧
      ∀ p, out.1.Overdue c now p ↔ s.Overdue c now p ∧ p ≠ peer := by
  cases window : s.retention peer with
  | error error => rw [prune, window] at h; cases h
  | ok r =>
    cases set : r.isOff with
    | true =>
      rw [prune, window] at h
      simp only [Except.map, set, if_true] at h
      cases h
      refine ⟨rfl, fun p => ⟨fun due => ⟨due, ?_⟩, And.left⟩⟩
      rintro rfl
      exact not_overdue_of_isOff window set due
    | false =>
      obtain ⟨outbox, rows, windows⟩ := prune_ok window set h
      refine ⟨windows, fun p => ⟨?_, ?_⟩⟩
      · rintro ⟨r', policy, ⟨id, rec, held, closed⟩ | ⟨id, e, held, own, closed⟩⟩
        · rw [retention_congr windows] at policy
          rw [rows] at held
          split at held
          next => cases held
          next spared =>
            refine ⟨⟨r', policy, .inl ⟨id, rec, held, closed⟩⟩, ?_⟩
            rintro rfl
            cases window.symm.trans policy
            exact spared ⟨rfl, mem_expiredRecords.mpr ⟨rec, held, closed⟩⟩
        · rw [retention_congr windows] at policy
          rw [outbox] at held
          split at held
          next => cases held
          next spared =>
            refine ⟨⟨r', policy, .inr ⟨id, e, held, own, closed⟩⟩, ?_⟩
            rintro rfl
            cases window.symm.trans policy
            exact spared (mem_expiredEntries.mpr ⟨e, held, own, closed⟩)
      · rintro ⟨⟨r', policy, ⟨id, rec, held, closed⟩ | ⟨id, e, held, own, closed⟩⟩, other⟩
        · refine ⟨r', (retention_congr windows p).trans policy, .inl ⟨id, rec, ?_, closed⟩⟩
          rw [rows, if_neg fun same => other same.1.symm]
          exact held
        · refine ⟨r', (retention_congr windows p).trans policy, .inr ⟨id, e, ?_, own, closed⟩⟩
          rw [outbox, if_neg, held]
          intro mem
          obtain ⟨e', held', own', _⟩ := mem_expiredEntries.mp mem
          cases held.symm.trans held'
          exact other (own.symm.trans own')

theorem prune_error_iff {now : Int} {peer : DeviceId} :
    (∃ error, s.prune c now peer = .error error) ↔ s.windows peer = some none := by
  rw [← retention_error_iff, prune]
  rcases s.retention peer with error | r
  · cases error
    exact iff_of_true ⟨_, rfl⟩ rfl
  · simp [Except.map]

/-- The walk prunes the peers before the first whose policy is unreadable. -/
theorem pruneFrom_overdue {now : Int} {p : DeviceId} (peers : List DeviceId) (s : ChatStore)
    (total : Pruned) : (pruneFrom c now peers s total).1.Overdue c now p ↔
      s.Overdue c now p ∧ p ∉ peers.takeWhile (s.windows · ≠ some none) := by
  induction peers generalizing s total with
  | nil => simp [pruneFrom]
  | cons peer peers ih =>
    rw [pruneFrom]
    cases pruned : s.prune c now peer with
    | error error =>
      have broken := prune_error_iff.mp ⟨error, pruned⟩
      rw [List.takeWhile_cons_of_neg (by simp [broken])]
      simp
    | ok out =>
      obtain ⟨windows, overdue⟩ := prune_overdue pruned
      have readable : s.windows peer ≠ some none := by
        intro broken
        obtain ⟨error, failed⟩ := prune_error_iff.mpr broken
        cases pruned.symm.trans failed
      show (pruneFrom c now peers out.1 _).1.Overdue c now p ↔ _
      rw [ih, windows, overdue, List.takeWhile_cons_of_pos (by simp [readable]), List.mem_cons, not_or,
        and_assoc]

theorem pruneAllConversations_overdue_iff {now : Int} {p : DeviceId} :
    (s.pruneAllConversations c now).1.Overdue c now p ↔ s.Overdue c now p ∧ ¬ s.Reached p := by
  have sorted : s.prunablePeers.Pairwise (compare · · = .lt) := Std.ExtTreeSet.ordered_toList
  rw [pruneAllConversations, pruneFrom_overdue, SortedMap.mem_takeWhile sorted]
  refine and_congr_right fun due => not_congr ?_
  have readable : s.windows p ≠ some none := by
    intro broken
    obtain ⟨r, window, _⟩ := due
    cases window.symm.trans (retention_error_iff.mpr broken)
  simp only [mem_prunablePeers, Reached, decide_eq_true_eq]
  exact and_congr_right fun _ => and_iff_right readable

/-- No reader returns a row or an entry of a peer whose window is closed on it when it is read. -/
structure ReadersHonour (c : Chrono) (lower : Char → List Char) (onDisk : String → Bool)
    (s : ChatStore) (now : Int) : Prop where
  history : ∀ peer s' out, s.history c now peer = .ok (s', out) →
    ∀ rec ∈ out, s.OpenFor c now peer (rec.ageBasis c)
  get : ∀ peer id s' rec, s.get c now peer id = .ok (s', some rec) →
    s.OpenFor c now peer (rec.ageBasis c)
  groupHistory : ∀ group s' out, s.groupHistory c now group = .ok (s', out) →
    ∃ rows, s.groupRows c now group = .ok (s', rows) ∧ out = rows.map Prod.snd ∧
      ∀ row ∈ rows, s.OpenFor c now row.1 (row.2.ageBasis c)
  search : ∀ clock query limit s' found, s.search c lower clock query limit = .ok (s', found) →
    ∀ hit ∈ found.hits, s.OpenFor c (clock hit.peerId) hit.peerId hit.instant
  outboxPending : ∀ out, s.outboxPending c now = .ok out → ∀ e ∈ out,
    e.kind = .decline ∨ s.OpenFor c now e.peerId (c.parse e.timestamp)
  nextFileFor : ∀ peer e file, s.nextFileFor c onDisk now peer = .ok (some (e, file)) →
    e.peerId = peer ∧ s.OpenFor c now peer (c.parse e.timestamp)

theorem outboxPending_openFor {now : Int} {out : List OutboxEntry}
    (h : s.outboxPending c now = .ok out) {e : OutboxEntry} (mem : e ∈ out) :
    e.kind = .decline ∨ s.OpenFor c now e.peerId (c.parse e.timestamp) := by
  obtain ⟨r, window, live⟩ := outboxPending_open h e mem
  rw [OutboxEntry.expired, Bool.and_eq_false_iff] at live
  rcases live with exempt | live
  · left
    simpa using exempt
  · exact .inr ⟨r, window, live⟩

theorem readersHonour (c : Chrono) (lower : Char → List Char) (onDisk : String → Bool)
    (s : ChatStore) (now : Int) : s.ReadersHonour c lower onDisk now where
  history peer s' out h := (records_open h).2
  get peer id s' rec h := get_open h
  groupHistory group s' out h := by
    obtain ⟨⟨_, rows⟩, read, same⟩ := Outcome.ok_of_map h
    cases same
    exact ⟨rows, read, rfl, groupRows_open read⟩
  search clock query limit s' found h := search_open h
  outboxPending out h e mem := outboxPending_openFor h mem
  nextFileFor peer e file h := by
    obtain ⟨rfl, kind, out, read, mem⟩ := nextFileFor_mem h
    refine ⟨rfl, (outboxPending_openFor read mem).resolve_left ?_⟩
    rw [kind]
    decide

/-- For every store and instant, all readers honour the windows, and after every conversation is
pruned nothing is overdue exactly where each peer for whom something was is reached. -/
theorem windows_honoured_iff (c : Chrono) (lower : Char → List Char) (onDisk : String → Bool)
    (s : ChatStore) (now : Int) : s.ReadersHonour c lower onDisk now ∧
      ((∀ peer, ¬ (s.pruneAllConversations c now).1.Overdue c now peer) ↔
        ∀ peer, s.Overdue c now peer → s.Reached peer) := by
  refine ⟨readersHonour c lower onDisk s now, ?_⟩
  simp only [pruneAllConversations_overdue_iff, not_and, not_not]

private def wallClock : Chrono :=
  ⟨fun _ => none, fun now secs => some (now - secs * 1000000000), -8334601228800000000000⟩

private def groupRow : ChatRecord :=
  { id := "m", peerId := "ann", direction := .inn, timestamp := "2026-01-01T00:00:00Z", body := "hi",
    status := .received, kind := .text, file := none, inReplyTo := none, group := some "g",
    storedAt := some 0 }

private def groupOnly : ChatStore := (empty.setRetention "ann" ⟨some 3600⟩).append groupRow

/-- Two hours after the row was stored, under a window of one. -/
theorem group_row_outlives_window :
    (groupOnly.pruneAllConversations wallClock 7200000000000).2 = .ok ⟨0, 0, []⟩ ∧
      ¬ ∀ peer, ¬ (groupOnly.pruneAllConversations wallClock 7200000000000).1.Overdue wallClock
        7200000000000 peer := by
  refine ⟨by decide, fun none => none "ann" ⟨⟨some 3600⟩, by decide, .inl ⟨"m", groupRow, ?_, ?_⟩⟩⟩
  · decide
  · decide

end ChatStore

end PeerBeam.Chat
