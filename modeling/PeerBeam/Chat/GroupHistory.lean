import PeerBeam.Chat.Reads
import PeerBeam.Chat.Window
import PeerBeam.Lib.FirstSeen
import PeerBeam.Lib.Ranked

/-! Which messages of a group its history shows. Copies of a message of ours share an id, and one set of
ids stands for all members' messages. -/
namespace PeerBeam.Chat

namespace ChatStore
open FirstSeen (keep)

variable (c : Chrono) (s : ChatStore)

/-- A row of the peer's namespace that is the group's, as long as its window is open. -/
def Tagged (group : String) (now : Int) (peer : DeviceId) (rec : ChatRecord) : Prop :=
  ∃ r, s.retention peer = .ok r ∧ (s.rows peer)[rec.id]? = some (some rec) ∧ rec.group = some group ∧
    rec.hasDisappeared c r now = false

def taggedOf (group : String) (r : Retention) (now : Int) (rows : List (String × Option ChatRecord)) :
    List ChatRecord :=
  (rows.filterMap Prod.snd).filter fun rec => rec.group = some group && !rec.hasDisappeared c r now

def scanned (group : String) (now : Int) (peers : List DeviceId) : List (DeviceId × ChatRecord) :=
  peers.flatMap fun peer =>
    match s.retention peer with
    | .error _ => []
    | .ok r => (taggedOf c group r now (s.rows peer).toList).map (peer, ·)

def messageId (row : DeviceId × ChatRecord) : Option String := some row.2.id

/-- Every row that came in is there once, every message of ours once, nothing else is there, and all in
order. -/
structure CompleteHistory (group : String) (now : Int) (out : List ChatRecord) : Prop where
  incoming : ∀ peer rec, s.Tagged c group now peer rec → rec.direction = .inn → out.count (s.landed rec) = 1
  outgoing : ∀ peer rec, s.Tagged c group now peer rec → rec.direction = .out →
    out.countP (fun other => other.direction = .out && other.id = rec.id) = 1
  only : ∀ rec ∈ out, ∃ first, s.Tagged c group now rec.peerId first ∧ s.landed first = rec
  ordered : out.Pairwise fun a b =>
    ((compare (a.ageBasis c) (b.ageBasis c)).then (compare a.id b.id)).isLE = true

variable {c s}

theorem taggedOf_cons (group : String) (r : Retention) (now : Int) (key : String) (rec : ChatRecord)
    (rows : List (String × Option ChatRecord)) : taggedOf c group r now ((key, some rec) :: rows) =
      if rec.group = some group ∧ rec.hasDisappeared c r now = false then
        rec :: taggedOf c group r now rows else taggedOf c group r now rows := by
  show (rec :: rows.filterMap Prod.snd).filter _ = _
  rw [List.filter_cons]
  refine ite_congr ?_ (fun _ => rfl) fun _ => rfl
  simp

theorem mem_taggedOf {group : String} {r : Retention} {now : Int} {rows : List (String × Option ChatRecord)}
    {rec : ChatRecord} : rec ∈ taggedOf c group r now rows ↔
      ∃ key, (key, some rec) ∈ rows ∧ rec.group = some group ∧ rec.hasDisappeared c r now = false := by
  rw [taggedOf, List.mem_filter, List.mem_filterMap]
  simp

section
variable {group : String} {r : Retention} {now : Int} {peer : DeviceId}

/-- What one namespace adds to what is gathered, which ids are then met, and what is left alone. -/
structure Gathers (c : Chrono) (group : String) (r : Retention) (now : Int) (peer : DeviceId)
    (rows : List (String × Option ChatRecord)) (g g' : Gathered) : Prop where
  out : g'.out = g.out ++ (keep messageId g.seen ((taggedOf c group r now rows).map (peer, ·))).map
    fun row => (row.1, g.store.landed row.2)
  seen : ∀ id, id ∈ g'.seen ↔ id ∈ g.seen ∨ ∃ rec ∈ taggedOf c group r now rows, rec.id = id
  windows : g'.store.windows = g.store.windows
  others : ∀ other, peer ≠ other → g.store.SameFor g'.store other

theorem gather_of_not {g : Gathered} {rec : ChatRecord}
    (other : ¬ (rec.group = some group ∧ rec.hasDisappeared c r now = false)) :
    gather c group r now peer g (some rec) = g := by
  rw [gather]
  split
  next => rfl
  next own =>
    rw [if_pos]
    exact Bool.not_eq_false _ ▸ fun live => other ⟨not_not.mp own, live⟩

theorem gather_of_met {g : Gathered} {rec : ChatRecord} (met : rec.id ∈ g.seen) :
    gather c group r now peer g (some rec) = g := by
  rw [gather, if_pos met]
  simp

theorem gather_of_new {g : Gathered} {rec : ChatRecord} (own : rec.group = some group)
    (live : rec.hasDisappeared c r now = false) (new : rec.id ∉ g.seen) :
    gather c group r now peer g (some rec) =
      ⟨g.store.taken rec, rec.id :: g.seen, g.out ++ [(peer, g.store.landed rec)]⟩ := by
  rw [gather, if_neg (not_not.mpr own), if_neg (by rw [live]; exact Bool.false_ne_true), if_neg new]
  rfl

theorem gather_rows {g : Gathered} {rows : List (String × Option ChatRecord)} (h : g.store.Listed peer rows) :
    Gathers c group r now peer rows g (rows.foldl (fun g row => gather c group r now peer g row.2) g) := by
  induction rows generalizing g with
  | nil =>
    refine ⟨(List.append_nil _).symm, fun id => ?_, rfl, fun _ _ => ⟨rfl, rfl⟩⟩
    simp [taggedOf]
  | cons row rows ih =>
    obtain ⟨key, _ | rec⟩ := row
    · obtain ⟨out, seen, windows, others⟩ := ih h.of_cons
      exact ⟨out, seen, windows, others⟩
    rw [List.foldl_cons]
    by_cases own : rec.group = some group ∧ rec.hasDisappeared c r now = false
    · by_cases met : rec.id ∈ g.seen
      · obtain ⟨out, seen, windows, others⟩ := ih h.of_cons
        rw [gather_of_met met]
        refine ⟨?_, fun id => ?_, windows, others⟩
        · rw [out, taggedOf_cons, if_pos own, List.map_cons,
            FirstSeen.keep_cons_of_mem (show messageId (peer, rec) = some rec.id from rfl) met]
        · rw [seen, taggedOf_cons, if_pos own, List.exists_mem_cons_iff, or_left_comm]
          exact (or_iff_right_of_imp fun same => .inl (same ▸ met)).symm
      · obtain ⟨rest, same⟩ := h.tail
        obtain ⟨out, seen, windows, others⟩ := ih (g := ⟨g.store.taken rec, rec.id :: g.seen,
          g.out ++ [(peer, g.store.landed rec)]⟩) rest
        rw [gather_of_new own.1 own.2 met]
        have place := h.placed key rec List.mem_cons_self
        have stored := h.stored key rec List.mem_cons_self
        refine ⟨?_, fun id => ?_, windows.trans (windows_taken _ _), fun other apart => ?_⟩
        · rw [out, taggedOf_cons, if_pos own, List.map_cons,
            FirstSeen.keep_cons_of_not_mem (show messageId (peer, rec) = some rec.id from rfl) met, List.map_cons,
            List.append_assoc, List.singleton_append]
          refine congrArg (g.out ++ (peer, g.store.landed rec) :: ·) (List.map_congr_left fun row mem => ?_)
          obtain ⟨other, found, rfl⟩ := List.mem_map.mp ((FirstSeen.keep_sublist _ _).mem mem)
          obtain ⟨key', listed⟩ := mem_taggedOf.mp found
          rw [same key' other listed.1]
        · rw [seen, taggedOf_cons, if_pos own, List.exists_mem_cons_iff, List.mem_cons, eq_comm, or_assoc, or_left_comm]
        · refine (sameFor_taken ?_ (place.1 ▸ apart)).trans (others other apart)
          rw [place.1, place.2]
          exact stored
    · rw [gather_of_not own]
      obtain ⟨out, seen, windows, others⟩ := ih h.of_cons
      refine ⟨?_, fun id => ?_, windows, others⟩
      · rw [out, taggedOf_cons, if_neg own]
      · rw [seen, taggedOf_cons, if_neg own]

theorem mem_scanned {peers : List DeviceId} {row : DeviceId × ChatRecord} :
    row ∈ s.scanned c group now peers ↔ row.1 ∈ peers ∧ ∃ key r, s.retention row.1 = .ok r ∧
      (key, some row.2) ∈ (s.rows row.1).toList ∧ row.2.group = some group ∧
        row.2.hasDisappeared c r now = false := by
  obtain ⟨p, rec⟩ := row
  rw [scanned, List.mem_flatMap]
  constructor
  · rintro ⟨peer, mem, found⟩
    cases window : s.retention peer with
    | error e => rw [window] at found; cases found
    | ok r =>
      rw [window] at found
      obtain ⟨_, tagged, same⟩ := List.mem_map.mp found
      cases same
      obtain ⟨key, listed, own⟩ := mem_taggedOf.mp tagged
      exact ⟨mem, key, r, window, listed, own⟩
  · rintro ⟨mem, key, r, window, listed, own⟩
    refine ⟨p, mem, ?_⟩
    dsimp only at window
    rw [window]
    exact List.mem_map.mpr ⟨rec, mem_taggedOf.mpr ⟨key, listed, own⟩, rfl⟩

theorem gatherFrom_eq (keyed : s.WellKeyed) {peers : List DeviceId} (apart : peers.Nodup) {g g' : Gathered}
    (fresh : s.Untouched peers g.store) (done : gatherFrom c group now peers g = .ok g') :
    g'.out = g.out ++ (keep messageId g.seen (s.scanned c group now peers)).map
      fun row => (row.1, s.landed row.2) := by
  induction peers generalizing g with
  | nil =>
    cases done
    exact (List.append_nil _).symm
  | cons peer peers ih =>
    obtain ⟨new, apart⟩ := List.nodup_cons.mp apart
    rw [gatherFrom, retention_congr fresh.windows] at done
    cases window : s.retention peer with
    | error e => rw [window] at done; cases done
    | ok r =>
      rw [window] at done
      have here := fresh.same peer List.mem_cons_self
      have listed : g.store.Listed peer (g.store.rows peer).toList := here.rows ▸ here.listed (keyed.listed peer)
      obtain ⟨out, seen, windows, others⟩ : Gathers c group r now peer (g.store.rows peer).toList g _ :=
        gather_rows listed
      dsimp only at done
      rw [ih apart (fresh.next new windows others) done, out]
      have scan : s.scanned c group now (peer :: peers) =
          (taggedOf c group r now (s.rows peer).toList).map (peer, ·) ++ s.scanned c group now peers := by
        rw [scanned, List.flatMap_cons, window]
        rfl
      rw [scan, FirstSeen.keep_append, List.map_append, List.append_assoc, here.rows]
      refine congrArg (g.out ++ ·) (congrArg₂ (· ++ ·) (List.map_congr_left fun row mem => ?_)
        (congrArg (List.map _) (FirstSeen.keep_congr (fun id => ?_) _)))
      · obtain ⟨rec, found, rfl⟩ := List.mem_map.mp ((FirstSeen.keep_sublist _ _).mem mem)
        obtain ⟨key, stored, _⟩ := mem_taggedOf.mp found
        obtain ⟨own, _⟩ := (keyed.listed peer).placed key rec stored
        exact congrArg (peer, ·) (here.landed own)
      · rw [here.rows] at seen
        rw [seen, List.mem_append, List.mem_filterMap, or_comm]
        refine or_congr_left ?_
        simp [messageId]

def kept (c : Chrono) (s : ChatStore) (group : String) (now : Int) : List (DeviceId × ChatRecord) :=
  keep messageId [] (s.scanned c group now s.peerNamespaces)

theorem tagged_iff_mem (keyed : s.WellKeyed) {rec : ChatRecord} :
    s.Tagged c group now peer rec ↔ (peer, rec) ∈ s.scanned c group now s.peerNamespaces := by
  rw [mem_scanned]
  constructor
  · rintro ⟨r, window, stored, own⟩
    refine ⟨mem_peerNamespaces.mpr (Std.ExtTreeMap.isEmpty_eq_false_iff.mpr fun empty => ?_), rec.id, r, window,
      Std.ExtTreeMap.mem_toList_iff_getElem?_eq_some.mpr stored, own⟩
    rw [empty] at stored
    simp at stored
  · rintro ⟨-, key, r, window, listed, own⟩
    have stored := Std.ExtTreeMap.mem_toList_iff_getElem?_eq_some.mp listed
    obtain ⟨-, rfl⟩ := keyed peer key rec stored
    exact ⟨r, window, stored, own⟩

/-- A row is known by its peer and its id. -/
theorem Tagged.unique {rec rec' : ChatRecord} (h : s.Tagged c group now peer rec)
    (h' : s.Tagged c group now peer rec') (same : rec.id = rec'.id) : rec = rec' := by
  obtain ⟨_, _, stored, _⟩ := h
  obtain ⟨_, _, stored', _⟩ := h'
  rw [same, stored'] at stored
  cases stored
  rfl

theorem tagged_of_mem_kept (keyed : s.WellKeyed) {row : DeviceId × ChatRecord} (mem : row ∈ s.kept c group now) :
    s.Tagged c group now row.1 row.2 :=
  (tagged_iff_mem keyed).mpr ((FirstSeen.keep_sublist _ _).mem mem)

theorem exists_mem_kept (keyed : s.WellKeyed) {rec : ChatRecord} (tagged : s.Tagged c group now peer rec) :
    ∃ row ∈ s.kept c group now, row.2.id = rec.id := by
  obtain ⟨row, mem, same⟩ := FirstSeen.exists_kept ((tagged_iff_mem keyed).mp tagged)
    (show messageId (peer, rec) = some rec.id from rfl) List.not_mem_nil
  exact ⟨row, mem, Option.some.inj same⟩

theorem kept_apart : (s.kept c group now).Pairwise fun a b => a.2.id ≠ b.2.id :=
  (FirstSeen.keep_apart _ _).imp fun apart same => apart _ rfl (congrArg some same.symm)

theorem kept_unique {row row' : DeviceId × ChatRecord} (mem : row ∈ s.kept c group now)
    (mem' : row' ∈ s.kept c group now) (same : row.2.id = row'.2.id) : row = row' := by
  have symm : Std.Symm fun a b : DeviceId × ChatRecord => a.2.id ≠ b.2.id := ⟨fun _ _ => Ne.symm⟩
  by_contra other
  exact kept_apart.forall mem mem' other same

def byAge (c : Chrono) : DeviceId × ChatRecord → DeviceId × ChatRecord → Ordering :=
  compareLex (compareOn fun row : DeviceId × ChatRecord => row.2.ageBasis c)
    (compareOn fun row : DeviceId × ChatRecord => row.2.id)

instance : Std.TransCmp (byAge c) :=
  inferInstanceAs (Std.TransCmp (compareLex _ _))

/-- The history of a group is the rows kept, as they land, in order. -/
theorem groupHistory_perm (keyed : s.WellKeyed) {out : ChatStore × List ChatRecord}
    (read : s.groupHistory c now group = .ok out) :
    out.2.Perm ((s.kept c group now).map fun row => s.landed row.2) ∧ out.2.Pairwise fun a b =>
      ((compare (a.ageBasis c) (b.ageBasis c)).then (compare a.id b.id)).isLE = true := by
  rw [groupHistory] at read
  obtain ⟨rows, gathered, rfl⟩ := Outcome.ok_of_map read
  rw [groupRows] at gathered
  obtain ⟨g, walked, rfl⟩ := Outcome.ok_of_map gathered
  have untouched : s.Untouched s.peerNamespaces s := ⟨rfl, fun _ _ => ⟨rfl, rfl⟩⟩
  have all := gatherFrom_eq keyed s.nodup_peerNamespaces untouched walked
  constructor
  · refine ((List.mergeSort_perm g.out (stored c)).map Prod.snd).trans (List.Perm.of_eq ?_)
    rw [all, List.nil_append, List.map_map]
    rfl
  · exact List.pairwise_map.mpr (@Ranked.sorted_sort _ (byAge c) _ g.out)

theorem nodup_kept_ids : ((s.kept c group now).map fun row => row.2.id).Nodup :=
  List.pairwise_map.mpr kept_apart

/-- A row is in the history if it was kept, and then once. -/
theorem count_landed (keyed : s.WellKeyed) {rec : ChatRecord} (tagged : s.Tagged c group now peer rec) :
    ((s.kept c group now).map fun row => s.landed row.2).count (s.landed rec) = 1 ↔
      (peer, rec) ∈ s.kept c group now := by
  have apart : ((s.kept c group now).map fun row => s.landed row.2).Nodup :=
    List.pairwise_map.mpr (kept_apart.imp fun {a b} apart same => apart (by
      rw [← (s.landed_key a.2).2, same, (s.landed_key b.2).2]))
  rw [apart.count]
  constructor
  · intro once
    split at once
    next found =>
      obtain ⟨⟨p, other⟩, mem, same⟩ := List.mem_map.mp found
      have tagged' := tagged_of_mem_kept keyed mem
      obtain ⟨_, _, stored, _⟩ := tagged
      obtain ⟨_, _, stored', _⟩ := tagged'
      have here : rec.peerId = other.peerId := by
        rw [← (s.landed_key rec).1, ← same, (s.landed_key other).1]
      have at_ : rec.id = other.id := by
        rw [← (s.landed_key rec).2, ← same, (s.landed_key other).2]
      rw [(keyed _ _ _ stored).1, (keyed _ _ _ stored').1] at here
      dsimp only at here stored'
      rw [here, at_, stored'] at stored
      cases stored
      rw [here]
      exact mem
    next => cases once
  · intro mem
    exact if_pos (List.mem_map.mpr ⟨(peer, rec), mem, rfl⟩)

theorem countP_outgoing (id : String) : ((s.kept c group now).map fun row => s.landed row.2).countP
      (fun other => other.direction = .out && other.id = id) = 1 ↔
    ∃ row ∈ s.kept c group now, row.2.id = id ∧ row.2.direction = .out := by
  rw [List.countP_map]
  have most : (s.kept c group now).countP
      ((fun other : ChatRecord => other.direction = .out && other.id = id) ∘ fun row => s.landed row.2) ≤ 1 :=
    calc
      _ ≤ (s.kept c group now).countP fun row => row.2.id == id := by
        refine List.countP_mono_left fun row _ own => ?_
        rw [Function.comp_apply, (s.landed_key row.2).2, Bool.and_eq_true] at own
        exact beq_iff_eq.mpr (of_decide_eq_true own.2)
      _ = ((s.kept c group now).map fun row => row.2.id).count id := by
        rw [List.count, List.countP_map]
        rfl
      _ ≤ 1 := List.nodup_iff_count_le_one.mp nodup_kept_ids id
  have once := (show _ = 1 ↔ 0 < _ from ⟨fun one => one ▸ Nat.one_pos, fun found => Nat.le_antisymm most found⟩)
  refine once.trans (List.countP_pos_iff.trans (exists_congr fun row => and_congr_right fun _ => ?_))
  rw [Function.comp_apply, (s.landed_key row.2).2, landed_direction, Bool.and_eq_true, decide_eq_true_eq,
    decide_eq_true_eq, and_comm]

end

/-- Where an id is met again, both messages are ours. -/
def OwnCopies (c : Chrono) (s : ChatStore) (group : String) (now : Int) : Prop :=
  ∀ peer peer' rec rec', s.Tagged c group now peer rec → s.Tagged c group now peer' rec' → peer ≠ peer' →
    rec.id = rec'.id → rec.direction = .out ∧ rec'.direction = .out

section
variable {group : String} {now : Int} {out : ChatStore × List ChatRecord}

theorem count_groupHistory (keyed : s.WellKeyed) (read : s.groupHistory c now group = .ok out) {peer : DeviceId}
    {rec : ChatRecord} (tagged : s.Tagged c group now peer rec) :
    out.2.count (s.landed rec) = 1 ↔ (peer, rec) ∈ s.kept c group now := by
  rw [(groupHistory_perm keyed read).1.count_eq]
  exact count_landed keyed tagged

theorem countP_groupHistory (keyed : s.WellKeyed) (read : s.groupHistory c now group = .ok out) (id : String) :
    out.2.countP (fun other => other.direction = .out && other.id = id) = 1 ↔
      ∃ row ∈ s.kept c group now, row.2.id = id ∧ row.2.direction = .out := by
  rw [(groupHistory_perm keyed read).1.countP_eq]
  exact countP_outgoing id

/-- What came in is kept, and then nothing else under its id is. -/
theorem CompleteHistory.sent_of_met (keyed : s.WellKeyed) (read : s.groupHistory c now group = .ok out)
    (complete : s.CompleteHistory c group now out.2) {peer peer' : DeviceId} {rec rec' : ChatRecord}
    (tagged : s.Tagged c group now peer rec) (tagged' : s.Tagged c group now peer' rec') (apart : peer ≠ peer')
    (met : rec.id = rec'.id) : rec.direction = .out := by
  cases came : rec.direction with
  | out => rfl
  | inn =>
    have here := (count_groupHistory keyed read tagged).mp (complete.incoming peer rec tagged came)
    cases other : rec'.direction with
    | inn =>
      have there := (count_groupHistory keyed read tagged').mp (complete.incoming peer' rec' tagged' other)
      exact absurd (Prod.ext_iff.mp (kept_unique here there met)).1 apart
    | out =>
      obtain ⟨row, mem, own, sent⟩ := (countP_groupHistory keyed read _).mp (complete.outgoing peer' rec' tagged' other)
      cases kept_unique here mem (met.trans own.symm)
      cases came.symm.trans sent

/-- For a store whose rows stand under their own keys, the history is complete exactly where no id is used in
two conversations, our own copies apart. -/
theorem groupHistory_complete_iff (keyed : s.WellKeyed) (read : s.groupHistory c now group = .ok out) :
    s.CompleteHistory c group now out.2 ↔ s.OwnCopies c group now := by
  constructor
  · intro complete peer peer' rec rec' tagged tagged' apart met
    exact ⟨complete.sent_of_met keyed read tagged tagged' apart met,
      complete.sent_of_met keyed read tagged' tagged apart.symm met.symm⟩
  · intro copies
    obtain ⟨same, ordered⟩ := groupHistory_perm keyed read
    refine ⟨fun peer rec tagged came => ?_, fun peer rec tagged sent => ?_, fun rec mem => ?_, ordered⟩
    · obtain ⟨⟨p, first⟩, mem, met⟩ := exists_mem_kept keyed tagged
      have tagged' := tagged_of_mem_kept keyed mem
      by_cases here : p = peer
      · subst here
        cases tagged.unique tagged' met.symm
        exact (count_groupHistory keyed read tagged).mpr mem
      · cases came.symm.trans (copies p peer first rec tagged' tagged here met).2
    · obtain ⟨⟨p, first⟩, mem, met⟩ := exists_mem_kept keyed tagged
      have tagged' := tagged_of_mem_kept keyed mem
      refine (countP_groupHistory keyed read rec.id).mpr ⟨(p, first), mem, met, ?_⟩
      by_cases here : p = peer
      · subst here
        cases tagged.unique tagged' met.symm
        exact sent
      · exact (copies p peer first rec tagged' tagged here met).1
    · obtain ⟨⟨p, first⟩, kept, rfl⟩ := List.mem_map.mp (same.mem_iff.mp mem)
      have tagged := tagged_of_mem_kept keyed kept
      refine ⟨first, ?_, rfl⟩
      obtain ⟨_, _, stored, _⟩ := tagged_of_mem_kept keyed kept
      rw [(s.landed_key first).1, (keyed _ _ _ stored).1]
      exact tagged

end

private def undated : Chrono := ⟨fun _ => none, fun now _ => some now, 0⟩

private def groupMessage (peer : DeviceId) (direction : Direction) (body : String) : ChatRecord :=
  { id := "m", peerId := peer, direction := direction, timestamp := "2026-01-01T00:00:00Z", body := body,
    status := .received, kind := .text, file := none, inReplyTo := none, group := some "g",
    storedAt := some 0 }

private def reused : ChatStore :=
  (empty.write (groupMessage "ann" .inn "one")).write (groupMessage "bob" .inn "two")

private def twoCopies : ChatStore :=
  (empty.write (groupMessage "ann" .out "hi")).write (groupMessage "bob" .out "hi")

private theorem tagged_reused : reused.Tagged undated "g" 0 "ann" (groupMessage "ann" .inn "one") ∧
    reused.Tagged undated "g" 0 "bob" (groupMessage "bob" .inn "two") :=
  ⟨⟨⟨none⟩, rfl, by decide, rfl, by decide⟩, ⟨⟨none⟩, rfl, by decide, rfl, by decide⟩⟩

/-- One message of ours is there once. -/
theorem copies_shown_once : ∃ out, twoCopies.groupHistory undated 0 "g" = .ok out ∧
    twoCopies.CompleteHistory undated "g" 0 out.2 := by
  have keyed : twoCopies.WellKeyed := (wellKeyed_empty.write _).write _
  refine ⟨_, rfl, (groupHistory_complete_iff keyed rfl).mpr ?_⟩
  have sent (peer : DeviceId) (rec : ChatRecord) (tagged : twoCopies.Tagged undated "g" 0 peer rec) :
      rec.direction = .out := by
    obtain ⟨_, _, stored, _⟩ := tagged
    rw [twoCopies, rows_write, rows_write] at stored
    split at stored
    · cases stored
      rfl
    split at stored
    · cases stored
      rfl
    · simp [empty, rows] at stored
  intro peer peer' rec rec' tagged tagged' _ _
  exact ⟨sent peer rec tagged, sent peer' rec' tagged'⟩

/-- The later of two members' messages is not there. -/
theorem member_hides_member : ∃ out, reused.groupHistory undated 0 "g" = .ok out ∧
    ¬ reused.CompleteHistory undated "g" 0 out.2 := by
  have keyed : reused.WellKeyed := (wellKeyed_empty.write _).write _
  refine ⟨_, rfl, fun complete => ?_⟩
  cases complete.sent_of_met keyed rfl tagged_reused.1 tagged_reused.2 (by decide) rfl

end ChatStore

end PeerBeam.Chat
