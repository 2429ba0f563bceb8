import PeerBeam.Chat.Reads

/-! Read receipts: a watermark marks our own rows of a conversation, up to the message it names. -/
namespace PeerBeam.Chat

/-- Whether the status says that the message has reached its peer. -/
def Status.delivered : Status → Bool
  | .sent | .received | .pendingApproval => true
  | .pending | .staging | .transferring | .interrupted | .failed | .declined => false

/-- Our own rows that are not marked yet, up to the watermark. -/
def ChatRecord.unreadUpTo (rec : ChatRecord) (readThrough : String) : Prop :=
  rec.direction = .out ∧ rec.readAt = none ∧ rec.id ≤ readThrough

instance (rec : ChatRecord) (readThrough : String) : Decidable (rec.unreadUpTo readThrough) :=
  inferInstanceAs (Decidable (_ ∧ _ ∧ _))

def ChatRecord.readOn (rec : ChatRecord) (stamp : String) : ChatRecord := { rec with readAt := some stamp }

theorem ChatRecord.unreadUpTo_iff (rec : ChatRecord) (readThrough : String) : rec.unreadUpTo readThrough ↔
    ¬ (rec.direction ≠ .out ∨ rec.readAt.isSome ∨ readThrough < rec.id) := by
  rw [unreadUpTo, not_or, not_or, not_not, Bool.not_eq_true, Option.isSome_eq_false_iff, Option.isNone_iff_eq_none,
    String.not_lt]

def Chrono.Later (c : Chrono) (now now' : Int) : Prop :=
  ∀ (r : Retention) (basis : Option Int), r.closedOn c basis now = true → r.closedOn c basis now' = true

namespace ChatStore
variable (c : Chrono) (s : ChatStore)

/-- The loop of `apply_receipt`. -/
def markRead (readThrough stamp : String) : ChatStore → List ChatRecord → ChatStore × Nat
  | s, [] => (s, 0)
  | s, rec :: rest =>
    if rec.direction ≠ .out ∨ rec.readAt.isSome ∨ readThrough < rec.id then markRead readThrough stamp s rest
    else
      let later := markRead readThrough stamp (s.append (rec.readOn stamp)) rest
      (later.1, later.2 + 1)

def applyReceipt (now : Int) (peer : DeviceId) (readThrough stamp : String) :
    Except ChatError (ChatStore × Nat) :=
  (s.history c now peer).map fun out => markRead readThrough stamp out.1 out.2

/-- A row of the private conversation, as long as its window is open. -/
def InConversation (now : Int) (peer : DeviceId) (rec : ChatRecord) : Prop :=
  ∃ r, s.retention peer = .ok r ∧ (s.rows peer)[rec.id]? = some (some rec) ∧ rec.shownAt c false r now = true

/-- A receipt marks the messages of a conversation that were delivered, up to its watermark, and no
others; marks stay, and the receipt again, or an older one, marks nothing more. -/
structure ReceiptHonoured (s' : ChatStore) (now : Int) (peer : DeviceId) (readThrough stamp : String) : Prop where
  delivered : ∀ (p : DeviceId) (id : String) (rec rec' : ChatRecord), (s.rows p)[id]? = some (some rec) →
    (s'.rows p)[id]? = some (some rec') → rec'.readAt ≠ rec.readAt →
      p = peer ∧ rec.direction = .out ∧ rec.status.delivered = true ∧ rec.id ≤ readThrough
  marked : ∀ rec, s.InConversation c now peer rec → rec.direction = .out → rec.status.delivered = true →
    rec.id ≤ readThrough →
      (s'.rows peer)[rec.id]? = some (some (rec.readOn (rec.readAt.getD stamp)))
  kept : ∀ (p : DeviceId) (id : String) (rec : ChatRecord) (at_ : String), (s.rows p)[id]? = some (some rec) →
    rec.readAt = some at_ → ∃ rec', (s'.rows p)[id]? = some (some rec') ∧ rec'.readAt = some at_
  again : ∀ (now' : Int) (readThrough' stamp' : String), c.Later now now' → readThrough' ≤ readThrough →
    s'.applyReceipt c now' peer readThrough' stamp' = .ok (s', 0)

variable {c s}

theorem append_of_out {rec : ChatRecord} (out : rec.direction = .out) : s.append rec = s.write rec := by
  rw [append, ChatRecord.isSettleableFileRow, out]
  simp

theorem markRead_of_unread {readThrough : String} {rec : ChatRecord} (unread : rec.unreadUpTo readThrough)
    (stamp : String) (s : ChatStore) (rest : List ChatRecord) :
    (markRead readThrough stamp s (rec :: rest)).1 =
      (markRead readThrough stamp (s.write (rec.readOn stamp)) rest).1 := by
  rw [markRead, if_neg ((rec.unreadUpTo_iff readThrough).mp unread)]
  have wrote : s.append (rec.readOn stamp) = s.write (rec.readOn stamp) := append_of_out unread.1
  rw [wrote]

theorem markRead_of_not {readThrough : String} {rec : ChatRecord} (skip : ¬ rec.unreadUpTo readThrough)
    (stamp : String) (s : ChatStore) (rest : List ChatRecord) :
    markRead readThrough stamp s (rec :: rest) = markRead readThrough stamp s rest := by
  rw [markRead, if_pos (not_not.mp fun take => skip ((rec.unreadUpTo_iff readThrough).mpr take))]

/-- Nothing is left to mark. -/
theorem markRead_calm {readThrough stamp : String} {recs : List ChatRecord}
    (calm : ∀ rec ∈ recs, ¬ rec.unreadUpTo readThrough) : markRead readThrough stamp s recs = (s, 0) := by
  induction recs with
  | nil => rfl
  | cons rec recs ih =>
    rw [markRead_of_not (calm rec List.mem_cons_self)]
    exact ih fun rec' mem => calm rec' (List.mem_cons_of_mem _ mem)

theorem frame_markRead (readThrough stamp : String) (recs : List ChatRecord) (s : ChatStore) :
    (markRead readThrough stamp s recs).1.windows = s.windows ∧
      (markRead readThrough stamp s recs).1.landings = s.landings := by
  induction recs generalizing s with
  | nil => exact ⟨rfl, rfl⟩
  | cons rec recs ih =>
    by_cases unread : rec.unreadUpTo readThrough
    · rw [markRead_of_unread unread]
      exact ih (s.write (rec.readOn stamp))
    · rw [markRead_of_not unread]
      exact ih s

/-- The rows that are up to be marked are marked, and no other row changes. -/
theorem rows_markRead {readThrough : String} (stamp : String) {peer : DeviceId} {recs : List ChatRecord}
    (distinct : recs.Pairwise fun a b => a.id ≠ b.id) (own : ∀ rec ∈ recs, rec.peerId = peer)
    (s : ChatStore) (p : DeviceId) (id : String) :
    (∀ rec ∈ recs, rec.unreadUpTo readThrough → p = peer → rec.id = id →
      ((markRead readThrough stamp s recs).1.rows p)[id]? = some (some (rec.readOn stamp))) ∧
    ((∀ rec ∈ recs, rec.unreadUpTo readThrough → p = peer → rec.id ≠ id) →
      ((markRead readThrough stamp s recs).1.rows p)[id]? = (s.rows p)[id]?) := by
  induction recs generalizing s with
  | nil => exact ⟨fun rec mem => absurd mem List.not_mem_nil, fun _ => by rw [markRead]⟩
  | cons first recs ih =>
    obtain ⟨other, distinct⟩ := List.pairwise_cons.mp distinct
    have home := own first List.mem_cons_self
    have ih := ih distinct fun rec mem => own rec (List.mem_cons_of_mem _ mem)
    by_cases unread : first.unreadUpTo readThrough
    · rw [markRead_of_unread unread]
      obtain ⟨marked, rest⟩ := ih (s.write (first.readOn stamp))
      constructor
      · intro rec mem due here same
        rcases List.mem_cons.mp mem with rfl | mem
        · rw [rest fun rec' mem' _ _ => same ▸ (other rec' mem').symm, rows_write]
          exact if_pos ⟨home.trans here.symm, same⟩
        · exact marked rec mem due here same
      · intro untouched
        rw [rest fun rec mem => untouched rec (List.mem_cons_of_mem _ mem), rows_write, if_neg]
        rintro ⟨here, same⟩
        exact untouched first List.mem_cons_self unread (here.symm.trans home) same
    · rw [markRead_of_not unread]
      obtain ⟨marked, rest⟩ := ih s
      constructor
      · intro rec mem due here same
        rcases List.mem_cons.mp mem with rfl | mem
        · exact absurd due unread
        · exact marked rec mem due here same
      · exact fun untouched => rest fun rec mem => untouched rec (List.mem_cons_of_mem _ mem)

def receipted (s : ChatStore) (r : Retention) (now : Int) (peer : DeviceId) (readThrough stamp : String)
    (p : DeviceId) (rec : ChatRecord) : ChatRecord :=
  if p = peer ∧ rec.shownAt c false r now = true then
    if rec.unreadUpTo readThrough then rec.readOn stamp else s.landed rec
  else rec

section
variable {now : Int} {peer : DeviceId} {readThrough stamp : String} {out : ChatStore × Nat}

theorem applyReceipt_eq_ok_iff : s.applyReceipt c now peer readThrough stamp = .ok out ↔
    ∃ r, s.retention peer = .ok r ∧
      markRead readThrough stamp (shown c false r now s (s.rows peer).toList).1
        (shown c false r now s (s.rows peer).toList).2 = out := by
  rw [applyReceipt, history, records]
  cases s.retention peer with
  | error e =>
    constructor
    · intro done
      cases done
    · rintro ⟨_, ⟨⟩, _⟩
  | ok r =>
    constructor
    · intro done
      cases done
      exact ⟨r, rfl, rfl⟩
    · rintro ⟨_, ⟨⟩, rfl⟩
      rfl

/-- What a read of the conversation returns, with where it stands. -/
theorem mem_shown (keyed : s.WellKeyed) {r : Retention} {rec : ChatRecord} :
    rec ∈ (shown c false r now s (s.rows peer).toList).2 ↔
      ∃ first, (s.rows peer)[first.id]? = some (some first) ∧ first.peerId = peer ∧
        first.shownAt c false r now = true ∧ s.landed first = rec := by
  rw [shown_snd (keyed.listed peer), List.mem_map]
  refine exists_congr fun first => ?_
  rw [List.mem_filter, List.mem_filterMap, and_assoc]
  constructor
  · rintro ⟨⟨⟨key, _⟩, mem, rfl⟩, due, same⟩
    obtain ⟨own, rfl⟩ := (keyed.listed peer).placed key first mem
    exact ⟨(keyed.listed peer).stored _ first mem, own, due, same⟩
  · rintro ⟨stored, -, due, same⟩
    exact ⟨⟨(first.id, some first), Std.ExtTreeMap.mem_toList_iff_getElem?_eq_some.mpr stored, rfl⟩, due, same⟩

theorem distinct_shown (keyed : s.WellKeyed) {r : Retention} :
    (shown c false r now s (s.rows peer).toList).2.Pairwise fun a b => a.id ≠ b.id := by
  rw [shown_snd (keyed.listed peer), List.pairwise_map]
  simp only [landed_key]
  refine List.Pairwise.filter _ ?_
  rw [List.pairwise_filterMap]
  have listed := keyed.listed peer
  refine listed.distinct.imp_of_mem fun {a b} memA memB other => ?_
  rintro rec same rec' same'
  obtain ⟨key, _⟩ := a
  obtain ⟨key', _⟩ := b
  subst same same'
  rw [(listed.placed key rec memA).2, (listed.placed key' rec' memB).2]
  exact other

/-- Row by row, what a receipt makes of a store. -/
theorem rows_applyReceipt (keyed : s.WellKeyed) {r : Retention} (window : s.retention peer = .ok r)
    (done : s.applyReceipt c now peer readThrough stamp = .ok out) (p : DeviceId) (id : String) :
    (out.1.rows p)[id]? = (s.rows p)[id]?.map fun row =>
      row.map (s.receipted (c := c) r now peer readThrough stamp p) := by
  obtain ⟨r', window', rfl⟩ := applyReceipt_eq_ok_iff.mp done
  cases window.symm.trans window'
  have own (rec : ChatRecord) (mem : rec ∈ (shown c false r now s (s.rows peer).toList).2) : rec.peerId = peer := by
    obtain ⟨first, -, home, -, rfl⟩ := (mem_shown keyed).mp mem
    exact (landed_key s first).1.trans home
  obtain ⟨marked, rest⟩ := @rows_markRead readThrough stamp _ _ (distinct_shown keyed) own
    (shown c false r now s (s.rows peer).toList).1 p id
  have rows := @rows_shown c s peer false r now _ (keyed.listed peer) p id
  -- A row of ours is returned as it is stored, so the loop meets it as such.
  have met (rec : ChatRecord) (here : p = peer) (stored : (s.rows p)[id]? = some (some rec))
      (due : rec.shownAt c false r now = true) (unread : rec.unreadUpTo readThrough) :
      rec ∈ (shown c false r now s (s.rows peer).toList).2 ∧ rec.id = id := by
    subst here
    have key := keyed p id rec stored
    refine ⟨(mem_shown keyed).mpr ⟨rec, key.2 ▸ stored, key.1, due, ?_⟩, key.2⟩
    rw [landed, landed_of_out unread.1]
  have passed (still : ∀ rec, (s.rows p)[id]? = some (some rec) → p = peer → rec.shownAt c false r now = true →
      ¬ rec.unreadUpTo readThrough) :
      ((markRead readThrough stamp (shown c false r now s (s.rows peer).toList).1
        (shown c false r now s (s.rows peer).toList).2).1.rows p)[id]? =
        ((shown c false r now s (s.rows peer).toList).1.rows p)[id]? := by
    refine rest fun rec mem unread here same => ?_
    obtain ⟨first, held, -, due, rfl⟩ := (mem_shown keyed).mp mem
    have ours : s.landed first = first := by
      rw [landed, landed_of_out ((landed_direction s first).symm.trans unread.1)]
    rw [ours] at unread same
    subst here same
    exact still first held rfl due unread
  rcases stored : (s.rows p)[id]? with _ | _ | rec
  · rw [passed fun rec held => (by cases stored.symm.trans held), rows, stored]
    simp only [Option.map_none]
  · rw [passed fun rec held => (by cases stored.symm.trans held), rows, stored]
    simp only [Option.map_some, Option.map_none]
  · show _ = some (some (s.receipted (c := c) r now peer readThrough stamp p rec))
    have only {rec' : ChatRecord} (held : (s.rows p)[id]? = some (some rec')) : rec = rec' :=
      Option.some.inj (Option.some.inj (stored.symm.trans held))
    rw [receipted]
    split
    next due =>
      split
      next unread =>
        obtain ⟨mem, same⟩ := met rec due.1 stored due.2 unread
        exact marked rec mem unread due.1 same
      next read =>
        rw [passed fun rec' held _ _ => only held ▸ read, rows, stored]
        have listed : (id, some rec) ∈ (s.rows peer).toList :=
          Std.ExtTreeMap.mem_toList_iff_getElem?_eq_some.mpr (due.1 ▸ stored)
        rw [Option.map_some, Option.map_some, if_pos ⟨due.1, listed, due.2⟩]
    next hidden =>
      rw [passed fun rec' held here due => absurd ⟨here, only held ▸ due⟩ hidden, rows, stored]
      rw [Option.map_some, Option.map_some, if_neg fun here => hidden ⟨here.1, here.2.2⟩]

theorem landings_applyReceipt {r : Retention} (window : s.retention peer = .ok r)
    (done : s.applyReceipt c now peer readThrough stamp = .ok out) :
    out.1.windows = s.windows ∧ ∀ rec : ChatRecord, (s.rows peer)[rec.id]? = some (some rec) →
      rec.shownAt c false r now = true → rec.isSettleableFileRow .inn = true →
        out.1.landings rec.peerId rec.id = none := by
  obtain ⟨r', window', rfl⟩ := applyReceipt_eq_ok_iff.mp done
  cases window.symm.trans window'
  obtain ⟨windows, landings⟩ := frame_markRead readThrough stamp (shown c false r now s (s.rows peer).toList).2
    (shown c false r now s (s.rows peer).toList).1
  refine ⟨windows.trans (windows_shown _ s), fun rec stored due live => ?_⟩
  rw [landings]
  exact (landings_shown _ s rec).2 rec.id (Std.ExtTreeMap.mem_toList_iff_getElem?_eq_some.mpr stored) due live

/-- No mark and no landing decides whether a row is shown. -/
theorem shownAt_receipted (r : Retention) (now' : Int) (p : DeviceId) (rec : ChatRecord) :
    (s.receipted (c := c) r now peer readThrough stamp p rec).shownAt c false r now' =
      rec.shownAt c false r now' := by
  rw [receipted]
  split
  · split
    · rfl
    · exact shownAt_landed s false r now' rec
  · rfl

theorem shownAt_of_later {now' : Int} (later : c.Later now now') {r : Retention} {rec : ChatRecord}
    (due : rec.shownAt c false r now' = true) : rec.shownAt c false r now = true := by
  rw [ChatRecord.shownAt, Bool.and_eq_true, Bool.not_eq_true'] at due ⊢
  refine ⟨Bool.eq_false_iff.mpr fun gone => ?_, due.2⟩
  have gone' := later r _ gone
  rw [ChatRecord.hasDisappeared] at due
  exact Bool.false_ne_true (due.1.symm.trans gone')

/-- A receipt that has been applied finds nothing to mark, and neither does one before it. -/
theorem applyReceipt_again (keyed : s.WellKeyed)
    (done : s.applyReceipt c now peer readThrough stamp = .ok out) {now' : Int} (later : c.Later now now')
    {readThrough' : String} (older : readThrough' ≤ readThrough) (stamp' : String) :
    out.1.applyReceipt c now' peer readThrough' stamp' = .ok (out.1, 0) := by
  obtain ⟨r, window, -⟩ := applyReceipt_eq_ok_iff.mp done
  obtain ⟨windows, landings⟩ := landings_applyReceipt window done
  have rows := rows_applyReceipt keyed window done
  -- Every row of the conversation comes of one that was in it the first time.
  have before {key : String} {rec : ChatRecord} (mem : (key, some rec) ∈ (out.1.rows peer).toList)
      (due : rec.shownAt c false r now' = true) : ∃ first : ChatRecord, (s.rows peer)[first.id]? = some (some first) ∧
        first.shownAt c false r now = true ∧
        rec = if first.unreadUpTo readThrough then first.readOn stamp else s.landed first := by
    have stored := Std.ExtTreeMap.mem_toList_iff_getElem?_eq_some.mp mem
    rw [rows, Option.map_eq_some_iff] at stored
    obtain ⟨row, held, same⟩ := stored
    obtain ⟨first, rfl, rfl⟩ := Option.map_eq_some_iff.mp same
    rw [shownAt_receipted] at due
    have due := shownAt_of_later later due
    exact ⟨first, (keyed peer key first held).2 ▸ held, due, if_pos ⟨rfl, due⟩⟩
  have calm : shown c false r now' out.1 (out.1.rows peer).toList =
      (out.1, ((out.1.rows peer).toList.filterMap Prod.snd).filter (·.shownAt c false r now')) := by
    refine shown_calm fun key rec mem due live => ?_
    obtain ⟨first, held, shown, rfl⟩ := before mem due
    split at live
    next unread =>
      rw [ChatRecord.isSettleableFileRow, ChatRecord.readOn, unread.1] at live
      simp at live
    next read =>
      rw [if_neg read, (landed_key s first).1, (landed_key s first).2]
      refine landings first held shown ?_
      rcases s.landed_eq first with same | ⟨name, size, same⟩
      · rwa [same] at live
      · rw [same] at live
        exact live
  refine applyReceipt_eq_ok_iff.mpr ⟨r, (retention_congr windows peer).trans window, ?_⟩
  rw [calm]
  refine markRead_calm fun rec mem unread => ?_
  obtain ⟨mem, due⟩ := List.mem_filter.mp mem
  obtain ⟨⟨key, _⟩, listed, rfl⟩ := List.mem_filterMap.mp mem
  obtain ⟨first, -, -, rfl⟩ := before listed due
  split at unread
  next => cases unread.2.1
  next read =>
    refine read ⟨(landed_direction s first).symm.trans unread.1, (landed_readAt s first).symm.trans unread.2.1, ?_⟩
    exact (landed_key s first).2 ▸ le_trans unread.2.2 older

end

/-- What a receipt does is what it should exactly where every message of ours that it is the first to mark
has been delivered. -/
theorem receipt_honoured_iff (c : Chrono) {s : ChatStore} (keyed : s.WellKeyed) {now : Int} {peer : DeviceId}
    {readThrough stamp : String} {out : ChatStore × Nat}
    (done : s.applyReceipt c now peer readThrough stamp = .ok out) :
    s.ReceiptHonoured c out.1 now peer readThrough stamp ↔
      ∀ rec, s.InConversation c now peer rec → rec.unreadUpTo readThrough → rec.status.delivered = true := by
  obtain ⟨r, window, -⟩ := applyReceipt_eq_ok_iff.mp done
  have rows := rows_applyReceipt keyed window done
  have after {p : DeviceId} {id : String} {rec : ChatRecord} (stored : (s.rows p)[id]? = some (some rec)) :
      (out.1.rows p)[id]? = some (some (s.receipted (c := c) r now peer readThrough stamp p rec)) := by
    rw [rows, stored, Option.map_some, Option.map_some]
  constructor
  · rintro honoured rec ⟨r', window', stored, due⟩ unread
    cases window.symm.trans window'
    have marked : s.receipted (c := c) r now peer readThrough stamp peer rec = rec.readOn stamp := by
      rw [receipted, if_pos ⟨rfl, due⟩, if_pos unread]
    refine (honoured.delivered peer rec.id rec _ stored (after stored) ?_).2.2.1
    rw [marked, unread.2.1]
    exact Option.some_ne_none stamp
  · intro sent
    refine ⟨fun p id rec rec' stored stored' changed => ?_, fun rec shown ours delivered upTo => ?_,
      fun p id rec at_ stored read => ?_, fun now' readThrough' stamp' later older =>
        applyReceipt_again keyed done later older stamp'⟩
    · cases (after stored).symm.trans stored'
      rw [receipted] at changed
      split at changed
      next due =>
        split at changed
        next unread =>
          have key := keyed p id rec stored
          refine ⟨due.1, unread.1, sent rec ⟨r, window, ?_, due.2⟩ unread, unread.2.2⟩
          rw [key.2, ← due.1]
          exact stored
        next => exact absurd (landed_readAt s rec) changed
      next => exact absurd rfl changed
    · obtain ⟨r', window', stored, due⟩ := shown
      cases window.symm.trans window'
      rw [after stored, receipted, if_pos ⟨rfl, due⟩]
      refine congrArg (fun rec => some (some rec)) ?_
      split
      next unread =>
        rw [unread.2.1]
        rfl
      next read =>
        rw [landed, landed_of_out ours]
        obtain ⟨first, marked⟩ := Option.ne_none_iff_exists'.mp fun none_ => read ⟨ours, none_, upTo⟩
        rw [ChatRecord.readOn, marked, Option.getD_some, ← marked]
    · refine ⟨_, after stored, ?_⟩
      rw [receipted]
      split
      · have marked : ¬ rec.unreadUpTo readThrough := fun unread => by cases unread.2.1.symm.trans read
        rw [if_neg marked, landed_readAt]
        exact read
      · exact read

private def plainClock : Chrono := ⟨fun _ => none, fun now secs => some (now - secs), -8334601228800000000000⟩

private def ours (id : String) (status : Status) : ChatRecord :=
  { id := id, peerId := "bob", direction := .out, timestamp := "2026-01-01T00:00:00Z", body := "hi",
    status := status, kind := .text, file := none, inReplyTo := none, group := none, storedAt := some 0 }

private def bothSent : ChatStore := (empty.write (ours "m1" .sent)).write (ours "m2" .sent)

/-- A receipt for the second of two messages that are both sent. -/
theorem sent_messages_marked : ∃ out, bothSent.applyReceipt plainClock 0 "bob" "m2" "t" = .ok out ∧
    bothSent.ReceiptHonoured plainClock out.1 0 "bob" "m2" "t" := by
  have keyed : bothSent.WellKeyed := (wellKeyed_empty.write _).write _
  refine ⟨_, rfl, (receipt_honoured_iff plainClock keyed rfl).mpr ?_⟩
  rintro rec ⟨r, -, stored, -⟩ -
  rw [bothSent, rows_write, rows_write] at stored
  split at stored
  · cases stored
    rfl
  split at stored
  · cases stored
    rfl
  · simp [empty, rows] at stored

private def oneWaiting : ChatStore := (empty.write (ours "m1" .pending)).write (ours "m2" .sent)

/-- The first message still waits for its peer when the second, which was sent, is read. -/
theorem waiting_message_marked : ∃ out, oneWaiting.applyReceipt plainClock 0 "bob" "m2" "t" = .ok out ∧
    ¬ oneWaiting.ReceiptHonoured plainClock out.1 0 "bob" "m2" "t" := by
  refine ⟨_, rfl, fun honoured => ?_⟩
  have delivered := honoured.delivered "bob" "m1" (ours "m1" .pending) ((ours "m1" .pending).readOn "t") (by decide)
    (by decide) (by decide)
  exact absurd delivered.2.2.1 (by decide)

end ChatStore

namespace Prog
variable (c : Chrono) (now : Int) (d : Disk)

theorem run_markRead (readThrough stamp : String) (recs : List ChatRecord) :
    (markRead readThrough stamp recs).run Disk.exec d =
      done d (.ok (ChatStore.markRead readThrough stamp d.store recs)) := by
  induction recs generalizing d with
  | nil => rfl
  | cons rec recs ih =>
    rw [markRead, ChatStore.markRead]
    split
    · exact ih d
    · rw [Program.run_bind, run_append]
      show Program.run _ (markRead readThrough stamp recs >>= _) _ = _
      rw [Program.run_bind, ih]
      rfl

theorem run_applyReceipt (peer : DeviceId) (readThrough stamp : String) :
    (applyReceipt c now peer readThrough stamp).run Disk.exec d =
      done d (d.store.applyReceipt c now peer readThrough stamp) := by
  rw [applyReceipt, Program.run_bind, history, run_records, ChatStore.applyReceipt, ChatStore.history]
  rcases d.store.records c now peer false with error | ⟨s, recs⟩
  · cases error
    rfl
  · exact run_markRead { d with store := s } readThrough stamp recs

end Prog

end PeerBeam.Chat
