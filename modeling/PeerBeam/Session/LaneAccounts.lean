import PeerBeam.Session.LaneMoves

/-! Where the channels a session's lanes had opened are: each lane holds one at most, and a channel is let go of
only after it refused a frame. -/
namespace PeerBeam.Session
open Held

theorem SendPhase.pending_of_not_holding {phase : SendPhase} (away : phase.holding = false) : phase.pending = none := by
  cases phase with
  | locking | ready | sending => rfl
  | mustOpen | opening | mustPoll | polling | sleeping => cases away

namespace LaneSession
variable {ι Link : Type} [DecidableEq ι] {s s' : LaneSession ι Link}

def failures (s : LaneSession ι Link) : ℕ := s.outcomes.countP fun outcome => !outcome.2.isOk

def refusers (s : LaneSession ι Link) : List ChannelId := s.refused.map Prod.snd

def openedIds (s : LaneSession ι Link) : List ChannelId := s.opened.map Prod.snd

def closing (s : LaneSession ι Link) : List ChannelId := s.commands.filterMap SessionCommand.closes

omit [DecidableEq ι] in
theorem pending_locked {i : ι} {send : LaneSend} (lock : s.lock = some i) (here : s.sends i = some send) :
    s.pending = send.phase.pending.toList := by
  rw [pending, lock, Option.bind_some, here, Option.bind_some]

omit [DecidableEq ι] in
theorem pending_unlocked (lock : s.lock = none) : s.pending = [] := by
  rw [pending, lock]
  rfl

theorem pending_stay {i : ι} {send : LaneSend} {next : Option LaneSend} (here : s.sends i = some send)
    (sends : s'.sends = Function.update s.sends i next) (lock : s'.lock = s.lock)
    (same : (next.bind fun send => send.phase.pending) = send.phase.pending) : s'.pending = s.pending := by
  rw [pending, pending, lock]
  cases s.lock with
  | none => rfl
  | some j =>
    rw [Option.bind_some, Option.bind_some]
    by_cases other : j = i
    · subst other
      rw [sends_self sends, here, same, Option.bind_some]
    · rw [sends_other sends other]

structure Ledger (s : LaneSession ι Link) : Prop where
  passed : ∀ id ∈ s.openedIds, id.toNat < s.manager.ids.next.toNat
  nodup : s.openedIds.Nodup
  fates : s.openedIds.Perm (s.cached ++ s.pending ++ s.replaced ++ s.givenUp)
  told : s.givenUp.length ≤ s.failures

omit [DecidableEq ι] in
theorem Ledger.shift (h : Ledger s) (ahead : s.manager.ids.Advances s'.manager.ids) (opened : s'.openedIds = s.openedIds)
    (fates : s.openedIds.Perm (s'.cached ++ s'.pending ++ s'.replaced ++ s'.givenUp))
    (told : s'.givenUp.length ≤ s'.failures) : Ledger s' := by
  constructor
  · intro id mem
    rw [opened] at mem
    exact (h.passed id mem).trans_le ahead.forward
  · rw [opened]
    exact h.nodup
  · rw [opened]
    exact fates
  · exact told

omit [DecidableEq ι] in
theorem Ledger.frame (h : Ledger s) (ahead : s.manager.ids.Advances s'.manager.ids) (opened : s'.openedIds = s.openedIds)
    (cached : s'.cached = s.cached) (pending : s'.pending = s.pending) (replaced : s'.replaced = s.replaced)
    (givenUp : s'.givenUp = s.givenUp) (failures : s.failures ≤ s'.failures) : Ledger s' := by
  refine h.shift ahead opened ?_ ?_
  · rw [cached, pending, replaced, givenUp]
    exact h.fates
  · rw [givenUp]
    exact h.told.trans failures

omit [DecidableEq ι] in
/-- A channel is opened while no other is pending. -/
theorem Ledger.grow (h : Ledger s) (ahead : s.manager.ids.Advances s'.manager.ids) {lane : Lane} {id : ChannelId}
    (opened : s'.opened = s.opened ++ [(lane, id)]) (fresh : s.manager.ids.next.toNat ≤ id.toNat)
    (past : id.toNat < s'.manager.ids.next.toNat) (cached : s'.cached = s.cached) (before : s.pending = [])
    (after : s'.pending = [id]) (replaced : s'.replaced = s.replaced) (givenUp : s'.givenUp = s.givenUp)
    (failures : s'.failures = s.failures) : Ledger s' := by
  have ids : s'.openedIds = s.openedIds ++ [id] := by
    rw [openedIds, opened, List.map_append]
    rfl
  constructor
  · intro other mem
    rw [ids] at mem
    rcases List.mem_append.mp mem with earlier | last
    · exact (h.passed other earlier).trans_le ahead.forward
    · rw [List.mem_singleton.mp last]
      exact past
  · rw [ids]
    refine h.nodup.append (List.nodup_singleton id) ?_
    intro other earlier last
    rw [List.mem_singleton.mp last] at earlier
    exact (h.passed id earlier).not_ge fresh
  · rw [ids, cached, after, replaced, givenUp]
    have fates := h.fates
    rw [before] at fates
    refine List.perm_iff_count.mpr fun other => ?_
    have here := List.perm_iff_count.mp fates other
    simp only [List.count_append, List.count_cons, List.count_nil] at here ⊢
    omega
  · rw [givenUp, failures]
    exact h.told

omit [DecidableEq ι] in
theorem failures_push (outcome : ℕ × Except SendError Unit) :
    (s.outcomes ++ [outcome]).countP (fun outcome => !outcome.2.isOk) = s.failures + if outcome.2.isOk then 0 else 1 := by
  rw [List.countP_append, failures, List.countP_singleton]
  cases outcome.2.isOk <;> rfl

theorem Ledger.move (h : Ledger s) (orderly : Orderly s) (moved : Move s s') : Ledger s' := by
  cases moved with
  | quiet manager now ahead => exact h.frame ahead rfl rfl rfl rfl rfl le_rfl
  | stopped => exact h.frame (.refl _) rfl rfl rfl rfl rfl le_rfl
  | called i lane build free =>
    rw [call, free]
    refine h.frame (.refl _) rfl rfl ?_ rfl rfl le_rfl
    rw [pending, pending]
    show (s.lock.bind _).toList = _
    cases lock : s.lock with
    | none => rfl
    | some j =>
      have other : j ≠ i := by
        rintro rfl
        obtain ⟨send, here, -⟩ := orderly.exclusive.locked j lock
        rw [free] at here
        cases here
      rw [Option.bind_some, Option.bind_some]
      exact congrArg (fun send : Option LaneSend => (send.bind fun send => send.phase.pending).toList)
        (Function.update_of_ne other ..)
  | walked i send phase commands here idle holding pending untaken channel commands_ =>
    exact h.frame (.refl _) rfl rfl (pending_stay here rfl rfl pending) rfl rfl le_rfl
  | locked i send here phase open_ vacant =>
    refine h.frame (.refl _) rfl rfl ?_ rfl rfl le_rfl
    rw [pending_unlocked open_, pending_locked rfl (sends_self rfl)]
    rfl
  | replaced i send live here phase open_ held stale =>
    have before := h.fates
    rw [pending_unlocked open_, cached] at before
    have less := held_remove Lane.nodup_all (Lane.mem_all send.lane) held
    have after : s.openedIds.Perm (Held.held Lane.all (Function.update s.lanes send.lane none) ++ [] ++
        (s.replaced ++ [live]) ++ s.givenUp) := by
      refine List.perm_iff_count.mpr fun id => ?_
      have fates := List.perm_iff_count.mp before id
      have held := List.perm_iff_count.mp less id
      simp only [List.count_append, List.count_cons, List.count_nil] at fates held ⊢
      omega
    rw [push]
    split
    · refine h.shift (.refl _) rfl ?_ h.told
      rw [pending_locked rfl (sends_self rfl)]
      exact after
    · refine h.shift (.refl _) rfl ?_ h.told
      rw [pending_locked rfl (sends_self rfl)]
      exact after
  | cached i send channel here idle holding pending =>
    obtain ⟨lock, vacant⟩ := orderly.exclusive.holder i send here holding
    have before := h.fates
    rw [pending_locked lock here, pending, cached] at before
    have more := held_insert (a := channel) Lane.nodup_all (Lane.mem_all send.lane) vacant
    refine h.shift (.refl _) rfl ?_ h.told
    rw [pending_unlocked rfl]
    refine List.perm_iff_count.mpr fun id => ?_
    have fates := List.perm_iff_count.mp before id
    have held := List.perm_iff_count.mp more id
    show _ = List.count id (Held.held Lane.all (Function.update s.lanes send.lane (some channel)) ++ [] ++ s.replaced ++ s.givenUp)
    simp only [List.count_append, List.count_cons, List.count_nil, Option.toList_some] at fates held ⊢
    omega
  | failed i send text here idle holding pending =>
    obtain ⟨lock, -⟩ := orderly.exclusive.holder i send here holding
    refine h.frame (.refl _) rfl rfl ?_ rfl rfl ?_
    · rw [pending_unlocked rfl, pending_locked lock here, pending]
      rfl
    · exact (Nat.le_add_right ..).trans (failures_push _).ge
  | gaveUp i send channel text here idle holding pending =>
    obtain ⟨lock, -⟩ := orderly.exclusive.holder i send here holding
    have before := h.fates
    rw [pending_locked lock here, pending] at before
    refine h.shift (.refl _) rfl ?_ ?_
    · rw [pending_unlocked rfl]
      refine List.perm_iff_count.mpr fun id => ?_
      have fates := List.perm_iff_count.mp before id
      show _ = List.count id (s.cached ++ [] ++ s.replaced ++ (s.givenUp ++ [channel]))
      simp only [List.count_append, List.count_cons, List.count_nil, Option.toList_some] at fates ⊢
      omega
    · have told := h.told
      let outcome : ℕ × Except SendError Unit := (send.serial, .error ⟨.connection, text⟩)
      have more : (s.outcomes ++ [outcome]).countP (fun outcome => !outcome.2.isOk) = s.failures + 1 := failures_push outcome
      have longer : (s.givenUp ++ [channel]).length = s.givenUp.length + 1 := List.length_append
      exact (longer.trans_le (Nat.succ_le_succ told)).trans more.ge
  | unencoded i send channel text here phase =>
    refine h.frame (.refl _) rfl rfl (pending_stay here rfl rfl ?_) rfl rfl ?_
    · rw [phase]
      rfl
    · exact (Nat.le_add_right ..).trans (failures_push _).ge
  | retried i send channel error here idle holding at_ untaken =>
    have pending : send.phase.pending = none := SendPhase.pending_of_not_holding holding
    rw [retry]
    split
    · exact h.frame (.refl _) rfl rfl (pending_stay here rfl rfl pending.symm) rfl rfl le_rfl
    · exact h.frame (.refl _) rfl rfl (pending_stay here rfl rfl pending.symm) rfl rfl
        ((Nat.le_add_right ..).trans (failures_push _).ge)
  | sent i send channel here phase =>
    refine h.frame (.refl _) rfl rfl (pending_stay here rfl rfl ?_) rfl rfl ?_
    · rw [phase]
      rfl
    · exact (Nat.le_add_right ..).trans (failures_push _).ge
  | closed channel commands next manager ahead => exact h.frame ahead rfl rfl rfl rfl rfl le_rfl
  | answered i send phase command commands next reply here manager ahead holding pending channel untaken quiet =>
    exact h.frame ahead rfl rfl (pending_stay here rfl rfl pending) rfl rfl le_rfl
  | opened i send id command commands next reply here phase manager ahead fresh past =>
    obtain ⟨lock, -⟩ := orderly.exclusive.holder i send here (by rw [phase]; rfl)
    refine h.grow ahead rfl fresh past rfl ?_ ?_ rfl rfl rfl
    · rw [pending_locked lock here, phase]
      rfl
    · refine (pending_locked ?_ (sends_self rfl)).trans rfl
      exact lock
  | took i send frame command commands next reply here phase frames =>
    refine h.frame (.refl _) rfl rfl (pending_stay here rfl rfl ?_) rfl rfl le_rfl
    rw [phase]
    rfl

/-- The channel a call is about was opened for its lane, and the one it holds for stale refused a frame. -/
structure Backed (s : LaneSession ι Link) (send : LaneSend) : Prop where
  channel : ∀ id, send.phase.channel = some id → (send.lane, id) ∈ s.opened
  stale : ∀ id, send.stale = some id → id ∈ s.refusers

structure Founded (s : LaneSession ι Link) : Prop where
  own : ∀ lane id, s.lanes lane = some id → (lane, id) ∈ s.opened
  backed : ∀ i send, s.sends i = some send → s.Backed send
  failed : s.replaced ⊆ s.refusers
  carried : ∀ call ∈ s.queued, (call.2.1, call.2.2.channel) ∈ s.opened

omit [DecidableEq ι] in
theorem Backed.mono {send : LaneSend} (h : s.Backed send) (opened : s.opened ⊆ s'.opened) (refused : s.refusers ⊆ s'.refusers) :
    s'.Backed send :=
  ⟨fun id here => opened (h.channel id here), fun id here => refused (h.stale id here)⟩

/-- One call goes on, or ends. -/
theorem Founded.turn (h : Founded s) {i : ι} {next : Option LaneSend} (sends : s'.sends = Function.update s.sends i next)
    (opened : s.opened ⊆ s'.opened) (refused : s.refusers ⊆ s'.refusers)
    (own : ∀ lane id, s'.lanes lane = some id → s.lanes lane = some id ∨ (lane, id) ∈ s'.opened)
    (backed : ∀ send, next = some send → s'.Backed send) (failed : s'.replaced ⊆ s'.refusers)
    (carried : ∀ call ∈ s'.queued, call ∈ s.queued ∨ (call.2.1, call.2.2.channel) ∈ s'.opened) : Founded s' := by
  constructor
  · intro lane id held
    rcases own lane id held with before | here
    · exact opened (h.own lane id before)
    · exact here
  · intro j send at_
    by_cases other : j = i
    · subst other
      exact backed send ((sends_self sends).symm.trans at_)
    · exact (h.backed j send ((sends_other sends other).symm.trans at_)).mono opened refused
  · exact failed
  · intro call mem
    rcases carried call mem with before | here
    · exact opened (h.carried call before)
    · exact here

/-- With the lanes, what was opened, let go of, refused and taken as they are. -/
theorem Founded.frame (h : Founded s) {i : ι} {next : Option LaneSend} (sends : s'.sends = Function.update s.sends i next)
    (opened : s'.opened = s.opened) (refused : s'.refused = s.refused) (lanes : s'.lanes = s.lanes)
    (replaced : s'.replaced = s.replaced) (queued : s'.queued = s.queued)
    (backed : ∀ send, next = some send → s.Backed send) : Founded s' := by
  have before : s.opened ⊆ s'.opened := by
    rw [opened]
    exact List.Subset.refl _
  have same : s'.refusers = s.refusers := congrArg (List.map Prod.snd) refused
  have refusers : s.refusers ⊆ s'.refusers := by
    rw [same]
    exact List.Subset.refl _
  refine h.turn sends before refusers (fun lane id held => ?_) (fun send here => ?_) ?_ fun call mem => ?_
  · rw [lanes] at held
    exact .inl held
  · exact (backed send here).mono before refusers
  · rw [replaced, same]
    exact h.failed
  · rw [queued] at mem
    exact .inl mem

omit [DecidableEq ι] in
/-- No call goes on. -/
theorem Founded.still (h : Founded s) (sends : s'.sends = s.sends) (opened : s'.opened = s.opened)
    (refused : s'.refused = s.refused) (lanes : s'.lanes = s.lanes) (replaced : s'.replaced = s.replaced)
    (queued : s'.queued = s.queued) : Founded s' := by
  constructor
  · rw [lanes, opened]
    exact h.own
  · intro i send here
    rw [sends] at here
    refine ⟨fun id at_ => ?_, fun id stale => ?_⟩
    · rw [opened]
      exact (h.backed i send here).channel id at_
    · rw [refusers, refused]
      exact (h.backed i send here).stale id stale
  · rw [replaced, refusers, refused]
    exact h.failed
  · rw [queued, opened]
    exact h.carried

theorem Founded.move (h : Founded s) (moved : Move s s') : Founded s' := by
  cases moved with
  | quiet manager now ahead => exact h.still rfl rfl rfl rfl rfl rfl
  | stopped => exact h.still rfl rfl rfl rfl rfl rfl
  | called i lane build free =>
    rw [call, free]
    refine h.frame rfl rfl rfl rfl rfl rfl fun send here => ?_
    cases here
    exact ⟨fun id at_ => (by cases at_), fun id stale => (by cases stale)⟩
  | walked i send phase commands here idle holding pending untaken channel commands_ =>
    have backed := h.backed i send here
    refine h.frame rfl rfl rfl rfl rfl rfl fun send' same => ?_
    cases same
    refine ⟨fun id at_ => ?_, backed.stale⟩
    rcases channel id at_ with before | held
    · exact backed.channel id before
    · exact h.own send.lane id held
  | locked i send here phase open_ vacant =>
    refine h.frame rfl rfl rfl rfl rfl rfl fun send' same => ?_
    cases same
    exact ⟨fun id at_ => (by cases at_), (h.backed i send here).stale⟩
  | replaced i send live here phase open_ held stale =>
    have backed := h.backed i send here
    have failed : s.replaced ++ [live] ⊆ s.refusers := by
      intro id mem
      rcases List.mem_append.mp mem with before | last
      · exact h.failed before
      · rw [List.mem_singleton.mp last]
        exact backed.stale live stale
    have own : ∀ lane id, Function.update s.lanes send.lane none lane = some id → s.lanes lane = some id := by
      intro lane id here
      by_cases same : lane = send.lane
      · subst same
        rw [Function.update_self] at here
        cases here
      · rwa [Function.update_of_ne same] at here
    have waits : ∀ send', some { send with phase := .mustOpen } = some send' → s.Backed send' := by
      intro send' same
      cases same
      exact ⟨fun id at_ => (by cases at_), backed.stale⟩
    rw [push]
    split
    · exact h.turn rfl (List.Subset.refl _) (List.Subset.refl _) (fun lane id here => .inl (own lane id here))
        (fun send' same => (waits send' same).mono (List.Subset.refl _) (List.Subset.refl _)) failed fun call mem => .inl mem
    · exact h.turn rfl (List.Subset.refl _) (List.Subset.refl _) (fun lane id here => .inl (own lane id here))
        (fun send' same => (waits send' same).mono (List.Subset.refl _) (List.Subset.refl _)) failed fun call mem => .inl mem
  | cached i send channel here idle holding pending =>
    have backed := h.backed i send here
    have mine := backed.channel channel (SendPhase.channel_of_pending pending)
    refine h.turn rfl (List.Subset.refl _) (List.Subset.refl _) (fun lane id held => ?_) (fun send' same => ?_) h.failed
      fun call mem => .inl mem
    · by_cases same : lane = send.lane
      · subst same
        have here : Function.update s.lanes send.lane (some channel) send.lane = some id := held
        rw [Function.update_self] at here
        cases here
        exact .inr mine
      · exact .inl ((Function.update_of_ne same ..).symm.trans held)
    · cases same
      refine ⟨fun id at_ => ?_, backed.stale⟩
      cases at_
      exact mine
  | failed i send text here idle holding pending =>
    exact h.frame rfl rfl rfl rfl rfl rfl fun send' same => (by cases same)
  | gaveUp i send channel text here idle holding pending =>
    exact h.frame rfl rfl rfl rfl rfl rfl fun send' same => (by cases same)
  | unencoded i send channel text here phase =>
    exact h.frame rfl rfl rfl rfl rfl rfl fun send' same => (by cases same)
  | retried i send channel error here idle holding at_ untaken =>
    have backed := h.backed i send here
    have more : (s.refused ++ [(send.serial, channel)]).map Prod.snd = s.refusers ++ [channel] := List.map_append
    have kept : s.refusers ⊆ (s.refused ++ [(send.serial, channel)]).map Prod.snd := by
      rw [more]
      exact List.subset_append_left ..
    rw [retry]
    split
    · refine h.turn rfl (List.Subset.refl _) kept (fun lane id held => .inl held) (fun send' same => ?_)
        (List.Subset.trans h.failed kept) fun call mem => .inl mem
      cases same
      refine ⟨fun id at_ => (by cases at_), fun id stale => ?_⟩
      cases stale
      show channel ∈ (s.refused ++ [(send.serial, channel)]).map Prod.snd
      rw [more]
      exact List.mem_append_right _ (List.mem_singleton_self _)
    · exact h.turn rfl (List.Subset.refl _) kept (fun lane id held => .inl held) (fun send' same => (by cases same))
        (List.Subset.trans h.failed kept) fun call mem => .inl mem
  | sent i send channel here phase => exact h.frame rfl rfl rfl rfl rfl rfl fun send' same => (by cases same)
  | closed channel commands next manager ahead => exact h.still rfl rfl rfl rfl rfl rfl
  | answered i send phase command commands next reply here manager ahead holding pending channel untaken quiet =>
    have backed := h.backed i send here
    refine h.frame rfl rfl rfl rfl rfl rfl fun send' same => ?_
    cases same
    exact ⟨fun id at_ => backed.channel id (channel.symm.trans at_), backed.stale⟩
  | opened i send id command commands next reply here phase manager ahead fresh past =>
    refine h.turn rfl (List.subset_append_left ..) (List.Subset.refl _) (fun lane id held => .inl held)
      (fun send' same => ?_) h.failed fun call mem => .inl mem
    cases same
    refine ⟨fun other at_ => ?_, (h.backed i send here).stale⟩
    cases at_
    exact List.mem_append_right _ (List.mem_singleton_self _)
  | took i send frame command commands next reply here phase frames =>
    have backed := h.backed i send here
    have mine := backed.channel frame.channel (by rw [phase]; rfl)
    refine h.turn rfl (List.Subset.refl _) (List.Subset.refl _) (fun lane id held => .inl held)
      (fun send' same => ?_) h.failed fun call mem => ?_
    · cases same
      refine ⟨fun id at_ => ?_, backed.stale⟩
      cases at_
      exact mine
    · rcases List.mem_append.mp mem with before | last
      · exact .inl before
      · rw [List.mem_singleton.mp last]
        exact .inr mine

/-- What was let go of was closed, or is to be, in that order, as long as there is a pump to do it. -/
def Closes (s : LaneSession ι Link) : Prop :=
  ∃ dropped, s.replaced = s.closed ++ s.closing ++ dropped ∧ (s.running = true → dropped = [])

omit [DecidableEq ι] in
theorem closes_of_reply {command : SessionCommand ι} {i : ι} (reply : command.reply = some i) : command.closes = none := by
  cases command with
  | closeChannel channel => cases reply
  | openChannel | sendOnChannel | snapshot => rfl

omit [DecidableEq ι] in
theorem closing_pop {command : SessionCommand ι} {commands : List (SessionCommand ι)} {i : ι}
    (next : s.commands = command :: commands) (reply : command.reply = some i) :
    commands.filterMap SessionCommand.closes = s.closing := by
  rw [closing, next, List.filterMap_cons_none (closes_of_reply reply)]

theorem Closes.move (h : Closes s) (moved : Move s s') : Closes s' := by
  obtain ⟨dropped, split_, alive⟩ := h
  cases moved with
  | quiet | locked | cached | failed | gaveUp | unencoded | sent => exact ⟨dropped, split_, alive⟩
  | stopped =>
    refine ⟨s.closing ++ dropped, ?_, fun running => (by cases running)⟩
    show s.replaced = s.closed ++ [] ++ (s.closing ++ dropped)
    rw [split_, List.append_nil, List.append_assoc]
  | called i lane build free =>
    rw [call, free]
    exact ⟨dropped, split_, alive⟩
  | walked i send phase commands here idle holding pending untaken channel commands_ =>
    rcases commands_ with ⟨rfl, -⟩ | ⟨command, rfl, reply, -, -⟩
    · exact ⟨dropped, split_, alive⟩
    · have same : (s.commands ++ [command]).filterMap SessionCommand.closes = s.closing := by
        rw [List.filterMap_append, List.filterMap_cons_none (closes_of_reply reply), List.filterMap_nil, List.append_nil]
        rfl
      refine ⟨dropped, ?_, alive⟩
      show s.replaced = s.closed ++ (s.commands ++ [command]).filterMap SessionCommand.closes ++ dropped
      rw [same]
      exact split_
  | replaced i send live here phase open_ held stale =>
    rw [push]
    split
    next running =>
      refine ⟨[], ?_, fun _ => rfl⟩
      show s.replaced ++ [live] = s.closed ++ (s.commands ++ [SessionCommand.closeChannel live]).filterMap SessionCommand.closes ++ []
      have more : (s.commands ++ [SessionCommand.closeChannel live]).filterMap SessionCommand.closes = s.closing ++ [live] :=
        List.filterMap_append
      rw [split_, alive running, more, List.append_nil, List.append_nil, List.append_assoc]
    next stopped =>
      refine ⟨dropped ++ [live], ?_, fun running => absurd running stopped⟩
      show s.replaced ++ [live] = s.closed ++ s.closing ++ (dropped ++ [live])
      rw [split_, List.append_assoc]
  | retried i send channel error here idle holding at_ untaken =>
    rw [retry]
    split
    · exact ⟨dropped, split_, alive⟩
    · exact ⟨dropped, split_, alive⟩
  | closed channel commands next manager ahead =>
    refine ⟨dropped, ?_, alive⟩
    show s.replaced = s.closed ++ [channel] ++ commands.filterMap SessionCommand.closes ++ dropped
    have first : s.closing = channel :: commands.filterMap SessionCommand.closes := by
      rw [closing, next]
      rfl
    rw [split_, first, List.append_assoc s.closed [channel], List.singleton_append]
  | answered i send phase command commands next reply here =>
    refine ⟨dropped, ?_, alive⟩
    show s.replaced = s.closed ++ commands.filterMap SessionCommand.closes ++ dropped
    rw [closing_pop next reply]
    exact split_
  | opened i send id command commands next reply here =>
    refine ⟨dropped, ?_, alive⟩
    show s.replaced = s.closed ++ commands.filterMap SessionCommand.closes ++ dropped
    rw [closing_pop next reply]
    exact split_
  | took i send frame command commands next reply here =>
    refine ⟨dropped, ?_, alive⟩
    show s.replaced = s.closed ++ commands.filterMap SessionCommand.closes ++ dropped
    rw [closing_pop next reply]
    exact split_

structure Accounted (s : LaneSession ι Link) : Prop where
  orderly : Orderly s
  ledger : Ledger s
  founded : Founded s
  closes : Closes s

theorem Accounted.step (h : Accounted s) (hmac : Hmac) (x : LaneStep ι Link) : Accounted (s.step hmac x) := by
  have moved := step_move hmac h.orderly x
  exact ⟨h.orderly.move moved, h.ledger.move h.orderly moved, h.founded.move moved, h.closes.move moved⟩

theorem accounted_run (hmac : Hmac) {manager : ChannelManager Link} (aligned : manager.ids.Aligned)
    (steps : List (LaneStep ι Link)) : Accounted (run hmac manager steps) := by
  refine TransitionRun.invariant ?_ (fun s x h => h.step hmac x) steps
  exact ⟨.start manager aligned, ⟨fun id mem => (by cases mem), List.nodup_nil, .refl _, le_rfl⟩,
    ⟨fun lane id held => (by cases held), fun i send here => (by cases here), List.Subset.refl _, fun call mem => (by cases mem)⟩,
    [], rfl, fun _ => rfl⟩

omit [DecidableEq ι] in
/-- The task that holds the lock has a channel for a lane that holds none. -/
theorem Exclusive.length_le (h : Exclusive s) : s.cached.length + s.pending.length ≤ Lane.all.length := by
  cases lock : s.lock with
  | none =>
    rw [pending_unlocked lock]
    exact length_held_le
  | some i =>
    obtain ⟨send, here, holding⟩ := h.locked i lock
    have fewer := length_held_lt (Lane.mem_all send.lane) (h.holder i send here holding).2
    have one : s.pending.length ≤ 1 := by
      rw [pending_locked lock here]
      cases send.phase.pending with
      | none => exact Nat.zero_le _
      | some id => exact le_rfl
    rw [cached]
    omega

omit [DecidableEq ι] in
theorem Accounted.length_opened_le (h : Accounted s) :
    s.openedIds.length ≤ Lane.all.length + s.refusers.dedup.length + s.failures := by
  have room := h.orderly.exclusive.length_le
  have told := h.ledger.told
  have fates := h.ledger.fates.length_eq
  have apart : s.replaced.Nodup := by
    have all := h.ledger.fates.nodup_iff.mp h.ledger.nodup
    exact (List.nodup_append.mp (List.nodup_append.mp all).1).2.1
  have few := (apart.subperm fun id mem => List.mem_dedup.mpr (h.founded.failed mem)).length_le
  simp only [List.length_append] at fates
  omega

/-- Whatever the session's tasks send, on whatever lanes and in whatever order, and whatever the peer makes of the
channels: each channel they had opened is held by its lane, is being opened by the one task that may, refused a frame
and was let go of, or was never known to be open; one a lane holds was opened for it, those let go of are closed once
each, and there are at most as many channels as lanes, channels that refused, and calls that failed. -/
theorem lanes_accounted (hmac : Hmac) (crypto : SessionCrypto) (version : Version) (role : SessionRole)
    (negotiated : ChannelType → Bool) (limit : ℕ) (streamTypes : List ChannelType) (steps : List (LaneStep ι Link)) :
    let s := run hmac (.new crypto version role negotiated limit streamTypes) steps
    s.openedIds.Nodup ∧ s.openedIds.Perm (s.cached ++ s.pending ++ s.replaced ++ s.givenUp) ∧
    (∀ lane id, s.lanes lane = some id → (lane, id) ∈ s.opened) ∧ s.cached.length + s.pending.length ≤ 7 ∧
    s.replaced ⊆ s.refusers ∧ s.givenUp.length ≤ s.failures ∧
    s.closed <+: s.replaced ∧ (s.running = true → s.replaced = s.closed ++ s.closing) ∧
    s.openedIds.length ≤ 7 + s.refusers.dedup.length + s.failures := by
  intro s
  have aligned : (ChannelManager.new crypto version role negotiated limit streamTypes : ChannelManager Link).ids.Aligned :=
    ChannelIdAllocator.new_aligned role
  have h : Accounted s := accounted_run hmac aligned steps
  obtain ⟨dropped, split_, alive⟩ := h.closes
  refine ⟨h.ledger.nodup, h.ledger.fates, h.founded.own, h.orderly.exclusive.length_le, h.founded.failed, h.ledger.told,
    ⟨s.closing ++ dropped, ?_⟩, fun running => ?_, h.length_opened_le⟩
  · rw [split_, List.append_assoc]
  · rw [split_, alive running, List.append_nil]

def pathFrame (channel : ChannelId) : Except String SessionFrame := .ok ⟨channel, 3, .none, [47]⟩

def reopening : List (LaneStep ℕ ℕ) :=
  [.call 0 .syncAsk pathFrame, .acquire 0, .resume 0, .serve (.ok 7) true, .resume 0, .resume 0, .serve (.ok 7) true,
    .resume 0, .elsewhere (.handleChannelAccept 2), .tick 10, .resume 0, .resume 0, .serve (.ok 7) true, .resume 0,
    .resume 0, .serve (.ok 7) true, .resume 0, .elsewhere (.handleChannelClose 2), .call 1 .syncAsk pathFrame,
    .acquire 1, .resume 1, .serve (.ok 7) true, .resume 1, .acquire 1, .resume 1, .serve (.ok 8) true, .serve (.ok 8) true,
    .elsewhere (.handleChannelAccept 4), .resume 1, .resume 1, .serve (.ok 8) true, .resume 1, .resume 1,
    .serve (.ok 8) true, .resume 1]

theorem reopening_accounted :
    let s := run zeroHmac (testManager 4 []) reopening
    s.openedIds = [2, 4] ∧ (.syncAsk, 4) ∈ s.opened ∧ s.replaced = s.closed ++ s.closing := by
  have whole := lanes_accounted zeroHmac zeroCrypto ⟨1, 0⟩ .responder (fun _ => true) 4 [] reopening
  obtain ⟨-, -, own, -, -, -, -, running, -⟩ := whole
  exact ⟨by decide +kernel, own .syncAsk 4 (by decide +kernel), running (by decide +kernel)⟩

end LaneSession
end PeerBeam.Session
