import PeerBeam.Session.Lanes

/-! What one step of a session with lanes can do, and the order its tasks keep. -/
namespace PeerBeam.Session
open ChannelManager

namespace ChannelManager
variable {Link : Type} (hmac : Hmac) {m : ChannelManager Link}

/-- Only local opens, re-opens and peer opens move the allocator. -/
theorem tryPair_ids {ids : ChannelIdAllocator} (same : m.ids = ids) (aligned : ids.Aligned) :
    ids.Advances (m.tryPair hmac).1.ids := by
  subst same
  refine (tryPair_invariant hmac (I := fun m' => m.ids.Advances m'.ids) ?_ (.refl _)).1
  intro m' pending opens link streams ahead _ _
  cases pending with
  | skip owed =>
    rw [pairOne]
    split <;> exact ahead
  | accept id type =>
    have reserved := ahead.trans (m'.ids.reserve_advances (ahead.aligned aligned) id).1
    rw [pairOne]
    obtain ⟨-, -, paired⟩ | ⟨-, paired⟩ := { m' with
      pendingOpens := opens, pendingStreams := streams }.pairAccepted_cases hmac id type link
    · rw [paired]
      exact reserved
    · obtain ⟨_, _, announced⟩ := announceOpen_eq _ id type
      rw [paired, announced]
      exact reserved

theorem attached_ids (id : ChannelId) (channel : Channel) (stream : Except SessionError Link) :
    (m.attached id channel stream).ids = m.ids := by
  cases stream <;> rfl

theorem step_ids (aligned : m.ids.Aligned) (call : ManagerCall Link) : m.ids.Advances (m.step hmac call).ids := by
  cases call with
  | openChannel type stream =>
    rw [step]
    obtain same | ⟨-, ids, ⟨ha, exhausted⟩ | ⟨id, ha, opened⟩⟩ := m.openChannel_cases hmac type stream
    · rw [same]; exact .refl _
    · rw [exhausted]
      exact ChannelIdAllocator.allocateLoop_advances ha
    · rw [opened, attached_ids]
      exact ChannelIdAllocator.allocateLoop_advances ha
  | openStreamChannel type stream =>
    rw [step]
    obtain same | ⟨-, ids, ⟨ha, exhausted⟩ | ⟨id, ha, ⟨e, _, failed⟩ | ⟨link, _, opened⟩⟩⟩ :=
      m.openStreamChannel_cases hmac type stream
    · rw [same]; exact .refl _
    · rw [exhausted]
      exact ChannelIdAllocator.allocateLoop_advances ha
    · rw [failed, attached_ids]
      exact ChannelIdAllocator.allocateLoop_advances ha
    · obtain ⟨_, _, announced⟩ := announceOpen_eq ({ m with ids }.attached id ⟨type, .open⟩ stream) id type
      rw [opened, announced]
      show m.ids.Advances ({ m with ids }.attached id ⟨type, .open⟩ stream).ids
      rw [attached_ids]
      exact ChannelIdAllocator.allocateLoop_advances ha
  | reopenChannel id type stream =>
    rw [step]
    obtain same | ⟨-, ⟨e, _, failed⟩ | ⟨link, _, opened⟩⟩ := m.reopenChannel_cases hmac id type stream
    · rw [same]; exact .refl _
    · rw [failed, attached_ids]; exact .refl _
    · rw [opened]
      exact (m.ids.reserve_advances aligned id).1
  | handleChannelOpen id type =>
    rw [step]
    obtain ⟨reason, refused⟩ | ⟨-, queued⟩ := m.handleChannelOpen_cases hmac id type
    · rw [refused]
      exact tryPair_ids hmac rfl aligned
    · rw [queued]
      exact tryPair_ids hmac rfl aligned
  | onStreamAccepted link => exact tryPair_ids hmac rfl aligned
  | handleChannelAccept id =>
    rw [step]
    obtain same | ⟨ch, -, -, accepted⟩ := m.handleChannelAccept_cases id
    · rw [same]; exact .refl _
    · obtain ⟨_, _, announced⟩ := announceOpen_eq (m.insertChannel id { ch with state := .open }) id ch.channelType
      rw [accepted, announced]
      exact .refl _
  | onActorEvent event =>
    rw [step]
    obtain ⟨-, same⟩ | ⟨-, told, -, ended⟩ := m.onActorEvent_cases event
    · rw [same]; exact .refl _
    · obtain ⟨parked, park, -⟩ := m.parkForget_eq event.channel
      rw [ended, park]
      exact .refl _
  | closeChannel id | handleChannelClose id | handleChannelClosed id =>
    simp only [step, closeChannel, handleChannelClose, handleChannelClosed]
    obtain forgotten | closed := m.closeLive_cases id
    · rw [forgotten]; exact .refl _
    · rw [closed]; exact .refl _
  | handleChannelReject id reason | handleChannelError id detail => exact .refl _
  | confirmLinkAlive | receiverDropped | stopAll => exact .refl _

/-- An opened channel has an id the allocator had not reached. -/
theorem openChannel_ok {type : ChannelType} {stream : Except SessionError Link} {id : ChannelId} {msg : ControlMessage}
    (opened : (m.openChannel hmac type stream).1 = .ok (id, msg)) :
    m.ids.next.toNat ≤ id.toNat ∧ id.toNat < (m.openChannel hmac type stream).2.ids.next.toNat := by
  unfold openChannel at opened ⊢
  cases hp : m.permit type with
  | error reason =>
    rw [hp] at opened
    cases opened
  | ok _ =>
    rw [hp] at opened
    rcases ha : m.ids.allocate m.inUse with ⟨_ | other, ids⟩
    · simp only [allocateId, ha] at opened
      cases opened
    · simp only [allocateId, ha, attach_eq] at opened ⊢
      cases stream with
      | error e => cases opened
      | ok link =>
        cases opened
        exact ChannelIdAllocator.allocateLoop_between ha

end ChannelManager

namespace SendPhase

/-- A command of the task is on its way to the pump. -/
def waiting : SendPhase → Bool
  | opening none | polling _ _ none | sending _ none => true
  | _ => false

def taken : SendPhase → Bool
  | sending _ (some (.ok ())) => true
  | _ => false

def channel : SendPhase → Option ChannelId
  | opening (some (.ok channel)) | mustPoll channel _ | polling channel _ _ | sleeping channel _ _ => some channel
  | ready channel | sending channel _ => some channel
  | _ => none

theorem channel_of_pending {phase : SendPhase} {channel : ChannelId} (pending : phase.pending = some channel) :
    phase.channel = some channel := by
  cases phase with
  | opening reply =>
    cases reply with
    | none => cases pending
    | some answer =>
      cases answer with
      | error e => cases pending
      | ok id => exact pending
  | mustPoll | polling | sleeping => exact pending
  | locking | mustOpen | ready | sending => cases pending

end SendPhase

def LaneSend.frames (send : LaneSend) (frame : SessionFrame) : Prop :=
  ∃ f, send.build frame.channel = .ok f ∧ frame = { f with channel := frame.channel }

def LaneSend.awaits {ι : Type} (send : LaneSend) : SessionCommand ι → Prop
  | .openChannel type _ => send.phase = .opening none ∧ type = send.lane.channelType
  | .snapshot _ => ∃ channel deadline, send.phase = .polling channel deadline none
  | .sendOnChannel channel messageType flags payload _ =>
    send.phase = .sending channel none ∧ send.frames ⟨channel, messageType, flags, payload⟩
  | .closeChannel _ => True

theorem LaneSend.awaits_waiting {ι : Type} {send : LaneSend} {command : SessionCommand ι} {i : ι}
    (awaits : send.awaits command) (reply : command.reply = some i) : send.phase.waiting = true := by
  cases command with
  | openChannel type j => rw [awaits.1]; rfl
  | sendOnChannel channel messageType flags payload j => rw [awaits.1]; rfl
  | closeChannel channel => cases reply
  | snapshot j =>
    obtain ⟨channel, deadline, here⟩ := awaits
    rw [here]
    rfl

namespace LaneSession
variable {ι Link : Type} [DecidableEq ι] (hmac : Hmac) {s : LaneSession ι Link}

/-- One task at most is between taking the lock and giving it up, and its lane is free. -/
structure Exclusive (s : LaneSession ι Link) : Prop where
  locked : ∀ i, s.lock = some i → ∃ send, s.sends i = some send ∧ send.phase.holding = true
  holder : ∀ i send, s.sends i = some send → send.phase.holding = true → s.lock = some i ∧ s.lanes send.lane = none

/-- Each command on its way is awaited by the task that made it, and by that alone. -/
structure Answerable (s : LaneSession ι Link) : Prop where
  asked : ∀ command ∈ s.commands, ∀ i, command.reply = some i → ∃ send, s.sends i = some send ∧ send.awaits command
  once : (s.commands.filterMap SessionCommand.reply).Nodup
  ended : s.running = false → s.commands = []

structure Orderly (s : LaneSession ι Link) : Prop where
  aligned : s.manager.ids.Aligned
  exclusive : Exclusive s
  answerable : Answerable s

def Idle (s : LaneSession ι Link) (send : LaneSend) : Prop := send.phase.waiting = false ∨ s.running = false

omit [DecidableEq ι] in
theorem Answerable.unasked (h : Answerable s) {i : ι} {send : LaneSend} (here : s.sends i = some send) (idle : s.Idle send) :
    ∀ command ∈ s.commands, command.reply ≠ some i := by
  intro command mem reply
  rcases idle with quiet | stopped
  · obtain ⟨send', same, awaits⟩ := h.asked command mem i reply
    rw [here] at same
    cases same
    rw [LaneSend.awaits_waiting awaits reply] at quiet
    cases quiet
  · rw [h.ended stopped] at mem
    cases mem

inductive Move (s : LaneSession ι Link) : LaneSession ι Link → Prop
  | quiet (manager : ChannelManager Link) (now : ℕ) (ahead : s.manager.ids.Advances manager.ids) :
    Move s { s with manager, now }
  | stopped : Move s s.stop
  | called (i : ι) (lane : Lane) (build : FrameBuilder) (free : s.sends i = none) : Move s (s.call i lane build)
  /-- A task goes on alone, with a command or without. -/
  | walked (i : ι) (send : LaneSend) (phase : SendPhase) (commands : List (SessionCommand ι))
    (here : s.sends i = some send) (idle : s.Idle send)
    (holding : phase.holding = send.phase.holding) (pending : phase.pending = send.phase.pending)
    (untaken : send.phase.taken = false ∧ phase.taken = false)
    (channel : ∀ id, phase.channel = some id → send.phase.channel = some id ∨ s.lanes send.lane = some id)
    (commands_ : commands = s.commands ∧ phase.waiting = false ∨ ∃ command, commands = s.commands ++ [command] ∧
      command.reply = some i ∧ { send with phase }.awaits command ∧ s.running = true) :
    Move s ({ s with commands }.goTo i send phase)
  | locked (i : ι) (send : LaneSend) (here : s.sends i = some send) (phase : send.phase = .locking)
    (open_ : s.lock = none) (vacant : s.lanes send.lane = none) : Move s ((s.acquired i).goTo i send .mustOpen)
  | replaced (i : ι) (send : LaneSend) (live : ChannelId) (here : s.sends i = some send) (phase : send.phase = .locking)
    (open_ : s.lock = none) (held : s.lanes send.lane = some live) (stale : send.stale = some live) :
    Move s ((({ s with lanes := Function.update s.lanes send.lane none, replaced := s.replaced ++ [live] }.push
      (.closeChannel live)).acquired i).goTo i send .mustOpen)
  | cached (i : ι) (send : LaneSend) (channel : ChannelId) (here : s.sends i = some send) (idle : s.Idle send)
    (holding : send.phase.holding = true) (pending : send.phase.pending = some channel) :
    Move s (({ s with lanes := Function.update s.lanes send.lane (some channel) }.release).goTo i send (.ready channel))
  | failed (i : ι) (send : LaneSend) (text : String) (here : s.sends i = some send) (idle : s.Idle send)
    (holding : send.phase.holding = true) (pending : send.phase.pending = none) : Move s (s.fail i send text)
  | gaveUp (i : ι) (send : LaneSend) (channel : ChannelId) (text : String) (here : s.sends i = some send)
    (idle : s.Idle send) (holding : send.phase.holding = true) (pending : send.phase.pending = some channel) :
    Move s (s.giveUp i send channel text)
  | unencoded (i : ι) (send : LaneSend) (channel : ChannelId) (text : String) (here : s.sends i = some send)
    (phase : send.phase = .ready channel) : Move s (s.finish i send (.error ⟨.internal, text⟩))
  | retried (i : ι) (send : LaneSend) (channel : ChannelId) (error : HandleError) (here : s.sends i = some send)
    (idle : s.Idle send) (holding : send.phase.holding = false) (at_ : send.phase.channel = some channel)
    (untaken : send.phase.taken = false) : Move s (s.retry i send channel error)
  | sent (i : ι) (send : LaneSend) (channel : ChannelId) (here : s.sends i = some send)
    (phase : send.phase = .sending channel (some (.ok ()))) : Move s (s.finish i send (.ok ()))
  | closed (channel : ChannelId) (commands : List (SessionCommand ι)) (next : s.commands = .closeChannel channel :: commands)
    (manager : ChannelManager Link) (ahead : s.manager.ids.Advances manager.ids) :
    Move s { s with commands, manager, closed := s.closed ++ [channel] }
  /-- An answer without a channel and without a frame. -/
  | answered (i : ι) (send : LaneSend) (phase : SendPhase) (command : SessionCommand ι) (commands : List (SessionCommand ι))
    (next : s.commands = command :: commands) (reply : command.reply = some i) (here : s.sends i = some send)
    (manager : ChannelManager Link) (ahead : s.manager.ids.Advances manager.ids)
    (holding : phase.holding = send.phase.holding) (pending : phase.pending = send.phase.pending)
    (channel : phase.channel = send.phase.channel) (untaken : send.phase.taken = false ∧ phase.taken = false)
    (quiet : phase.waiting = false) : Move s ({ s with commands, manager }.goTo i send phase)
  | opened (i : ι) (send : LaneSend) (id : ChannelId) (command : SessionCommand ι) (commands : List (SessionCommand ι))
    (next : s.commands = command :: commands) (reply : command.reply = some i) (here : s.sends i = some send)
    (phase : send.phase = .opening none) (manager : ChannelManager Link) (ahead : s.manager.ids.Advances manager.ids)
    (fresh : s.manager.ids.next.toNat ≤ id.toNat) (past : id.toNat < manager.ids.next.toNat) :
    Move s ({ s with commands, manager, opened := s.opened ++ [(send.lane, id)] }.goTo i send (.opening (some (.ok id))))
  | took (i : ι) (send : LaneSend) (frame : SessionFrame) (command : SessionCommand ι) (commands : List (SessionCommand ι))
    (next : s.commands = command :: commands) (reply : command.reply = some i) (here : s.sends i = some send)
    (phase : send.phase = .sending frame.channel none) (frames : send.frames frame) :
    Move s ({ s with commands, queued := s.queued ++ [(send.serial, send.lane, frame)] }.goTo i send
      (.sending frame.channel (some (.ok ()))))

theorem Move.same (s : LaneSession ι Link) : Move s s := .quiet s.manager s.now (.refl _)

theorem acquire_move (s : LaneSession ι Link) (i : ι) : Move s (s.acquire i) := by
  unfold acquire
  split
  next serial lane build stale lock here =>
    unfold laneChannel
    dsimp only
    split
    next live held =>
      split
      · refine .walked i _ _ s.commands here (.inl rfl) rfl rfl ⟨rfl, rfl⟩ (fun id same => ?_) (.inl ⟨rfl, rfl⟩)
        cases same
        exact .inr held
      next stale_ =>
        exact .replaced i _ live here rfl lock held (not_not.mp stale_).symm
    next vacant => exact .locked i _ here rfl lock vacant
  · exact .same s

theorem polled_move {i : ι} {send : LaneSend} {channel : ChannelId} {deadline : ℕ} {snapshot : Snapshot}
    (here : s.sends i = some send) (phase : send.phase = .polling channel deadline (some snapshot)) :
    Move s (s.polled i send channel deadline snapshot) := by
  have idle : s.Idle send := .inl (by rw [phase]; rfl)
  have holding : send.phase.holding = true := by rw [phase]; rfl
  have pending : send.phase.pending = some channel := by rw [phase]; rfl
  unfold polled
  split
  · split
    · exact .gaveUp i send channel _ here idle holding pending
    · refine .walked i send _ s.commands here idle holding.symm pending.symm ⟨by rw [phase]; rfl, rfl⟩
        (fun id same => .inl ?_) (.inl ⟨rfl, rfl⟩)
      rw [phase]
      exact same
  · exact .cached i send channel here idle holding pending
  · exact .gaveUp i send channel _ here idle holding pending

theorem resume_move (s : LaneSession ι Link) (i : ι) : Move s (s.resume i) := by
  unfold resume
  cases here : s.sends i with
  | none => exact .same s
  | some send =>
    obtain ⟨serial, lane, build, stale, phase⟩ := send
    dsimp only
    cases phase with
    | locking => exact .same s
    | mustOpen =>
      dsimp only
      by_cases running : s.running = true
      · rw [push, if_pos running, if_pos running]
        exact .walked i _ _ _ here (.inl rfl) rfl rfl ⟨rfl, rfl⟩ (fun id same => by cases same)
          (.inr ⟨_, rfl, rfl, ⟨rfl, rfl⟩, running⟩)
      · rw [if_neg running]
        exact .failed i _ _ here (.inl rfl) rfl rfl
    | opening reply =>
      cases reply with
      | none =>
        dsimp only
        by_cases running : s.running = true
        · rw [if_pos running]
          exact .same s
        · rw [if_neg running]
          exact .failed i _ _ here (.inr (Bool.eq_false_iff.mpr running)) rfl rfl
      | some answer =>
        cases answer with
        | error e => exact .failed i _ _ here (.inl rfl) rfl rfl
        | ok channel =>
          exact .walked i _ _ _ here (.inl rfl) rfl rfl ⟨rfl, rfl⟩ (fun id same => .inl same) (.inl ⟨rfl, rfl⟩)
    | mustPoll channel deadline =>
      dsimp only
      by_cases running : s.running = true
      · rw [push, if_pos running, if_pos running]
        exact .walked i _ _ _ here (.inl rfl) rfl rfl ⟨rfl, rfl⟩ (fun id same => .inl same)
          (.inr ⟨_, rfl, rfl, ⟨channel, deadline, rfl⟩, running⟩)
      · rw [if_neg running]
        exact .gaveUp i _ channel _ here (.inl rfl) rfl rfl
    | polling channel deadline reply =>
      cases reply with
      | none =>
        dsimp only
        by_cases running : s.running = true
        · rw [if_pos running]
          exact .same s
        · rw [if_neg running]
          exact .gaveUp i _ channel _ here (.inr (Bool.eq_false_iff.mpr running)) rfl rfl
      | some snapshot => exact polled_move here rfl
    | sleeping channel deadline wake =>
      dsimp only
      split
      · exact .walked i _ _ _ here (.inl rfl) rfl rfl ⟨rfl, rfl⟩ (fun id same => .inl same) (.inl ⟨rfl, rfl⟩)
      · exact .same s
    | ready channel =>
      dsimp only
      cases built : build channel with
      | error e => exact .unencoded i _ channel e here rfl
      | ok frame =>
        by_cases running : s.running = true
        · dsimp only
          rw [push, if_pos running, if_pos running]
          exact .walked i _ _ _ here (.inl rfl) rfl rfl ⟨rfl, rfl⟩ (fun id same => .inl same)
            (.inr ⟨_, rfl, rfl, ⟨rfl, frame, built, rfl⟩, running⟩)
        · dsimp only
          rw [if_neg running]
          exact .retried i _ channel .closed here (.inl rfl) rfl rfl rfl
    | sending channel reply =>
      cases reply with
      | none =>
        dsimp only
        by_cases running : s.running = true
        · rw [if_pos running]
          exact .same s
        · rw [if_neg running]
          exact .retried i _ channel .closed here (.inr (Bool.eq_false_iff.mpr running)) rfl rfl rfl
      | some answer =>
        cases answer with
        | error e => exact .retried i _ channel (.session e) here (.inl rfl) rfl rfl rfl
        | ok _ => exact .sent i _ channel here rfl

theorem sendOnChannel_ok {m : ChannelManager Link} {channel : ChannelId} {messageType : MessageType} {flags : MessageFlags}
    {payload : Bytes} {takes : Bool} {frame : SessionFrame}
    (taken : m.sendOnChannel channel messageType flags payload takes = .ok frame) :
    frame = ⟨channel, messageType, flags, payload⟩ := by
  unfold sendOnChannel at taken
  split at taken
  · cases taken
  · split at taken
    · cases taken
    · split at taken
      · cases taken
        rfl
      · cases taken

theorem serve_move (h : Orderly s) (stream : Except SessionError Link) (takes : Bool) :
    Move s (s.serve hmac stream takes) := by
  unfold serve
  cases next : s.commands with
  | nil => exact .same s
  | cons command commands =>
    have first : command ∈ s.commands := next ▸ List.mem_cons_self
    cases command with
    | closeChannel channel => exact .closed channel commands next _ (step_ids hmac h.aligned (.closeChannel channel))
    | snapshot i =>
      obtain ⟨⟨serial, lane, build, stale, phase⟩, here, channel, deadline, at_⟩ := h.answerable.asked _ first i rfl
      dsimp only at at_
      subst at_
      dsimp only [handleCommand, replySnapshot]
      rw [here]
      exact .answered i _ _ _ commands next rfl here s.manager (.refl _) rfl rfl rfl ⟨rfl, rfl⟩ rfl
    | openChannel type i =>
      obtain ⟨⟨serial, lane, build, stale, phase⟩, here, at_, -⟩ := h.answerable.asked _ first i rfl
      dsimp only at at_
      subst at_
      have ahead := step_ids hmac h.aligned (.openChannel type stream)
      dsimp only [handleCommand, replyOpen]
      rw [here]
      cases answer : (s.manager.openChannel hmac type stream).1 with
      | error e =>
        dsimp only [Except.map, Except.toOption, Option.toList, List.map]
        rw [List.append_nil]
        exact .answered i _ _ _ commands next rfl here _ ahead rfl rfl rfl ⟨rfl, rfl⟩ rfl
      | ok pair =>
        obtain ⟨id, msg⟩ := pair
        obtain ⟨fresh, past⟩ := openChannel_ok hmac answer
        exact .opened i _ id _ commands next rfl here rfl _ ahead fresh past
    | sendOnChannel channel messageType flags payload i =>
      obtain ⟨⟨serial, lane, build, stale, phase⟩, here, at_, frames⟩ := h.answerable.asked _ first i rfl
      dsimp only at at_
      subst at_
      dsimp only [handleCommand, replySend]
      rw [here]
      cases answer : s.manager.sendOnChannel channel messageType flags payload takes with
      | error e =>
        dsimp only [Except.map, Except.toOption, Option.toList, List.map]
        rw [List.append_nil]
        exact .answered i _ _ _ commands next rfl here s.manager (.refl _) rfl rfl rfl ⟨rfl, rfl⟩ rfl
      | ok frame =>
        obtain rfl := sendOnChannel_ok answer
        exact .took i _ _ _ commands next rfl here rfl frames

theorem step_move (h : Orderly s) (x : LaneStep ι Link) : Move s (s.step hmac x) := by
  cases x with
  | call i lane build =>
    by_cases free : s.sends i = none
    · exact .called i lane build free
    · obtain ⟨send, here⟩ := Option.ne_none_iff_exists'.mp free
      rw [step, call, here]
      exact .same s
  | acquire i => exact acquire_move s i
  | resume i => exact resume_move s i
  | serve stream takes => exact serve_move hmac h stream takes
  | elsewhere call => exact .quiet _ s.now (step_ids hmac h.aligned call)
  | tick elapsed => exact .quiet s.manager _ (.refl _)
  | stop => exact .stopped

section
variable {s' : LaneSession ι Link} {i : ι} {send : LaneSend} {next : Option LaneSend}

theorem sends_self (sends : s'.sends = Function.update s.sends i next) : s'.sends i = next := by
  rw [sends, Function.update_self]

theorem sends_other (sends : s'.sends = Function.update s.sends i next) {j : ι} (other : j ≠ i) :
    s'.sends j = s.sends j := by
  rw [sends, Function.update_of_ne other]

/-- A task that neither takes the lock nor gives it up. -/
theorem Exclusive.stay (h : Exclusive s) (here : s.sends i = some send) (sends : s'.sends = Function.update s.sends i next)
    (lock : s'.lock = s.lock) (lanes : s'.lanes = s.lanes)
    (gone : next = none → send.phase.holding = false)
    (same : ∀ send', next = some send' → send'.lane = send.lane ∧ send'.phase.holding = send.phase.holding) :
    Exclusive s' := by
  constructor
  · intro j locked
    obtain ⟨sendj, at_, holding⟩ := h.locked j (lock ▸ locked)
    by_cases other : j = i
    · subst other
      rw [here] at at_
      cases at_
      cases next with
      | none =>
        rw [gone rfl] at holding
        cases holding
      | some send' => exact ⟨send', sends_self sends, (same send' rfl).2.trans holding⟩
    · exact ⟨sendj, (sends_other sends other).trans at_, holding⟩
  · intro j sendj at_ holding
    rw [lock, lanes]
    by_cases other : j = i
    · subst other
      obtain ⟨lane, phase⟩ := same sendj ((sends_self sends).symm.trans at_)
      rw [lane]
      exact h.holder j send here (phase.symm.trans holding)
    · exact h.holder j sendj ((sends_other sends other).symm.trans at_) holding

/-- A task takes the lock, when nobody has it. -/
theorem Exclusive.take (h : Exclusive s) (free : s.lock = none) {send' : LaneSend}
    (sends : s'.sends = Function.update s.sends i (some send')) (lock : s'.lock = some i)
    (holding : send'.phase.holding = true) (vacant : s'.lanes send'.lane = none) : Exclusive s' := by
  constructor
  · intro j locked
    rw [lock] at locked
    cases locked
    exact ⟨send', sends_self sends, holding⟩
  · intro j sendj at_ holdingj
    by_cases other : j = i
    · subst other
      rw [sends_self sends] at at_
      cases at_
      exact ⟨lock, vacant⟩
    · have locked := (h.holder j sendj ((sends_other sends other).symm.trans at_) holdingj).1
      rw [free] at locked
      cases locked

/-- The task that has it gives it up. -/
theorem Exclusive.leave (h : Exclusive s) (here : s.sends i = some send) (holding : send.phase.holding = true)
    (sends : s'.sends = Function.update s.sends i next) (lock : s'.lock = none)
    (free : ∀ send', next = some send' → send'.phase.holding = false) : Exclusive s' := by
  constructor
  · intro j locked
    rw [lock] at locked
    cases locked
  · intro j sendj at_ holdingj
    by_cases other : j = i
    · subst other
      rw [free sendj ((sends_self sends).symm.trans at_)] at holdingj
      cases holdingj
    · have mine := (h.holder i send here holding).1
      have other_ := (h.holder j sendj ((sends_other sends other).symm.trans at_) holdingj).1
      rw [mine] at other_
      cases other_
      exact absurd rfl other

/-- A task no command waits for goes on, with no new one. -/
theorem Answerable.stay (h : Answerable s) (unasked : ∀ command ∈ s.commands, command.reply ≠ some i)
    (sends : s'.sends = Function.update s.sends i next) (commands : s'.commands = s.commands)
    (running : s'.running = s.running) : Answerable s' := by
  constructor
  · intro command mem j reply
    rw [commands] at mem
    have other : j ≠ i := fun same => unasked command mem (same ▸ reply)
    obtain ⟨sendj, at_, awaits⟩ := h.asked command mem j reply
    exact ⟨sendj, (sends_other sends other).trans at_, awaits⟩
  · rw [commands]
    exact h.once
  · rw [commands, running]
    exact h.ended

/-- With a command of its own. -/
theorem Answerable.ask (h : Answerable s) (unasked : ∀ command ∈ s.commands, command.reply ≠ some i) {send' : LaneSend}
    (sends : s'.sends = Function.update s.sends i (some send')) {command : SessionCommand ι}
    (commands : s'.commands = s.commands ++ [command]) (reply : command.reply = some i) (awaits : send'.awaits command)
    (running : s'.running = true) : Answerable s' := by
  constructor
  · intro asked mem j replyj
    rw [commands] at mem
    rcases List.mem_append.mp mem with before | last
    · have other : j ≠ i := fun same => unasked asked before (same ▸ replyj)
      obtain ⟨sendj, at_, awaitsj⟩ := h.asked asked before j replyj
      exact ⟨sendj, (sends_other sends other).trans at_, awaitsj⟩
    · rw [List.mem_singleton.mp last] at replyj ⊢
      rw [reply] at replyj
      cases replyj
      exact ⟨send', sends_self sends, awaits⟩
  · rw [commands, List.filterMap_append, List.filterMap_cons_some reply, List.filterMap_nil]
    refine List.Nodup.append h.once (List.nodup_singleton i) ?_
    intro j before last
    rw [List.mem_singleton.mp last] at before
    obtain ⟨asked, mem, replyj⟩ := List.mem_filterMap.mp before
    exact unasked asked mem replyj
  · rw [running]
    intro stopped
    cases stopped

omit [DecidableEq ι] in
/-- The oldest command is handled; it was not the task's, or its task goes on. -/
theorem Answerable.pop (h : Answerable s) {command : SessionCommand ι} {commands : List (SessionCommand ι)}
    (first : s.commands = command :: commands) (rest : s'.commands = commands) (running : s'.running = s.running)
    (others : ∀ j, command.reply ≠ some j → s'.sends j = s.sends j) : Answerable s' := by
  have tail : s.commands.filterMap SessionCommand.reply =
      command.reply.toList ++ commands.filterMap SessionCommand.reply := by
    rw [first, List.filterMap_cons]
    cases command.reply <;> rfl
  have once := h.once
  rw [tail] at once
  constructor
  · intro asked mem j reply
    rw [rest] at mem
    obtain ⟨sendj, at_, awaits⟩ := h.asked asked (first ▸ List.mem_cons_of_mem _ mem) j reply
    refine ⟨sendj, (others j fun same => ?_).trans at_, awaits⟩
    rw [same] at once
    exact (List.nodup_cons.mp once).1 (List.mem_filterMap.mpr ⟨asked, mem, reply⟩)
  · rw [rest]
    exact (List.nodup_append.mp once).2.1
  · intro stopped
    rw [h.ended (running ▸ stopped)] at first
    cases first

/-- So does a task whose lane's channel is to be closed. -/
theorem Answerable.close (h : Answerable s) (unasked : ∀ command ∈ s.commands, command.reply ≠ some i) {channel : ChannelId}
    (sends : s'.sends = Function.update s.sends i next)
    (commands : s'.commands = if s.running then s.commands ++ [.closeChannel channel] else s.commands)
    (running : s'.running = s.running) : Answerable s' := by
  constructor
  · intro asked mem j reply
    have before : asked ∈ s.commands := by
      rw [commands] at mem
      split at mem
      · rcases List.mem_append.mp mem with before | last
        · exact before
        · rw [List.mem_singleton.mp last] at reply
          cases reply
      · exact mem
    have other : j ≠ i := fun same => unasked asked before (same ▸ reply)
    obtain ⟨sendj, at_, awaits⟩ := h.asked asked before j reply
    exact ⟨sendj, (sends_other sends other).trans at_, awaits⟩
  · rw [commands]
    split
    · rw [List.filterMap_append, List.filterMap_cons_none rfl, List.filterMap_nil, List.append_nil]
      exact h.once
    · exact h.once
  · intro stopped
    rw [running] at stopped
    rw [commands, if_neg (by rw [stopped]; exact Bool.false_ne_true)]
    exact h.ended stopped

end

omit [DecidableEq ι] in
theorem Orderly.start (manager : ChannelManager Link) (aligned : manager.ids.Aligned) :
    Orderly (LaneSession.start manager : LaneSession ι Link) where
  aligned := aligned
  exclusive := ⟨fun i lock => (by cases lock), fun i send here => (by cases here)⟩
  answerable := ⟨fun command mem => (by cases mem), List.nodup_nil, fun _ => rfl⟩

theorem Orderly.move (h : Orderly s) {s' : LaneSession ι Link} (moved : Move s s') : Orderly s' := by
  cases moved with
  | quiet manager now ahead =>
    exact ⟨ahead.aligned h.aligned, ⟨h.exclusive.locked, h.exclusive.holder⟩,
      ⟨h.answerable.asked, h.answerable.once, h.answerable.ended⟩⟩
  | stopped =>
    exact ⟨h.aligned, ⟨h.exclusive.locked, h.exclusive.holder⟩,
      ⟨fun command mem => (by cases mem), List.nodup_nil, fun _ => rfl⟩⟩
  | called i lane build free =>
    rw [call, free]
    have unasked : ∀ command ∈ s.commands, command.reply ≠ some i := by
      intro command mem reply
      obtain ⟨send, here, -⟩ := h.answerable.asked command mem i reply
      rw [free] at here
      cases here
    refine ⟨h.aligned, ⟨fun j lock => ?_, fun j send at_ holding => ?_⟩, h.answerable.stay unasked rfl rfl rfl⟩
    · obtain ⟨send, at_, holding⟩ := h.exclusive.locked j lock
      have other : j ≠ i := fun same => by
        rw [same, free] at at_
        cases at_
      exact ⟨send, (Function.update_of_ne other ..).trans at_, holding⟩
    · by_cases other : j = i
      · subst other
        rw [sends_self rfl] at at_
        cases at_
        cases holding
      · exact h.exclusive.holder j send ((Function.update_of_ne other ..).symm.trans at_) holding
  | walked i send phase commands here idle holding pending untaken channel commands_ =>
    refine ⟨h.aligned, h.exclusive.stay here rfl rfl rfl (fun gone => by cases gone) ?_, ?_⟩
    · intro send' same
      cases same
      exact ⟨rfl, holding⟩
    · have unasked := h.answerable.unasked here idle
      rcases commands_ with ⟨rfl, -⟩ | ⟨command, rfl, reply, awaits, running⟩
      · exact h.answerable.stay unasked rfl rfl rfl
      · exact h.answerable.ask unasked rfl rfl reply awaits running
  | locked i send here phase open_ vacant =>
    have idle : s.Idle send := .inl (by rw [phase]; rfl)
    exact ⟨h.aligned, h.exclusive.take open_ rfl rfl rfl vacant,
      h.answerable.stay (h.answerable.unasked here idle) rfl rfl rfl⟩
  | replaced i send live here phase open_ held stale =>
    have idle : s.Idle send := .inl (by rw [phase]; rfl)
    have unasked := h.answerable.unasked here idle
    rw [push]
    split
    next running =>
      refine ⟨h.aligned, h.exclusive.take open_ rfl rfl rfl (Function.update_self ..), ?_⟩
      exact h.answerable.close unasked rfl (if_pos running).symm rfl
    next stopped =>
      refine ⟨h.aligned, h.exclusive.take open_ rfl rfl rfl (Function.update_self ..), ?_⟩
      exact h.answerable.stay unasked rfl rfl rfl
  | cached i send channel here idle holding pending =>
    refine ⟨h.aligned, h.exclusive.leave here holding rfl rfl ?_,
      h.answerable.stay (h.answerable.unasked here idle) rfl rfl rfl⟩
    intro send' same
    cases same
    rfl
  | failed i send text here idle holding pending =>
    exact ⟨h.aligned, h.exclusive.leave here holding rfl rfl fun send' same => (by cases same),
      h.answerable.stay (h.answerable.unasked here idle) rfl rfl rfl⟩
  | gaveUp i send channel text here idle holding pending =>
    exact ⟨h.aligned, h.exclusive.leave here holding rfl rfl fun send' same => (by cases same),
      h.answerable.stay (h.answerable.unasked here idle) rfl rfl rfl⟩
  | unencoded i send channel text here phase =>
    have idle : s.Idle send := .inl (by rw [phase]; rfl)
    exact ⟨h.aligned, h.exclusive.stay here rfl rfl rfl (fun _ => by rw [phase]; rfl) fun send' same => (by cases same),
      h.answerable.stay (h.answerable.unasked here idle) rfl rfl rfl⟩
  | retried i send channel error here idle holding at_ untaken =>
    have unasked := h.answerable.unasked here idle
    rw [retry]
    split
    · refine ⟨h.aligned, h.exclusive.stay here rfl rfl rfl (fun _ => holding) ?_, h.answerable.stay unasked rfl rfl rfl⟩
      intro send' same
      cases same
      exact ⟨rfl, holding.symm⟩
    · exact ⟨h.aligned, h.exclusive.stay here rfl rfl rfl (fun _ => holding) fun send' same => (by cases same),
        h.answerable.stay unasked rfl rfl rfl⟩
  | sent i send channel here phase =>
    have idle : s.Idle send := .inl (by rw [phase]; rfl)
    exact ⟨h.aligned, h.exclusive.stay here rfl rfl rfl (fun _ => by rw [phase]; rfl) fun send' same => (by cases same),
      h.answerable.stay (h.answerable.unasked here idle) rfl rfl rfl⟩
  | closed channel commands next manager ahead =>
    exact ⟨ahead.aligned h.aligned, ⟨h.exclusive.locked, h.exclusive.holder⟩,
      h.answerable.pop next rfl rfl fun j _ => rfl⟩
  | answered i send phase command commands next reply here manager ahead holding pending channel untaken quiet =>
    refine ⟨ahead.aligned h.aligned, h.exclusive.stay here rfl rfl rfl (fun gone => by cases gone) ?_,
      h.answerable.pop next rfl rfl fun j other => sends_other rfl fun same => other (same ▸ reply)⟩
    intro send' same
    cases same
    exact ⟨rfl, holding⟩
  | opened i send id command commands next reply here phase manager ahead fresh past =>
    refine ⟨ahead.aligned h.aligned, h.exclusive.stay here rfl rfl rfl (fun gone => by cases gone) ?_,
      h.answerable.pop next rfl rfl fun j other => sends_other rfl fun same => other (same ▸ reply)⟩
    intro send' same
    cases same
    rw [phase]
    exact ⟨rfl, rfl⟩
  | took i send frame command commands next reply here phase frames =>
    refine ⟨h.aligned, h.exclusive.stay here rfl rfl rfl (fun gone => by cases gone) ?_,
      h.answerable.pop next rfl rfl fun j other => sends_other rfl fun same => other (same ▸ reply)⟩
    intro send' same
    cases same
    rw [phase]
    exact ⟨rfl, rfl⟩

end LaneSession
end PeerBeam.Session
