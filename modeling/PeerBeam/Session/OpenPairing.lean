import PeerBeam.Lib.Run
import PeerBeam.Session.ManagerCalls

/-! Peer opens and accepted streams are paired by position: the `k`-th open since
the last stop consumes the `k`-th stream. -/
namespace PeerBeam.Session
open ChannelManager FifoPairing
variable {Link : Type}

inductive PeerOpen where
  | permitted (channel : ChannelId) (channelType : ChannelType)
  | refused
  deriving DecidableEq, Repr

inductive StreamUse (Link : Type) where
  | spawned (channel : ChannelId) (link : Link)
  | discarded (link : Link)
  | unreceived (channel : ChannelId) (link : Link)
  deriving DecidableEq

def sinceStop (history : List (Effect Link)) : List (Effect Link) :=
  history.foldl (fun since effect => match effect with
    | .stopped => []
    | effect => since ++ [effect]) []

def peerOpens (history : List (Effect Link)) : List PeerOpen :=
  (sinceStop history).filterMap fun
    | .permittedOpen id type => some (.permitted id type)
    | .refusedOpen _ => some .refused
    | _ => none

def arrivals (history : List (Effect Link)) : List Link :=
  (sinceStop history).filterMap fun
    | .streamArrived link => some link
    | _ => none

def streamUses (history : List (Effect Link)) : List (StreamUse Link) :=
  (sinceStop history).filterMap fun
    | .spawned id link => some (.spawned id link)
    | .discarded link => some (.discarded link)
    | .unreceived id link => some (.unreceived id link)
    | _ => none

/-- The stream of a permitted open is bound to its channel, or dropped if it is a
stream channel and its receiver is gone; that of a refused open is discarded. -/
def Uses (m : ChannelManager Link) : PeerOpen × Link → StreamUse Link → Prop
  | (.permitted id type, link), use => use = .spawned id link ∨
      m.streamTypes.contains type = true ∧ m.receiving = false ∧ use = .unreceived id link
  | (.refused, link), use => use = .discarded link

def PendingOpen.opens : PendingOpen → List PeerOpen
  | .accept id type => [.permitted id type]
  | .skip owed => List.replicate owed .refused

def waitingOpens (pending : List PendingOpen) : List PeerOpen := pending.flatMap PendingOpen.opens

structure PairedByPosition (m : ChannelManager Link) : Prop where
  paired : ∃ done, Paired (peerOpens m.history) (arrivals m.history) done
    (waitingOpens m.pendingOpens) m.pendingStreams ∧
    List.Forall₂ (Uses m) done (streamUses m.history)
  /-- No entry of the queue stands for nothing. -/
  owing : ∀ owed, .skip owed ∈ m.pendingOpens → 0 < owed

def pairingTrace (history : List (Effect Link)) :
    List PeerOpen × List Link × List (StreamUse Link) :=
  (peerOpens history, arrivals history, streamUses history)

theorem sinceStop_append (history : List (Effect Link)) (effect : Effect Link) :
    sinceStop (history ++ [effect]) = match effect with
      | .stopped => []
      | effect => sinceStop history ++ [effect] := by
  simp only [sinceStop, List.foldl_append, List.foldl_cons, List.foldl_nil]

@[simp] theorem pairingTrace_derived (history : List (Effect Link)) (id : ChannelId) :
    pairingTrace (history ++ [.derived id]) = pairingTrace history := by
  simp [pairingTrace, peerOpens, arrivals, streamUses, sinceStop_append]

@[simp] theorem pairingTrace_attached (history : List (Effect Link)) (id : ChannelId) (link : Link) :
    pairingTrace (history ++ [.attached id link]) = pairingTrace history := by
  simp [pairingTrace, peerOpens, arrivals, streamUses, sinceStop_append]

@[simp] theorem pairingTrace_event (history : List (Effect Link)) (event : ChannelEvent) :
    pairingTrace (history ++ [.event event]) = pairingTrace history := by
  simp [pairingTrace, peerOpens, arrivals, streamUses, sinceStop_append]

@[simp] theorem pairingTrace_stopped (history : List (Effect Link)) :
    pairingTrace (history ++ [.stopped]) = ([], [], []) := by
  simp [pairingTrace, peerOpens, arrivals, streamUses, sinceStop_append]

theorem pairingTrace_open (history : List (Effect Link)) {effect : Effect Link} {verdict : PeerOpen}
    (h : (∃ id type, effect = .permittedOpen id type ∧ verdict = .permitted id type) ∨
      ∃ id, effect = .refusedOpen id ∧ verdict = .refused) :
    pairingTrace (history ++ [effect]) =
      (peerOpens history ++ [verdict], arrivals history, streamUses history) := by
  obtain ⟨id, type, rfl, rfl⟩ | ⟨id, rfl, rfl⟩ := h <;>
    simp [pairingTrace, peerOpens, arrivals, streamUses, sinceStop_append]

theorem pairingTrace_arrived (history : List (Effect Link)) (link : Link) :
    pairingTrace (history ++ [.streamArrived link]) =
      (peerOpens history, arrivals history ++ [link], streamUses history) := by
  simp [pairingTrace, peerOpens, arrivals, streamUses, sinceStop_append]

def StreamUse.effect : StreamUse Link → Effect Link
  | .spawned id link => .spawned id link
  | .discarded link => .discarded link
  | .unreceived id link => .unreceived id link

theorem pairingTrace_use (history : List (Effect Link)) (use : StreamUse Link) :
    pairingTrace (history ++ [use.effect]) =
      (peerOpens history, arrivals history, streamUses history ++ [use]) := by
  cases use <;>
    simp [StreamUse.effect, pairingTrace, peerOpens, arrivals, streamUses, sinceStop_append]

/-- Keys are derived before the stream is used. -/
theorem pairingTrace_keyed_use (history : List (Effect Link)) (id : ChannelId)
    (use : StreamUse Link) : pairingTrace (history ++ [.derived id] ++ [use.effect]) =
      (peerOpens history, arrivals history, streamUses history ++ [use]) := by
  have keyed := pairingTrace_derived history id
  simp only [pairingTrace, Prod.mk.injEq] at keyed
  rw [pairingTrace_use, keyed.1, keyed.2.1, keyed.2.2]

@[simp] theorem waitingOpens_append (p q : List PendingOpen) :
    waitingOpens (p ++ q) = waitingOpens p ++ waitingOpens q :=
  List.flatMap_append

@[simp] theorem waitingOpens_cons (first : PendingOpen) (rest : List PendingOpen) :
    waitingOpens (first :: rest) = first.opens ++ waitingOpens rest :=
  List.flatMap_cons

@[simp] theorem waitingOpens_nil : waitingOpens [] = [] := rfl

/-- A refusal owes one more stream at the back, at the ceiling as well. -/
theorem waitingOpens_oweStream (pending : List PendingOpen) :
    waitingOpens (oweStream pending) = waitingOpens pending ++ [.refused] := by
  fun_induction oweStream pending with
  | case2 owed below => simp [PendingOpen.opens, List.replicate_succ']
  | case5 first second rest ih => simp only [waitingOpens_cons, ih, List.append_assoc]
  | _ => simp [PendingOpen.opens]

theorem owing_oweStream {pending : List PendingOpen}
    (h : ∀ owed, .skip owed ∈ pending → 0 < owed) :
    ∀ owed, .skip owed ∈ oweStream pending → 0 < owed := by
  intro owed mem
  fun_induction oweStream pending with
  | case1 =>
    cases List.mem_singleton.mp mem
    exact Nat.one_pos
  | case2 =>
    cases List.mem_singleton.mp mem
    exact Nat.succ_pos _
  | case3 | case4 =>
    rcases List.mem_cons.mp mem with first | last
    · exact h owed (List.mem_singleton.mpr first)
    · cases List.mem_singleton.mp last
      exact Nat.one_pos
  | case5 first second rest ih =>
    rcases List.mem_cons.mp mem with rfl | mem
    · exact h owed List.mem_cons_self
    · exact ih (fun o ho => h o (List.mem_cons_of_mem _ ho)) mem

theorem Uses.mono {m m' : ChannelManager Link} (types : m'.streamTypes = m.streamTypes)
    (gone : m.receiving = false → m'.receiving = false) {pair : PeerOpen × Link}
    {use : StreamUse Link} (h : Uses m pair use) : Uses m' pair use := by
  obtain ⟨verdict, link⟩ := pair
  cases verdict with
  | refused => exact h
  | permitted id type =>
    rcases h with h | ⟨stream, dropped, h⟩
    · exact .inl h
    · exact .inr ⟨by rw [types]; exact stream, gone dropped, h⟩

namespace PairedByPosition
variable {m m' : ChannelManager Link}

theorem frame (h : PairedByPosition m) (trace : pairingTrace m'.history = pairingTrace m.history)
    (opens : m'.pendingOpens = m.pendingOpens) (streams : m'.pendingStreams = m.pendingStreams)
    (types : m'.streamTypes = m.streamTypes) (gone : m.receiving = false → m'.receiving = false) :
    PairedByPosition m' := by
  obtain ⟨done, paired, used⟩ := h.paired
  simp only [pairingTrace, Prod.mk.injEq] at trace
  refine ⟨⟨done, ?_, ?_⟩, by rw [opens]; exact h.owing⟩
  · rwa [trace.1, trace.2.1, opens, streams]
  · rw [trace.2.2]
    exact used.imp fun _ _ => Uses.mono types gone

/-- A verdict on a peer open joins the back of the queue. -/
theorem pushOpen (h : PairedByPosition m) (verdict : PeerOpen)
    (trace : pairingTrace m'.history =
      (peerOpens m.history ++ [verdict], arrivals m.history, streamUses m.history))
    (opens : waitingOpens m'.pendingOpens = waitingOpens m.pendingOpens ++ [verdict])
    (owing : ∀ owed, .skip owed ∈ m'.pendingOpens → 0 < owed)
    (streams : m'.pendingStreams = m.pendingStreams) (types : m'.streamTypes = m.streamTypes)
    (receiving : m'.receiving = m.receiving) : PairedByPosition m' := by
  obtain ⟨done, paired, used⟩ := h.paired
  simp only [pairingTrace, Prod.mk.injEq] at trace
  refine ⟨⟨done, ?_, ?_⟩, owing⟩
  · rw [trace.1, trace.2.1, opens, streams]
    exact paired.pushLeft verdict
  · rw [trace.2.2]
    exact used.imp fun _ _ => Uses.mono types (by rw [receiving]; exact id)

theorem pushStream (h : PairedByPosition m) {link : Link}
    (trace : pairingTrace m'.history =
      (peerOpens m.history, arrivals m.history ++ [link], streamUses m.history))
    (opens : m'.pendingOpens = m.pendingOpens)
    (streams : m'.pendingStreams = m.pendingStreams ++ [link])
    (types : m'.streamTypes = m.streamTypes) (receiving : m'.receiving = m.receiving) :
    PairedByPosition m' := by
  obtain ⟨done, paired, used⟩ := h.paired
  simp only [pairingTrace, Prod.mk.injEq] at trace
  refine ⟨⟨done, ?_, ?_⟩, by rw [opens]; exact h.owing⟩
  · rw [trace.1, trace.2.1, opens, streams]
    exact paired.pushRight link
  · rw [trace.2.2]
    exact used.imp fun _ _ => Uses.mono types (by rw [receiving]; exact id)

/-- The front open and the front stream leave their queues together. -/
theorem consume (h : PairedByPosition m) (verdict : PeerOpen) (link : Link) (use : StreamUse Link)
    (opens : waitingOpens m.pendingOpens = verdict :: waitingOpens m'.pendingOpens)
    (streams : m.pendingStreams = link :: m'.pendingStreams)
    (trace : pairingTrace m'.history =
      (peerOpens m.history, arrivals m.history, streamUses m.history ++ [use]))
    (uses : Uses m' (verdict, link) use)
    (owing : ∀ owed, .skip owed ∈ m'.pendingOpens → 0 < owed)
    (types : m'.streamTypes = m.streamTypes) (receiving : m'.receiving = m.receiving) :
    PairedByPosition m' := by
  obtain ⟨done, paired, used⟩ := h.paired
  simp only [pairingTrace, Prod.mk.injEq] at trace
  rw [opens, streams] at paired
  refine ⟨⟨done ++ [(verdict, link)], ?_, ?_⟩, owing⟩
  · rw [trace.1, trace.2.1]
    exact paired.pair
  · rw [trace.2.2]
    have kept := used.imp fun _ _ => Uses.mono types (by rw [receiving]; exact id)
    exact List.rel_append kept (.cons uses .nil)

end PairedByPosition

section Steps
variable (hmac : Hmac) {m : ChannelManager Link}

private theorem announceOpen_paired (h : PairedByPosition m) (id : ChannelId) (type : ChannelType) :
    PairedByPosition (m.announceOpen id type) := by
  obtain ⟨_, _, announced⟩ := m.announceOpen_eq id type
  rw [announced]
  exact h.frame (by simp [emit, record]) rfl rfl rfl fun gone => gone

private theorem skipped_paired (h : PairedByPosition m) {owed : Nat} {opens : List PendingOpen}
    {link : Link} {streams : List Link} (ho : m.pendingOpens = .skip owed :: opens)
    (hs : m.pendingStreams = link :: streams) :
    PairedByPosition ({ m with pendingOpens := opens, pendingStreams := streams }.pairOne hmac
      (.skip owed) link).1 := by
  have positive := h.owing owed (by rw [ho]; exact List.mem_cons_self)
  have rest : ∀ o, .skip o ∈ opens → 0 < o :=
    fun o mem => h.owing o (by rw [ho]; exact List.mem_cons_of_mem _ mem)
  simp only [pairOne]
  split
  · rename_i more
    refine h.consume .refused link (.discarded link) ?_ hs
      (pairingTrace_use m.history (.discarded link)) rfl ?_ rfl rfl
    · have step : owed = owed - 1 + 1 := by omega
      rw [ho, waitingOpens_cons, waitingOpens_cons, PendingOpen.opens, PendingOpen.opens]
      nth_rewrite 1 [step]
      rw [List.replicate_succ, List.cons_append]
      rfl
    · intro o mem
      rcases List.mem_cons.mp mem with same | mem
      · cases same; omega
      · exact rest o mem
  · rename_i last
    obtain rfl : owed = 1 := by omega
    exact h.consume .refused link (.discarded link)
      (by rw [ho, waitingOpens_cons, PendingOpen.opens]; rfl) hs
      (pairingTrace_use m.history (.discarded link)) rfl rest rfl rfl

private theorem tryPair_paired (h : PairedByPosition m) : PairedByPosition (m.tryPair hmac).1 ∧
    ((m.tryPair hmac).1.pendingOpens = [] ∨ (m.tryPair hmac).1.pendingStreams = []) := by
  refine tryPair_invariant hmac ?_ h
  intro m pending opens link streams h ho hs
  cases pending with
  | skip owed => exact skipped_paired hmac h ho hs
  | accept id type =>
    have waiting : waitingOpens m.pendingOpens = .permitted id type :: waitingOpens opens := by
      rw [ho, waitingOpens_cons]; rfl
    have rest : ∀ o, .skip o ∈ opens → 0 < o :=
      fun o mem => h.owing o (by rw [ho]; exact List.mem_cons_of_mem _ mem)
    obtain ⟨stream, dropped, paired⟩ | ⟨-, paired⟩ := { m with
      pendingOpens := opens, pendingStreams := streams }.pairAccepted_cases hmac id type link
    · simp only [pairOne, paired]
      refine h.consume (.permitted id type) link (.unreceived id link) waiting hs ?_ (.inr ⟨stream, dropped, rfl⟩)
        rest rfl rfl
      simp only [emit, record, pairingTrace_event]
      exact pairingTrace_keyed_use m.history id (.unreceived id link)
    · simp only [pairOne, paired]
      apply announceOpen_paired
      refine h.consume (.permitted id type) link (.spawned id link) waiting hs ?_ (.inl rfl) rest rfl rfl
      exact pairingTrace_keyed_use m.history id (.spawned id link)

private theorem attached_paired (h : PairedByPosition m) (ids : ChannelIdAllocator)
    (id : ChannelId) (channel : Channel) (stream : Except SessionError Link) :
    PairedByPosition ({ m with ids }.attached id channel stream) := by
  have trace : pairingTrace ({ m with ids }.attached id channel stream).history =
      pairingTrace m.history := by
    cases stream <;>
      simp only [attached, insertChannel, record, pairingTrace_derived, pairingTrace_attached]
  cases stream <;> exact h.frame trace rfl rfl rfl fun gone => gone

/-- The invariant of runs: paired by position, and at most one queue in use. -/
def PairingInvariant (m : ChannelManager Link) : Prop :=
  PairedByPosition m ∧ (m.pendingOpens = [] ∨ m.pendingStreams = [])

/-- A call that leaves both queues alone keeps them one-sided as well. -/
private theorem PairingInvariant.keep {m' : ChannelManager Link} (h : PairingInvariant m)
    (paired : PairedByPosition m') (opens : m'.pendingOpens = m.pendingOpens)
    (streams : m'.pendingStreams = m.pendingStreams) : PairingInvariant m' :=
  ⟨paired, by rw [opens, streams]; exact h.2⟩

private theorem announceOpen_queues (m : ChannelManager Link) (id : ChannelId) (type : ChannelType) :
    (m.announceOpen id type).pendingOpens = m.pendingOpens ∧
      (m.announceOpen id type).pendingStreams = m.pendingStreams := by
  obtain ⟨_, _, announced⟩ := m.announceOpen_eq id type
  rw [announced]
  exact ⟨rfl, rfl⟩

private theorem attached_queues (m : ChannelManager Link) (ids : ChannelIdAllocator)
    (id : ChannelId) (channel : Channel) (stream : Except SessionError Link) :
    ({ m with ids }.attached id channel stream).pendingOpens = m.pendingOpens ∧
      ({ m with ids }.attached id channel stream).pendingStreams = m.pendingStreams := by
  cases stream <;> exact ⟨rfl, rfl⟩

theorem step_pairing (h : PairingInvariant m) (call : ManagerCall Link) :
    PairingInvariant (m.step hmac call) := by
  cases call with
  | openChannel type stream =>
    simp only [step]
    obtain same | ⟨-, ids, ⟨-, exhausted⟩ | ⟨id, -, opened⟩⟩ := m.openChannel_cases hmac type stream
    · rw [same]; exact h
    · rw [exhausted]
      exact h.keep (h.1.frame rfl rfl rfl rfl fun gone => gone) rfl rfl
    · rw [opened]
      exact h.keep (attached_paired h.1 ..) (attached_queues ..).1 (attached_queues ..).2
  | openStreamChannel type stream =>
    simp only [step]
    obtain same | ⟨-, ids, ⟨-, exhausted⟩ | ⟨id, -, ⟨e, _, failed⟩ | ⟨link, _, opened⟩⟩⟩ :=
      m.openStreamChannel_cases hmac type stream
    · rw [same]; exact h
    · rw [exhausted]
      exact h.keep (h.1.frame rfl rfl rfl rfl fun gone => gone) rfl rfl
    · rw [failed]
      exact h.keep (attached_paired h.1 ..) (attached_queues ..).1 (attached_queues ..).2
    · rw [opened]
      exact h.keep (announceOpen_paired (attached_paired h.1 ..) ..)
        ((announceOpen_queues ..).1.trans (attached_queues ..).1)
        ((announceOpen_queues ..).2.trans (attached_queues ..).2)
  | reopenChannel id type stream =>
    simp only [step]
    have attached := attached_paired h.1 m.ids id ⟨type, .opening⟩ stream
    have queues := attached_queues m m.ids id ⟨type, .opening⟩ stream
    obtain same | ⟨-, ⟨e, _, failed⟩ | ⟨link, _, opened⟩⟩ := m.reopenChannel_cases hmac id type stream
    · rw [same]; exact h
    · rw [failed]
      exact h.keep attached queues.1 queues.2
    · rw [opened]
      exact h.keep (attached.frame rfl rfl rfl rfl fun gone => gone) queues.1 queues.2
  | handleChannelOpen id type =>
    simp only [step]
    obtain ⟨reason, refused⟩ | ⟨-, queued⟩ := m.handleChannelOpen_cases hmac id type
    · rw [refused]
      refine tryPair_paired hmac (h.1.pushOpen .refused ?_ (waitingOpens_oweStream _)
        (owing_oweStream h.1.owing) rfl rfl rfl)
      simp only [emit, record, pairingTrace_event]
      exact pairingTrace_open m.history (.inr ⟨id, rfl, rfl⟩)
    · rw [queued]
      refine tryPair_paired hmac (h.1.pushOpen (.permitted id type)
        (pairingTrace_open m.history (.inl ⟨id, type, rfl, rfl⟩)) (waitingOpens_append ..) ?_ rfl rfl rfl)
      intro owed mem
      exact h.1.owing owed (by simpa using mem)
  | onStreamAccepted link =>
    exact tryPair_paired hmac (h.1.pushStream (pairingTrace_arrived m.history link) rfl rfl rfl rfl)
  | handleChannelAccept id =>
    simp only [step]
    obtain same | ⟨ch, -, -, accepted⟩ := m.handleChannelAccept_cases id
    · rw [same]; exact h
    · rw [accepted]
      have inserted : PairedByPosition (m.insertChannel id { ch with state := .open }) :=
        h.1.frame rfl rfl rfl rfl fun gone => gone
      exact h.keep (announceOpen_paired inserted ..) (announceOpen_queues ..).1 (announceOpen_queues ..).2
  | stopAll =>
    refine ⟨⟨⟨[], ?_, ?_⟩, by simp [step, stopAll, record]⟩, .inl rfl⟩
    all_goals
      have trace := pairingTrace_stopped m.history
      simp only [pairingTrace, Prod.mk.injEq] at trace
      simp only [step, stopAll, record, trace]
    · exact .nil
    · exact .nil
  | onActorEvent event =>
    simp only [step]
    obtain ⟨-, same⟩ | ⟨-, told, -, ended⟩ := m.onActorEvent_cases event
    · rw [same]; exact h
    · obtain ⟨parked, park, -⟩ := m.parkForget_eq event.channel
      rw [ended, park]
      exact h.keep (h.1.frame (pairingTrace_event ..) rfl rfl rfl fun gone => gone) rfl rfl
  | closeChannel id | handleChannelClose id | handleChannelClosed id =>
    simp only [step, closeChannel, handleChannelClose, handleChannelClosed]
    obtain forgotten | closed := m.closeLive_cases id
    · rw [forgotten]
      exact h.keep (h.1.frame rfl rfl rfl rfl fun gone => gone) rfl rfl
    · rw [closed]
      exact h.keep (h.1.frame (pairingTrace_event ..) rfl rfl rfl fun gone => gone) rfl rfl
  | handleChannelReject id reason | handleChannelError id detail =>
    exact h.keep (h.1.frame (by simp [step, handleChannelReject, handleChannelError, dropWith,
      forgetResumable, removeChannel, emit, record]) rfl rfl rfl fun gone => gone) rfl rfl
  | confirmLinkAlive => exact h.keep (h.1.frame rfl rfl rfl rfl fun gone => gone) rfl rfl
  | receiverDropped => exact h.keep (h.1.frame rfl rfl rfl rfl fun _ => rfl) rfl rfl

end Steps

theorem new_pairing (crypto : SessionCrypto) (version : Version) (role : SessionRole)
    (negotiated : ChannelType → Bool) (limit : Nat) (streamTypes : List ChannelType) :
    PairingInvariant (.new crypto version role negotiated limit streamTypes : ChannelManager Link) :=
  ⟨⟨⟨[], .nil, .nil⟩, by simp [ChannelManager.new]⟩, .inl rfl⟩

/-- After any sequence of calls, the streams used since the last stop are the
positional pairing of the peer opens with the accepted streams, and only one of
the two queues is in use. -/
theorem open_stream_pairing (hmac : Hmac) (crypto : SessionCrypto) (version : Version)
    (role : SessionRole) (negotiated : ChannelType → Bool) (limit : Nat)
    (streamTypes : List ChannelType) (calls : List (ManagerCall Link)) :
    let m := (ChannelManager.new crypto version role negotiated limit streamTypes).run hmac calls
    List.Forall₂ (Uses m) ((peerOpens m.history).zip (arrivals m.history)) (streamUses m.history) ∧
      (m.pendingOpens = [] ∨ m.pendingStreams = []) := by
  intro m
  obtain ⟨⟨⟨done, paired, used⟩, -⟩, drained⟩ : PairingInvariant m :=
    TransitionRun.invariant (new_pairing ..) (fun _ call h => step_pairing hmac h call) calls
  refine ⟨?_, drained⟩
  have zipped := paired.eq_zip (drained.imp (by rintro h; rw [h]; rfl) fun h => h)
  rw [zipped] at used
  exact used

/-- A permitted open of a stream channel is rejected, and its own stream dropped,
when nobody receives incoming streams. -/
theorem permitted_open_unreceived :
    let m := (testManager 4 [7]).run zeroHmac
      [.receiverDropped, .handleChannelOpen 1 7, .onStreamAccepted 10]
    ¬ (StreamUse.spawned 1 10 ∈ streamUses m.history ↔
      (PeerOpen.permitted 1 7, 10) ∈ (peerOpens m.history).zip (arrivals m.history)) := by
  decide +kernel

end PeerBeam.Session
