import PeerBeam.Session.ChannelManager

/-! What the manager's calls can do, stated once for the results about runs. -/
namespace PeerBeam.Session.ChannelManager
variable {Link : Type}

theorem derive_eq (hmac : Hmac) (m : ChannelManager Link) (id : ChannelId) :
    ∃ c, m.derive hmac id = (.ok c, m.record (.derived id)) := by
  obtain ⟨_, _, _, _, h⟩ := m.crypto.derive_ok hmac id m.version
  exact ⟨_, by rw [derive, h]⟩

/-- The manager left by a local open of `id`: keys are derived before the stream
is asked for, and the channel is registered only if there is one. -/
def attached (m : ChannelManager Link) (id : ChannelId) (channel : Channel) :
    Except SessionError Link → ChannelManager Link
  | .error _ => m.record (.derived id)
  | .ok link => ((m.record (.derived id)).record (.attached id link)).insertChannel id channel

theorem attach_eq (hmac : Hmac) (m : ChannelManager Link) (id : ChannelId) (channel : Channel)
    (stream : Except SessionError Link) :
    m.attach hmac id channel stream = (stream, m.attached id channel stream) := by
  obtain ⟨c, h⟩ := m.derive_eq hmac id
  cases stream <;> simp only [attach, h, attached]

theorem openChannel_cases (hmac : Hmac) (m : ChannelManager Link) (type : ChannelType)
    (stream : Except SessionError Link) :
    (m.openChannel hmac type stream).2 = m ∨
    m.permit type = .ok () ∧ ∃ ids,
      (m.ids.allocate m.inUse = (none, ids) ∧ (m.openChannel hmac type stream).2 = { m with ids }) ∨
      ∃ id, m.ids.allocate m.inUse = (some id, ids) ∧
        (m.openChannel hmac type stream).2 = { m with ids }.attached id ⟨type, .opening⟩ stream := by
  unfold openChannel
  cases hp : m.permit type with
  | error reason => exact .inl rfl
  | ok _ =>
    refine .inr ⟨rfl, ?_⟩
    rcases ha : m.ids.allocate m.inUse with ⟨_ | id, ids⟩
    · exact ⟨ids, .inl ⟨rfl, by simp only [allocateId, ha]⟩⟩
    · refine ⟨ids, .inr ⟨id, rfl, ?_⟩⟩
      simp only [allocateId, ha, attach_eq]
      cases stream <;> rfl

theorem openStreamChannel_cases (hmac : Hmac) (m : ChannelManager Link) (type : ChannelType)
    (stream : Except SessionError Link) :
    (m.openStreamChannel hmac type stream).2 = m ∨
    m.permit type = .ok () ∧ ∃ ids,
      (m.ids.allocate m.inUse = (none, ids) ∧
        (m.openStreamChannel hmac type stream).2 = { m with ids }) ∨
      ∃ id, m.ids.allocate m.inUse = (some id, ids) ∧
        ((∃ e, stream = .error e ∧
          (m.openStreamChannel hmac type stream).2 = { m with ids }.attached id ⟨type, .open⟩ stream) ∨
        ∃ link, stream = .ok link ∧ (m.openStreamChannel hmac type stream).2 =
          ({ m with ids }.attached id ⟨type, .open⟩ stream).announceOpen id type) := by
  unfold openStreamChannel
  cases hp : m.permit type with
  | error reason => exact .inl rfl
  | ok _ =>
    refine .inr ⟨rfl, ?_⟩
    rcases ha : m.ids.allocate m.inUse with ⟨_ | id, ids⟩
    · exact ⟨ids, .inl ⟨rfl, by simp only [allocateId, ha]⟩⟩
    · refine ⟨ids, .inr ⟨id, rfl, ?_⟩⟩
      simp only [allocateId, ha, attach_eq]
      cases stream with
      | error e => exact .inl ⟨e, rfl, rfl⟩
      | ok link => exact .inr ⟨link, rfl, rfl⟩

theorem reopenChannel_cases (hmac : Hmac) (m : ChannelManager Link) (id : ChannelId)
    (type : ChannelType) (stream : Except SessionError Link) :
    (m.reopenChannel hmac id type stream).2 = m ∨
    m.permit type = .ok () ∧
      ((∃ e, stream = .error e ∧
        (m.reopenChannel hmac id type stream).2 = m.attached id ⟨type, .opening⟩ stream) ∨
      ∃ link, stream = .ok link ∧ (m.reopenChannel hmac id type stream).2 =
        { m.attached id ⟨type, .opening⟩ stream with ids := m.ids.reserve id }) := by
  unfold reopenChannel
  cases hp : m.permit type with
  | error reason => exact .inl rfl
  | ok _ =>
    refine .inr ⟨rfl, ?_⟩
    simp only [attach_eq]
    cases stream with
    | error e => exact .inl ⟨e, rfl, rfl⟩
    | ok link => exact .inr ⟨link, rfl, rfl⟩

/-- A permitted open that got its stream: reserved, derived, then bound to its
channel unless it is a stream channel nobody receives. -/
theorem pairAccepted_cases (hmac : Hmac) (m : ChannelManager Link) (id : ChannelId)
    (type : ChannelType) (link : Link) :
    let keyed := { m with ids := m.ids.reserve id }.record (.derived id)
    (m.streamTypes.contains type = true ∧ m.receiving = false ∧
      (m.pairAccepted hmac id type link).1 =
        (keyed.record (.unreceived id link)).emit (.rejected id "no stream receiver")) ∨
    (m.streamTypes.contains type = false ∨ m.receiving = true) ∧
      (m.pairAccepted hmac id type link).1 =
        ((keyed.record (.spawned id link)).insertChannel id ⟨type, .open⟩).announceOpen id type := by
  intro keyed
  obtain ⟨c, h⟩ := { m with ids := m.ids.reserve id }.derive_eq hmac id
  have split_at : (m.pairAccepted hmac id type link).1 =
      if (m.streamTypes.contains type && !m.receiving) = true then
        (keyed.record (.unreceived id link)).emit (.rejected id "no stream receiver")
      else ((keyed.record (.spawned id link)).insertChannel id ⟨type, .open⟩).announceOpen id type := by
    simp only [pairAccepted, h]
    exact apply_ite Prod.fst ..
  rw [split_at]
  by_cases unreceived : m.streamTypes.contains type = true ∧ m.receiving = false
  · exact .inl ⟨unreceived.1, unreceived.2, if_pos (by rw [unreceived.1, unreceived.2]; rfl)⟩
  · have kept : m.streamTypes.contains type = false ∨ m.receiving = true := by
      simpa only [not_and_or, Bool.not_eq_true, Bool.not_eq_false] using unreceived
    refine .inr ⟨kept, if_neg ?_⟩
    rcases kept with kept | kept <;> simp only [kept, Bool.false_and, Bool.not_true, Bool.and_false, Bool.false_eq_true, not_false_eq_true]

/-- Eviction touches the resume record and nothing else. -/
theorem evict_eq (n : Nat) (m : ChannelManager Link) :
    ∃ resumable pendingForget, m.evict n = { m with resumable, pendingForget } := by
  induction n generalizing m with
  | zero => exact ⟨_, _, rfl⟩
  | succ n ih =>
    unfold evict
    repeat' split
    case h_2 oldest _ =>
      obtain ⟨r, p, h⟩ := ih (m.forgetResumable oldest)
      exact ⟨r, p, h⟩
    all_goals exact ⟨_, _, rfl⟩

theorem announceOpen_eq (m : ChannelManager Link) (channel : ChannelId) (type : ChannelType) :
    ∃ resumable pendingForget, m.announceOpen channel type =
      { m with resumable, pendingForget }.emit (.opened channel type) := by
  obtain ⟨r, p, h⟩ := evict_eq m.resumable.size m
  exact ⟨_, p, by rw [announceOpen, h]⟩

theorem pairOne_pendingStreams (hmac : Hmac) (m : ChannelManager Link) (pending : PendingOpen)
    (link : Link) : (m.pairOne hmac pending link).1.pendingStreams = m.pendingStreams := by
  cases pending with
  | skip owed => simp only [pairOne, record]; split <;> rfl
  | accept id type =>
    obtain ⟨-, -, h⟩ | ⟨-, h⟩ := m.pairAccepted_cases hmac id type link
    · simp [pairOne, h, emit, record]
    · obtain ⟨_, _, announced⟩ := announceOpen_eq _ id type
      rw [pairOne, h, announced]
      rfl

/-- What every round of `try_pair` preserves holds after it, when at most one of
the two queues is left. -/
theorem tryPair_invariant (hmac : Hmac) {I : ChannelManager Link → Prop}
    (round : ∀ m pending opens link streams, I m → m.pendingOpens = pending :: opens →
      m.pendingStreams = link :: streams →
      I ({ m with pendingOpens := opens, pendingStreams := streams }.pairOne hmac pending link).1)
    {m : ChannelManager Link} (h : I m) :
    I (m.tryPair hmac).1 ∧
      ((m.tryPair hmac).1.pendingOpens = [] ∨ (m.tryPair hmac).1.pendingStreams = []) := by
  unfold tryPair
  generalize hs : m.pendingStreams = streams
  induction streams generalizing m with
  | nil => exact ⟨h, .inr hs⟩
  | cons link streams ih =>
    cases ho : m.pendingOpens with
    | nil =>
      simp only [tryPairLoop, ho, true_or, and_true]
      exact h
    | cons pending opens =>
      simp only [tryPairLoop, ho]
      exact ih (round m pending opens link streams h ho hs) (pairOne_pendingStreams ..)

/-- A peer open is refused, or passes every check and is queued for its stream. -/
theorem handleChannelOpen_cases (hmac : Hmac) (m : ChannelManager Link) (id : ChannelId)
    (type : ChannelType) :
    (∃ reason, m.handleChannelOpen hmac id type = m.refuse hmac id reason) ∨
    (id ≠ controlChannel ∧ m.permit type = .ok () ∧ m.inUse id = false) ∧
      m.handleChannelOpen hmac id type =
        { m.record (.permittedOpen id type) with
          pendingOpens := m.pendingOpens ++ [PendingOpen.accept id type] }.tryPair hmac := by
  unfold handleChannelOpen
  split
  · exact .inl ⟨_, rfl⟩
  · rename_i data
    cases hp : m.permit type with
    | error reason => exact .inl ⟨reason, rfl⟩
    | ok _ =>
      cases hu : m.inUse id with
      | true => exact .inl ⟨_, rfl⟩
      | false => exact .inr ⟨⟨data, rfl, rfl⟩, rfl⟩

/-- Only a channel that waits for its answer is opened by one. -/
theorem handleChannelAccept_cases (m : ChannelManager Link) (id : ChannelId) :
    m.handleChannelAccept id = m ∨
    ∃ ch, m.channels[id]? = some ch ∧ ch.state = .opening ∧ m.handleChannelAccept id =
      (m.insertChannel id { ch with state := .open }).announceOpen id ch.channelType := by
  unfold handleChannelAccept
  cases hc : m.channels[id]? with
  | none => exact .inl rfl
  | some ch =>
    by_cases waiting : ch.state = .opening
    · exact .inr ⟨ch, rfl, waiting, if_pos waiting⟩
    · exact .inl (if_neg waiting)

/-- Parking keeps what was parked. -/
theorem parkForget_eq (m : ChannelManager Link) (id : ChannelId) :
    ∃ parked, m.parkForget id = { m with pendingForget := parked } ∧
      id ∈ parked ∧ m.pendingForget ⊆ parked := by
  unfold parkForget
  split
  · rename_i already
    exact ⟨m.pendingForget, rfl, by simpa using already, fun _ mem => mem⟩
  · exact ⟨_, rfl, by simp, List.subset_append_left ..⟩

theorem parkForget_removeChannel (m : ChannelManager Link) (id : ChannelId) :
    (m.removeChannel id).parkForget id = (m.parkForget id).removeChannel id := by
  by_cases already : m.pendingForget.contains id = true
  · rw [show m.parkForget id = m from if_pos already]
    exact if_pos already
  · rw [show m.parkForget id = { m with pendingForget := m.pendingForget ++ [id] } from if_neg already]
    exact if_neg already

/-- The end of an actor counts only while its channel is registered. -/
theorem onActorEvent_cases (m : ChannelManager Link) (event : ActorEvent) :
    m.channels.contains event.channel = false ∧ (m.onActorEvent event).1 = m ∨
    m.channels.contains event.channel = true ∧ ∃ told,
      (told = .closed event.channel ∨ ∃ detail, told = .error event.channel detail) ∧
      (m.onActorEvent event).1 =
        ((m.parkForget event.channel).removeChannel event.channel).emit told := by
  have ended (id : ChannelId) (told : ChannelEvent) (live : m.channels.contains id = true) :
      (m.actorEnded id told).1 = ((m.parkForget id).removeChannel id).emit told := by
    rw [actorEnded, if_pos live, parkForget_removeChannel]
  have stays (id : ChannelId) (told : ChannelEvent) (dead : m.channels.contains id = false) :
      (m.actorEnded id told).1 = m := by
    rw [actorEnded, if_neg (by simp [dead])]
  cases live : m.channels.contains event.channel with
  | false =>
    refine .inl ⟨rfl, ?_⟩
    cases event with
    | closed id => exact stays id _ live
    | errored id detail => exact stays id _ live
  | true =>
    refine .inr ⟨rfl, ?_⟩
    cases event with
    | closed id => exact ⟨.closed id, .inl rfl, ended id _ live⟩
    | errored id detail => exact ⟨.error id detail, .inr ⟨detail, rfl⟩, ended id _ live⟩

/-- A close forgets the channel, and ends it if it is registered. -/
theorem closeLive_cases (m : ChannelManager Link) (id : ChannelId) :
    (m.closeLive id).1 = m.forgetResumable id ∨
    (m.closeLive id).1 = ((m.forgetResumable id).removeChannel id).emit (.closed id) := by
  unfold closeLive
  by_cases live : (m.forgetResumable id).channels.contains id = true
  · exact .inr (by simp only [if_pos live])
  · exact .inl (by simp only [if_neg live])

@[simp] theorem attached_crypto (m : ChannelManager Link) (id : ChannelId) (channel : Channel)
    (stream : Except SessionError Link) : (m.attached id channel stream).crypto = m.crypto := by
  cases stream <;> rfl

@[simp] theorem announceOpen_crypto (m : ChannelManager Link) (id : ChannelId)
    (type : ChannelType) : (m.announceOpen id type).crypto = m.crypto := by
  obtain ⟨_, _, h⟩ := m.announceOpen_eq id type
  rw [h]
  rfl

theorem tryPair_crypto (hmac : Hmac) (m : ChannelManager Link) :
    (m.tryPair hmac).1.crypto = m.crypto := by
  refine (tryPair_invariant (I := fun m' => m'.crypto = m.crypto) hmac ?_ rfl).1
  intro m' pending opens link streams same _ _
  rw [← same]
  cases pending with
  | skip owed => simp only [pairOne, record]; split <;> rfl
  | accept id type =>
    obtain ⟨-, -, h⟩ | ⟨-, h⟩ := pairAccepted_cases hmac
      { m' with pendingOpens := opens, pendingStreams := streams } id type link
    · rw [pairOne, h]; rfl
    · rw [pairOne, h, announceOpen_crypto]; rfl

theorem reopenChannel_crypto (hmac : Hmac) (m : ChannelManager Link) (id : ChannelId)
    (type : ChannelType) (stream : Except SessionError Link) :
    (m.reopenChannel hmac id type stream).2.crypto = m.crypto := by
  obtain same | ⟨-, ⟨_, _, failed⟩ | ⟨_, _, opened⟩⟩ := m.reopenChannel_cases hmac id type stream
  · rw [same]
  · rw [failed, attached_crypto]
  · rw [opened]; exact attached_crypto ..

theorem step_crypto (hmac : Hmac) (m : ChannelManager Link) (call : ManagerCall Link) :
    (m.step hmac call).crypto = m.crypto := by
  cases call with
  | openChannel type stream =>
    simp only [step]
    obtain same | ⟨-, ids, ⟨-, exhausted⟩ | ⟨id, -, opened⟩⟩ := m.openChannel_cases hmac type stream
    · rw [same]
    · rw [exhausted]
    · rw [opened, attached_crypto]
  | openStreamChannel type stream =>
    simp only [step]
    obtain same | ⟨-, ids, ⟨-, exhausted⟩ | ⟨id, -, ⟨_, _, failed⟩ | ⟨_, _, opened⟩⟩⟩ :=
      m.openStreamChannel_cases hmac type stream
    · rw [same]
    · rw [exhausted]
    · rw [failed, attached_crypto]
    · rw [opened, announceOpen_crypto, attached_crypto]
  | reopenChannel id type stream => exact m.reopenChannel_crypto hmac id type stream
  | handleChannelOpen id type =>
    simp only [step]
    obtain ⟨reason, refused⟩ | ⟨-, queued⟩ := m.handleChannelOpen_cases hmac id type
    · rw [refused]; exact tryPair_crypto ..
    · rw [queued]; exact tryPair_crypto ..
  | onStreamAccepted link => exact tryPair_crypto ..
  | handleChannelAccept id =>
    simp only [step]
    obtain same | ⟨_, _, -, accepted⟩ := m.handleChannelAccept_cases id
    · rw [same]
    · rw [accepted, announceOpen_crypto]; rfl
  | onActorEvent event =>
    simp only [step]
    obtain ⟨-, same⟩ | ⟨-, told, -, ended⟩ := m.onActorEvent_cases event
    · rw [same]
    · obtain ⟨parked, park, -⟩ := m.parkForget_eq event.channel
      rw [ended, park]
      rfl
  | closeChannel id | handleChannelClose id | handleChannelClosed id =>
    simp only [step, closeChannel, handleChannelClose, handleChannelClosed]
    obtain forgotten | closed := m.closeLive_cases id
    · rw [forgotten]; rfl
    · rw [closed]; rfl
  | _ => rfl

end PeerBeam.Session.ChannelManager

namespace PeerBeam.Session

def zeroHmac : Hmac := fun _ _ => Vector.replicate 32 0
def zeroCrypto : SessionCrypto := ⟨Vector.replicate 32 0, Vector.replicate 32 0, .responder, 0⟩

/-- The manager the source's tests drive: a responder over zero masters. -/
def testManager (limit : Nat) (streamTypes : List ChannelType) : ChannelManager Nat :=
  .new zeroCrypto ⟨1, 0⟩ .responder (fun _ => true) limit streamTypes

/-- The bytes of `[true,""]`, the body of an accepting acknowledgement. -/
def acceptBody : Bytes := [91, 116, 114, 117, 101, 44, 34, 34, 93]

/-- `serde_json` on that body; every other body is refused here. -/
def testCodec : ControlCodec where
  encode _ := .error "unused"
  decodeHello _ := .error "expected value"
  decodeU64 _ := .error "expected value"
  decodeU16 _ := .error "expected value"
  decodeString _ := .error "expected value"
  decodeToken _ := .error "expected value"
  decodeAck body := if body = acceptBody then .ok (true, "") else .error "expected value"
  decodeOpen _ := .error "expected value"
  decodeChannelText _ := .error "expected value"
  debug _ := ""

def testEnc : EncryptionProvider := aeadCrypto ⟨fun _ _ plain => some plain, fun _ _ c => some c⟩

end PeerBeam.Session
