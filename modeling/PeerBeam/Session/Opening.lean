import PeerBeam.Auth.Confirmation
import PeerBeam.Session.Capabilities
import PeerBeam.Session.Recovery
import PeerBeam.Session.SealedPipe

/-! Opening a session: the handshake over the first stream, then a sealed Hello each way. -/
namespace PeerBeam.Transfer

/-- `Display`. -/
def DomainError.display : DomainError → String
  | .transfer detail => "transfer: " ++ detail
  | .connection detail => "connection: " ++ detail
  | .integrity detail => "integrity: " ++ detail
  | .storage detail => "storage: " ++ detail
  | .cancelled => "cancelled"

end PeerBeam.Transfer

namespace PeerBeam.Auth

/-- `Display`. -/
def AuthError.display : AuthError → String
  | .encryption detail => "encryption: " ++ detail
  | .port e => e.display

/-- Who is authenticated received a Hello and the tag that goes with it. -/
theorem authenticate_ok {p : Primitives} {codec : AuthCodec} {identity : Identity p} {io : AuthIo}
    {session : Session} (h : (authenticate p codec identity io).result = .ok session) :
    ∃ (a : Endpoint p) (keys : SessionKeys) (newlyTrusted : Bool), a.identity = identity ∧
      Delivers codec io a (hmac p keys.recv a.transcript) ∧ a.keys = .ok keys ∧
      session = sessionOf p keys a.presented a.received newlyTrusted := by
  unfold authenticate at h
  dsimp only at h
  split at h
  · cases h
  · next helloSent =>
    split at h
    · cases h
    · cases h
    · next peer rest hello =>
      split at h
      · cases h
      · next keys exchanged =>
        split at h
        · cases h
        · next confirmSent =>
          split at h
          · cases h
          · cases h
          · next tag rest' confirm =>
            split at h
            · cases h
            · next accepted =>
              have equal : tag = hmac p keys.recv (transcript (identity.side io.nonce) peer) :=
                constantTimeEq_iff.mp (Bool.eq_true_of_not_eq_false accepted)
              rw [equal] at confirm
              obtain ⟨newlyTrusted, _, made⟩ := Outcome.ok_of_map h
              exact ⟨⟨identity, io.nonce, peer⟩, keys, newlyTrusted, rfl,
                ⟨rfl, helloSent, confirmSent, rest, rest', hello, confirm⟩, exchanged, made.symm⟩

end PeerBeam.Auth

namespace PeerBeam.Session
open Auth (Primitives AuthCodec AuthIo Identity authenticate)

structure OpenConfig extends SessionConfig, AnnouncedConfig where
  /-- There is no other way to make a set. -/
  built : CapabilitySet.Built capabilities

inductive OpenError where
  | session (e : SessionError)
  | versionIncompatible (local_ peer : Version)
  deriving DecidableEq

def SessionCrypto.fromSession (session : Auth.Session) (role : SessionRole) : SessionCrypto :=
  ⟨session.sendKey, session.recvKey, role, 0⟩

section Control
variable (codec : ControlCodec) (enc : EncryptionProvider)

/-- One frame, opened and decoded, with the context left behind; `none` is a link that closed. -/
def recvSessionFrame (crypto : ChannelCrypto) (read : LinkRead) :
    Except SessionError (Option (SessionFrame × ChannelCrypto)) :=
  match read with
  | .error e => .error e
  | .ok none => .ok none
  | .ok (some payload) =>
    match crypto.openFrame enc payload with
    | (.error e, _) => .error e
    | (.ok plain, crypto) =>
      match SessionFrame.decode plain with
      | .error e => .error e
      | .ok frame => .ok (some (frame, crypto))

/-- The peer's opening Hello; anything else is refused. -/
def recvHello (crypto : ChannelCrypto) (read : LinkRead) : Except SessionError (SessionHello × ChannelCrypto) :=
  match recvSessionFrame enc crypto read with
  | .error e => .error e
  | .ok none => .error (.link "link closed during negotiation")
  | .ok (some (frame, crypto)) =>
    match ControlMessage.fromFrame codec frame with
    | .error e => .error e
    | .ok (.hello hello) => .ok (hello, crypto)
    | .ok other =>
      let got := codec.debug other
      .error (.unexpectedMessage .negotiating s!"expected Hello, got {got}")

variable {codec enc} {c c' : ChannelCrypto}

theorem recvHello_ok_iff {read : LinkRead} {hello : SessionHello} :
    recvHello codec enc c read = .ok (hello, c') ↔ ∃ payload plain frame, read = .ok (some payload) ∧
      c.openFrame enc payload = (.ok plain, c') ∧ SessionFrame.decode plain = .ok frame ∧
      ControlMessage.fromFrame codec frame = .ok (.hello hello) := by
  constructor
  · intro h
    unfold recvHello recvSessionFrame at h
    split at h
    · cases h
    · cases h
    · next frame crypto received =>
      split at h
      · cases h
      · next peerHello isHello =>
        cases h
        split at received
        · cases received
        · cases received
        · next payload =>
          split at received
          · cases received
          · next plain _ opened =>
            split at received
            · cases received
            · next decoded =>
              cases received
              exact ⟨payload, plain, frame, rfl, opened, decoded, isHello⟩
      · cases h
  · intro h
    obtain ⟨payload, plain, frame, rfl, opened, decoded, isHello⟩ := h
    simp only [recvHello, recvSessionFrame, opened, decoded, isHello]

theorem sendControl_ok_iff {message : ControlMessage} {sent : Except SessionError Unit} :
    sendControl codec enc c message sent = .ok c' ↔ ∃ frame payload next, message.toFrame codec = .ok frame ∧
      c.sealFrame enc frame.encode = .ok payload ∧ sent = .ok () ∧ checkedAdd c.sendCtr 1 = some next ∧
      c' = { c with sendCtr := next } := by
  constructor
  · intro h
    obtain ⟨frame, framed, h⟩ := Outcome.ok_of_bind h
    obtain ⟨payload, sealed, h⟩ := Outcome.ok_of_bind h
    obtain ⟨_, went, h⟩ := Outcome.ok_of_bind h
    unfold ChannelCrypto.advanceSend at h
    split at h
    · next next room =>
      exact ⟨frame, payload, next, framed, sealed, went, room, (Except.ok.inj h).symm⟩
    · cases h
  · intro h
    obtain ⟨frame, payload, next, framed, sealed, rfl, room, rfl⟩ := h
    simp only [sendControl, framed, sealed, bind, Except.bind, ChannelCrypto.advanceSend, room]

end Control

/-- One call of `open`: who calls, as what, and what the outside gives to it. -/
structure Opening (p : Primitives) where
  role : SessionRole
  identity : Identity p
  config : OpenConfig
  /-- The first stream, opened or accepted; a transport that is closed has none left to accept. -/
  stream : Except SessionError (Option Unit)
  /-- The handshake ended before its timeout. -/
  inTime : Bool
  auth : AuthIo
  drawn : SessionId
  /-- Sending the own Hello. -/
  sent : Except SessionError Unit
  read : LinkRead

structure Opened (Link : Type) extends PeerSession Link where
  capabilities : CapabilitySet
  newlyTrusted : Bool
  peerName : String
  pairingCode : String
  transcript : Bytes

namespace Opening
variable {p : Primitives} (authCodec : AuthCodec) (codec : ControlCodec) (enc : EncryptionProvider) (o : Opening p)

def controlStream : Except SessionError Unit :=
  match o.role, o.stream with
  | _, .error e => .error e
  | .initiator, .ok _ => .ok ()
  | .responder, .ok (some ()) => .ok ()
  | .responder, .ok none => .error (.link "transport closed before control stream")

def authenticated : Except SessionError Auth.Session :=
  match o.controlStream with
  | .error e => .error e
  | .ok () =>
    if o.inTime = false then .error (.link "the peer did not complete the handshake in time")
    else
      match (authenticate p authCodec o.identity o.auth).result with
      | .error e => .error (.link e.display)
      | .ok session => .ok session

def crypto : Except SessionError SessionCrypto :=
  (o.authenticated authCodec).map (SessionCrypto.fromSession · o.role)

/-- Both Hellos, in the order of the role: the id, the peer's Hello and the control context left behind.
The initiator names the session, whatever the answer says. -/
def exchangeHello (control : ChannelCrypto) : Except SessionError (SessionId × SessionHello × ChannelCrypto) :=
  match o.role with
  | .initiator => do
    let control ← sendControl codec enc control (.hello (o.config.hello o.drawn)) o.sent
    let (peerHello, control) ← recvHello codec enc control o.read
    pure (o.drawn, peerHello, control)
  | .responder => do
    let (peerHello, control) ← recvHello codec enc control o.read
    let control ← sendControl codec enc control (.hello (o.config.hello peerHello.sessionId)) o.sent
    pure (peerHello.sessionId, peerHello, control)

def sessionId (peerHello : SessionHello) : SessionId :=
  match o.role with
  | .initiator => o.drawn
  | .responder => peerHello.sessionId

/-- The Hello this side seals: an initiator at once, a responder when it has read one. -/
def announced (control : ChannelCrypto) : Except SessionError SessionHello :=
  match o.role with
  | .initiator => .ok (o.config.hello o.drawn)
  | .responder => do
    let (peerHello, _) ← recvHello codec enc control o.read
    pure (o.config.hello peerHello.sessionId)

/-- The end of a handshake that this opening is at, with the keys it comes to. -/
structure At (a : Auth.Endpoint p) (keys : Auth.SessionKeys) : Prop where
  identity : a.identity = o.identity
  delivers : Auth.Delivers authCodec o.auth a (Auth.hmac p keys.recv a.transcript)
  keys : a.keys = .ok keys

end Opening

def PeerSession.open {p : Primitives} {Link : Type} (authCodec : AuthCodec) (codec : ControlCodec)
    (enc : EncryptionProvider) (o : Opening p) : Except OpenError (Opened Link) := do
  let auth ← (o.authenticated authCodec).mapError .session
  let crypto := SessionCrypto.fromSession auth o.role
  let control ← (crypto.control p.hmacSha256).mapError .session
  let (id, peerHello, control) ← (o.exchangeHello codec enc control).mapError .session
  let (version, capabilities) ← (o.config.negotiate peerHello).mapError fun (local_, peer) =>
    .versionIncompatible local_ peer
  pure
    { toPeerSession := .assemble o.role id o.identity.deviceId auth.peerId version capabilities.supports
        crypto control o.config.toSessionConfig 0
      capabilities
      newlyTrusted := auth.newlyTrusted
      peerName := auth.peerName
      pairingCode := auth.pairingCode
      transcript := auth.transcript }

namespace Opening
variable {p : Primitives} {Link : Type} {authCodec : AuthCodec} {codec : ControlCodec} {enc : EncryptionProvider}
  {o : Opening p} {control control' : ChannelCrypto} {peerHello : SessionHello}

theorem authenticated_ok {session : Auth.Session} (h : o.authenticated authCodec = .ok session) :
    ∃ a keys newlyTrusted, o.At authCodec a keys ∧
      session = Auth.sessionOf p keys a.presented a.received newlyTrusted := by
  unfold authenticated at h
  split at h
  · cases h
  · split at h
    · cases h
    · split at h
      · cases h
      · next made =>
        cases h
        obtain ⟨a, keys, newlyTrusted, identity, delivers, exchanged, rfl⟩ := Auth.authenticate_ok made
        exact ⟨a, keys, newlyTrusted, ⟨identity, delivers, exchanged⟩, rfl⟩

/-- The masters are digests of the end's keys and of what it saw. -/
theorem crypto_ok {c : SessionCrypto} (h : o.crypto authCodec = .ok c) :
    ∃ a keys, o.At authCodec a keys ∧ c.masterSend = Auth.kdf p keys.send.toList a.transcript ∧
      c.masterRecv = Auth.kdf p keys.recv.toList a.transcript ∧ c.role = o.role ∧ c.epoch = 0 := by
  obtain ⟨session, authenticated, rfl⟩ := Outcome.ok_of_map h
  obtain ⟨a, keys, _, isAt, rfl⟩ := authenticated_ok authenticated
  exact ⟨a, keys, isAt, rfl, rfl, rfl, rfl⟩

/-- An opening is at one end only. -/
theorem At.unique {a a' : Auth.Endpoint p} {keys keys' : Auth.SessionKeys} (h : o.At authCodec a keys)
    (h' : o.At authCodec a' keys') : a = a' := by
  obtain ⟨_, _, hello, _⟩ := h.delivers.received
  obtain ⟨_, _, hello', _⟩ := h'.delivers.received
  rw [hello] at hello'
  have received : a.received = a'.received := by
    injection hello' with message
    injection message with message
    injection message
  have identity : a.identity = a'.identity := h.identity.trans h'.identity.symm
  have nonce : a.nonce = a'.nonce := h.delivers.nonce.symm.trans h'.delivers.nonce
  cases a
  cases a'
  cases identity
  cases nonce
  cases received
  rfl

/-- Reading moves the receiving half only, and minds no other. -/
theorem recvHello_counters (h : recvHello codec enc control o.read = .ok (peerHello, control')) :
    ∃ next, checkedAdd control.recvCtr 1 = some next ∧ control' = { control with recvCtr := next } := by
  obtain ⟨payload, plain, frame, _, opened, _⟩ := recvHello_ok_iff.mp h
  obtain ⟨_, _, _, _, next, room, rfl⟩ := openFrame_ok_iff.mp opened
  exact ⟨next, room, rfl⟩

theorem recvHello_advanced {sendCtr : UInt64}
    (h : recvHello codec enc { control with sendCtr } o.read = .ok (peerHello, control')) :
    recvHello codec enc control o.read = .ok (peerHello, { control' with sendCtr := control.sendCtr }) := by
  obtain ⟨payload, plain, frame, read, opened, decoded, isHello⟩ := recvHello_ok_iff.mp h
  obtain ⟨long, head, counter, authentic, next, room, rfl⟩ := openFrame_ok_iff.mp opened
  exact recvHello_ok_iff.mpr ⟨payload, plain, frame, read,
    openFrame_ok_iff.mpr ⟨long, head, counter, authentic, next, room, rfl⟩, decoded, isHello⟩

/-- Either role has read one Hello and sealed one. -/
theorem exchangeHello_ok {id : SessionId}
    (h : o.exchangeHello codec enc control = .ok (id, peerHello, control')) :
    ∃ sent received, checkedAdd control.sendCtr 1 = some sent ∧ checkedAdd control.recvCtr 1 = some received ∧
      control' = { control with sendCtr := sent, recvCtr := received } ∧
      recvHello codec enc control o.read = .ok (peerHello, { control with recvCtr := received }) ∧
      o.announced codec enc control = .ok (o.config.hello id) ∧ id = o.sessionId peerHello := by
  unfold exchangeHello at h
  split at h
  · next role =>
    obtain ⟨_, sends, h⟩ := Outcome.ok_of_bind h
    obtain ⟨⟨hello, _⟩, reads, h⟩ := Outcome.ok_of_bind h
    obtain ⟨_, _, sent, _, _, _, room, rfl⟩ := sendControl_ok_iff.mp sends
    obtain ⟨received, room', rfl⟩ := recvHello_counters reads
    cases h
    refine ⟨sent, received, room, room', rfl, recvHello_advanced reads, ?_, ?_⟩
    · rw [announced, role]
    · rw [sessionId, role]
  · next role =>
    obtain ⟨⟨hello, _⟩, reads, h⟩ := Outcome.ok_of_bind h
    obtain ⟨_, sends, h⟩ := Outcome.ok_of_bind h
    obtain ⟨received, room', rfl⟩ := recvHello_counters reads
    obtain ⟨_, _, sent, _, _, _, room, rfl⟩ := sendControl_ok_iff.mp sends
    cases h
    refine ⟨sent, received, room, room', rfl, reads, ?_, ?_⟩
    · rw [announced, role]
      dsimp only
      rw [reads]
      rfl
    · rw [sessionId, role]

/-- What `open` has made of the end it is at, of the derived control context and of the peer's Hello. -/
structure Made (authCodec : AuthCodec) (codec : ControlCodec) (enc : EncryptionProvider) (o : Opening p)
    (opened : Opened Link) (a : Auth.Endpoint p) (keys : Auth.SessionKeys) (control : ChannelCrypto)
    (peerHello : SessionHello) : Prop where
  «at» : o.At authCodec a keys
  crypto : o.crypto authCodec = .ok opened.manager.crypto
  derived : opened.manager.crypto.control p.hmacSha256 = .ok control
  read : recvHello codec enc control o.read = .ok (peerHello, { control with recvCtr := 1 })
  sealed : o.announced codec enc control = .ok (o.config.hello opened.id)
  advanced : opened.controlCrypto = { control with sendCtr := 1, recvCtr := 1 }
  negotiated : o.config.negotiate peerHello = .ok (opened.version, opened.capabilities)
  id : opened.id = o.sessionId peerHello
  role : opened.role = o.role
  «local» : opened.local = o.identity.deviceId
  peer : opened.peer = a.received.deviceId
  peerName : opened.peerName = a.received.name
  pairingCode : opened.pairingCode = Auth.pairingCode p a.presented.pubkey a.received.pubkey
  transcript : opened.transcript = a.transcript

/-- A derived context has sealed and opened nothing. -/
theorem control_fresh {crypto : SessionCrypto} (h : crypto.control p.hmacSha256 = .ok control) :
    control.sendCtr = 0 ∧ control.recvCtr = 0 := by
  obtain ⟨_, _, _, _, derived⟩ := crypto.derive_ok p.hmacSha256 controlChannel controlVersion
  rw [SessionCrypto.control, derived] at h
  cases h
  exact ⟨rfl, rfl⟩

theorem open_ok {opened : Opened Link} (h : PeerSession.open authCodec codec enc o = .ok opened) :
    ∃ a keys control peerHello, o.Made authCodec codec enc opened a keys control peerHello := by
  obtain ⟨session, authenticated, h⟩ := Outcome.ok_of_bind h
  obtain ⟨control, derived, h⟩ := Outcome.ok_of_bind h
  obtain ⟨⟨id, peerHello, control'⟩, exchanged, h⟩ := Outcome.ok_of_bind h
  obtain ⟨⟨version, capabilities⟩, negotiated, h⟩ := Outcome.ok_of_bind h
  have authenticated := Outcome.ok_of_mapError authenticated
  have derived := Outcome.ok_of_mapError derived
  obtain ⟨sendZero, recvZero⟩ := control_fresh derived
  obtain ⟨a, keys, newlyTrusted, isAt, rfl⟩ := authenticated_ok authenticated
  obtain ⟨sent, received, room, room', rfl, read, sealed, named⟩ :=
    exchangeHello_ok (Outcome.ok_of_mapError exchanged)
  rw [sendZero] at room
  rw [recvZero] at room'
  cases room
  cases room'
  cases h
  refine ⟨a, keys, control, peerHello, isAt, ?_, derived, read, sealed, rfl, Outcome.ok_of_mapError negotiated,
    named, rfl, rfl, rfl, rfl, rfl, rfl⟩
  rw [crypto, authenticated]
  rfl

end Opening

end PeerBeam.Session
