import PeerBeam.Session.Opening

/-! Any number of openings over a network that anyone can write to: one that succeeds has one other end. -/
namespace PeerBeam.Auth

theorem pairingCode_comm (p : Primitives) {x y : PublicKey} (apart : x ≠ y) :
    pairingCode p x y = pairingCode p y x := by
  unfold pairingCode
  have lists : x.toList ≠ y.toList := fun same => apart (Vector.toList_inj.mp same)
  by_cases le : x.toList ≤ y.toList
  · have strict : ¬ y.toList ≤ x.toList := fun ge => lists (List.le_antisymm le ge)
    rw [if_pos le, if_neg strict]
  · have ge : y.toList ≤ x.toList := List.le_of_lt (List.not_le.mp le)
    rw [if_neg le, if_pos ge]

theorem Endpoint.Agree.symm {p : Primitives} {a r : Endpoint p} (agree : a.Agree r) : r.Agree a :=
  ⟨agree.back.symm, agree.there.symm, fun same => agree.apart (by rw [agree.there, agree.back, same])⟩

end PeerBeam.Auth

namespace PeerBeam.Session
open Auth (Primitives AuthCodec SessionKeys kdf)
variable {p : Primitives} {ι Link : Type} {authCodec : AuthCodec} {codec : ControlCodec}

def Opening.Meets (authCodec : AuthCodec) (o o' : Opening p) : Prop :=
  ∃ a r keysA keysR, o.At authCodec a keysA ∧ o'.At authCodec r keysR ∧ a.Agree r

structure ChannelCrypto.Sends (c c' : ChannelCrypto) : Prop where
  key : c.sendKey = c'.recvKey
  noncePrefix : c.sendPrefix = c'.recvPrefix
  ctr : c.sendCtr = c'.recvCtr

structure Joined (A B : Opened Link) : Prop where
  id : A.id = B.id
  peers : A.peer = B.local ∧ B.peer = A.local
  version : A.version = B.version
  capabilities : A.capabilities = B.capabilities
  pairingCode : A.pairingCode = B.pairingCode
  transcript : A.transcript = B.transcript
  masters : Mirrored A.manager.crypto B.manager.crypto
  there : A.controlCrypto.Sends B.controlCrypto
  back : B.controlCrypto.Sends A.controlCrypto

def Fresh (authCodec : AuthCodec) (openings : ι → Opening p) : Prop :=
  ∀ {i j a r keysA keysR}, (openings i).At authCodec a keysA → (openings j).At authCodec r keysR →
    a.presented = r.presented → i = j

/-- What the primitives promise among these openings. -/
structure Sound (authCodec : AuthCodec) (openings : ι → Opening p) : Prop where
  short : ∀ {i a keys}, (openings i).At authCodec a keys → a.Short
  /-- X25519 is the same from both ends. -/
  mirrored : ∀ {i j a r keysA keysR}, (openings i).At authCodec a keysA → (openings j).At authCodec r keysR →
    a.Mirrored r
  /-- SHA-256 tells the directions apart, -/
  directed : ∀ {i j a r keysA keysR}, (openings i).At authCodec a keysA → (openings j).At authCodec r keysR →
    a.Directed r
  digest : ∀ {i j a r keysA keysR}, (openings i).At authCodec a keysA → (openings j).At authCodec r keysR →
    kdf p keysR.send.toList r.transcript = kdf p keysA.recv.toList a.transcript →
    keysR.send = keysA.recv ∧ r.transcript = a.transcript
  /-- HMAC derives another key from another master or another purpose. -/
  derivation : ∀ {i j c d}, (openings i).crypto authCodec = .ok c → (openings j).crypto authCodec = .ok d →
    KdfInjective p.hmacSha256 [c.masterRecv, d.masterSend]

/-- All that is sealed under keys of these openings, each by the opening that logs it or by the session that
comes of it; whatever else the network brings does not open. -/
structure Network (authCodec : AuthCodec) (codec : ControlCodec) (gcm : Aes256Gcm) (openings : ι → Opening p)
    (log : ι → List SealCall) : Prop where
  own : ∀ {i call}, call ∈ log i → ∃ c epoch, (openings i).crypto authCodec = .ok c ∧
    call.endpoint = c.withEpoch epoch
  /-- A control channel starts with the Hello. -/
  first : ∀ {i call c control}, call ∈ log i → (openings i).crypto authCodec = .ok c →
    c.control p.hmacSha256 = .ok control → call.endpoint = c → call.channel = controlChannel →
    call.version = controlVersion → call.ctr = 0 →
    ∃ hello frame, (openings i).announced codec (aeadCrypto gcm) control = .ok hello ∧
      (ControlMessage.hello hello).toFrame codec = .ok frame ∧ call.plaintext = frame.encode
  authentic : ∀ {i c control payload plain}, (openings i).crypto authCodec = .ok c →
    c.control p.hmacSha256 = .ok control → (openings i).read = .ok (some payload) →
    (aeadCrypto gcm).openBytes control.recvKey payload = .ok plain →
    ∃ j, ∃ call ∈ log j, ∃ sender, call.context p.hmacSha256 = .ok sender ∧
      sender.sendKey = control.recvKey ∧ call.frame p.hmacSha256 (aeadCrypto gcm) = .ok payload

def ControlCodec.ReadsHello (codec : ControlCodec) : Prop :=
  ∀ hello bytes, codec.encode (.hello hello) = .ok bytes → codec.decodeHello bytes = .ok (AnnouncedConfig.received hello)

/-- A frame too large for its length word is refused, so what is read back is what was written. -/
theorem SessionFrame.eq_of_decode {f g : SessionFrame} (h : decode f.encode = .ok g) : g = f := by
  by_cases fits : f.payload.length < 2 ^ 32
  · rw [decode_encode f fits] at h
    exact (Except.ok.inj h).symm
  · -- the word says `u32::MAX`, and there is more behind it
    let a := BigEndian.write 8 f.channel.toNat
    let b := BigEndian.write 2 f.messageType.toNat
    let c := BigEndian.write 4 (2 ^ 32 - 1)
    have layout : f.encode = a ++ (b ++ ([f.flags.bits] ++ (c ++ f.payload))) := by
      simp only [encode, if_neg fits]
      rfl
    have length : (f.encode.drop 11).take 4 = c := by
      simp [layout, a, b, c, List.drop_append, List.drop_eq_nil_of_le]
    have body : f.encode.drop headerLen = f.payload := by
      simp [layout, headerLen, a, b, c, List.drop_append, List.drop_eq_nil_of_le]
    have word : BigEndian.read c = 2 ^ 32 - 1 := BigEndian.read_write_of_lt (by norm_num)
    have other : f.payload.length ≠ 2 ^ 32 - 1 := by omega
    simp only [decode, length, body, word, if_pos other] at h
    split at h
    · cases h
    · cases h

/-- A frame that carries a Hello is read as that Hello. -/
theorem fromFrame_hello (reads : codec.ReadsHello) {hello : SessionHello} {frame : SessionFrame}
    (framed : (ControlMessage.hello hello).toFrame codec = .ok frame) :
    ControlMessage.fromFrame codec frame = .ok (.hello (AnnouncedConfig.received hello)) := by
  unfold ControlMessage.toFrame at framed
  split at framed
  · next payload encoded =>
    cases framed
    have decoded := reads hello payload encoded
    rw [ControlMessage.fromFrame]
    dsimp only [ControlMessage.messageType]
    rw [decoded]
    rfl
  · cases framed

theorem control_recvKey {hmac : Hmac} {c : SessionCrypto} {control : ChannelCrypto}
    (derived : c.control hmac = .ok control) : control.recvKey =
      hmac c.masterRecv.toList (info purposeKey controlChannel controlVersion c.recvDir c.epoch ++ [1]) := by
  obtain ⟨_, _, _, _, own⟩ := c.derive_ok hmac controlChannel controlVersion
  rw [SessionCrypto.control, own] at derived
  cases derived
  rfl

/-- The key and the counter of a seal. -/
theorem SealCall.context_ok {hmac : Hmac} {call : SealCall} {sender : ChannelCrypto}
    (context : call.context hmac = .ok sender) : sender.sendKey = hmac call.endpoint.masterSend.toList
        (info purposeKey call.channel call.version call.endpoint.sendDir call.endpoint.epoch ++ [1]) ∧
      sender.sendCtr = call.ctr := by
  obtain ⟨_, _, _, _, derived⟩ := call.endpoint.derive_ok hmac call.channel call.version
  simp only [SealCall.context, derived, bind, Except.bind, pure, Except.pure, Except.ok.injEq] at context
  subst context
  exact ⟨rfl, rfl⟩

/-- The first seal of a control channel is made with the context as it is derived. -/
theorem context_first {c : SessionCrypto} {control : ChannelCrypto} (derived : c.control p.hmacSha256 = .ok control)
    (plaintext : Bytes) :
    SealCall.context p.hmacSha256 ⟨c, controlChannel, controlVersion, 0, plaintext⟩ = .ok control := by
  have zero := (Opening.control_fresh derived).1
  rw [SessionCrypto.control] at derived
  simp only [SealCall.context, derived, bind, Except.bind, pure, Except.pure]
  rw [← zero]

section Openings
variable {gcm : Aes256Gcm} {openings : ι → Opening p} {log : ι → List SealCall} {i j : ι}

/-- Openings of which one sends with what the other receives with saw each other's Hello. -/
theorem Sound.meets (sound : Sound authCodec openings) {c d : SessionCrypto}
    (hc : (openings i).crypto authCodec = .ok c) (hd : (openings j).crypto authCodec = .ok d)
    (master : d.masterSend = c.masterRecv) : (openings i).Meets authCodec (openings j) := by
  obtain ⟨a, keysA, atA, -, recv, -, -⟩ := Opening.crypto_ok hc
  obtain ⟨r, keysR, atR, send, -, -, -⟩ := Opening.crypto_ok hd
  rw [send, recv] at master
  obtain ⟨key, transcripts⟩ := sound.digest atA atR master
  exact ⟨a, r, keysA, keysR, atA, atR, Auth.Endpoint.agree_of_tag (sound.short atA) (sound.short atR)
    (sound.directed atA atR) atA.keys atR.keys key transcripts⟩

/-- The masters of two that saw each other's Hello are crossed. -/
theorem Sound.crossed (sound : Sound authCodec openings) {c d : SessionCrypto}
    (hc : (openings i).crypto authCodec = .ok c) (hd : (openings j).crypto authCodec = .ok d)
    (meets : (openings i).Meets authCodec (openings j)) :
    c.masterSend = d.masterRecv ∧ c.masterRecv = d.masterSend ∧ c.epoch = d.epoch := by
  obtain ⟨a, keysA, atA, sendA, recvA, -, epochA⟩ := Opening.crypto_ok hc
  obtain ⟨r, keysR, atR, sendR, recvR, -, epochR⟩ := Opening.crypto_ok hd
  obtain ⟨a', r', _, _, atA', atR', agree⟩ := meets
  cases atA.unique atA'
  cases atR.unique atR'
  have there : keysR.send = keysA.recv := Auth.Endpoint.keys_of_agree agree (sound.mirrored atA atR) atA.keys atR.keys
  have back : keysA.send = keysR.recv :=
    Auth.Endpoint.keys_of_agree agree.symm (sound.mirrored atR atA) atR.keys atA.keys
  have transcripts : r.transcript = a.transcript := by
    rw [Auth.Endpoint.transcript, Auth.Endpoint.transcript, ← agree.there, ← agree.back, Auth.transcript_comm agree.apart.symm]
  rw [sendA, recvA, sendR, recvR, there, back, transcripts, epochA, epochR]
  exact ⟨rfl, rfl, rfl⟩

/-- A Hello that opens was sealed by an opening that sends as this one receives, as the first on its channel. -/
theorem Network.sealer (network : Network authCodec codec gcm openings log) (sound : Sound authCodec openings)
    (correct : gcm.Correct) (reads : codec.ReadsHello) {c : SessionCrypto} {control control' : ChannelCrypto}
    {peerHello : SessionHello} (hc : (openings i).crypto authCodec = .ok c)
    (derived : c.control p.hmacSha256 = .ok control)
    (read : recvHello codec (aeadCrypto gcm) control (openings i).read = .ok (peerHello, control')) :
    ∃ j d other hello, (openings j).crypto authCodec = .ok d ∧ d.control p.hmacSha256 = .ok other ∧
      d.masterSend = c.masterRecv ∧ d.sendDir = c.recvDir ∧
      (openings j).announced codec (aeadCrypto gcm) other = .ok hello ∧
      peerHello = AnnouncedConfig.received hello := by
  obtain ⟨payload, plain, frame, got, opened, decoded, isHello⟩ := recvHello_ok_iff.mp read
  obtain ⟨-, -, counter, plainOf, -⟩ := openFrame_ok_iff.mp opened
  obtain ⟨j, call, logged, sender, context, key, sealed⟩ := network.authentic hc derived got plainOf
  obtain ⟨d, epoch, hd, endpoint⟩ := network.own logged
  -- the key under which the payload was sealed names who sealed it, and as what
  obtain ⟨sendKey, sendCtr⟩ := SealCall.context_ok context
  have masterOf : call.endpoint.masterSend = d.masterSend := by rw [endpoint]; rfl
  have epochOf : call.endpoint.epoch = epoch := by rw [endpoint]; rfl
  have dirOf : call.endpoint.sendDir = d.sendDir := by rw [endpoint]; rfl
  obtain ⟨_, _, _, _, _, _, epochC⟩ := Opening.crypto_ok hc
  obtain ⟨_, _, _, _, _, _, epochD⟩ := Opening.crypto_ok hd
  have keys : deriveKey p.hmacSha256 d.masterSend call.channel call.version d.sendDir epoch =
      deriveKey p.hmacSha256 c.masterRecv controlChannel controlVersion c.recvDir c.epoch := by
    rw [deriveKey_eq, deriveKey_eq, ← control_recvKey derived, ← key, sendKey, masterOf, epochOf, dirOf]
  obtain ⟨master, fields⟩ := sound.derivation hc hd _ (List.mem_cons_of_mem _ (List.mem_singleton_self _)) _
    List.mem_cons_self _ _ _ _ _ _ _ _ keys
  obtain ⟨-, channel, version, direction, epochs⟩ := info_injective fields
  have endpointOf : call.endpoint = d := by
    rw [endpoint, epochs, epochC, ← epochD]
    rfl
  -- its counter is that of a first message, so it is the sealer's Hello
  simp only [SealCall.frame, context, bind, Except.bind] at sealed
  have position := (sealFrame_layout sealed).2.2
  rw [counter, sendCtr, (Opening.control_fresh derived).2] at position
  have ctr : call.ctr = 0 := (UInt64.toNat_inj.mp position).symm
  obtain ⟨_, _, _, _, derivedOther⟩ := d.derive_ok p.hmacSha256 controlChannel controlVersion
  obtain ⟨hello, helloFrame, announced, framed, plaintext⟩ :=
    network.first logged hd derivedOther endpointOf channel version ctr
  refine ⟨j, d, _, hello, hd, derivedOther, master, direction, announced, ?_⟩
  have roundtrip := aeadCrypto_open_seal correct sealed
  rw [key, plainOf] at roundtrip
  rw [Except.ok.inj roundtrip, plaintext] at decoded
  rw [SessionFrame.eq_of_decode decoded, fromFrame_hello reads framed] at isHello
  injection isHello with message
  injection message with message
  exact message.symm

theorem meets_symm (meets : (openings i).Meets authCodec (openings j)) :
    (openings j).Meets authCodec (openings i) := by
  obtain ⟨a, r, keysA, keysR, atA, atR, agree⟩ := meets
  exact ⟨r, a, keysR, keysA, atR, atA, agree.symm⟩

theorem Fresh.unique (fresh : Fresh authCodec openings) {k : ι}
    (meets : (openings i).Meets authCodec (openings j)) (meets' : (openings i).Meets authCodec (openings k)) :
    k = j := by
  obtain ⟨a, r, _, _, atA, atR, agree⟩ := meets
  obtain ⟨a', r', _, _, atA', atR', agree'⟩ := meets'
  cases atA.unique atA'
  exact fresh atR' atR (by rw [← agree'.back, agree.back])

/-- Who sends as the other receives is in the other role. -/
theorem role_ne_of_dir {c d : SessionCrypto} (hc : (openings i).crypto authCodec = .ok c)
    (hd : (openings j).crypto authCodec = .ok d) (dir : d.sendDir = c.recvDir) :
    (openings j).role ≠ (openings i).role := by
  obtain ⟨_, _, _, _, _, roleC, _⟩ := Opening.crypto_ok hc
  obtain ⟨_, _, _, _, _, roleD, _⟩ := Opening.crypto_ok hd
  intro same
  have again : d.sendDir = c.sendDir := by
    rw [SessionCrypto.sendDir, SessionCrypto.sendDir, roleC, roleD, same]
  exact c.sendDir_ne_recvDir (again.symm.trans dir)

theorem received_own (o : Opening p) (id : SessionId) :
    AnnouncedConfig.received (o.config.hello id) = o.config.hello id :=
  AnnouncedConfig.received_hello o.config.built.ordered id

/-- An initiator's Hello names the id it drew. -/
theorem announced_initiator {o : Opening p} {enc : EncryptionProvider} {control : ChannelCrypto}
    {hello : SessionHello} (role : o.role = .initiator) (announced : o.announced codec enc control = .ok hello) :
    hello = o.config.hello o.drawn := by
  rw [Opening.announced, role] at announced
  exact (Except.ok.inj announced).symm

/-- A responder's Hello names the id of the one it has read. -/
theorem announced_responder {o : Opening p} {enc : EncryptionProvider} {control : ChannelCrypto}
    {hello : SessionHello} (role : o.role = .responder) (announced : o.announced codec enc control = .ok hello) :
    ∃ peerHello control', recvHello codec enc control o.read = .ok (peerHello, control') ∧
      hello = o.config.hello peerHello.sessionId := by
  rw [Opening.announced, role] at announced
  obtain ⟨⟨peerHello, control'⟩, read, made⟩ := Outcome.ok_of_bind announced
  exact ⟨peerHello, control', read, (Except.ok.inj made).symm⟩

/-- Whoever has read a Hello has met the one who sealed it, who is in the other role. -/
theorem Network.met (network : Network authCodec codec gcm openings log) (sound : Sound authCodec openings)
    (correct : gcm.Correct) (reads : codec.ReadsHello) {c : SessionCrypto} {control control' : ChannelCrypto}
    {peerHello : SessionHello} (hc : (openings i).crypto authCodec = .ok c)
    (derived : c.control p.hmacSha256 = .ok control)
    (read : recvHello codec (aeadCrypto gcm) control (openings i).read = .ok (peerHello, control')) :
    ∃ j d other hello, (openings j).crypto authCodec = .ok d ∧ d.control p.hmacSha256 = .ok other ∧
      (openings i).Meets authCodec (openings j) ∧ (openings j).role ≠ (openings i).role ∧
      (openings j).announced codec (aeadCrypto gcm) other = .ok hello ∧
      peerHello = AnnouncedConfig.received hello := by
  obtain ⟨j, d, other, hello, hd, derived', master, dir, announced, same⟩ :=
    network.sealer sound correct reads hc derived read
  exact ⟨j, d, other, hello, hd, derived', sound.meets hc hd master, role_ne_of_dir hc hd dir, announced, same⟩

/-- The one met announced the id of the session, whichever side drew it. -/
theorem Network.partner (network : Network authCodec codec gcm openings log) (sound : Sound authCodec openings)
    (fresh : Fresh authCodec openings) (correct : gcm.Correct) (reads : codec.ReadsHello) {opened : Opened Link}
    {a : Auth.Endpoint p} {keys : SessionKeys} {control : ChannelCrypto} {peerHello : SessionHello}
    (made : (openings i).Made authCodec codec (aeadCrypto gcm) opened a keys control peerHello) :
    ∃ j d other, (openings j).crypto authCodec = .ok d ∧ d.control p.hmacSha256 = .ok other ∧
      (openings i).Meets authCodec (openings j) ∧ (openings j).role ≠ (openings i).role ∧
      (openings j).announced codec (aeadCrypto gcm) other = .ok ((openings j).config.hello opened.id) ∧
      peerHello = (openings j).config.hello opened.id := by
  obtain ⟨j, d, other, hello, hd, derived', meets, roles, announced, rfl⟩ :=
    network.met sound correct reads made.crypto made.derived made.read
  have named : hello = (openings j).config.hello opened.id := by
    cases role : (openings i).role with
    | responder =>
      have role' : (openings j).role = .initiator := by
        cases h : (openings j).role with
        | initiator => rfl
        | responder => exact absurd (h.trans role.symm) roles
      obtain rfl := announced_initiator role' announced
      rw [made.id, Opening.sessionId, role]
      rfl
    | initiator =>
      have role' : (openings j).role = .responder := by
        cases h : (openings j).role with
        | initiator => exact absurd (h.trans role.symm) roles
        | responder => rfl
      obtain ⟨echoed, _, read, rfl⟩ := announced_responder role' announced
      -- what it answered was sealed by the one it met, which is this opening
      obtain ⟨k, _, _, first, _, _, meets', roles', announced', rfl⟩ :=
        network.met sound correct reads hd derived' read
      obtain rfl : k = i := fresh.unique (meets_symm meets) meets'
      obtain rfl := announced_initiator role announced'
      rw [made.id, Opening.sessionId, role]
      rfl
  subst named
  exact ⟨j, d, other, hd, derived', meets, roles, announced, received_own _ _⟩

/-- The control contexts of two crossed sets of masters are crossed. -/
theorem sends_of_crossed {c d : SessionCrypto} {ca cb : ChannelCrypto} (mirror : Mirrored c d)
    (ha : c.control p.hmacSha256 = .ok ca) (hb : d.control p.hmacSha256 = .ok cb) :
    { ca with sendCtr := 1, recvCtr := 1 }.Sends { cb with sendCtr := 1, recvCtr := 1 } ∧
      { cb with sendCtr := 1, recvCtr := 1 }.Sends { ca with sendCtr := 1, recvCtr := 1 } := by
  obtain ⟨ca', cb', ha', hb', key, pre, key', pre'⟩ :=
    derive_mirror p.hmacSha256 mirror controlChannel controlVersion
  rw [SessionCrypto.control, ha'] at ha
  rw [SessionCrypto.control, hb'] at hb
  cases ha
  cases hb
  exact ⟨⟨key, pre, rfl⟩, ⟨key'.symm, pre'.symm, rfl⟩⟩

theorem sendKey_of_crossed {c d : SessionCrypto} {ca cb : ChannelCrypto} (mirror : Mirrored c d)
    (ha : c.control p.hmacSha256 = .ok ca) (hb : d.control p.hmacSha256 = .ok cb) : ca.sendKey = cb.recvKey :=
  (sends_of_crossed mirror ha hb).1.key

/-- Two sessions that each came of the other's Hello are two ends of one. -/
theorem Sound.joined (sound : Sound authCodec openings) {A B : Opened Link} {a r : Auth.Endpoint p}
    {keysA keysR : SessionKeys} {ca cb : ChannelCrypto} (meets : (openings i).Meets authCodec (openings j))
    (roles : (openings j).role ≠ (openings i).role)
    (madeA : (openings i).Made authCodec codec (aeadCrypto gcm) A a keysA ca ((openings j).config.hello A.id))
    (madeB : (openings j).Made authCodec codec (aeadCrypto gcm) B r keysR cb ((openings i).config.hello B.id))
    (same : A.id = B.id) : Joined A B := by
  obtain ⟨forward, backward, epochs⟩ := sound.crossed madeA.crypto madeB.crypto meets
  obtain ⟨_, _, _, _, _, roleA, _⟩ := Opening.crypto_ok madeA.crypto
  obtain ⟨_, _, _, _, _, roleB, _⟩ := Opening.crypto_ok madeB.crypto
  have mirror : Mirrored A.manager.crypto B.manager.crypto :=
    ⟨forward, backward, by rw [roleA, roleB]; exact roles.symm, epochs⟩
  obtain ⟨there, back⟩ := sends_of_crossed mirror madeA.derived madeB.derived
  obtain ⟨a', r', _, _, atA, atR, agree⟩ := meets
  cases atA.unique madeA.at
  cases atR.unique madeB.at
  have transcripts : a.transcript = r.transcript := by
    rw [Auth.Endpoint.transcript, Auth.Endpoint.transcript, ← agree.there, ← agree.back,
      Auth.transcript_comm agree.apart]
  have negotiated : (openings j).config.negotiate ((openings i).config.hello B.id) = .ok (A.version, A.capabilities) := by
    have swapped := AnnouncedConfig.negotiate_swap (openings i).config.built.ordered
      (openings j).config.built.ordered A.id B.id
    rw [received_own, received_own, madeA.negotiated] at swapped
    exact swapped
  rw [madeB.negotiated] at negotiated
  injection negotiated with pairs
  injection pairs with version capabilities
  have peerA : A.peer = B.local := by
    rw [madeA.peer, madeB.local, agree.back, ← madeB.at.identity]
    rfl
  have peerB : B.peer = A.local := by
    rw [madeB.peer, madeA.local, ← agree.there, ← madeA.at.identity]
    rfl
  refine ⟨same, ⟨peerA, peerB⟩, version.symm, capabilities.symm, ?_, ?_, mirror, ?_, ?_⟩
  · rw [madeA.pairingCode, madeB.pairingCode, ← agree.there, ← agree.back, Auth.pairingCode_comm p agree.apart]
  · rw [madeA.transcript, madeB.transcript, transcripts]
  · rw [madeA.advanced, madeB.advanced]
    exact there
  · rw [madeA.advanced, madeB.advanced]
    exact back

end Openings

/-- Whatever the network does to any number of openings, of any devices and in either role: one that succeeds
has met exactly one other, which is in the other role, is the device it names, and announced this very id, and
with what both announce it has come to its version and capabilities. If that one succeeds as well, the two
sessions are two ends of one. -/
theorem opening_agrees {gcm : Aes256Gcm} {openings : ι → Opening p} {log : ι → List SealCall}
    (sound : Sound authCodec openings) (fresh : Fresh authCodec openings) (correct : gcm.Correct)
    (reads : codec.ReadsHello) (network : Network authCodec codec gcm openings log) {i : ι} {A : Opened Link}
    (opened : PeerSession.open authCodec codec (aeadCrypto gcm) (openings i) = .ok A) :
    ∃ j, (openings i).Meets authCodec (openings j) ∧
      (∀ k, (openings i).Meets authCodec (openings k) → k = j) ∧
      (openings j).role ≠ (openings i).role ∧
      A.peer = (openings j).identity.deviceId ∧ A.peerName = (openings j).identity.name ∧
      (∃ d other, (openings j).crypto authCodec = .ok d ∧ d.control p.hmacSha256 = .ok other ∧
        (openings j).announced codec (aeadCrypto gcm) other = .ok ((openings j).config.hello A.id)) ∧
      (openings i).config.negotiate ((openings j).config.hello A.id) = .ok (A.version, A.capabilities) ∧
      ∀ B : Opened Link, PeerSession.open authCodec codec (aeadCrypto gcm) (openings j) = .ok B → Joined A B := by
  obtain ⟨a, keysA, ca, _, madeA⟩ := Opening.open_ok opened
  obtain ⟨j, d, other, hd, derived, meets, roles, announced, rfl⟩ :=
    network.partner sound fresh correct reads madeA
  obtain ⟨a', r', _, _, atA, atR, agree⟩ := id meets
  cases atA.unique madeA.at
  refine ⟨j, meets, fun k => fresh.unique meets, roles, ?_, ?_, ⟨d, other, hd, derived, announced⟩,
    madeA.negotiated, ?_⟩
  · rw [madeA.peer, agree.back, ← atR.identity]
    rfl
  · rw [madeA.peerName, agree.back, ← atR.identity]
    rfl
  · intro B openedB
    obtain ⟨r, keysR, cb, _, madeB⟩ := Opening.open_ok openedB
    obtain ⟨k, _, _, _, _, meets', _, _, rfl⟩ := network.partner sound fresh correct reads madeB
    obtain rfl : k = i := fresh.unique (meets_symm meets) meets'
    have same : A.id = B.id := by
      have one := madeB.crypto
      rw [hd] at one
      cases one
      have control := madeB.derived
      rw [derived] at control
      cases control
      have hellos := announced.symm.trans madeB.sealed
      injection hellos with hellos
      exact congrArg SessionHello.sessionId hellos
    exact sound.joined meets roles madeA madeB same

/-! Two devices that open a session. Every digest is the sum of its message, a key of the derivation is the
first byte of its master before the info, and a ciphertext is its key, its nonce and the plaintext. -/

private def sums : Primitives where
  publicOf secret := secret
  diffieHellman secret theirs := Vector.zipWith (· ^^^ ·) secret theirs
  wasContributory _ := true
  sha256 bytes := Vector.replicate 32 bytes.sum
  hmacSha256 key data := copyFromSlice 32 (key.headD 0 :: data.drop 24)

private def plainSeals : Aes256Gcm where
  encrypt key nonce plaintext := some (key.toList ++ nonce.toList ++ plaintext)
  decrypt key nonce ciphertext :=
    if ciphertext.take 44 = key.toList ++ nonce.toList then some (ciphertext.drop 44) else none

private theorem plainSeals_correct : plainSeals.Correct := by
  intro key nonce plaintext ciphertext h
  obtain rfl : key.toList ++ nonce.toList ++ plaintext = ciphertext := Option.some.inj h
  have head : (key.toList ++ nonce.toList ++ plaintext).take 44 = key.toList ++ nonce.toList :=
    List.take_left' (by simp)
  have tail : (key.toList ++ nonce.toList ++ plaintext).drop 44 = plaintext := List.drop_left' (by simp)
  simp only [plainSeals, head, tail, if_true]

/-- `false` calls, `true` is called. -/
private def sideOf (called : Bool) : Auth.Identity sums :=
  let name := if called then "bob" else "alice"
  ⟨name, name, ⟨Vector.replicate 32 (if called then 2 else 1), Vector.replicate 32 (if called then 2 else 1), rfl⟩⟩

private def nonceOf (called : Bool) : Vector UInt8 16 := Vector.replicate 16 (if called then 4 else 3)

private def endOf (called : Bool) : Auth.Endpoint sums :=
  ⟨sideOf called, nonceOf called, (sideOf !called).side (nonceOf !called)⟩

private def keysOf (called : Bool) : SessionKeys :=
  ⟨Vector.replicate 32 (if called then 21 else 31), Vector.replicate 32 (if called then 31 else 21)⟩

private def cryptoOf (called : Bool) : SessionCrypto :=
  ⟨Vector.replicate 32 (if called then 226 else 34), Vector.replicate 32 (if called then 34 else 226),
    if called then .responder else .initiator, 0⟩

private def capabilitiesOf (called : Bool) : CapabilitySet :=
  if called then CapabilitySet.new.insert ⟨0, 0⟩ else (CapabilitySet.new.insert ⟨0, 0⟩).insert ⟨256, 1⟩

private theorem capabilitiesOf_built (called : Bool) : CapabilitySet.Built (capabilitiesOf called) := by
  cases called with
  | false => exact .insert _ (.insert _ .new)
  | true => exact .insert _ .new

private def configOf (called : Bool) : OpenConfig where
  version := if called then ⟨1, 0⟩ else ⟨1, 2⟩
  capabilities := capabilitiesOf called
  built := capabilitiesOf_built called

private def chosen : SessionId := Vector.replicate 16 7

private def helloOf (called : Bool) : SessionHello := (configOf called).hello chosen

private def helloCodec : ControlCodec where
  encode message :=
    if message = .hello (helloOf false) then .ok [1]
    else if message = .hello (helloOf true) then .ok [2] else .error ""
  decodeHello bytes := .ok (helloOf (bytes = [2]))
  decodeU64 _ := .error ""
  decodeU16 _ := .error ""
  decodeString _ := .error ""
  decodeToken _ := .error ""
  decodeAck _ := .error ""
  decodeOpen _ := .error ""
  decodeChannelText _ := .error ""
  debug _ := ""

private theorem helloCodec_reads : helloCodec.ReadsHello := by
  have own (called : Bool) : AnnouncedConfig.received (helloOf called) = helloOf called :=
    AnnouncedConfig.received_hello (configOf called).built.ordered chosen
  intro hello bytes encoded
  simp only [helloCodec] at encoded
  split at encoded
  · next first =>
    injection first with first
    cases encoded
    rw [first, own]
    rfl
  · split at encoded
    · next second =>
      injection second with second
      cases encoded
      rw [second, own]
      rfl
    · cases encoded

private def tagCodec : AuthCodec where
  encode
    | .hello side => [if side = (endOf true).presented then 2 else 1]
    | .confirm tag => 0 :: tag
  decode
    | 0 :: tag => .ok (.confirm tag)
    | bytes => .ok (.hello (endOf (bytes = [2])).presented)

private def controlOf (called : Bool) : ChannelCrypto :=
  ((cryptoOf called).control sums.hmacSha256).toOption.getD
    (.fromKeys (Vector.replicate 32 0) (Vector.replicate 32 0) (Vector.replicate 4 0) (Vector.replicate 4 0))

private def frameOf (called : Bool) : SessionFrame := ⟨controlChannel, 1, .endOfMessage, [if called then 2 else 1]⟩

private def sealedOf (called : Bool) : Bytes :=
  ((controlOf called).sealFrame (aeadCrypto plainSeals) (frameOf called).encode).toOption.getD []

private def pairOf (called : Bool) : Opening sums where
  role := if called then .responder else .initiator
  identity := sideOf called
  config := configOf called
  stream := .ok (some ())
  inTime := true
  auth :=
    { nonce := nonceOf called
      helloSent := .ok ()
      confirmSent := .ok ()
      incoming :=
        [.ok (some (Auth.authFrame tagCodec (.hello (endOf !called).presented))),
          .ok (some (Auth.authFrame tagCodec (.confirm ((endOf !called).tag (keysOf !called)))))]
      trust := ⟨fun _ => .ok none, fun _ => .ok ()⟩
      now := 0 }
  drawn := chosen
  sent := .ok ()
  read := .ok (some (sealedOf !called))

private def firstSeal (called : Bool) : SealCall :=
  ⟨cryptoOf called, controlChannel, controlVersion, 0, (frameOf called).encode⟩

private def attempt (called : Bool) : Except OpenError (Opened Unit) :=
  PeerSession.open tagCodec helloCodec (aeadCrypto plainSeals) (pairOf called)

/-- What each side computes, and what tells the two sides and the two directions apart. -/
private theorem pairOf_computed : ∀ called : Bool,
    ((endOf called).keys = .ok (keysOf called) ∧
      (pairOf called).crypto tagCodec = .ok (cryptoOf called) ∧
      (pairOf called).announced helloCodec (aeadCrypto plainSeals) (controlOf called) = .ok (helloOf called) ∧
      (ControlMessage.hello (helloOf called)).toFrame helloCodec = .ok (frameOf called) ∧
      (attempt called).toOption.isSome = true) ∧
    ∀ called' : Bool,
      ((endOf called).presented.Short ∧ (endOf called).received.Short) ∧
      sums.diffieHellman (sideOf called).keypair.secret (sideOf called').keypair.public =
        sums.diffieHellman (sideOf called').keypair.secret (sideOf called).keypair.public ∧
      kdf sums (endOf called).shared.toList Auth.keyLo ≠ kdf sums (endOf called').shared.toList Auth.keyHi ∧
      kdf sums (endOf called).shared.toList Auth.keyHi ≠ kdf sums (endOf called').shared.toList Auth.keyLo ∧
      (kdf sums (keysOf called').send.toList (endOf called').transcript =
          kdf sums (keysOf called).recv.toList (endOf called).transcript →
        (keysOf called').send = (keysOf called).recv ∧ (endOf called').transcript = (endOf called).transcript) ∧
      ((cryptoOf called).masterRecv.toList.headD 0 = (cryptoOf called').masterSend.toList.headD 0 →
        (cryptoOf called).masterRecv = (cryptoOf called').masterSend) ∧
      ((endOf called).presented = (endOf called').presented → called = called') := by
  decide +kernel

private theorem controlOf_derived (called : Bool) :
    (cryptoOf called).control sums.hmacSha256 = .ok (controlOf called) := by
  obtain ⟨_, _, _, _, derived⟩ := (cryptoOf called).derive_ok sums.hmacSha256 controlChannel controlVersion
  rw [controlOf, SessionCrypto.control, derived]
  rfl

private theorem cryptoOf_mirrored (called : Bool) : Mirrored (cryptoOf called) (cryptoOf !called) := by
  cases called with
  | false => exact ⟨rfl, rfl, SessionRole.noConfusion, rfl⟩
  | true => exact ⟨rfl, rfl, SessionRole.noConfusion, rfl⟩

private theorem firstSeal_context (called : Bool) :
    (firstSeal called).context sums.hmacSha256 = .ok (controlOf called) :=
  context_first (controlOf_derived called) _

private theorem firstSeal_key (called : Bool) : (controlOf called).sendKey = (controlOf !called).recvKey :=
  sendKey_of_crossed (cryptoOf_mirrored called) (controlOf_derived called) (controlOf_derived !called)

private theorem firstSeal_frame (called : Bool) :
    (firstSeal called).frame sums.hmacSha256 (aeadCrypto plainSeals) = .ok (sealedOf called) := by
  rw [SealCall.frame, firstSeal_context]
  rfl

private theorem pairOf_at {called : Bool} {a : Auth.Endpoint sums} {keys : SessionKeys}
    (h : (pairOf called).At tagCodec a keys) : a = endOf called ∧ keys = keysOf called := by
  have first : (Auth.recvAuth tagCodec (pairOf called).auth.incoming).1 = .ok (.hello (endOf called).received) := by
    cases called <;> rfl
  obtain ⟨_, _, hello, _⟩ := h.delivers.received
  rw [hello] at first
  injection first with first
  injection first with received
  have same : a = endOf called := by
    have identity := h.identity
    have nonce := h.delivers.nonce
    cases a
    cases identity
    cases nonce
    cases received
    rfl
  have keysEq := h.keys
  rw [same, (pairOf_computed called).1.1] at keysEq
  exact ⟨same, (Except.ok.inj keysEq).symm⟩

private theorem cells_inj {xs ys : Bytes} (length : xs.length = ys.length) (fits : xs.length ≤ 32)
    (h : copyFromSlice 32 xs = copyFromSlice 32 ys) : xs = ys := by
  apply List.ext_getElem length
  intro i hx hy
  have cell := congrArg (fun v : Vector UInt8 32 => v.toList[i]?) h
  have inside : i < 32 := by omega
  simpa [copyFromSlice, List.getElem?_ofFn, inside, List.getD_eq_getElem?_getD, hx, hy] using cell

private theorem sums_derives {master master' : Key}
    (apart : master.toList.headD 0 = master'.toList.headD 0 → master = master') :
    KdfInjective sums.hmacSha256 [master, master'] := by
  intro m hm m' hm' channel version dir epoch channel' version' dir' epoch' same
  rw [deriveKey_eq, deriveKey_eq, Except.ok.injEq] at same
  obtain ⟨head, tail⟩ := List.cons.inj
    (cells_inj (by simp [info, domainLabel]) (by simp [info, domainLabel]) same)
  have same : m = m' := by
    rw [List.mem_pair] at hm hm'
    rcases hm with rfl | rfl <;> rcases hm' with rfl | rfl
    · rfl
    · exact apart head
    · exact (apart head.symm).symm
    · rfl
  refine ⟨same, ?_⟩
  have body : domainLabel ++ (info purposeKey channel version dir epoch ++ [1]).drop 24 =
      domainLabel ++ (info purposeKey channel' version' dir' epoch' ++ [1]).drop 24 := by rw [tail]
  have whole (x : Bytes) : domainLabel ++ (domainLabel ++ x ++ [1]).drop 24 = domainLabel ++ x ++ [1] := by
    rw [List.append_assoc, List.drop_left' (show domainLabel.length = 24 from rfl)]
  simp only [info, whole] at body
  exact List.append_cancel_right body

private theorem pairOf_sound : Sound tagCodec pairOf where
  short {called _ _} at_ := by
    obtain ⟨rfl, -⟩ := pairOf_at at_
    exact ((pairOf_computed called).2 called).1
  mirrored {called called' _ _ _ _} at_ at' := by
    obtain ⟨rfl, -⟩ := pairOf_at at_
    obtain ⟨rfl, -⟩ := pairOf_at at'
    exact ((pairOf_computed called).2 called').2.1
  directed {called called' _ _ _ _} at_ at' := by
    obtain ⟨rfl, -⟩ := pairOf_at at_
    obtain ⟨rfl, -⟩ := pairOf_at at'
    obtain ⟨-, -, lo, hi, -⟩ := (pairOf_computed called).2 called'
    exact ⟨lo, hi⟩
  digest {called called' _ _ _ _} at_ at' := by
    obtain ⟨rfl, rfl⟩ := pairOf_at at_
    obtain ⟨rfl, rfl⟩ := pairOf_at at'
    obtain ⟨-, -, -, -, digests, -⟩ := (pairOf_computed called).2 called'
    exact digests
  derivation {called called' _ _} hc hd := by
    rw [(pairOf_computed _).1.2.1] at hc hd
    cases hc
    cases hd
    obtain ⟨-, -, -, -, -, masters, -⟩ := (pairOf_computed called).2 called'
    exact sums_derives masters

private theorem pairOf_fresh : Fresh tagCodec pairOf := by
  intro called called' _ _ _ _ at_ at' same
  obtain ⟨rfl, -⟩ := pairOf_at at_
  obtain ⟨rfl, -⟩ := pairOf_at at'
  obtain ⟨-, -, -, -, -, -, sides⟩ := (pairOf_computed called).2 called'
  exact sides same

private theorem pairOf_context {called : Bool} {c : SessionCrypto} {control : ChannelCrypto}
    (hc : (pairOf called).crypto tagCodec = .ok c) (derived : c.control sums.hmacSha256 = .ok control) :
    c = cryptoOf called ∧ control = controlOf called := by
  obtain ⟨-, crypto, -⟩ := (pairOf_computed called).1
  obtain rfl : cryptoOf called = c := Except.ok.inj (crypto.symm.trans hc)
  exact ⟨rfl, Except.ok.inj (derived.symm.trans (controlOf_derived called))⟩

private theorem pairOf_network :
    Network tagCodec helloCodec plainSeals pairOf fun called => [firstSeal called] where
  own {called _} logged := by
    obtain ⟨-, crypto, -⟩ := (pairOf_computed called).1
    rw [List.mem_singleton.mp logged]
    exact ⟨cryptoOf called, 0, crypto, rfl⟩
  first {called call _ _} logged hc derived _ _ _ _ := by
    obtain ⟨-, -, announced, framed, -⟩ := (pairOf_computed called).1
    have plaintext : call.plaintext = (frameOf called).encode :=
      congrArg SealCall.plaintext (List.mem_singleton.mp logged)
    rw [(pairOf_context hc derived).2]
    exact ⟨helloOf called, frameOf called, announced, framed, plaintext⟩
  authentic {called _ _ payload _} hc derived read _ := by
    have payloadEq : sealedOf (!called) = payload := Option.some.inj (Except.ok.inj read)
    have key := firstSeal_key (!called)
    rw [Bool.not_not] at key
    rw [(pairOf_context hc derived).2]
    exact ⟨!called, firstSeal (!called), List.mem_singleton_self _, controlOf (!called),
      firstSeal_context _, key, (firstSeal_frame _).trans (congrArg Except.ok payloadEq)⟩

private theorem pairOf_opens (called : Bool) : ∃ A : Opened Unit,
    PeerSession.open tagCodec helloCodec (aeadCrypto plainSeals) (pairOf called) = .ok A := by
  obtain ⟨-, -, -, -, succeeds⟩ := (pairOf_computed called).1
  cases opened : attempt called with
  | error e =>
    rw [opened] at succeeds
    cases succeeds
  | ok A => exact ⟨A, opened⟩

/-- Alice calls Bob, who speaks an older version and has fewer channels. -/
theorem alice_opens_bob : ∃ A B : Opened Unit,
    PeerSession.open tagCodec helloCodec (aeadCrypto plainSeals) (pairOf false) = .ok A ∧
    PeerSession.open tagCodec helloCodec (aeadCrypto plainSeals) (pairOf true) = .ok B ∧
    Joined A B ∧ A.peer = "bob" := by
  obtain ⟨A, openedA⟩ := pairOf_opens false
  obtain ⟨B, openedB⟩ := pairOf_opens true
  obtain ⟨j, _, _, roles, peer, _, _, _, joined⟩ :=
    opening_agrees pairOf_sound pairOf_fresh plainSeals_correct helloCodec_reads pairOf_network openedA
  cases j with
  | false => exact absurd rfl roles
  | true => exact ⟨A, B, openedA, openedB, joined B openedB, peer⟩

end PeerBeam.Session
