import PeerBeam.Auth.Transcript
import PeerBeam.Transfer.Basic
import PeerBeam.Trust.Record

/-! The handshake at the start of a connection: Hello and Confirm each way, then trust on first use.
The primitives, the message codec and the trust store enter as parameters. -/
namespace PeerBeam.Auth
open Transfer (Frame FrameKind DomainError)
open Trust (TrustRecord)

abbrev Key := Vector UInt8 32
abbrev SecretKey := Vector UInt8 32
abbrev DeviceId := String

structure Primitives where
  publicOf : SecretKey → PublicKey
  diffieHellman : SecretKey → PublicKey → Key
  /-- The shared secret is none of those that a low-order point leads to. -/
  wasContributory : Key → Bool
  sha256 : Bytes → Vector UInt8 32
  hmacSha256 : Bytes → Bytes → Vector UInt8 32

/-- The errors of the handshake itself, and those of the link and the trust store. -/
inductive AuthError where
  | encryption (detail : String)
  | port (e : DomainError)
  deriving DecidableEq

/-- `peerbeam-key-lo`, `peerbeam-key-hi` and `peerbeam-nonce`. -/
def keyLo : Bytes := [112, 101, 101, 114, 98, 101, 97, 109, 45, 107, 101, 121, 45, 108, 111]
def keyHi : Bytes := [112, 101, 101, 114, 98, 101, 97, 109, 45, 107, 101, 121, 45, 104, 105]
def nonceLabel : Bytes := [112, 101, 101, 114, 98, 101, 97, 109, 45, 110, 111, 110, 99, 101]

/-- `peerbeam-pairing-v1`. -/
def pairingLabel : Bytes :=
  [112, 101, 101, 114, 98, 101, 97, 109, 45, 112, 97, 105, 114, 105, 110, 103, 45, 118, 49]

structure SessionKeys where
  send : Key
  recv : Key
  deriving DecidableEq

structure KeyPair (p : Primitives) where
  secret : SecretKey
  «public» : PublicKey
  derived : «public» = p.publicOf secret

structure Identity (p : Primitives) where
  deviceId : DeviceId
  name : String
  keypair : KeyPair p

section Crypto
variable (p : Primitives)

def kdf (key label : Bytes) : Key := p.sha256 (key ++ label)

def hmac (key : Key) (data : Bytes) : Bytes := (p.hmacSha256 key.toList data).toList

def keyExchange (ours : SecretKey) (theirs : PublicKey) : Except AuthError SessionKeys :=
  let ourPublic := p.publicOf ours
  let shared := p.diffieHellman ours theirs
  if p.wasContributory shared = false then
    .error (.encryption "key exchange produced a non-contributory (low-order) shared secret")
  else
    let lo := kdf p shared.toList keyLo
    let hi := kdf p shared.toList keyHi
    -- the smaller public key sends with `lo`
    .ok (if ourPublic.toList < theirs.toList then ⟨lo, hi⟩ else ⟨hi, lo⟩)

def hexDigits (digits : List Char) (bytes : Bytes) : List Char :=
  bytes.flatMap fun b => [digits.getD (b.toNat / 16) '0', digits.getD (b.toNat % 16) '0']

def fingerprint (key : PublicKey) : String :=
  String.ofList (hexDigits "0123456789abcdef".toList (p.sha256 key.toList).toList)

/-- A blank before every fourth digit but the first. -/
def grouped : List Char → List Char
  | a :: b :: c :: d :: e :: rest => a :: b :: c :: d :: ' ' :: grouped (e :: rest)
  | digits => digits

def pairingCode (a b : PublicKey) : String :=
  let (lo, hi) := if a.toList ≤ b.toList then (a, b) else (b, a)
  let digest := (p.sha256 (pairingLabel ++ lo.toList ++ hi.toList)).toList
  String.ofList (grouped (hexDigits "0123456789ABCDEF".toList (digest.take 16)))

end Crypto

def constantTimeEq (a b : Bytes) : Bool :=
  if a.length ≠ b.length then false
  else (a.zip b).foldl (fun diff pair => diff ||| (pair.1 ^^^ pair.2)) 0 == 0

inductive AuthMsg where
  | hello (side : HandshakeSide)
  | confirm (tag : Bytes)
  deriving DecidableEq

/-- How messages are written into frames; reading may fail with a text. -/
structure AuthCodec where
  encode : AuthMsg → Bytes
  decode : Bytes → Except String AuthMsg

section Messages
variable (codec : AuthCodec)

def authFrame (msg : AuthMsg) : Frame := ⟨.handshake, codec.encode msg⟩

/-- What one receive on the link answers; `none` is a closed link. -/
abbrev Received := Except DomainError (Option Frame)

/-- Frames of another kind are skipped. A list that ends is a link that is closed. -/
def recvAuth : List Received → Except AuthError AuthMsg × List Received
  | [] => (.error (.encryption "link closed during handshake"), [])
  | .error e :: rest => (.error (.port e), rest)
  | .ok none :: rest => (.error (.encryption "link closed during handshake"), rest)
  | .ok (some frame) :: rest =>
    if frame.kind = .handshake then
      match codec.decode frame.payload with
      | .ok msg => (.ok msg, rest)
      | .error e => (.error (.encryption s!"bad auth message: {e}"), rest)
    else recvAuth rest

end Messages

structure TrustStore where
  lookup : DeviceId → Except DomainError (Option TrustRecord)
  record : TrustRecord → Except DomainError Unit

structure AuthIo where
  nonce : Vector UInt8 16
  helloSent : Except DomainError Unit
  confirmSent : Except DomainError Unit
  incoming : List Received
  trust : TrustStore
  now : Int

structure Session where
  sendKey : Key
  recvKey : Key
  sendPrefix : Vector UInt8 4
  recvPrefix : Vector UInt8 4
  peerId : DeviceId
  peerName : String
  newlyTrusted : Bool
  pairingCode : String
  transcript : Bytes

/-- What was sent, the record written on first contact, and how the handshake ended. -/
structure AuthRun where
  sent : List Frame
  recorded : Option TrustRecord
  result : Except AuthError Session

/-- The key is pinned on first contact, with no permission; a changed one is refused. -/
def trustOnFirstUse (io : AuthIo) (peer : HandshakeSide) (fingerprint : String) :
    Option TrustRecord × Except AuthError Bool :=
  match io.trust.lookup peer.deviceId with
  | .error e => (none, .error (.port e))
  | .ok (some known) =>
    if known.fingerprint ≠ fingerprint then
      let id := peer.deviceId
      (none, .error (.encryption s!"peer {id} key changed since it was trusted (possible MITM)"))
    else (none, .ok false)
  | .ok none =>
    let pin : TrustRecord :=
      ⟨peer.deviceId, fingerprint, peer.name, io.now, false, .none, none, false, false⟩
    match io.trust.record pin with
    | .error e => (some pin, .error (.port e))
    | .ok () => (some pin, .ok true)

section Authenticate
variable (p : Primitives) (codec : AuthCodec)

def noncePrefix (key : Key) : Vector UInt8 4 :=
  (kdf p key.toList nonceLabel).take 4

def sessionOf (keys : SessionKeys) (ours peer : HandshakeSide) (newlyTrusted : Bool) : Session :=
  let transcript := transcript ours peer
  let sendKey := kdf p keys.send.toList transcript
  let recvKey := kdf p keys.recv.toList transcript
  { sendKey, recvKey
    sendPrefix := noncePrefix p sendKey
    recvPrefix := noncePrefix p recvKey
    peerId := peer.deviceId
    peerName := peer.name
    newlyTrusted
    pairingCode := pairingCode p ours.pubkey peer.pubkey
    transcript }

def confirmed (keys : SessionKeys) (ours peer : HandshakeSide) (io : AuthIo) (sent : List Frame) : AuthRun :=
  let (recorded, trusted) := trustOnFirstUse io peer (fingerprint p peer.pubkey)
  ⟨sent, recorded, trusted.map (sessionOf p keys ours peer)⟩

def Identity.side {p : Primitives} (identity : Identity p) (nonce : Vector UInt8 16) : HandshakeSide :=
  ⟨identity.keypair.public, nonce, identity.deviceId, identity.name⟩

def authenticate (identity : Identity p) (io : AuthIo) : AuthRun :=
  let ours := identity.side io.nonce
  let hello := authFrame codec (.hello ours)
  match io.helloSent with
  | .error e => ⟨[hello], none, .error (.port e)⟩
  | .ok () =>
    match recvAuth codec io.incoming with
    | (.error e, _) => ⟨[hello], none, .error e⟩
    | (.ok (.confirm _), _) => ⟨[hello], none, .error (.encryption "expected Hello")⟩
    | (.ok (.hello peer), rest) =>
      match keyExchange p identity.keypair.secret peer.pubkey with
      | .error e => ⟨[hello], none, .error e⟩
      | .ok keys =>
        let transcript := transcript ours peer
        let confirm := authFrame codec (.confirm (hmac p keys.send transcript))
        match io.confirmSent with
        | .error e => ⟨[hello, confirm], none, .error (.port e)⟩
        | .ok () =>
          match recvAuth codec rest with
          | (.error e, _) => ⟨[hello, confirm], none, .error e⟩
          | (.ok (.hello _), _) => ⟨[hello, confirm], none, .error (.encryption "expected Confirm")⟩
          | (.ok (.confirm tag), _) =>
            if constantTimeEq tag (hmac p keys.recv transcript) = false then
              ⟨[hello, confirm], none,
                .error (.encryption "authentication failed: key confirmation mismatch")⟩
            else confirmed p keys ours peer io [hello, confirm]

end Authenticate

end PeerBeam.Auth
