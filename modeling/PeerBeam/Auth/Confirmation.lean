import PeerBeam.Auth.Handshake

/-! What a Confirm tag proves: that its sender and its receiver saw the same two Hellos, each as the
other's. -/
namespace PeerBeam.Auth
open Transfer (Frame FrameKind DomainError)

private theorem foldl_or_eq_zero (pairs : List (UInt8 × UInt8)) (diff : UInt8) :
    pairs.foldl (fun diff pair => diff ||| (pair.1 ^^^ pair.2)) diff = 0 ↔
      diff = 0 ∧ ∀ pair ∈ pairs, pair.1 = pair.2 := by
  induction pairs generalizing diff with
  | nil => simp
  | cons pair pairs ih =>
    rw [List.foldl_cons, ih, UInt8.or_eq_zero_iff, UInt8.xor_eq_zero_iff, List.forall_mem_cons, and_assoc]

private theorem eq_of_zip {a b : Bytes} (length : a.length = b.length)
    (same : ∀ pair ∈ a.zip b, pair.1 = pair.2) : a = b := by
  induction a generalizing b with
  | nil => exact (List.eq_nil_of_length_eq_zero length.symm).symm
  | cons x a ih =>
    cases b with
    | nil => cases length
    | cons y b =>
      rw [List.zip_cons_cons, List.forall_mem_cons] at same
      have first : x = y := same.1
      rw [first, ih (Nat.succ.inj length) same.2]

theorem constantTimeEq_iff {a b : Bytes} : constantTimeEq a b = true ↔ a = b := by
  rw [constantTimeEq]
  split
  · next length => exact iff_of_false Bool.false_ne_true fun same => length (congrArg List.length same)
  · next length =>
    rw [beq_iff_eq, foldl_or_eq_zero]
    constructor
    · intro zero
      exact eq_of_zip (not_not.mp length) zero.2
    · rintro rfl
      exact ⟨rfl, fun pair mem => by
        obtain ⟨i, _, rfl⟩ := List.getElem_of_mem mem
        rw [List.getElem_zip]⟩

/-- A device in a handshake: who it is, the nonce it drew and the Hello it received. -/
structure Endpoint (p : Primitives) where
  identity : Identity p
  nonce : Vector UInt8 16
  received : HandshakeSide

namespace Endpoint
variable {p : Primitives} (a r : Endpoint p)

def presented : HandshakeSide := a.identity.side a.nonce

def shared : Key := p.diffieHellman a.identity.keypair.secret a.received.pubkey

def keys : Except AuthError SessionKeys := keyExchange p a.identity.keypair.secret a.received.pubkey

def transcript : Bytes := Auth.transcript a.presented a.received

def tag (keys : SessionKeys) : Bytes := hmac p keys.send a.transcript

/-- Both texts of both Hellos fit their lengths. -/
def Short : Prop := a.presented.Short ∧ a.received.Short

structure Agree : Prop where
  there : a.presented = r.received
  back : a.received = r.presented
  apart : a.presented.pubkey ≠ a.received.pubkey

/-- SHA-256 tells the two directions of these two key exchanges apart. -/
structure Directed : Prop where
  lo : kdf p a.shared.toList keyLo ≠ kdf p r.shared.toList keyHi
  hi : kdf p a.shared.toList keyHi ≠ kdf p r.shared.toList keyLo

/-- X25519 is the same from both ends. -/
def Mirrored : Prop :=
  p.diffieHellman a.identity.keypair.secret r.identity.keypair.public =
    p.diffieHellman r.identity.keypair.secret a.identity.keypair.public

/-- HMAC tells the tag `r` sends from the one `a` expects, unless key and transcript are the same. -/
def TellsApart (keysA keysR : SessionKeys) : Prop :=
  r.tag keysR = hmac p keysA.recv a.transcript → keysR.send = keysA.recv ∧ r.transcript = a.transcript

variable {a r} {keysA keysR : SessionKeys}

theorem keys_eq (ka : a.keys = .ok keysA) :
    keysA = if a.presented.pubkey.toList < a.received.pubkey.toList then
      ⟨kdf p a.shared.toList keyLo, kdf p a.shared.toList keyHi⟩
    else ⟨kdf p a.shared.toList keyHi, kdf p a.shared.toList keyLo⟩ := by
  simp only [keys, keyExchange] at ka
  split at ka
  · cases ka
  · have derived : p.publicOf a.identity.keypair.secret = a.presented.pubkey :=
      a.identity.keypair.derived.symm
    rw [← Except.ok.inj ka, derived]
    rfl

/-- The two ends of one exchange have each other's keys. -/
theorem keys_of_agree (agree : Agree a r) (mirrored : Mirrored a r) (ka : a.keys = .ok keysA)
    (kr : r.keys = .ok keysR) : keysR.send = keysA.recv := by
  have shared : a.shared = r.shared := by
    rw [Endpoint.shared, Endpoint.shared, agree.back, ← agree.there]
    exact mirrored
  have apart : a.presented.pubkey.toList ≠ a.received.pubkey.toList := fun same =>
    agree.apart (Vector.toList_inj.mp same)
  rw [keys_eq ka, keys_eq kr, ← agree.back, ← agree.there, ← shared]
  by_cases less : a.presented.pubkey.toList < a.received.pubkey.toList
  · rw [if_pos less, if_neg (List.lt_asymm less)]
  · have greater : a.received.pubkey.toList < a.presented.pubkey.toList := by
      by_contra other
      exact apart (List.le_antisymm other less)
    rw [if_neg less, if_pos greater]

/-- Who sends with the key that `a` expects is not on the same side as `a`. -/
theorem agree_of_tag (short : a.Short) (short' : r.Short) (directed : Directed a r)
    (ka : a.keys = .ok keysA) (kr : r.keys = .ok keysR) (key : keysR.send = keysA.recv)
    (transcripts : r.transcript = a.transcript) : Agree a r := by
  rw [keys_eq ka, keys_eq kr] at key
  rcases Sym2.eq_iff.mp (sides_of_transcript short.1 short.2 short'.1 short'.2 transcripts.symm) with
    ⟨presented, received⟩ | ⟨there, back⟩
  · rw [presented, received] at key
    split at key
    · exact absurd key.symm directed.hi
    · exact absurd key.symm directed.lo
  · refine ⟨there, back, fun same => ?_⟩
    rw [← there, ← back, same] at key
    rw [if_neg (List.lt_irrefl _), if_neg (List.lt_irrefl _)] at key
    exact directed.lo key.symm

theorem tag_iff_agree (short : a.Short) (short' : r.Short) (directed : Directed a r) (mirrored : Mirrored a r)
    (ka : a.keys = .ok keysA) (kr : r.keys = .ok keysR) (apart : TellsApart a r keysA keysR) :
    r.tag keysR = hmac p keysA.recv a.transcript ↔ Agree a r := by
  constructor
  · intro same
    obtain ⟨key, transcripts⟩ := apart same
    exact agree_of_tag short short' directed ka kr key transcripts
  · intro agree
    have transcripts : r.transcript = a.transcript := by
      rw [transcript, transcript, ← agree.there, ← agree.back, transcript_comm agree.apart.symm]
    rw [tag, keys_of_agree agree mirrored ka kr, transcripts]

end Endpoint

/-- The run of `a`: it sends what it has to, and receives its peer's Hello and then this tag. -/
structure Delivers {p : Primitives} (codec : AuthCodec) (io : AuthIo) (a : Endpoint p) (tag : Bytes) : Prop where
  nonce : io.nonce = a.nonce
  helloSent : io.helloSent = .ok ()
  confirmSent : io.confirmSent = .ok ()
  received : ∃ rest rest', recvAuth codec io.incoming = (.ok (.hello a.received), rest) ∧
    recvAuth codec rest = (.ok (.confirm tag), rest')

/-- What both messages of `a` look like. -/
def Endpoint.sent {p : Primitives} (codec : AuthCodec) (a : Endpoint p) (keys : SessionKeys) : List Frame :=
  [authFrame codec (.hello a.presented), authFrame codec (.confirm (a.tag keys))]

def mismatch : AuthError := .encryption "authentication failed: key confirmation mismatch"

theorem authenticate_eq {p : Primitives} {codec : AuthCodec} {io : AuthIo} {a : Endpoint p} {tag : Bytes}
    {keys : SessionKeys} (delivers : Delivers codec io a tag) (ka : a.keys = .ok keys) :
    authenticate p codec a.identity io =
      if tag = hmac p keys.recv a.transcript then
        confirmed p keys a.presented a.received io (a.sent codec keys)
      else ⟨a.sent codec keys, none, .error mismatch⟩ := by
  obtain ⟨rest, rest', hello, confirm⟩ := delivers.received
  have exchanged : keyExchange p a.identity.keypair.secret a.received.pubkey = .ok keys := ka
  simp only [authenticate, delivers.nonce, delivers.helloSent, delivers.confirmSent, hello, confirm, exchanged]
  by_cases same : tag = hmac p keys.recv a.transcript
  · have equal : constantTimeEq tag (hmac p keys.recv a.transcript) ≠ false := by
      rw [constantTimeEq_iff.mpr same]
      decide
    rw [if_pos same]
    exact if_neg equal
  · have differs : constantTimeEq tag (hmac p keys.recv a.transcript) = false :=
      Bool.eq_false_iff.mpr fun equal => same (constantTimeEq_iff.mp equal)
    rw [if_neg same]
    exact if_pos differs

/-- The transcript is the same from both ends and tells all that both presented. So a tag that any end
of any handshake sent is accepted exactly by the end that presented what its sender received, and
received what its sender presented: not by the sender itself, nor where the peer presents the own key. -/
theorem confirmation_binds {p : Primitives} {codec : AuthCodec} {io : AuthIo} {a r : Endpoint p}
    {keysA keysR : SessionKeys} (ka : a.keys = .ok keysA) (kr : r.keys = .ok keysR)
    (short : a.Short) (short' : r.Short) (directed : a.Directed r) (mirrored : a.Mirrored r)
    (apart : a.TellsApart r keysA keysR) (delivers : Delivers codec io a (r.tag keysR)) :
    (∀ x y : HandshakeSide, x.pubkey ≠ y.pubkey → transcript x y = transcript y x) ∧
    (∀ x y x' y' : HandshakeSide, x.Short → y.Short → x'.Short → y'.Short →
      transcript x y = transcript x' y' → s(x, y) = s(x', y')) ∧
    (a.Agree r → authenticate p codec a.identity io =
      confirmed p keysA a.presented a.received io (a.sent codec keysA)) ∧
    (¬ a.Agree r → authenticate p codec a.identity io = ⟨a.sent codec keysA, none, .error mismatch⟩) ∧
    (r = a ∨ a.received.pubkey = a.presented.pubkey → ¬ a.Agree r) := by
  have accepts := a.tag_iff_agree (r := r) short short' directed mirrored ka kr apart
  refine ⟨fun _ _ => transcript_comm, fun _ _ _ _ => sides_of_transcript, ?_, ?_, ?_⟩
  · intro agree
    rw [authenticate_eq delivers ka, if_pos (accepts.mpr agree)]
  · intro other
    rw [authenticate_eq delivers ka, if_neg fun same => other (accepts.mp same)]
  · rintro (rfl | own) agree
    · exact agree.apart (congrArg HandshakeSide.pubkey agree.there)
    · exact agree.apart own.symm

/-- Small stand-ins: keys agree by exclusive or, a digest is the end of its message, a tag is the key
with the sum of the message on every byte. -/
private def toy : Primitives where
  publicOf secret := secret
  diffieHellman secret theirs := Vector.ofFn fun i => secret[i] ^^^ theirs[i]
  wasContributory _ := true
  sha256 bytes := Vector.ofFn fun i => bytes.reverse.getD i 0
  hmacSha256 key data := Vector.ofFn fun i => key.getD i 0 + data.sum

private def device (secret : UInt8) (name : String) : Identity toy :=
  ⟨name, name, ⟨Vector.replicate 32 secret, Vector.replicate 32 secret, rfl⟩⟩

private def alice : Endpoint toy :=
  ⟨device 1 "alice", Vector.replicate 16 3, (device 2 "bob").side (Vector.replicate 16 4)⟩

private def bob : Endpoint toy :=
  ⟨device 2 "bob", Vector.replicate 16 4, (device 1 "alice").side (Vector.replicate 16 3)⟩

private def aliceKeys : SessionKeys :=
  ⟨kdf toy alice.shared.toList keyLo, kdf toy alice.shared.toList keyHi⟩

private def bobKeys : SessionKeys :=
  ⟨kdf toy bob.shared.toList keyHi, kdf toy bob.shared.toList keyLo⟩

/-- A Hello is read as that of `bob`. -/
private def toyCodec : AuthCodec where
  encode
    | .hello _ => [0]
    | .confirm tag => 1 :: tag
  decode
    | 1 :: tag => .ok (.confirm tag)
    | _ => .ok (.hello bob.presented)

/-- Bob's two messages with a frame of another kind between them, at a device that trusts nobody yet. -/
private def firstMeeting : AuthIo where
  nonce := alice.nonce
  helloSent := .ok ()
  confirmSent := .ok ()
  incoming := [.ok (some (authFrame toyCodec (.hello bob.presented))), .ok (some ⟨.«meta», []⟩),
    .ok (some (authFrame toyCodec (.confirm (bob.tag bobKeys))))]
  trust := ⟨fun _ => .ok none, fun _ => .ok ()⟩
  now := 0

theorem alice_accepts_bob :
    (authenticate toy toyCodec alice.identity firstMeeting).result.toOption.map
      (fun session => (session.peerId, session.newlyTrusted)) = some ("bob", true) := by
  have agree : alice.Agree bob := ⟨rfl, rfl, by decide⟩
  have mirrored : alice.Mirrored bob := by unfold Endpoint.Mirrored; decide +kernel
  have directed : alice.Directed bob := ⟨by decide +kernel, by decide +kernel⟩
  have ka : alice.keys = .ok aliceKeys := by decide +kernel
  have kr : bob.keys = .ok bobKeys := by decide +kernel
  have short : alice.Short := by unfold Endpoint.Short; decide +kernel
  have short' : bob.Short := by unfold Endpoint.Short; decide +kernel
  have apart : alice.TellsApart bob aliceKeys bobKeys := fun _ =>
    ⟨Endpoint.keys_of_agree agree mirrored ka kr, transcript_comm agree.apart.symm⟩
  have delivers : Delivers toyCodec firstMeeting alice (bob.tag bobKeys) := ⟨rfl, rfl, rfl, _, _, rfl, rfl⟩
  obtain ⟨-, -, accepted, -⟩ :=
    confirmation_binds ka kr short short' directed mirrored apart delivers
  rw [accepted agree]
  rfl

end PeerBeam.Auth
