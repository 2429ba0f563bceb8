import PeerBeam.Session.Crypto

/-! Resume tokens: a MAC over the session binding, one epoch and a validity window. -/
namespace PeerBeam.Session

/-- What a resume token authenticates, as one side sees it. -/
structure ResumeBinding where
  sessionId : SessionId
  «local» : DeviceId
  peer : DeviceId
  version : Version
  deriving DecidableEq

/-- The two device ids in canonical order, so both endpoints agree. -/
def orderedPair (a b : DeviceId) : DeviceId × DeviceId :=
  if a ≤ b then (a, b) else (b, a)

structure ResumeToken where
  sessionId : SessionId
  «local» : DeviceId
  peer : DeviceId
  version : Version
  /-- Reconnect generation this token authorises. -/
  epoch : UInt64
  createdAtMs : UInt64
  expiresAtMs : UInt64
  mac : Vector UInt8 32
  deriving DecidableEq

def deviceBytes (d : DeviceId) : Bytes := d.toUTF8.toList

/-- Fixed field order and widths; the pair is written in canonical order. -/
def macInput (sessionId : SessionId) («local» peer : DeviceId) (version : Version)
    (epoch createdAtMs expiresAtMs : UInt64) : Bytes :=
  let (lo, hi) := orderedPair «local» peer
  sessionId.toList ++ (BigEndian.write 4 (deviceBytes lo).length ++ (deviceBytes lo ++
    (BigEndian.write 4 (deviceBytes hi).length ++ (deviceBytes hi ++
      (BigEndian.write 2 version.major.toNat ++ (BigEndian.write 2 version.minor.toNat ++
        (BigEndian.write 8 epoch.toNat ++ (BigEndian.write 8 createdAtMs.toNat ++
          BigEndian.write 8 expiresAtMs.toNat))))))))

/-- `u64::saturating_add`. -/
def saturatingAdd (a b : UInt64) : UInt64 :=
  (checkedAdd a b).getD (UInt64.ofNat (2 ^ 64 - 1))

namespace ResumeToken

def input (t : ResumeToken) : Bytes :=
  macInput t.sessionId t.local t.peer t.version t.epoch t.createdAtMs t.expiresAtMs

/-- Mint a token for generation `epoch`, valid for `ttlMs` from `nowMs`. A 32-byte
key is always a valid HMAC key, so the source's key-length error cannot occur. -/
def mint (hmac : Hmac) (resumeKey : Key) (binding : ResumeBinding) (epoch nowMs ttlMs : UInt64) :
    ResumeToken :=
  let expiresAtMs := saturatingAdd nowMs ttlMs
  { sessionId := binding.sessionId, «local» := binding.local, peer := binding.peer,
    version := binding.version, epoch, createdAtMs := nowMs, expiresAtMs,
    mac := hmac resumeKey.toList (macInput binding.sessionId binding.local binding.peer
      binding.version epoch nowMs expiresAtMs) }

/-- MAC first, then binding, freshness and single use. -/
def verify (hmac : Hmac) (t : ResumeToken) (resumeKey : Key) (expected : ResumeBinding)
    (nowMs consumedEpoch : UInt64) : Except SessionError Unit :=
  if hmac resumeKey.toList t.input ≠ t.mac then
    .error (.resumeRejected "token MAC mismatch (tampered or forged)")
  else if t.sessionId ≠ expected.sessionId then .error (.resumeRejected "session id mismatch")
  else if orderedPair t.local t.peer ≠ orderedPair expected.local expected.peer then
    .error (.resumeRejected "peer identity mismatch")
  else if t.version ≠ expected.version then .error (.resumeRejected "protocol version mismatch")
  else if t.expiresAtMs ≤ nowMs then .error .resumeExpired
  else if t.epoch ≤ consumedEpoch then .error .resumeReplayed
  else .ok ()

/-- A token that verifies moves the accepter's epoch strictly forward. -/
theorem epoch_of_verify {hmac : Hmac} {t : ResumeToken} {key : Key} {expected : ResumeBinding}
    {nowMs consumed : UInt64} (h : t.verify hmac key expected nowMs consumed = .ok ()) :
    consumed.toNat < t.epoch.toNat := by
  unfold verify at h
  repeat' split at h
  all_goals cases h
  rename_i single
  exact UInt64.lt_iff_toNat_lt.mp (UInt64.not_le.mp single)

end ResumeToken

end PeerBeam.Session
