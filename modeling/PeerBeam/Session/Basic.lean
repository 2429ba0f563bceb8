import Mathlib

/-! Identifiers, versions and errors of the session layer. -/
namespace PeerBeam.Session

abbrev Bytes := List UInt8
/-- A channel within a session; `0` is the control channel. -/
abbrev ChannelId := UInt64
abbrev ChannelType := UInt16
abbrev MessageType := UInt16
abbrev SessionId := Vector UInt8 16
abbrev DeviceId := String

def controlChannel : ChannelId := 0

structure Version where
  major : UInt16
  minor : UInt16
  deriving DecidableEq, Repr

inductive SessionRole where
  | initiator
  | responder
  deriving DecidableEq, Repr

inductive SessionState where
  | connecting
  | authenticating
  | negotiating
  | active
  | recovering
  | shuttingDown
  | closed
  | failed
  deriving DecidableEq, Repr

/-- The errors the modelled functions return, with the source's texts. -/
inductive SessionError where
  | frameDecode (detail : String)
  | unexpectedMessage (state : SessionState) (detail : String)
  | link (detail : String)
  | serialization (detail : String)
  | channel (detail : String)
  | resumeRejected (reason : String)
  | resumeExpired
  | resumeReplayed
  | recoveryExhausted (attempts : Nat)
  deriving DecidableEq, Repr

/-- `Debug` of a state: the variant's name. -/
def SessionState.debug : SessionState → String
  | .connecting => "Connecting"
  | .authenticating => "Authenticating"
  | .negotiating => "Negotiating"
  | .active => "Active"
  | .recovering => "Recovering"
  | .shuttingDown => "ShuttingDown"
  | .closed => "Closed"
  | .failed => "Failed"

/-- `Display` of an error, the text a peer is sent as a reason. -/
def SessionError.display : SessionError → String
  | .frameDecode detail => "frame decode failed: " ++ detail
  | .unexpectedMessage state detail =>
    "unexpected message in state " ++ state.debug ++ ": " ++ detail
  | .link detail => "link error: " ++ detail
  | .serialization detail => "serialization error: " ++ detail
  | .channel detail => "channel error: " ++ detail
  | .resumeRejected reason => "resume rejected: " ++ reason
  | .resumeExpired => "resume token expired"
  | .resumeReplayed => "resume token replayed"
  | .recoveryExhausted attempts => "recovery attempts exhausted after " ++ toString attempts

/-- `u64::checked_add`. -/
def checkedAdd (a b : UInt64) : Option UInt64 :=
  if a.toNat + b.toNat < 2 ^ 64 then some (a + b) else none

theorem checkedAdd_eq_some {a b c : UInt64} :
    checkedAdd a b = some c ↔ a.toNat + b.toNat < 2 ^ 64 ∧ c.toNat = a.toNat + b.toNat := by
  unfold checkedAdd
  split
  case isTrue fits =>
    have sum : (a + b).toNat = a.toNat + b.toNat := by
      rw [UInt64.toNat_add, Nat.mod_eq_of_lt fits]
    rw [Option.some.injEq, ← UInt64.toNat_inj, sum]
    exact ⟨fun h => ⟨fits, h.symm⟩, fun h => h.2.symm⟩
  case isFalse big =>
    constructor
    · intro h
      cases h
    · exact fun h => absurd h.1 big

theorem checkedAdd_eq_none {a b : UInt64} :
    checkedAdd a b = none ↔ 2 ^ 64 ≤ a.toNat + b.toNat := by
  unfold checkedAdd
  split
  case isTrue fits =>
    constructor
    · intro h
      cases h
    · exact fun h => absurd fits (Nat.not_lt.mpr h)
  case isFalse big => exact ⟨fun _ => Nat.not_lt.mp big, fun _ => rfl⟩

end PeerBeam.Session
