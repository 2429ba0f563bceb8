import PeerBeam.Lib.Run
import PeerBeam.Session.ManagerCalls
import PeerBeam.Session.Recovery

/-! Epoch freshness across recoveries. Both managers run under an environment that
chooses everything they read: a lost, delayed or replayed message is one of its
choices, and so is a message nobody sent. -/
namespace PeerBeam.Session
open TransitionRun
variable {Link : Type}

theorem PeerSession.reattachChannels_keeps (hmac : Hmac) (s : PeerSession Link)
    (openStream : ChannelId → Except SessionError Link) (channels : List (ChannelId × ChannelType)) :
    (s.reattachChannels hmac openStream channels).manager.crypto = s.manager.crypto ∧
      (s.reattachChannels hmac openStream channels).role = s.role := by
  induction channels generalizing s with
  | nil => exact ⟨rfl, rfl⟩
  | cons entry rest ih =>
    obtain ⟨id, type⟩ := entry
    have keys := s.manager.reopenChannel_crypto hmac id type (openStream id)
    rcases hr : s.manager.reopenChannel hmac id type (openStream id) with ⟨_ | message, manager⟩
    · rw [hr] at keys
      simp only [reattachChannels, hr]
      exact ⟨(ih _).1.trans keys, (ih _).2⟩
    · rw [hr] at keys
      simp only [reattachChannels, hr]
      exact ⟨(ih _).1.trans keys, (ih _).2⟩

/-- A resumed session is keyed at the epoch that was asked for. -/
theorem epoch_of_resume {codec : ControlCodec} {enc : EncryptionProvider} {hmac : Hmac}
    {preserved : PreservedSession} {epoch ttl : UInt64} {config : SessionConfig} {io : ResumeIo Link}
    {session : PeerSession Link}
    (h : resume codec enc hmac preserved epoch config ttl io = .ok session) :
    session.manager.crypto.epoch = epoch ∧ session.role = preserved.role := by
  obtain ⟨_, -, h⟩ := Outcome.ok_of_bind h
  obtain ⟨_, -, h⟩ := Outcome.ok_of_bind h
  obtain ⟨_, -, h⟩ := Outcome.ok_of_bind h
  obtain ⟨_, -, h⟩ := Outcome.ok_of_bind h
  split at h
  · cases h
  · cases h
  · cases h
    obtain ⟨keys, role⟩ := PeerSession.reattachChannels_keeps hmac _ io.openStream preserved.channels
    exact ⟨congrArg SessionCrypto.epoch keys, role⟩

/-- An accepted resume read a token above the guard, keyed the session at its epoch
and moved the guard there. -/
theorem token_of_acceptResume {codec : ControlCodec} {enc : EncryptionProvider} {hmac : Hmac}
    {preserved : PreservedSession} {config : SessionConfig} {io : AcceptIo}
    {session : PeerSession Link} {epoch : UInt64}
    (h : acceptResume codec enc hmac preserved config io = .ok (session, epoch)) :
    ∃ token, recvControlPlain codec io.request = .ok (.resumeRequest token) ∧
      preserved.consumedEpoch.toNat < token.epoch.toNat ∧
      session.manager.crypto.epoch = token.epoch ∧ session.consumedEpoch = token.epoch ∧
      session.role = preserved.role := by
  obtain ⟨stream, -, h⟩ := Outcome.ok_of_bind h
  cases stream with
  | none => cases h
  | some _ =>
    obtain ⟨message, read, h⟩ := Outcome.ok_of_bind h
    cases message with
    | resumeRequest token =>
      obtain ⟨_, -, h⟩ := Outcome.ok_of_bind h
      obtain ⟨_, verified, h⟩ := Outcome.ok_of_bind h
      obtain ⟨_, -, h⟩ := Outcome.ok_of_bind h
      obtain ⟨_, -, h⟩ := Outcome.ok_of_bind h
      cases h
      exact ⟨token, read, ResumeToken.epoch_of_verify verified, rfl, rfl, rfl⟩
    | _ => cases h

namespace Deployment
variable (d : Deployment)

/-- Any run of fewer than `2 ^ 64` attempts keeps clear of `u64`, and of `u32` too
unless the budget itself is `u32::MAX`. A build with overflow checks never wraps. -/
def Unwrapped (attempts : Nat) : Prop :=
  d.overflowChecks = true ∨
    attempts < 2 ^ 64 ∧ (attempts < 2 ^ 32 ∨ d.recovery.maxAttempts.toNat < 2 ^ 32 - 1)

variable {d}

theorem Unwrapped.mono {n m : Nat} (h : d.Unwrapped m) (le : n ≤ m) : d.Unwrapped n := by
  rcases h with checked | ⟨wide, narrow⟩
  · exact .inl checked
  · exact .inr ⟨by omega, narrow.imp (by omega) id⟩

theorem toNat_nextAttempt {attempt next : UInt32} {n : Nat} (h : d.nextAttempt attempt = some next)
    (unwrapped : d.Unwrapped (n + 1)) (made : attempt.toNat ≤ n)
    (budget : attempt ≤ d.recovery.maxAttempts) : next.toNat = attempt.toNat + 1 := by
  unfold nextAttempt at h
  split at h
  · cases h
    rename_i room
    have limit := UInt32.le_iff_toNat_le.mp budget
    have small : attempt.toNat + 1 < 2 ^ 32 := by
      rcases room with small | unchecked
      · exact small
      · rcases unwrapped with checked | ⟨-, fewer | fewer⟩
        · rw [checked] at unchecked; cases unchecked
        · omega
        · omega
    rw [UInt32.toNat_add]
    exact Nat.mod_eq_of_lt small
  · cases h

theorem toNat_attemptEpoch {epoch next : UInt64} {attempt : UInt32} {n : Nat}
    (h : d.attemptEpoch epoch attempt = some next) (unwrapped : d.Unwrapped n)
    (made : epoch.toNat + attempt.toNat ≤ n) : next.toNat = epoch.toNat + attempt.toNat := by
  unfold attemptEpoch at h
  split at h
  · cases h
    rename_i room
    have small : epoch.toNat + attempt.toNat < 2 ^ 64 := by
      rcases room with small | unchecked
      · exact small
      · rcases unwrapped with checked | ⟨fewer, -⟩
        · rw [checked] at unchecked; cases unchecked
        · omega
    rw [UInt64.toNat_add, UInt32.toNat_toUInt64]
    exact Nat.mod_eq_of_lt small
  · cases h

/-- A minted token carries the epoch of its attempt. -/
theorem mintedToken_cases {preserved : PreservedSession} {attempt : UInt32} {io : AttemptIo Link}
    {token : ResumeToken} (h : d.mintedToken preserved attempt io = some token) :
    ∃ next, d.nextAttempt attempt = some next ∧ next ≤ d.recovery.maxAttempts ∧
      d.attemptEpoch preserved.crypto.epoch next = some token.epoch := by
  unfold mintedToken at h
  cases hn : d.nextAttempt attempt with
  | none => rw [hn] at h; cases h
  | some next =>
    simp only [hn] at h
    split at h
    · cases h
    · rename_i room
      refine ⟨next, rfl, UInt32.not_lt.mp (fun spent => room (.inl spent)), ?_⟩
      split at h
      · split at h
        · cases h; assumption
        · cases h
      · cases h

/-- An initiator's attempt ends recovery, leaves it for the next attempt, or runs a
session resumed at the attempt's epoch. -/
theorem initiatorAttempt_cases {preserved : PreservedSession} (role : preserved.role = .initiator)
    (attempt : UInt32) (io : AttemptIo Link) :
    d.recoverAttempt preserved attempt io = .ended ∨
    ∃ next, d.nextAttempt attempt = some next ∧ next ≤ d.recovery.maxAttempts ∧
      (d.recoverAttempt preserved attempt io = .recovering preserved next ∨
      ∃ epoch session, d.attemptEpoch preserved.crypto.epoch next = some epoch ∧
        session.manager.crypto.epoch = epoch ∧ session.role = .initiator ∧
        d.recoverAttempt preserved attempt io = .running session) := by
  unfold recoverAttempt
  cases hn : d.nextAttempt attempt with
  | none => exact .inl rfl
  | some next =>
    simp only [role]
    by_cases spent : d.recovery.maxAttempts < next
    · exact .inl (if_pos spent)
    simp only [if_neg spent]
    by_cases unconnected : io.connected = false
    · exact .inr ⟨next, rfl, UInt32.not_lt.mp spent, .inl (if_pos unconnected)⟩
    simp only [if_neg unconnected]
    cases he : d.attemptEpoch preserved.crypto.epoch next with
    | none => exact .inl rfl
    | some epoch =>
      by_cases cut : io.finished = false
      · exact .inr ⟨next, rfl, UInt32.not_lt.mp spent, .inl (if_pos cut)⟩
      simp only [if_neg cut]
      split
      · rename_i session resumed
        obtain ⟨keyed, kept⟩ := epoch_of_resume resumed
        exact .inr ⟨next, rfl, UInt32.not_lt.mp spent,
          .inr ⟨epoch, session, he, keyed, kept.trans role, rfl⟩⟩
      · exact .inl rfl
      · exact .inl rfl
      · exact .inl rfl
      · exact .inr ⟨next, rfl, UInt32.not_lt.mp spent, .inl rfl⟩

/-- The token a responder's attempt accepted: the one it read, when the attempt
leaves a live session. -/
def acceptedToken (d : Deployment) (preserved : PreservedSession) (attempt : UInt32)
    (io : AttemptIo Link) : Option ResumeToken :=
  match preserved.role, d.recoverAttempt preserved attempt io with
  | .responder, .running _ =>
    match recvControlPlain d.codec io.accept.request with
    | .ok (.resumeRequest token) => some token
    | _ => none
  | _, _ => none

/-- A responder's attempt ends recovery, leaves it as it was, or runs a session at
the epoch of a token above the guard. -/
theorem responderAttempt_cases {preserved : PreservedSession} (role : preserved.role = .responder)
    (attempt : UInt32) (io : AttemptIo Link) :
    d.acceptedToken preserved attempt io = none ∧
      (d.recoverAttempt preserved attempt io = .ended ∨
        ∃ next, d.recoverAttempt preserved attempt io = .recovering preserved next) ∨
    ∃ token session, d.acceptedToken preserved attempt io = some token ∧
      preserved.consumedEpoch.toNat < token.epoch.toNat ∧
      session.manager.crypto.epoch = token.epoch ∧ session.consumedEpoch = token.epoch ∧
      session.role = .responder ∧ d.recoverAttempt preserved attempt io = .running session := by
  have outcome : d.recoverAttempt preserved attempt io = .ended ∨
      (∃ next, d.recoverAttempt preserved attempt io = .recovering preserved next) ∨
      ∃ session epoch, d.recoverAttempt preserved attempt io = .running session ∧
        acceptResume d.codec d.enc d.hmac preserved d.session io.accept = .ok (session, epoch) := by
    unfold recoverAttempt
    simp only [role]
    repeat' split
    all_goals first
      | exact .inl rfl
      | exact .inr (.inl ⟨_, rfl⟩)
      | exact .inr (.inr ⟨_, _, rfl, by assumption⟩)
  obtain ended | ⟨next, again⟩ | ⟨session, epoch, runs, accepted⟩ := outcome
  · exact .inl ⟨by simp only [acceptedToken, role, ended], .inl ended⟩
  · exact .inl ⟨by simp only [acceptedToken, role, again], .inr ⟨next, again⟩⟩
  · obtain ⟨token, read, above, keyed, guarded, kept⟩ := token_of_acceptResume accepted
    exact .inr ⟨token, session, by simp only [acceptedToken, role, runs, read], above, keyed, guarded,
      kept.trans role, runs⟩

end Deployment

structure Endpoint (Link : Type) where
  state : RecoveryState Link
  minted : List ResumeToken
  /-- Tokens `accept_resume` returned a session for. -/
  accepted : List ResumeToken
  /-- Epochs of the sessions installed, the first one included. -/
  installed : List UInt64
  attempts : Nat

inductive EndpointEvent (Link : Type) where
  | lost
  | closed
  | used (call : ManagerCall Link)
  | attempt (io : AttemptIo Link)

def RecoveryState.liveEpoch : RecoveryState Link → Option UInt64
  | running session => some session.manager.crypto.epoch
  | _ => none

def Endpoint.step (d : Deployment) (e : Endpoint Link) : EndpointEvent Link → Endpoint Link
  | .lost => { e with state := e.state.lose }
  | .closed => { e with state := e.state.close }
  | .used call => { e with state := e.state.call d.hmac call }
  | .attempt io =>
    match e.state with
    | .recovering preserved attempt =>
      let state := d.recoverAttempt preserved attempt io
      { state
        minted := e.minted ++ (match preserved.role with
          | .initiator => d.mintedToken preserved attempt io
          | .responder => none).toList
        accepted := e.accepted ++ (d.acceptedToken preserved attempt io).toList
        installed := e.installed ++ state.liveEpoch.toList
        attempts := e.attempts + 1 }
    | _ => e

/-- An endpoint whose handshake has just ended: epoch 0, nothing consumed. -/
def Endpoint.start (role : SessionRole) (id : SessionId) («local» peer : DeviceId) (version : Version)
    (negotiated : ChannelType → Bool) (masterSend masterRecv : Key) (controlCrypto : ChannelCrypto)
    (config : SessionConfig) : Endpoint Link where
  state := .running (.assemble role id «local» peer version negotiated
    ⟨masterSend, masterRecv, role, 0⟩ controlCrypto config 0)
  minted := []
  accepted := []
  installed := [0]
  attempts := 0

structure World (Link : Type) where
  initiator : Endpoint Link
  responder : Endpoint Link

inductive WorldEvent (Link : Type) where
  | initiator (event : EndpointEvent Link)
  | responder (event : EndpointEvent Link)

def World.step (d : SessionRole → Deployment) (w : World Link) : WorldEvent Link → World Link
  | .initiator event => { w with initiator := w.initiator.step (d .initiator) event }
  | .responder event => { w with responder := w.responder.step (d .responder) event }

def World.run (d : SessionRole → Deployment) (w : World Link) (events : List (WorldEvent Link)) :
    World Link :=
  events.foldl (World.step d) w

def ResumeToken.order (token : ResumeToken) : Nat := token.epoch.toNat

/-- While it recovers, the initiator has minted up to the epoch of its last attempt
and installed up to the epoch it lost. -/
def InitiatorFresh (d : Deployment) (e : Endpoint Link) : Prop :=
  match e.state with
  | .running s => s.role = .initiator ∧ s.manager.crypto.epoch.toNat ≤ e.attempts ∧
      Rising ResumeToken.order e.minted s.manager.crypto.epoch.toNat ∧
      Rising UInt64.toNat e.installed s.manager.crypto.epoch.toNat
  | .recovering p attempt => p.role = .initiator ∧ attempt ≤ d.recovery.maxAttempts ∧
      p.crypto.epoch.toNat + attempt.toNat ≤ e.attempts ∧
      Rising ResumeToken.order e.minted (p.crypto.epoch.toNat + attempt.toNat) ∧
      Rising UInt64.toNat e.installed p.crypto.epoch.toNat
  | .ended => ∃ top, Rising ResumeToken.order e.minted top ∧ Rising UInt64.toNat e.installed top

def ResponderFresh (e : Endpoint Link) : Prop :=
  match e.state with
  | .running s => s.role = .responder ∧
      Rising ResumeToken.order e.accepted s.consumedEpoch.toNat ∧
      Rising UInt64.toNat e.installed s.consumedEpoch.toNat
  | .recovering p _ => p.role = .responder ∧
      Rising ResumeToken.order e.accepted p.consumedEpoch.toNat ∧
      Rising UInt64.toNat e.installed p.consumedEpoch.toNat
  | .ended => ∃ top, Rising ResumeToken.order e.accepted top ∧ Rising UInt64.toNat e.installed top

private theorem initiator_attempt {d : Deployment} {e : Endpoint Link} {preserved : PreservedSession}
    {attempt : UInt32} (recovering : e.state = .recovering preserved attempt) (io : AttemptIo Link)
    (h : InitiatorFresh d e) (unwrapped : d.Unwrapped (e.attempts + 1)) :
    InitiatorFresh d (e.step d (.attempt io)) := by
  simp only [InitiatorFresh, recovering] at h
  obtain ⟨role, budget, made, minted, installed⟩ := h
  -- the epoch of this attempt lies above every epoch minted so far
  have epoch_eq : ∀ next epoch, d.nextAttempt attempt = some next →
      d.attemptEpoch preserved.crypto.epoch next = some epoch →
      epoch.toNat = preserved.crypto.epoch.toNat + attempt.toNat + 1 := by
    intro next epoch hn he
    have step := Deployment.toNat_nextAttempt hn unwrapped (by omega) budget
    rw [Deployment.toNat_attemptEpoch he unwrapped (by omega), step]
    rfl
  have minted' : Rising ResumeToken.order (e.minted ++ (d.mintedToken preserved attempt io).toList)
      (preserved.crypto.epoch.toNat + attempt.toNat + 1) := by
    refine minted.pushOption (Nat.le_succ _) (fun token some => ?_)
    obtain ⟨next, hn, -, he⟩ := Deployment.mintedToken_cases some
    have exact_epoch : token.order = _ := epoch_eq next _ hn he
    omega
  simp only [InitiatorFresh, Endpoint.step, recovering, role]
  obtain ended | ⟨next, hn, within, again | ⟨epoch, session, he, keyed, kept, runs⟩⟩ :=
    Deployment.initiatorAttempt_cases (d := d) role attempt io
  · simp only [ended, RecoveryState.liveEpoch, Option.toList_none, List.append_nil]
    exact ⟨_, minted', installed.mono (by omega)⟩
  · have step := Deployment.toNat_nextAttempt hn unwrapped (by omega) budget
    simp only [again, RecoveryState.liveEpoch, Option.toList_none, List.append_nil]
    refine ⟨role, within, by omega, ?_, installed⟩
    rw [step]
    exact minted'
  · have at_epoch := epoch_eq next epoch hn he
    simp only [runs, RecoveryState.liveEpoch, keyed]
    refine ⟨kept, by omega, minted'.mono (by omega), installed.push ?_⟩
    omega

/-- Nothing comes back from the end of recovery. -/
theorem Endpoint.step_ended (d : Deployment) (e : Endpoint Link) (ended : e.state = .ended)
    (event : EndpointEvent Link) : e.step d event = e := by
  obtain ⟨state, minted, accepted, installed, attempts⟩ := e
  subst ended
  cases event with
  | attempt _ | lost | closed | used _ => rfl

theorem initiator_step {d : Deployment} {e : Endpoint Link} (event : EndpointEvent Link)
    (h : InitiatorFresh d e) (unwrapped : d.Unwrapped (e.step d event).attempts) :
    InitiatorFresh d (e.step d event) := by
  cases hs : e.state with
  | ended =>
    rw [e.step_ended d hs]
    exact h
  | recovering preserved attempt =>
    cases event with
    | attempt io =>
      refine initiator_attempt hs io h ?_
      simpa only [Endpoint.step, hs] using unwrapped
    | lost | closed | used call =>
      simp only [InitiatorFresh, Endpoint.step, RecoveryState.lose, RecoveryState.close,
        RecoveryState.call, hs] at h ⊢
      exact h
  | running session =>
    simp only [InitiatorFresh, hs] at h
    cases event with
    | attempt io => simpa only [InitiatorFresh, Endpoint.step, hs] using h
    | lost =>
      obtain ⟨role, made, minted, installed⟩ := h
      simp only [InitiatorFresh, Endpoint.step, RecoveryState.lose, hs]
      exact ⟨role, Nat.zero_le _, made, minted, installed⟩
    | closed =>
      simp only [InitiatorFresh, Endpoint.step, RecoveryState.close, hs]
      exact ⟨_, h.2.2⟩
    | used call =>
      simp only [InitiatorFresh, Endpoint.step, RecoveryState.call, hs,
        ChannelManager.step_crypto]
      exact h

private theorem responder_attempt {d : Deployment} {e : Endpoint Link} {preserved : PreservedSession}
    {attempt : UInt32} (recovering : e.state = .recovering preserved attempt) (io : AttemptIo Link)
    (h : ResponderFresh e) : ResponderFresh (e.step d (.attempt io)) := by
  simp only [ResponderFresh, recovering] at h
  obtain ⟨role, accepted, installed⟩ := h
  simp only [ResponderFresh, Endpoint.step, recovering, role]
  obtain ⟨refused, ended | ⟨next, again⟩⟩ | ⟨token, session, took, above, keyed, guarded, kept, runs⟩ :=
    Deployment.responderAttempt_cases (d := d) role attempt io
  · simp only [ended, refused, RecoveryState.liveEpoch, Option.toList_none, List.append_nil]
    exact ⟨_, accepted, installed⟩
  · simp only [again, refused, RecoveryState.liveEpoch, Option.toList_none, List.append_nil]
    exact ⟨role, accepted, installed⟩
  · simp only [runs, took, RecoveryState.liveEpoch, keyed, guarded]
    exact ⟨kept, accepted.push above, installed.push above⟩

theorem responder_step {d : Deployment} {e : Endpoint Link} (event : EndpointEvent Link)
    (h : ResponderFresh e) : ResponderFresh (e.step d event) := by
  cases hs : e.state with
  | ended =>
    rw [e.step_ended d hs]
    exact h
  | recovering preserved attempt =>
    cases event with
    | attempt io => exact responder_attempt hs io h
    | lost | closed | used call =>
      simp only [ResponderFresh, Endpoint.step, RecoveryState.lose, RecoveryState.close,
        RecoveryState.call, hs] at h ⊢
      exact h
  | running session =>
    simp only [ResponderFresh, hs] at h
    cases event with
    | closed =>
      simp only [ResponderFresh, Endpoint.step, RecoveryState.close, hs]
      exact ⟨_, h.2⟩
    | attempt io | lost | used call =>
      simp only [ResponderFresh, Endpoint.step, RecoveryState.lose, RecoveryState.call, hs]
      exact h

theorem attempts_step (d : Deployment) (e : Endpoint Link) (event : EndpointEvent Link) :
    e.attempts ≤ (e.step d event).attempts := by
  cases event with
  | attempt io =>
    simp only [Endpoint.step]
    split
    · exact Nat.le_succ _
    · exact Nat.le_refl _
  | lost | closed | used call => exact Nat.le_refl _

theorem InitiatorFresh.rising {d : Deployment} {e : Endpoint Link} (h : InitiatorFresh d e) :
    e.minted.Pairwise (·.epoch < ·.epoch) ∧ e.installed.Pairwise (· < ·) := by
  have logs : ∃ top top', Rising ResumeToken.order e.minted top ∧
      Rising UInt64.toNat e.installed top' := by
    unfold InitiatorFresh at h
    split at h
    · exact ⟨_, _, h.2.2⟩
    · exact ⟨_, _, h.2.2.2⟩
    · exact ⟨_, _, h.choose_spec⟩
  obtain ⟨_, _, minted, installed⟩ := logs
  exact ⟨minted.1.imp UInt64.lt_iff_toNat_lt.mpr, installed.1.imp UInt64.lt_iff_toNat_lt.mpr⟩

theorem ResponderFresh.rising {e : Endpoint Link} (h : ResponderFresh e) :
    e.accepted.Pairwise (·.epoch < ·.epoch) ∧ e.installed.Pairwise (· < ·) := by
  have logs : ∃ top, Rising ResumeToken.order e.accepted top ∧ Rising UInt64.toNat e.installed top := by
    unfold ResponderFresh at h
    split at h
    · exact ⟨_, h.2⟩
    · exact ⟨_, h.2⟩
    · exact h
  obtain ⟨_, accepted, installed⟩ := logs
  exact ⟨accepted.1.imp UInt64.lt_iff_toNat_lt.mpr, installed.1.imp UInt64.lt_iff_toNat_lt.mpr⟩

structure Agreement where
  id : SessionId
  initiator : DeviceId
  responder : DeviceId
  version : Version
  negotiated : ChannelType → Bool
  /-- Master secret of the direction initiator to responder, and of the other. -/
  forward : Key
  reverse : Key
  control : SessionRole → ChannelCrypto
  config : SessionRole → SessionConfig

/-- Both sides right after the handshake. -/
def World.start (a : Agreement) : World Link where
  initiator := .start .initiator a.id a.initiator a.responder a.version a.negotiated a.forward
    a.reverse (a.control .initiator) (a.config .initiator)
  responder := .start .responder a.id a.responder a.initiator a.version a.negotiated a.reverse
    a.forward (a.control .responder) (a.config .responder)

/-- In every run the responder's installs and accepted tokens, and the initiator's
minted tokens and installs, strictly increase in epoch. -/
theorem epoch_freshness (d : SessionRole → Deployment) (a : Agreement)
    (events : List (WorldEvent Link))
    (unwrapped : (d .initiator).Unwrapped ((World.start a).run d events).initiator.attempts) :
    let w := (World.start a).run d events
    w.responder.installed.Pairwise (· < ·) ∧
    w.responder.accepted.Pairwise (·.epoch < ·.epoch) ∧
    w.initiator.minted.Pairwise (·.epoch < ·.epoch) ∧
    w.initiator.installed.Pairwise (· < ·) := by
  intro w
  have single : ∀ top, Rising UInt64.toNat [0] top := fun top =>
    ⟨List.pairwise_singleton .., fun x mem => by rw [List.mem_singleton.mp mem]; exact Nat.zero_le _⟩
  have none_yet : ∀ top, Rising ResumeToken.order [] top := fun top =>
    ⟨List.Pairwise.nil, fun x mem => absurd mem List.not_mem_nil⟩
  have fresh : ((d .initiator).Unwrapped w.initiator.attempts →
      InitiatorFresh (d .initiator) w.initiator) ∧ ResponderFresh w.responder := by
    refine invariant (I := fun w : World Link => ((d .initiator).Unwrapped w.initiator.attempts →
      InitiatorFresh (d .initiator) w.initiator) ∧ ResponderFresh w.responder) ?_ ?_ events
    · exact ⟨fun _ => ⟨rfl, Nat.zero_le _, none_yet _, single _⟩, rfl, none_yet _, single _⟩
    · intro w event h
      cases event with
      | initiator event =>
        refine ⟨fun below => initiator_step event (h.1 (below.mono ?_)) below, h.2⟩
        exact attempts_step ..
      | responder event => exact ⟨h.1, responder_step event h.2⟩
  obtain ⟨minted, kept⟩ := (fresh.1 unwrapped).rising
  obtain ⟨accepted, installed⟩ := fresh.2.rising
  exact ⟨installed, accepted, minted, kept⟩

/-! Two attempts whose answers never come, on a build without overflow checks. -/

private def testDeployment : Deployment where
  overflowChecks := false
  hmac := zeroHmac
  codec := testCodec
  enc := testEnc
  recovery := ⟨5, 60000⟩
  session := ⟨8, []⟩

private def testAgreement : Agreement where
  id := Vector.replicate _ 0
  initiator := "a"
  responder := "b"
  version := ⟨1, 0⟩
  negotiated _ := true
  forward := Vector.replicate 32 0
  reverse := Vector.replicate 32 0
  control _ := .fromKeys (Vector.replicate 32 0) (Vector.replicate 32 0) (Vector.replicate _ 0)
    (Vector.replicate _ 0)
  config _ := ⟨8, []⟩

private def unanswered : AttemptIo Nat where
  connected := true
  finished := false
  resume := ⟨.ok (), 7, .ok (), .ok none, fun _ => .error (.link "down")⟩
  accept := ⟨.ok none, .ok none, 7, .ok ()⟩

private def unansweredRun : List (WorldEvent Nat) :=
  [.initiator .lost, .initiator (.attempt unanswered), .responder .lost,
    .initiator (.attempt unanswered), .responder (.attempt unanswered)]

theorem epoch_freshness_unanswered :
    let w := (World.start testAgreement).run (fun _ => testDeployment) unansweredRun
    w.initiator.minted.map (·.epoch) = [1, 2] ∧ w.initiator.minted.Pairwise (·.epoch < ·.epoch) := by
  intro w
  refine ⟨by decide +kernel, ?_⟩
  exact (epoch_freshness (fun _ => testDeployment) testAgreement unansweredRun
    (.inr ⟨by decide +kernel, .inl (by decide +kernel)⟩)).2.2.1

end PeerBeam.Session
