import PeerBeam.Session.ManagerCalls
import PeerBeam.Session.Recovery
import PeerBeam.Session.SealedPipe

/-! What an accepted resume proves about the peer: when the reply that was accepted
had opened under the epoch control key. -/
namespace PeerBeam.Session
variable {Link : Type}

def PlaintextAccept (codec : ControlCodec) (payload : Bytes) : Prop :=
  ∃ frame reason, SessionFrame.decode payload = .ok frame ∧
    ControlMessage.fromFrame codec frame = .ok (.resumeAck true reason)

@[simp] theorem replyFrom_eq_accepted {accepted : Bool} {reason : String} :
    replyFrom accepted reason = .accepted ↔ accepted = true := by
  cases accepted <;> simp [replyFrom]

/-- A frame that did not open is accepted exactly when it is a plaintext accept. -/
theorem accepted_of_unopened {codec : ControlCodec} {enc : EncryptionProvider}
    {crypto crypto' : ChannelCrypto} {payload : Bytes} {e : SessionError}
    (unopened : crypto.openFrame enc payload = (.error e, crypto')) :
    (recvResumeReply codec enc (.ok (some payload)) crypto).1 = .ok .accepted ↔
      PlaintextAccept codec payload := by
  simp only [recvResumeReply, unopened, PlaintextAccept]
  cases hd : SessionFrame.decode payload with
  | error e => simp
  | ok frame =>
    cases hm : ControlMessage.fromFrame codec frame with
    | error e => simp [hm]
    | ok message =>
      cases message with
      | resumeAck accepted reason => simp [hm]
      | _ => simp [hm]

/-- The message type of a plaintext acknowledgement lies where a sealed frame has
its counter, so no context that has received nothing opens it. -/
theorem plaintextAccept_unopened {codec : ControlCodec} {enc : EncryptionProvider}
    {crypto : ChannelCrypto} (fresh : crypto.recvCtr = 0) {payload : Bytes}
    (h : PlaintextAccept codec payload) : ∃ e crypto', crypto.openFrame enc payload = (.error e, crypto') := by
  obtain ⟨frame, reason, decoded, ack⟩ := h
  cases ho : crypto.openFrame enc payload with
  | mk result crypto' =>
    cases result with
    | error e => exact ⟨e, crypto', rfl⟩
    | ok plain =>
      exfalso
      have word := (openFrame_ok_iff.mp ho).2.2.1
      rw [fresh] at word
      have zeros := BigEndian.eq_zero_of_read (word.trans rfl)
      have inside : (payload.drop 8).take 2 = (((payload.drop 4).take 8).drop 4).take 2 := by
        rw [List.drop_take, List.drop_drop, List.take_take]
        rfl
      have type : frame.messageType = 0 := by
        rw [(SessionFrame.messageType_of_decode decoded).2, inside, BigEndian.read_zeros]
        · rfl
        · exact fun b mem => zeros b (List.mem_of_mem_drop (List.mem_of_mem_take mem))
      have ten := ControlMessage.messageType_of_fromFrame ack
      rw [type] at ten
      exact absurd ten (show ¬ UInt16.toNat 10 = UInt16.toNat 0 by decide)

/-- The control context of every epoch derives and has received nothing. -/
theorem SessionCrypto.control_fresh (crypto : SessionCrypto) (hmac : Hmac) :
    ∃ control, crypto.control hmac = .ok control ∧ control.recvCtr = 0 := by
  obtain ⟨_, _, _, _, derived⟩ := crypto.derive_ok hmac controlChannel controlVersion
  exact ⟨_, derived, rfl⟩

/-- A resume that assembles a session had its reply accepted. -/
theorem reply_accepted_of_resume {hmac : Hmac} {codec : ControlCodec} {enc : EncryptionProvider}
    {preserved : PreservedSession} {epoch ttl : UInt64} {config : SessionConfig} {io : ResumeIo Link}
    {session : PeerSession Link} {control : ChannelCrypto}
    (hc : (preserved.crypto.withEpoch epoch).control hmac = .ok control)
    (h : resume codec enc hmac preserved epoch config ttl io = .ok session) :
    (recvResumeReply codec enc io.reply control).1 = .ok .accepted := by
  obtain ⟨_, -, h⟩ := Outcome.ok_of_bind h
  obtain ⟨control', derived, h⟩ := Outcome.ok_of_bind h
  cases hc.symm.trans derived
  obtain ⟨_, -, h⟩ := Outcome.ok_of_bind h
  obtain ⟨_, -, h⟩ := Outcome.ok_of_bind h
  split at h
  · cases h
  · cases h
  · rename_i reply
    rw [reply]

/-- For every reply: an accepted resume shows that the frame opened under the epoch
control key exactly when the frame is not a plaintext accept. Whoever cannot seal
under that key is accepted with a plaintext accept and with nothing else. -/
theorem accepted_resume_opened_iff (hmac : Hmac) (codec : ControlCodec) (enc : EncryptionProvider)
    (preserved : PreservedSession) (epoch : UInt64) (payload : Bytes) :
    ∃ control, (preserved.crypto.withEpoch epoch).control hmac = .ok control ∧
      (∀ (config : SessionConfig) (ttl : UInt64) (io : ResumeIo Link) session,
        io.reply = .ok (some payload) →
        resume codec enc hmac preserved epoch config ttl io = .ok session →
        (recvResumeReply codec enc (.ok (some payload)) control).1 = .ok .accepted) ∧
      (((recvResumeReply codec enc (.ok (some payload)) control).1 = .ok .accepted →
          ∃ plain, (control.openFrame enc payload).1 = .ok plain) ↔
        ¬ PlaintextAccept codec payload) ∧
      ∀ sealed : Bytes → Prop, (∀ f plain, enc.openBytes control.recvKey f = .ok plain → sealed f) →
        ¬ sealed payload →
        ((recvResumeReply codec enc (.ok (some payload)) control).1 = .ok .accepted ↔
          PlaintextAccept codec payload) := by
  obtain ⟨control, hc, fresh⟩ := (preserved.crypto.withEpoch epoch).control_fresh hmac
  refine ⟨control, hc, ?_, ?_, ?_⟩
  · intro config ttl io session reply resumed
    rw [← reply]
    exact reply_accepted_of_resume hc resumed
  · constructor
    · intro proves plaintext
      obtain ⟨e, crypto', unopened⟩ : ∃ e crypto', control.openFrame enc payload = (.error e, crypto') :=
        plaintextAccept_unopened fresh plaintext
      obtain ⟨plain, opened⟩ := proves ((accepted_of_unopened unopened).mpr plaintext)
      rw [unopened] at opened
      cases opened
    · intro foreign accepted
      cases ho : control.openFrame enc payload with
      | mk result crypto' =>
        cases result with
        | ok plain => exact ⟨plain, rfl⟩
        | error e => exact absurd ((accepted_of_unopened ho).mp accepted) foreign
  · intro sealed authentic forged
    cases ho : control.openFrame enc payload with
    | mk result crypto' =>
      cases result with
      | ok plain => exact absurd (authentic _ _ (openFrame_ok_iff.mp ho).2.2.2.1) forged
      | error e => exact accepted_of_unopened ho

/-! A hostile responder answers in plaintext. -/

private def plaintextAck : Bytes := SessionFrame.encode ⟨0, 10, .endOfMessage, acceptBody⟩

/-- A plaintext acknowledgement is accepted although it opens under no key. -/
theorem plaintext_ack_accepted : ∃ control, (zeroCrypto.withEpoch 1).control zeroHmac = .ok control ∧
    ¬ ((recvResumeReply testCodec testEnc (.ok (some plaintextAck)) control).1 = .ok .accepted →
      ∃ plain, (control.openFrame testEnc plaintextAck).1 = .ok plain) := by
  obtain ⟨control, derived, fresh⟩ := (zeroCrypto.withEpoch 1).control_fresh zeroHmac
  refine ⟨control, derived, fun proves => ?_⟩
  have plaintext : PlaintextAccept testCodec plaintextAck :=
    ⟨⟨0, 10, .endOfMessage, acceptBody⟩, "", SessionFrame.decode_encode _ (by decide), rfl⟩
  obtain ⟨e, crypto', unopened⟩ := plaintextAccept_unopened fresh plaintext
  obtain ⟨plain, opened⟩ := proves ((accepted_of_unopened unopened).mpr plaintext)
  rw [unopened] at opened
  cases opened

end PeerBeam.Session
