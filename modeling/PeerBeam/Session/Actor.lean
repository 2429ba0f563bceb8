import PeerBeam.Session.Frame
import PeerBeam.Session.SealedPipe

/-! One channel's actor: it writes the frames queued for its stream and hands what
arrives to the channel's message handler, one at a time. -/
namespace PeerBeam.Session
open ChannelCrypto

/-- Type of the frame that only materialises a stream; it is never dispatched. -/
def probeMessageType : MessageType := 0

abbrev MessageHandler := SessionFrame → Except SessionError Unit

structure ChannelStats where
  framesSent : Nat := 0
  framesRecv : Nat := 0
  bytesSent : Nat := 0
  bytesRecv : Nat := 0
  deriving DecidableEq, Repr

inductive ActorCommand where
  | send (frame : SessionFrame)
  /-- Finish and close the stream. -/
  | close
  /-- The peer is closing the session: read to the end of its stream, then stop. -/
  | drain
  deriving DecidableEq

namespace ActorCommand

def frame? : ActorCommand → Option SessionFrame
  | send frame => some frame
  | close | drain => none

end ActorCommand

inductive ActorPhase where
  | running
  /-- In `finish_send`, after a `Close`. -/
  | flushing
  | draining
  | stopped
  deriving DecidableEq, Repr

/-- `accepted` and `handled` are records no step reads: the frames that were queued
for sending, and those its handler was given. -/
structure Actor where
  handler : Option MessageHandler
  crypto : ChannelCrypto
  stats : ChannelStats
  queue : List ActorCommand
  phase : ActorPhase
  accepted : List SessionFrame
  handled : List SessionFrame

namespace Actor

def new (handler : Option MessageHandler) (crypto : ChannelCrypto) : Actor :=
  ⟨handler, crypto, {}, [], .running, [], []⟩

def push (a : Actor) (command : ActorCommand) : Actor :=
  { a with queue := a.queue ++ [command], accepted := a.accepted ++ command.frame?.toList }

def signal (a : Actor) (command : ActorCommand) : Actor :=
  if a.phase = .stopped then a else a.push command

def stop (a : Actor) : Actor := { a with phase := .stopped }

section Steps
variable (enc : EncryptionProvider)

/-- The `Send` arm over a link that is up or not: what was written, and the detail
of a failure. -/
def writeFrame (a : Actor) (frame : SessionFrame) (up : Bool) : Actor × List Bytes × Option String :=
  match a.crypto.sealFrame enc frame.encode with
  | .error e => (a, [], some e.display)
  | .ok sealed =>
    if !up then (a, [], some "send failed")
    else
      -- the counter moves only after the link took the frame
      match a.crypto.advanceSend with
      | .error e => (a, [sealed], some e.display)
      | .ok crypto =>
        let stats := { a.stats with
          framesSent := a.stats.framesSent + 1
          bytesSent := a.stats.bytesSent + frame.payload.length }
        ({ a with crypto, stats }, [sealed], none)

def deliver (a : Actor) (payload : Bytes) : Actor × Option String :=
  match a.crypto.openFrame enc payload with
  | (.error e, crypto) => ({ a with crypto }, some e.display)
  | (.ok plain, crypto) =>
    match SessionFrame.decode plain with
    | .error e => ({ a with crypto }, some e.display)
    | .ok frame =>
      let stats := { a.stats with
        framesRecv := a.stats.framesRecv + 1
        bytesRecv := a.stats.bytesRecv + frame.payload.length }
      let a := { a with crypto, stats }
      if frame.messageType = probeMessageType then (a, none)
      else
        match a.handler with
        | none => (a, none)
        | some handle =>
          let a := { a with handled := a.handled ++ [frame] }
          match handle frame with
          | .ok () => (a, none)
          | .error e => (a, some e.display)

end Steps

@[simp] theorem push_queue (a : Actor) (command : ActorCommand) :
    (a.push command).queue = a.queue ++ [command] := rfl

@[simp] theorem push_accepted (a : Actor) (command : ActorCommand) :
    (a.push command).accepted = a.accepted ++ command.frame?.toList := rfl

end Actor

section Carried
variable (enc : EncryptionProvider) (key : Key) (noncePrefix : NoncePrefix)

/-- The bytes are these frames, sealed under successive counters from the first to
the second, each with a payload its length word can hold. -/
inductive Carries : UInt64 → List SessionFrame → List Bytes → UInt64 → Prop
  | nil (ctr : UInt64) : Carries ctr [] [] ctr
  | cons {ctr next last : UInt64} {frame : SessionFrame} {frames : List SessionFrame} {sealed : Bytes}
      {rest : List Bytes} : enc.sealBytes key (nonce noncePrefix ctr) frame.encode = .ok sealed →
      checkedAdd ctr 1 = some next → frame.payload.length < 2 ^ 32 → Carries next frames rest last →
      Carries ctr (frame :: frames) (sealed :: rest) last

variable {enc key noncePrefix} {ctr last next : UInt64} {frames : List SessionFrame} {bytes : List Bytes}

theorem Carries.push (h : Carries enc key noncePrefix ctr frames bytes last) {frame : SessionFrame} {sealed : Bytes}
    (made : enc.sealBytes key (nonce noncePrefix last) frame.encode = .ok sealed)
    (more : checkedAdd last 1 = some next) (fits : frame.payload.length < 2 ^ 32) :
    Carries enc key noncePrefix ctr (frames ++ [frame]) (bytes ++ [sealed]) next := by
  induction h with
  | nil ctr => exact .cons made more fits (.nil next)
  | cons first advance short _ ih => exact .cons first advance short (ih made more)

theorem Carries.of_nil (h : Carries enc key noncePrefix ctr frames [] last) : frames = [] ∧ last = ctr := by
  cases h with
  | nil => exact ⟨rfl, rfl⟩

theorem Carries.uncons {sealed : Bytes} {rest : List Bytes}
    (h : Carries enc key noncePrefix ctr frames (sealed :: rest) last) : ∃ frame others next,
      frames = frame :: others ∧ enc.sealBytes key (nonce noncePrefix ctr) frame.encode = .ok sealed ∧
      checkedAdd ctr 1 = some next ∧ frame.payload.length < 2 ^ 32 ∧
      Carries enc key noncePrefix next others rest last := by
  cases h with
  | cons made advance fits later => exact ⟨_, _, _, rfl, made, advance, fits, later⟩

end Carried

/-- What one end seals next is what the other opens next. -/
structure Mirrors (sender receiver : ChannelCrypto) (ctr : UInt64) : Prop where
  key : sender.sendKey = receiver.recvKey
  noncePrefix : sender.sendPrefix = receiver.recvPrefix
  ctr : ctr = receiver.recvCtr

section Opening
variable {gcm : Aes256Gcm} {sender receiver : ChannelCrypto} {ctr next : UInt64} {frame : SessionFrame} {sealed : Bytes}

/-- The next frame of a run opens, and moves the receive counter by one. -/
theorem Mirrors.open_ok (correct : gcm.Correct) (h : Mirrors sender receiver ctr)
    (made : (aeadCrypto gcm).sealBytes sender.sendKey (nonce sender.sendPrefix ctr) frame.encode = .ok sealed)
    (advance : checkedAdd ctr 1 = some next) :
    receiver.openFrame (aeadCrypto gcm) sealed = (.ok frame.encode, { receiver with recvCtr := next }) := by
  have sealed_by : { sender with sendCtr := ctr }.sealFrame (aeadCrypto gcm) frame.encode = .ok sealed := made
  obtain ⟨long, head, word⟩ := sealFrame_layout sealed_by
  have opened := aeadCrypto_open_seal correct made
  rw [h.key] at opened
  refine openFrame_ok_iff.mpr ⟨long, head.trans (congrArg Vector.toList h.noncePrefix), ?_, opened, next, ?_, rfl⟩
  · exact word.trans (congrArg UInt64.toNat h.ctr)
  · rw [← h.ctr]
    exact advance

end Opening

namespace Actor
variable {enc : EncryptionProvider} {a a' : Actor} {frame : SessionFrame} {written : List Bytes} {up : Bool}

/-- A write that does not fail puts one sealed frame out and moves the send counter. -/
theorem writeFrame_none (h : a.writeFrame enc frame up = (a', written, none)) : ∃ sealed next stats,
    enc.sealBytes a.crypto.sendKey (nonce a.crypto.sendPrefix a.crypto.sendCtr) frame.encode = .ok sealed ∧
    checkedAdd a.crypto.sendCtr 1 = some next ∧ written = [sealed] ∧ up = true ∧
    a' = { a with crypto := { a.crypto with sendCtr := next }, stats } := by
  unfold writeFrame sealFrame at h
  cases made : enc.sealBytes a.crypto.sendKey (nonce a.crypto.sendPrefix a.crypto.sendCtr) frame.encode with
  | error e => simp only [made, Prod.mk.injEq, reduceCtorEq, and_false] at h
  | ok sealed =>
    cases up with
    | false => simp only [made, Bool.not_false, if_true, Prod.mk.injEq, reduceCtorEq, and_false] at h
    | true =>
      cases advance : checkedAdd a.crypto.sendCtr 1 with
      | none =>
        simp only [made, advanceSend, advance, Bool.not_true, Bool.false_eq_true, if_false, Prod.mk.injEq, reduceCtorEq,
          and_false] at h
      | some next =>
        simp only [made, advanceSend, advance, Bool.not_true, Bool.false_eq_true, if_false, Prod.mk.injEq, and_true] at h
        exact ⟨sealed, next, _, rfl, rfl, h.2.symm, rfl, h.1.symm⟩

def dispatched (handler : Option MessageHandler) (frames : List SessionFrame) : List SessionFrame :=
  if handler.isSome then frames.filter (·.messageType ≠ probeMessageType) else []

theorem dispatched_append (handler : Option MessageHandler) (frames more : List SessionFrame) :
    dispatched handler (frames ++ more) = dispatched handler frames ++ dispatched handler more := by
  unfold dispatched
  split
  · exact List.filter_append ..
  · rfl

/-- A frame of the peer's run, delivered to a handler that takes everything. -/
theorem deliver_ok {gcm : Aes256Gcm} (correct : gcm.Correct) {sender : ChannelCrypto} {ctr next : UInt64} {sealed : Bytes}
    (mirrors : Mirrors sender a.crypto ctr)
    (made : (aeadCrypto gcm).sealBytes sender.sendKey (nonce sender.sendPrefix ctr) frame.encode = .ok sealed)
    (advance : checkedAdd ctr 1 = some next) (fits : frame.payload.length < 2 ^ 32)
    (takes : ∀ handle, a.handler = some handle → ∀ f, handle f = .ok ()) : ∃ stats,
    a.deliver (aeadCrypto gcm) sealed = ({ a with
      crypto := { a.crypto with recvCtr := next }
      stats
      handled := a.handled ++ dispatched a.handler [frame] }, none) := by
  rw [deliver, mirrors.open_ok correct made advance]
  dsimp only
  rw [SessionFrame.decode_encode frame fits]
  dsimp only
  by_cases probe : frame.messageType = probeMessageType
  · have nothing : dispatched a.handler [frame] = [] := by
      unfold dispatched
      split <;> simp [probe]
    rw [if_pos probe, nothing, List.append_nil]
    exact ⟨_, rfl⟩
  · rw [if_neg probe]
    cases handler : a.handler with
    | none => exact ⟨_, by rw [dispatched, Option.isSome_none, if_neg Bool.false_ne_true, List.append_nil]⟩
    | some handle =>
      have given : dispatched (some handle) [frame] = [frame] := by simp [dispatched, probe]
      rw [given]
      dsimp only
      rw [takes handle handler frame]
      exact ⟨_, rfl⟩

end Actor

end PeerBeam.Session
