import PeerBeam.Auth.Handshake
import PeerBeam.Lib.Run
import PeerBeam.Session.SealedPipe

/-! The sending half of a link that seals every frame: what it hands to the link below, and under
which nonces, when that link fails now and then. -/
namespace PeerBeam.Session
open ChannelCrypto
open Transfer (Frame FrameKind DomainError)

def kindTag : FrameKind → UInt8
  | .handshake => 0
  | .«meta» => 1
  | .chunk => 2
  | .ack => 3
  | .control => 4

theorem kindTag_injective : Function.Injective kindTag := by
  intro kind kind' h
  cases kind <;> cases kind' <;> first | rfl | exact absurd h (by decide)

def encodeFrame (frame : Frame) : Bytes := kindTag frame.kind :: frame.payload

theorem encodeFrame_injective : Function.Injective encodeFrame := by
  intro frame frame' h
  obtain ⟨kinds, payloads⟩ := List.cons.inj h
  cases frame
  cases frame'
  exact (Frame.mk.injEq ..).mpr ⟨kindTag_injective kinds, payloads⟩

def toDom (e : SessionError) : DomainError := .integrity e.display

/-- A payload the link below was given, with what it was sealed from. -/
structure Handed where
  key : Key
  nonce : Nonce
  plaintext : Bytes
  payload : Bytes
  deriving DecidableEq

/-- A link that seals every frame with a channel's own key. What the link below was given stands for
that link: a failed send may have put all of it on the wire. -/
structure SealedLink where
  crypto : ChannelCrypto
  enc : EncryptionProvider
  handed : List Handed

abbrev InnerSend := Except DomainError Unit

namespace SealedLink

def new (crypto : ChannelCrypto) (enc : EncryptionProvider) : SealedLink := ⟨crypto, enc, []⟩

def nextNonce (l : SealedLink) : Nonce := nonce l.crypto.sendPrefix l.crypto.sendCtr

def given (l : SealedLink) (frame : Frame) (sealed : Bytes) : SealedLink :=
  { l with handed := l.handed ++ [⟨l.crypto.sendKey, l.nextNonce, encodeFrame frame, sealed⟩] }

/-- Seal with the current counter; advance only after a successful send. -/
def sendFrame (l : SealedLink) (frame : Frame) (inner : InnerSend) : Except DomainError Unit × SealedLink :=
  match l.crypto.sealFrame l.enc (encodeFrame frame) with
  | .error e => (.error (toDom e), l)
  | .ok sealed =>
    let l := l.given frame sealed
    match inner with
    | .error e => (.error e, l)
    | .ok () =>
      match l.crypto.advanceSend with
      | .error e => (.error (toDom e), l)
      | .ok crypto => (.ok (), { l with crypto })

end SealedLink

/-- The link that borrows the one below; it seals in the same way. -/
abbrev SecureLink := SealedLink

def SecureLink.new (enc : EncryptionProvider) (session : Auth.Session) : SecureLink :=
  SealedLink.new (fromKeys session.sendKey session.recvKey session.sendPrefix session.recvPrefix) enc

def SecureLink.sendFrame (l : SecureLink) (frame : Frame) (inner : InnerSend) :
    Except DomainError Unit × SecureLink :=
  SealedLink.sendFrame l frame inner

def NonceUnique (handed : List Handed) : Prop :=
  ∀ h ∈ handed, ∀ h' ∈ handed, h.key = h'.key → h.nonce = h'.nonce → h.plaintext = h'.plaintext

theorem NonceUnique.mono {handed handed' : List Handed} (h : NonceUnique handed') (sub : handed ⊆ handed') :
    NonceUnique handed :=
  fun x mem y mem' => h x (sub mem) y (sub mem')

abbrev SendCall := Frame × InnerSend

/-- A link with the frame that was handed over last, while its counter is still the next. -/
structure Sender where
  link : SealedLink
  unsent : Option Frame

def SealedLink.Seals (l : SealedLink) (frame : Frame) : Prop :=
  (l.crypto.sealFrame l.enc (encodeFrame frame)).toBool = true

instance (l : SealedLink) (frame : Frame) : Decidable (l.Seals frame) := inferInstanceAs (Decidable (_ = _))

/-- The counter has a successor, and the link below took the frame. -/
def SealedLink.Advances (l : SealedLink) (inner : InnerSend) : Prop :=
  inner.toBool = true ∧ l.crypto.sendCtr.toNat + 1 < 2 ^ 64

instance (l : SealedLink) (inner : InnerSend) : Decidable (l.Advances inner) :=
  inferInstanceAs (Decidable (_ ∧ _))

namespace Sender

def start (l : SealedLink) : Sender := ⟨l, none⟩

def step (s : Sender) (call : SendCall) : Sender where
  link := (s.link.sendFrame call.1 call.2).2
  unsent :=
    if s.link.Seals call.1 then if s.link.Advances call.2 then none else some call.1
    else s.unsent

/-- After a frame that did not advance the counter, only this frame is sealed again. -/
def Repeats (s : Sender) (call : SendCall) : Prop :=
  s.link.Seals call.1 → ∀ frame, s.unsent = some frame → call.1 = frame

end Sender

theorem nonce_injective {noncePrefix : NoncePrefix} {ctr ctr' : UInt64}
    (same : nonce noncePrefix ctr = nonce noncePrefix ctr') : ctr = ctr' := by
  have bytes := congrArg Vector.toList same
  rw [nonce_toList, nonce_toList] at bytes
  exact UInt64.toNat_inj.mp
    (BigEndian.write_injective ctr.toNat_lt ctr'.toNat_lt (List.append_cancel_left bytes))

/-- Nothing is handed over, or one payload under the next nonce; then the counter advances or stays. -/
theorem SealedLink.sendFrame_cases (l : SealedLink) (frame : Frame) (inner : InnerSend) :
    (¬ l.Seals frame ∧ (l.sendFrame frame inner).2 = l) ∨
    l.Seals frame ∧ ∃ sealed,
      (l.sendFrame frame inner).2.handed =
        l.handed ++ [⟨l.crypto.sendKey, l.nextNonce, encodeFrame frame, sealed⟩] ∧
      ((¬ l.Advances inner ∧ (l.sendFrame frame inner).2.crypto = l.crypto) ∨
        ∃ ctr, l.Advances inner ∧ ctr.toNat = l.crypto.sendCtr.toNat + 1 ∧
          (l.sendFrame frame inner).2.crypto = { l.crypto with sendCtr := ctr }) := by
  cases made : l.crypto.sealFrame l.enc (encodeFrame frame) with
  | error e =>
    refine .inl ⟨?_, ?_⟩
    · rw [Seals, made]
      exact Bool.false_ne_true
    · simp only [sendFrame, made]
  | ok sealed =>
    refine .inr ⟨by rw [Seals, made]; rfl, sealed, ?_⟩
    cases inner with
    | error e =>
      have sent : l.sendFrame frame (.error e) = (.error e, l.given frame sealed) := by
        simp only [sendFrame, made]
      rw [sent]
      exact ⟨rfl, .inl ⟨fun advances => Bool.false_ne_true advances.1, rfl⟩⟩
    | ok _ =>
      cases sum : checkedAdd l.crypto.sendCtr 1 with
      | none =>
        have full : ¬ l.Advances (.ok ()) := fun advances =>
          Nat.not_lt.mpr (checkedAdd_eq_none.mp sum) advances.2
        have sent : (l.sendFrame frame (.ok ())).2 = l.given frame sealed := by
          simp only [sendFrame, made, given, advanceSend, sum]
        rw [sent]
        exact ⟨rfl, .inl ⟨full, rfl⟩⟩
      | some ctr =>
        obtain ⟨room, value⟩ := checkedAdd_eq_some.mp sum
        have sent : (l.sendFrame frame (.ok ())).2 =
            { l.given frame sealed with crypto := { l.crypto with sendCtr := ctr } } := by
          simp only [sendFrame, made, given, advanceSend, sum]
        rw [sent]
        exact ⟨rfl, .inr ⟨ctr, ⟨rfl, room⟩, value, rfl⟩⟩

/-- All was handed over under the one key, at counters up to the current; under the current one only
the frame that did not advance it. -/
structure Sender.Orderly (s : Sender) : Prop where
  own : ∀ h ∈ s.link.handed, h.key = s.link.crypto.sendKey ∧
    ∃ ctr, h.nonce = nonce s.link.crypto.sendPrefix ctr ∧ ctr.toNat ≤ s.link.crypto.sendCtr.toNat
  current : ∀ h ∈ s.link.handed, h.nonce = s.link.nextNonce →
    ∃ frame, s.unsent = some frame ∧ h.plaintext = encodeFrame frame
  there : ∀ frame, s.unsent = some frame → ∃ h ∈ s.link.handed, h.nonce = s.link.nextNonce
  unique : NonceUnique s.link.handed

namespace Sender
variable {s : Sender} {call : SendCall}

theorem orderly_start (crypto : ChannelCrypto) (enc : EncryptionProvider) :
    (start (SealedLink.new crypto enc)).Orderly where
  own := fun _ mem => absurd mem List.not_mem_nil
  current := fun _ mem => absurd mem List.not_mem_nil
  there := fun _ none => by cases none
  unique := fun _ mem => absurd mem List.not_mem_nil

theorem step_of_not_seals (refused : ¬ s.link.Seals call.1)
    (same : (s.link.sendFrame call.1 call.2).2 = s.link) : s.step call = s := by
  rw [step, if_neg refused, same]

/-- A repeated frame, or the first under its nonce, is no second message. -/
theorem Orderly.unique_append (h : s.Orderly) {frame : Frame} {sealed : Bytes}
    (repeats : ∀ f, s.unsent = some f → frame = f) :
    NonceUnique (s.link.handed ++ [⟨s.link.crypto.sendKey, s.link.nextNonce, encodeFrame frame, sealed⟩]) := by
  have agrees (x : Handed) (mem : x ∈ s.link.handed) (same : x.nonce = s.link.nextNonce) :
      x.plaintext = encodeFrame frame := by
    obtain ⟨f, unsent, plain⟩ := h.current x mem same
    rw [plain, repeats f unsent]
  intro x mem y mem' keys nonces
  rcases List.mem_append.mp mem with old | new
  · rcases List.mem_append.mp mem' with old' | new'
    · exact h.unique x old y old' keys nonces
    · rw [List.mem_singleton.mp new'] at nonces ⊢
      exact agrees x old nonces
  · rw [List.mem_singleton.mp new] at nonces ⊢
    rcases List.mem_append.mp mem' with old' | new'
    · exact (agrees y old' nonces.symm).symm
    · rw [List.mem_singleton.mp new']

theorem orderly_step (h : s.Orderly) (ok : s.Repeats call) : (s.step call).Orderly := by
  rcases s.link.sendFrame_cases call.1 call.2 with ⟨refused, same⟩ | ⟨seals, sealed, handed, counter⟩
  · rw [step_of_not_seals refused same]
    exact h
  · have repeats := ok seals
    rcases counter with ⟨stays, crypto⟩ | ⟨ctr, advances, next, crypto⟩
    · have here : s.step call = ⟨(s.link.sendFrame call.1 call.2).2, some call.1⟩ := by
        rw [step, if_pos seals, if_neg stays]
      have nonces : (s.link.sendFrame call.1 call.2).2.nextNonce = s.link.nextNonce := by
        rw [SealedLink.nextNonce, crypto]
        rfl
      rw [here]
      refine ⟨?_, ?_, ?_, ?_⟩
      · rw [handed, crypto]
        intro x mem
        rcases List.mem_append.mp mem with old | new
        · exact h.own x old
        · rw [List.mem_singleton.mp new]
          exact ⟨rfl, s.link.crypto.sendCtr, rfl, Nat.le_refl _⟩
      · rw [handed, nonces]
        intro x mem same
        refine ⟨call.1, rfl, ?_⟩
        rcases List.mem_append.mp mem with old | new
        · obtain ⟨f, unsent, plain⟩ := h.current x old same
          rw [plain, repeats f unsent]
        · rw [List.mem_singleton.mp new]
      · rw [handed, nonces]
        exact fun _ _ => ⟨_, List.mem_append_right _ (List.mem_singleton_self _), rfl⟩
      · rw [handed]
        exact h.unique_append repeats
    · have here : s.step call = ⟨(s.link.sendFrame call.1 call.2).2, none⟩ := by
        rw [step, if_pos seals, if_pos advances]
      have own : ∀ x ∈ (s.link.sendFrame call.1 call.2).2.handed, x.key = s.link.crypto.sendKey ∧
          ∃ c, x.nonce = nonce s.link.crypto.sendPrefix c ∧ c.toNat ≤ s.link.crypto.sendCtr.toNat := by
        rw [handed]
        intro x mem
        rcases List.mem_append.mp mem with old | new
        · exact h.own x old
        · rw [List.mem_singleton.mp new]
          exact ⟨rfl, s.link.crypto.sendCtr, rfl, Nat.le_refl _⟩
      rw [here]
      refine ⟨?_, ?_, ?_, ?_⟩
      · rw [crypto]
        intro x mem
        obtain ⟨key, c, made, le⟩ := own x mem
        have le' : c.toNat ≤ ctr.toNat := by omega
        exact ⟨key, c, made, le'⟩
      · intro x mem same
        obtain ⟨-, c, made, le⟩ := own x mem
        rw [made, SealedLink.nextNonce, crypto] at same
        have equal := congrArg UInt64.toNat (nonce_injective same)
        dsimp only at equal
        omega
      · intro frame none
        cases none
      · rw [handed]
        exact h.unique_append repeats

/-- Another frame in the place of the unsent one goes under the nonce that was used. -/
theorem not_unique_of_changed (h : s.Orderly) (changed : ¬ s.Repeats call) :
    ¬ NonceUnique (s.step call).link.handed := by
  simp only [Repeats, Classical.not_imp, not_forall] at changed
  obtain ⟨seals, frame, unsent, differ⟩ := changed
  rcases s.link.sendFrame_cases call.1 call.2 with ⟨refused, -⟩ | ⟨-, sealed, handed, -⟩
  · exact absurd seals refused
  · intro unique
    obtain ⟨x, mem, same⟩ := h.there frame unsent
    obtain ⟨f, unsent', plain⟩ := h.current x mem same
    obtain rfl : frame = f := Option.some.inj (unsent.symm.trans unsent')
    rw [step, handed] at unique
    have equal := unique x (List.mem_append_left _ mem) _
      (List.mem_append_right _ (List.mem_singleton_self _)) (h.own x mem).1 same
    exact differ (encodeFrame_injective (plain.symm.trans equal)).symm

theorem handed_step (s : Sender) (call : SendCall) : s.link.handed ⊆ (s.step call).link.handed := by
  rcases s.link.sendFrame_cases call.1 call.2 with ⟨-, same⟩ | ⟨-, sealed, handed, -⟩
  · rw [step, same]
    exact List.Subset.refl _
  · rw [step, handed]
    exact List.subset_append_left _ _

theorem handed_run (s : Sender) (calls : List SendCall) :
    s.link.handed ⊆ (calls.foldl step s).link.handed :=
  TransitionRun.foldl_related (R := fun s t => s.link.handed ⊆ t.link.handed) (fun _ => List.Subset.refl _)
    List.Subset.trans handed_step s calls

theorem unique_iff_repeats (h : s.Orderly) (calls : List SendCall) :
    NonceUnique (calls.foldl step s).link.handed ↔ TransitionRun.Along step Repeats s calls := by
  induction calls generalizing s with
  | nil => exact iff_of_true h.unique trivial
  | cons call calls ih =>
    by_cases ok : s.Repeats call
    · exact (ih (orderly_step h ok)).trans (and_iff_right ok).symm
    · apply iff_of_false
      · exact fun unique => not_unique_of_changed h ok (unique.mono (handed_run (s.step call) calls))
      · exact fun along => ok along.1

theorem link_run (s : Sender) (calls : List SendCall) : (calls.foldl step s).link =
    calls.foldl (fun l call => (l.sendFrame call.1 call.2).2) s.link :=
  (List.foldl_hom Sender.link fun _ _ => rfl).symm

end Sender

/-- Through any run of sends over a link that fails as it likes, no nonce covers two messages exactly
when a frame that did not advance the counter is followed by nothing but itself until it does. -/
theorem nonces_unique_iff (crypto : ChannelCrypto) (enc : EncryptionProvider) (calls : List SendCall) :
    NonceUnique (calls.foldl (fun l call => (l.sendFrame call.1 call.2).2) (SealedLink.new crypto enc)).handed ↔
      TransitionRun.Along Sender.step Sender.Repeats (Sender.start (SealedLink.new crypto enc)) calls := by
  rw [← Sender.unique_iff_repeats (Sender.orderly_start crypto enc), Sender.link_run]
  rfl

private def openGcm : Aes256Gcm := ⟨fun _ _ plain => some plain, fun _ _ sealed => some sealed⟩

private def freshSession : Auth.Session where
  sendKey := Vector.replicate 32 1
  recvKey := Vector.replicate 32 2
  sendPrefix := Vector.replicate 4 9
  recvPrefix := Vector.replicate 4 7
  peerId := "peer"
  peerName := "peer"
  newlyTrusted := false
  pairingCode := ""
  transcript := []

/-- The link below fails one frame, after its bytes went out, and takes the next. -/
theorem failed_send_reuses_nonce :
    ¬ NonceUnique (([(⟨.control, [80]⟩, .error (.connection "reset")), (⟨.chunk, [82]⟩, .ok ())] :
      List SendCall).foldl (fun l call => (SecureLink.sendFrame l call.1 call.2).2)
        (SecureLink.new (aeadCrypto openGcm) freshSession)).handed := by
  intro unique
  have first := unique _ List.mem_cons_self _ (List.mem_cons_of_mem _ List.mem_cons_self) rfl rfl
  cases first

end PeerBeam.Session
