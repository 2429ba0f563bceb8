import PeerBeam.Lib.Bytes
import PeerBeam.Session.Basic

/-! Per-channel contexts derived from the session's directional masters. HMAC
and AES-256-GCM are outside the repository and enter as parameters. -/
namespace PeerBeam.Session

abbrev Key := Vector UInt8 32
abbrev NoncePrefix := Vector UInt8 4
abbrev Nonce := Vector UInt8 12

/-- HMAC-SHA256: a key of any length, any message, a 32-byte tag. -/
abbrev Hmac := Bytes → Bytes → Vector UInt8 32

/-- AES-256-GCM as the `aes-gcm` crate offers it: ciphertext with its tag. -/
structure Aes256Gcm where
  encrypt : Key → Nonce → Bytes → Option Bytes
  decrypt : Key → Nonce → Bytes → Option Bytes

/-- The part of the `EncryptionProvider` port that channels use. -/
structure EncryptionProvider where
  sealBytes : Key → Nonce → Bytes → Except SessionError Bytes
  openBytes : Key → Bytes → Except SessionError Bytes

/-- `AeadCrypto`: the sealed frame is the nonce followed by the ciphertext. -/
def aeadCrypto (gcm : Aes256Gcm) : EncryptionProvider where
  sealBytes key nonce plaintext :=
    match gcm.encrypt key nonce plaintext with
    | some ciphertext => .ok (nonce.toList ++ ciphertext)
    | none => .error (.link "encryption: seal failed")
  openBytes key ciphertext :=
    if h : ciphertext.length < 12 then .error (.link "encryption: ciphertext too short")
    else
      match gcm.decrypt key ⟨(ciphertext.take 12).toArray, by simp; omega⟩ (ciphertext.drop 12) with
      | some plaintext => .ok plaintext
      | none => .error (.link "encryption: open failed (bad tag or key)")

/-- The bytes of `peerbeam-channel-keys-v1`. -/
def domainLabel : Bytes :=
  [112, 101, 101, 114, 98, 101, 97, 109, 45, 99, 104, 97, 110, 110, 101, 108, 45, 107, 101, 121,
    115, 45, 118, 49]

/-- The bytes of `peerbeam-resume-key-v1`. -/
def resumeLabel : Bytes :=
  [112, 101, 101, 114, 98, 101, 97, 109, 45, 114, 101, 115, 117, 109, 101, 45, 107, 101, 121, 45,
    118, 49]

def purposeKey : UInt8 := 1
def purposeNonce : UInt8 := 2

/-- The control channel is sealed before negotiation, so its version is fixed. -/
def controlVersion : Version := ⟨1, 0⟩

/-- Traffic direction, an explicit input to key derivation. -/
inductive Direction where
  | forward
  | reverse
  deriving DecidableEq, Repr

def Direction.toByte : Direction → UInt8
  | .forward => 0
  | .reverse => 1

/-- The loop of `hkdf_expand` with `blocksLeft` of its 255 counter values left. -/
def hkdfLoop (hmac : Hmac) (prk info : Bytes) (outLen : Nat) :
    Nat → Bytes → Bytes → Except SessionError Bytes
  | blocksLeft, block, out =>
    if outLen ≤ out.length then .ok (out.take outLen)
    else
      match blocksLeft with
      | 0 => .error (.channel "hkdf: output too long")
      | left + 1 =>
        let block := (hmac prk (block ++ info ++ [UInt8.ofNat (255 - left)])).toList
        -- the counter is advanced after the block is appended, and 255 has no successor
        if left = 0 then .error (.channel "hkdf: output too long")
        else hkdfLoop hmac prk info outLen left block (out ++ block)

def hkdfExpand (hmac : Hmac) (prk info : Bytes) (outLen : Nat) : Except SessionError Bytes :=
  hkdfLoop hmac prk info outLen 255 [] []

def copyFromSlice (n : Nat) (bytes : Bytes) : Vector UInt8 n :=
  Vector.ofFn fun i => bytes.getD i 0

def info (purpose : UInt8) (channel : ChannelId) (version : Version) (dir : Direction)
    (epoch : UInt64) : Bytes :=
  domainLabel ++ purpose :: (BigEndian.write 8 channel.toNat ++ (BigEndian.write 2 version.major.toNat ++
    (BigEndian.write 2 version.minor.toNat ++ dir.toByte :: BigEndian.write 8 epoch.toNat)))

def deriveKey (hmac : Hmac) (master : Key) (channel : ChannelId) (version : Version)
    (dir : Direction) (epoch : UInt64) : Except SessionError Key := do
  let bytes ← hkdfExpand hmac master.toList (info purposeKey channel version dir epoch) 32
  pure (copyFromSlice 32 bytes)

def derivePrefix (hmac : Hmac) (master : Key) (channel : ChannelId) (version : Version)
    (dir : Direction) (epoch : UInt64) : Except SessionError NoncePrefix := do
  let bytes ← hkdfExpand hmac master.toList (info purposeNonce channel version dir epoch) 4
  pure (copyFromSlice 4 bytes)

structure ChannelCrypto where
  sendKey : Key
  recvKey : Key
  sendPrefix : NoncePrefix
  recvPrefix : NoncePrefix
  sendCtr : UInt64
  recvCtr : UInt64
  deriving DecidableEq

namespace ChannelCrypto

def fromKeys (sendKey recvKey : Key) (sendPrefix recvPrefix : NoncePrefix) : ChannelCrypto :=
  ⟨sendKey, recvKey, sendPrefix, recvPrefix, 0, 0⟩

def nonce (noncePrefix : NoncePrefix) (ctr : UInt64) : Nonce :=
  ⟨(noncePrefix.toList ++ BigEndian.write 8 ctr.toNat).toArray, by simp⟩

def sealFrame (c : ChannelCrypto) (enc : EncryptionProvider) (plaintext : Bytes) :
    Except SessionError Bytes :=
  enc.sealBytes c.sendKey (nonce c.sendPrefix c.sendCtr) plaintext

def advanceSend (c : ChannelCrypto) : Except SessionError ChannelCrypto :=
  match checkedAdd c.sendCtr 1 with
  | some next => .ok { c with sendCtr := next }
  | none => .error (.channel "send nonce counter overflow")

/-- Open a sealed frame; the second component is the context left behind. -/
def openFrame (c : ChannelCrypto) (enc : EncryptionProvider) (frame : Bytes) :
    Except SessionError Bytes × ChannelCrypto :=
  if frame.length < 12 then (.error (.channel "secure frame too short"), c)
  else
    let gotPrefix := frame.take 4
    let gotCtr := BigEndian.read ((frame.drop 4).take 8)
    if gotPrefix ≠ c.recvPrefix.toList ∨ gotCtr ≠ c.recvCtr.toNat then
      (.error (.channel "replayed, reordered, or forged frame"), c)
    else
      match enc.openBytes c.recvKey frame with
      | .error e => (.error e, c)
      | .ok plain =>
        match checkedAdd c.recvCtr 1 with
        | some next => (.ok plain, { c with recvCtr := next })
        | none => (.error (.channel "recv nonce counter overflow"), c)

end ChannelCrypto

/-- The session masters with what a channel derivation reads beside them. -/
structure SessionCrypto where
  masterSend : Key
  masterRecv : Key
  role : SessionRole
  /-- Reconnect generation; a resume moves to a fresh one. -/
  epoch : UInt64
  deriving DecidableEq

namespace SessionCrypto

def withEpoch (c : SessionCrypto) (epoch : UInt64) : SessionCrypto := { c with epoch }

/-- Role-independent key for resume tokens: the masters in canonical order. -/
def resumeKey (hmac : Hmac) (c : SessionCrypto) : Except SessionError Key := do
  let (lo, hi) :=
    if c.masterSend.toList ≤ c.masterRecv.toList then (c.masterSend, c.masterRecv)
    else (c.masterRecv, c.masterSend)
  let bytes ← hkdfExpand hmac (lo.toList ++ hi.toList) resumeLabel 32
  pure (copyFromSlice 32 bytes)

def sendDir (c : SessionCrypto) : Direction :=
  match c.role with
  | .initiator => .forward
  | .responder => .reverse

def recvDir (c : SessionCrypto) : Direction :=
  match c.role with
  | .initiator => .reverse
  | .responder => .forward

def derive (hmac : Hmac) (c : SessionCrypto) (channel : ChannelId) (version : Version) :
    Except SessionError ChannelCrypto := do
  let e := c.epoch
  pure (ChannelCrypto.fromKeys
    (← deriveKey hmac c.masterSend channel version c.sendDir e)
    (← deriveKey hmac c.masterRecv channel version c.recvDir e)
    (← derivePrefix hmac c.masterSend channel version c.sendDir e)
    (← derivePrefix hmac c.masterRecv channel version c.recvDir e))

def control (hmac : Hmac) (c : SessionCrypto) : Except SessionError ChannelCrypto :=
  c.derive hmac controlChannel controlVersion

end SessionCrypto

/-! The derivation never fails, and its one HMAC block is the derived key. -/

private theorem hkdfLoop_block (hmac : Hmac) (prk info block out : Bytes) {outLen left : Nat}
    (short : ¬ outLen ≤ out.length) (pos : left ≠ 0) :
    hkdfLoop hmac prk info outLen (left + 1) block out =
      let block := (hmac prk (block ++ info ++ [UInt8.ofNat (255 - left)])).toList
      hkdfLoop hmac prk info outLen left block (out ++ block) := by
  rw [hkdfLoop, if_neg short]
  dsimp only
  rw [if_neg pos]

private theorem hkdfLoop_done (hmac : Hmac) (prk info block out : Bytes) {outLen : Nat} (left : Nat)
    (enough : outLen ≤ out.length) :
    hkdfLoop hmac prk info outLen left block out = .ok (out.take outLen) := by
  cases left <;> rw [hkdfLoop, if_pos enough]

private theorem hkdfExpand_block (hmac : Hmac) (prk info : Bytes) {outLen : Nat}
    (pos : 0 < outLen) (le : outLen ≤ 32) :
    hkdfExpand hmac prk info outLen = .ok ((hmac prk (info ++ [1])).toList.take outLen) := by
  have empty : ¬ outLen ≤ ([] : Bytes).length := Nat.not_le.mpr pos
  have first : UInt8.ofNat (255 - 254) = 1 := rfl
  rw [hkdfExpand, hkdfLoop_block hmac prk info [] [] empty (by decide), first]
  simp only [List.nil_append]
  exact hkdfLoop_done hmac prk info _ _ 254 (by simpa using le)

@[simp] theorem copyFromSlice_toList {n : Nat} (v : Vector UInt8 n) :
    copyFromSlice n v.toList = v := by
  apply Vector.ext
  intro i hi
  simp [copyFromSlice, List.getD_eq_getElem?_getD]

theorem deriveKey_eq (hmac : Hmac) (master : Key) (channel : ChannelId) (version : Version)
    (dir : Direction) (epoch : UInt64) :
    deriveKey hmac master channel version dir epoch =
      .ok (hmac master.toList (info purposeKey channel version dir epoch ++ [1])) := by
  rw [deriveKey, hkdfExpand_block _ _ _ (by decide) (Nat.le_refl 32),
    List.take_of_length_le (by simp)]
  exact congrArg Except.ok (copyFromSlice_toList _)

private theorem derivePrefix_ok (hmac : Hmac) (master : Key) (channel : ChannelId)
    (version : Version) (dir : Direction) (epoch : UInt64) :
    ∃ p, derivePrefix hmac master channel version dir epoch = .ok p := by
  rw [derivePrefix, hkdfExpand_block _ _ _ (by decide) (by decide)]
  exact ⟨_, rfl⟩

/-- A channel derivation always succeeds, with both counters at zero and the
send and receive halves taken from their own master and direction. -/
theorem SessionCrypto.derive_ok (hmac : Hmac) (c : SessionCrypto) (channel : ChannelId)
    (version : Version) : ∃ sendPrefix recvPrefix,
      derivePrefix hmac c.masterSend channel version c.sendDir c.epoch = .ok sendPrefix ∧
      derivePrefix hmac c.masterRecv channel version c.recvDir c.epoch = .ok recvPrefix ∧
      c.derive hmac channel version = .ok (ChannelCrypto.fromKeys
        (hmac c.masterSend.toList (info purposeKey channel version c.sendDir c.epoch ++ [1]))
        (hmac c.masterRecv.toList (info purposeKey channel version c.recvDir c.epoch ++ [1]))
        sendPrefix recvPrefix) := by
  obtain ⟨ps, hs⟩ := derivePrefix_ok hmac c.masterSend channel version c.sendDir c.epoch
  obtain ⟨pr, hr⟩ := derivePrefix_ok hmac c.masterRecv channel version c.recvDir c.epoch
  refine ⟨ps, pr, hs, hr, ?_⟩
  rw [SessionCrypto.derive, deriveKey_eq, deriveKey_eq, hs, hr]
  rfl

/-- The label is fixed and every field has its own width, so equal infos have
equal fields. -/
theorem info_injective {p p' : UInt8} {ch ch' : ChannelId} {v v' : Version} {d d' : Direction}
    {e e' : UInt64} (h : info p ch v d e = info p' ch' v' d' e') :
    p = p' ∧ ch = ch' ∧ v = v' ∧ d = d' ∧ e = e' := by
  obtain ⟨hp, h⟩ := List.cons.inj (List.append_cancel_left h)
  obtain ⟨hch, h⟩ := BigEndian.append_write_inj ch.toNat_lt ch'.toNat_lt h
  obtain ⟨hmaj, h⟩ := BigEndian.append_write_inj v.major.toNat_lt v'.major.toNat_lt h
  obtain ⟨hmin, h⟩ := BigEndian.append_write_inj v.minor.toNat_lt v'.minor.toNat_lt h
  obtain ⟨hd, h⟩ := List.cons.inj h
  have he := BigEndian.write_injective e.toNat_lt e'.toNat_lt h
  refine ⟨hp, UInt64.toNat_inj.mp hch, ?_, ?_, UInt64.toNat_inj.mp he⟩
  · cases v; cases v'
    exact (Version.mk.injEq ..).mpr ⟨UInt16.toNat_inj.mp hmaj, UInt16.toNat_inj.mp hmin⟩
  · cases d <;> cases d' <;> first | rfl | exact absurd hd (by decide)

end PeerBeam.Session
