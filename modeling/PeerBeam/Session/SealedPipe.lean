import PeerBeam.Session.Crypto

/-! A sealed channel as a pipe: what one end seals and what the other end opens
out of an arbitrary sequence of deliveries. -/
namespace PeerBeam.Session
open ChannelCrypto

/-- Two endpoints of one session: directional masters crossed, roles opposite. -/
structure Mirrored (a b : SessionCrypto) : Prop where
  forward : a.masterSend = b.masterRecv
  backward : a.masterRecv = b.masterSend
  roles : a.role ≠ b.role
  epoch : a.epoch = b.epoch

namespace Mirrored

theorem symm {a b : SessionCrypto} (h : Mirrored a b) : Mirrored b a :=
  ⟨h.backward.symm, h.forward.symm, h.roles.symm, h.epoch.symm⟩

theorem dir {a b : SessionCrypto} (h : Mirrored a b) : a.sendDir = b.recvDir := by
  have roles := h.roles
  cases ha : a.role <;> cases hb : b.role <;>
    simp_all [SessionCrypto.sendDir, SessionCrypto.recvDir]

end Mirrored

theorem SessionCrypto.sendDir_ne_recvDir (c : SessionCrypto) : c.sendDir ≠ c.recvDir := by
  cases h : c.role <;> simp [SessionCrypto.sendDir, SessionCrypto.recvDir, h]

def KdfInjective (hmac : Hmac) (masters : List Key) : Prop :=
  ∀ m ∈ masters, ∀ m' ∈ masters, ∀ ch v d e ch' v' d' e',
    deriveKey hmac m ch v d e = deriveKey hmac m' ch' v' d' e' →
      m = m' ∧ info purposeKey ch v d e = info purposeKey ch' v' d' e'

def Aes256Gcm.Correct (gcm : Aes256Gcm) : Prop :=
  ∀ key nonce plaintext ciphertext,
    gcm.encrypt key nonce plaintext = some ciphertext →
      gcm.decrypt key nonce ciphertext = some plaintext

def sendAll (enc : EncryptionProvider) :
    ChannelCrypto → List Bytes → Except SessionError (ChannelCrypto × List Bytes)
  | c, [] => .ok (c, [])
  | c, plaintext :: rest => do
    let frame ← c.sealFrame enc plaintext
    let c ← c.advanceSend
    let (c, frames) ← sendAll enc c rest
    pure (c, frame :: frames)

/-- Open a sequence of deliveries, collecting the accepted plaintexts. -/
def receiveAll (enc : EncryptionProvider) : ChannelCrypto → List Bytes → ChannelCrypto × List Bytes
  | c, [] => (c, [])
  | c, frame :: rest =>
    match c.openFrame enc frame with
    | (.ok plain, c) => ((receiveAll enc c rest).1, plain :: (receiveAll enc c rest).2)
    | (.error _, c) => receiveAll enc c rest

/-- One seal made by an endpoint of the session, at some epoch, on some channel. -/
structure SealCall where
  endpoint : SessionCrypto
  channel : ChannelId
  version : Version
  ctr : UInt64
  plaintext : Bytes

namespace SealCall

def context (hmac : Hmac) (call : SealCall) : Except SessionError ChannelCrypto := do
  let c ← call.endpoint.derive hmac call.channel call.version
  pure { c with sendCtr := call.ctr }

def frame (hmac : Hmac) (enc : EncryptionProvider) (call : SealCall) : Except SessionError Bytes := do
  let c ← call.context hmac
  c.sealFrame enc call.plaintext

end SealCall

/-- Every seal in the log was made by one of the two endpoints, under any epoch,
channel, version and counter; `a` used its context of this channel for `sent`. -/
structure SealLog (a b : SessionCrypto) (channel : ChannelId) (version : Version)
    (sent : List Bytes) (log : List SealCall) : Prop where
  endpoints : ∀ call ∈ log, ∃ e, call.endpoint = a.withEpoch e ∨ call.endpoint = b.withEpoch e
  own : ∀ call ∈ log, call.endpoint = a → call.channel = channel → call.version = version →
    sent[call.ctr.toNat]? = some call.plaintext

/-- AEAD authenticity: a delivery opens under `key` only if it is the output of a
logged seal under that key. -/
def Authentic (hmac : Hmac) (enc : EncryptionProvider) (log : List SealCall) (key : Key)
    (delivered : List Bytes) : Prop :=
  ∀ f ∈ delivered, ∀ plain, enc.openBytes key f = .ok plain →
    ∃ call ∈ log, ∃ c, call.context hmac = .ok c ∧ c.sendKey = key ∧ call.frame hmac enc = .ok f

/-! One frame: what sealing lays out and exactly when opening accepts. -/

theorem aeadCrypto_seal_ok {gcm : Aes256Gcm} {key : Key} {nonce : Nonce} {plain f : Bytes} :
    (aeadCrypto gcm).sealBytes key nonce plain = .ok f ↔
      ∃ ciphertext, gcm.encrypt key nonce plain = some ciphertext ∧ f = nonce.toList ++ ciphertext := by
  simp only [aeadCrypto]
  cases h : gcm.encrypt key nonce plain with
  | none => simp
  | some ciphertext => simp [eq_comm]

theorem aeadCrypto_open_seal {gcm : Aes256Gcm} (correct : gcm.Correct) {key : Key} {nonce : Nonce}
    {plain f : Bytes} (h : (aeadCrypto gcm).sealBytes key nonce plain = .ok f) :
    (aeadCrypto gcm).openBytes key f = .ok plain := by
  obtain ⟨ciphertext, he, rfl⟩ := aeadCrypto_seal_ok.mp h
  have long : ¬ (nonce.toList ++ ciphertext).length < 12 := by simp
  have head : (nonce.toList ++ ciphertext).take 12 = nonce.toList := by simp
  have tail : (nonce.toList ++ ciphertext).drop 12 = ciphertext := by simp
  simp only [aeadCrypto, dif_neg long, head, tail]
  have again : (⟨nonce.toList.toArray, by simp⟩ : Nonce) = nonce := by
    apply Vector.ext
    simp
  rw [again, correct _ _ _ _ he]

theorem nonce_toList (noncePrefix : NoncePrefix) (ctr : UInt64) :
    (nonce noncePrefix ctr).toList = noncePrefix.toList ++ BigEndian.write 8 ctr.toNat := by
  simp [nonce, Vector.toList]

/-- A sealed frame starts with the prefix and counter it was sealed under. -/
theorem sealFrame_layout {gcm : Aes256Gcm} {c : ChannelCrypto} {plain f : Bytes}
    (h : c.sealFrame (aeadCrypto gcm) plain = .ok f) :
    12 ≤ f.length ∧ f.take 4 = c.sendPrefix.toList ∧
      BigEndian.read ((f.drop 4).take 8) = c.sendCtr.toNat := by
  obtain ⟨ciphertext, _, rfl⟩ := aeadCrypto_seal_ok.mp h
  rw [nonce_toList]
  refine ⟨by simp; omega, by simp, ?_⟩
  have word : (List.drop 4 (c.sendPrefix.toList ++ BigEndian.write 8 c.sendCtr.toNat ++ ciphertext)).take 8 =
      BigEndian.write 8 c.sendCtr.toNat := by
    simp
  rw [word, BigEndian.read_write_of_lt c.sendCtr.toNat_lt]

theorem openFrame_ok_iff {c c' : ChannelCrypto} {enc : EncryptionProvider} {f plain : Bytes} :
    c.openFrame enc f = (.ok plain, c') ↔
      12 ≤ f.length ∧ f.take 4 = c.recvPrefix.toList ∧
      BigEndian.read ((f.drop 4).take 8) = c.recvCtr.toNat ∧
      enc.openBytes c.recvKey f = .ok plain ∧
      ∃ next, checkedAdd c.recvCtr 1 = some next ∧ c' = { c with recvCtr := next } := by
  unfold openFrame
  by_cases short : f.length < 12
  · simp only [if_pos short]
    constructor
    · intro h; cases h
    · rintro ⟨long, _⟩
      exact absurd short (Nat.not_lt.mpr long)
  by_cases foreign : f.take 4 ≠ c.recvPrefix.toList ∨
      BigEndian.read ((f.drop 4).take 8) ≠ c.recvCtr.toNat
  · simp only [short, foreign, if_true, if_false]
    constructor
    · intro h; cases h
    · rintro ⟨_, hp, hc, _⟩
      exact absurd foreign (by simp [hp, hc])
  obtain ⟨hp, hc⟩ : f.take 4 = c.recvPrefix.toList ∧
      BigEndian.read ((f.drop 4).take 8) = c.recvCtr.toNat := by
    simpa using foreign
  simp only [if_neg short, hp, hc, true_and, Nat.not_lt.mp short]
  cases ho : enc.openBytes c.recvKey f with
  | error e => simp
  | ok p =>
    cases hn : checkedAdd c.recvCtr 1 with
    | none => simp
    | some next => simp [eq_comm]

/-- A rejected delivery leaves the receiving context as it was. -/
theorem openFrame_error {c c' : ChannelCrypto} {enc : EncryptionProvider} {f : Bytes}
    {e : SessionError} (h : c.openFrame enc f = (.error e, c')) : c' = c := by
  simp only [openFrame] at h
  repeat' split at h
  all_goals simp_all

/-! The sender: frame `i` is plaintext `i` under counter `i`. -/

private theorem advanceSend_ok {c c' : ChannelCrypto} (h : c.advanceSend = .ok c') :
    c.sendCtr.toNat + 1 < 2 ^ 64 ∧ ∃ next : UInt64, next.toNat = c.sendCtr.toNat + 1 ∧
      c' = { c with sendCtr := next } := by
  unfold advanceSend at h
  cases hn : checkedAdd c.sendCtr 1 with
  | none => simp [hn] at h
  | some next =>
    obtain ⟨fits, value⟩ := checkedAdd_eq_some.mp hn
    simp only [hn, Except.ok.injEq] at h
    exact ⟨fits, next, value, h.symm⟩

/-- A successful send never reaches the counter's end, so fewer than `2^64`
plaintexts were sealed. -/
theorem sendAll_spec {enc : EncryptionProvider} {c c' : ChannelCrypto} {sent frames : List Bytes}
    (h : sendAll enc c sent = .ok (c', frames)) :
    c.sendCtr.toNat + sent.length < 2 ^ 64 ∧ frames.length = sent.length ∧
      ∀ i plain f, sent[i]? = some plain → frames[i]? = some f → ∃ ctr : UInt64,
        ctr.toNat = c.sendCtr.toNat + i ∧ { c with sendCtr := ctr }.sealFrame enc plain = .ok f := by
  induction sent generalizing c c' frames with
  | nil =>
    obtain ⟨_, rfl⟩ : c = c' ∧ [] = frames := by simpa [sendAll] using h
    exact ⟨by simpa using c.sendCtr.toNat_lt, rfl, by simp⟩
  | cons first rest ih =>
    cases hf : c.sealFrame enc first with
    | error e => rw [sendAll, hf] at h; cases h
    | ok f₀ =>
      cases ha : c.advanceSend with
      | error e => rw [sendAll, hf, ha] at h; cases h
      | ok c₁ =>
        cases hr : sendAll enc c₁ rest with
        | error e => rw [sendAll, hf, ha] at h; simp only [bind, Except.bind, hr] at h; cases h
        | ok out =>
          obtain ⟨c₂, fs⟩ := out
          rw [sendAll, hf, ha] at h
          simp only [bind, Except.bind, hr, pure, Except.pure, Except.ok.injEq, Prod.mk.injEq] at h
          obtain ⟨rfl, rfl⟩ := h
          obtain ⟨_, next, value, rfl⟩ := advanceSend_ok ha
          obtain ⟨room, len, each⟩ := ih hr
          dsimp only at room each
          refine ⟨by simp only [List.length_cons]; omega, by simp [len], ?_⟩
          intro i plain f hp hf'
          cases i with
          | zero =>
            obtain ⟨rfl, rfl⟩ : first = plain ∧ f₀ = f := by simpa using And.intro hp hf'
            exact ⟨c.sendCtr, rfl, hf⟩
          | succ i =>
            obtain ⟨ctr, hc, hs⟩ := each i plain f (by simpa using hp) (by simpa using hf')
            exact ⟨ctr, by rw [hc, value]; omega, hs⟩

/-! The receiver, against an arbitrary network. -/

/-- The contexts the two endpoints derive for one channel mirror each other. -/
theorem derive_mirror (hmac : Hmac) {a b : SessionCrypto} (h : Mirrored a b) (channel : ChannelId)
    (version : Version) : ∃ ca cb,
      a.derive hmac channel version = .ok ca ∧ b.derive hmac channel version = .ok cb ∧
      ca.sendKey = cb.recvKey ∧ ca.sendPrefix = cb.recvPrefix ∧
      ca.recvKey = cb.sendKey ∧ ca.recvPrefix = cb.sendPrefix := by
  obtain ⟨psa, pra, hsa, hra, ha⟩ := a.derive_ok hmac channel version
  obtain ⟨psb, prb, hsb, hrb, hb⟩ := b.derive_ok hmac channel version
  refine ⟨_, _, ha, hb, ?_⟩
  rw [h.forward, h.dir, h.epoch] at hsa
  rw [h.backward, ← h.symm.dir, h.epoch] at hra
  rw [hrb] at hsa
  rw [hsb] at hra
  cases hsa
  cases hra
  simp [ChannelCrypto.fromKeys, h.forward, h.backward, h.dir, h.epoch, ← h.symm.dir]

/-- Only `a`'s own context of the channel seals under the key `b` receives with:
another epoch, channel, version or direction is another info, hence another key. -/
private theorem sealer_of_recvKey {hmac : Hmac} {a b : SessionCrypto} (mirror : Mirrored a b)
    (kdf : KdfInjective hmac [a.masterSend, a.masterRecv]) {channel : ChannelId} {version : Version}
    {cb : ChannelCrypto} (hb : b.derive hmac channel version = .ok cb) {call : SealCall}
    (by_endpoint : ∃ e, call.endpoint = a.withEpoch e ∨ call.endpoint = b.withEpoch e)
    {c : ChannelCrypto} (hc : call.context hmac = .ok c) (key : c.sendKey = cb.recvKey) :
    call.endpoint = a ∧ call.channel = channel ∧ call.version = version := by
  obtain ⟨psb, prb, _, _, hb'⟩ := b.derive_ok hmac channel version
  obtain ⟨ps, pr, _, _, hd⟩ := call.endpoint.derive_ok hmac call.channel call.version
  rw [hb'] at hb
  cases hb
  simp only [SealCall.context, hd, bind, Except.bind, pure, Except.pure, Except.ok.injEq] at hc
  subst hc
  simp only [ChannelCrypto.fromKeys] at key
  have members : call.endpoint.masterSend ∈ [a.masterSend, a.masterRecv] ∧
      b.masterRecv ∈ [a.masterSend, a.masterRecv] := by
    obtain ⟨e, he | he⟩ := by_endpoint <;>
      simp [he, SessionCrypto.withEpoch, mirror.forward, mirror.backward]
  have fields := (kdf _ members.1 _ members.2 _ _ _ _ _ _ _ _
    (by rw [deriveKey_eq, deriveKey_eq, key])).2
  obtain ⟨_, hch, hv, hdir, hep⟩ := info_injective fields
  refine ⟨?_, hch, hv⟩
  obtain ⟨e, he | he⟩ := by_endpoint
  · rw [he, SessionCrypto.withEpoch] at hep ⊢
    simp only at hep
    subst hep
    rw [← mirror.epoch]
  · rw [he] at hdir
    exact absurd hdir b.sendDir_ne_recvDir

section Network
variable {hmac : Hmac} {gcm : Aes256Gcm} {a b : SessionCrypto} {channel : ChannelId}
  {version : Version} {sent : List Bytes} {log : List SealCall} {cb : ChannelCrypto}

/-- One delivery: what is accepted is the next plaintext, nothing else. -/
private theorem accepted_is_next (correct : gcm.Correct) (mirror : Mirrored a b)
    (kdf : KdfInjective hmac [a.masterSend, a.masterRecv])
    (hb : b.derive hmac channel version = .ok cb) (logged : SealLog a b channel version sent log)
    {f : Bytes} (auth : Authentic hmac (aeadCrypto gcm) log cb.recvKey [f])
    {c c' : ChannelCrypto} (hk : c.recvKey = cb.recvKey) {plain : Bytes}
    (h : c.openFrame (aeadCrypto gcm) f = (.ok plain, c')) :
    sent[c.recvCtr.toNat]? = some plain ∧ ∃ next : UInt64,
      next.toNat = c.recvCtr.toNat + 1 ∧ c' = { c with recvCtr := next } := by
  obtain ⟨_, _, ctr, opened, next, hn, hc'⟩ := openFrame_ok_iff.mp h
  obtain ⟨_, value⟩ := checkedAdd_eq_some.mp hn
  refine ⟨?_, next, value, hc'⟩
  rw [hk] at opened
  obtain ⟨call, mem, sender, hctx, key, hframe⟩ := auth f (List.mem_singleton_self f) plain opened
  obtain ⟨he, hch, hv⟩ := sealer_of_recvKey mirror kdf hb (logged.endpoints call mem) hctx key
  have entry := logged.own call mem he hch hv
  simp only [SealCall.frame, hctx, bind, Except.bind] at hframe
  have ctrOf : sender.sendCtr = call.ctr := by
    obtain ⟨ps, pr, _, _, hd⟩ := call.endpoint.derive_ok hmac call.channel call.version
    simp only [SealCall.context, hd, bind, Except.bind, pure, Except.pure, Except.ok.injEq] at hctx
    rw [← hctx]
  have position := (sealFrame_layout hframe).2.2
  rw [ctr, ctrOf] at position
  have roundtrip := aeadCrypto_open_seal correct hframe
  rw [key, opened] at roundtrip
  cases roundtrip
  rw [position, entry]

/-- Every delivery sequence yields the next plaintexts in order, and only moves
the receive counter, by their number. -/
theorem receiveAll_spec (correct : gcm.Correct) (mirror : Mirrored a b)
    (kdf : KdfInjective hmac [a.masterSend, a.masterRecv])
    (hb : b.derive hmac channel version = .ok cb) (logged : SealLog a b channel version sent log)
    {delivered : List Bytes} (auth : Authentic hmac (aeadCrypto gcm) log cb.recvKey delivered)
    (c : ChannelCrypto) (hk : c.recvKey = cb.recvKey) (start : c.recvCtr.toNat ≤ sent.length) :
    ∃ next : UInt64, c.recvCtr.toNat ≤ next.toNat ∧ next.toNat ≤ sent.length ∧
      receiveAll (aeadCrypto gcm) c delivered = ({ c with recvCtr := next },
        (sent.take next.toNat).drop c.recvCtr.toNat) := by
  induction delivered generalizing c with
  | nil => exact ⟨c.recvCtr, Nat.le_refl _, start, by simp [receiveAll]⟩
  | cons f rest ih =>
    have rest_auth : Authentic hmac (aeadCrypto gcm) log cb.recvKey rest :=
      fun g hg => auth g (List.mem_cons_of_mem f hg)
    cases ho : c.openFrame (aeadCrypto gcm) f with
    | mk result c' =>
      cases result with
      | error e =>
        obtain rfl := openFrame_error ho
        simpa only [receiveAll, ho] using ih rest_auth c' hk start
      | ok plain =>
        have head_auth : Authentic hmac (aeadCrypto gcm) log cb.recvKey [f] :=
          fun g hg => auth g (by rw [List.mem_singleton.mp hg]; exact List.mem_cons_self)
        obtain ⟨entry, mid, value, rfl⟩ :=
          accepted_is_next correct mirror kdf hb logged head_auth hk ho
        obtain ⟨inside, content⟩ := List.getElem?_eq_some_iff.mp entry
        obtain ⟨next, low, high, he⟩ := ih rest_auth { c with recvCtr := mid } hk (by simp only; omega)
        dsimp only at low he
        refine ⟨next, by omega, high, ?_⟩
        simp only [receiveAll, ho, he, Prod.mk.injEq, true_and]
        have bound : c.recvCtr.toNat < (sent.take next.toNat).length := by simp; omega
        rw [List.drop_eq_getElem_cons bound, value]
        simp [content]

/-- The next frame of the genuine sequence is still accepted. -/
private theorem genuine_accepted (correct : gcm.Correct) {ca ca' : ChannelCrypto}
    {frames : List Bytes} (zero : ca.sendCtr = 0)
    (hsend : sendAll (aeadCrypto gcm) ca sent = .ok (ca', frames))
    (hkey : ca.sendKey = cb.recvKey) (hpre : ca.sendPrefix = cb.recvPrefix)
    (next : UInt64) {plain f : Bytes} (hp : sent[next.toNat]? = some plain)
    (hf : frames[next.toNat]? = some f) :
    ({ cb with recvCtr := next }.openFrame (aeadCrypto gcm) f).1 = .ok plain := by
  obtain ⟨room, _, each⟩ := sendAll_spec hsend
  obtain ⟨ctr, value, hs⟩ := each _ _ _ hp hf
  have same : ctr = next := by
    apply UInt64.toNat_inj.mp
    simpa [zero] using value
  subst same
  obtain ⟨long, head, word⟩ := sealFrame_layout hs
  obtain ⟨inside, _⟩ := List.getElem?_eq_some_iff.mp hp
  have fits : ctr.toNat + 1 < 2 ^ 64 := by
    have := Nat.succ_le_of_lt inside
    omega
  have opened := aeadCrypto_open_seal correct hs
  have step : checkedAdd ctr 1 = some (ctr + 1) := by
    rw [checkedAdd, if_pos (by simpa using fits)]
  have accepted : { cb with recvCtr := ctr }.openFrame (aeadCrypto gcm) f =
      (.ok plain, { cb with recvCtr := ctr + 1 }) :=
    openFrame_ok_iff.mpr ⟨long, by rw [head]; exact congrArg Vector.toList hpre, word,
      by rw [← hkey]; exact opened, ctr + 1, step, rfl⟩
  rw [accepted]

end Network

/-- A sealed channel is an exact, ordered, replay-free pipe. The contexts derived
on the two sides mirror each other; whatever is delivered, the accepted
plaintexts are a prefix of what was sent, the receiving context moves only by
their number, rejections change nothing, and the next genuine frame still opens. -/
theorem sealed_channel_pipe (hmac : Hmac) (gcm : Aes256Gcm) (correct : gcm.Correct)
    (a b : SessionCrypto) (mirror : Mirrored a b)
    (kdf : KdfInjective hmac [a.masterSend, a.masterRecv]) (channel : ChannelId) (version : Version) :
    ∃ ca cb, a.derive hmac channel version = .ok ca ∧ b.derive hmac channel version = .ok cb ∧
      ca.sendKey = cb.recvKey ∧ ca.sendPrefix = cb.recvPrefix ∧
      ca.recvKey = cb.sendKey ∧ ca.recvPrefix = cb.sendPrefix ∧
      ∀ sent frames ca' log delivered,
        sendAll (aeadCrypto gcm) ca sent = .ok (ca', frames) →
        SealLog a b channel version sent log →
        Authentic hmac (aeadCrypto gcm) log cb.recvKey delivered →
        ∃ cb' accepted, receiveAll (aeadCrypto gcm) cb delivered = (cb', accepted) ∧
          accepted <+: sent ∧
          (∃ n : UInt64, n.toNat = accepted.length ∧ cb' = { cb with recvCtr := n }) ∧
          (∀ f e cb'', cb'.openFrame (aeadCrypto gcm) f = (.error e, cb'') → cb'' = cb') ∧
          ∀ plain f, sent[accepted.length]? = some plain → frames[accepted.length]? = some f →
            (cb'.openFrame (aeadCrypto gcm) f).1 = .ok plain := by
  obtain ⟨ca, cb, ha, hb, key, pre, key', pre'⟩ := derive_mirror hmac mirror channel version
  refine ⟨ca, cb, ha, hb, key, pre, key', pre', ?_⟩
  intro sent frames ca' log delivered hsend logged auth
  have zeroA : ca.sendCtr = 0 := by
    obtain ⟨_, _, _, _, h⟩ := a.derive_ok hmac channel version
    rw [h] at ha; cases ha; rfl
  have zeroB : cb.recvCtr = 0 := by
    obtain ⟨_, _, _, _, h⟩ := b.derive_ok hmac channel version
    rw [h] at hb; cases hb; rfl
  obtain ⟨next, _, high, he⟩ :=
    receiveAll_spec correct mirror kdf hb logged auth cb rfl (by simp [zeroB])
  have count : (sent.take next.toNat).length = next.toNat := List.length_take_of_le high
  refine ⟨_, _, he, ?_, ?_, fun f e cb'' h => openFrame_error h, ?_⟩
  · simpa [zeroB] using List.take_prefix next.toNat sent
  · exact ⟨next, by simp [zeroB, count], rfl⟩
  · intro plain f hp hf
    have len : ((sent.take next.toNat).drop cb.recvCtr.toNat).length = next.toNat := by
      simp [zeroB, count]
    rw [len] at hp hf
    exact genuine_accepted correct zeroA hsend key pre next hp hf

/-! A run over primitives small enough to evaluate: the derived block is the
first master byte and the info fields, the tag is the key and the nonce. -/

private def plainHmac : Hmac := fun prk msg => copyFromSlice 32 (prk.headD 0 :: msg.drop 24)

private def plainGcm : Aes256Gcm where
  encrypt key nonce plaintext := some (key.toList ++ nonce.toList ++ plaintext)
  decrypt key nonce ciphertext :=
    if ciphertext.take 44 = key.toList ++ nonce.toList then some (ciphertext.drop 44) else none

private theorem plainGcm_correct : plainGcm.Correct := by
  intro key nonce plaintext ciphertext h
  obtain rfl : key.toList ++ nonce.toList ++ plaintext = ciphertext := by simpa [plainGcm] using h
  have head : (key.toList ++ nonce.toList ++ plaintext).take 44 = key.toList ++ nonce.toList :=
    List.take_left' (by simp)
  have tail : (key.toList ++ nonce.toList ++ plaintext).drop 44 = plaintext :=
    List.drop_left' (by simp)
  simp only [plainGcm, head, tail, if_true]

private theorem copyFromSlice_inj {n : Nat} {xs ys : Bytes} (len : xs.length = ys.length)
    (fits : xs.length ≤ n) (h : copyFromSlice n xs = copyFromSlice n ys) : xs = ys := by
  apply List.ext_getElem len
  intro i hx hy
  have at_i := congrArg (fun v : Vector UInt8 n => v.toList[i]?) h
  have inside : i < n := by omega
  simpa [copyFromSlice, List.getElem?_ofFn, inside, List.getD_eq_getElem?_getD, hx, hy] using at_i

private def initiatorEnd : SessionCrypto :=
  ⟨Vector.replicate 32 11, Vector.replicate 32 22, .initiator, 0⟩
private def responderEnd : SessionCrypto :=
  ⟨Vector.replicate 32 22, Vector.replicate 32 11, .responder, 0⟩

private theorem plainHmac_injective :
    KdfInjective plainHmac [initiatorEnd.masterSend, initiatorEnd.masterRecv] := by
  intro m hm m' hm' ch v d e ch' v' d' e' h
  rw [deriveKey_eq, deriveKey_eq, Except.ok.injEq, plainHmac, plainHmac] at h
  have split := copyFromSlice_inj (by simp [info, domainLabel]) (by simp [info, domainLabel]) h
  obtain ⟨head, tail⟩ := List.cons.inj split
  refine ⟨?_, ?_⟩
  · simp only [List.mem_cons, List.not_mem_nil, or_false] at hm hm'
    rcases hm with rfl | rfl <;> rcases hm' with rfl | rfl <;> first | rfl | exact absurd head (by decide)
  · have body : domainLabel ++ (info purposeKey ch v d e ++ [1]).drop 24 =
        domainLabel ++ (info purposeKey ch' v' d' e' ++ [1]).drop 24 := by rw [tail]
    have whole (x : Bytes) : domainLabel ++ (domainLabel ++ x ++ [1]).drop 24 = domainLabel ++ x ++ [1] := by
      rw [List.append_assoc, List.drop_left' (show domainLabel.length = 24 from rfl)]
    simp only [info, whole] at body
    exact List.append_cancel_right body

private def greeting : Bytes := [104, 105]
private def greetingCall : SealCall := ⟨initiatorEnd, 1, ⟨1, 0⟩, 0, greeting⟩

/-- A greeting delivered after garbage and then replayed arrives at most once. -/
theorem sealed_channel_pipe_greeting : ∃ cb frame,
    responderEnd.derive plainHmac 1 ⟨1, 0⟩ = .ok cb ∧
    greetingCall.frame plainHmac (aeadCrypto plainGcm) = .ok frame ∧
    (receiveAll (aeadCrypto plainGcm) cb [[1, 2, 3], frame, frame]).2 <+: [greeting] := by
  obtain ⟨ca, cb, ha, hb, key, _, _, _, pipe⟩ := sealed_channel_pipe plainHmac plainGcm plainGcm_correct
    initiatorEnd responderEnd ⟨rfl, rfl, by decide, rfl⟩ plainHmac_injective 1 ⟨1, 0⟩
  obtain ⟨ps, pr, _, _, hd⟩ := initiatorEnd.derive_ok plainHmac 1 ⟨1, 0⟩
  have context : greetingCall.context plainHmac = .ok ca := by
    rw [SealCall.context, greetingCall, ha]
    rw [hd] at ha
    cases ha
    rfl
  obtain ⟨frame, hf⟩ : ∃ f, ca.sealFrame (aeadCrypto plainGcm) greeting = .ok f := ⟨_, rfl⟩
  have sealed : greetingCall.frame plainHmac (aeadCrypto plainGcm) = .ok frame := by
    rw [SealCall.frame, context]
    exact hf
  obtain ⟨ca', hs⟩ : ∃ ca', sendAll (aeadCrypto plainGcm) ca [greeting] = .ok (ca', [frame]) := by
    rw [hd] at ha
    cases ha
    rw [sendAll, hf]
    exact ⟨_, rfl⟩
  have logged : SealLog initiatorEnd responderEnd 1 ⟨1, 0⟩ [greeting] [greetingCall] :=
    ⟨by simp [greetingCall, initiatorEnd, SessionCrypto.withEpoch], by simp [greetingCall]⟩
  have auth : Authentic plainHmac (aeadCrypto plainGcm) [greetingCall] cb.recvKey
      [[1, 2, 3], frame, frame] := by
    intro f hm plain ho
    obtain rfl | rfl : f = [1, 2, 3] ∨ f = frame := by simpa using hm
    · cases ho
    · exact ⟨greetingCall, List.mem_singleton_self _, ca, context, key, sealed⟩
  obtain ⟨_, _, hr, arrived, _⟩ := pipe _ _ _ _ _ hs logged auth
  exact ⟨cb, frame, hb, sealed, by rw [hr]; exact arrived⟩

end PeerBeam.Session
