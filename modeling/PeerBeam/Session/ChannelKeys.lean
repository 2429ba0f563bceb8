import PeerBeam.Lib.Run
import PeerBeam.Session.ManagerCalls

/-! Channel keys within one epoch: which runs derive each channel at most once. -/
namespace PeerBeam.Session
open ChannelManager
variable {Link : Type}

/-- The channels `SessionCrypto::derive` was invoked for, in order. -/
def derivedIds (history : List (Effect Link)) : List ChannelId :=
  history.filterMap fun
    | .derived id => some id
    | _ => none

def queuedIds (pending : List PendingOpen) : List ChannelId :=
  pending.filterMap fun
    | .accept id _ => some id
    | .skip _ => none

namespace ChannelIdAllocator

/-- The allocator can no longer hand out `id`: the other parity, behind `next`,
or without a successor. -/
def Passed (a : ChannelIdAllocator) (id : ChannelId) : Prop :=
  id.toNat % 2 ≠ a.parity.toNat ∨ id.toNat < a.next.toNat ∨ 2 ^ 64 ≤ id.toNat + 2

def Aligned (a : ChannelIdAllocator) : Prop := a.next.toNat % 2 = a.parity.toNat

structure Advances (a b : ChannelIdAllocator) : Prop where
  parity : b.parity = a.parity
  forward : a.next.toNat ≤ b.next.toNat
  sameParity : b.next.toNat % 2 = a.next.toNat % 2

namespace Advances
variable {a b c : ChannelIdAllocator}

theorem refl (a : ChannelIdAllocator) : Advances a a := ⟨rfl, Nat.le_refl _, rfl⟩

theorem trans (h : Advances a b) (h' : Advances b c) : Advances a c :=
  ⟨h'.parity.trans h.parity, h.forward.trans h'.forward, h'.sameParity.trans h.sameParity⟩

theorem aligned (h : Advances a b) (ha : a.Aligned) : b.Aligned := by
  unfold Aligned at *
  rw [h.sameParity, h.parity, ha]

theorem passed (h : Advances a b) {id : ChannelId} (hp : a.Passed id) : b.Passed id := by
  unfold Passed at *
  rw [h.parity]
  have := h.forward
  omega

end Advances

theorem new_aligned (role : SessionRole) : (new role).Aligned := by
  cases role <;> rfl

private theorem bump_advances {a : ChannelIdAllocator} {next : UInt64}
    (h : checkedAdd a.next 2 = some next) : Advances a { a with next } := by
  obtain ⟨_, value⟩ := checkedAdd_eq_some.mp h
  have two : (2 : UInt64).toNat = 2 := rfl
  refine ⟨rfl, ?_, ?_⟩ <;> simp only [value, two] <;> omega

theorem allocateLoop_advances {isTaken : ChannelId → Bool} {rounds : Nat}
    {a a' : ChannelIdAllocator} {result : Option ChannelId}
    (h : allocateLoop isTaken rounds a = (result, a')) : Advances a a' := by
  induction rounds generalizing a with
  | zero => cases h; exact .refl _
  | succ rounds ih =>
    unfold allocateLoop at h
    cases hn : checkedAdd a.next 2 with
    | none => rw [hn] at h; cases h; exact .refl _
    | some next =>
      simp only [hn] at h
      split at h
      · cases h; exact bump_advances hn
      · exact (bump_advances hn).trans (ih h)

/-- An id that is handed out was not passed before and is passed now. -/
theorem allocateLoop_some {isTaken : ChannelId → Bool} {rounds : Nat}
    {a a' : ChannelIdAllocator} {id : ChannelId} (aligned : a.Aligned)
    (h : allocateLoop isTaken rounds a = (some id, a')) :
    ¬ a.Passed id ∧ a'.Passed id ∧ id ≠ 0 ∧ isTaken id = false := by
  induction rounds generalizing a with
  | zero => cases h
  | succ rounds ih =>
    unfold allocateLoop at h
    cases hn : checkedAdd a.next 2 with
    | none => rw [hn] at h; cases h
    | some next =>
      obtain ⟨fits, value⟩ := checkedAdd_eq_some.mp hn
      have two : (2 : UInt64).toNat = 2 := rfl
      rw [two] at fits value
      simp only [hn] at h
      split at h
      · rename_i free
        cases h
        refine ⟨?_, .inr (.inl (by simp only; omega)), free.1, free.2⟩
        unfold Passed
        unfold Aligned at aligned
        omega
      · obtain ⟨fresh, rest⟩ := ih ((bump_advances hn).aligned aligned) h
        exact ⟨fun hp => fresh ((bump_advances hn).passed hp), rest⟩

theorem reserve_advances (a : ChannelIdAllocator) (aligned : a.Aligned) (id : ChannelId) :
    Advances a (a.reserve id) ∧ (a.reserve id).Passed id := by
  have two : (2 : UInt64).toNat = 2 := rfl
  have parity : (id % 2 = a.parity) ↔ id.toNat % 2 = a.parity.toNat := by
    rw [← UInt64.toNat_inj, UInt64.toNat_mod, two]
  unfold reserve
  by_cases own : id % 2 = a.parity
  · rw [if_pos own]
    have own := parity.mp own
    cases hn : checkedAdd id 2 with
    | none =>
      have full := checkedAdd_eq_none.mp hn
      exact ⟨.refl a, .inr (.inr (by simpa only [two] using full))⟩
    | some next =>
      obtain ⟨fits, value⟩ := checkedAdd_eq_some.mp hn
      rw [two] at value
      unfold Aligned at aligned
      dsimp only
      split
      · rename_i behind
        have behind := UInt64.lt_iff_toNat_lt.mp behind
        refine ⟨⟨rfl, by simp only; omega, by simp only; omega⟩, .inr (.inl ?_)⟩
        simp only
        omega
      · rename_i ahead
        have ahead := UInt64.le_iff_toNat_le.mp (UInt64.not_lt.mp ahead)
        exact ⟨.refl a, .inr (.inl (by omega))⟩
  · rw [if_neg own]
    exact ⟨.refl a, .inl (fun same => own (parity.mpr same))⟩

end ChannelIdAllocator

/-- Every channel was derived at most once, and neither the queue nor the
allocator can bring a derived one back. -/
structure KeysOnce (m : ChannelManager Link) : Prop where
  once : (derivedIds m.history).Nodup
  queued : (queuedIds m.pendingOpens).Nodup
  apart : ∀ id ∈ queuedIds m.pendingOpens, id ∉ derivedIds m.history
  aligned : m.ids.Aligned
  passed : ∀ id ∈ derivedIds m.history, m.ids.Passed id

namespace KeysOnce
variable {m m' : ChannelManager Link}

/-- Nothing derived, nothing queued. -/
theorem frame (h : KeysOnce m) (history : derivedIds m'.history = derivedIds m.history)
    (pending : (queuedIds m'.pendingOpens).Sublist (queuedIds m.pendingOpens))
    (ids : m.ids.Advances m'.ids) : KeysOnce m' where
  once := by rw [history]; exact h.once
  queued := h.queued.sublist pending
  apart id mem := by rw [history]; exact h.apart id (pending.subset mem)
  aligned := ids.aligned h.aligned
  passed id mem := ids.passed (h.passed id (by rwa [history] at mem))

/-- One fresh channel derived, which the allocator then has passed. -/
theorem derive (h : KeysOnce m) {id : ChannelId}
    (history : derivedIds m'.history = derivedIds m.history ++ [id])
    (fresh : id ∉ derivedIds m.history)
    (pending : (queuedIds m'.pendingOpens).Sublist (queuedIds m.pendingOpens))
    (unqueued : id ∉ queuedIds m'.pendingOpens) (ids : m.ids.Advances m'.ids)
    (passed : m'.ids.Passed id) : KeysOnce m' where
  once := by
    rw [history]
    exact List.nodup_append.mpr ⟨h.once, List.nodup_singleton id, by
      rintro a ha b hb rfl
      exact fresh (List.mem_singleton.mp hb ▸ ha)⟩
  queued := h.queued.sublist pending
  apart other mem := by
    rw [history, List.mem_append, List.mem_singleton, not_or]
    exact ⟨h.apart other (pending.subset mem), fun same => unqueued (same ▸ mem)⟩
  aligned := ids.aligned h.aligned
  passed other mem := by
    rw [history, List.mem_append, List.mem_singleton] at mem
    rcases mem with mem | rfl
    · exact ids.passed (h.passed other mem)
    · exact passed

/-- One fresh channel queued for its stream. -/
theorem queue (h : KeysOnce m) {id : ChannelId} (history : derivedIds m'.history = derivedIds m.history)
    (fresh : id ∉ derivedIds m.history)
    (pending : queuedIds m'.pendingOpens = queuedIds m.pendingOpens ++ [id])
    (unqueued : id ∉ queuedIds m.pendingOpens) (ids : m'.ids = m.ids) : KeysOnce m' where
  once := by rw [history]; exact h.once
  queued := by
    rw [pending]
    exact List.nodup_append.mpr ⟨h.queued, List.nodup_singleton id, by
      rintro a ha b hb rfl
      exact unqueued (List.mem_singleton.mp hb ▸ ha)⟩
  apart other mem := by
    rw [pending, List.mem_append, List.mem_singleton] at mem
    rw [history]
    rcases mem with mem | rfl
    · exact h.apart other mem
    · exact fresh
  aligned := by rw [ids]; exact h.aligned
  passed other mem := by rw [ids]; exact h.passed other (by rwa [history] at mem)

end KeysOnce

@[simp] theorem queuedIds_skip (owed : Nat) (pending : List PendingOpen) :
    queuedIds (.skip owed :: pending) = queuedIds pending := rfl

@[simp] theorem queuedIds_accept (id : ChannelId) (type : ChannelType) (pending : List PendingOpen) :
    queuedIds (.accept id type :: pending) = id :: queuedIds pending := rfl

theorem mem_queuedIds_iff {pending : List PendingOpen} {id : ChannelId} :
    id ∈ queuedIds pending ↔ pending.any (PendingOpen.names id) = true := by
  induction pending with
  | nil => simp [queuedIds]
  | cons first rest ih =>
    cases first with
    | skip owed => simpa [PendingOpen.names] using ih
    | accept other type =>
      rw [queuedIds_accept, List.mem_cons, ih, List.any_cons, Bool.or_eq_true]
      simp only [PendingOpen.names, decide_eq_true_eq, @eq_comm _ id other]

theorem not_queued_of_inUse {m : ChannelManager Link} {id : ChannelId} (h : m.inUse id = false) :
    id ∉ queuedIds m.pendingOpens := by
  rw [mem_queuedIds_iff]
  simp only [inUse, Bool.or_eq_false_iff] at h
  simp only [h.2, Bool.false_eq_true, not_false_eq_true]

@[simp] theorem queuedIds_oweStream (pending : List PendingOpen) :
    queuedIds (oweStream pending) = queuedIds pending := by
  fun_induction oweStream pending with
  | case5 first second rest ih => cases first <;> simp [ih]
  | _ => rfl

/-- When the source's own checks do keep a derived channel from coming back. A
peer's open must not name a channel that was already keyed in this epoch. A
re-open must not name one that was keyed or is queued; and if its stream fails to
open, the allocator must not be able to hand the id out later. -/
def ManagerCall.KeyFresh (m : ChannelManager Link) : ManagerCall Link → Prop
  | .handleChannelOpen id type => id ≠ controlChannel → m.permit type = .ok () →
      m.inUse id = false → id ∉ derivedIds m.history
  | .reopenChannel id type stream => m.permit type = .ok () → id ∉ derivedIds m.history ∧
      id ∉ queuedIds m.pendingOpens ∧ (∀ e, stream = .error e → m.ids.Passed id)
  | _ => True

section Steps
variable (hmac : Hmac) {m : ChannelManager Link}

private theorem announceOpen_keysOnce (h : KeysOnce m) (id : ChannelId) (type : ChannelType) :
    KeysOnce (m.announceOpen id type) := by
  obtain ⟨_, _, announced⟩ := m.announceOpen_eq id type
  rw [announced]
  exact h.frame (by simp [record, emit, derivedIds]) (.refl _) (.refl _)

private theorem tryPair_keysOnce (h : KeysOnce m) : KeysOnce (m.tryPair hmac).1 := by
  refine (tryPair_invariant hmac ?_ h).1
  intro m pending opens link streams h ho hs
  cases pending with
  | skip owed =>
    simp only [pairOne]
    split <;> exact h.frame (by simp [record, derivedIds]) (by simp [ho, record]) (.refl _)
  | accept id type =>
    have head : queuedIds m.pendingOpens = id :: queuedIds opens := by rw [ho, queuedIds_accept]
    have fresh : id ∉ derivedIds m.history := h.apart id (by rw [head]; exact List.mem_cons_self)
    have unqueued : id ∉ queuedIds opens := by
      have := h.queued
      rw [head] at this
      exact (List.nodup_cons.mp this).1
    obtain ⟨ids, passed⟩ := m.ids.reserve_advances h.aligned id
    obtain ⟨-, -, paired⟩ | ⟨-, paired⟩ := { m with
      pendingOpens := opens, pendingStreams := streams }.pairAccepted_cases hmac id type link
    · simp only [pairOne, paired]
      exact h.derive (by simp [record, emit, derivedIds]) fresh
        (by rw [head]; exact List.sublist_cons_self ..) unqueued ids passed
    · simp only [pairOne, paired]
      apply announceOpen_keysOnce
      exact h.derive (by simp [record, insertChannel, derivedIds]) fresh
        (by rw [head]; exact List.sublist_cons_self ..) unqueued ids passed

private theorem attached_keysOnce (h : KeysOnce m) {id : ChannelId} {ids : ChannelIdAllocator}
    (fresh : id ∉ derivedIds m.history) (unqueued : id ∉ queuedIds m.pendingOpens)
    (advances : m.ids.Advances ids) (passed : ids.Passed id) (channel : Channel)
    (stream : Except SessionError Link) :
    KeysOnce { m.attached id channel stream with ids } := by
  cases stream <;>
    exact h.derive (by simp [attached, record, insertChannel, derivedIds]) fresh
      (List.Sublist.refl _) unqueued advances passed

/-- A locally allocated channel is fresh: unqueued by the allocator's check, and
underived because the allocator had not passed it. -/
private theorem allocated_keysOnce (h : KeysOnce m) {id : ChannelId} {ids : ChannelIdAllocator}
    (ha : m.ids.allocate m.inUse = (some id, ids)) (channel : Channel)
    (stream : Except SessionError Link) :
    KeysOnce ({ m with ids }.attached id channel stream) := by
  obtain ⟨ahead, passed, _, free⟩ := ChannelIdAllocator.allocateLoop_some h.aligned ha
  have kept := attached_keysOnce h (fun mem => ahead (h.passed id mem)) (not_queued_of_inUse free)
    (ChannelIdAllocator.allocateLoop_advances ha) passed channel stream
  cases stream <;> exact kept

theorem step_keysOnce (h : KeysOnce m) (call : ManagerCall Link) (fresh : call.KeyFresh m) :
    KeysOnce (m.step hmac call) := by
  cases call with
  | openChannel type stream =>
    simp only [step]
    obtain same | ⟨-, ids, ⟨ha, exhausted⟩ | ⟨id, ha, opened⟩⟩ := m.openChannel_cases hmac type stream
    · rw [same]; exact h
    · rw [exhausted]
      exact h.frame rfl (.refl _) (ChannelIdAllocator.allocateLoop_advances ha)
    · rw [opened]
      exact allocated_keysOnce h ha _ stream
  | openStreamChannel type stream =>
    simp only [step]
    obtain same | ⟨-, ids, ⟨ha, exhausted⟩ | ⟨id, ha, ⟨e, _, failed⟩ | ⟨link, _, opened⟩⟩⟩ :=
      m.openStreamChannel_cases hmac type stream
    · rw [same]; exact h
    · rw [exhausted]
      exact h.frame rfl (.refl _) (ChannelIdAllocator.allocateLoop_advances ha)
    · rw [failed]
      exact allocated_keysOnce h ha _ stream
    · rw [opened]
      exact announceOpen_keysOnce (allocated_keysOnce h ha _ stream) id type
  | reopenChannel id type stream =>
    simp only [step]
    obtain same | ⟨permitted, ⟨e, he, failed⟩ | ⟨link, _, opened⟩⟩ :=
      m.reopenChannel_cases hmac id type stream
    · rw [same]; exact h
    · obtain ⟨underived, unqueued, passed⟩ := fresh permitted
      rw [failed]
      subst he
      exact attached_keysOnce h underived unqueued (.refl _) (passed e rfl) ⟨type, .opening⟩ (.error e)
    · obtain ⟨underived, unqueued, -⟩ := fresh permitted
      obtain ⟨advances, passed⟩ := m.ids.reserve_advances h.aligned id
      rw [opened]
      exact attached_keysOnce h underived unqueued advances passed _ stream
  | handleChannelOpen id type =>
    simp only [step]
    obtain ⟨reason, refused⟩ | ⟨⟨data, permitted, free⟩, queued⟩ := m.handleChannelOpen_cases hmac id type
    · rw [refused]
      exact tryPair_keysOnce hmac (h.frame (by simp [record, emit, derivedIds])
        (by simp [record, emit]) (.refl _))
    · rw [queued]
      exact tryPair_keysOnce hmac (h.queue (by simp [record, derivedIds]) (fresh data permitted free)
        (by simp [queuedIds]) (not_queued_of_inUse free) rfl)
  | onStreamAccepted link =>
    exact tryPair_keysOnce hmac (h.frame (by simp [record, derivedIds]) (.refl _) (.refl _))
  | handleChannelAccept id =>
    simp only [step]
    obtain same | ⟨ch, -, -, accepted⟩ := m.handleChannelAccept_cases id
    · rw [same]; exact h
    · rw [accepted]
      apply announceOpen_keysOnce
      exact h.frame rfl (.refl _) (.refl _)
  | stopAll => exact h.frame (by simp [step, stopAll, record, derivedIds]) (List.nil_sublist _) (.refl _)
  | onActorEvent event =>
    simp only [step]
    obtain ⟨-, same⟩ | ⟨-, told, -, ended⟩ := m.onActorEvent_cases event
    · rw [same]; exact h
    · obtain ⟨parked, park, -⟩ := m.parkForget_eq event.channel
      rw [ended, park]
      exact h.frame (by simp [removeChannel, emit, record, derivedIds]) (.refl _) (.refl _)
  | closeChannel id | handleChannelClose id | handleChannelClosed id =>
    simp only [step, closeChannel, handleChannelClose, handleChannelClosed]
    obtain forgotten | closed := m.closeLive_cases id
    · rw [forgotten]
      exact h.frame rfl (.refl _) (.refl _)
    · rw [closed]
      exact h.frame (by simp [forgetResumable, removeChannel, emit, record, derivedIds]) (.refl _) (.refl _)
  | handleChannelReject id reason | handleChannelError id detail =>
    exact h.frame (by simp [step, handleChannelReject, handleChannelError, dropWith, forgetResumable,
      removeChannel, emit, record, derivedIds]) (.refl _) (.refl _)
  | confirmLinkAlive | receiverDropped => exact h.frame rfl (.refl _) (.refl _)

end Steps

theorem new_keysOnce (crypto : SessionCrypto) (version : Version) (role : SessionRole)
    (negotiated : ChannelType → Bool) (limit : Nat) (streamTypes : List ChannelType) :
    KeysOnce (.new crypto version role negotiated limit streamTypes : ChannelManager Link) where
  once := List.nodup_nil
  queued := List.nodup_nil
  apart := by simp [ChannelManager.new, queuedIds]
  aligned := ChannelIdAllocator.new_aligned role
  passed := by simp [ChannelManager.new, derivedIds]

/-- In every run whose peer opens and re-opens name channels that were not keyed
before, no channel key is derived twice. -/
theorem derive_at_most_once (hmac : Hmac) (crypto : SessionCrypto) (version : Version)
    (role : SessionRole) (negotiated : ChannelType → Bool) (limit : Nat)
    (streamTypes : List ChannelType) (calls : List (ManagerCall Link))
    (fresh : TransitionRun.Along (ChannelManager.step hmac) (fun m call => call.KeyFresh m)
      (.new crypto version role negotiated limit streamTypes) calls) :
    (derivedIds ((ChannelManager.new crypto version role negotiated limit streamTypes).run hmac
      calls).history).Nodup :=
  (fresh.invariant (new_keysOnce ..) (fun _ call h ok => step_keysOnce hmac h call ok)).once

theorem derive_at_most_once_three_opens :
    (derivedIds ((testManager 4 []).run zeroHmac
      [.reopenChannel 5 2 (.ok 10), .handleChannelOpen 1 2, .onStreamAccepted 11,
        .openChannel 2 (.ok 12)]).history).Nodup :=
  derive_at_most_once zeroHmac zeroCrypto ⟨1, 0⟩ .responder (fun _ => true) 4 [] _
    ⟨fun _ => ⟨by decide, by decide, fun e h => by cases h⟩, fun _ _ _ => by decide +kernel,
      trivial, trivial, trivial⟩

/-- A peer that closes its channel and opens the same id again is keyed twice. -/
theorem derive_twice_after_close :
    ¬ (derivedIds ((testManager 4 []).run zeroHmac
      [.handleChannelOpen 1 2, .onStreamAccepted 10, .handleChannelClose 1,
        .handleChannelOpen 1 2, .onStreamAccepted 11]).history).Nodup := by
  decide +kernel

end PeerBeam.Session
