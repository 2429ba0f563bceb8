import PeerBeam.Lib.Run
import PeerBeam.Session.ManagerCalls

/-! What a peer can make the manager hold: live and queued channels within the
limit, a queue without adjacent skip runs, and a bounded resume record. -/
namespace PeerBeam.Session
open ChannelManager
variable {Link : Type}

/-- No two neighbouring entries are both skips. -/
def NoAdjacentSkips (pending : List PendingOpen) : Prop :=
  pending.IsChain fun a b => a.isAccept = true ∨ b.isAccept = true

/-- No skip count is at the ceiling of its machine word. -/
def SkipsBelow (m : ChannelManager Link) : Prop :=
  ∀ owed, .skip owed ∈ m.pendingOpens → owed < usizeMax

def PendingOpen.belowCeiling : PendingOpen → Bool
  | .skip owed => owed < usizeMax
  | .accept .. => true

theorem skipsBelow_iff {m : ChannelManager Link} :
    m.pendingOpens.all PendingOpen.belowCeiling = true ↔ SkipsBelow m := by
  rw [List.all_eq_true]
  constructor
  · intro h owed mem
    exact of_decide_eq_true (h _ mem)
  · intro h pending mem
    cases pending with
    | skip owed => exact decide_eq_true (h owed mem)
    | accept id type => rfl

instance (m : ChannelManager Link) : Decidable (SkipsBelow m) := decidable_of_iff _ skipsBelow_iff

structure Bounded (limit : Nat) (m : ChannelManager Link) : Prop where
  limit_eq : m.limit = limit
  live : m.channels.size + m.pendingAccepts ≤ m.limit
  skips : NoAdjacentSkips m.pendingOpens
  record : m.resumable.size ≤ max m.limit 1

/-- Skip runs stand between accepts, so the queue is at most twice as long. -/
theorem NoAdjacentSkips.length_le {pending : List PendingOpen} (h : NoAdjacentSkips pending) :
    pending.length ≤ 2 * pending.countP PendingOpen.isAccept + 1 := by
  suffices strong : pending.length ≤ 2 * pending.countP PendingOpen.isAccept + 1 ∧
      (∀ first ∈ pending.head?, first.isAccept = true →
        pending.length ≤ 2 * pending.countP PendingOpen.isAccept) from strong.1
  induction pending with
  | nil => simp
  | cons first rest ih =>
    obtain ⟨joint, chain⟩ := List.isChain_cons.mp h
    obtain ⟨any, headed⟩ := ih chain
    cases first with
    | accept id type =>
      simp only [List.length_cons, List.countP_cons, PendingOpen.isAccept, if_true]
      exact ⟨by omega, fun _ _ _ => by omega⟩
    | skip owed =>
      refine ⟨?_, by simp [PendingOpen.isAccept]⟩
      have short : rest.length ≤ 2 * rest.countP PendingOpen.isAccept := by
        cases rest with
        | nil => simp
        | cons second rest =>
          apply headed second rfl
          simpa [PendingOpen.isAccept] using joint second rfl
      simp only [List.length_cons, List.countP_cons, PendingOpen.isAccept, Bool.false_eq_true, if_false]
      omega

/-- Replacing a front skip by another keeps the queue well formed. -/
theorem NoAdjacentSkips.reskip {owed owed' : Nat} {rest : List PendingOpen}
    (h : NoAdjacentSkips (.skip owed :: rest)) : NoAdjacentSkips (.skip owed' :: rest) :=
  List.isChain_cons.mpr ⟨(List.isChain_cons.mp h).1, (List.isChain_cons.mp h).2⟩

theorem NoAdjacentSkips.pushAccept {pending : List PendingOpen} (h : NoAdjacentSkips pending)
    (id : ChannelId) (type : ChannelType) : NoAdjacentSkips (pending ++ [.accept id type]) := by
  refine List.isChain_append.mpr ⟨h, List.isChain_singleton _, ?_⟩
  intro a _ b hb
  obtain rfl : .accept id type = b := by simpa using hb
  exact .inr rfl

@[simp] theorem countP_oweStream (pending : List PendingOpen) :
    (oweStream pending).countP PendingOpen.isAccept = pending.countP PendingOpen.isAccept := by
  fun_induction oweStream pending with
  | case5 first second rest ih => rw [List.countP_cons, ih, ← List.countP_cons]
  | _ => rfl

private theorem head_oweStream {second first : PendingOpen} {rest : List PendingOpen}
    (h : first ∈ (oweStream (second :: rest)).head?) : first.isAccept = second.isAccept := by
  cases rest with
  | cons third rest =>
    rw [oweStream, List.head?_cons, Option.mem_some_iff] at h
    rw [h]
  | nil =>
    cases second with
    | accept id type => cases h; rfl
    | skip owed =>
      unfold oweStream at h
      split at h <;> cases h <;> rfl

/-- Below the ceiling a refusal joins the run at the back, if there is one. -/
theorem NoAdjacentSkips.oweStream {pending : List PendingOpen} (h : NoAdjacentSkips pending)
    (below : ∀ owed, .skip owed ∈ pending → owed < usizeMax) :
    NoAdjacentSkips (ChannelManager.oweStream pending) := by
  fun_induction ChannelManager.oweStream pending with
  | case1 => exact List.isChain_singleton _
  | case2 owed _ => exact List.isChain_singleton _
  | case3 owed full => exact absurd (below owed List.mem_cons_self) full
  | case4 id type => exact List.isChain_cons_cons.mpr ⟨.inl rfl, List.isChain_singleton _⟩
  | case5 first second rest ih =>
    obtain ⟨joint, chain⟩ := List.isChain_cons_cons.mp h
    have tail := ih chain fun o mem => below o (List.mem_cons_of_mem _ mem)
    refine List.isChain_cons.mpr ⟨fun next hn => ?_, tail⟩
    rw [head_oweStream hn]
    exact joint

/-- Eviction leaves room for one entry, or an empty record. -/
theorem size_evict (n : Nat) (m : ChannelManager Link) :
    (m.evict n).resumable.size ≤ m.limit - 1 ∨ (m.evict n).resumable.size ≤ m.resumable.size - n := by
  induction n generalizing m with
  | zero => exact .inr (Nat.le_refl _)
  | succ n ih =>
    unfold evict
    split
    · split
      · rename_i empty
        have none : m.resumable.size = 0 := by
          rw [← Std.ExtTreeMap.length_keys, List.head?_eq_none_iff.mp empty]
          rfl
        exact .inr (by omega)
      · rename_i oldest first
        have mem : oldest ∈ m.resumable := Std.ExtTreeMap.mem_keys.mp (List.mem_of_mem_head? first)
        have smaller : (m.forgetResumable oldest).resumable.size = m.resumable.size - 1 := by
          rw [forgetResumable, Std.ExtTreeMap.size_erase,
            if_pos (Std.ExtTreeMap.contains_iff_mem.mpr mem)]
        obtain room | shrunk := ih (m.forgetResumable oldest)
        · exact .inl room
        · exact .inr (by rw [smaller] at shrunk; omega)
    · exact .inl (by omega)

theorem size_announceOpen (m : ChannelManager Link) (id : ChannelId) (type : ChannelType) :
    (m.announceOpen id type).resumable.size ≤ max m.limit 1 := by
  have grown := Std.ExtTreeMap.size_insert_le (t := (m.evict m.resumable.size).resumable)
    (k := id) (v := type)
  have kept := size_evict m.resumable.size m
  simp only [announceOpen, emit, record]
  omega

theorem size_foldl_erase (ids : List ChannelId)
    (r : Std.ExtTreeMap ChannelId ChannelType compare) :
    (ids.foldl (fun r channel => r.erase channel) r).size ≤ r.size := by
  induction ids generalizing r with
  | nil => exact Nat.le_refl _
  | cons id ids ih => exact (ih _).trans Std.ExtTreeMap.size_erase_le

namespace Bounded
variable {L : Nat} {m m' : ChannelManager Link}

theorem frame (h : Bounded L m) (channels : m'.channels.size ≤ m.channels.size)
    (opens : m'.pendingOpens = m.pendingOpens) (limit : m'.limit = m.limit)
    (resumable : m'.resumable.size ≤ max m.limit 1) : Bounded L m' where
  limit_eq := limit.trans h.limit_eq
  live := by
    have := h.live
    rw [pendingAccepts, opens, limit]
    exact (Nat.add_le_add_right channels _).trans this
  skips := by rw [opens]; exact h.skips
  record := by rw [limit]; exact resumable

/-- One channel more, where the limit was checked or a queued accept made room. -/
theorem register (h : Bounded L m) (room : m'.channels.size + m'.pendingAccepts ≤ m.limit)
    (skips : NoAdjacentSkips m'.pendingOpens) (limit : m'.limit = m.limit)
    (resumable : m'.resumable = m.resumable) : Bounded L m' where
  limit_eq := limit.trans h.limit_eq
  live := by rw [limit]; exact room
  skips := skips
  record := by rw [limit, resumable]; exact h.record

theorem announce (h : Bounded L m) (id : ChannelId) (type : ChannelType) :
    Bounded L (m.announceOpen id type) := by
  have sized := size_announceOpen m id type
  obtain ⟨_, _, announced⟩ := m.announceOpen_eq id type
  rw [announced] at sized ⊢
  exact h.frame (Nat.le_refl _) rfl rfl sized

end Bounded

/-- A permitted open finds a free slot. -/
theorem room_of_permit {m : ChannelManager Link} {type : ChannelType} (h : m.permit type = .ok ()) :
    m.channels.size + m.pendingAccepts < m.limit := by
  unfold permit at h
  repeat' split at h
  all_goals cases h
  omega

section Steps
variable (hmac : Hmac) {L : Nat} {m : ChannelManager Link}

private theorem tryPair_bounded (h : Bounded L m) : Bounded L (m.tryPair hmac).1 := by
  refine (tryPair_invariant hmac ?_ h).1
  intro m pending opens link streams h ho hs
  have chain : NoAdjacentSkips (pending :: opens) := by rw [← ho]; exact h.skips
  have live := h.live
  rw [pendingAccepts, ho] at live
  cases pending with
  | skip owed =>
    simp only [pairOne]
    split
    · exact h.register live chain.reskip rfl rfl
    · exact h.register live (List.isChain_cons.mp chain).2 rfl rfl
  | accept id type =>
    have slot : m.channels.size + 1 + opens.countP PendingOpen.isAccept ≤ m.limit := by
      rw [List.countP_cons_of_pos rfl] at live
      omega
    obtain ⟨-, -, paired⟩ | ⟨-, paired⟩ := { m with
      pendingOpens := opens, pendingStreams := streams }.pairAccepted_cases hmac id type link
    · simp only [pairOne, paired]
      exact h.register ((Nat.add_le_add_right (Nat.le_succ _) _).trans slot)
        (List.isChain_cons.mp chain).2 rfl rfl
    · simp only [pairOne, paired]
      apply Bounded.announce
      exact h.register ((Nat.add_le_add_right Std.ExtTreeMap.size_insert_le _).trans slot)
        (List.isChain_cons.mp chain).2 rfl rfl

private theorem attached_bounded (h : Bounded L m) {type : ChannelType}
    (permitted : m.permit type = .ok ()) (ids : ChannelIdAllocator) (id : ChannelId)
    (channel : Channel) (stream : Except SessionError Link) :
    Bounded L ({ m with ids }.attached id channel stream) := by
  have room := room_of_permit permitted
  cases stream with
  | error e => exact h.register h.live h.skips rfl rfl
  | ok link =>
    have grown : (m.channels.insert id channel).size ≤ m.channels.size + 1 :=
      Std.ExtTreeMap.size_insert_le
    refine h.register (m := m) ?_ h.skips rfl rfl
    have fits : m.channels.size + 1 + m.pendingAccepts ≤ m.limit := by omega
    exact (Nat.add_le_add_right grown _).trans fits

theorem step_bounded (h : Bounded L m) (below : SkipsBelow m) (call : ManagerCall Link) :
    Bounded L (m.step hmac call) := by
  cases call with
  | openChannel type stream =>
    simp only [step]
    obtain same | ⟨permitted, ids, ⟨-, exhausted⟩ | ⟨id, -, opened⟩⟩ :=
      m.openChannel_cases hmac type stream
    · rw [same]; exact h
    · rw [exhausted]; exact h.frame (Nat.le_refl _) rfl rfl h.record
    · rw [opened]; exact attached_bounded h permitted ..
  | openStreamChannel type stream =>
    simp only [step]
    obtain same | ⟨permitted, ids, ⟨-, exhausted⟩ | ⟨id, -, ⟨e, _, failed⟩ | ⟨link, _, opened⟩⟩⟩ :=
      m.openStreamChannel_cases hmac type stream
    · rw [same]; exact h
    · rw [exhausted]; exact h.frame (Nat.le_refl _) rfl rfl h.record
    · rw [failed]; exact attached_bounded h permitted ..
    · rw [opened]; exact (attached_bounded h permitted ..).announce ..
  | reopenChannel id type stream =>
    simp only [step]
    obtain same | ⟨permitted, ⟨e, _, failed⟩ | ⟨link, _, opened⟩⟩ :=
      m.reopenChannel_cases hmac id type stream
    · rw [same]; exact h
    · rw [failed]; exact attached_bounded h permitted m.ids ..
    · rw [opened]
      have attached := attached_bounded h permitted m.ids id ⟨type, .opening⟩ stream
      exact attached.frame (Nat.le_refl _) rfl rfl attached.record
  | handleChannelOpen id type =>
    simp only [step]
    obtain ⟨reason, refused⟩ | ⟨⟨-, permitted, -⟩, queued⟩ := m.handleChannelOpen_cases hmac id type
    · rw [refused]
      refine tryPair_bounded hmac (h.register ?_ (h.skips.oweStream below) rfl rfl)
      simp only [pendingAccepts, countP_oweStream]
      exact h.live
    · rw [queued]
      refine tryPair_bounded hmac (h.register ?_ (h.skips.pushAccept id type) rfl rfl)
      have room := room_of_permit permitted
      simp only [pendingAccepts, List.countP_append] at room ⊢
      exact room
  | onStreamAccepted link =>
    exact tryPair_bounded hmac (h.frame (Nat.le_refl _) rfl rfl h.record)
  | handleChannelAccept id =>
    simp only [step]
    obtain same | ⟨ch, live, -, accepted⟩ := m.handleChannelAccept_cases id
    · rw [same]; exact h
    · rw [accepted]
      apply Bounded.announce
      have mem : m.channels.contains id = true := by
        rw [Std.ExtTreeMap.contains_eq_isSome_getElem?, live]; rfl
      refine h.frame ?_ rfl rfl h.record
      simp only [insertChannel, Std.ExtTreeMap.size_insert]
      rw [if_pos mem]
  | stopAll =>
    exact ⟨h.limit_eq, by simp [step, stopAll, record, pendingAccepts], List.isChain_nil,
      by simp [step, stopAll, record]⟩
  | onActorEvent event =>
    simp only [step]
    obtain ⟨-, same⟩ | ⟨-, told, -, ended⟩ := m.onActorEvent_cases event
    · rw [same]; exact h
    · obtain ⟨parked, park, -⟩ := m.parkForget_eq event.channel
      rw [ended, park]
      exact h.frame Std.ExtTreeMap.size_erase_le rfl rfl h.record
  | closeChannel id | handleChannelClose id | handleChannelClosed id =>
    simp only [step, closeChannel, handleChannelClose, handleChannelClosed]
    have smaller : (m.resumable.erase id).size ≤ max m.limit 1 :=
      Std.ExtTreeMap.size_erase_le.trans h.record
    obtain forgotten | closed := m.closeLive_cases id
    · rw [forgotten]
      exact h.frame (Nat.le_refl _) rfl rfl smaller
    · rw [closed]
      exact h.frame Std.ExtTreeMap.size_erase_le rfl rfl smaller
  | handleChannelReject id reason | handleChannelError id detail =>
    exact h.frame Std.ExtTreeMap.size_erase_le rfl rfl (Std.ExtTreeMap.size_erase_le.trans h.record)
  | confirmLinkAlive =>
    exact h.frame (Nat.le_refl _) rfl rfl ((size_foldl_erase ..).trans h.record)
  | receiverDropped => exact h.frame (Nat.le_refl _) rfl rfl h.record

end Steps

theorem new_bounded (crypto : SessionCrypto) (version : Version) (role : SessionRole)
    (negotiated : ChannelType → Bool) (limit : Nat) (streamTypes : List ChannelType) :
    Bounded limit (.new crypto version role negotiated limit streamTypes : ChannelManager Link) where
  limit_eq := rfl
  live := by simp [ChannelManager.new, pendingAccepts]
  skips := List.isChain_nil
  record := by simp [ChannelManager.new]

/-- In every run that keeps the skip counts below the word's ceiling, whatever the
peer sends, the manager's collections stay within bounds set by its limit. -/
theorem manager_bounds (hmac : Hmac) (crypto : SessionCrypto) (version : Version)
    (role : SessionRole) (negotiated : ChannelType → Bool) (limit : Nat)
    (streamTypes : List ChannelType) (calls : List (ManagerCall Link))
    (below : TransitionRun.Along (ChannelManager.step hmac) (fun m _ => SkipsBelow m)
      (.new crypto version role negotiated limit streamTypes) calls) :
    let m := (ChannelManager.new crypto version role negotiated limit streamTypes).run hmac calls
    m.channels.size + m.pendingOpens.countP PendingOpen.isAccept ≤ limit ∧
      m.pendingOpens.length ≤ 2 * limit + 1 ∧ NoAdjacentSkips m.pendingOpens ∧
      m.resumable.size ≤ max limit 1 := by
  intro m
  have bounded : Bounded limit m :=
    below.invariant (new_bounded ..) fun _ call h below => step_bounded hmac h below call
  have live := bounded.live
  have short := bounded.skips.length_le
  have record := bounded.record
  rw [bounded.limit_eq] at live record
  rw [pendingAccepts] at live
  exact ⟨live, by omega, bounded.skips, record⟩

theorem manager_bounds_refusals :
    let m := (testManager 1 []).run zeroHmac
      [.handleChannelOpen 0 2, .handleChannelOpen 1 2, .handleChannelOpen 3 2, .handleChannelOpen 5 2]
    m.channels.size + m.pendingOpens.countP PendingOpen.isAccept ≤ 1 ∧
      m.pendingOpens.length ≤ 2 * 1 + 1 ∧ NoAdjacentSkips m.pendingOpens ∧
      m.resumable.size ≤ max 1 1 :=
  manager_bounds zeroHmac zeroCrypto ⟨1, 0⟩ .responder (fun _ => true) 1 []
    [.handleChannelOpen 0 2, .handleChannelOpen 1 2, .handleChannelOpen 3 2, .handleChannelOpen 5 2]
    ⟨by decide, by decide +kernel, by decide +kernel, by decide +kernel, trivial⟩

end PeerBeam.Session
