import PeerBeam.Session.ChannelBounds
import PeerBeam.Session.OpenPairing
import PeerBeam.Lib.SortedMap

/-! What resume re-attaches, compared with what the application was told about
each channel over a whole run. -/
namespace PeerBeam.Session
open ChannelManager
variable {Link : Type}

inductive Standing where
  | unknown
  /-- Announced, and not closed, rejected, errored or dead since. -/
  | announced (type : ChannelType)
  /-- Announced, then its actor died; no proof yet of which death it was. -/
  | dying (type : ChannelType)
  /-- Deliberately closed, or confirmed dead, and not announced since. -/
  | gone
  deriving DecidableEq, Repr

def Standing.held : Standing → Option ChannelType
  | announced type | dying type => some type
  | unknown | gone => none

def Standing.died : Standing → Standing
  | announced type => dying type
  | other => other

/-- The link was proved alive, so the dead died for their own reasons. -/
def Standing.confirmed : Standing → Standing
  | dying _ => gone
  | other => other

def Standing.stopped : Standing → Standing
  | announced _ | dying _ => unknown
  | other => other

def settle (m : ChannelManager Link) (standing : ChannelId → Standing) :
    ManagerCall Link → ChannelId → Standing
  | .closeChannel id | .handleChannelReject id _ | .handleChannelClose id | .handleChannelClosed id
  | .handleChannelError id _ => Function.update standing id .gone
  | .onActorEvent event =>
    if m.channels.contains event.channel then
      Function.update standing event.channel (standing event.channel).died
    else standing
  | .confirmLinkAlive => fun id => (standing id).confirmed
  | .stopAll => fun id => (standing id).stopped
  | _ => standing

/-- The announcements made so far, in order. -/
def openedEvents (history : List (Effect Link)) : List (ChannelId × ChannelType) :=
  history.filterMap fun
    | .event (.opened id type) => some (id, type)
    | _ => none

structure Watched (Link : Type) where
  manager : ChannelManager Link
  standing : ChannelId → Standing

def Watched.step (hmac : Hmac) (w : Watched Link) (call : ManagerCall Link) : Watched Link :=
  let m := w.manager.step hmac call
  let fresh := (openedEvents m.history).drop (openedEvents w.manager.history).length
  ⟨m, fresh.foldl (fun standing (id, type) => Function.update standing id (.announced type))
    (settle w.manager w.standing call)⟩

/-- Resume re-attaches exactly what the application still has. -/
structure ReattachesExactly (w : Watched Link) : Prop where
  live : ∀ id ch type, w.manager.channels[id]? = some ch → w.standing id = .announced type →
    w.manager.streamTypes.contains type = false → (id, type) ∈ w.manager.reattachableChannels
  dying : ∀ id type, w.standing id = .dying type → w.manager.streamTypes.contains type = false →
    (id, type) ∈ w.manager.reattachableChannels
  gone : ∀ id, w.standing id = .gone → ∀ type, (id, type) ∉ w.manager.reattachableChannels

/-- Announcing `id` evicts nothing but itself or a stream channel. -/
def RoomFor (m : ChannelManager Link) (id : ChannelId) : Prop :=
  m.resumable.size < m.limit ∨ ∀ oldest type, m.resumable.keys.head? = some oldest →
    m.resumable[oldest]? = some type → oldest = id ∨ m.streamTypes.contains type = true

/-- When a call keeps the record exact: what it announces finds room, and the link
is proved alive only while no parked channel has been announced again. -/
def ManagerCall.RecordSafe (w : Watched Link) : ManagerCall Link → Prop
  | .openStreamChannel type stream => w.manager.permit type = .ok () → ∀ id ids link,
      w.manager.ids.allocate w.manager.inUse = (some id, ids) → stream = .ok link →
      RoomFor w.manager id
  | .handleChannelAccept id => ∀ ch, w.manager.channels[id]? = some ch → ch.state = .opening →
      RoomFor w.manager id
  | .handleChannelOpen id type => id ≠ controlChannel → w.manager.permit type = .ok () →
      w.manager.inUse id = false → w.manager.pendingStreams ≠ [] →
      (w.manager.streamTypes.contains type = false ∨ w.manager.receiving = true) →
      RoomFor w.manager id
  | .onStreamAccepted _ => ∀ id type rest, w.manager.pendingOpens = .accept id type :: rest →
      (w.manager.streamTypes.contains type = false ∨ w.manager.receiving = true) →
      RoomFor w.manager id
  | .confirmLinkAlive => ∀ id ∈ w.manager.pendingForget, ∀ type,
      w.standing id = .announced type → w.manager.streamTypes.contains type = true
  | _ => True

structure SameRecord (m m' : ChannelManager Link) : Prop where
  resumable : m'.resumable = m.resumable
  pendingForget : m'.pendingForget = m.pendingForget
  opened : openedEvents m'.history = openedEvents m.history
  limit : m'.limit = m.limit
  streamTypes : m'.streamTypes = m.streamTypes

theorem SameRecord.refl (m : ChannelManager Link) : SameRecord m m := ⟨rfl, rfl, rfl, rfl, rfl⟩

theorem SameRecord.trans {a b c : ChannelManager Link} (h : SameRecord a b) (h' : SameRecord b c) :
    SameRecord a c :=
  ⟨h'.resumable.trans h.resumable, h'.pendingForget.trans h.pendingForget,
    h'.opened.trans h.opened, h'.limit.trans h.limit, h'.streamTypes.trans h.streamTypes⟩

/-- The last thing the call did was to announce `id`. -/
def Announced (m m' : ChannelManager Link) (id : ChannelId) (type : ChannelType) : Prop :=
  ∃ before, SameRecord m before ∧ m' = before.announceOpen id type

theorem Announced.of_same {a b c : ChannelManager Link} {id : ChannelId} {type : ChannelType}
    (h : SameRecord a b) (h' : Announced b c id type) : Announced a c id type := by
  obtain ⟨before, same, announced⟩ := h'
  exact ⟨before, h.trans same, announced⟩

section Calls
variable (hmac : Hmac) (m : ChannelManager Link)

theorem pairOne_record (pending : PendingOpen) (link : Link) :
    SameRecord m (m.pairOne hmac pending link).1 ∨
    ∃ id type, pending = .accept id type ∧
      (m.streamTypes.contains type = false ∨ m.receiving = true) ∧
      Announced m (m.pairOne hmac pending link).1 id type := by
  cases pending with
  | skip owed =>
    simp only [pairOne]
    split <;> exact .inl ⟨rfl, rfl, by simp [record, openedEvents], rfl, rfl⟩
  | accept id type =>
    obtain ⟨-, -, paired⟩ | ⟨received, paired⟩ := m.pairAccepted_cases hmac id type link
    · exact .inl (by
        simp only [pairOne, paired]
        exact ⟨rfl, rfl, by simp [record, emit, openedEvents], rfl, rfl⟩)
    · refine .inr ⟨id, type, rfl, received, _, ?_, paired⟩
      exact ⟨rfl, rfl, by simp [record, insertChannel, openedEvents], rfl, rfl⟩

/-- With a single stream waiting there is at most one round. -/
theorem tryPair_oneStream {pending : PendingOpen} {opens : List PendingOpen} {link : Link}
    (ho : m.pendingOpens = pending :: opens) (hs : m.pendingStreams = [link]) :
    (m.tryPair hmac).1 =
      ({ m with pendingOpens := opens, pendingStreams := [] }.pairOne hmac pending link).1 := by
  simp only [tryPair, hs, tryPairLoop, ho]

theorem tryPair_noStream (hs : m.pendingStreams = []) : (m.tryPair hmac).1 = m := by
  simp only [tryPair, hs, tryPairLoop]

theorem tryPairLoop_noOpen (streams : List Link) (ho : m.pendingOpens = []) :
    (tryPairLoop hmac streams m).1 = m := by
  cases streams <;> simp only [tryPairLoop, ho]

/-- With a single open waiting there is at most one round. -/
theorem tryPair_oneOpen {pending : PendingOpen} {link : Link} {streams : List Link}
    (ho : m.pendingOpens = [pending]) (hs : m.pendingStreams = link :: streams)
    (last : ∀ owed, pending = .skip owed → owed ≤ 1) :
    (m.tryPair hmac).1 =
      ({ m with pendingOpens := [], pendingStreams := streams }.pairOne hmac pending link).1 := by
  have emptied : ({ m with pendingOpens := [], pendingStreams := streams }.pairOne hmac pending
      link).1.pendingOpens = [] := by
    cases pending with
    | skip owed =>
      have := last owed rfl
      simp only [pairOne, if_neg (Nat.not_lt.mpr this), record]
    | accept id type =>
      obtain ⟨-, -, paired⟩ | ⟨-, paired⟩ := { m with
        pendingOpens := [], pendingStreams := streams }.pairAccepted_cases hmac id type link
      · rw [pairOne, paired]; rfl
      · obtain ⟨_, _, announced⟩ := announceOpen_eq _ id type
        rw [pairOne, paired, announced]; rfl
  simp only [tryPair, hs, tryPairLoop, ho]
  exact tryPairLoop_noOpen hmac _ streams emptied

/-- A one-sided manager pairs at most one open with one stream. -/
theorem handleChannelOpen_record (oneSided : m.pendingOpens = [] ∨ m.pendingStreams = [])
    (id : ChannelId) (type : ChannelType) :
    SameRecord m (m.handleChannelOpen hmac id type).1 ∨
    (id ≠ controlChannel ∧ m.permit type = .ok () ∧ m.inUse id = false) ∧
      m.pendingStreams ≠ [] ∧ (m.streamTypes.contains type = false ∨ m.receiving = true) ∧
      Announced m (m.handleChannelOpen hmac id type).1 id type := by
  obtain ⟨reason, refused⟩ | ⟨permitted, queued⟩ := m.handleChannelOpen_cases hmac id type
  · left
    rw [refused]
    let owing : ChannelManager Link :=
      { (m.record (.refusedOpen id)).emit (.rejected id reason) with
        pendingOpens := oweStream m.pendingOpens }
    have same : SameRecord m owing :=
      ⟨rfl, rfl, by simp [owing, emit, record, openedEvents], rfl, rfl⟩
    change SameRecord m (owing.tryPair hmac).1
    rcases hs : m.pendingStreams with _ | ⟨link, streams⟩
    · rw [tryPair_noStream hmac owing hs]; exact same
    · have none : m.pendingOpens = [] := oneSided.resolve_right (by simp [hs])
      have single : owing.pendingOpens = [.skip 1] := by simp [owing, none, oweStream]
      rw [tryPair_oneOpen hmac owing single hs (by rintro _ ⟨⟩; exact Nat.le_refl _)]
      exact same.trans ⟨rfl, rfl, by simp [pairOne, record, openedEvents], rfl, rfl⟩
  · rw [queued]
    let waiting : ChannelManager Link :=
      { m.record (.permittedOpen id type) with
        pendingOpens := m.pendingOpens ++ [PendingOpen.accept id type] }
    have same : SameRecord m waiting := ⟨rfl, rfl, by simp [waiting, record, openedEvents], rfl, rfl⟩
    change SameRecord m (waiting.tryPair hmac).1 ∨ _
    rcases hs : m.pendingStreams with _ | ⟨link, streams⟩
    · left
      rw [tryPair_noStream hmac waiting hs]; exact same
    · have none : m.pendingOpens = [] := oneSided.resolve_right (by simp [hs])
      have single : waiting.pendingOpens = [.accept id type] := by simp [waiting, none]
      have round := tryPair_oneOpen hmac waiting single hs (by rintro _ ⟨⟩)
      have popped : SameRecord m { waiting with pendingOpens := [], pendingStreams := streams } :=
        same.trans ⟨rfl, rfl, rfl, rfl, rfl⟩
      obtain kept | ⟨_, _, front, received, announced⟩ := pairOne_record hmac
        { waiting with pendingOpens := [], pendingStreams := streams } (.accept id type) link
      · left
        rw [round]; exact popped.trans kept
      · cases front
        refine .inr ⟨permitted, List.cons_ne_nil _ _, received, ?_⟩
        rw [round]
        exact announced.of_same popped

theorem onStreamAccepted_record (oneSided : m.pendingOpens = [] ∨ m.pendingStreams = [])
    (link : Link) :
    SameRecord m (m.onStreamAccepted hmac link).1 ∨
    ∃ id type rest, m.pendingOpens = .accept id type :: rest ∧
      (m.streamTypes.contains type = false ∨ m.receiving = true) ∧
      Announced m (m.onStreamAccepted hmac link).1 id type := by
  let waiting : ChannelManager Link :=
    { m.record (.streamArrived link) with pendingStreams := m.pendingStreams ++ [link] }
  have same : SameRecord m waiting := ⟨rfl, rfl, by simp [waiting, record, openedEvents], rfl, rfl⟩
  change SameRecord m (waiting.tryPair hmac).1 ∨
    ∃ id type rest, _ ∧ _ ∧ Announced m (waiting.tryPair hmac).1 id type
  rcases ho : m.pendingOpens with _ | ⟨pending, opens⟩
  · left
    rw [tryPair, tryPairLoop_noOpen hmac waiting _ ho]; exact same
  · have none : m.pendingStreams = [] := oneSided.resolve_left (by simp [ho])
    have single : waiting.pendingStreams = [link] := by simp [waiting, none]
    rw [tryPair_oneStream hmac waiting ho single]
    have popped : SameRecord m { waiting with pendingOpens := opens, pendingStreams := [] } :=
      same.trans ⟨rfl, rfl, rfl, rfl, rfl⟩
    obtain kept | ⟨id, type, front, received, announced⟩ := pairOne_record hmac
      { waiting with pendingOpens := opens, pendingStreams := [] } pending link
    · exact .inl (popped.trans kept)
    · subst front
      exact .inr ⟨id, type, opens, rfl, received, announced.of_same popped⟩

theorem attached_record (ids : ChannelIdAllocator) (id : ChannelId) (channel : Channel)
    (stream : Except SessionError Link) :
    SameRecord m ({ m with ids }.attached id channel stream) := by
  cases stream <;>
    exact ⟨rfl, rfl, by simp [attached, insertChannel, record, openedEvents], rfl, rfl⟩

theorem openStreamChannel_record (type : ChannelType) (stream : Except SessionError Link) :
    SameRecord m (m.openStreamChannel hmac type stream).2 ∨
    m.permit type = .ok () ∧ ∃ id ids link, m.ids.allocate m.inUse = (some id, ids) ∧
      stream = .ok link ∧ Announced m (m.openStreamChannel hmac type stream).2 id type := by
  obtain same | ⟨permitted, ids, ⟨-, exhausted⟩ | ⟨id, ha, ⟨e, -, failed⟩ | ⟨link, hl, opened⟩⟩⟩ :=
    m.openStreamChannel_cases hmac type stream
  · rw [same]; exact .inl (.refl m)
  · rw [exhausted]; exact .inl ⟨rfl, rfl, rfl, rfl, rfl⟩
  · rw [failed]; exact .inl (attached_record ..)
  · exact .inr ⟨permitted, id, ids, link, ha, hl, _, attached_record .., opened⟩

end Calls

/-- The record holds what should be re-attached, and everything in it should be or
is parked for the next proof of life. -/
structure RecordTracks (m : ChannelManager Link) (standing : ChannelId → Standing) : Prop where
  kept : ∀ id type, (standing id).held = some type → m.streamTypes.contains type = false →
    m.resumable[id]? = some type
  known : ∀ id type, m.resumable[id]? = some type → (standing id).held.isSome = true
  parked : ∀ id type, standing id = .dying type → id ∈ m.pendingForget ∨ m.resumable[id]? = none
  sized : m.resumable.size ≤ max m.limit 1

theorem getElem?_insert_eq {r : Std.ExtTreeMap ChannelId ChannelType compare} {k id : ChannelId}
    {type : ChannelType} : (r.insert k type)[id]? = if id = k then some type else r[id]? := by
  simp only [SortedMap.get_insert, @eq_comm _ k id]

theorem getElem?_erase_eq {r : Std.ExtTreeMap ChannelId ChannelType compare} {k id : ChannelId} :
    (r.erase k)[id]? = if id = k then none else r[id]? := by
  simp only [SortedMap.get_erase, @eq_comm _ k id]

namespace RecordTracks
variable {m m' : ChannelManager Link} {standing : ChannelId → Standing}

theorem same (h : RecordTracks m standing) (record : SameRecord m m') : RecordTracks m' standing where
  kept := by rw [record.resumable, record.streamTypes]; exact h.kept
  known := by rw [record.resumable]; exact h.known
  parked := by rw [record.resumable, record.pendingForget]; exact h.parked
  sized := by rw [record.resumable, record.limit]; exact h.sized

/-- Dropping an entry that is not owed to a message channel. -/
theorem evict (h : RecordTracks m standing) {oldest : ChannelId} {type : ChannelType}
    (first : m.resumable[oldest]? = some type) (stream : m.streamTypes.contains type = true) :
    RecordTracks (m.forgetResumable oldest) standing where
  kept id type' held message := by
    have entry := h.kept id type' held message
    by_cases same : id = oldest
    · subst same
      rw [first] at entry
      cases entry
      exact absurd (stream.symm.trans message) (by decide)
    · simpa only [forgetResumable, getElem?_erase_eq, if_neg same] using entry
  known id type' entry := by
    simp only [forgetResumable, getElem?_erase_eq] at entry
    split at entry
    · cases entry
    · exact h.known id type' entry
  parked id type' dying := by
    by_cases same : id = oldest
    · exact .inr (by simp only [forgetResumable, getElem?_erase_eq, if_pos same])
    · simp only [forgetResumable, getElem?_erase_eq, if_neg same, List.mem_filter]
      exact (h.parked id type' dying).imp_left fun mem => ⟨mem, by simpa using same⟩
  sized := Std.ExtTreeMap.size_erase_le.trans h.sized

/-- A deliberate close takes the channel out of the record. -/
theorem forget (h : RecordTracks m standing) (id : ChannelId) :
    RecordTracks (m.forgetResumable id) (Function.update standing id .gone) where
  kept other type held message := by
    by_cases same : other = id
    · subst same; simp [Standing.held] at held
    · rw [Function.update_of_ne same] at held
      simpa only [forgetResumable, getElem?_erase_eq, if_neg same] using h.kept other type held message
  known other type entry := by
    simp only [forgetResumable, getElem?_erase_eq] at entry
    split at entry
    · cases entry
    · rename_i same
      rw [Function.update_of_ne same]
      exact h.known other type entry
  parked other type dying := by
    by_cases same : other = id
    · exact .inr (by simp only [forgetResumable, getElem?_erase_eq, if_pos same])
    · rw [Function.update_of_ne same] at dying
      simp only [forgetResumable, getElem?_erase_eq, if_neg same, List.mem_filter]
      exact (h.parked other type dying).imp_left fun mem => ⟨mem, by simpa using same⟩
  sized := Std.ExtTreeMap.size_erase_le.trans h.sized

theorem insert (h : RecordTracks m standing) (id : ChannelId) (type : ChannelType)
    (record : m'.resumable = m.resumable.insert id type)
    (parked : m'.pendingForget = m.pendingForget) (types : m'.streamTypes = m.streamTypes)
    (sized : m'.resumable.size ≤ max m'.limit 1) :
    RecordTracks m' (Function.update standing id (.announced type)) where
  kept other type' held message := by
    rw [record, getElem?_insert_eq]
    by_cases same : other = id
    · subst same
      simpa [Standing.held] using held
    · rw [Function.update_of_ne same] at held
      rw [if_neg same]
      exact h.kept other type' held (types ▸ message)
  known other type' entry := by
    rw [record, getElem?_insert_eq] at entry
    by_cases same : other = id
    · subst same; simp [Standing.held]
    · rw [if_neg same] at entry
      rw [Function.update_of_ne same]
      exact h.known other type' entry
  parked other type' dying := by
    by_cases same : other = id
    · subst same; simp at dying
    · rw [Function.update_of_ne same] at dying
      rw [record, parked, getElem?_insert_eq, if_neg same]
      exact h.parked other type' dying
  sized := sized

end RecordTracks

/-- A record within its bound is cut by at most one entry. -/
theorem evict_once {m : ChannelManager Link} (sized : m.resumable.size ≤ max m.limit 1) :
    m.evict m.resumable.size = m ∨ ∃ oldest, m.limit ≤ m.resumable.size ∧
      m.resumable.keys.head? = some oldest ∧
      m.evict m.resumable.size = m.forgetResumable oldest := by
  rcases hn : m.resumable.size with _ | n
  · exact .inl rfl
  · rw [ChannelManager.evict]
    split
    · rename_i full
      split
      · exact .inl rfl
      · rename_i oldest first
        refine .inr ⟨oldest, hn ▸ full, first, ?_⟩
        have mem : oldest ∈ m.resumable := Std.ExtTreeMap.mem_keys.mp (List.mem_of_mem_head? first)
        have smaller : (m.forgetResumable oldest).resumable.size = n := by
          rw [forgetResumable, Std.ExtTreeMap.size_erase,
            if_pos (Std.ExtTreeMap.contains_iff_mem.mpr mem), hn]
          rfl
        rcases n with _ | n
        · rfl
        · have room : ¬ (m.forgetResumable oldest).limit ≤ (m.forgetResumable oldest).resumable.size := by
            rw [smaller]
            change ¬ m.limit ≤ n + 1
            omega
          rw [ChannelManager.evict, if_neg room]
    · exact .inl rfl

namespace RecordTracks
variable {m m' : ChannelManager Link} {standing : ChannelId → Standing}

theorem announce (h : RecordTracks m standing) {id : ChannelId} (type : ChannelType)
    (room : RoomFor m id) :
    RecordTracks (m.announceOpen id type) (Function.update standing id (.announced type)) := by
  have sized := size_announceOpen m id type
  obtain whole | ⟨oldest, full, first, cut⟩ := evict_once h.sized
  · have limit : (m.announceOpen id type).limit = m.limit := by simp only [announceOpen, whole]; rfl
    exact h.insert id type (by simp only [announceOpen, whole]; rfl) (by simp only [announceOpen, whole]; rfl)
      (by simp only [announceOpen, whole]; rfl) (by rw [limit]; exact sized)
  · have limit : (m.announceOpen id type).limit = m.limit := by simp only [announceOpen, cut]; rfl
    have mem : oldest ∈ m.resumable := Std.ExtTreeMap.mem_keys.mp (List.mem_of_mem_head? first)
    obtain ⟨kind, entry⟩ : ∃ kind, m.resumable[oldest]? = some kind :=
      Option.isSome_iff_exists.mp (Std.ExtTreeMap.mem_iff_isSome_getElem?.mp mem)
    have tracked : ∃ before, RecordTracks (m.forgetResumable oldest) before ∧
        Function.update before id (.announced type) = Function.update standing id (.announced type) := by
      rcases room.resolve_left (Nat.not_lt.mpr full) oldest kind first entry with rfl | stream
      · exact ⟨_, h.forget oldest, Function.update_idem ..⟩
      · exact ⟨standing, h.evict entry stream, rfl⟩
    obtain ⟨before, tracks, same⟩ := tracked
    rw [← same]
    exact tracks.insert id type (by simp only [announceOpen, cut]; rfl) (by simp only [announceOpen, cut]; rfl)
      (by simp only [announceOpen, cut]; rfl) (by rw [limit]; exact sized)

/-- The actor of a live channel died: it is parked, and still re-attachable. -/
theorem park (h : RecordTracks m standing) (id : ChannelId) :
    RecordTracks (m.parkForget id) (Function.update standing id (standing id).died) := by
  obtain ⟨parked, park, mem, kept⟩ := m.parkForget_eq id
  rw [park]
  have held (other : ChannelId) :
      (Function.update standing id (standing id).died other).held = (standing other).held := by
    by_cases same : other = id
    · subst same
      rw [Function.update_self]
      cases standing other <;> rfl
    · rw [Function.update_of_ne same]
  exact {
    kept other type := by rw [held]; exact h.kept other type
    known other type := by rw [held]; exact h.known other type
    parked other type dying := by
      by_cases same : other = id
      · exact .inl (same ▸ mem)
      · rw [Function.update_of_ne same] at dying
        exact (h.parked other type dying).imp_left fun before => kept before
    sized := h.sized }

/-- The link is alive, and nothing parked was announced again: the parked are
gone, the rest stays. -/
theorem confirm (h : RecordTracks m standing)
    (settled : ∀ id ∈ m.pendingForget, ∀ type, standing id = .announced type →
      m.streamTypes.contains type = true) :
    RecordTracks m.confirmLinkAlive fun id => (standing id).confirmed where
  kept id type held message := by
    have announced : standing id = .announced type := by
      cases hs : standing id with
      | unknown | gone | dying _ => rw [hs] at held; cases held
      | announced kind => rw [hs] at held; cases held; rfl
    have unparked : id ∉ m.pendingForget := fun mem =>
      absurd ((settled id mem type announced).symm.trans message) (by decide)
    simp only [confirmLinkAlive, SortedMap.get_foldl_erase, if_neg unparked]
    exact h.kept id type (by rw [announced]; rfl) message
  known id type entry := by
    simp only [confirmLinkAlive, SortedMap.get_foldl_erase] at entry
    split at entry
    · cases entry
    · rename_i unparked
      have held := h.known id type entry
      cases hs : standing id with
      | unknown | gone => rw [hs] at held; cases held
      | announced kind => rfl
      | dying kind =>
        rcases h.parked id kind hs with mem | absent
        · exact absurd mem unparked
        · rw [absent] at entry; cases entry
  parked id type dying := by
    cases hs : standing id with
    | unknown | gone | announced _ | dying _ => rw [hs] at dying; cases dying
  sized := (size_foldl_erase ..).trans h.sized

theorem stop (m : ChannelManager Link) (standing : ChannelId → Standing) :
    RecordTracks m.stopAll fun id => (standing id).stopped where
  kept id type held := by
    cases hs : standing id with
    | unknown | gone | announced _ | dying _ => rw [hs] at held; cases held
  known id type entry := by simp [stopAll, record] at entry
  parked id type dying := by
    cases hs : standing id with
    | unknown | gone | announced _ | dying _ => rw [hs] at dying; cases dying
  sized := by simp [stopAll, record]

end RecordTracks

section Runs
variable (hmac : Hmac) {w : Watched Link}

private theorem standing_of_quiet {call : ManagerCall Link}
    (quiet : openedEvents (w.manager.step hmac call).history = openedEvents w.manager.history) :
    (w.step hmac call).standing = settle w.manager w.standing call := by
  simp only [Watched.step, quiet, List.drop_length, List.foldl_nil]

private theorem standing_of_announced {call : ManagerCall Link} {id : ChannelId} {type : ChannelType}
    (announced : Announced w.manager (w.manager.step hmac call) id type) :
    (w.step hmac call).standing =
      Function.update (settle w.manager w.standing call) id (.announced type) := by
  obtain ⟨before, same, after⟩ := announced
  obtain ⟨_, _, emitted⟩ := before.announceOpen_eq id type
  have events : openedEvents (w.manager.step hmac call).history =
      openedEvents w.manager.history ++ [(id, type)] := by
    rw [after, emitted, ← same.opened]
    simp [emit, record, openedEvents]
  simp only [Watched.step, events, List.drop_left, List.foldl_cons, List.foldl_nil]

private theorem tracks_quiet {call : ManagerCall Link} {m : ChannelManager Link}
    (tracks : RecordTracks m (settle w.manager w.standing call))
    (opened : openedEvents m.history = openedEvents w.manager.history)
    (same : SameRecord m (w.manager.step hmac call)) :
    RecordTracks (w.step hmac call).manager (w.step hmac call).standing := by
  rw [standing_of_quiet hmac (same.opened.trans opened)]
  exact tracks.same same

private theorem tracks_announced {call : ManagerCall Link} {id : ChannelId} {type : ChannelType}
    (h : RecordTracks w.manager w.standing) (plain : settle w.manager w.standing call = w.standing)
    (room : RoomFor w.manager id)
    (announced : Announced w.manager (w.manager.step hmac call) id type) :
    RecordTracks (w.step hmac call).manager (w.step hmac call).standing := by
  rw [standing_of_announced hmac announced, plain]
  obtain ⟨before, same, after⟩ := announced
  have roomy : RoomFor before id := by
    unfold RoomFor at *
    rw [same.resumable, same.limit, same.streamTypes]
    exact room
  have tracked := (h.same same).announce type roomy
  rw [← after] at tracked
  exact tracked

theorem step_tracks (h : RecordTracks w.manager w.standing)
    (oneSided : w.manager.pendingOpens = [] ∨ w.manager.pendingStreams = [])
    (call : ManagerCall Link) (safe : call.RecordSafe w) :
    RecordTracks (w.step hmac call).manager (w.step hmac call).standing := by
  cases call with
  | openChannel type stream =>
    refine tracks_quiet hmac h rfl ?_
    obtain same | ⟨-, ids, ⟨-, exhausted⟩ | ⟨id, -, opened⟩⟩ :=
      w.manager.openChannel_cases hmac type stream
    · simp only [ChannelManager.step, same]; exact .refl _
    · simp only [ChannelManager.step, exhausted]; exact ⟨rfl, rfl, rfl, rfl, rfl⟩
    · simp only [ChannelManager.step, opened]; exact attached_record ..
  | reopenChannel id type stream =>
    refine tracks_quiet hmac h rfl ?_
    have attached := attached_record w.manager w.manager.ids id ⟨type, .opening⟩ stream
    obtain same | ⟨-, ⟨e, -, failed⟩ | ⟨link, -, opened⟩⟩ :=
      w.manager.reopenChannel_cases hmac id type stream
    · simp only [ChannelManager.step, same]; exact .refl _
    · simp only [ChannelManager.step, failed]; exact attached
    · simp only [ChannelManager.step, opened]
      exact attached.trans ⟨rfl, rfl, rfl, rfl, rfl⟩
  | openStreamChannel type stream =>
    obtain same | ⟨permitted, id, ids, link, ha, hl, announced⟩ :=
      openStreamChannel_record hmac w.manager type stream
    · exact tracks_quiet hmac h rfl same
    · exact tracks_announced hmac h rfl (safe permitted id ids link ha hl) announced
  | handleChannelOpen id type =>
    obtain same | ⟨⟨data, permitted, free⟩, waiting, received, announced⟩ :=
      handleChannelOpen_record hmac w.manager oneSided id type
    · exact tracks_quiet hmac h rfl same
    · exact tracks_announced hmac h rfl (safe data permitted free waiting received) announced
  | onStreamAccepted link =>
    obtain same | ⟨id, type, rest, front, received, announced⟩ :=
      onStreamAccepted_record hmac w.manager oneSided link
    · exact tracks_quiet hmac h rfl same
    · exact tracks_announced hmac h rfl (safe id type rest front received) announced
  | handleChannelAccept id =>
    obtain same | ⟨ch, live, waiting, accepted⟩ := w.manager.handleChannelAccept_cases id
    · refine tracks_quiet hmac h rfl ?_
      simp only [ChannelManager.step, same]; exact .refl _
    · have announced : Announced w.manager (w.manager.handleChannelAccept id) id ch.channelType :=
        ⟨w.manager.insertChannel id { ch with state := .open }, ⟨rfl, rfl, rfl, rfl, rfl⟩, accepted⟩
      exact tracks_announced hmac h rfl (safe ch live waiting) announced
  | closeChannel id | handleChannelClose id | handleChannelClosed id =>
    refine tracks_quiet hmac (h.forget id) rfl ?_
    simp only [ChannelManager.step, closeChannel, handleChannelClose, handleChannelClosed]
    obtain forgotten | closed := w.manager.closeLive_cases id
    · rw [forgotten]; exact .refl _
    · rw [closed]
      exact ⟨rfl, rfl, by simp [removeChannel, emit, record, openedEvents], rfl, rfl⟩
  | handleChannelReject id reason | handleChannelError id detail =>
    refine tracks_quiet hmac (h.forget id) rfl ⟨rfl, rfl, ?_, rfl, rfl⟩
    simp [ChannelManager.step, handleChannelReject, handleChannelError, dropWith, removeChannel,
      emit, record, openedEvents]
  | onActorEvent event =>
    obtain ⟨dead, same⟩ | ⟨live, told, kind, ended⟩ := w.manager.onActorEvent_cases event
    · have settled : settle w.manager w.standing (.onActorEvent event) = w.standing := if_neg (by simp [dead])
      refine tracks_quiet hmac (by rw [settled]; exact h) rfl ?_
      simp only [ChannelManager.step, same]
      exact .refl _
    · have settled : settle w.manager w.standing (.onActorEvent event) = Function.update w.standing
        event.channel (w.standing event.channel).died := if_pos live
      obtain ⟨parked, park, -⟩ := w.manager.parkForget_eq event.channel
      refine tracks_quiet hmac (by rw [settled]; exact h.park event.channel) (by rw [park]) ?_
      simp only [ChannelManager.step, ended]
      obtain rfl | ⟨detail, rfl⟩ := kind
      · exact ⟨rfl, rfl, by simp [emit, record, removeChannel, openedEvents], rfl, rfl⟩
      · exact ⟨rfl, rfl, by simp [emit, record, removeChannel, openedEvents], rfl, rfl⟩
  | confirmLinkAlive => exact tracks_quiet hmac (h.confirm safe) rfl (.refl _)
  | stopAll =>
    exact tracks_quiet hmac (.stop w.manager w.standing)
      (by simp [stopAll, record, openedEvents]) (.refl _)
  | receiverDropped => exact tracks_quiet hmac h rfl ⟨rfl, rfl, rfl, rfl, rfl⟩

/-- What holds along every run: the record tracks the standings, and the manager
is paired by position. -/
def WatchInvariant (w : Watched Link) : Prop :=
  RecordTracks w.manager w.standing ∧ PairingInvariant w.manager

theorem step_watch (h : WatchInvariant w) (call : ManagerCall Link) (safe : call.RecordSafe w) :
    WatchInvariant (w.step hmac call) :=
  ⟨step_tracks hmac h.1 h.2.2 call safe, step_pairing hmac h.2 call⟩

end Runs

theorem mem_reattachableChannels {m : ChannelManager Link} {id : ChannelId} {type : ChannelType} :
    (id, type) ∈ m.reattachableChannels ↔
      m.resumable[id]? = some type ∧ m.streamTypes.contains type = false := by
  rw [reattachableChannels, List.mem_filter, Std.ExtTreeMap.mem_toList_iff_getElem?_eq_some,
    Bool.not_eq_true']

theorem RecordTracks.exact {w : Watched Link} (h : RecordTracks w.manager w.standing) :
    ReattachesExactly w where
  live id ch type _ announced message :=
    mem_reattachableChannels.mpr ⟨h.kept id type (by rw [announced]; rfl) message, message⟩
  dying id type dead message :=
    mem_reattachableChannels.mpr ⟨h.kept id type (by rw [dead]; rfl) message, message⟩
  gone id closed type mem := by
    have held := h.known id type (mem_reattachableChannels.mp mem).1
    rw [closed] at held
    cases held

def Watched.new (crypto : SessionCrypto) (version : Version) (role : SessionRole)
    (negotiated : ChannelType → Bool) (limit : Nat) (streamTypes : List ChannelType) : Watched Link :=
  ⟨.new crypto version role negotiated limit streamTypes, fun _ => .unknown⟩

theorem new_watch (crypto : SessionCrypto) (version : Version) (role : SessionRole)
    (negotiated : ChannelType → Bool) (limit : Nat) (streamTypes : List ChannelType) :
    WatchInvariant (.new crypto version role negotiated limit streamTypes : Watched Link) where
  left := {
    kept := by rintro id type ⟨⟩
    known := by simp [Watched.new, ChannelManager.new]
    parked := by rintro id type ⟨⟩
    sized := by simp [Watched.new, ChannelManager.new] }
  right := new_pairing ..

/-- In every run whose announcements find room and whose proofs of life meet no
re-announced channel, resume re-attaches exactly what the application still has. -/
theorem reattaches_exactly (hmac : Hmac) (crypto : SessionCrypto) (version : Version)
    (role : SessionRole) (negotiated : ChannelType → Bool) (limit : Nat)
    (streamTypes : List ChannelType) (calls : List (ManagerCall Link))
    (safe : TransitionRun.Along (Watched.step hmac) (fun w call => call.RecordSafe w)
      (.new crypto version role negotiated limit streamTypes) calls) :
    ReattachesExactly (calls.foldl (Watched.step hmac)
      (.new crypto version role negotiated limit streamTypes)) :=
  (safe.invariant (new_watch ..) fun _ call h ok => step_watch hmac h call ok).1.exact

def testWatched (limit : Nat) (streamTypes : List ChannelType) : Watched Nat :=
  .new zeroCrypto ⟨1, 0⟩ .responder (fun _ => true) limit streamTypes

theorem reattaches_exactly_dead_channel :
    ReattachesExactly ([.handleChannelOpen 1 2, .onStreamAccepted 10,
      .onActorEvent (.closed 1)].foldl (Watched.step zeroHmac) (testWatched 2 [7])) :=
  reattaches_exactly zeroHmac zeroCrypto ⟨1, 0⟩ .responder (fun _ => true) 2 [7]
    [.handleChannelOpen 1 2, .onStreamAccepted 10, .onActorEvent (.closed 1)]
    ⟨fun _ _ _ waiting => absurd rfl waiting, fun _ _ _ _ _ => .inl (by decide +kernel), trivial, trivial⟩

/-- Two message channels are open and one of them dies; the stream channel that is
opened next evicts the other, which is alive and was announced. -/
theorem live_channel_evicted :
    ¬ ReattachesExactly ([.handleChannelOpen 1 2, .onStreamAccepted 10, .handleChannelOpen 3 2,
      .onStreamAccepted 11, .onActorEvent (.closed 3), .openStreamChannel 7 (.ok 12)].foldl
        (Watched.step zeroHmac) (testWatched 2 [7])) := by
  intro exact
  have there := exact.live 1 ⟨2, .open⟩ 2 (by decide +kernel) (by decide +kernel) (by decide +kernel)
  exact absurd there (by decide +kernel)

end PeerBeam.Session
