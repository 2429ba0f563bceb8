import PeerBeam.Chat.Calls
import PeerBeam.Chat.Message

/-! What a peer's frames on the chat channel can do to the store of the device that receives them. -/
namespace PeerBeam.Chat
open Session (SessionFrame SessionError MessageType MessageFlags)

def «namespace» (peer : DeviceId) : String := "chat-" ++ peer
def outboxNs : String := "chat.outbox"
def retentionNs : String := "chat.retention"
def landingNs (peer : DeviceId) : String := "chat.landing-" ++ peer

theorem namespace_injective : Function.Injective «namespace» := by
  intro p q same
  have texts := congrArg String.toList same
  rw [«namespace», «namespace», String.toList_append, String.toList_append] at texts
  exact String.toList_inj.mp (List.append_cancel_left texts)

/-- Whatever a peer calls itself, its conversation is none of the other namespaces. -/
theorem namespace_ne (peer : DeviceId) : «namespace» peer ≠ outboxNs ∧
    «namespace» peer ≠ retentionNs ∧ ∀ other, «namespace» peer ≠ landingNs other := by
  have fifth : («namespace» peer).toList[4]? = some '-' := by
    rw [«namespace», String.toList_append, List.getElem?_append_left (by decide)]
    rfl
  refine ⟨fun same => ?_, fun same => ?_, fun other same => ?_⟩
  · rw [same] at fifth
    exact absurd fifth (by decide)
  · rw [same] at fifth
    exact absurd fifth (by decide)
  · rw [same, landingNs, String.toList_append, List.getElem?_append_left (by decide)] at fifth
    exact absurd fifth (by decide)

/-- What is handed to whoever listens: a new record, or a frame of a type that is not chat's. -/
inductive Notice
  | received (rec : ChatRecord)
  | foreign (peer : DeviceId) (type : MessageType) (payload : Session.Bytes)

/-- A frame, and the instant it is handled at, as a number and as text. -/
structure Arrival where
  frame : SessionFrame
  now : Int
  stamp : String

section
open Program (ret)
variable (c : Chrono) (wire : Wire) (foreign : Bool)

def onMessage {α : Type} (message : Except MessageError α)
    (act : α → Prog (List Notice)) : Prog (Except SessionError (List Notice)) :=
  match message with
  | .error e => ret (.error (.frameDecode e.text))
  | .ok m => do
    let notices ← act m
    ret (.ok notices)

/-- A record is stored once, whatever else the key may name. -/
def receive (peer : DeviceId) (rec : ChatRecord) : Prog (List Notice) := do
  if ← Prog.contains peer rec.id then ret []
  else
    Prog.append rec
    ret [.received rec]

/-- `foreign` is whether someone listens for what is not chat's. -/
def ChatHandler.handle (peer : Option DeviceId) (a : Arrival) :
    Prog (Except SessionError (List Notice)) :=
  match peer with
  | none => ret (.error (.frameDecode "chat peer not bound"))
  | some peer =>
    if a.frame.messageType = msgText then
      onMessage (ChatMessage.fromFrame wire a.frame) fun msg =>
        receive peer (.received a.now peer msg)
    else if a.frame.messageType = msgFileRef then
      onMessage (FileRef.fromFrame wire a.frame) fun r => receive peer (.fileIn a.now peer r)
    else if a.frame.messageType = msgFileDecline then
      onMessage (FileDecline.fromFrame wire a.frame) fun d => do
        let _ ← Prog.settleFileRow c a.now peer d.id .out .declined
        ret []
    else if a.frame.messageType = msgReaction then
      onMessage (Reaction.fromFrame wire a.frame) fun r => do
        let _ ← Prog.applyReaction c a.now a.stamp peer r.targetId r.emoji .inn r.remove
        ret []
    else if a.frame.messageType = msgReceipt then
      onMessage (Receipt.fromFrame wire a.frame) fun r => do
        let _ ← Prog.applyReceipt c a.now peer r.readThrough r.timestamp
        ret []
    else if a.frame.flags.bits &&& MessageFlags.optional.bits ≠ 0 then
      ret (.ok (if foreign then [.foreign peer a.frame.messageType a.frame.payload] else []))
    else
      let other := a.frame.messageType.toNat
      ret (.error (.frameDecode s!"unsupported chat message type {other} (required)"))

/-- Frames from an authenticated peer, one after the other; any call of the store may fail. -/
inductive Delivered (peer : DeviceId) : Disk → List Arrival → Disk → Prop
  | nil (d : Disk) : Delivered peer d [] d
  | cons {d d₁ d₂ : Disk} {a : Arrival} {rest : List Arrival}
      {out : Except CallError (Except SessionError (List Notice))}
      (run : (ChatHandler.handle c wire foreign (some peer) a).Runs (Program.Answers Disk.exec) d out d₁)
      (later : Delivered peer d₁ rest d₂) : Delivered peer d (a :: rest) d₂

end

/-- What a peer's frames may make of a row that stands: the file is corrected by what has landed,
if the row waits for it. -/
structure Changed (landing : Option (Option (String × Nat))) (old new : ChatRecord) : Prop where
  id : new.id = old.id
  peerId : new.peerId = old.peerId
  direction : new.direction = old.direction
  timestamp : new.timestamp = old.timestamp
  body : new.body = old.body
  kind : new.kind = old.kind
  inReplyTo : new.inReplyTo = old.inReplyTo
  group : new.group = old.group
  storedAt : new.storedAt = old.storedAt
  status : new.status = old.status ∨ old.isSettleableFileRow .out ∧ new.status = .declined
  readAt : new.readAt = old.readAt ∨ old.direction = .out ∧ old.readAt = none
  reactions : new.reactions.filter (·.by = .out) = old.reactions.filter (·.by = .out)
  file : new.file = old.file ∨ old.isSettleableFileRow .inn ∧
    ∃ name size, landing = some (some (name, size)) ∧ new.file = (old.land name size).file

namespace Changed
variable {landing : Option (Option (String × Nat))} {old mid new : ChatRecord}

theorem refl (landing : Option (Option (String × Nat))) (rec : ChatRecord) : Changed landing rec rec :=
  ⟨rfl, rfl, rfl, rfl, rfl, rfl, rfl, rfl, rfl, .inl rfl, .inl rfl, rfl, .inl rfl⟩

/-- A change settles a row at most once. -/
theorem settleable (h : Changed landing old new) {side : Direction}
    (live : new.isSettleableFileRow side) : old.isSettleableFileRow side ∧ new.status = old.status := by
  rcases h.status with same | ⟨_, declined⟩
  · rw [ChatRecord.isSettleableFileRow, h.kind, h.direction, same] at live
    exact ⟨live, same⟩
  · rw [ChatRecord.isSettleableFileRow, declined] at live
    simp at live

theorem land_land (rec : ChatRecord) (name : String) (size : Nat) :
    ((rec.land name size).land name size).file = (rec.land name size).file := by
  rw [ChatRecord.land, ChatRecord.land]
  cases rec.file <;> rfl

/-- What has landed may be written again. -/
theorem land (h : Changed landing old new) (live : new.isSettleableFileRow .inn) {name : String}
    {size : Nat} (landed : landing = some (some (name, size))) :
    Changed landing old (new.land name size) := by
  refine { h with file := .inr ⟨(h.settleable live).1, name, size, landed, ?_⟩ }
  rcases h.file with same | ⟨_, name', size', landed', same⟩
  · rw [ChatRecord.land, ChatRecord.land, same]
  · cases landed.symm.trans landed'
    rw [ChatRecord.land, same]
    exact land_land old name size

theorem trans {landing' : Option (Option (String × Nat))} (first : Changed landing old mid)
    (second : Changed landing' mid new) (kept : landing' = landing ∨ landing' = none) :
    Changed landing old new where
  id := second.id.trans first.id
  peerId := second.peerId.trans first.peerId
  direction := second.direction.trans first.direction
  timestamp := second.timestamp.trans first.timestamp
  body := second.body.trans first.body
  kind := second.kind.trans first.kind
  inReplyTo := second.inReplyTo.trans first.inReplyTo
  group := second.group.trans first.group
  storedAt := second.storedAt.trans first.storedAt
  reactions := second.reactions.trans first.reactions
  status := by
    rcases second.status with same | ⟨live, declined⟩
    · rw [same]
      exact first.status
    · exact .inr ⟨(first.settleable live).1, declined⟩
  readAt := by
    rcases second.readAt with same | ⟨own, unread⟩
    · rw [same]
      exact first.readAt
    · rcases first.readAt with same | marked
      · exact .inr ⟨first.direction ▸ own, same ▸ unread⟩
      · exact .inr marked
  file := by
    rcases second.file with same | ⟨live, name, size, landed, same⟩
    · rw [same]
      exact first.file
    · rcases kept with rfl | rfl
      · rw [same]
        exact (first.land live landed).file
      · cases landed

end Changed

/-- A row before and after: one that does not decode stays, and what is new is the peer's. -/
def Kept (peer : DeviceId) (id : String) (landing : Option (Option (String × Nat))) :
    Option (Option ChatRecord) → Option (Option ChatRecord) → Prop
  | some (some old), some (some new) => Changed landing old new
  | some none, some none => True
  | none, some (some new) => new.peerId = peer ∧ new.id = id ∧ new.direction = .inn
  | none, none => True
  | _, _ => False

structure Confined (peer : DeviceId) (s s' : ChatStore) : Prop where
  outbox : s'.outbox = s.outbox
  windows : s'.windows = s.windows
  others : ∀ other ≠ peer, s'.rows other = s.rows other ∧ s'.landings other = s.landings other
  landings : ∀ id, s'.landings peer id = s.landings peer id ∨ s'.landings peer id = none
  rows : ∀ id : String, Kept peer id (s.landings peer id) (s.rows peer)[id]? (s'.rows peer)[id]?

theorem Kept.refl (peer : DeviceId) (id : String) (landing : Option (Option (String × Nat)))
    (row : Option (Option ChatRecord)) : Kept peer id landing row row := by
  rcases row with _ | _ | rec
  · trivial
  · trivial
  · exact Changed.refl landing rec

theorem Kept.trans {peer : DeviceId} {id : String} {landing landing' : Option (Option (String × Nat))}
    {a b c : Option (Option ChatRecord)} (first : Kept peer id landing a b)
    (second : Kept peer id landing' b c) (kept : landing' = landing ∨ landing' = none) :
    Kept peer id landing a c := by
  rcases a with _ | _ | old <;> rcases b with _ | _ | mid <;> rcases c with _ | _ | new
  -- a row that decodes becomes one that does, and one that does not stays
  all_goals first
    | exact first.elim
    | exact second.elim
    | trivial
    | skip
  · have same : Changed landing' mid new := second
    obtain ⟨own, key, side⟩ : mid.peerId = peer ∧ mid.id = id ∧ mid.direction = .inn := first
    exact ⟨same.peerId.trans own, same.id.trans key, same.direction.trans side⟩
  · exact Changed.trans first second kept

namespace Confined
variable {peer : DeviceId} {s s' s'' : ChatStore}

theorem refl (peer : DeviceId) (s : ChatStore) : Confined peer s s :=
  ⟨rfl, rfl, fun _ _ => ⟨rfl, rfl⟩, fun _ => .inl rfl, fun _ => .refl ..⟩

theorem trans (first : Confined peer s s') (second : Confined peer s' s'') : Confined peer s s'' where
  outbox := second.outbox.trans first.outbox
  windows := second.windows.trans first.windows
  others other away := by
    obtain ⟨rows, landings⟩ := first.others other away
    obtain ⟨rows', landings'⟩ := second.others other away
    exact ⟨rows'.trans rows, landings'.trans landings⟩
  landings id := by
    rcases second.landings id with same | taken
    · rw [same]
      exact first.landings id
    · exact .inr taken
  rows id := (first.rows id).trans (second.rows id) (first.landings id)

/-- The store keeps every row under its own peer and id. -/
theorem wellKeyed (h : Confined peer s s') (keyed : s.WellKeyed) : s'.WellKeyed := by
  intro p id rec stored
  by_cases own : p = peer
  · subst own
    have kept := h.rows id
    rw [stored] at kept
    cases before : (s.rows p)[id]? with
    | none =>
      rw [before] at kept
      exact ⟨kept.1, kept.2.1⟩
    | some row =>
      cases row with
      | none => rw [before] at kept; exact kept.elim
      | some old =>
        rw [before] at kept
        have same : Changed _ old rec := kept
        obtain ⟨own, key⟩ := keyed p id old before
        exact ⟨same.peerId.trans own, same.id.trans key⟩
  · rw [(h.others p own).1] at stored
    exact keyed p id rec stored

end Confined

namespace Prog
variable (peer : DeviceId) (s₀ : ChatStore)

/-- A program that stays within what the peer's frames may do, counted from `s₀`. -/
abbrev Within {α : Type} (p : Prog α) (post : α → Prop) : Prop :=
  p.Maintains (Program.Answers Disk.exec) (fun d => Confined peer s₀ d.store) post

def Fits (rec : ChatRecord) : Prop :=
  rec.peerId = peer ∧
    Kept peer rec.id (s₀.landings peer rec.id) (s₀.rows peer)[rec.id]? (some (some rec))

variable {peer s₀}

/-- A row that has been read is of one that stood at first, or the peer's own. -/
theorem fits_of_row (keyed : s₀.WellKeyed) {d : Disk} (inv : Confined peer s₀ d.store) {id : String}
    {rec : ChatRecord} (stored : (d.store.rows peer)[id]? = some (some rec)) :
    Fits peer s₀ rec ∧ rec.id = id := by
  obtain ⟨own, rfl⟩ := inv.wellKeyed keyed peer id rec stored
  have kept := inv.rows rec.id
  rw [stored] at kept
  exact ⟨⟨own, kept⟩, rfl⟩

/-- An edit of a row that fits, where the row that stood at first allows it. -/
theorem Fits.edit {rec new : ChatRecord} (h : Fits peer s₀ rec) (same : new.peerId = rec.peerId)
    (key : new.id = rec.id) (side : new.direction = rec.direction)
    (allowed : ∀ old, (s₀.rows peer)[rec.id]? = some (some old) →
      Changed (s₀.landings peer rec.id) old rec → Changed (s₀.landings peer rec.id) old new) :
    Fits peer s₀ new := by
  obtain ⟨own, kept⟩ := h
  refine ⟨same.trans own, ?_⟩
  rw [key]
  cases before : (s₀.rows peer)[rec.id]? with
  | none =>
    rw [before] at kept
    exact ⟨same.trans kept.1, key, side.trans kept.2.2⟩
  | some row =>
    cases row with
    | none => rw [before] at kept; exact kept.elim
    | some old => rw [before] at kept; exact allowed old before kept

theorem Fits.land {rec : ChatRecord} (h : Fits peer s₀ rec) (live : rec.isSettleableFileRow .inn)
    {name : String} {size : Nat} (landed : s₀.landings peer rec.id = some (some (name, size))) :
    Fits peer s₀ (rec.land name size) :=
  h.edit rfl rfl rfl fun _ _ changed => changed.land live landed

/-- One of our own rows that is in flight stood there at first, and was. -/
theorem Fits.live {rec : ChatRecord} (h : Fits peer s₀ rec) (live : rec.isSettleableFileRow .out) :
    ∃ old, (s₀.rows peer)[rec.id]? = some (some old) ∧ old.isSettleableFileRow .out := by
  obtain ⟨_, kept⟩ := h
  cases before : (s₀.rows peer)[rec.id]? with
  | none =>
    rw [before] at kept
    rw [ChatRecord.isSettleableFileRow, kept.2.2] at live
    simp at live
  | some row =>
    cases row with
    | none => rw [before] at kept; exact kept.elim
    | some old =>
      rw [before] at kept
      exact ⟨old, rfl, (Changed.settleable kept live).1⟩

theorem within_write {rec : ChatRecord} (fits : Fits peer s₀ rec) :
    Within peer s₀ (write rec) fun _ => True := by
  refine .carried (fun d inv => ?_) fun _ _ _ _ => trivial
  obtain ⟨own, kept⟩ := fits
  show Confined peer s₀ (d.store.write rec)
  refine ⟨inv.outbox, inv.windows, fun other away => ⟨?_, (inv.others other away).2⟩, inv.landings,
    fun id => ?_⟩
  · rw [ChatStore.write, ChatStore.rows_setRows, own, if_neg (Ne.symm away)]
    exact (inv.others other away).1
  · rw [ChatStore.rows_write]
    split
    next place => rw [← place.2]; exact kept
    next => exact inv.rows id

theorem within_retention (other : DeviceId) : Within peer s₀ (retention other) fun _ => True := by
  refine .bind (.carried (fun _ inv => inv) fun _ _ _ _ => trivial) fun policy _ => ?_
  rcases policy with _ | _ | r
  · exact .ret trivial
  · exact .fail
  · exact .ret trivial

theorem within_takePendingLanding (id : String) :
    Within peer s₀ (takePendingLanding peer id) fun landing => ∀ name size,
      landing = some (name, size) → s₀.landings peer id = some (some (name, size)) := by
  have read : Within peer s₀ (ask (.getLanding peer id)) fun row => ∀ blob,
      row = some blob → s₀.landings peer id = some blob := by
    refine .carried (fun _ inv => inv) fun d row inv answered blob here => ?_
    cases answered
    rcases inv.landings id with same | taken
    · exact same.symm.trans here
    · cases taken.symm.trans here
  have delete : Within peer s₀ (ask (.deleteLanding peer id)) fun _ => True := by
    refine .carried (fun d inv => ?_) fun _ _ _ _ => trivial
    refine ⟨inv.outbox, inv.windows, fun other away => ⟨(inv.others other away).1, ?_⟩, fun id' => ?_,
      inv.rows⟩
    · refine (funext fun id' => ?_ : _ = d.store.landings other).trans (inv.others other away).2
      exact (d.landings_putLanding ..).trans (if_neg fun h => away h.1)
    · show (d.putLanding peer id none).store.landings peer id' = _ ∨
        (d.putLanding peer id none).store.landings peer id' = none
      rw [d.landings_putLanding]
      split
      · exact .inr rfl
      · exact inv.landings id'
  refine .bind read fun row known => ?_
  cases row with
  | none => exact .ret fun _ _ none => by cases none
  | some blob =>
    refine .bind delete.attempt fun _ _ => .ret fun name size landed => ?_
    rw [known blob rfl, landed]

theorem within_append {rec : ChatRecord} (fits : Fits peer s₀ rec) :
    Within peer s₀ (append rec) fun _ => True := by
  rw [append]
  split
  next live =>
    rw [fits.1]
    refine .bind (within_takePendingLanding rec.id) fun landing known => ?_
    rcases landing with _ | ⟨name, size⟩
    · exact within_write fits
    · exact within_write (fits.land live (known name size rfl))
  next => exact within_write fits

theorem within_withLanding {rec : ChatRecord} (fits : Fits peer s₀ rec) :
    Within peer s₀ (withLanding rec) fun rec' => Fits peer s₀ rec' ∧ rec'.id = rec.id := by
  rw [withLanding]
  split
  next live =>
    rw [fits.1]
    refine .bind (within_takePendingLanding rec.id).attempt fun landing known => ?_
    rcases landing with e | _ | ⟨name, size⟩
    · exact .ret ⟨fits, rfl⟩
    · exact .ret ⟨fits, rfl⟩
    · have landed := fits.land live (known _ rfl name size rfl)
      show Within peer s₀ (if _ then _ else _) _
      split
      · exact .bind (within_write landed).attempt fun _ _ => .ret ⟨landed, rfl⟩
      · exact .ret ⟨fits, rfl⟩
  next => exact .ret ⟨fits, rfl⟩

section
variable (c : Chrono) (now : Int) (keyed : s₀.WellKeyed)
include keyed

theorem within_getRow (id : String) : Within peer s₀ (ask (.getRow peer id)) fun row =>
    ∀ rec, row = some (some rec) → Fits peer s₀ rec ∧ rec.id = id := by
  refine .carried (fun _ inv => inv) fun d row inv answered rec here => ?_
  cases answered
  exact fits_of_row keyed inv here

theorem within_get (id : String) : Within peer s₀ (get c now peer id) fun row =>
    ∀ rec, row = some rec → Fits peer s₀ rec ∧ rec.id = id := by
  refine .bind (within_getRow keyed id) fun row known => ?_
  rcases row with _ | _ | rec
  · exact .ret fun _ none => by cases none
  · exact .fail
  · obtain ⟨fits, key⟩ := known rec rfl
    show Within peer s₀ (retention peer >>= _) _
    refine .bind (within_retention peer) fun r _ => ?_
    split
    · exact .ret fun _ none => by cases none
    · refine .bind (within_withLanding fits) fun rec' known => .ret fun _ same => ?_
      cases same
      exact ⟨known.1, known.2.trans key⟩

omit keyed in
theorem within_shown (includeGroups : Bool) (r : Retention) (rows : List (String × Option ChatRecord))
    (fits : ∀ row ∈ rows, ∀ rec, row.2 = some rec → Fits peer s₀ rec) :
    Within peer s₀ (shown c now includeGroups r rows) fun recs => ∀ rec ∈ recs, Fits peer s₀ rec := by
  induction rows with
  | nil => exact .ret fun _ mem => absurd mem List.not_mem_nil
  | cons row rows ih =>
    have later := ih fun row mem => fits row (List.mem_cons_of_mem _ mem)
    obtain ⟨key, _ | rec⟩ := row
    · exact later
    · rw [shown]
      split
      · exact later
      · split
        · exact later
        · have here := fits _ List.mem_cons_self rec rfl
          refine .bind (within_withLanding here) fun rec' known => ?_
          refine .bind later fun recs all => .ret fun rec'' mem => ?_
          rcases List.mem_cons.mp mem with rfl | mem
          · exact known.1
          · exact all rec'' mem

theorem within_history : Within peer s₀ (history c now peer) fun recs =>
    ∀ rec ∈ recs, Fits peer s₀ rec := by
  have listed : Within peer s₀ (ask (.listRows peer)) fun rows =>
      ∀ row ∈ rows, ∀ rec, row.2 = some rec → Fits peer s₀ rec := by
    refine .carried (fun _ inv => inv) fun d rows inv answered row mem rec here => ?_
    cases answered
    obtain ⟨key, value⟩ := row
    subst here
    exact (fits_of_row keyed inv (Std.ExtTreeMap.mem_toList_iff_getElem?_eq_some.mp mem)).1
  exact .bind listed fun rows fits => .bind (within_retention peer) fun r _ =>
    within_shown c now false r rows fits

omit keyed in
theorem within_markRead (readThrough stamp : String) (recs : List ChatRecord)
    (fits : ∀ rec ∈ recs, Fits peer s₀ rec) :
    Within peer s₀ (markRead readThrough stamp recs) fun _ => True := by
  induction recs with
  | nil => exact .ret trivial
  | cons rec recs ih =>
    have later := ih fun rec mem => fits rec (List.mem_cons_of_mem _ mem)
    rw [markRead]
    split
    next => exact later
    next unread =>
      simp only [ne_eq, not_or, not_not, Option.not_isSome_iff_eq_none] at unread
      have marked : Fits peer s₀ { rec with readAt := some stamp } := by
        refine (fits rec List.mem_cons_self).edit rfl rfl rfl fun old _ changed => ?_
        refine { changed with readAt := .inr ⟨changed.direction ▸ unread.1, ?_⟩ }
        rcases changed.readAt with same | marked
        · rw [← same]
          exact unread.2.1
        · exact marked.2
      exact .bind (within_append marked) fun _ _ => .bind later fun _ _ => .ret trivial

theorem within_applyReceipt (readThrough stamp : String) :
    Within peer s₀ (applyReceipt c now peer readThrough stamp) fun _ => True :=
  .bind (within_history c now keyed) fun recs fits => within_markRead readThrough stamp recs fits

/-- Reactions of the peer's side come and go; ours stay. -/
theorem within_applyReaction (stamp targetId emoji : String) (remove : Bool) :
    Within peer s₀ (applyReaction c now stamp peer targetId emoji .inn remove) fun _ => True := by
  refine .bind (within_get c now keyed targetId) fun row known => ?_
  cases row with
  | none => exact .ret trivial
  | some rec =>
    have fits := (known rec rfl).1
    have edited (reactions : List StoredReaction)
        (ours : reactions.filter (·.by = .out) = rec.reactions.filter (·.by = .out)) :
        Fits peer s₀ { rec with reactions := reactions } :=
      fits.edit rfl rfl rfl fun _ _ changed =>
        { changed with reactions := ours.trans changed.reactions }
    dsimp only
    cases found : rec.reactions.findIdx? (fun r => r.emoji = emoji && r.by = .inn) with
    | none =>
      cases remove with
      | true => exact .ret trivial
      | false =>
        refine .bind (within_append (edited _ ?_)) fun _ _ => .ret trivial
        simp
    | some i =>
      cases remove with
      | false => exact .ret trivial
      | true =>
        refine .bind (within_append (edited _ ?_)) fun _ _ => .ret trivial
        obtain ⟨bound, here, _⟩ := List.findIdx?_eq_some_iff_getElem.mp found
        have theirs : ¬ rec.reactions[i].by = .out := by
          intro ours
          simp [ours] at here
        calc (rec.reactions.eraseIdx i).filter (·.by = .out)
            = (rec.reactions.take i ++ rec.reactions.drop (i + 1)).filter (·.by = .out) := by
              rw [List.eraseIdx_eq_take_drop_succ]
          _ = (rec.reactions.take i ++ rec.reactions.drop i).filter (·.by = .out) := by
              rw [List.drop_eq_getElem_cons bound, List.filter_append, List.filter_append,
                List.filter_cons_of_neg (by simpa using theirs)]
          _ = rec.reactions.filter (·.by = .out) := by rw [List.take_append_drop]

/-- A decline settles one of our own rows that is in flight. -/
theorem within_settleFileRow (id : String) :
    Within peer s₀ (settleFileRow c now peer id .out .declined) fun _ => True := by
  have check : Within peer s₀ (settleable c now peer id .out) fun pass =>
      pass = true → ∃ rec, Fits peer s₀ rec ∧ rec.id = id ∧ rec.isSettleableFileRow .out := by
    refine .bind (within_get c now keyed id) fun row known => ?_
    cases row with
    | none => exact .ret fun none => by cases none
    | some rec => exact .ret fun pass => ⟨rec, (known rec rfl).1, (known rec rfl).2, pass⟩
  refine .bind check fun pass known => ?_
  cases pass with
  | false => exact .ret trivial
  | true =>
    obtain ⟨seen, fits, rfl, live⟩ := known rfl
    obtain ⟨first, stood, live⟩ := fits.live live
    have write : Within peer s₀ (setStatus peer seen.id .declined) fun _ => True := by
      refine .bind (within_getRow keyed seen.id) fun row known => ?_
      rcases row with _ | _ | rec
      · exact .ret trivial
      · exact .fail
      · obtain ⟨own, same⟩ := known rec rfl
        refine within_append (own.edit rfl rfl rfl fun old place changed => ?_)
        rw [same, stood] at place
        cases place
        exact { changed with status := .inr ⟨live, rfl⟩ }
    exact .bind write fun _ _ => .ret trivial

omit keyed in
/-- What the peer sends is new where no row stands under its id. -/
theorem within_receive {rec : ChatRecord} (own : rec.peerId = peer) (side : rec.direction = .inn) :
    Within peer s₀ (receive peer rec) fun _ => True := by
  have absent : Within peer s₀ (contains peer rec.id) fun taken =>
      taken = false → (s₀.rows peer)[rec.id]? = none := by
    have read : Within peer s₀ (ask (.getRow peer rec.id)) fun row =>
        row = none → (s₀.rows peer)[rec.id]? = none := by
      refine .carried (fun _ inv => inv) fun d row inv answered free => ?_
      cases answered
      have kept := inv.rows rec.id
      rw [free] at kept
      rcases before : (s₀.rows peer)[rec.id]? with _ | _ | old
      · rfl
      · rw [before] at kept; exact kept.elim
      · rw [before] at kept; exact kept.elim
    refine .bind read fun row known => .ret fun free => known ?_
    exact Option.not_isSome_iff_eq_none.mp (Bool.eq_false_iff.mp free)
  refine .bind absent fun taken known => ?_
  cases taken with
  | true => exact .ret trivial
  | false =>
    refine .bind (within_append ⟨own, ?_⟩) fun _ _ => .ret trivial
    rw [known rfl]
    exact ⟨own, rfl, side⟩

omit keyed in
theorem within_onMessage {α : Type} {message : Except MessageError α} {act : α → Prog (List Notice)}
    (h : ∀ m, Within peer s₀ (act m) fun _ => True) :
    Within peer s₀ (onMessage message act) fun _ => True := by
  cases message with
  | error e => exact .ret trivial
  | ok m => exact .bind (h m) fun _ _ => .ret trivial

/-- Every message type, whatever ids the peer names in it. -/
theorem within_handle (wire : Wire) (foreign : Bool) (a : Arrival) :
    Within peer s₀ (ChatHandler.handle c wire foreign (some peer) a) fun _ => True := by
  rw [ChatHandler.handle]
  split
  · exact within_onMessage fun msg => within_receive rfl rfl
  · split
    · exact within_onMessage fun r => within_receive rfl rfl
    · split
      · exact within_onMessage fun d =>
          .bind (within_settleFileRow c a.now keyed d.id) fun _ _ => .ret trivial
      · split
        · exact within_onMessage fun r =>
            .bind (within_applyReaction c a.now keyed _ _ _ _) fun _ _ => .ret trivial
        · split
          · exact within_onMessage fun r =>
              .bind (within_applyReceipt c a.now keyed _ _) fun _ _ => .ret trivial
          · split
            · exact .ret trivial
            · exact .ret trivial

end

end Prog

section
variable {c : Chrono} {wire : Wire} {foreign : Bool} {peer : DeviceId}

theorem Delivered.confined {d d' : Disk} {arrivals : List Arrival} (keyed : d.store.WellKeyed)
    (h : Delivered c wire foreign peer d arrivals d') : Confined peer d.store d'.store := by
  induction h with
  | nil d => exact .refl peer d.store
  | cons run later ih =>
    have first := ((Prog.within_handle c keyed wire foreign _).of_runs (.refl peer _) run).1
    exact first.trans (ih (first.wellKeyed keyed))

/-- Whatever a peer sends, and whatever fails meanwhile, every other conversation, the outbox and the
windows are as they were, and in its own conversation rows stay what they are but for the four
changes of `Changed`; and no two peers share a namespace, nor one with the rest of the store. -/
theorem frames_confined {d d' : Disk} {arrivals : List Arrival} (keyed : d.store.WellKeyed)
    (h : Delivered c wire foreign peer d arrivals d') :
    Confined peer d.store d'.store ∧ Function.Injective «namespace» ∧
      ∀ peer, «namespace» peer ≠ outboxNs ∧ «namespace» peer ≠ retentionNs ∧
        ∀ other, «namespace» peer ≠ landingNs other :=
  ⟨h.confined keyed, namespace_injective, namespace_ne⟩

end

private def still : Chrono := ⟨fun _ => none, fun now secs => some (now - secs * 1000000000), 0⟩

/-- Every payload is a receipt for everything up to `z`. -/
private def receipts : Wire where
  text _ := .error "no"
  fileRef _ := .error "no"
  fileDecline _ := .error "no"
  reaction _ := .error "no"
  receipt _ := .ok ⟨"z", "2026-01-01T00:00:00Z"⟩

private def offered : ChatRecord := .fileIn 0 "ann" ⟨"f", "2026-01-01T00:00:00Z", "holiday.jpg", 180⟩

/-- An offered file whose transfer has told what really lands. -/
private def offering : Disk := ⟨{ (ChatStore.empty.write offered) with
  landings := fun peer id => if peer = "ann" ∧ id = "f" then some (some ("invoice.exe", 9)) else none }, ∅⟩

private def receiptFrame : Arrival := ⟨⟨1, msgReceipt, MessageFlags.optional, []⟩, 0, ""⟩

private def afterReceipt : Disk :=
  ((ChatHandler.handle still receipts false (some "ann") receiptFrame).run Disk.exec offering).2

private theorem offering_wellKeyed : offering.store.WellKeyed := by
  intro peer id rec stored
  rw [show offering.store.rows peer = (ChatStore.empty.write offered).rows peer from rfl,
    ChatStore.rows_write] at stored
  split at stored
  next place => cases stored; exact place
  next => cases stored

private theorem receipt_delivered :
    Delivered still receipts false "ann" offering [receiptFrame] afterReceipt :=
  .cons (Program.runs_run _ _) (.nil _)

theorem receipt_corrects_offered_file :
    Delivered still receipts false "ann" offering [receiptFrame] afterReceipt ∧
    (offering.store.rows "ann")["f"]? = some (some offered) ∧
    ∃ rec, (afterReceipt.store.rows "ann")["f"]? = some (some rec) ∧ rec.file ≠ offered.file :=
  ⟨receipt_delivered, by decide, offered.land "invoice.exe" 9, by decide, by decide⟩

/-- The theorem at the peer's receipt. -/
theorem receipt_confined : Confined "ann" offering.store afterReceipt.store ∧
    Function.Injective «namespace» ∧ ∀ peer, «namespace» peer ≠ outboxNs ∧
      «namespace» peer ≠ retentionNs ∧ ∀ other, «namespace» peer ≠ landingNs other :=
  frames_confined offering_wellKeyed receipt_delivered

end PeerBeam.Chat
