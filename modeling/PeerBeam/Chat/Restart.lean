import PeerBeam.Chat.FileQueue
import PeerBeam.Chat.Window

/-! What a start does for the chats: rows that were in flight are interrupted, and copies that no entry
names are removed. What a crash has left while files were being sent is recovered by it or is not. -/
namespace PeerBeam.Chat

instance (status : Status) : Decidable status.inFlight := inferInstanceAs (Decidable (_ ∨ _))

namespace Prog
open Program (ret fail)
variable (c : Chrono) (now : Int)

/-- The loop of `reconcile_peer`. -/
def interruptEach (peer : DeviceId) : List ChatRecord → Prog Nat
  | [] => ret 0
  | rec :: rest =>
    if rec.status.inFlight then do
      setStatus peer rec.id .interrupted
      let changed ← interruptEach peer rest
      ret (changed + 1)
    else interruptEach peer rest

def reconcilePeer (peer : DeviceId) : Prog Nat := do
  let rows ← history c now peer
  interruptEach peer rows

/-- A namespace that cannot be listed is taken for a conversation. -/
def holdsPrivateRecord (peer : DeviceId) : Prog Bool := do
  match ← (ask (.listRows peer)).attempt with
  | .ok rows => ret (rows.any fun row => row.2.elim true (·.group.isNone))
  | .error _ => ret true

/-- The loop of `conversations`. -/
def privateOnes : List DeviceId → Prog (List DeviceId)
  | [] => ret []
  | peer :: rest => do
    let held ← holdsPrivateRecord peer
    let later ← privateOnes rest
    ret (if held then peer :: later else later)

def conversations : Prog (List DeviceId) := do
  let peers ← ask .namespaces
  privateOnes peers

def reconcileEach : List DeviceId → Prog Unit
  | [] => ret ()
  | peer :: rest => do
    let _ ← (reconcilePeer c now peer).attempt
    reconcileEach rest

def reconcileChat : Prog Unit := do
  match ← conversations.attempt with
  | .ok peers => reconcileEach c now peers
  | .error _ => ret ()

def ownedBlobs : List (String × Option OutboxEntry) → Except CallError (List String)
  | [] => .ok []
  | (_, none) :: _ => .error .serialization
  | (_, some e) :: rest => (ownedBlobs rest).map ((e.file.map (·.stagedPath)).toList ++ ·)

def outboxOwnedBlobs : Prog (List String) := do
  let raw ← ask .listOutbox
  lift (ownedBlobs raw)

def keptBy (keep : List String) (path : String) : Bool :=
  (Transfer.fileName path.toList).any (keep.filterMap fun p => Transfer.fileName p.toList).contains

/-- The loop of `sweep`. -/
def sweepEach (keep : List String) : List String → Prog Nat
  | [] => ret 0
  | path :: rest =>
    if keptBy keep path then sweepEach keep rest
    else do
      let gone ← (ask (.removeBlob path)).attempt
      let removed ← sweepEach keep rest
      ret (removed + if gone.isOk then 1 else 0)

def sweep (keep : List String) : Prog Nat := do
  match ← (ask .listBlobs).attempt with
  | .ok paths => sweepEach keep paths
  | .error _ => ret 0

def startup : Prog Unit := do
  reconcileChat c now
  match ← outboxOwnedBlobs.attempt with
  | .ok owned => do
    let _ ← sweep owned
  | .error _ => ret ()

end Prog

/-- The row is one that the private thread shows. -/
def Visible (c : Chrono) (now : Int) (s : ChatStore) (peer : DeviceId) (rec : ChatRecord) : Prop :=
  rec.group = none ∧ ∃ r, s.retention peer = .ok r ∧ rec.hasDisappeared c r now = false

def Rests (peer : DeviceId) (id : String) (d : Disk) : Prop :=
  ∀ rec, (d.store.rows peer)[id]? = some (some rec) → ¬ rec.status.inFlight

def Eased (c : Chrono) (now : Int) (s : ChatStore) (peer : DeviceId) (old new : ChatRecord) : Prop :=
  Frame old new ∧ (new.status = old.status ∨
    old.status.inFlight ∧ Visible c now s peer old ∧ new.status = .interrupted)

/-- Rows of `d₀` that have been eased, and everything else as it was. -/
structure Calmed (c : Chrono) (now : Int) (d₀ d : Disk) : Prop where
  outbox : d.store.outbox = d₀.store.outbox
  windows : d.store.windows = d₀.store.windows
  blobs : d.blobs = d₀.blobs
  rows : ∀ (peer : DeviceId) (id : String), (d.store.rows peer)[id]? = (d₀.store.rows peer)[id]? ∨
    ∃ old new, (d₀.store.rows peer)[id]? = some (some old) ∧ (d.store.rows peer)[id]? = some (some new) ∧
      Eased c now d₀.store peer old new

structure Alike (d d' : Disk) : Prop where
  rows : d'.store.conversations = d.store.conversations
  outbox : d'.store.outbox = d.store.outbox
  windows : d'.store.windows = d.store.windows
  blobs : d'.blobs = d.blobs

/-- What a reconcile keeps: it puts what has landed into rows in flight, and interrupts rows it shows. -/
structure Endures (c : Chrono) (now : Int) (root : String) (I : Disk → Prop) : Prop where
  housed : ∀ d, I d → Housed root d
  alike : ∀ d d', Alike d d' → I d → I d'
  keyed : ∀ d, I d → d.store.WellKeyed
  stands : ∀ d d' peer (id : String) rec, I d → I d' → (d.store.rows peer)[id]? = some (some rec) →
    ∃ rec', (d'.store.rows peer)[id]? = some (some rec')
  land : ∀ d d' peer (id : String) rec name size, I d → I d' →
    (d.store.rows peer)[id]? = some (some rec) → rec.status.inFlight →
    I { d' with store := d'.store.write (rec.land name size) }
  interrupt : ∀ d d' peer (id : String) rec rec', I d → I d' →
    (d.store.rows peer)[id]? = some (some rec) → rec.status.inFlight → Visible c now d.store peer rec →
    (d'.store.rows peer)[id]? = some (some rec') →
    I { d' with store := d'.store.write { rec' with status := .interrupted } }

section
variable {c : Chrono} {now : Int} {root : String} {d₀ d d' : Disk}

theorem Alike.rows_eq (h : Alike d d') (peer : DeviceId) : d'.store.rows peer = d.store.rows peer := by
  rw [ChatStore.rows, ChatStore.rows, h.rows]

theorem Calmed.refl (d : Disk) : Calmed c now d d := ⟨rfl, rfl, rfl, fun _ _ => .inl rfl⟩

/-- The first row that stood where one stands. -/
theorem Calmed.first (h : Calmed c now d₀ d) {peer : DeviceId} {id : String} {rec : ChatRecord}
    (stored : (d.store.rows peer)[id]? = some (some rec)) :
    ∃ old, (d₀.store.rows peer)[id]? = some (some old) ∧ Eased c now d₀.store peer old rec := by
  rcases h.rows peer id with same | ⟨old, new, before, after, eased⟩
  · exact ⟨rec, same.symm.trans stored, .refl rec, .inl rfl⟩
  · cases after.symm.trans stored
    exact ⟨old, before, eased⟩

theorem Calmed.later (h : Calmed c now d₀ d) {peer : DeviceId} {id : String} {old : ChatRecord}
    (stored : (d₀.store.rows peer)[id]? = some (some old)) :
    ∃ rec, (d.store.rows peer)[id]? = some (some rec) ∧ Eased c now d₀.store peer old rec := by
  rcases h.rows peer id with same | ⟨old', new, before, after, eased⟩
  · exact ⟨old, same.trans stored, .refl old, .inl rfl⟩
  · cases before.symm.trans stored
    exact ⟨new, after, eased⟩

theorem Calmed.shown (h : Calmed c now d₀ d) {peer : DeviceId} {old new : ChatRecord}
    (frame : Frame old new) : Visible c now d.store peer new ↔ Visible c now d₀.store peer old := by
  have window : d.store.retention peer = d₀.store.retention peer := by
    rw [ChatStore.retention, ChatStore.retention, h.windows]
  rw [Visible, Visible, frame.group, window]
  simp only [frame.hasDisappeared]

/-- A row in flight is in flight from the start. -/
theorem Eased.inFlight {s : ChatStore} {peer : DeviceId} {old new : ChatRecord}
    (h : Eased c now s peer old new) (live : new.status.inFlight) : new.status = old.status := by
  rcases h.2 with same | ⟨-, -, settled⟩
  · exact same
  · rw [settled] at live
    rcases live with status | status <;> cases status

theorem Calmed.write (h : Calmed c now d₀ d) {old new : ChatRecord}
    (stored : (d₀.store.rows new.peerId)[new.id]? = some (some old))
    (eased : Eased c now d₀.store new.peerId old new) :
    Calmed c now d₀ { d with store := d.store.write new } := by
  refine ⟨h.outbox, h.windows, h.blobs, fun peer id => ?_⟩
  rw [ChatStore.rows_write]
  split
  next place =>
    obtain ⟨rfl, rfl⟩ := place
    exact .inr ⟨old, new, stored, rfl, eased⟩
  next => exact h.rows peer id

theorem Calmed.wellKeyed (h : Calmed c now d₀ d) (keyed : d₀.store.WellKeyed) : d.store.WellKeyed := by
  intro peer id rec stored
  obtain ⟨old, before, eased⟩ := h.first stored
  obtain ⟨own, key⟩ := keyed peer id old before
  exact ⟨eased.1.peerId.trans own, eased.1.id.trans key⟩

theorem frame_land (rec : ChatRecord) (name : String) (size : Nat) : Frame rec (rec.land name size) := by
  refine { Frame.refl rec with isFile := ?_ }
  rw [ChatRecord.land]
  exact Option.isSome_map

theorem calmed_endures (housed : Housed root d₀) (keyed : d₀.store.WellKeyed) :
    Endures c now root (Calmed c now d₀) where
  housed d calm := by
    obtain ⟨key, owns, whole, placed⟩ := housed
    rw [← calm.outbox] at key owns whole
    rw [← calm.blobs] at whole placed
    exact ⟨key, owns, whole, placed⟩
  alike d d' same calm := by
    refine ⟨same.outbox.trans calm.outbox, same.windows.trans calm.windows, same.blobs.trans calm.blobs, ?_⟩
    intro peer id
    rw [same.rows_eq]
    exact calm.rows peer id
  keyed d calm := calm.wellKeyed keyed
  stands d d' peer id rec calm calm' stored := by
    obtain ⟨old, before, -⟩ := calm.first stored
    obtain ⟨rec', after, -⟩ := calm'.later before
    exact ⟨rec', after⟩
  land d d' peer id rec name size calm calm' stored live := by
    obtain ⟨old, before, eased⟩ := calm.first stored
    obtain ⟨rfl, rfl⟩ := calm.wellKeyed keyed peer id rec stored
    exact calm'.write before ⟨eased.1.trans (frame_land rec name size), .inl (eased.inFlight live)⟩
  interrupt d d' peer id rec rec' calm calm' stored live shown stored' := by
    obtain ⟨old, before, eased⟩ := calm.first stored
    obtain ⟨old', before', eased'⟩ := calm'.first stored'
    cases before.symm.trans before'
    obtain ⟨rfl, rfl⟩ := calm'.wellKeyed keyed peer id rec' stored'
    refine calm'.write before ⟨eased'.1.trans { Frame.refl rec' with }, .inr ⟨?_, ?_, rfl⟩⟩
    · rw [← eased.inFlight live]
      exact live
    · exact (calm.shown eased.1).mp shown

/-- Rows that rest are left alone. -/
theorem Endures.rests {I : Disk → Prop} (h : Endures c now root I) (among : DeviceId → String → Prop) :
    Endures c now root fun d => I d ∧ ∀ peer id, among peer id → Rests peer id d where
  housed d inv := h.housed d inv.1
  alike d d' same inv :=
    ⟨h.alike d d' same inv.1, fun peer id mem => by rw [Rests, same.rows_eq]; exact inv.2 peer id mem⟩
  keyed d inv := h.keyed d inv.1
  stands d d' peer id rec inv inv' := h.stands d d' peer id rec inv.1 inv'.1
  land d d' other key rec name size inv inv' stored live := by
    refine ⟨h.land d d' other key rec name size inv.1 inv'.1 stored live, fun peer id mem rec' after => ?_⟩
    rw [ChatStore.rows_write] at after
    split at after
    next place =>
      obtain ⟨rfl, rfl⟩ := h.keyed d inv.1 other key rec stored
      obtain ⟨rfl, rfl⟩ := place
      exact absurd live (inv.2 _ _ mem rec stored)
    next => exact inv'.2 peer id mem rec' after
  interrupt d d' other key rec rec' inv inv' stored live shown stored' := by
    refine ⟨h.interrupt d d' other key rec rec' inv.1 inv'.1 stored live shown stored', ?_⟩
    intro peer id mem new after
    rw [ChatStore.rows_write] at after
    split at after
    · cases after
      rintro (status | status) <;> cases status
    · exact inv'.2 peer id mem new after

end

def Call.LeavesRows : Call → Prop
  | .putRow _ | .deleteRow .. | .putOutbox _ | .deleteOutbox _ | .createBlob _ | .writeBlob ..
  | .removeBlob _ => False
  | _ => True

theorem exec_alike (d : Disk) {call : Call} (h : call.LeavesRows) : Alike d (d.exec call).2 := by
  cases call <;> first | exact ⟨rfl, rfl, rfl, rfl⟩ | exact h.elim

theorem inFlight_of_settleable {rec : ChatRecord} {side : Direction}
    (h : rec.isSettleableFileRow side = true) : rec.status.inFlight := by
  simp only [ChatRecord.isSettleableFileRow, Bool.and_eq_true, Bool.or_eq_true, decide_eq_true_eq] at h
  exact h.2

/-- A window shows the row of a private thread. -/
def Open (c : Chrono) (now : Int) (r : Retention) (rec : ChatRecord) : Prop :=
  rec.group = none ∧ rec.hasDisappeared c r now = false

def Lists (c : Chrono) (now : Int) (r : Retention) (raw : List (String × Option ChatRecord))
    (out : List ChatRecord) : Prop :=
  ∀ id status, (∃ rec ∈ out, rec.id = id ∧ rec.status = status) ↔
    ∃ key rec, (key, some rec) ∈ raw ∧ Open c now r rec ∧ rec.id = id ∧ rec.status = status

section
variable {c : Chrono} {now : Int} {r : Retention} {raw : List (String × Option ChatRecord)}
  {out : List ChatRecord} {key : String}

theorem Lists.skip (h : Lists c now r raw out) {value : Option ChatRecord}
    (hidden : ∀ rec, value = some rec → ¬ Open c now r rec) : Lists c now r ((key, value) :: raw) out := by
  intro id status
  refine (h id status).trans ⟨?_, ?_⟩
  · rintro ⟨key', rec, mem, shown⟩
    exact ⟨key', rec, List.mem_cons_of_mem _ mem, shown⟩
  · rintro ⟨key', rec, mem, shown, named⟩
    rcases List.mem_cons.mp mem with first | mem
    · cases first
      exact absurd shown (hidden rec rfl)
    · exact ⟨key', rec, mem, shown, named⟩

theorem Lists.cons (h : Lists c now r raw out) {first new : ChatRecord} (shown : Open c now r first)
    (id : new.id = first.id) (status : new.status = first.status) :
    Lists c now r ((key, some first) :: raw) (new :: out) := by
  intro id' status'
  constructor
  · rintro ⟨rec, mem, named⟩
    rcases List.mem_cons.mp mem with rfl | mem
    · exact ⟨key, first, List.mem_cons_self, shown, id ▸ named.1, status ▸ named.2⟩
    · obtain ⟨key', rec', mem', found⟩ := (h id' status').mp ⟨rec, mem, named⟩
      exact ⟨key', rec', List.mem_cons_of_mem _ mem', found⟩
  · rintro ⟨key', rec, mem, found⟩
    rcases List.mem_cons.mp mem with same | mem
    · cases same
      exact ⟨new, List.mem_cons_self, id.trans found.2.1, status.trans found.2.2⟩
    · obtain ⟨rec', mem', named⟩ := (h id' status').mpr ⟨key', rec, mem, found⟩
      exact ⟨rec', List.mem_cons_of_mem _ mem', named⟩

end

namespace Prog
open Program (ret fail)
variable {α : Type} {c : Chrono} {now : Int} {root : String} {I : Disk → Prop} {d d₁ : Disk}

theorem keeps_alike (h : Endures c now root I) {p : Prog α} (leaves : p.Only Call.LeavesRows) (inv : I d) :
    Keeps root p (fun _ => I) I d := by
  have kept {d : Disk} {call : Call} (leaves : call.LeavesRows) (inv : I d) : I (d.exec call).2 :=
    h.alike d _ (exec_alike d leaves) inv
  refine Program.Only.wp (I := I) leaves (fun d call leaves inv => h.housed _ (kept leaves inv)) ?_ inv
  intro d call r d' leaves inv said
  obtain ⟨-, rfl⟩ := Prod.ext_iff.mp said
  exact kept leaves inv

theorem leavesRows_take (peer : DeviceId) (id : String) :
    (takePendingLanding peer id).Only Call.LeavesRows := by
  refine Program.Only.bind (Program.only_ask trivial) fun blob => ?_
  cases blob with
  | none => trivial
  | some blob => exact (Program.Only.attempt (Program.only_ask trivial)).bind fun _ => trivial

/-- A row is read as the row it is, but for what has landed. -/
theorem keeps_withLanding (h : Endures c now root I) {peer : DeviceId} {id : String} {rec : ChatRecord}
    (listed : I d₁) (stored : (d₁.store.rows peer)[id]? = some (some rec)) (inv : I d) :
    Keeps root (withLanding rec) (fun out d' => I d' ∧ out.id = rec.id ∧ out.status = rec.status)
      (fun _ => False) d := by
  rw [withLanding]
  split
  next live =>
    refine keeps_bind (keeps_tried (keeps_alike h (leavesRows_take _ _) inv)) fun landing d' inv => ?_
    rcases landing with _ | _ | ⟨name, size⟩
    · exact ⟨inv, rfl, rfl⟩
    · exact ⟨inv, rfl, rfl⟩
    · show Keeps root (if _ then _ else _) _ _ _
      split
      · have landed := h.land d₁ d' peer id rec name size listed inv stored (inFlight_of_settleable live)
        have made : Keeps root (write (rec.land name size)) (fun _ => I) I d' :=
          keeps_made landed (h.housed _ landed)
        exact keeps_bind (keeps_tried made) fun _ d' inv => ⟨inv, rfl, rfl⟩
      · exact ⟨inv, rfl, rfl⟩
  next => exact ⟨inv, rfl, rfl⟩

theorem keeps_shown (h : Endures c now root I) {peer : DeviceId} {r : Retention}
    {raw : List (String × Option ChatRecord)} (listed : I d₁)
    (stored : ∀ id rec, (id, some rec) ∈ raw → (d₁.store.rows peer)[id]? = some (some rec)) (inv : I d) :
    Keeps root (shown c now false r raw) (fun out d' => I d' ∧ Lists c now r raw out)
      (fun _ => False) d := by
  induction raw generalizing d with
  | nil => exact ⟨inv, fun id status => by simp⟩
  | cons row raw ih =>
    have later := ih (fun id rec mem => stored id rec (List.mem_cons_of_mem _ mem)) inv
    have skip {key : String} {value : Option ChatRecord}
        (hidden : ∀ rec, value = some rec → ¬ Open c now r rec) :
        Keeps root (shown c now false r raw)
          (fun out d' => I d' ∧ Lists c now r ((key, value) :: raw) out) (fun _ => False) d :=
      Program.wp_mono later (fun _ _ h => ⟨h.1, h.2.skip hidden⟩) fun _ _ h => h
    obtain ⟨key, _ | first⟩ := row
    · rw [shown]
      exact skip fun _ none => by cases none
    · rw [shown]
      split
      next gone =>
        refine skip ?_
        rintro _ ⟨⟩ shown
        exact absurd (gone.symm.trans shown.2) (by decide)
      next live =>
        split
        next member =>
          refine skip ?_
          rintro _ ⟨⟩ shown
          rw [shown.1] at member
          cases member
        next alone =>
          have group : first.group = none := by
            cases found : first.group with
            | none => rfl
            | some g => exact absurd (by rw [found]; rfl) alone
          have rest (id : String) (rec : ChatRecord) (mem : (id, some rec) ∈ raw) :=
            stored id rec (List.mem_cons_of_mem _ mem)
          refine keeps_bind (keeps_withLanding h listed (stored key first List.mem_cons_self) inv) ?_
          rintro new d' ⟨inv, named, same⟩
          refine keeps_bind (ih rest inv) ?_
          rintro out d' ⟨inv, lists⟩
          exact ⟨inv, lists.cons ⟨group, Bool.eq_false_iff.mpr live⟩ named same⟩

theorem keeps_retention (housed : Housed root d) (peer : DeviceId) :
    Keeps root (retention peer) (fun r d' => d' = d ∧ d.store.retention peer = .ok r)
      (fun d' => d' = d ∧ ∀ r, d.store.retention peer ≠ .ok r) d := by
  have read : Keeps root (ask (.getWindow peer)) (fun policy d' => d' = d ∧ policy = d.store.windows peer)
      (fun d' => d' = d ∧ ∀ r, d.store.retention peer ≠ .ok r) d :=
    keeps_ask housed (fun _ said => ⟨rfl, (Except.ok.inj said).symm⟩) (by rintro _ ⟨⟩)
  refine keeps_bind read ?_
  rintro policy d ⟨rfl, rfl⟩
  rw [ChatStore.retention]
  rcases d.store.windows peer with _ | _ | r
  · exact ⟨rfl, rfl⟩
  · exact ⟨rfl, by rintro _ ⟨⟩⟩
  · exact ⟨rfl, rfl⟩

/-- The rows that are read are those the private thread shows. -/
theorem keeps_history (h : Endures c now root I) (peer : DeviceId) (inv : I d) :
    Keeps root (history c now peer) (fun out d' => I d' ∧ ∀ id status,
      (∃ rec ∈ out, rec.id = id ∧ rec.status = status) ↔ ∃ rec, (d.store.rows peer)[id]? = some (some rec) ∧
        Visible c now d.store peer rec ∧ rec.status = status)
      (fun d' => I d' ∧ ∀ rec, ¬ Visible c now d.store peer rec) d := by
  have read : Keeps root (ask (.listRows peer)) (fun raw d' => d' = d ∧ raw = (d.store.rows peer).toList)
      (fun d' => I d' ∧ ∀ rec, ¬ Visible c now d.store peer rec) d :=
    keeps_ask (h.housed d inv) (fun _ said => ⟨rfl, (Except.ok.inj said).symm⟩) nofun
  refine keeps_bind read ?_
  rintro raw d ⟨rfl, rfl⟩
  refine keeps_bind (keeps_fails (keeps_retention (h.housed _ inv) peer) ?_) ?_
  · rintro d ⟨rfl, unreadable⟩
    exact ⟨inv, fun rec shown => shown.2.elim fun r open' => unreadable r open'.1⟩
  · rintro r d ⟨rfl, window⟩
    have listed (id : String) (rec : ChatRecord) :
        (id, some rec) ∈ (d.store.rows peer).toList ↔ (d.store.rows peer)[id]? = some (some rec) :=
      Std.ExtTreeMap.mem_toList_iff_getElem?_eq_some
    refine Program.wp_mono (keeps_shown h inv (fun id rec => (listed id rec).mp) inv) ?_ fun _ _ => False.elim
    rintro out d' ⟨inv', lists⟩
    refine ⟨inv', fun id status => (lists id status).trans ⟨?_, ?_⟩⟩
    · rintro ⟨key, rec, mem, shown, rfl, same⟩
      have stored := (listed key rec).mp mem
      obtain ⟨-, rfl⟩ := h.keyed d inv peer key rec stored
      exact ⟨rec, stored, ⟨shown.1, r, window, shown.2⟩, same⟩
    · rintro ⟨rec, stored, ⟨group, r', window', live⟩, same⟩
      cases window.symm.trans window'
      exact ⟨id, rec, (listed id rec).mpr stored, ⟨group, live⟩, (h.keyed d inv peer id rec stored).2, same⟩

/-- Interrupting a row that was in flight when it was listed. -/
theorem keeps_interrupt (h : Endures c now root I) {peer : DeviceId} {id : String} {rec : ChatRecord}
    (listed : I d₁) (stored : (d₁.store.rows peer)[id]? = some (some rec)) (live : rec.status.inFlight)
    (shown : Visible c now d₁.store peer rec) (inv : I d) :
    Keeps root (setStatus peer id .interrupted) (fun _ d' => (I d' ∧ Rests peer id d') ∧
      ∀ other key, Rests other key d → Rests other key d') (fun _ => False) d := by
  obtain ⟨rec', stored'⟩ := h.stands d₁ d peer id rec listed inv stored
  have read : Keeps root (ask (.getRow peer id)) (fun row d' => d' = d ∧ row = (d.store.rows peer)[id]?)
      (fun _ => False) d :=
    keeps_ask (h.housed d inv) (fun _ said => ⟨rfl, (Except.ok.inj said).symm⟩) (by rintro _ ⟨⟩)
  refine keeps_bind read ?_
  rintro row d ⟨rfl, rfl⟩
  rw [stored']
  show Keeps root (append _) _ _ _
  have final : ¬ ({ rec' with status := .interrupted } : ChatRecord).isSettleableFileRow .inn := by
    rw [ChatRecord.isSettleableFileRow]
    simp
  have written := h.interrupt d₁ d peer id rec rec' listed inv stored live shown stored'
  obtain ⟨rfl, rfl⟩ := h.keyed d inv peer id rec' stored'
  have rests (other : DeviceId) (key : String) (before : (rec'.peerId = other ∧ rec'.id = key) ∨ Rests other key d) :
      Rests other key { d with store := d.store.write { rec' with status := .interrupted } } := by
    intro new after
    rw [ChatStore.rows_write] at after
    split at after
    · cases after
      rintro (status | status) <;> cases status
    next away => exact before.elim (fun place => absurd place away) (· new after)
  rw [append, if_neg final]
  refine keeps_ask (h.housed _ written) ?_ (by rintro _ ⟨⟩)
  exact fun _ _ => ⟨⟨written, rests _ _ (.inl ⟨rfl, rfl⟩)⟩, fun other key before => rests other key (.inr before)⟩

theorem keeps_interruptEach (h : Endures c now root I) {peer : DeviceId} {out : List ChatRecord}
    (listed : I d₁) (read : ∀ rec ∈ out, rec.status.inFlight → ∃ first,
      (d₁.store.rows peer)[rec.id]? = some (some first) ∧ first.status.inFlight ∧
        Visible c now d₁.store peer first) (inv : I d) :
    Keeps root (interruptEach peer out) (fun _ d' => I d' ∧
      (∀ other key, Rests other key d → Rests other key d') ∧
      ∀ rec ∈ out, rec.status.inFlight → Rests peer rec.id d') (fun _ => False) d := by
  induction out generalizing d with
  | nil => exact ⟨inv, fun _ _ rests => rests, fun _ none => absurd none List.not_mem_nil⟩
  | cons first out ih =>
    have rest (rec : ChatRecord) (mem : rec ∈ out) := read rec (List.mem_cons_of_mem _ mem)
    rw [interruptEach]
    split
    next live =>
      obtain ⟨rec, stored, live', shown⟩ := read first List.mem_cons_self live
      refine keeps_bind (keeps_interrupt h listed stored live' shown inv) ?_
      rintro _ d' ⟨⟨inv, here⟩, before⟩
      refine keeps_bind (ih rest inv) ?_
      rintro _ d'' ⟨inv, after, all⟩
      refine ⟨inv, fun other key rests => after other key (before other key rests), fun rec mem flies => ?_⟩
      rcases List.mem_cons.mp mem with rfl | mem
      · exact after _ _ here
      · exact all rec mem flies
    next landed =>
      refine Program.wp_mono (ih rest inv) ?_ fun _ _ h => h
      rintro _ d' ⟨inv, after, all⟩
      refine ⟨inv, after, fun rec mem flies => ?_⟩
      rcases List.mem_cons.mp mem with rfl | mem
      · exact absurd flies landed
      · exact all rec mem flies

/-- Every row the thread shows comes to rest. -/
theorem keeps_reconcilePeer (h : Endures c now root I) (peer : DeviceId) (inv : I d) :
    Keeps root (reconcilePeer c now peer).attempt (fun _ d' => I d' ∧
      (∀ other key, Rests other key d → Rests other key d') ∧
      ∀ id rec, (d.store.rows peer)[id]? = some (some rec) → Visible c now d.store peer rec →
        Rests peer id d') (fun _ => False) d := by
  have h' := h.rests fun other key => Rests other key d
  refine keeps_attempt ?_
  refine keeps_bind (keeps_fails (keeps_history h' peer ⟨inv, fun _ _ rests => rests⟩) ?_) ?_
  · rintro d' ⟨⟨inv, kept⟩, hidden⟩ _
    exact ⟨inv, kept, fun id rec _ shown => absurd shown (hidden rec)⟩
  · rintro out d' ⟨inv', same⟩
    have begun : I d ∧ ∀ other key, Rests other key d → Rests other key d := ⟨inv, fun _ _ rests => rests⟩
    refine Program.wp_mono (keeps_interruptEach h' begun (fun rec mem live => ?_) inv') ?_ fun _ _ => False.elim
    · obtain ⟨first, stored, shown, status⟩ := (same rec.id rec.status).mp ⟨rec, mem, rfl, rfl⟩
      exact ⟨first, stored, status ▸ live, shown⟩
    · rintro _ d'' ⟨⟨inv, kept⟩, -, all⟩
      refine ⟨inv, kept, fun id rec stored shown => ?_⟩
      by_cases live : rec.status.inFlight
      · obtain ⟨read, mem, rfl, status⟩ := (same id rec.status).mpr ⟨rec, stored, shown, rfl⟩
        exact all read mem (status ▸ live)
      · refine kept peer id fun rec' stored' => ?_
        cases stored.symm.trans stored'
        exact live

theorem keeps_privateOnes (housed : Housed root d) (peers : List DeviceId) :
    Keeps root (privateOnes peers) (fun out d' => d' = d ∧
      ∀ peer, peer ∈ out ↔ peer ∈ peers ∧ d.store.holdsPrivateRecord peer) (fun _ => False) d := by
  induction peers with
  | nil => exact ⟨rfl, fun peer => by simp⟩
  | cons first peers ih =>
    have looked : Keeps root (holdsPrivateRecord first)
        (fun held d' => d' = d ∧ held = d.store.holdsPrivateRecord first) (fun _ => False) d := by
      have read : Keeps root (ask (.listRows first)).attempt
          (fun r d' => d' = d ∧ r = .ok (d.store.rows first).toList) (fun _ => False) d :=
        keeps_attempt (keeps_ask housed (fun _ said => ⟨rfl, said.symm⟩) nofun)
      refine keeps_bind read ?_
      rintro _ d ⟨rfl, rfl⟩
      exact ⟨rfl, rfl⟩
    refine keeps_bind looked ?_
    rintro _ d ⟨rfl, rfl⟩
    refine keeps_bind ih ?_
    rintro later d ⟨rfl, same⟩
    refine ⟨rfl, fun peer => ?_⟩
    split
    next listed =>
      rw [List.mem_cons, List.mem_cons, same]
      constructor
      · rintro (rfl | ⟨mem, held⟩)
        · exact ⟨.inl rfl, listed⟩
        · exact ⟨.inr mem, held⟩
      · rintro ⟨rfl | mem, held⟩
        · exact .inl rfl
        · exact .inr ⟨mem, held⟩
    next hidden =>
      rw [same, List.mem_cons]
      refine ⟨fun h => ⟨.inr h.1, h.2⟩, ?_⟩
      rintro ⟨rfl | mem, held⟩
      · exact absurd held hidden
      · exact ⟨mem, held⟩

/-- A conversation with a private row is listed. -/
theorem keeps_conversations (housed : Housed root d) :
    Keeps root conversations (fun peers d' => d' = d ∧ ∀ (peer : DeviceId) (id : String) rec,
      (d.store.rows peer)[id]? = some (some rec) → rec.group = none → peer ∈ peers) (fun _ => False) d := by
  have read : Keeps root (ask .namespaces) (fun peers d' => d' = d ∧ peers = d.store.peerNamespaces)
      (fun _ => False) d :=
    keeps_ask housed (fun _ said => ⟨rfl, (Except.ok.inj said).symm⟩) nofun
  refine keeps_bind read ?_
  rintro _ d ⟨rfl, rfl⟩
  refine Program.wp_mono (keeps_privateOnes housed _) ?_ fun _ _ h => h
  rintro out d ⟨rfl, same⟩
  refine ⟨rfl, fun peer id rec stored group => (same peer).mpr ⟨ChatStore.mem_peerNamespaces.mpr ?_,
    ChatStore.holdsPrivateRecord_iff.mpr ⟨id, .inr ⟨rec, stored, group⟩⟩⟩⟩
  refine Std.ExtTreeMap.isEmpty_eq_false_iff.mpr fun empty => ?_
  rw [empty] at stored
  simp at stored

section
variable {d₀ : Disk} (housed : Housed root d₀) (keyed : d₀.store.WellKeyed)
include housed keyed

theorem keeps_reconcileEach (peers : List DeviceId) (calm : Calmed c now d₀ d) :
    Keeps root (reconcileEach c now peers) (fun _ d' => Calmed c now d₀ d' ∧
      (∀ other key, Rests other key d → Rests other key d') ∧
      ∀ peer ∈ peers, ∀ id old, (d₀.store.rows peer)[id]? = some (some old) →
        Visible c now d₀.store peer old → Rests peer id d') (fun _ => False) d := by
  induction peers generalizing d with
  | nil => exact ⟨calm, fun _ _ rests => rests, fun _ none => absurd none List.not_mem_nil⟩
  | cons first peers ih =>
    refine keeps_bind (keeps_reconcilePeer (calmed_endures housed keyed) first calm) ?_
    rintro _ d' ⟨calm', before, here⟩
    refine Program.wp_mono (ih calm') ?_ fun _ _ h => h
    rintro _ d'' ⟨calm'', after, all⟩
    refine ⟨calm'', fun other key rests => after other key (before other key rests), ?_⟩
    intro peer mem id old stored visible
    rcases List.mem_cons.mp mem with rfl | mem
    · obtain ⟨rec, stored', eased⟩ := calm.later stored
      exact after _ _ (here id rec stored' ((calm.shown eased.1).mpr visible))
    · exact all peer mem id old stored visible

/-- Every visible row comes to rest, and no other row changes its status. -/
theorem keeps_reconcileChat : Keeps root (reconcileChat c now) (fun _ d' => Calmed c now d₀ d' ∧
    ∀ peer id old, (d₀.store.rows peer)[id]? = some (some old) → Visible c now d₀.store peer old →
      Rests peer id d') (fun _ => False) d₀ := by
  have listed : Keeps root conversations.attempt (fun r d' => d' = d₀ ∧ ∃ peers, r = .ok peers ∧
      ∀ (peer : DeviceId) (id : String) rec, (d₀.store.rows peer)[id]? = some (some rec) →
        rec.group = none → peer ∈ peers) (fun _ => False) d₀ :=
    keeps_attempt (Program.wp_mono (keeps_conversations housed) (fun peers _ h => ⟨h.1, peers, rfl, h.2⟩)
      fun _ _ => False.elim)
  refine keeps_bind listed ?_
  rintro _ d ⟨rfl, peers, rfl, all⟩
  refine Program.wp_mono (keeps_reconcileEach housed keyed peers (.refl _)) ?_ fun _ _ h => h
  rintro _ d' ⟨calm, -, rests⟩
  exact ⟨calm, fun peer id old stored visible => rests peer (all peer id old stored visible.1) id old stored visible⟩

end

end Prog

def Owned (s : ChatStore) (path : String) : Prop :=
  ∃ (key : String) (e : OutboxEntry) (file : StagedFile), s.outbox[key]? = some (some e) ∧
    e.file = some file ∧ file.stagedPath = path

namespace Prog
open Program (ret fail)
variable {root : String} {d : Disk}

theorem mem_ownedBlobs {raw : List (String × Option OutboxEntry)} {owned : List String}
    (h : ownedBlobs raw = .ok owned) (path : String) : path ∈ owned ↔
      ∃ key e file, (key, some e) ∈ raw ∧ e.file = some file ∧ file.stagedPath = path := by
  induction raw generalizing owned with
  | nil => cases h; simp
  | cons row raw ih =>
    obtain ⟨key, _ | e⟩ := row
    · cases h
    · obtain ⟨later, rest, rfl⟩ := Outcome.ok_of_map h
      rw [List.mem_append, ih rest, Option.mem_toList, Option.map_eq_some_iff]
      constructor
      · rintro (⟨file, own, same⟩ | ⟨key', e', file, mem, own⟩)
        · exact ⟨key, e, file, List.mem_cons_self, own, same⟩
        · exact ⟨key', e', file, List.mem_cons_of_mem _ mem, own⟩
      · rintro ⟨key', e', file, mem, own, same⟩
        rcases List.mem_cons.mp mem with first | mem
        · cases first
          exact .inl ⟨file, own, same⟩
        · exact .inr ⟨key', e', file, mem, own, same⟩

theorem ownedBlobs_ok {raw : List (String × Option OutboxEntry)} (h : ∀ key, (key, none) ∉ raw) :
    ∃ owned, ownedBlobs raw = .ok owned := by
  induction raw with
  | nil => exact ⟨_, rfl⟩
  | cons row raw ih =>
    obtain ⟨key, _ | e⟩ := row
    · exact absurd List.mem_cons_self (h key)
    · obtain ⟨owned, rest⟩ := ih fun key' mem => h key' (List.mem_cons_of_mem _ mem)
      exact ⟨_, by rw [ownedBlobs, rest]; rfl⟩

theorem keeps_sweepEach {keep : List String} (paths : List String) (housed : Housed root d)
    (kept : ∀ path, Owned d.store path → keptBy keep path) :
    Keeps root (sweepEach keep paths) (fun _ d' => Housed root d' ∧ d'.store = d.store ∧
      ∀ path : String, d'.blobs[path]? =
        if path ∈ paths ∧ keptBy keep path = false then none else d.blobs[path]?) (fun _ => False) d := by
  induction paths generalizing d with
  | nil => exact ⟨housed, rfl, fun path => by simp⟩
  | cons first paths ih =>
    rw [sweepEach]
    split
    next own =>
      refine Program.wp_mono (ih housed kept) ?_ fun _ _ h => h
      rintro _ d' ⟨housed, store, blobs⟩
      refine ⟨housed, store, fun path => (blobs path).trans ?_⟩
      by_cases same : path = first
      · subst same
        rw [if_neg fun h => absurd (own.symm.trans h.2) (by decide),
          if_neg fun h => absurd (own.symm.trans h.2) (by decide)]
      · simp [same]
    next loose =>
      have gone : Housed root { d with blobs := d.blobs.erase first } :=
        housed.removeCopy fun key e file queued own same =>
          loose (kept first ⟨key, e, file, queued, own, same.symm⟩)
      have removed : Keeps root (ask (.removeBlob first)) (fun _ d' => d' = { d with
          blobs := d.blobs.erase first }) (fun _ => False) d :=
        keeps_ask gone (fun _ _ => rfl) nofun
      have tried : Keeps root (ask (.removeBlob first)).attempt (fun _ d' => d' = { d with
          blobs := d.blobs.erase first }) (fun _ => False) d :=
        keeps_attempt (Program.wp_mono removed (fun _ _ h => h) fun _ _ => False.elim)
      refine keeps_bind tried ?_
      rintro _ _ rfl
      refine keeps_bind (ih gone kept) ?_
      rintro _ d' ⟨housed, store, blobs⟩
      refine ⟨housed, store, fun path => (blobs path).trans ?_⟩
      rw [SortedMap.get_erase]
      by_cases same : path = first
      · subst same
        rw [if_pos rfl, ite_self, if_pos ⟨List.mem_cons_self, Bool.eq_false_iff.mpr loose⟩]
      · rw [if_neg (Ne.symm same)]
        simp [same]

/-- A copy that is left is one of the queue's. -/
theorem keeps_sweep {owned : List String} (housed : Housed root d)
    (all : ∀ path, path ∈ owned ↔ Owned d.store path) :
    Keeps root (sweep owned) (fun _ d' => Housed root d' ∧ d'.store = d.store ∧
      ∀ path : String, d'.blobs[path]? ≠ none → Owned d.store path) (fun _ => False) d := by
  have named {path : String} (own : Owned d.store path) : keptBy owned path := by
    obtain ⟨key, e, file, queued, isFile, rfl⟩ := own
    have place := fileName_blobPath (housed.whole key e file queued isFile).1
    rw [keptBy, place, Option.any_some, List.contains_iff_mem, List.mem_filterMap]
    exact ⟨file.stagedPath, (all _).mpr ⟨key, e, file, queued, isFile, rfl⟩, place⟩
  have read : Keeps root (ask .listBlobs).attempt (fun r d' => d' = d ∧ r = .ok d.blobs.keys)
      (fun _ => False) d :=
    keeps_attempt (keeps_ask housed (fun _ said => ⟨rfl, said.symm⟩) nofun)
  refine keeps_bind read ?_
  rintro _ d ⟨rfl, rfl⟩
  refine Program.wp_mono (keeps_sweepEach d.blobs.keys housed fun path own => named own) ?_ fun _ _ h => h
  rintro _ d' ⟨housed', store, blobs⟩
  refine ⟨housed', store, fun path there => ?_⟩
  rw [blobs path] at there
  split at there
  · exact absurd rfl there
  next still =>
    have mem : path ∈ d.blobs.keys :=
      Std.ExtTreeMap.mem_keys.mpr (Std.ExtTreeMap.isSome_getElem?_iff_mem.mp (Option.isSome_iff_ne_none.mpr there))
    obtain ⟨id, place⟩ := housed.placed path there
    have kept : keptBy owned path = true := by
      by_contra lost
      exact still ⟨mem, Bool.eq_false_iff.mpr lost⟩
    -- the copy has the file name of an owned one, and both stand where their names say
    rw [keptBy, fileName_blobPath place, Option.any_some, List.contains_iff_mem, List.mem_filterMap] at kept
    obtain ⟨own, mem', same⟩ := kept
    obtain ⟨key, e, file, queued, isFile, rfl⟩ := (all own).mp mem'
    have place' := (housed.whole key e file queued isFile).1
    rw [fileName_blobPath place', Option.some.injEq] at same
    obtain rfl := String.toList_injective same
    exact ⟨key, e, file, queued, isFile, Option.some.inj (place'.symm.trans place)⟩

/-- What a start makes of the store is what the reconcile makes of it, and the sweep spares the queue. -/
theorem keeps_startup {c : Chrono} {now : Int} (housed : Housed root d) (keyed : d.store.WellKeyed) :
    Keeps root (startup c now) (fun _ d' => Housed root d' ∧ ∃ d₁, Calmed c now d d₁ ∧
      (∀ peer id old, (d.store.rows peer)[id]? = some (some old) → Visible c now d.store peer old →
        Rests peer id d₁) ∧ d'.store = d₁.store ∧
      ((∀ key : String, d.store.outbox[key]? ≠ some none) →
        ∀ path : String, d'.blobs[path]? ≠ none → Owned d'.store path)) (fun _ => False) d := by
  refine keeps_bind (keeps_reconcileChat housed keyed) ?_
  rintro _ d₁ ⟨calm, rests⟩
  have housed₁ := (calmed_endures housed keyed).housed d₁ calm
  have read : Keeps root (ask .listOutbox) (fun raw d' => d' = d₁ ∧ raw = d₁.store.outbox.toList)
      (fun _ => False) d₁ :=
    keeps_ask housed₁ (fun _ said => ⟨rfl, (Except.ok.inj said).symm⟩) nofun
  have listed : Keeps root outboxOwnedBlobs.attempt
      (fun r d' => d' = d₁ ∧ r.toOption = (ownedBlobs d₁.store.outbox.toList).toOption)
      (fun _ => False) d₁ := by
    refine keeps_attempt (keeps_bind (keeps_fails read fun _ => False.elim) ?_)
    rintro _ d ⟨rfl, rfl⟩
    cases ownedBlobs d.store.outbox.toList with
    | error e => exact fun _ => ⟨rfl, rfl⟩
    | ok owned => exact ⟨rfl, rfl⟩
  have entry {key : String} {value : Option OutboxEntry} :
      (key, value) ∈ d₁.store.outbox.toList ↔ d₁.store.outbox[key]? = some value :=
    Std.ExtTreeMap.mem_toList_iff_getElem?_eq_some
  refine keeps_bind listed ?_
  rintro r d₁ ⟨rfl, same⟩
  cases r with
  | error e =>
    refine ⟨housed₁, d₁, calm, rests, rfl, fun readable => ?_⟩
    obtain ⟨owned, ok⟩ := ownedBlobs_ok fun key mem => readable key (calm.outbox ▸ entry.mp mem)
    rw [ok] at same
    cases same
  | ok owned =>
    have ok : ownedBlobs d₁.store.outbox.toList = .ok owned := by
      cases listed : ownedBlobs d₁.store.outbox.toList with
      | error e => rw [listed] at same; cases same
      | ok owned' => rw [listed] at same; cases same; rfl
    have all (path : String) : path ∈ owned ↔ Owned d₁.store path := by
      rw [mem_ownedBlobs ok, Owned]
      simp only [entry]
    refine keeps_bind (keeps_sweep housed₁ all) ?_
    rintro _ d' ⟨housed', store, swept⟩
    exact ⟨housed', d₁, calm, rests, store, fun _ => by rw [store]; exact swept⟩

end Prog

def Awaited (s : ChatStore) (peer : DeviceId) (id : String) : Prop :=
  ∃ (key : String) (e : OutboxEntry), s.outbox[key]? = some (some e) ∧ e.peerId = peer ∧
    e.kind ≠ .decline ∧ e.messageId = id

/-- A file is being copied, or on its way. -/
def Status.inProgress (status : Status) : Prop := status = .staging ∨ status.inFlight

def Readable (s : ChatStore) : Prop := ∀ key : String, s.outbox[key]? ≠ some none

def Deletable (d : Disk) (peer : DeviceId) (id : String) : Prop :=
  ∃ out d', (Prog.deleteMessages peer [id]).run Disk.exec d = (.ok out, d') ∧
    (d'.store.rows peer)[id]? = none

def Complete (d : Disk) : Prop :=
  ∀ (key : String) (e : OutboxEntry), d.store.outbox[key]? = some (some e) → e.kind = .file →
    ∃ file bytes, e.file = some file ∧ d.blobs[file.stagedPath]? = some bytes ∧ bytes.length = file.size

structure Recovered (d : Disk) : Prop where
  owned : ∀ path : String, d.blobs[path]? ≠ none → Owned d.store path
  settled : ∀ (peer : DeviceId) (id : String) (rec : ChatRecord),
    (d.store.rows peer)[id]? = some (some rec) → rec.status.inProgress → Awaited d.store peer id
  free : ∀ (peer : DeviceId) (id : String), (d.store.rows peer)[id]? ≠ none →
    Awaited d.store peer id ∨ Deletable d peer id

/-- A row in progress is queued for, or it is past the copying and its thread shows it. -/
def Recoverable (c : Chrono) (now : Int) (s : ChatStore) : Prop :=
  ∀ (peer : DeviceId) (id : String) (rec : ChatRecord), (s.rows peer)[id]? = some (some rec) →
    rec.status.inProgress → Awaited s peer id ∨ rec.status ≠ .staging ∧ Visible c now s peer rec

theorem Housed.complete {root : String} {d : Disk} (h : Housed root d) : Complete d := by
  intro key e queued isFile
  obtain ⟨file, own⟩ := Option.isSome_iff_exists.mp (h.owns key e queued isFile)
  obtain ⟨-, bytes, there, length⟩ := h.whole key e file queued own
  exact ⟨file, bytes, own, there, length⟩

theorem deletable_of_not_kept {d : Disk} (readable : Readable d.store) {peer : DeviceId} {id : String}
    (stands : (d.store.rows peer)[id]? ≠ none) (loose : ¬ d.store.Kept peer id) : Deletable d peer id := by
  obtain ⟨keep, rule⟩ := KeepRule.of_ok peer fun key mem =>
    readable key (Std.ExtTreeMap.mem_toList_iff_getElem?_eq_some.mp mem)
  obtain ⟨removed, kept, doomed, run, gone, -⟩ := Prog.run_deleteEach d peer keep [] [id]
  refine ⟨(removed, kept), d.without peer doomed, ?_, ?_⟩
  · rw [Prog.deleteMessages, Program.run_bind, Prog.run_establish, rule]
    exact run
  · obtain ⟨value, stored⟩ := Option.ne_none_iff_exists'.mp stands
    rw [Disk.rows_without, if_pos]
    refine ⟨rfl, (gone id).mpr ⟨List.mem_singleton_self id, List.not_mem_nil, value, stored, ?_⟩⟩
    rw [← KeepRule.keeps_iff rule stored] at loose
    exact Bool.eq_false_iff.mpr loose

theorem Recovered.recoverable {c : Chrono} {now : Int} {d d' d₁ : Disk} (calm : Calmed c now d d₁)
    (store : d'.store = d₁.store) (h : Recovered d') : Recoverable c now d.store := by
  have queue : d'.store.outbox = d.store.outbox := by rw [store, calm.outbox]
  intro peer id rec stored busy
  obtain ⟨rec', stored', eased⟩ := calm.later stored
  rw [← store] at stored'
  rcases eased.2 with same | ⟨live, visible, -⟩
  · have awaited := h.settled peer id rec' stored' (same ▸ busy)
    rw [Awaited, queue] at awaited
    exact .inl awaited
  · refine .inr ⟨fun staging => ?_, visible⟩
    rw [staging] at live
    rcases live with status | status <;> cases status

theorem Recoverable.recovered {c : Chrono} {now : Int} {d d' d₁ : Disk} (calm : Calmed c now d d₁)
    (rests : ∀ peer id old, (d.store.rows peer)[id]? = some (some old) → Visible c now d.store peer old →
      Rests peer id d₁) (store : d'.store = d₁.store) (readable : Readable d.store)
    (swept : ∀ path : String, d'.blobs[path]? ≠ none → Owned d'.store path)
    (h : Recoverable c now d.store) : Recovered d' := by
  have queue : d'.store.outbox = d.store.outbox := by rw [store, calm.outbox]
  have settled (peer : DeviceId) (id : String) (rec : ChatRecord)
      (stored : (d'.store.rows peer)[id]? = some (some rec)) (busy : rec.status.inProgress) :
      Awaited d'.store peer id := by
    rw [store] at stored
    obtain ⟨old, before, eased⟩ := calm.first stored
    have same : rec.status = old.status := by
      rcases eased.2 with same | ⟨-, -, done⟩
      · exact same
      · rw [done] at busy
        rcases busy with status | status | status <;> cases status
    rw [Awaited, queue]
    rcases h peer id old before (same ▸ busy) with awaited | ⟨past, visible⟩
    · exact awaited
    · rcases busy with staging | live
      · exact absurd (same.symm.trans staging) past
      · exact absurd live (rests peer id old before visible rec stored)
  refine ⟨swept, settled, fun peer id stands => ?_⟩
  by_cases kept : d'.store.Kept peer id
  · refine .inl (kept.elim (fun awaited => awaited) ?_)
    rintro ⟨rec, stored, staging⟩
    exact settled peer id rec stored (.inl staging)
  · refine .inr (deletable_of_not_kept (fun key => ?_) stands kept)
    rw [queue]
    exact readable key

/-- Wherever files being sent are cut off, a start leaves every queued file its whole copy; and it leaves
nothing that no one comes back to exactly where what was in progress is queued for or shown. -/
theorem file_queue_survives (c : Chrono) (now : Int) (root : String) (errands : List Errand) (d₀ : Disk)
    (distinct : (errands.filterMap Errand.staged).Nodup)
    (ready : Ready root (errands.filterMap Errand.staged) d₀) (keyed : d₀.store.WellKeyed) (n : ℕ) :
    let d := (Prog.inTurn (errands.map (Errand.program c root))).cut Disk.exec n d₀
    let d' := ((Prog.startup c now).run Disk.exec d).2
    Complete d' ∧ (Readable d.store → (Recovered d' ↔ Recoverable c now d.store)) := by
  intro d d'
  have housed : Housed root d := housed_cut c distinct ready n
  have keyed' : d.store.WellKeyed :=
    Program.cut_invariant (I := fun d : Disk => d.store.WellKeyed) (fun _ call h => h.exec call) _ keyed n
  have started := Program.run_of_wp (fun _ d' => Housed root d' ∧ ∃ d₁, Calmed c now d d₁ ∧
    (∀ peer id old, (d.store.rows peer)[id]? = some (some old) → Visible c now d.store peer old →
      Rests peer id d₁) ∧ d'.store = d₁.store ∧ (Readable d.store →
      ∀ path : String, d'.blobs[path]? ≠ none → Owned d'.store path))
    (Program.wp_mono (@Prog.keeps_startup root d c now housed keyed') (fun _ _ h => h)
      fun _ _ => False.elim)
  obtain ⟨housed', d₁, calm, rests, store, swept⟩ := started
  exact ⟨housed'.complete, fun readable => ⟨fun h => h.recoverable calm store,
    fun h => h.recovered calm rests store readable (swept readable)⟩⟩

private def clock : Chrono := ⟨fun _ => none, fun now secs => some (now - secs * 1000000000), 0⟩

private def photo : FileRef := ⟨"f", "2026-01-01T00:00:00Z", "a.txt", 3⟩

private def blank : Disk := ⟨.empty, ∅⟩

private def picked : List Errand := [.begin 0 "ann" photo "/home/a.txt"]

private def share : List Errand :=
  [.begin 0 "ann" photo "/home/a.txt", .stage 0 "ann" photo (.copied "a.txt" [[1, 2, 3]] false)]

/-- The crash falls after the row of the file was written and before anything was copied. -/
theorem staging_row_stranded :
    let d := (Prog.inTurn (picked.map (Errand.program clock "/data/outbox-blobs"))).cut Disk.exec 1 blank
    let d' := ((Prog.startup clock 1).run Disk.exec d).2
    (d'.store.rows "ann")["f"]? = some (some (.fileOut 0 "ann" photo ⟨"a.txt", 3, some "/home/a.txt"⟩ .staging)) ∧
      d'.store.outbox["f"]? = none ∧
      ((Prog.deleteMessages "ann" ["f"]).run Disk.exec d').1 = .ok (0, ["f"]) ∧ ¬ Recovered d' := by
  intro d d'
  have row : (d'.store.rows "ann")["f"]? =
      some (some (.fileOut 0 "ann" photo ⟨"a.txt", 3, some "/home/a.txt"⟩ .staging)) := by decide
  have empty : d'.store.outbox.toList = [] := by decide
  refine ⟨row, by decide, by decide, fun recovered => ?_⟩
  obtain ⟨key, e, queued, -⟩ := recovered.settled "ann" "f" _ row (.inl rfl)
  have mem := Std.ExtTreeMap.mem_toList_iff_getElem?_eq_some.mpr queued
  rw [empty] at mem
  cases mem

private theorem blank_ready (root : String) (ids : List String) : Ready root ids blank := by
  refine ⟨⟨?_, ?_, ?_, ?_⟩, fun id _ => ?_⟩ <;> simp [blank, ChatStore.empty]

private theorem blank_keyed : blank.store.WellKeyed := by
  intro peer id rec stored
  simp [blank, ChatStore.empty, ChatStore.rows] at stored

/-- The theorem where the crash falls between the entry of the queue and the row. -/
theorem queued_file_survives :
    let d := (Prog.inTurn (share.map (Errand.program clock "/data/outbox-blobs"))).cut Disk.exec 6 blank
    let d' := ((Prog.startup clock 1).run Disk.exec d).2
    Complete d' ∧ (Readable d.store → (Recovered d' ↔ Recoverable clock 1 d.store)) :=
  file_queue_survives clock 1 "/data/outbox-blobs" share blank (by decide) (blank_ready _ _) blank_keyed 6

end PeerBeam.Chat
