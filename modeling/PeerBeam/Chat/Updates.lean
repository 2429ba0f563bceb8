import PeerBeam.Chat.Calls

/-! The calls that change one row in place, and what each of them writes: the row it last saw with its
own edit, and with what has landed meanwhile. -/
namespace PeerBeam.Chat

/-- A call that loads a row, edits a field and writes the row back. -/
inductive Update
  | receipt (peer : DeviceId) (readThrough stamp : String)
  | reaction (stamp : String) (peer : DeviceId) (targetId emoji : String) (side : Direction)
      (remove : Bool)
  | status (peer : DeviceId) (id : String) (status : Status)
  | sent (e : OutboxEntry)
  | settle (peer : DeviceId) (id : String) (expected : Direction) (status : Status)
  | path (peer : DeviceId) (id : String) (expected : Direction) (localPath : String)
  | landing (peer : DeviceId) (id : String) (expected : Direction) (name : String) (size : Nat)

inductive Reply
  | unit
  | count (n : Nat)
  | changed (done : Bool)
  | landing (landing : Prog.Landing)
  deriving DecidableEq

structure Job where
  now : Int
  update : Update

open Program (ret) in
def Job.program (c : Chrono) (j : Job) : Prog Reply :=
  match j.update with
  | .receipt peer readThrough stamp => do
    let n ← Prog.applyReceipt c j.now peer readThrough stamp
    ret (.count n)
  | .reaction stamp peer targetId emoji side remove => do
    let done ← Prog.applyReaction c j.now stamp peer targetId emoji side remove
    ret (.changed done)
  | .status peer id status => do
    Prog.setStatus peer id status
    ret .unit
  | .sent e => do
    Prog.recordSent j.now e
    ret .unit
  | .settle peer id expected status => do
    let done ← Prog.settleFileRow c j.now peer id expected status
    ret (.changed done)
  | .path peer id expected localPath => do
    let done ← Prog.setFileRowPath c j.now peer id expected localPath
    ret (.changed done)
  | .landing peer id expected name size => do
    let landing ← Prog.setFileRowLanding c j.now peer id expected name size
    ret (.landing landing)

abbrev Heard := Asked Call Call.Answer CallError

def see (peer : DeviceId) (id : String) (seen : Option (Option (Option ChatRecord))) (a : Heard) :
    Option (Option (Option ChatRecord)) :=
  match a with
  | ⟨.getRow p i, .ok row⟩ => if p = peer ∧ i = id then some row else seen
  | ⟨.listRows p, .ok rows⟩ => if p = peer then some (rows.lookup id) else seen
  | ⟨.putRow rec, .ok _⟩ => if rec.peerId = peer ∧ rec.id = id then some (some (some rec)) else seen
  | _ => seen

def lastSeen (asked : List Heard) (peer : DeviceId) (id : String) :
    Option (Option (Option ChatRecord)) :=
  asked.foldl (see peer id) none

@[simp]
theorem lastSeen_push (asked : List Heard) (a : Heard) (peer : DeviceId) (id : String) :
    lastSeen (asked ++ [a]) peer id = see peer id (lastSeen asked peer id) a := by
  rw [lastSeen, List.foldl_append]
  rfl

def Told (asked : List Heard) (peer : DeviceId) (id : String) (name : String) (size : Nat) : Prop :=
  ⟨.getLanding peer id, .ok (some (some (name, size)))⟩ ∈ asked

/-- The landings a call holds for the row after one more answer. -/
def hold (peer : DeviceId) (id : String) (held : List (String × Nat)) (a : Heard) : List (String × Nat) :=
  match a with
  | ⟨.getLanding p i, .ok (some (some landing))⟩ => if p = peer ∧ i = id then landing :: held else held
  | ⟨.putRow rec, .ok _⟩ => if rec.peerId = peer ∧ rec.id = id then [] else held
  | _ => held

/-- What a call has read of landings parked for the row since it last wrote the row. -/
def held (asked : List Heard) (peer : DeviceId) (id : String) : List (String × Nat) :=
  asked.foldl (hold peer id) []

@[simp]
theorem held_push (asked : List Heard) (a : Heard) (peer : DeviceId) (id : String) :
    held (asked ++ [a]) peer id = hold peer id (held asked peer id) a := by
  rw [held, List.foldl_append]
  rfl

/-- A call after which nothing is parked for the row, unless it has failed to take away what is. -/
def empties (peer : DeviceId) (id : String) : Heard → Prop
  | ⟨.getLanding p i, r⟩ => p = peer ∧ i = id ∧ ∀ landing, r ≠ .ok (some landing)
  | ⟨.deleteLanding p i, _⟩ => p = peer ∧ i = id
  | _ => False

def Emptied (asked : List Heard) (peer : DeviceId) (id : String) : Prop :=
  ∃ a ∈ asked, empties peer id a

/-- A landing read once the slot had been emptied. -/
def Late (asked : List Heard) (peer : DeviceId) (id : String) (landing : String × Nat) : Prop :=
  ∃ pre post, asked = pre ++ ⟨.getLanding peer id, .ok (some (some landing))⟩ :: post ∧
    Emptied pre peer id

def Landed (landings : List (String × Nat)) (old new : ChatRecord) : Prop :=
  new = old ∨ old.isSettleableFileRow .inn ∧
    ∃ landing ∈ landings, new = old.land landing.1 landing.2

inductive Edits : Update → ChatRecord → ChatRecord → Prop
  | receipt {old : ChatRecord} {readThrough : String} (stamp : String) (own : old.direction = .out)
      (covered : ¬ readThrough < old.id) :
      Edits (.receipt old.peerId readThrough stamp) old { old with readAt := some stamp }
  | add (old : ChatRecord) (stamp emoji : String) (side : Direction) :
      Edits (.reaction stamp old.peerId old.id emoji side false) old
        { old with reactions := old.reactions ++ [⟨emoji, side, stamp⟩] }
  | remove {old : ChatRecord} (stamp : String) {emoji : String} {side : Direction} {i : Nat}
      (found : old.reactions.findIdx? (fun r => r.emoji = emoji && r.by = side) = some i) :
      Edits (.reaction stamp old.peerId old.id emoji side true) old
        { old with reactions := old.reactions.eraseIdx i }
  | status (old : ChatRecord) (status : Status) :
      Edits (.status old.peerId old.id status) old { old with status := status }
  | sent {old : ChatRecord} {e : OutboxEntry} (own : e.peerId = old.peerId) (key : e.messageId = old.id) :
      Edits (.sent e) old { old with status := .sent }
  | settle {old : ChatRecord} {expected : Direction} (status : Status)
      (live : old.isSettleableFileRow expected) :
      Edits (.settle old.peerId old.id expected status) old { old with status := status }
  | path {old : ChatRecord} (expected : Direction) (localPath : String) {file : FileMeta}
      (isFile : old.file = some file) : Edits (.path old.peerId old.id expected localPath) old
        { old with file := some { file with localPath := some localPath } }
  | landing {old : ChatRecord} {expected : Direction} (name : String) (size : Nat)
      (live : old.isSettleableFileRow expected) (isFile : old.file.isSome) :
      Edits (.landing old.peerId old.id expected name size) old (old.land name size)

/-- A write over a row: what has landed goes in, alone or around the edit. -/
inductive Writes (landings : List (String × Nat)) (u : Update) : ChatRecord → ChatRecord → Prop
  | corrects {old new : ChatRecord} (landed : Landed landings old new) : Writes landings u old new
  | edits {old a b new : ChatRecord} (before : Landed landings old a) (edit : Edits u a b)
      (after : Landed landings b new) : Writes landings u old new

/-- What no update of a row changes, and a read mark is not taken back. -/
structure Frame (old new : ChatRecord) : Prop where
  id : new.id = old.id
  peerId : new.peerId = old.peerId
  direction : new.direction = old.direction
  timestamp : new.timestamp = old.timestamp
  body : new.body = old.body
  kind : new.kind = old.kind
  inReplyTo : new.inReplyTo = old.inReplyTo
  group : new.group = old.group
  storedAt : new.storedAt = old.storedAt
  isFile : new.file.isSome = old.file.isSome
  read : old.readAt.isSome → new.readAt.isSome

namespace Frame
variable {a b c : ChatRecord}

theorem refl (rec : ChatRecord) : Frame rec rec :=
  ⟨rfl, rfl, rfl, rfl, rfl, rfl, rfl, rfl, rfl, rfl, fun h => h⟩

theorem trans (first : Frame a b) (second : Frame b c) : Frame a c :=
  ⟨second.id.trans first.id, second.peerId.trans first.peerId, second.direction.trans first.direction,
    second.timestamp.trans first.timestamp, second.body.trans first.body,
    second.kind.trans first.kind, second.inReplyTo.trans first.inReplyTo,
    second.group.trans first.group, second.storedAt.trans first.storedAt,
    second.isFile.trans first.isFile, fun h => second.read (first.read h)⟩

theorem ageBasis (h : Frame a b) (c : Chrono) : b.ageBasis c = a.ageBasis c := by
  rw [ChatRecord.ageBasis, h.storedAt, h.timestamp]
  rfl

theorem hasDisappeared (h : Frame a b) (c : Chrono) (r : Retention) (now : Int) :
    b.hasDisappeared c r now = a.hasDisappeared c r now := by
  rw [ChatRecord.hasDisappeared, h.ageBasis c]
  rfl

end Frame

theorem Landed.frame {landings : List (String × Nat)} {old new : ChatRecord}
    (h : Landed landings old new) : Frame old new := by
  rcases h with rfl | ⟨_, landing, _, rfl⟩
  · exact .refl _
  · refine { Frame.refl old with isFile := ?_ }
    rw [ChatRecord.land]
    exact Option.isSome_map

theorem Edits.frame {u : Update} {old new : ChatRecord} (h : Edits u old new) : Frame old new := by
  cases h with
  | receipt => exact { Frame.refl old with read := fun _ => rfl }
  | add | remove | status | sent | settle => exact { Frame.refl old with }
  | path expected localPath isFile => exact { Frame.refl old with isFile := by rw [isFile]; rfl }
  | landing =>
    refine { Frame.refl old with isFile := ?_ }
    rw [ChatRecord.land]
    exact Option.isSome_map

theorem Writes.frame {landings : List (String × Nat)} {u : Update} {old new : ChatRecord}
    (h : Writes landings u old new) : Frame old new := by
  cases h with
  | corrects landed => exact landed.frame
  | edits before edit after => exact (before.frame.trans edit.frame).trans after.frame

def Present (emoji : String) (side : Direction) (rec : ChatRecord) : Prop :=
  ∃ r ∈ rec.reactions, r.emoji = emoji ∧ r.by = side

def Lands (name : String) (size : Nat) (rec : ChatRecord) : Prop :=
  ∃ file, rec.file = some file ∧ file.name = displayName name ∧ file.size = size

def SavedAs (localPath : String) (rec : ChatRecord) : Prop :=
  ∃ file, rec.file = some file ∧ file.localPath = some localPath

theorem land_file {rec : ChatRecord} {file : FileMeta} (h : rec.file = some file) (name : String)
    (size : Nat) : (rec.land name size).file = some { file with name := displayName name, size := size } := by
  rw [ChatRecord.land, h]
  rfl

theorem Lands.land {rec : ChatRecord} (isFile : rec.file.isSome) (name : String) (size : Nat) :
    Lands name size (rec.land name size) := by
  obtain ⟨file, isFile⟩ := Option.isSome_iff_exists.mp isFile
  exact ⟨_, land_file isFile name size, rfl, rfl⟩

/-- What landing keeps and the edit keeps a write keeps. -/
theorem Writes.carries {landings : List (String × Nat)} {u : Update} {old new : ChatRecord}
    (h : Writes landings u old new) {P : ChatRecord → Prop} {peer : DeviceId} {id : String}
    (own : old.peerId = peer) (key : old.id = id) (here : P old)
    (land : ∀ rec : ChatRecord, rec.isSettleableFileRow .inn → rec.direction = old.direction →
      ∀ landing ∈ landings, P rec → P (rec.land landing.1 landing.2))
    (edit : ∀ a b : ChatRecord, a.peerId = peer → a.id = id → Edits u a b → P a → P b) : P new := by
  have landed {a b : ChatRecord} (l : Landed landings a b) (side : a.direction = old.direction)
      (ha : P a) : P b := by
    rcases l with rfl | ⟨live, landing, mem, rfl⟩
    · exact ha
    · exact land a live side landing mem ha
  cases h with
  | corrects l => exact landed l rfl here
  | edits before e after =>
    have frame := before.frame
    exact landed after (e.frame.direction.trans frame.direction)
      (edit _ _ (frame.peerId.trans own) (frame.id.trans key) e (landed before rfl here))

theorem Edits.saves {u : Update} {old new : ChatRecord} (h : Edits u old new) {peer : DeviceId}
    {id localPath : String} {expected : Direction} (job : u = .path peer id expected localPath) :
    SavedAs localPath new := by
  cases h with
  | path =>
    cases job
    exact ⟨_, rfl, rfl⟩
  | receipt | add | remove | status | sent | settle | landing => cases job

theorem Edits.sets {u : Update} {old new : ChatRecord} (h : Edits u old new) {peer : DeviceId}
    {id name : String} {size : Nat} {expected : Direction}
    (job : u = .landing peer id expected name size) : Lands name size new := by
  cases h with
  | landing name size live isFile =>
    cases job
    exact .land isFile name size
  | receipt | add | remove | status | sent | settle | path => cases job

/-- Only withdrawing the reaction loses it. -/
theorem Edits.present {u : Update} {old new : ChatRecord} (h : Edits u old new) {emoji : String}
    {side : Direction} (here : Present emoji side old)
    (other : ∀ stamp, u ≠ .reaction stamp old.peerId old.id emoji side true) :
    Present emoji side new := by
  cases h with
  | add =>
    obtain ⟨r, mem, same⟩ := here
    exact ⟨r, List.mem_append_left _ mem, same⟩
  | @remove _ stamp emoji' side' i found =>
    obtain ⟨r, mem, key, own⟩ := here
    obtain ⟨j, bound, rfl⟩ := List.mem_iff_getElem.mp mem
    obtain ⟨bound', there, _⟩ := List.findIdx?_eq_some_iff_getElem.mp found
    refine ⟨_, List.mem_eraseIdx_iff_getElem.mpr ⟨j, bound, fun same => ?_, rfl⟩, key, own⟩
    subst same
    simp only [Bool.and_eq_true, decide_eq_true_eq] at there
    rw [key, own] at there
    obtain ⟨rfl, rfl⟩ := there
    exact other stamp rfl
  | receipt | status | sent | settle | path | landing => exact here

/-- Only another path replaces a path. -/
theorem Edits.savedAs {u : Update} {old new : ChatRecord} (h : Edits u old new) {localPath : String}
    (here : SavedAs localPath old)
    (other : ∀ expected path, u ≠ .path old.peerId old.id expected path) : SavedAs localPath new := by
  cases h with
  | path => exact absurd rfl (other _ _)
  | landing name size =>
    obtain ⟨file, isFile, saved⟩ := here
    exact ⟨_, land_file isFile name size, saved⟩
  | receipt | add | remove | status | sent | settle => exact here

/-- Only another landing replaces a landing. -/
theorem Edits.lands {u : Update} {old new : ChatRecord} (h : Edits u old new) {name : String}
    {size : Nat} (here : Lands name size old)
    (other : ∀ expected name size, u ≠ .landing old.peerId old.id expected name size) :
    Lands name size new := by
  cases h with
  | landing => exact absurd rfl (other _ _ _)
  | path expected localPath isFile =>
    obtain ⟨file, isFile', same⟩ := here
    cases isFile.symm.trans isFile'
    exact ⟨_, rfl, same⟩
  | receipt | add | remove | status | sent | settle => exact here

/-- The calls that write a status without asking for the one they replace. -/
def Update.forces (peer : DeviceId) (id : String) (status : Status) : Update → Prop
  | .status p i s => p = peer ∧ i = id ∧ s = status
  | .sent e => e.peerId = peer ∧ e.messageId = id ∧ status = .sent
  | _ => False

def Update.settles : Update → Bool
  | .settle .. => true
  | _ => false

/-- A row as it may be found in a run from `s₀`: under its own key, and the row that stood there. -/
def Related (s₀ : ChatStore) (peer : DeviceId) (id : String) (row : Option (Option ChatRecord)) : Prop :=
  (∀ rec, row = some (some rec) → rec.peerId = peer ∧ rec.id = id) ∧
    ∀ first, (s₀.rows peer)[id]? = some (some first) → ∃ rec, row = some (some rec) ∧ Frame first rec

/-- What an update may hear: rows of the run; where it settles, no other row the second time. -/
def allowed (s₀ : ChatStore) (u : Update) (asked : List Heard) (call : Call)
    (r : Except CallError call.Answer) : Prop :=
  match call, r with
  | .getRow peer id, .ok row => Related s₀ peer id row ∧
      (u.settles → ∀ seen, lastSeen asked peer id = some seen → row = seen)
  | .listRows peer, .ok rows => (rows.Pairwise fun a b => a.1 ≠ b.1) ∧
      ∀ id, Related s₀ peer id (rows.lookup id)
  | .getWindow peer, .ok policy => policy = s₀.windows peer
  | _, _ => True

/-- What an update does: it writes over the row it last saw, deletes none, and parks its own landing. -/
def must (u : Update) (asked : List Heard) : Call → Prop
  | .putRow rec => ∃ seen, lastSeen asked rec.peerId rec.id = some seen ∧
      ∀ old, seen = some (some old) → Writes (held asked rec.peerId rec.id) u old rec
  | .deleteRow _ _ => False
  | .putLanding peer id name size => ∃ expected, u = .landing peer id expected name size
  | _ => True

def Wrote (asked : List Heard) (peer : DeviceId) (id : String) (P : ChatRecord → Prop) : Prop :=
  ∃ pre rec, asked = pre ++ [⟨.putRow rec, .ok ()⟩] ∧ rec.peerId = peer ∧ rec.id = id ∧ P rec

/-- The rows a receipt is for: our own in the private thread, up to the watermark, still shown. -/
def Covered (c : Chrono) (s₀ : ChatStore) (now : Int) (peer : DeviceId) (readThrough : String)
    (rec : ChatRecord) : Prop :=
  rec.direction = .out ∧ ¬ readThrough < rec.id ∧ rec.group = none ∧
    ∀ r, s₀.retention peer = .ok r → rec.hasDisappeared c r now = false

def returned (c : Chrono) (s₀ : ChatStore) (j : Job) (reply : Reply) (asked : List Heard) : Prop :=
  match j.update, reply with
  | .receipt peer readThrough _, .count _ => ∀ id first, (s₀.rows peer)[id]? = some (some first) →
      Covered c s₀ j.now peer readThrough first →
      ∃ rec, lastSeen asked peer id = some (some (some rec)) ∧ rec.readAt.isSome
  | .reaction _ peer id emoji side false, .changed true => Wrote asked peer id (Present emoji side)
  | .settle peer id expected status, .changed true => ∃ pre rec old,
      asked = pre ++ [⟨.putRow rec, .ok ()⟩] ∧ rec.peerId = peer ∧ rec.id = id ∧ rec.status = status ∧
        lastSeen pre peer id = some (some (some old)) ∧ old.isSettleableFileRow expected
  | .path peer id _ localPath, .changed true => ∀ first, (s₀.rows peer)[id]? = some (some first) →
      first.file.isSome → Wrote asked peer id (SavedAs localPath)
  | .landing peer id _ name size, .landing .applied =>
      Wrote asked peer id fun rec =>
        (Lands name size rec ∨ ∃ landing, Late asked peer id landing ∧ Lands landing.1 landing.2 rec) ∧
          (rec.direction = .inn → Emptied asked peer id)
  | _, _ => True

namespace Prog
open Program (ret fail)
variable (c : Chrono) (s₀ : ChatStore) (u : Update)

abbrev Tells {α : Type} (p : Prog α) (post : α → List Heard → Prop) (asked : List Heard) : Prop :=
  p.wp (Pool.Hears (allowed s₀ u)) (must u) post (fun _ _ => True) asked

/-- More calls, none of which looks at a row or writes one. -/
structure Quiet (asked asked' : List Heard) : Prop where
  more : asked <+: asked'
  seen : ∀ peer id, lastSeen asked' peer id = lastSeen asked peer id
  held : ∀ peer id, held asked peer id ⊆ held asked' peer id

variable {s₀ u} {asked asked' asked'' : List Heard}

theorem Quiet.refl (asked : List Heard) : Quiet asked asked :=
  ⟨List.prefix_rfl, fun _ _ => rfl, fun _ _ _ mem => mem⟩

theorem Quiet.trans (first : Quiet asked asked') (second : Quiet asked' asked'') :
    Quiet asked asked'' :=
  ⟨first.more.trans second.more, fun peer id => (second.seen peer id).trans (first.seen peer id),
    fun peer id => List.Subset.trans (first.held peer id) (second.held peer id)⟩

theorem emptied_mono (more : asked <+: asked') {peer : DeviceId} {id : String}
    (h : Emptied asked peer id) : Emptied asked' peer id := by
  obtain ⟨a, mem, clear⟩ := h
  exact ⟨a, more.subset mem, clear⟩

theorem late_mono (more : asked <+: asked') {peer : DeviceId} {id : String} {landing : String × Nat}
    (h : Late asked peer id landing) : Late asked' peer id landing := by
  obtain ⟨rest, rfl⟩ := more
  obtain ⟨pre, post, rfl, clear⟩ := h
  refine ⟨pre, post ++ rest, ?_, clear⟩
  rw [List.append_assoc, List.cons_append]

section
variable {landings landings' : List (String × Nat)}

theorem landed_mono (more : landings ⊆ landings') {old new : ChatRecord} (h : Landed landings old new) :
    Landed landings' old new := by
  rcases h with same | ⟨live, landing, mem, same⟩
  · exact .inl same
  · exact .inr ⟨live, landing, more mem, same⟩

theorem landed_out {old new : ChatRecord} (h : Landed landings old new) (own : old.direction = .out) :
    new = old := by
  rcases h with same | ⟨live, _⟩
  · exact same
  · rw [ChatRecord.isSettleableFileRow, own] at live
    simp at live

theorem live_direction {rec : ChatRecord} {side : Direction} (live : rec.isSettleableFileRow side) :
    rec.direction = side := by
  rw [ChatRecord.isSettleableFileRow, Bool.and_eq_true, Bool.and_eq_true, decide_eq_true_eq,
    decide_eq_true_eq] at live
  exact live.1.2

theorem landed_settleable {old new : ChatRecord} (h : Landed landings old new) (side : Direction) :
    new.isSettleableFileRow side = old.isSettleableFileRow side := by
  rcases h with rfl | ⟨_, landing, _, rfl⟩ <;> rfl

end

section
variable {α β : Type} {post : α → List Heard → Prop}

theorem tells_mono {p : Prog α} {post' : α → List Heard → Prop} (h : Tells s₀ u p post asked)
    (weaker : ∀ a asked', post a asked' → post' a asked') : Tells s₀ u p post' asked :=
  Program.wp_mono h weaker fun _ _ h => h

theorem tells_bind {p : Prog α} {f : α → Prog β} {last : β → List Heard → Prop}
    (h : Tells s₀ u p post asked) (later : ∀ a asked', post a asked' → Tells s₀ u (f a) last asked') :
    Tells s₀ u (p >>= f) last asked :=
  Program.wp_bind.mpr (Program.wp_mono h later fun _ _ h => h)

end

theorem tells_ask {call : Call} {post : call.Answer → List Heard → Prop} (needs : must u asked call)
    (heard : ∀ a, allowed s₀ u asked call (.ok a) → post a (asked ++ [⟨call, .ok a⟩])) :
    Tells s₀ u (ask call) post asked :=
  Program.wp_ask.mpr ⟨needs, fun a _ h => h.2 ▸ heard a h.1, fun _ _ _ => trivial⟩

/-- A call that neither looks at a row nor writes one. -/
theorem quiet_push {a : Heard} (quiet : ∀ peer id seen, see peer id seen a = seen) :
    Quiet asked (asked ++ [a]) := by
  refine ⟨List.prefix_append .., fun peer id => by rw [lastSeen_push, quiet], fun peer id landing mem => ?_⟩
  rw [held_push, hold.eq_def]
  split
  · split
    · exact List.mem_cons_of_mem _ mem
    · exact mem
  next rec _ =>
    by_cases place : rec.peerId = peer ∧ rec.id = id
    · cases (quiet peer id none).symm.trans (if_pos place)
    · rw [if_neg place]
      exact mem
  · exact mem

theorem tells_retention (peer : DeviceId) :
    Tells s₀ u (retention peer) (fun r asked' => Quiet asked asked' ∧ s₀.retention peer = .ok r)
      asked := by
  have read : Tells s₀ u (ask (.getWindow peer))
      (fun policy asked' => Quiet asked asked' ∧ policy = s₀.windows peer) asked :=
    tells_ask trivial fun policy known => ⟨quiet_push fun _ _ _ => rfl, known⟩
  refine tells_bind read ?_
  rintro policy asked' ⟨quiet, rfl⟩
  rw [ChatStore.retention]
  rcases s₀.windows peer with _ | _ | r
  · exact ⟨quiet, rfl⟩
  · exact trivial
  · exact ⟨quiet, rfl⟩

theorem tells_takePendingLanding (peer : DeviceId) (id : String) :
    (takePendingLanding peer id).wp (Pool.Hears (allowed s₀ u)) (must u)
      (fun landing asked' => Quiet asked asked' ∧ Emptied asked' peer id ∧
        ∀ l, landing = some l → l ∈ held asked' peer id ∧
          (Emptied asked peer id → Late asked' peer id l))
      (fun _ asked' => Quiet asked asked' ∧ Emptied asked' peer id) asked := by
  rw [takePendingLanding, Program.wp_bind]
  have last {before : List Heard} {a : Heard} (h : empties peer id a) : Emptied (before ++ [a]) peer id :=
    ⟨a, List.mem_append_right _ List.mem_cons_self, h⟩
  refine Program.wp_ask.mpr ⟨trivial, ?_, ?_⟩
  · rintro blob _ ⟨-, rfl⟩
    have read : Quiet asked (asked ++ [⟨.getLanding peer id, .ok blob⟩]) := quiet_push fun _ _ _ => rfl
    cases blob with
    | none =>
      exact ⟨read, last ⟨rfl, rfl, fun _ none => by cases none⟩, fun _ none => by cases none⟩
    | some blob =>
      have taken {l : String × Nat} (r : Except CallError Bool) (same : blob = some l) :
          l ∈ held (asked ++ [⟨.getLanding peer id, .ok (some blob)⟩] ++
              [⟨.deleteLanding peer id, r⟩]) peer id ∧
            (Emptied asked peer id → Late (asked ++ [⟨.getLanding peer id, .ok (some blob)⟩] ++
              [⟨.deleteLanding peer id, r⟩]) peer id l) := by
        subst same
        refine ⟨?_, fun before => ⟨asked, [⟨.deleteLanding peer id, r⟩], ?_, before⟩⟩
        · rw [held_push]
          show l ∈ held (asked ++ [_]) peer id
          rw [held_push, hold, if_pos ⟨rfl, rfl⟩]
          exact List.mem_cons_self
        · rw [List.append_assoc]
          rfl
      refine Program.wp_bind.mpr (Program.wp_attempt.mpr (Program.wp_ask.mpr ⟨trivial, ?_, ?_⟩))
      · rintro gone _ ⟨-, rfl⟩
        exact ⟨read.trans (quiet_push fun _ _ _ => rfl), last ⟨rfl, rfl⟩, fun l => taken _⟩
      · rintro e _ ⟨-, rfl⟩
        exact ⟨read.trans (quiet_push fun _ _ _ => rfl), last ⟨rfl, rfl⟩, fun l => taken _⟩
  · rintro e _ ⟨-, rfl⟩
    exact ⟨quiet_push fun _ _ _ => rfl, last ⟨rfl, rfl, fun _ none => by cases none⟩⟩

theorem tells_write {rec : ChatRecord} (needs : must u asked (.putRow rec)) :
    (write rec).wp (Pool.Hears (allowed s₀ u)) (must u)
      (fun _ asked' => asked' = asked ++ [⟨.putRow rec, .ok ()⟩]) (fun _ asked' => Quiet asked asked')
      asked := by
  refine Program.wp_ask.mpr ⟨needs, ?_, ?_⟩
  · rintro ⟨⟩ _ ⟨-, rfl⟩
    rfl
  · rintro e _ ⟨-, rfl⟩
    exact quiet_push fun _ _ _ => rfl

/-- The last call writes the record, with what has landed, and later than it was emptied away. -/
def Appends (asked asked' : List Heard) (b : ChatRecord) : Prop :=
  ∃ pre new, asked' = pre ++ [⟨.putRow new, .ok ()⟩] ∧ Quiet asked pre ∧
    Landed (held pre b.peerId b.id) b new ∧ (new = b ∨ b.isSettleableFileRow .inn ∧
      ∃ landing, (Emptied asked b.peerId b.id → Late pre b.peerId b.id landing) ∧
        new = b.land landing.1 landing.2)

/-- An edit of the row that was last seen. -/
theorem tells_append (b : ChatRecord) {seen : Option (Option ChatRecord)}
    (last : lastSeen asked b.peerId b.id = some seen)
    (edit : ∀ old, seen = some (some old) →
      ∃ a, Landed (held asked b.peerId b.id) old a ∧ Edits u a b) :
    Tells s₀ u (append b) (fun _ asked' => Appends asked asked' b) asked := by
  have written {pre : List Heard} {new : ChatRecord} (quiet : Quiet asked pre)
      (landed : Landed (held pre b.peerId b.id) b new)
      (late : new = b ∨ b.isSettleableFileRow .inn ∧
        ∃ landing, (Emptied asked b.peerId b.id → Late pre b.peerId b.id landing) ∧
          new = b.land landing.1 landing.2) :
      Tells s₀ u (write new) (fun _ asked' => Appends asked asked' b) pre := by
    have needs : must u pre (.putRow new) := by
      refine ⟨seen, ?_, fun old same => ?_⟩
      · rw [quiet.seen, landed.frame.peerId, landed.frame.id]
        exact last
      · obtain ⟨a, before, edit⟩ := edit old same
        rw [landed.frame.peerId, landed.frame.id]
        exact .edits (landed_mono (quiet.held ..) before) edit landed
    exact Program.wp_mono (tells_write needs) (fun _ _ same => ⟨pre, new, same, quiet, landed, late⟩)
      fun _ _ _ => trivial
  rw [append]
  split
  next live =>
    refine tells_bind (Program.wp_mono (tells_takePendingLanding b.peerId b.id) (fun _ _ h => h)
      fun _ _ _ => trivial) ?_
    rintro (_ | landing) pre ⟨quiet, -, taken⟩
    · exact written quiet (.inl rfl) (.inl rfl)
    · obtain ⟨mem, late⟩ := taken landing rfl
      exact written quiet (.inr ⟨live, landing, mem, rfl⟩) (.inr ⟨live, landing, late, rfl⟩)
  next => exact written (.refl asked) (.inl rfl) (.inl rfl)

/-- More calls, which leave a row as it was last seen and take no landing of it. -/
def Leaves (asked asked' : List Heard) (peer : DeviceId) (id : String) : Prop :=
  lastSeen asked' peer id = lastSeen asked peer id ∧ held asked peer id ⊆ held asked' peer id

theorem Quiet.leaves (h : Quiet asked asked') (peer : DeviceId) (id : String) :
    Leaves asked asked' peer id :=
  ⟨h.seen peer id, h.held peer id⟩

theorem Leaves.trans {peer : DeviceId} {id : String} (first : Leaves asked asked' peer id)
    (second : Leaves asked' asked'' peer id) : Leaves asked asked'' peer id :=
  ⟨second.1.trans first.1, List.Subset.trans first.2 second.2⟩

theorem leaves_putRow {rec : ChatRecord} {r : Except CallError Unit} {peer : DeviceId} {id : String}
    (other : ¬ (rec.peerId = peer ∧ rec.id = id)) :
    Leaves asked (asked ++ [⟨.putRow rec, r⟩]) peer id := by
  rw [Leaves, lastSeen_push, held_push]
  cases r with
  | error e => exact ⟨rfl, List.Subset.refl _⟩
  | ok done =>
    refine ⟨if_neg other, ?_⟩
    rw [hold, if_neg other]
    exact List.Subset.refl _

/-- What a read leaves: the row as it is stored now, and as it is shown. -/
structure Shown (asked asked' : List Heard) (rec rec' old : ChatRecord) : Prop where
  more : asked <+: asked'
  seen : lastSeen asked' rec.peerId rec.id = some (some (some old))
  drift : ∃ landings, Landed landings rec old
  shown : Landed (held asked' rec.peerId rec.id) old rec'
  emptied : rec'.isSettleableFileRow .inn → Emptied asked' rec.peerId rec.id
  rest : ∀ peer id, ¬ (rec.peerId = peer ∧ rec.id = id) → Leaves asked asked' peer id

theorem tells_withLanding {rec : ChatRecord}
    (last : lastSeen asked rec.peerId rec.id = some (some (some rec))) :
    Tells s₀ u (withLanding rec) (fun rec' asked' => ∃ old, Shown asked asked' rec rec' old) asked := by
  have same {pre : List Heard} (quiet : Quiet asked pre)
      (emptied : rec.isSettleableFileRow .inn → Emptied pre rec.peerId rec.id) :
      Shown asked pre rec rec rec :=
    ⟨quiet.more, by rw [quiet.seen]; exact last, ⟨[], .inl rfl⟩, .inl rfl, emptied,
      fun peer id _ => quiet.leaves peer id⟩
  rw [withLanding]
  split
  next live =>
    refine Program.wp_bind.mpr (Program.wp_attempt.mpr ?_)
    refine Program.wp_mono (tells_takePendingLanding rec.peerId rec.id) ?_ ?_
    · rintro (_ | ⟨name, size⟩) pre ⟨quiet, emptied, taken⟩
      · exact ⟨rec, same quiet fun _ => emptied⟩
      · have landed : Landed (held pre rec.peerId rec.id) rec (rec.land name size) :=
          .inr ⟨live, (name, size), (taken _ rfl).1, rfl⟩
        show Tells s₀ u (if _ then _ else _) _ pre
        split
        · refine Program.wp_bind.mpr (Program.wp_attempt.mpr (Program.wp_mono (tells_write ?_) ?_ ?_))
          · refine ⟨some (some rec), ?_, fun old stored => ?_⟩
            · rw [quiet.seen]
              exact last
            · cases stored
              exact .corrects landed
          · rintro _ _ rfl
            refine ⟨rec.land name size, quiet.more.trans (List.prefix_append ..), ?_, ⟨_, landed⟩,
              .inl rfl, fun _ => emptied_mono (List.prefix_append ..) emptied, fun peer id other => ?_⟩
            · rw [lastSeen_push]
              exact if_pos ⟨rfl, rfl⟩
            · exact (quiet.leaves peer id).trans (leaves_putRow other)
          · rintro e pre' quiet'
            have both := quiet.trans quiet'
            exact ⟨rec, { same both fun _ => emptied_mono quiet'.more emptied with
              shown := landed_mono (quiet'.held ..) landed
              emptied := fun _ => emptied_mono quiet'.more emptied }⟩
        · exact ⟨rec, same quiet fun _ => emptied⟩
    · rintro e pre ⟨quiet, emptied⟩
      exact ⟨rec, same quiet fun _ => emptied⟩
  next still => exact ⟨rec, same (.refl asked) fun live => absurd live still⟩

section
variable (now : Int)

/-- A row that is looked up, once. -/
theorem tells_getRow (peer : DeviceId) (id : String) :
    Tells s₀ u (ask (.getRow peer id)) (fun row asked' => asked <+: asked' ∧
      lastSeen asked' peer id = some row ∧ Related s₀ peer id row ∧
      (u.settles → ∀ seen, lastSeen asked peer id = some seen → row = seen)) asked := by
  refine tells_ask trivial fun row heard => ⟨List.prefix_append .., ?_, heard⟩
  rw [lastSeen_push]
  exact if_pos ⟨rfl, rfl⟩

/-- What a lookup tells: of a row, how it is stored and shown; of none, that it has disappeared if it
stood there at first. -/
def Got (s₀ : ChatStore) (peer : DeviceId) (id : String) (asked' : List Heard) : Option ChatRecord → Prop
  | none => ∀ first, (s₀.rows peer)[id]? = some (some first) →
      ∃ r, s₀.retention peer = .ok r ∧ first.hasDisappeared c r now = true
  | some rec => rec.peerId = peer ∧ rec.id = id ∧ ∃ old,
      lastSeen asked' peer id = some (some (some old)) ∧ Landed (held asked' peer id) old rec ∧
      (rec.isSettleableFileRow .inn → Emptied asked' peer id) ∧
      (∀ first, (s₀.rows peer)[id]? = some (some first) → Frame first old) ∧
      ∃ r, s₀.retention peer = .ok r ∧ old.hasDisappeared c r now = false

theorem tells_get (peer : DeviceId) (id : String) :
    Tells s₀ u (get c now peer id) (fun row asked' => Got c now s₀ peer id asked' row) asked := by
  refine tells_bind (tells_getRow peer id) ?_
  rintro (_ | _ | rec) read ⟨more, seen, ⟨keyed, frame⟩, -⟩
  · intro first stood
    obtain ⟨_, none, _⟩ := frame first stood
    cases none
  · exact trivial
  · obtain ⟨rfl, rfl⟩ := keyed rec rfl
    refine tells_bind (p := retention rec.peerId) (tells_retention rec.peerId) ?_
    rintro r pre ⟨quiet, window⟩
    have first_frame : ∀ first, (s₀.rows rec.peerId)[rec.id]? = some (some first) → Frame first rec := by
      intro first stood
      obtain ⟨_, same, frame⟩ := frame first stood
      cases same
      exact frame
    split
    next gone =>
      intro first stood
      exact ⟨r, window, (first_frame first stood).hasDisappeared c r now ▸ gone⟩
    next live =>
      refine tells_bind (tells_withLanding (by rw [quiet.seen]; exact seen)) ?_
      rintro rec' asked' ⟨old, shown⟩
      obtain ⟨landings, drifted⟩ := shown.drift
      have drift := drifted.frame
      refine ⟨shown.shown.frame.peerId.trans drift.peerId, shown.shown.frame.id.trans drift.id, old,
        shown.seen, shown.shown, shown.emptied, fun first stood => (first_frame first stood).trans drift,
        r, window, ?_⟩
      rw [drift.hasDisappeared]
      exact Bool.eq_false_iff.mpr live

theorem appends_wrote {b : ChatRecord} (h : Appends asked asked' b) {P : ChatRecord → Prop} (here : P b)
    (land : ∀ name size, P b → P (b.land name size)) : Wrote asked' b.peerId b.id P := by
  obtain ⟨pre, new, rfl, _, landed, -⟩ := h
  refine ⟨pre, new, rfl, landed.frame.peerId, landed.frame.id, ?_⟩
  rcases landed with rfl | ⟨_, ⟨name, size⟩, _, rfl⟩
  · exact here
  · exact land name size here

/-- A check that passes has seen the row in flight. -/
theorem tells_settleable (peer : DeviceId) (id : String) (expected : Direction) :
    Tells s₀ u (settleable c now peer id expected) (fun pass asked' => pass = true → ∃ old,
      lastSeen asked' peer id = some (some (some old)) ∧ old.isSettleableFileRow expected ∧
      old.peerId = peer ∧ old.id = id ∧
      (∀ first, (s₀.rows peer)[id]? = some (some first) → Frame first old) ∧
      ∃ r, s₀.retention peer = .ok r ∧ old.hasDisappeared c r now = false) asked := by
  refine tells_bind (tells_get c now peer id) ?_
  rintro (_ | rec) asked' got
  · intro none
    cases none
  · intro pass
    obtain ⟨own, key, old, seen, landed, -, frame, live⟩ := got
    refine ⟨old, seen, (landed_settleable landed expected).symm.trans pass, ?_, ?_, frame, live⟩
    · rw [← landed.frame.peerId, own]
    · rw [← landed.frame.id, key]

theorem tells_setStatus (peer : DeviceId) (id : String) (status : Status)
    (edit : ∀ old, old.peerId = peer → old.id = id →
      (u.settles → ∀ seen, lastSeen asked peer id = some seen → some (some old) = seen) →
      Edits u old { old with status := status }) :
    Tells s₀ u (setStatus peer id status) (fun _ asked' => ∀ old, u.settles →
      lastSeen asked peer id = some (some (some old)) → ∃ pre rec, asked' = pre ++ [⟨.putRow rec, .ok ()⟩] ∧
        rec.peerId = peer ∧ rec.id = id ∧ rec.status = status ∧
        lastSeen pre peer id = some (some (some old))) asked := by
  refine tells_bind (tells_getRow peer id) ?_
  rintro (_ | _ | rec) read ⟨_, seen, ⟨keyed, _⟩, again⟩
  · intro old settles last
    cases again settles _ last
  · exact trivial
  · obtain ⟨rfl, rfl⟩ := keyed rec rfl
    refine tells_mono (tells_append { rec with status := status } seen ?_) ?_
    · rintro old ⟨⟩
      exact ⟨rec, .inl rfl, edit rec rfl rfl again⟩
    · rintro - asked' ⟨pre, new, rfl, quiet, landed, -⟩ old settles last
      cases again settles _ last
      refine ⟨pre, new, rfl, landed.frame.peerId, landed.frame.id, ?_, (quiet.seen ..).trans seen⟩
      rcases landed with rfl | ⟨_, _, _, rfl⟩ <;> rfl

theorem tells_settleFileRow (peer : DeviceId) (id : String) (expected : Direction) (status : Status)
    (job : u = .settle peer id expected status) :
    Tells s₀ u (settleFileRow c now peer id expected status) (fun done asked' => done = true →
      ∃ pre rec old, asked' = pre ++ [⟨.putRow rec, .ok ()⟩] ∧ rec.peerId = peer ∧ rec.id = id ∧
        rec.status = status ∧ lastSeen pre peer id = some (some (some old)) ∧
        old.isSettleableFileRow expected) asked := by
  subst job
  refine tells_bind (tells_settleable c now peer id expected) ?_
  rintro (_ | _) checked pass
  · intro none
    cases none
  · obtain ⟨old, seen, live, own, key, -, -⟩ := pass rfl
    refine tells_bind (tells_setStatus peer id status fun rec own key again => ?_) ?_
    · cases again rfl _ seen
      subst own key
      exact .settle status live
    · intro _ asked' written _
      obtain ⟨pre, rec, last, own, key, same, before⟩ := written old rfl seen
      exact ⟨pre, rec, old, last, own, key, same, before, live⟩

theorem tells_applyReaction (stamp : String) (peer : DeviceId) (targetId emoji : String)
    (side : Direction) (remove : Bool) (job : u = .reaction stamp peer targetId emoji side remove) :
    Tells s₀ u (applyReaction c now stamp peer targetId emoji side remove) (fun done asked' =>
      done = true → remove = false → Wrote asked' peer targetId (Present emoji side)) asked := by
  subst job
  refine tells_bind (tells_get c now peer targetId) ?_
  rintro (_ | rec) asked' got
  · intro none
    cases none
  · obtain ⟨rfl, rfl, old, seen, landed, -, -, -⟩ := got
    dsimp only
    cases found : rec.reactions.findIdx? (fun r => r.emoji = emoji && r.by = side) with
    | none =>
      cases remove with
      | true => exact fun none => by cases none
      | false =>
        refine tells_bind (tells_append _ seen fun old' same => ?_) ?_
        · cases same
          exact ⟨rec, landed, .add rec stamp emoji side⟩
        · intro _ asked'' written _ _
          refine appends_wrote written (P := Present emoji side) ?_ fun _ _ here => here
          exact ⟨_, List.mem_append_right _ List.mem_cons_self, rfl, rfl⟩
    | some i =>
      cases remove with
      | false => exact fun none => by cases none
      | true =>
        refine tells_bind (tells_append _ seen fun old' same => ?_) ?_
        · cases same
          exact ⟨rec, landed, .remove stamp found⟩
        · exact fun _ _ _ _ none => by cases none

theorem tells_setFileRowPath (peer : DeviceId) (id : String) (expected : Direction)
    (localPath : String) (job : u = .path peer id expected localPath) :
    Tells s₀ u (setFileRowPath c now peer id expected localPath) (fun done asked' => done = true →
      ∀ first, (s₀.rows peer)[id]? = some (some first) → first.file.isSome →
        Wrote asked' peer id (SavedAs localPath)) asked := by
  subst job
  have save (checked : List Heard) : Tells s₀ (.path peer id expected localPath)
      (setFilePath c now peer id localPath) (fun _ asked' => ∀ first,
        (s₀.rows peer)[id]? = some (some first) → first.file.isSome →
        (∃ r, s₀.retention peer = .ok r ∧ first.hasDisappeared c r now = false) →
        Wrote asked' peer id (SavedAs localPath)) checked := by
    refine tells_bind (tells_get c now peer id) ?_
    rintro (_ | rec) asked' got
    · rintro first stood _ ⟨r, window, live⟩
      obtain ⟨r', window', gone⟩ := got first stood
      cases window.symm.trans window'
      cases live.symm.trans gone
    · obtain ⟨rfl, rfl, old, seen, landed, -, frame, -⟩ := got
      dsimp only
      cases isFile : rec.file with
      | none =>
        intro first stood has
        rw [← (frame first stood).isFile, ← landed.frame.isFile, isFile] at has
        cases has
      | some file =>
        refine tells_mono (tells_append _ seen fun old' same => ?_) fun _ asked'' written first _ _ _ => ?_
        · cases same
          exact ⟨rec, landed, .path expected localPath isFile⟩
        · refine appends_wrote written (P := SavedAs localPath) ⟨_, rfl, rfl⟩ ?_
          rintro name size ⟨file', isFile', saved⟩
          exact ⟨_, land_file isFile' name size, saved⟩
  refine tells_bind (tells_settleable c now peer id expected) ?_
  rintro (_ | _) checked pass
  · intro none
    cases none
  · obtain ⟨old, -, -, -, -, frame, r, window, live⟩ := pass rfl
    refine tells_bind (save checked) fun _ asked' written _ first stood has => ?_
    refine written first stood has ⟨r, window, ?_⟩
    rw [← (frame first stood).hasDisappeared]
    exact live

theorem tells_setFileRowLanding (peer : DeviceId) (id : String) (expected : Direction) (name : String)
    (size : Nat) (job : u = .landing peer id expected name size) :
    Tells s₀ u (setFileRowLanding c now peer id expected name size) (fun landing asked' =>
      landing = .applied → Wrote asked' peer id fun rec =>
        (Lands name size rec ∨
          ∃ landing, Late asked' peer id landing ∧ Lands landing.1 landing.2 rec) ∧
        (rec.direction = .inn → Emptied asked' peer id)) asked := by
  subst job
  rw [setFileRowLanding]
  split
  · exact fun none => nomatch none
  · refine tells_bind (tells_get c now peer id) ?_
    rintro (_ | rec) asked' got
    · have park : Tells s₀ (.landing peer id expected name size) (ask (.putLanding peer id name size))
          (fun _ _ => True) asked' := tells_ask ⟨expected, rfl⟩ fun _ _ => trivial
      exact tells_bind park fun _ _ _ none => nomatch none
    · obtain ⟨rfl, rfl, old, seen, landed, emptied, -, -⟩ := got
      show Tells s₀ _ (if _ then _ else _) _ asked'
      split
      next pass =>
        obtain ⟨live, isFile⟩ := Bool.and_eq_true_iff.mp pass
        refine tells_bind (tells_append (rec.land name size) seen fun old' same => ?_) ?_
        · cases same
          exact ⟨rec, landed, .landing name size live isFile⟩
        · rintro - _ ⟨pre, new, rfl, quiet, after, late⟩ -
          have more : asked' <+: pre ++ [⟨.putRow new, .ok ()⟩] :=
            quiet.more.trans (List.prefix_append ..)
          refine ⟨pre, new, rfl, after.frame.peerId, after.frame.id, ?_, fun side => ?_⟩
          · rcases late with rfl | ⟨inn, landing, late, rfl⟩
            · exact .inl (.land isFile name size)
            · refine .inr ⟨landing, late_mono (List.prefix_append ..) (late (emptied inn)), ?_⟩
              refine .land ?_ _ _
              rw [ChatRecord.land]
              exact Option.isSome_map.trans isFile
          · refine emptied_mono more (emptied ?_)
            have own : rec.direction = .inn := after.frame.direction.symm.trans side
            have same : rec.direction = expected := live_direction live
            rw [← own, same]
            exact live
      next => exact fun none => nomatch none

theorem tells_recordSent (e : OutboxEntry) (job : u = .sent e) :
    Tells s₀ u (recordSent now e) (fun _ _ => True) asked := by
  subst job
  refine tells_bind (tells_getRow e.peerId e.messageId) ?_
  rintro (_ | _ | rec) read ⟨_, seen, ⟨keyed, _⟩, -⟩
  · have rebuilt (kind : Kind) (file : Option FileMeta) : Tells s₀ (.sent e)
        (append { id := e.messageId, peerId := e.peerId, direction := .out, timestamp := e.timestamp,
                  body := e.body, status := .sent, kind := kind, file := file,
                  inReplyTo := e.inReplyTo, group := e.group, storedAt := some now })
        (fun _ _ => True) read :=
      tells_mono (tells_append _ seen fun _ none => by cases none) fun _ _ _ => trivial
    dsimp only
    rcases e.kind with _ | _ | _
    · exact rebuilt ..
    · cases e.file <;> exact rebuilt ..
    · exact trivial
  · exact trivial
  · obtain ⟨own, key⟩ := keyed rec rfl
    refine tells_mono (tells_append { rec with status := .sent } (by
      show lastSeen read rec.peerId rec.id = _
      rw [own, key]
      exact seen) fun old same => ?_) fun _ _ _ => trivial
    cases same
    exact ⟨rec, .inl rfl, .sent own.symm key.symm⟩

/-- The rows shown of a list are those last seen, and our own in the private thread are all among
them. -/
structure Listed (peer : DeviceId) (r : Retention) (asked asked' : List Heard)
    (rows : List (String × Option ChatRecord)) (recs : List ChatRecord) : Prop where
  all : ∀ rec ∈ recs, (∃ value, (rec.id, value) ∈ rows) ∧ rec.peerId = peer ∧ ∃ old,
    lastSeen asked' peer rec.id = some (some (some old)) ∧ Landed (held asked' peer rec.id) old rec
  differ : recs.Pairwise fun a b => a.id ≠ b.id
  rest : ∀ id, (∀ value, (id, value) ∉ rows) → Leaves asked asked' peer id
  whole : ∀ key rec, (key, some rec) ∈ rows → rec.direction = .out → rec.group = none →
    rec.hasDisappeared c r now = false → rec ∈ recs

theorem Listed.skip {peer : DeviceId} {r : Retention} {rows : List (String × Option ChatRecord)}
    {recs : List ChatRecord} (h : Listed c now peer r asked asked' rows recs) {key : String}
    {value : Option ChatRecord} (hidden : ∀ rec, value = some rec → rec.group = none →
      rec.hasDisappeared c r now = false → False) :
    Listed c now peer r asked asked' ((key, value) :: rows) recs where
  all rec mem := by
    obtain ⟨⟨v, listed⟩, here⟩ := h.all rec mem
    exact ⟨⟨v, List.mem_cons_of_mem _ listed⟩, here⟩
  differ := h.differ
  rest id absent := h.rest id fun v mem => absent v (List.mem_cons_of_mem _ mem)
  whole k rec mem own single live := by
    rcases List.mem_cons.mp mem with same | mem
    · cases same
      exact (hidden rec rfl single live).elim
    · exact h.whole k rec mem own single live

theorem tells_shown (peer : DeviceId) (r : Retention) {rows : List (String × Option ChatRecord)}
    (distinct : rows.Pairwise fun a b => a.1 ≠ b.1)
    (seen : ∀ key value, (key, value) ∈ rows → lastSeen asked peer key = some (some value))
    (keyed : ∀ key rec, (key, some rec) ∈ rows → rec.peerId = peer ∧ rec.id = key) :
    Tells s₀ u (shown c now false r rows) (fun recs asked' => Listed c now peer r asked asked' rows recs)
      asked := by
  induction rows generalizing asked with
  | nil =>
    exact ⟨fun _ mem => absurd mem List.not_mem_nil, .nil, fun id _ => (Quiet.refl asked).leaves peer id,
      fun _ _ mem => absurd mem List.not_mem_nil⟩
  | cons row rows ih =>
    obtain ⟨key, value⟩ := row
    obtain ⟨first, later⟩ := List.pairwise_cons.mp distinct
    have keyed' : ∀ key rec, (key, some rec) ∈ rows → rec.peerId = peer ∧ rec.id = key :=
      fun k rec mem => keyed k rec (List.mem_cons_of_mem _ mem)
    have skip := ih later (fun k v mem => seen k v (List.mem_cons_of_mem _ mem)) keyed'
    rcases value with _ | rec
    · exact tells_mono skip fun _ _ h => h.skip c now fun _ none => nomatch none
    · rw [shown]
      split
      next gone =>
        refine tells_mono skip fun _ _ h => h.skip c now fun rec' same _ live => ?_
        cases same
        cases gone.symm.trans live
      next =>
        split
        next grouped =>
          refine tells_mono skip fun _ _ h => h.skip c now fun rec' same single _ => ?_
          cases same
          rw [single] at grouped
          cases grouped
        next =>
          obtain ⟨rfl, rfl⟩ := keyed key rec List.mem_cons_self
          refine tells_bind (tells_withLanding (seen _ _ List.mem_cons_self)) ?_
          rintro rec' asked₁ ⟨old, read⟩
          obtain ⟨landings, drift⟩ := read.drift
          have own : rec'.peerId = rec.peerId := read.shown.frame.peerId.trans drift.frame.peerId
          have key : rec'.id = rec.id := read.shown.frame.id.trans drift.frame.id
          refine tells_bind (ih later (fun k v mem => ?_) keyed') ?_
          · rw [(read.rest _ _ fun same => first _ mem same.2).1]
            exact seen k v (List.mem_cons_of_mem _ mem)
          intro recs asked' h
          have unlisted : ∀ value, (rec.id, value) ∉ rows := fun v mem => first _ mem rfl
          refine ⟨fun other mem => ?_, ?_, fun id absent => ?_, ?_⟩
          · rcases List.mem_cons.mp mem with rfl | mem
            · refine ⟨⟨some rec, key ▸ List.mem_cons_self⟩, own, old, ?_, ?_⟩
              · rw [key, (h.rest _ unlisted).1]
                exact read.seen
              · rw [key]
                exact landed_mono (h.rest _ unlisted).2 read.shown
            · obtain ⟨⟨v, listed⟩, here⟩ := h.all other mem
              exact ⟨⟨v, List.mem_cons_of_mem _ listed⟩, here⟩
          · refine List.pairwise_cons.mpr ⟨fun other mem same => ?_, h.differ⟩
            obtain ⟨⟨v, listed⟩, _⟩ := h.all other mem
            exact unlisted v (by rw [← key, same]; exact listed)
          · refine .trans (read.rest _ _ fun same => absent (some rec) ?_)
              (h.rest id fun v mem => absent v (List.mem_cons_of_mem _ mem))
            rw [← same.2]
            exact List.mem_cons_self
          · intro k other mem side single live
            rcases List.mem_cons.mp mem with same | mem
            · cases same
              have stored := landed_out drift side
              subst stored
              rw [landed_out read.shown side]
              exact List.mem_cons_self
            · exact List.mem_cons_of_mem _ (h.whole k other mem side single live)

/-- Every one of our own rows in the list that the watermark covers is last seen marked. -/
theorem tells_markRead (peer : DeviceId) (readThrough stamp : String)
    (job : u = .receipt peer readThrough stamp) {recs : List ChatRecord}
    (differ : recs.Pairwise fun a b => a.id ≠ b.id)
    (seen : ∀ rec ∈ recs, rec.peerId = peer ∧ ∃ old,
      lastSeen asked peer rec.id = some (some (some old)) ∧ Landed (held asked peer rec.id) old rec) :
    Tells s₀ u (markRead readThrough stamp recs) (fun _ asked' =>
      (∀ id, (∀ rec ∈ recs, rec.id ≠ id) → lastSeen asked' peer id = lastSeen asked peer id) ∧
      ∀ rec ∈ recs, rec.direction = .out → ¬ readThrough < rec.id → ∃ new,
        lastSeen asked' peer rec.id = some (some (some new)) ∧ new.readAt.isSome) asked := by
  induction recs generalizing asked with
  | nil => exact ⟨fun _ _ => rfl, fun _ mem => absurd mem List.not_mem_nil⟩
  | cons rec recs ih =>
    obtain ⟨first, differ⟩ := List.pairwise_cons.mp differ
    obtain ⟨own, old, last, landed⟩ := seen rec List.mem_cons_self
    -- once the row is as it should be, the rest of the loop leaves it alone
    have rest {asked₁ : List Heard} (seen' : ∀ rec ∈ recs, rec.peerId = peer ∧ ∃ old,
          lastSeen asked₁ peer rec.id = some (some (some old)) ∧ Landed (held asked₁ peer rec.id) old rec)
        (away : ∀ id, rec.id ≠ id → lastSeen asked₁ peer id = lastSeen asked peer id)
        (marked : rec.direction = .out → ¬ readThrough < rec.id → ∃ new,
          lastSeen asked₁ peer rec.id = some (some (some new)) ∧ new.readAt.isSome) :
        Tells s₀ u (markRead readThrough stamp recs) (fun _ asked' =>
          (∀ id, (∀ rec' ∈ rec :: recs, rec'.id ≠ id) →
            lastSeen asked' peer id = lastSeen asked peer id) ∧
          ∀ rec' ∈ rec :: recs, rec'.direction = .out → ¬ readThrough < rec'.id → ∃ new,
            lastSeen asked' peer rec'.id = some (some (some new)) ∧ new.readAt.isSome) asked₁ := by
      refine tells_mono (ih differ seen') ?_
      rintro _ asked' ⟨others, all⟩
      refine ⟨fun id absent => ?_, fun rec' mem side covered => ?_⟩
      · rw [others id fun rec' mem => absent rec' (List.mem_cons_of_mem _ mem)]
        exact away id (absent rec List.mem_cons_self)
      · rcases List.mem_cons.mp mem with rfl | mem
        · rw [others _ fun other mem => Ne.symm (first other mem)]
          exact marked side covered
        · exact all rec' mem side covered
    rw [markRead]
    split
    next skipped =>
      refine rest (fun rec mem => seen rec (List.mem_cons_of_mem _ mem)) (fun _ _ => rfl) ?_
      intro side covered
      rcases skipped with away | read | beyond
      · exact absurd side away
      · refine ⟨old, last, ?_⟩
        have same := landed_out landed (landed.frame.direction.symm.trans side)
        subst same
        exact read
      · exact absurd beyond covered
    next todo =>
      simp only [ne_eq, not_or, not_not, Option.not_isSome_iff_eq_none] at todo
      have edit : ∀ old', some (some old) = some (some old') → ∃ a,
          Landed (held asked rec.peerId rec.id) old' a ∧
            Edits u a { rec with readAt := some stamp } := by
        rintro old' ⟨⟩
        subst own
        exact ⟨rec, landed, job ▸ .receipt stamp todo.1 todo.2.2⟩
      refine tells_bind (tells_append { rec with readAt := some stamp } (own ▸ last) edit) ?_
      rintro - _ ⟨pre, new, rfl, quiet, after, -⟩
      have place : new.peerId = peer ∧ new.id = rec.id := ⟨after.frame.peerId.trans own, after.frame.id⟩
      have now' : lastSeen (pre ++ [⟨.putRow new, .ok ()⟩]) peer rec.id = some (some (some new)) := by
        rw [lastSeen_push]
        exact if_pos place
      have away : ∀ id, rec.id ≠ id →
          Leaves asked (pre ++ [⟨.putRow new, .ok ()⟩]) peer id := fun id other =>
        (quiet.leaves peer id).trans (leaves_putRow fun same => other (place.2.symm.trans same.2))
      refine tells_bind (rest (fun other mem => ?_) (fun id other => (away id other).1)
        fun _ _ => ⟨new, now', after.frame.read rfl⟩) fun _ _ h => h
      obtain ⟨own', old', last', landed'⟩ := seen other (List.mem_cons_of_mem _ mem)
      have still := away _ (first other mem)
      refine ⟨own', old', ?_, landed_mono still.2 landed'⟩
      rw [still.1]
      exact last'

theorem tells_applyReceipt (peer : DeviceId) (readThrough stamp : String)
    (job : u = .receipt peer readThrough stamp) :
    Tells s₀ u (applyReceipt c now peer readThrough stamp) (fun _ asked' => ∀ id first,
      (s₀.rows peer)[id]? = some (some first) → Covered c s₀ now peer readThrough first →
      ∃ rec, lastSeen asked' peer id = some (some (some rec)) ∧ rec.readAt.isSome) asked := by
  have list : Tells s₀ u (ask (.listRows peer)) (fun rows asked' =>
      ((rows.Pairwise fun a b => a.1 ≠ b.1) ∧ ∀ id, Related s₀ peer id (rows.lookup id)) ∧
      ∀ id, lastSeen asked' peer id = some (rows.lookup id)) asked :=
    tells_ask trivial fun rows heard => ⟨heard, fun id => by
      rw [lastSeen_push]
      exact if_pos rfl⟩
  have read : Tells s₀ u (history c now peer) (fun recs asked' =>
      (recs.Pairwise fun a b => a.id ≠ b.id) ∧
      (∀ rec ∈ recs, rec.peerId = peer ∧ ∃ old,
        lastSeen asked' peer rec.id = some (some (some old)) ∧ Landed (held asked' peer rec.id) old rec) ∧
      ∀ id first, (s₀.rows peer)[id]? = some (some first) →
        Covered c s₀ now peer readThrough first →
        ∃ rec ∈ recs, rec.id = id ∧ rec.direction = .out ∧ ¬ readThrough < rec.id) asked := by
    refine tells_bind list ?_
    rintro rows asked₁ ⟨⟨distinct, related⟩, seen⟩
    refine tells_bind (tells_retention peer) ?_
    rintro r asked₂ ⟨quiet, window⟩
    have find : ∀ key value, (key, value) ∈ rows ↔ rows.lookup key = some value := fun _ _ =>
      (SortedMap.lookup_eq_some_iff distinct).symm
    refine tells_mono (tells_shown c now peer r distinct (fun key value mem => ?_) fun key rec mem => ?_) ?_
    · rw [quiet.seen, seen, (find key value).mp mem]
    · exact (related key).1 rec ((find _ _).mp mem)
    · intro recs asked' h
      refine ⟨h.differ, fun rec mem => (h.all rec mem).2, fun id first stood covered => ?_⟩
      obtain ⟨rec, found, frame⟩ := (related id).2 first stood
      obtain ⟨side, through, single, live⟩ := covered
      have key := ((related id).1 rec found).2
      refine ⟨rec, h.whole id rec ((find _ _).mpr found) ?_ ?_ ?_, key, ?_, ?_⟩
      · exact frame.direction.trans side
      · exact frame.group.trans single
      · rw [frame.hasDisappeared]
        exact live r window
      · exact frame.direction.trans side
      · rw [frame.id]
        exact through
  refine tells_bind read ?_
  rintro recs asked' ⟨differ, seen, whole⟩
  refine tells_mono (tells_markRead peer readThrough stamp job differ seen) ?_
  rintro _ asked'' ⟨-, marked⟩ id first stood covered
  obtain ⟨rec, mem, rfl, side, through⟩ := whole id first stood covered
  exact marked rec mem side through

end

/-- Every update, on its own, guarantees what its reply says. -/
theorem tells_program (j : Job) :
    (j.program c).wp (Pool.Hears (allowed s₀ j.update)) (must j.update)
      (fun reply asked => returned c s₀ j reply asked) (fun _ _ => True) [] := by
  rcases j with ⟨now, u⟩
  cases u with
  | receipt peer readThrough stamp =>
    exact tells_bind (tells_applyReceipt c now peer readThrough stamp rfl) fun _ _ h => h
  | reaction stamp peer targetId emoji side remove =>
    refine tells_bind (tells_applyReaction c now stamp peer targetId emoji side remove rfl) ?_
    intro done asked h
    cases remove <;> cases done
    · exact trivial
    · exact h rfl rfl
    · exact trivial
    · exact trivial
  | status peer id status =>
    refine tells_bind (tells_setStatus peer id status fun old own key _ => ?_) fun _ _ _ => trivial
    subst own key
    exact .status old status
  | sent e => exact tells_bind (tells_recordSent now e rfl) fun _ _ _ => trivial
  | settle peer id expected status =>
    refine tells_bind (tells_settleFileRow c now peer id expected status rfl) ?_
    intro done asked h
    cases done
    · exact trivial
    · exact h rfl
  | path peer id expected localPath =>
    refine tells_bind (tells_setFileRowPath c now peer id expected localPath rfl) ?_
    intro done asked h
    cases done
    · exact trivial
    · exact h rfl
  | landing peer id expected name size =>
    refine tells_bind (tells_setFileRowLanding c now peer id expected name size rfl) ?_
    intro landing asked h
    cases landing
    · exact trivial
    · exact trivial
    · exact h rfl

end Prog

end PeerBeam.Chat
