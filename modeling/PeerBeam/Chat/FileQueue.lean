import PeerBeam.Chat.Deletion
import PeerBeam.Transfer.FolderSafety

/-! Sending a file: the row, the copy the queue owns, and the entry that names it. Each is written by a
call of its own, and a crash may fall between any two. -/
namespace PeerBeam.Chat

/-- `str::trim_end_matches`, of slashes. -/
def trimSlashes (root : Transfer.Path) : Transfer.Path := (root.reverse.dropWhile (· = '/')).reverse

/-- Where the copy under an id stands, which must be a bare name everywhere. -/
def blobPath (root id : String) : Option String :=
  if Transfer.fileName id.toList ≠ some id.toList ∨ '\\' ∈ id.toList then none
  else some (String.ofList (trimSlashes root.toList ++ '/' :: id.toList))

theorem blobPath_inj {root id id' path : String} (h : blobPath root id = some path)
    (h' : blobPath root id' = some path) : id = id' := by
  rw [blobPath, Option.ite_none_left_eq_some] at h h'
  have same := String.ofList_injective (Option.some.inj (h.2.trans h'.2.symm))
  exact String.toList_injective (List.cons.inj (List.append_cancel_left same)).2

theorem fileName_blobPath {root id path : String} (h : blobPath root id = some path) :
    Transfer.fileName path.toList = some id.toList := by
  rw [blobPath, Option.ite_none_left_eq_some, not_or, not_not] at h
  obtain ⟨⟨bare, -⟩, same⟩ := h
  cases same
  rw [String.toList_ofList]
  exact Transfer.fileName_of_plain (Transfer.plain_of_fileName bare)

/-- How copying a picked file goes: it is refused before anything is opened, or one end does not open,
or it is read to its end or to a fault. -/
inductive Copy
  | refused
  | unopened
  | copied (name : String) (chunks : List Bytes) (fault : Bool)

inductive LegOutcome
  | delivered
  | cancelled
  | failed (bytesMoved : Nat) (localFault : Bool)

/-- How offering a queued file goes. -/
inductive Attempt
  | deferred
  | refused
  | ran (settled : Status) (leg : LegOutcome)

def maxOffersRefused : Nat := 3

namespace Prog
open Program (ret fail)
variable (c : Chrono) (now : Int) (root : String)

def pump (dest : String) (fault : Bool) : List Bytes → Nat → Prog Nat
  | [], n => if fault then fail .staging else ret n
  | bytes :: rest, n => do
    ask (.writeBlob dest bytes)
    pump dest fault rest (n + bytes.length)

def copy (dest : String) (chunks : List Bytes) (fault : Bool) : Prog Nat := do
  ask (.createBlob dest)
  pump dest fault chunks 0

def remove (path : String) : Prog Unit := do
  let _ ← (ask (.removeBlob path)).attempt
  ret ()

def stage (id : String) : Copy → Prog StagedFile
  | .refused => fail .staging
  | .unopened => do
    let dest ← lift ((blobPath root id).elim (.error .staging) .ok)
    remove dest
    fail .staging
  | .copied name chunks fault => do
    let dest ← lift ((blobPath root id).elim (.error .staging) .ok)
    match ← (copy dest chunks fault).attempt with
    | .ok size => ret ⟨name, size, dest⟩
    | .error e => do
      remove dest
      fail e

/-- The asynchronous half of sending a file, after `begin_file_send`. -/
def stageFileSend (peer : DeviceId) (r : FileRef) (copy : Copy) : Prog (Option StagedFile) := do
  match ← (stage root r.id copy).attempt with
  | .error e => do
    let _ ← (setStatus peer r.id .failed).attempt
    fail e
  | .ok staged => do
    if ← enqueueFile c now peer { r with size := staged.size } staged then ret (some staged)
    else do
      remove staged.stagedPath
      ret none

/-- The loop of `outbox_pending`. -/
def openEntries : List (String × Option OutboxEntry) → Prog (List OutboxEntry)
  | [] => ret []
  | (_, none) :: rest => openEntries rest
  | (_, some e) :: rest => do
    let r ← retention e.peerId
    let out ← openEntries rest
    ret (if e.expired c r now then out else e :: out)

def outboxFor (peer : DeviceId) : Prog (List OutboxEntry) := do
  let raw ← ask .listOutbox
  let entries ← openEntries c now raw
  ret (entries.filter (·.peerId = peer))

def nextFileFor (peer : DeviceId) : Prog (Option (OutboxEntry × StagedFile)) := do
  let entries ← outboxFor c now peer
  let blobs ← ask .listBlobs
  ret (entries.findSome? fun e =>
    if e.kind = .file then (e.file.filter fun file => blobs.contains file.stagedPath).map (e, ·) else none)

def reopenForRetry (peer : DeviceId) (id : String) : Prog Bool := do
  match ← get c now peer id with
  | none => ret false
  | some rec =>
    if rec.kind = .file ∧ rec.direction = .out ∧ (rec.status = .pending ∨ rec.status = .failed ∨
        rec.status = .staging ∨ rec.status = .interrupted) then do
      append { rec with status := .transferring }
      ret true
    else ret false

def rowMayStillDeliver (peer : DeviceId) (id : String) : Prog Bool := do
  match ← (get c now peer id).attempt with
  | .ok (some rec) => ret (rec.status ≠ .sent ∧ rec.status ≠ .declined)
  | .ok none => ret false
  | .error _ => ret true

def outboxBumpRefused (id : String) : Prog Nat := do
  match ← ask (.getOutbox id) with
  | none => ret 0
  | some value => do
    let e ← decode value
    ask (.putOutbox { e with offersRefused := min (e.offersRefused + 1) (2 ^ 32 - 1) })
    ret (min (e.offersRefused + 1) (2 ^ 32 - 1))

def failChatFile (peer : DeviceId) (id : String) : Prog Unit := do
  let _ ← (setStatus peer id .failed).attempt
  ret ()

def dropQueuedFile (id path : String) : Prog Unit := do
  let _ ← (ask (.deleteOutbox id)).attempt
  remove path

def settles (peer : DeviceId) (id : String) (leg : LegOutcome) : Prog Bool := do
  match ← (get c now peer id).attempt, leg with
  | .ok (some rec), leg =>
    if rec.status = .declined then ret true else judge leg
  | _, leg => judge leg
where
  judge : LegOutcome → Prog Bool
    | .delivered | .cancelled => ret true
    | .failed bytesMoved localFault =>
      if 0 < bytesMoved ∨ localFault then ret false
      else do
        let count ← (outboxBumpRefused id).attempt
        if maxOffersRefused ≤ count.toOption.getD 0 then do
          failChatFile peer id
          ret true
        else ret false

def settleQueuedFile (peer : DeviceId) (id path : String) (leg : LegOutcome) : Prog Unit := do
  if ← settles c now peer id leg then dropQueuedFile id path

def stillQueued (peer : DeviceId) (id : String) : Prog Bool := do
  match ← (outboxFor c now peer).attempt with
  | .ok entries => ret (entries.any (·.messageId = id))
  | .error _ => ret true

/-- One file of the peer's queue is offered, as far as the store and the copies see it. -/
def runQueuedFile (peer : DeviceId) (attempt : Attempt) : Prog Unit := do
  match ← nextFileFor c now peer with
  | none => ret ()
  | some (e, staged) =>
    match attempt with
    | .deferred => ret ()
    | .refused => failChatFile peer e.messageId
    | .ran settled leg => do
      if ← stillQueued c now peer e.messageId then
        match ← (reopenForRetry c now peer e.messageId).attempt with
        | .ok true => do
          let _ ← (settleFileRow c now peer e.messageId .out settled).attempt
          settleQueuedFile c now peer e.messageId staged.stagedPath leg
        | .ok false => do
          if ← rowMayStillDeliver c now peer e.messageId then ret ()
          else dropQueuedFile e.messageId staged.stagedPath
        | .error _ => ret ()

/-- The first loop of `prune`: the copies whose entries are gone. -/
def pruneEntries (r : Retention) (peer : DeviceId) :
    List (String × Option OutboxEntry) → Prog (Nat × List String)
  | [] => ret (0, [])
  | (_, none) :: rest => pruneEntries r peer rest
  | (key, some e) :: rest =>
    if e.peerId = peer ∧ e.expired c r now then do
      let gone ← ask (.deleteOutbox key)
      let later ← pruneEntries r peer rest
      ret (if gone then (later.1 + 1, (e.file.map (·.stagedPath)).toList ++ later.2) else later)
    else pruneEntries r peer rest

/-- The second loop of `prune`. -/
def pruneRows (r : Retention) (peer : DeviceId) : List (String × Option ChatRecord) → Prog Nat
  | [] => ret 0
  | (_, none) :: rest => pruneRows r peer rest
  | (key, some rec) :: rest =>
    if rec.hasDisappeared c r now then do
      let gone ← ask (.deleteRow peer key)
      let later ← pruneRows r peer rest
      ret (later + if gone then 1 else 0)
    else pruneRows r peer rest

def prune (peer : DeviceId) : Prog ChatStore.Pruned := do
  let r ← retention peer
  if r.isOff then ret ⟨0, 0, []⟩
  else do
    let raw ← ask .listOutbox
    let queued ← pruneEntries c now r peer raw
    let rows ← ask (.listRows peer)
    let records ← pruneRows c now r peer rows
    ret ⟨records, queued.1, queued.2⟩

def removeAll : List String → Prog Unit
  | [] => ret ()
  | path :: rest => do
    remove path
    removeAll rest

def pruneConversation (peer : DeviceId) : Prog ChatStore.Pruned := do
  let pruned ← prune c now peer
  removeAll pruned.staged
  ret pruned

end Prog

inductive Errand
  | begin (now : Int) (peer : DeviceId) (r : FileRef) (path : String)
  | stage (now : Int) (peer : DeviceId) (r : FileRef) (copy : Copy)
  | deliver (now : Int) (peer : DeviceId) (attempt : Attempt)
  | settle (now : Int) (peer : DeviceId) (id : String) (expected : Direction) (status : Status)
  | prune (now : Int) (peer : DeviceId)

def Errand.staged : Errand → Option String
  | stage _ _ r _ => some r.id
  | _ => none

def Errand.program (c : Chrono) (root : String) : Errand → Prog Unit
  | begin now peer r path => Prog.beginFileSend now peer r path
  | stage now peer r copy => do let _ ← Prog.stageFileSend c now root peer r copy
  | deliver now peer attempt => Prog.runQueuedFile c now peer attempt
  | settle now peer id expected status => do let _ ← Prog.settleFileRow c now peer id expected status
  | prune now peer => do let _ ← Prog.pruneConversation c now peer

def Prog.inTurn : List (Prog Unit) → Prog Unit
  | [] => Program.ret ()
  | p :: rest => do
    let _ ← p.attempt
    inTurn rest

/-- Every queued file has its whole copy, under its id, and nothing but copies stands among them. -/
structure Housed (root : String) (d : Disk) : Prop where
  keyed : ∀ (key : String) (e : OutboxEntry), d.store.outbox[key]? = some (some e) → e.messageId = key
  owns : ∀ (key : String) (e : OutboxEntry), d.store.outbox[key]? = some (some e) → e.kind = .file →
    e.file.isSome
  whole : ∀ (key : String) (e : OutboxEntry) (file : StagedFile),
    d.store.outbox[key]? = some (some e) → e.file = some file → blobPath root key = some file.stagedPath ∧
      ∃ bytes, d.blobs[file.stagedPath]? = some bytes ∧ bytes.length = file.size
  placed : ∀ path : String, d.blobs[path]? ≠ none → ∃ id, blobPath root id = some path

structure Ready (root : String) (ids : List String) (d : Disk) : Prop where
  housed : Housed root d
  free : ∀ id ∈ ids, d.store.outbox[id]? = none

structure Copied (root : String) (ids : List String) (id dest : String) (size : Nat) (d : Disk) : Prop where
  ready : Ready root (id :: ids) d
  place : blobPath root id = some dest
  there : ∃ bytes, d.blobs[dest]? = some bytes ∧ bytes.length = size

section
variable {root : String} {ids : List String} {d d' : Disk}

theorem Ready.congr (h : Ready root ids d) (outbox : d'.store.outbox = d.store.outbox)
    (blobs : d'.blobs = d.blobs) : Ready root ids d' := by
  obtain ⟨⟨keyed, owns, whole, placed⟩, free⟩ := h
  rw [← outbox] at keyed owns whole free
  rw [← blobs] at whole placed
  exact ⟨⟨keyed, owns, whole, placed⟩, free⟩

theorem Copied.congr {id dest : String} {size : Nat} (h : Copied root ids id dest size d)
    (outbox : d'.store.outbox = d.store.outbox) (blobs : d'.blobs = d.blobs) :
    Copied root ids id dest size d' :=
  ⟨h.ready.congr outbox blobs, h.place, by rw [blobs]; exact h.there⟩

theorem Ready.tail {id : String} (h : Ready root (id :: ids) d) : Ready root ids d :=
  ⟨h.housed, fun id mem => h.free id (List.mem_cons_of_mem _ mem)⟩

theorem Ready.unqueued {id : String} (h : Ready root ids d) (none : d.store.outbox[id]? = none) :
    Ready root (id :: ids) d :=
  ⟨h.housed, fun id' mem => (List.mem_cons.mp mem).elim (· ▸ none) (h.free id')⟩

/-- Another file's copy does not stand there. -/
theorem Ready.apart {id dest key : String} {e : OutboxEntry} {file : StagedFile}
    (h : Ready root (id :: ids) d) (place : blobPath root id = some dest)
    (queued : d.store.outbox[key]? = some (some e)) (own : e.file = some file) :
    dest ≠ file.stagedPath := by
  intro same
  have clash := blobPath_inj place (same ▸ (h.housed.whole key e file queued own).1)
  subst clash
  rw [h.free id List.mem_cons_self] at queued
  cases queued

theorem Ready.putCopy {id dest : String} (h : Ready root (id :: ids) d) (place : blobPath root id = some dest)
    (bytes : Bytes) : Copied root ids id dest bytes.length { d with blobs := d.blobs.insert dest bytes } where
  ready := by
    refine ⟨⟨h.housed.keyed, h.housed.owns, fun key e file queued own => ?_, fun path there => ?_⟩, h.free⟩
    · obtain ⟨path, whole⟩ := h.housed.whole key e file queued own
      refine ⟨path, ?_⟩
      rw [SortedMap.get_insert, if_neg (h.apart place queued own)]
      exact whole
    · rw [SortedMap.get_insert] at there
      split at there
      next same => exact ⟨id, same ▸ place⟩
      next => exact h.housed.placed path there
  place := place
  there := ⟨bytes, by rw [SortedMap.get_insert, if_pos rfl], rfl⟩

theorem Housed.removeCopy {path : String} (h : Housed root d)
    (apart : ∀ (key : String) (e : OutboxEntry) (file : StagedFile), d.store.outbox[key]? = some (some e) →
      e.file = some file → path ≠ file.stagedPath) :
    Housed root { d with blobs := d.blobs.erase path } := by
  refine ⟨h.keyed, h.owns, fun key e file queued own => ?_, fun other there => ?_⟩
  · obtain ⟨place, whole⟩ := h.whole key e file queued own
    refine ⟨place, ?_⟩
    rw [SortedMap.get_erase, if_neg (apart key e file queued own)]
    exact whole
  · rw [SortedMap.get_erase] at there
    split at there
    · exact absurd rfl there
    · exact h.placed other there

theorem Ready.removeCopy {id dest : String} (h : Ready root (id :: ids) d)
    (place : blobPath root id = some dest) : Ready root (id :: ids) { d with blobs := d.blobs.erase dest } :=
  ⟨h.housed.removeCopy fun _ _ _ queued own => h.apart place queued own, h.free⟩

theorem Ready.putOutbox {e : OutboxEntry} (h : Ready root ids d) (fresh : e.messageId ∉ ids)
    (owns : e.kind = .file → e.file.isSome)
    (whole : ∀ file, e.file = some file → blobPath root e.messageId = some file.stagedPath ∧
      ∃ bytes, d.blobs[file.stagedPath]? = some bytes ∧ bytes.length = file.size) :
    Ready root ids { d with store := d.store.putOutbox e } := by
  have split {key : String} {e' : OutboxEntry}
      (queued : (d.store.putOutbox e).outbox[key]? = some (some e')) :
      (e.messageId = key ∧ e = e') ∨ d.store.outbox[key]? = some (some e') := by
    rw [ChatStore.putOutbox, SortedMap.get_insert] at queued
    split at queued
    next same => exact .inl ⟨same, Option.some.inj (Option.some.inj queued)⟩
    next => exact .inr queued
  refine ⟨⟨?_, ?_, ?_, h.housed.placed⟩, fun id mem => ?_⟩
  · intro key e' queued
    obtain ⟨same, rfl⟩ | queued := split queued
    · exact same
    · exact h.housed.keyed key e' queued
  · intro key e' queued
    obtain ⟨-, rfl⟩ | queued := split queued
    · exact owns
    · exact h.housed.owns key e' queued
  · intro key e' file queued own
    obtain ⟨rfl, rfl⟩ | queued := split queued
    · exact whole file own
    · exact h.housed.whole key e' file queued own
  · rw [ChatStore.putOutbox, SortedMap.get_insert, if_neg]
    · exact h.free id mem
    · rintro rfl
      exact fresh mem

theorem Ready.outboxRemove (h : Ready root ids d) (id : String) :
    Ready root (id :: ids) { d with store := d.store.outboxRemove id } := by
  have still {key : String} {e : OutboxEntry}
      (queued : (d.store.outboxRemove id).outbox[key]? = some (some e)) :
      d.store.outbox[key]? = some (some e) := by
    rw [ChatStore.outboxRemove, SortedMap.get_erase] at queued
    split at queued
    · cases queued
    · exact queued
  refine ⟨⟨fun key e queued => h.housed.keyed key e (still queued),
    fun key e queued => h.housed.owns key e (still queued),
    fun key e file queued => h.housed.whole key e file (still queued), h.housed.placed⟩, fun id' mem => ?_⟩
  rw [ChatStore.outboxRemove, SortedMap.get_erase]
  split
  next => rfl
  next other =>
    refine h.free id' ((List.mem_cons.mp mem).resolve_left ?_)
    rintro rfl
    exact other rfl

end

def Call.SparesFiles : Call → Prop
  | .putOutbox _ | .deleteOutbox _ | .createBlob _ | .writeBlob .. | .removeBlob _ => False
  | _ => True

theorem exec_spares (d : Disk) {call : Call} (h : call.SparesFiles) :
    (d.exec call).2.store.outbox = d.store.outbox ∧ (d.exec call).2.blobs = d.blobs := by
  cases call <;> first | exact ⟨rfl, rfl⟩ | exact h.elim

namespace Prog
open Program (ret fail)
variable {α : Type} (c : Chrono) (now : Int)

abbrev Spares (p : Prog α) : Prop := p.Only Call.SparesFiles

theorem spares_ask {call : Call} (h : call.SparesFiles) : Spares (ask call) := Program.only_ask h

theorem spares_decode (value : Option α) : Spares (decode value) := by cases value <;> trivial

theorem spares_retention (peer : DeviceId) : Spares (retention peer) := by
  refine Program.Only.bind (spares_ask (by trivial)) fun policy => ?_
  cases policy with
  | none => trivial
  | some policy => exact spares_decode policy

theorem spares_take (peer : DeviceId) (id : String) : Spares (takePendingLanding peer id) := by
  refine Program.Only.bind (spares_ask (by trivial)) fun blob => ?_
  cases blob with
  | none => trivial
  | some blob => exact (Program.Only.attempt (spares_ask (by trivial))).bind fun _ => trivial

theorem spares_append (rec : ChatRecord) : Spares (append rec) := by
  rw [append]
  split
  · refine (spares_take _ _).bind fun landing => ?_
    cases landing <;> exact spares_ask (by trivial)
  · exact spares_ask (by trivial)

theorem spares_withLanding (rec : ChatRecord) : Spares (withLanding rec) := by
  rw [withLanding]
  split
  · refine (spares_take _ _).attempt.bind fun landing => ?_
    rcases landing with _ | _ | ⟨name, size⟩
    · trivial
    · trivial
    · show Spares (if _ then _ else _)
      split
      · exact (Program.Only.attempt (spares_ask (by trivial))).bind fun _ => trivial
      · trivial
  · trivial

theorem spares_get (peer : DeviceId) (id : String) : Spares (get c now peer id) := by
  refine Program.Only.bind (spares_ask (by trivial)) fun row => ?_
  cases row with
  | none => trivial
  | some value =>
    refine (spares_decode value).bind fun rec => (spares_retention peer).bind fun r => ?_
    split
    · trivial
    · exact (spares_withLanding rec).bind fun _ => trivial

theorem spares_setStatus (peer : DeviceId) (id : String) (status : Status) :
    Spares (setStatus peer id status) := by
  refine Program.Only.bind (spares_ask (by trivial)) fun row => ?_
  cases row with
  | none => trivial
  | some value => exact (spares_decode value).bind fun rec => spares_append _

theorem spares_settleFileRow (peer : DeviceId) (id : String) (expected : Direction) (status : Status) :
    Spares (settleFileRow c now peer id expected status) := by
  have judged : Spares (settleable c now peer id expected) := by
    refine (spares_get c now peer id).bind fun row => ?_
    cases row <;> trivial
  refine judged.bind fun live => ?_
  split
  · exact (spares_setStatus peer id status).bind fun _ => trivial
  · trivial

theorem spares_failChatFile (peer : DeviceId) (id : String) : Spares (failChatFile peer id) :=
  (spares_setStatus peer id .failed).attempt.bind fun _ => trivial

theorem spares_reopenForRetry (peer : DeviceId) (id : String) :
    Spares (reopenForRetry c now peer id) := by
  refine (spares_get c now peer id).bind fun row => ?_
  cases row with
  | none => trivial
  | some rec =>
    show Spares (if _ then _ else _)
    split
    · exact (spares_append _).bind fun _ => trivial
    · trivial

theorem spares_rowMayStillDeliver (peer : DeviceId) (id : String) :
    Spares (rowMayStillDeliver c now peer id) := by
  refine (spares_get c now peer id).attempt.bind fun row => ?_
  rcases row with _ | _ | rec <;> trivial

theorem spares_openEntries (raw : List (String × Option OutboxEntry)) :
    Spares (openEntries c now raw) := by
  induction raw with
  | nil => trivial
  | cons row raw ih =>
    obtain ⟨key, _ | e⟩ := row
    · exact ih
    · exact (spares_retention e.peerId).bind fun r => ih.bind fun out => trivial

theorem spares_stillQueued (peer : DeviceId) (id : String) : Spares (stillQueued c now peer id) := by
  have listed : Spares (outboxFor c now peer) :=
    Program.Only.bind (spares_ask (by trivial)) fun raw => (spares_openEntries c now raw).bind fun _ => trivial
  refine listed.attempt.bind fun entries => ?_
  cases entries <;> trivial

theorem spares_pruneRows (r : Retention) (peer : DeviceId) (rows : List (String × Option ChatRecord)) :
    Spares (pruneRows c now r peer rows) := by
  induction rows with
  | nil => trivial
  | cons row rows ih =>
    obtain ⟨key, _ | rec⟩ := row
    · exact ih
    · rw [pruneRows]
      split
      · exact Program.Only.bind (spares_ask (by trivial)) fun _ => ih.bind fun _ => trivial
      · exact ih

section
variable {β : Type} {root : String} {ids : List String} {d : Disk}

abbrev Keeps (root : String) (p : Prog α) (done : α → Disk → Prop) (failed : Disk → Prop) (d : Disk) :
    Prop :=
  p.wp (Program.Does Disk.exec) (fun d call => Housed root (d.exec call).2) done (fun _ => failed) d

theorem keeps_ask {call : Call} {done : call.Answer → Disk → Prop} {failed : Disk → Prop}
    (housed : Housed root (d.exec call).2)
    (ok : ∀ a, (d.exec call).1 = .ok a → done a (d.exec call).2)
    (error : ∀ e, (d.exec call).1 = .error e → failed (d.exec call).2) :
    Keeps root (ask call) done failed d := by
  refine Program.wp_ask.mpr ⟨housed, fun a d' said => ?_, fun e d' said => ?_⟩
  · obtain ⟨answered, rfl⟩ := Prod.ext_iff.mp said
    exact ok a answered
  · obtain ⟨answered, rfl⟩ := Prod.ext_iff.mp said
    exact error e answered

theorem keeps_made {call : Call} {I : Disk → Prop} (inv : I (d.exec call).2)
    (housed : Housed root (d.exec call).2) : Keeps root (ask call) (fun _ => I) I d :=
  keeps_ask housed (fun _ _ => inv) fun _ _ => inv

theorem keeps_listOutbox (ready : Ready root ids d) : Keeps root (ask .listOutbox)
    (fun raw d' => d' = d ∧ raw = d.store.outbox.toList) (Ready root ids) d :=
  keeps_ask ready.housed (fun _ said => ⟨rfl, (Except.ok.inj said).symm⟩) fun _ _ => ready

theorem keeps_bind {p : Prog α} {f : α → Prog β} {middle : α → Disk → Prop} {done : β → Disk → Prop}
    {failed : Disk → Prop} (h : Keeps root p middle failed d)
    (later : ∀ a d', middle a d' → Keeps root (f a) done failed d') :
    Keeps root (p >>= f) done failed d :=
  Program.wp_bind.mpr (Program.wp_mono h later fun _ _ h => h)

theorem keeps_fails {p : Prog α} {done : α → Disk → Prop} {I failed : Disk → Prop}
    (h : Keeps root p done I d) (weaker : ∀ d', I d' → failed d') : Keeps root p done failed d :=
  Program.wp_mono h (fun _ _ h => h) fun _ => weaker

theorem keeps_attempt {p : Prog α} {done : Except CallError α → Disk → Prop} {failed : Disk → Prop}
    (h : Keeps root p (fun a => done (.ok a)) (fun d' => ∀ e, done (.error e) d') d) :
    Keeps root p.attempt done failed d :=
  Program.wp_attempt.mpr (Program.wp_mono h (fun _ _ h => h) fun e _ h => h e)

/-- A failure that is as good as success. -/
theorem keeps_tried {p : Prog α} {I failed : Disk → Prop} (h : Keeps root p (fun _ => I) I d) :
    Keeps root p.attempt (fun _ => I) failed d :=
  keeps_attempt (Program.wp_mono h (fun _ _ h => h) fun _ _ h _ => h)

theorem Spares.keeps {p : Prog α} (h : Spares p) {I : Disk → Prop}
    (same : ∀ d d' : Disk, d'.store.outbox = d.store.outbox → d'.blobs = d.blobs → I d → I d')
    (housed : ∀ d, I d → Housed root d) (inv : I d) : Keeps root p (fun _ => I) I d := by
  have kept {d : Disk} {call : Call} (spares : call.SparesFiles) (inv : I d) : I (d.exec call).2 :=
    same d _ (exec_spares d spares).1 (exec_spares d spares).2 inv
  refine Program.Only.wp (I := I) h (fun d call spares inv => housed _ (kept spares inv)) ?_ inv
  intro d call r d' spares inv said
  obtain ⟨-, rfl⟩ := Prod.ext_iff.mp said
  exact kept spares inv

theorem Spares.keepsReady {p : Prog α} (h : Spares p) (ready : Ready root ids d) :
    Keeps root p (fun _ => Ready root ids) (Ready root ids) d :=
  h.keeps (fun _ _ outbox blobs inv => inv.congr outbox blobs) (fun _ inv => inv.housed) ready

theorem keeps_remove {id path : String} (ready : Ready root (id :: ids) d)
    (place : blobPath root id = some path) :
    Keeps root (remove path) (fun _ => Ready root (id :: ids)) (Ready root (id :: ids)) d := by
  have gone := ready.removeCopy place
  refine keeps_bind (keeps_tried (I := Ready root (id :: ids)) ?_) fun _ _ ready => ready
  exact keeps_made gone gone.housed

theorem keeps_pump {id dest : String} {size : Nat} (fault : Bool) (chunks : List Bytes)
    (copied : Copied root ids id dest size d) :
    Keeps root (pump dest fault chunks size) (Copied root ids id dest) (Ready root (id :: ids)) d := by
  induction chunks generalizing size d with
  | nil =>
    rw [pump]
    split
    · exact copied.ready
    · exact copied
  | cons bytes chunks ih =>
    obtain ⟨before, there, rfl⟩ := copied.there
    have more : Copied root ids id dest (before.length + bytes.length)
        (d.exec (.writeBlob dest bytes)).2 := by
      have put := copied.ready.putCopy copied.place (before ++ bytes)
      rw [List.length_append] at put
      rw [Disk.exec, there]
      exact put
    have made : Keeps root (ask (.writeBlob dest bytes))
        (fun _ => Copied root ids id dest (before.length + bytes.length)) (Ready root (id :: ids)) d :=
      keeps_ask more.ready.housed (fun _ _ => more) fun _ _ => more.ready
    exact keeps_bind made fun _ _ copied => ih copied

theorem keeps_copy {id dest : String} (chunks : List Bytes) (fault : Bool)
    (ready : Ready root (id :: ids) d) (place : blobPath root id = some dest) :
    Keeps root (copy dest chunks fault) (Copied root ids id dest) (Ready root (id :: ids)) d := by
  have empty : Copied root ids id dest 0 (d.exec (.createBlob dest)).2 := ready.putCopy place []
  have made : Keeps root (ask (.createBlob dest)) (fun _ => Copied root ids id dest 0)
      (Ready root (id :: ids)) d :=
    keeps_ask empty.ready.housed (fun _ _ => empty) fun _ _ => empty.ready
  exact keeps_bind made fun _ _ copied => keeps_pump fault chunks copied

/-- A copy that is not finished is removed. -/
theorem keeps_stage {id : String} (how : Copy) (ready : Ready root (id :: ids) d) :
    Keeps root (stage root id how) (fun staged => Copied root ids id staged.stagedPath staged.size)
      (Ready root (id :: ids)) d := by
  cases how with
  | refused => exact ready
  | unopened =>
    rw [stage]
    cases place : blobPath root id with
    | none => exact ready
    | some dest =>
      show Keeps root (remove dest >>= _) _ _ _
      exact keeps_bind (keeps_remove ready place) fun _ _ ready => ready
  | copied name chunks fault =>
    rw [stage]
    cases place : blobPath root id with
    | none => exact ready
    | some dest =>
      have copied : Keeps root (copy dest chunks fault).attempt
          (fun r d' => match r with
            | .ok size => Copied root ids id dest size d'
            | .error _ => Ready root (id :: ids) d') (Ready root (id :: ids)) d :=
        keeps_attempt (Program.wp_mono (keeps_copy chunks fault ready place) (fun _ _ h => h)
          fun _ _ h _ => h)
      show Keeps root ((copy dest chunks fault).attempt >>= _) _ _ _
      refine keeps_bind copied fun r d' said => ?_
      cases r with
      | error e => exact keeps_bind (keeps_remove said place) fun _ _ ready => ready
      | ok size => exact said

theorem keeps_enqueueFile {peer : DeviceId} {r : FileRef} {staged : StagedFile} (fresh : r.id ∉ ids)
    (copied : Copied root ids r.id staged.stagedPath staged.size d) :
    Keeps root (enqueueFile c now peer r staged)
      (fun queued d' => if queued then Ready root ids d'
        else Copied root ids r.id staged.stagedPath staged.size d') (Ready root ids) d := by
  have looked : Keeps root (get c now peer r.id)
      (fun _ => Copied root ids r.id staged.stagedPath staged.size)
      (Copied root ids r.id staged.stagedPath staged.size) d :=
    (spares_get c now peer r.id).keeps (fun _ _ outbox blobs inv => Copied.congr inv outbox blobs)
      (fun _ inv => inv.ready.housed) copied
  refine keeps_bind (keeps_fails looked fun _ copied => copied.ready.tail) fun row d' copied => ?_
  cases row with
  | none => exact copied
  | some rec =>
    have queued : Ready root ids (d'.exec (.putOutbox (ChatStore.fileEntry peer r staged))).2 := by
      refine copied.ready.tail.putOutbox fresh (fun _ => rfl) ?_
      rintro file ⟨⟩
      exact ⟨copied.place, copied.there⟩
    refine keeps_bind (keeps_made (I := Ready root ids) queued queued.housed) fun _ d' ready => ?_
    exact keeps_bind ((spares_append _).keepsReady ready) fun _ _ ready => ready

theorem keeps_stageFileSend {peer : DeviceId} {r : FileRef} (how : Copy) (fresh : r.id ∉ ids)
    (ready : Ready root (r.id :: ids) d) :
    Keeps root (stageFileSend c now root peer r how) (fun _ => Ready root ids) (Ready root ids) d := by
  have staged : Keeps root (stage root r.id how).attempt
      (fun out d' => match out with
        | .ok staged => Copied root ids r.id staged.stagedPath staged.size d'
        | .error _ => Ready root (r.id :: ids) d') (Ready root ids) d :=
    keeps_attempt (Program.wp_mono (keeps_stage how ready) (fun _ _ h => h) fun _ _ h _ => h)
  refine keeps_bind staged fun out d' said => ?_
  cases out with
  | error e =>
    exact keeps_bind (keeps_tried ((spares_setStatus peer r.id .failed).keepsReady said.tail))
      fun _ _ ready => ready
  | ok staged =>
    refine keeps_bind (keeps_enqueueFile c now (r := { r with size := staged.size }) fresh said) ?_
    intro queued d' said
    cases queued with
    | true => exact said
    | false =>
      exact keeps_bind (keeps_fails (keeps_remove said.ready said.place) fun _ ready => ready.tail)
        fun _ _ ready => ready.tail

theorem keeps_dropQueuedFile {id path : String} (ready : Ready root ids d)
    (place : blobPath root id = some path) :
    Keeps root (dropQueuedFile id path) (fun _ => Ready root ids) (Ready root ids) d := by
  have gone := ready.outboxRemove id
  refine keeps_bind (keeps_tried (I := Ready root (id :: ids)) ?_) ?_
  · exact keeps_made gone gone.housed
  · intro _ d' ready
    exact Program.wp_mono (keeps_remove ready place) (fun _ _ ready => ready.tail)
      fun _ _ ready => ready.tail

theorem keeps_outboxBumpRefused (id : String) (ready : Ready root ids d) :
    Keeps root (outboxBumpRefused id) (fun _ => Ready root ids) (Ready root ids) d := by
  have read : Keeps root (ask (.getOutbox id)) (fun value d' => d' = d ∧ value = d.store.outbox[id]?)
      (Ready root ids) d :=
    keeps_ask ready.housed (fun _ said => ⟨rfl, (Except.ok.inj said).symm⟩) fun _ _ => ready
  refine keeps_bind read ?_
  rintro value d ⟨rfl, rfl⟩
  rcases stored : d.store.outbox[id]? with _ | _ | e
  · exact ready
  · exact ready
  · have own := ready.housed.keyed id e stored
    have put : Ready root ids (d.exec (.putOutbox
        { e with offersRefused := min (e.offersRefused + 1) (2 ^ 32 - 1) })).2 := by
      refine ready.putOutbox (e := { e with offersRefused := _ }) (fun mem => ?_)
        (ready.housed.owns id e stored) fun file isFile => ?_
      · cases (ready.free id (own ▸ mem)).symm.trans stored
      · exact own.symm ▸ ready.housed.whole id e file stored isFile
    show Keeps root (ask (.putOutbox _) >>= _) _ _ _
    exact keeps_bind (keeps_made (I := Ready root ids) put put.housed) fun _ _ ready => ready

theorem keeps_settleQueuedFile {peer : DeviceId} {id path : String} (leg : LegOutcome)
    (ready : Ready root ids d) (place : blobPath root id = some path) :
    Keeps root (settleQueuedFile c now peer id path leg) (fun _ => Ready root ids) (Ready root ids) d := by
  have judged (leg : LegOutcome) {d : Disk} (ready : Ready root ids d) :
      Keeps root (settles.judge peer id leg) (fun _ => Ready root ids) (Ready root ids) d := by
    rcases leg with _ | _ | ⟨bytesMoved, localFault⟩
    · exact ready
    · exact ready
    · rw [settles.judge]
      split
      · exact ready
      · refine keeps_bind (keeps_tried (keeps_outboxBumpRefused id ready)) fun count d' ready => ?_
        show Keeps root (if _ then _ else _) _ _ _
        split
        · exact keeps_bind ((spares_failChatFile peer id).keepsReady ready) fun _ _ ready => ready
        · exact ready
  have verdict : Keeps root (settles c now peer id leg) (fun _ => Ready root ids) (Ready root ids) d := by
    refine keeps_bind (keeps_tried ((spares_get c now peer id).keepsReady ready))
      fun row d' ready => ?_
    rcases row with _ | _ | rec
    · exact judged leg ready
    · exact judged leg ready
    · show Keeps root (if _ then _ else _) _ _ _
      split
      · exact ready
      · exact judged leg ready
  refine keeps_bind verdict fun terminal d' ready => ?_
  cases terminal with
  | false => exact ready
  | true => exact keeps_dropQueuedFile ready place

theorem keeps_openEntries (raw : List (String × Option OutboxEntry)) (ready : Ready root ids d) :
    Keeps root (openEntries c now raw)
      (fun out d' => Ready root ids d' ∧ ∀ e ∈ out, ∃ key, (key, some e) ∈ raw) (Ready root ids) d := by
  induction raw generalizing d with
  | nil => exact ⟨ready, nofun⟩
  | cons row raw ih =>
    have later {e : OutboxEntry} (listed : ∃ key, (key, some e) ∈ raw) :
        ∃ key, (key, some e) ∈ row :: raw :=
      listed.imp fun key mem => List.mem_cons_of_mem _ mem
    obtain ⟨key, _ | first⟩ := row
    · exact Program.wp_mono (ih ready) (fun _ _ h => ⟨h.1, fun e mem => later (h.2 e mem)⟩)
        fun _ _ ready => ready
    · refine keeps_bind ((spares_retention first.peerId).keepsReady ready) fun r d' ready => ?_
      refine keeps_bind (ih ready) ?_
      rintro out d' ⟨ready, listed⟩
      refine ⟨ready, fun e mem => ?_⟩
      split at mem
      · exact later (listed e mem)
      · rcases List.mem_cons.mp mem with rfl | mem
        · exact ⟨key, List.mem_cons_self⟩
        · exact later (listed e mem)

/-- The copy of a queued file stands where its id says. -/
theorem keeps_nextFileFor (peer : DeviceId) (ready : Ready root ids d) :
    Keeps root (nextFileFor c now peer)
      (fun found d' => Ready root ids d' ∧ ∀ e file, found = some (e, file) →
        blobPath root e.messageId = some file.stagedPath) (Ready root ids) d := by
  have housed := ready.housed
  have entries : Keeps root (outboxFor c now peer) (fun entries d' => Ready root ids d' ∧
      ∀ e ∈ entries, ∃ key : String, d.store.outbox[key]? = some (some e)) (Ready root ids) d := by
    refine keeps_bind (keeps_listOutbox ready) ?_
    rintro raw _ ⟨rfl, rfl⟩
    refine keeps_bind (keeps_openEntries c now _ ready) ?_
    rintro out d' ⟨ready, listed⟩
    refine ⟨ready, fun e mem => ?_⟩
    obtain ⟨key, mem⟩ := listed e (List.mem_of_mem_filter mem)
    exact ⟨key, Std.ExtTreeMap.mem_toList_iff_getElem?_eq_some.mp mem⟩
  refine keeps_bind entries ?_
  rintro entries d' ⟨ready, listed⟩
  refine keeps_bind (Spares.keepsReady (spares_ask (by trivial)) ready) fun blobs d' ready =>
    ⟨ready, fun e file found => ?_⟩
  obtain ⟨e', mem, chosen⟩ := List.exists_of_findSome?_eq_some found
  rw [Option.ite_none_right_eq_some, Option.map_eq_some_iff] at chosen
  obtain ⟨-, file', isFile, same⟩ := chosen
  cases same
  obtain ⟨key, stored⟩ := listed e mem
  rw [housed.keyed key e stored]
  exact (housed.whole key e file stored (Option.eq_some_of_filter_eq_some isFile)).1

theorem keeps_runQueuedFile (peer : DeviceId) (attempt : Attempt) (ready : Ready root ids d) :
    Keeps root (runQueuedFile c now peer attempt) (fun _ => Ready root ids) (Ready root ids) d := by
  refine keeps_bind (keeps_nextFileFor c now peer ready) ?_
  rintro found d' ⟨ready, placed⟩
  rcases found with _ | ⟨e, staged⟩
  · exact ready
  · have place := placed e staged rfl
    rcases attempt with _ | _ | ⟨settled, leg⟩
    · exact ready
    · exact (spares_failChatFile peer e.messageId).keepsReady ready
    · refine keeps_bind ((spares_stillQueued c now peer e.messageId).keepsReady ready) ?_
      intro wanted d' ready
      cases wanted with
      | false => exact ready
      | true =>
        refine keeps_bind (keeps_tried ((spares_reopenForRetry c now peer e.messageId).keepsReady ready))
          fun reopened d' ready => ?_
        rcases reopened with _ | _ | _
        · exact ready
        · refine keeps_bind ((spares_rowMayStillDeliver c now peer e.messageId).keepsReady ready) ?_
          intro may d' ready
          cases may with
          | true => exact ready
          | false => exact keeps_dropQueuedFile ready place
        · exact keeps_bind (keeps_tried ((spares_settleFileRow c now peer e.messageId .out
            settled).keepsReady ready)) fun _ d' ready => keeps_settleQueuedFile c now leg ready place

def Loose (root : String) (paths : List String) (d : Disk) : Prop :=
  ∀ path ∈ paths, ∃ id, blobPath root id = some path ∧ d.store.outbox[id]? = none

theorem keeps_pruneEntries (r : Retention) (peer : DeviceId) {rows : List (String × Option OutboxEntry)}
    (placed : ∀ key e file, (key, some e) ∈ rows → e.file = some file →
      blobPath root key = some file.stagedPath) (ready : Ready root ids d) :
    Keeps root (pruneEntries c now r peer rows)
      (fun queued d' => Ready root ids d' ∧ Loose root queued.2 d') (Ready root ids) d := by
  induction rows generalizing ids d with
  | nil => exact ⟨ready, nofun⟩
  | cons row rows ih =>
    have rest (key : String) (e : OutboxEntry) (file : StagedFile) (mem : (key, some e) ∈ rows) :=
      placed key e file (List.mem_cons_of_mem _ mem)
    obtain ⟨key, _ | e⟩ := row
    · exact ih rest ready
    · rw [pruneEntries]
      split
      · have gone := ready.outboxRemove key
        refine keeps_fails (keeps_bind (keeps_made (I := Ready root (key :: ids)) gone gone.housed) ?_)
          fun _ ready => ready.tail
        intro wasThere d' ready
        refine keeps_bind (ih rest ready) ?_
        rintro queued d' ⟨ready, loose⟩
        refine ⟨ready.tail, ?_⟩
        cases wasThere with
        | false => exact loose
        | true =>
          intro path mem
          rcases List.mem_append.mp mem with mem | mem
          · obtain ⟨file, isFile, rfl⟩ := Option.map_eq_some_iff.mp (Option.mem_toList.mp mem)
            exact ⟨key, placed key e file List.mem_cons_self isFile, ready.free key List.mem_cons_self⟩
          · exact loose path mem
      · exact ih rest ready

theorem keeps_prune (peer : DeviceId) (ready : Ready root ids d) :
    Keeps root (prune c now peer) (fun pruned d' => Ready root ids d' ∧ Loose root pruned.staged d')
      (Ready root ids) d := by
  refine keeps_bind ((spares_retention peer).keepsReady ready) fun r d ready => ?_
  show Keeps root (if _ then _ else _) _ _ _
  split
  · exact ⟨ready, nofun⟩
  · refine keeps_bind (keeps_listOutbox ready) ?_
    rintro raw _ ⟨rfl, rfl⟩
    refine keeps_bind (keeps_pruneEntries c now r peer (fun key e file mem isFile => ?_) ready) ?_
    · exact (ready.housed.whole key e file (Std.ExtTreeMap.mem_toList_iff_getElem?_eq_some.mp mem) isFile).1
    · rintro queued d' ⟨ready, loose⟩
      let I (d : Disk) : Prop := Ready root ids d ∧ Loose root queued.2 d
      have same (d d' : Disk) (outbox : d'.store.outbox = d.store.outbox) (blobs : d'.blobs = d.blobs)
          (inv : I d) : I d' :=
        ⟨inv.1.congr outbox blobs, by rw [Loose, outbox]; exact inv.2⟩
      have housed (d : Disk) (inv : I d) : Housed root d := inv.1.housed
      refine keeps_fails (keeps_bind (Spares.keeps (spares_ask (by trivial)) same housed ⟨ready, loose⟩) ?_)
        fun _ inv => inv.1
      intro rows d' inv
      exact keeps_bind ((spares_pruneRows c now r peer rows).keeps same housed inv) fun _ _ inv => inv

theorem keeps_removeAll {paths : List String} (ready : Ready root ids d) (loose : Loose root paths d) :
    Keeps root (removeAll paths) (fun _ => Ready root ids) (Ready root ids) d := by
  induction paths generalizing d with
  | nil => exact ready
  | cons path paths ih =>
    obtain ⟨id, place, gone⟩ := loose path List.mem_cons_self
    have rest : Loose root paths d := fun path mem => loose path (List.mem_cons_of_mem _ mem)
    have erased := (ready.unqueued gone).removeCopy place
    let I (d : Disk) : Prop := Ready root ids d ∧ Loose root paths d
    have made : Keeps root (ask (.removeBlob path)) (fun _ => I) I d :=
      keeps_made (I := I) ⟨erased.tail, rest⟩ erased.housed
    have removed : Keeps root (remove path) (fun _ => I) (Ready root ids) d :=
      keeps_bind (keeps_tried made) fun _ _ inv => inv
    exact keeps_bind removed fun _ _ inv => ih inv.1 inv.2

theorem keeps_pruneConversation (peer : DeviceId) (ready : Ready root ids d) :
    Keeps root (pruneConversation c now peer) (fun _ => Ready root ids) (Ready root ids) d := by
  refine keeps_bind (keeps_prune c now peer ready) ?_
  rintro pruned d' ⟨ready, loose⟩
  exact keeps_bind (keeps_removeAll ready loose) fun _ _ ready => ready

/-- Whatever is done, and whatever comes of it, the ids to be staged later stay free. -/
theorem keeps_program {e : Errand} (fresh : ∀ id ∈ e.staged, id ∉ ids)
    (ready : Ready root (e.staged.toList ++ ids) d) :
    Keeps root (e.program c root) (fun _ => Ready root ids) (Ready root ids) d := by
  cases e with
  | begin now peer r path =>
    have same : Ready root ids d := ready
    rw [Errand.program, beginFileSend]
    exact (spares_append _).keepsReady same
  | stage now peer r how =>
    exact keeps_bind (keeps_stageFileSend c now how (fresh r.id rfl) ready) fun _ _ ready => ready
  | deliver now peer attempt =>
    have same : Ready root ids d := ready
    exact keeps_runQueuedFile c now peer attempt same
  | settle now peer id expected status =>
    have same : Ready root ids d := ready
    exact keeps_bind ((spares_settleFileRow c now peer id expected status).keepsReady same)
      fun _ _ ready => ready
  | prune now peer =>
    have same : Ready root ids d := ready
    exact keeps_bind (keeps_pruneConversation c now peer same) fun _ _ ready => ready

theorem keeps_inTurn {errands : List Errand} (distinct : (errands.filterMap Errand.staged).Nodup)
    (ready : Ready root (errands.filterMap Errand.staged) d) :
    Keeps root (inTurn (errands.map (Errand.program c root))) (fun _ => Housed root) (Housed root) d := by
  induction errands generalizing d with
  | nil => exact ready.housed
  | cons e errands ih =>
    have split : (e :: errands).filterMap Errand.staged =
        e.staged.toList ++ errands.filterMap Errand.staged := by
      rw [List.filterMap_cons]
      cases e.staged <;> rfl
    rw [split] at ready distinct
    obtain ⟨-, later, apart⟩ := List.nodup_append'.mp distinct
    have fresh (id : String) (own : id ∈ e.staged) : id ∉ errands.filterMap Errand.staged :=
      fun mem => apart (Option.mem_toList.mpr own) mem
    exact keeps_bind (keeps_tried (keeps_program c fresh ready)) fun _ _ ready => ih later ready

end

end Prog

/-- Wherever files being sent are cut off, what is queued has its copy. -/
theorem housed_cut (c : Chrono) {root : String} {errands : List Errand} {d : Disk}
    (distinct : (errands.filterMap Errand.staged).Nodup)
    (ready : Ready root (errands.filterMap Errand.staged) d) (n : ℕ) :
    Housed root ((Prog.inTurn (errands.map (Errand.program c root))).cut Disk.exec n d) :=
  Program.cut_of_wp (Prog.keeps_inTurn c distinct ready) ready.housed n

end PeerBeam.Chat
