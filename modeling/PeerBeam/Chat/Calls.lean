import PeerBeam.Chat.Readers
import PeerBeam.Lib.Pool

/-! The operations of the chat store as programs, one call of the key-value store at a time. Any call
may fail, and between two calls others may make theirs. Run on its own with nothing failing, a
program is the operation of the store it is named after. -/
namespace PeerBeam.Chat

abbrev Bytes := List UInt8

inductive CallError
  | serialization
  | queueUnreadable (key : String)
  | staging
  deriving DecidableEq

/-- What is asked of the key-value store, and of the directory of staged copies. -/
inductive Call
  | getRow (peer : DeviceId) (id : String)
  | listRows (peer : DeviceId)
  | putRow (rec : ChatRecord)
  | deleteRow (peer : DeviceId) (id : String)
  | getWindow (peer : DeviceId)
  | namespaces
  | getLanding (peer : DeviceId) (id : String)
  | putLanding (peer : DeviceId) (id : String) (name : String) (size : Nat)
  | deleteLanding (peer : DeviceId) (id : String)
  | listOutbox
  | getOutbox (id : String)
  | putOutbox (e : OutboxEntry)
  | deleteOutbox (id : String)
  | createBlob (path : String)
  | writeBlob (path : String) (bytes : Bytes)
  | removeBlob (path : String)
  | listBlobs

/-- A value that is `none` inside does not decode. -/
abbrev Call.Answer : Call → Type
  | getRow _ _ => Option (Option ChatRecord)
  | listRows _ => List (String × Option ChatRecord)
  | getWindow _ => Option (Option Retention)
  | namespaces => List DeviceId
  | getLanding _ _ => Option (Option (String × Nat))
  | listOutbox => List (String × Option OutboxEntry)
  | getOutbox _ => Option (Option OutboxEntry)
  | listBlobs => List String
  | putRow _ | putLanding .. | putOutbox _ | createBlob _ | writeBlob _ _ => Unit
  | deleteRow .. | deleteLanding .. | deleteOutbox _ | removeBlob _ => Bool

structure Disk where
  store : ChatStore
  blobs : Std.ExtTreeMap String Bytes

namespace Disk
variable (d : Disk)

def putLanding (peer : DeviceId) (id : String) (landing : Option (Option (String × Nat))) : Disk :=
  let here := Function.update (d.store.landings peer) id landing
  { d with store := { d.store with landings := Function.update d.store.landings peer here } }

theorem landings_putLanding (peer other : DeviceId) (id id' : String)
    (landing : Option (Option (String × Nat))) :
    (d.putLanding peer id landing).store.landings other id' =
      if other = peer ∧ id' = id then landing else d.store.landings other id' := by
  show Function.update d.store.landings peer _ other id' = _
  by_cases own : other = peer
  · subst own
    rw [Function.update_self, Function.update_apply]
    simp only [true_and]
  · rw [Function.update_of_ne own, if_neg fun h => own h.1]

def exec : (c : Call) → Except CallError c.Answer × Disk
  | .getRow peer id => (.ok (d.store.rows peer)[id]?, d)
  | .listRows peer => (.ok (d.store.rows peer).toList, d)
  | .putRow rec => (.ok (), { d with store := d.store.write rec })
  | .deleteRow peer id =>
    (.ok (d.store.rows peer)[id]?.isSome,
      { d with store := d.store.setRows peer ((d.store.rows peer).erase id) })
  | .getWindow peer => (.ok (d.store.windows peer), d)
  | .namespaces =>
    (.ok ((d.store.conversations.toList.filter fun space => !space.2.isEmpty).map Prod.fst), d)
  | .getLanding peer id => (.ok (d.store.landings peer id), d)
  | .putLanding peer id name size => (.ok (), d.putLanding peer id (some (some (name, size))))
  | .deleteLanding peer id =>
    (.ok (d.store.landings peer id).isSome, d.putLanding peer id none)
  | .listOutbox => (.ok d.store.outbox.toList, d)
  | .getOutbox id => (.ok d.store.outbox[id]?, d)
  | .putOutbox e => (.ok (), { d with store := d.store.putOutbox e })
  | .deleteOutbox id =>
    (.ok d.store.outbox[id]?.isSome, { d with store := d.store.outboxRemove id })
  | .createBlob path => (.ok (), { d with blobs := d.blobs.insert path [] })
  | .writeBlob path bytes =>
    (.ok (), { d with blobs := d.blobs.insert path ((d.blobs[path]?).getD [] ++ bytes) })
  | .removeBlob path => (.ok true, { d with blobs := d.blobs.erase path })
  | .listBlobs => (.ok d.blobs.keys, d)

end Disk

def ChatStore.WellKeyed (s : ChatStore) : Prop :=
  ∀ (peer : DeviceId) (id : String) (rec : ChatRecord), (s.rows peer)[id]? = some (some rec) →
    rec.peerId = peer ∧ rec.id = id

theorem ChatStore.rows_write (s : ChatStore) (rec : ChatRecord) (peer : DeviceId) (id : String) :
    ((s.write rec).rows peer)[id]? =
      if rec.peerId = peer ∧ rec.id = id then some (some rec) else (s.rows peer)[id]? := by
  rw [write, rows_setRows]
  by_cases own : rec.peerId = peer
  · subst own
    rw [if_pos rfl, SortedMap.get_insert]
    simp only [true_and]
  · rw [if_neg own, if_neg fun h => own h.1]

theorem Disk.rows_deleteRow (d : Disk) (peer other : DeviceId) (id id' : String) :
    ((d.exec (.deleteRow peer id)).2.store.rows other)[id']? =
      if peer = other ∧ id = id' then none else (d.store.rows other)[id']? := by
  show ((d.store.setRows peer _).rows other)[id']? = _
  rw [ChatStore.rows_setRows]
  by_cases own : peer = other
  · subst own
    rw [if_pos rfl, SortedMap.get_erase]
    simp only [true_and]
  · rw [if_neg own, if_neg fun h => own h.1]

/-- No call puts a row elsewhere. -/
theorem ChatStore.WellKeyed.exec {d : Disk} (h : d.store.WellKeyed) (call : Call) :
    (d.exec call).2.store.WellKeyed := by
  cases call with
  | putRow rec =>
    intro peer id rec' stored
    rw [Disk.exec, rows_write] at stored
    split at stored
    next place => cases stored; exact place
    next => exact h peer id rec' stored
  | deleteRow peer id =>
    intro other id' rec stored
    rw [Disk.rows_deleteRow] at stored
    split at stored
    · cases stored
    · exact h other id' rec stored
  | _ => exact h

abbrev Prog (α : Type) := Program Call Call.Answer CallError α

namespace Prog
open Program (ret fail)

def ask (call : Call) : Prog call.Answer := Program.ask call

variable (c : Chrono) (now : Int)

def decode {α : Type} : Option α → Prog α
  | some a => ret a
  | none => fail .serialization

def retention (peer : DeviceId) : Prog Retention := do
  match ← ask (.getWindow peer) with
  | none => ret .off
  | some policy => decode policy

def takePendingLanding (peer : DeviceId) (id : String) : Prog (Option (String × Nat)) := do
  match ← ask (.getLanding peer id) with
  | none => ret none
  | some blob =>
    let _ ← (ask (.deleteLanding peer id)).attempt
    ret blob

def write (rec : ChatRecord) : Prog Unit := ask (.putRow rec)

def append (rec : ChatRecord) : Prog Unit := do
  if rec.isSettleableFileRow .inn then
    match ← takePendingLanding rec.peerId rec.id with
    | some (name, size) => write (rec.land name size)
    | none => write rec
  else write rec

/-- A failure to look or to write back is passed over. -/
def withLanding (rec : ChatRecord) : Prog ChatRecord := do
  if rec.isSettleableFileRow .inn then
    match ← (takePendingLanding rec.peerId rec.id).attempt with
    | .ok (some (name, size)) =>
      if rec.file.isSome then
        let _ ← (write (rec.land name size)).attempt
        ret (rec.land name size)
      else ret rec
    | _ => ret rec
  else ret rec

def contains (peer : DeviceId) (id : String) : Prog Bool := do
  let row ← ask (.getRow peer id)
  ret row.isSome

/-- The instants that one operation reads are taken to be one. -/
def get (peer : DeviceId) (id : String) : Prog (Option ChatRecord) := do
  match ← ask (.getRow peer id) with
  | none => ret none
  | some value =>
    let rec ← decode value
    let r ← retention peer
    if rec.hasDisappeared c r now then ret none
    else
      let rec ← withLanding rec
      ret (some rec)

/-- The loop of `records`. -/
def shown (includeGroups : Bool) (r : Retention) :
    List (String × Option ChatRecord) → Prog (List ChatRecord)
  | [] => ret []
  | (_, none) :: rest => shown includeGroups r rest
  | (_, some rec) :: rest =>
    if rec.hasDisappeared c r now then shown includeGroups r rest
    else if rec.group.isSome && !includeGroups then shown includeGroups r rest
    else do
      let rec ← withLanding rec
      let later ← shown includeGroups r rest
      ret (rec :: later)

def records (peer : DeviceId) (includeGroups : Bool) : Prog (List ChatRecord) := do
  let raw ← ask (.listRows peer)
  let r ← retention peer
  shown c now includeGroups r raw

def history (peer : DeviceId) : Prog (List ChatRecord) := records c now peer false

/-- The loop of `group_history` over one namespace: the ids met so far, and the rows. -/
def gather (group : String) (r : Retention) (peer : DeviceId) : List (String × Option ChatRecord) →
    List String × List (DeviceId × ChatRecord) → Prog (List String × List (DeviceId × ChatRecord))
  | [], g => ret g
  | (_, none) :: rest, g => gather group r peer rest g
  | (_, some rec) :: rest, g =>
    if rec.group ≠ some group then gather group r peer rest g
    else if rec.hasDisappeared c r now then gather group r peer rest g
    else if rec.id ∈ g.1 then gather group r peer rest g
    else do
      let landed ← withLanding rec
      gather group r peer rest (rec.id :: g.1, g.2 ++ [(peer, landed)])

def gatherFrom (group : String) : List DeviceId → List String × List (DeviceId × ChatRecord) →
    Prog (List String × List (DeviceId × ChatRecord))
  | [], g => ret g
  | peer :: rest, g => do
    let r ← retention peer
    let raw ← ask (.listRows peer)
    let g ← gather c now group r peer raw g
    gatherFrom group rest g

def groupHistory (group : String) : Prog (List ChatRecord) := do
  let peers ← ask .namespaces
  let g ← gatherFrom c now group peers ([], [])
  ret ((g.2.mergeSort (ChatStore.stored c)).map Prod.snd)

/-- The loop of `apply_receipt`: our own rows up to the watermark are marked as read. -/
def markRead (readThrough stamp : String) : List ChatRecord → Prog Nat
  | [] => ret 0
  | rec :: rest =>
    if rec.direction ≠ .out ∨ rec.readAt.isSome ∨ readThrough < rec.id then
      markRead readThrough stamp rest
    else do
      append { rec with readAt := some stamp }
      let changed ← markRead readThrough stamp rest
      ret (changed + 1)

def applyReceipt (peer : DeviceId) (readThrough stamp : String) : Prog Nat := do
  let rows ← history c now peer
  markRead readThrough stamp rows

/-- One reaction for each emoji and side; `stamp` is the text of the instant. -/
def applyReaction (stamp : String) (peer : DeviceId) (targetId emoji : String) (side : Direction)
    (remove : Bool) : Prog Bool := do
  match ← get c now peer targetId with
  | none => ret false
  | some rec =>
    match rec.reactions.findIdx? (fun r => r.emoji = emoji && r.by = side), remove with
    | some i, true =>
      append { rec with reactions := rec.reactions.eraseIdx i }
      ret true
    | none, false =>
      append { rec with reactions := rec.reactions ++ [⟨emoji, side, stamp⟩] }
      ret true
    | _, _ => ret false

def setStatus (peer : DeviceId) (id : String) (status : Status) : Prog Unit := do
  match ← ask (.getRow peer id) with
  | none => ret ()
  | some value =>
    let rec ← decode value
    append { rec with status := status }

def setFilePath (peer : DeviceId) (id localPath : String) : Prog Unit := do
  match ← get c now peer id with
  | none => ret ()
  | some rec =>
    match rec.file with
    | none => ret ()
    | some file => append { rec with file := some { file with localPath := some localPath } }

def settleable (peer : DeviceId) (id : String) (expected : Direction) : Prog Bool := do
  match ← get c now peer id with
  | none => ret false
  | some rec => ret (rec.isSettleableFileRow expected)

def settleFileRow (peer : DeviceId) (id : String) (expected : Direction) (status : Status) :
    Prog Bool := do
  if ← settleable c now peer id expected then
    setStatus peer id status
    ret true
  else ret false

def setFileRowPath (peer : DeviceId) (id : String) (expected : Direction) (localPath : String) :
    Prog Bool := do
  if ← settleable c now peer id expected then
    setFilePath c now peer id localPath
    ret true
  else ret false

inductive Landing
  | declined
  | parked
  | applied
  deriving DecidableEq

def setFileRowLanding (peer : DeviceId) (id : String) (expected : Direction) (name : String)
    (size : Nat) : Prog Landing := do
  if name = "" then ret .declined
  else
    match ← get c now peer id with
    | none =>
      ask (.putLanding peer id name size)
      ret .parked
    | some rec =>
      if rec.isSettleableFileRow expected && rec.file.isSome then
        append (rec.land name size)
        ret .applied
      else ret .declined

def recordSent (e : OutboxEntry) : Prog Unit := do
  match ← ask (.getRow e.peerId e.messageId) with
  | some value =>
    let rec ← decode value
    append { rec with status := .sent }
  | none =>
    let rebuilt (kind : Kind) (file : Option FileMeta) : ChatRecord :=
      { id := e.messageId, peerId := e.peerId, direction := .out, timestamp := e.timestamp,
        body := e.body, status := .sent, kind := kind, file := file, inReplyTo := e.inReplyTo,
        group := e.group, storedAt := some now }
    match e.kind, e.file with
    | .file, some staged =>
      append (rebuilt .file (some ⟨displayName staged.name, staged.size, none⟩))
    | .file, none | .text, _ => append (rebuilt .text none)
    | .decline, _ => ret ()

def enqueue (peer : DeviceId) (msg : ChatMessage) : Prog Unit := do
  append (.out now peer msg .pending)
  ask (.putOutbox (ChatStore.textEntry peer msg))

def enqueueFile (peer : DeviceId) (ref : FileRef) (staged : StagedFile) : Prog Bool := do
  match ← get c now peer ref.id with
  | none => ret false
  | some rec =>
    ask (.putOutbox (ChatStore.fileEntry peer ref staged))
    append ({ rec with status := .pending }.land staged.name staged.size)
    ret true

section
variable (d : Disk)

def done {α : Type} : Except ChatError (ChatStore × α) → Except CallError α × Disk
  | .ok (s, a) => (.ok a, { d with store := s })
  | .error .serialization => (.error .serialization, d)

theorem run_ask (call : Call) : (ask call).run Disk.exec d = Disk.exec d call := Program.run_ask ..

theorem run_retention (peer : DeviceId) :
    (retention peer).run Disk.exec d = done d ((d.store.retention peer).map fun r => (d.store, r)) := by
  rw [retention, Program.run_bind, run_ask, ChatStore.retention]
  simp only [Disk.exec]
  rcases d.store.windows peer with _ | _ | r <;> rfl

theorem run_takePendingLanding (peer : DeviceId) (id : String) :
    (takePendingLanding peer id).run Disk.exec d =
      done d (.ok (d.store.takePendingLanding peer id)) := by
  rw [takePendingLanding, Program.run_bind, run_ask, ChatStore.takePendingLanding]
  simp only [Disk.exec]
  cases d.store.landings peer id <;> rfl

theorem run_append (rec : ChatRecord) :
    (append rec).run Disk.exec d = done d (.ok (d.store.append rec, ())) := by
  rw [append, ChatStore.append]
  split
  · rw [Program.run_bind, run_takePendingLanding]
    rcases d.store.takePendingLanding rec.peerId rec.id with ⟨s, _ | ⟨name, size⟩⟩ <;> rfl
  · rfl

theorem run_withLanding (rec : ChatRecord) :
    (withLanding rec).run Disk.exec d = done d (.ok (d.store.withLanding rec)) := by
  rw [withLanding, ChatStore.withLanding]
  split
  · rw [Program.run_bind, Program.run_attempt, run_takePendingLanding]
    rcases d.store.takePendingLanding rec.peerId rec.id with ⟨s, _ | ⟨name, size⟩⟩
    · rfl
    · cases rec.file.isSome <;> rfl
  · rfl

theorem run_get (peer : DeviceId) (id : String) :
    (get c now peer id).run Disk.exec d = done d (d.store.get c now peer id) := by
  rw [get, Program.run_bind, run_ask, ChatStore.get.eq_def]
  simp only [Disk.exec]
  rcases (d.store.rows peer)[id]? with _ | _ | rec
  · rfl
  · rfl
  · show Program.run _ (retention peer >>= _) d = _
    rw [Program.run_bind, run_retention]
    cases d.store.retention peer with
    | error error => cases error; rfl
    | ok r =>
      show Program.run _ (if _ then _ else _) _ = done d (.ok (if _ then _ else _))
      split
      · rfl
      · rw [Program.run_bind, run_withLanding]
        rfl

theorem run_shown (includeGroups : Bool) (r : Retention) (rows : List (String × Option ChatRecord)) :
    (shown c now includeGroups r rows).run Disk.exec d =
      done d (.ok (ChatStore.shown c includeGroups r now d.store rows)) := by
  induction rows generalizing d with
  | nil => rfl
  | cons row rows ih =>
    obtain ⟨key, _ | rec⟩ := row
    · exact ih d
    · rw [shown, ChatStore.shown]
      split
      · exact ih d
      · split
        · exact ih d
        · rw [Program.run_bind, run_withLanding]
          show Program.run _ (shown c now includeGroups r rows >>= _) _ = _
          rw [Program.run_bind, ih]
          rfl

theorem run_records (peer : DeviceId) (includeGroups : Bool) :
    (records c now peer includeGroups).run Disk.exec d =
      done d (d.store.records c now peer includeGroups) := by
  rw [records, Program.run_bind, run_ask, ChatStore.records]
  show Program.run _ (retention peer >>= _) d = _
  rw [Program.run_bind, run_retention]
  cases d.store.retention peer with
  | error error => cases error; rfl
  | ok r => exact run_shown c now d includeGroups r _

theorem run_gather (group : String) (r : Retention) (peer : DeviceId)
    (rows : List (String × Option ChatRecord)) (seen : List String) (out : List (DeviceId × ChatRecord)) :
    (gather c now group r peer rows (seen, out)).run Disk.exec d =
      let g := rows.foldl (fun g row => ChatStore.gather c group r now peer g row.2) ⟨d.store, seen, out⟩
      done d (.ok (g.store, g.seen, g.out)) := by
  induction rows generalizing d seen out with
  | nil => rfl
  | cons row rows ih =>
    obtain ⟨key, _ | rec⟩ := row
    · exact ih d seen out
    · rw [gather, List.foldl_cons, ChatStore.gather.eq_def]
      simp only
      split
      · exact ih d seen out
      · split
        · exact ih d seen out
        · split
          · exact ih d seen out
          · rw [Program.run_bind, run_withLanding]
            exact ih _ _ _

/-- Where it fails it may have written rows back by then. -/
theorem run_gatherFrom {group : String} {peers : List DeviceId} {g g' : ChatStore.Gathered}
    (h : ChatStore.gatherFrom c group now peers g = .ok g') :
    (gatherFrom c now group peers (g.seen, g.out)).run Disk.exec { d with store := g.store } =
      done d (.ok (g'.store, g'.seen, g'.out)) := by
  induction peers generalizing g with
  | nil => cases h; rfl
  | cons peer peers ih =>
    rw [ChatStore.gatherFrom] at h
    rw [gatherFrom, Program.run_bind, run_retention]
    cases window : g.store.retention peer with
    | error error => rw [window] at h; cases h
    | ok r =>
      rw [window] at h
      show Program.run _ (ask (.listRows peer) >>= _) _ = _
      rw [Program.run_bind, run_ask]
      show Program.run _ (gather c now group r peer _ _ >>= _) _ = _
      rw [Program.run_bind, run_gather]
      exact ih h

theorem run_groupHistory {group : String} {out : ChatStore × List ChatRecord}
    (h : d.store.groupHistory c now group = .ok out) :
    (groupHistory c now group).run Disk.exec d = done d (.ok out) := by
  obtain ⟨rows, all, rfl⟩ := Outcome.ok_of_map h
  obtain ⟨g, gathered, rfl⟩ := Outcome.ok_of_map all
  rw [groupHistory, Program.run_bind, run_ask]
  show Program.run _ (gatherFrom c now group d.store.peerNamespaces _ >>= _) d = _
  rw [Program.run_bind, run_gatherFrom c now d gathered]
  rfl

theorem run_recordSent (e : OutboxEntry) :
    (recordSent now e).run Disk.exec d =
      done d ((d.store.recordSent now e).map fun s => (s, ())) := by
  rw [recordSent, Program.run_bind, run_ask, ChatStore.recordSent.eq_def]
  simp only [Disk.exec]
  rcases (d.store.rows e.peerId)[e.messageId]? with _ | _ | rec
  · rcases e.kind with _ | _ | _
    · exact run_append d _
    · cases e.file <;> exact run_append d _
    · rfl
  · rfl
  · exact run_append d _

theorem run_enqueue (peer : DeviceId) (msg : ChatMessage) :
    (enqueue now peer msg).run Disk.exec d = done d (.ok (d.store.enqueue now peer msg, ())) := by
  rw [enqueue, Program.run_bind, run_append]
  rfl

theorem run_enqueueFile (peer : DeviceId) (ref : FileRef) (staged : StagedFile) :
    (enqueueFile c now peer ref staged).run Disk.exec d =
      done d (d.store.enqueueFile c now peer ref staged) := by
  rw [enqueueFile, Program.run_bind, run_get, ChatStore.enqueueFile]
  rcases d.store.get c now peer ref.id with error | ⟨s, _ | rec⟩
  · cases error; rfl
  · rfl
  · show Program.run _ (append _ >>= _) _ = _
    rw [Program.run_bind, run_append]
    rfl

end

end Prog

end PeerBeam.Chat
