import PeerBeam.Chat.Record
import PeerBeam.Lib.Checked
import PeerBeam.Lib.SortedMap

/-! The chat store: a conversation's rows in a namespace of its own, one outbox for all peers, and
a window for each. Rows and entries that do not decode are kept as such. -/
namespace PeerBeam.Chat

inductive ChatError
  | serialization
  deriving DecidableEq

/-- The rows of one namespace, where `none` does not decode. -/
abbrev Rows (α : Type) := Std.ExtTreeMap String (Option α)

structure ChatStore where
  conversations : Std.ExtTreeMap DeviceId (Rows ChatRecord)
  outbox : Rows OutboxEntry
  /-- What the lookup of a peer's policy gives: nothing, a policy, or an error (`some none`), because the record does not
  decode or because the store has no file for the name of a record so long. -/
  windows : DeviceId → Option (Option Retention)
  landings : DeviceId → String → Option (Option (String × Nat))

namespace ChatStore
variable (c : Chrono) (s : ChatStore)

def empty : ChatStore := ⟨∅, ∅, fun _ => none, fun _ _ => none⟩

/-- The namespace of a conversation; one that does not exist lists as empty. -/
def rows (peer : DeviceId) : Rows ChatRecord := s.conversations[peer]?.getD ∅

def setRows (peer : DeviceId) (rows : Rows ChatRecord) : ChatStore :=
  { s with conversations := s.conversations.insert peer rows }

/-- An absent policy is `off`; a lookup that fails and a policy that does not decode are one error. -/
def retention (peer : DeviceId) : Except ChatError Retention :=
  match s.windows peer with
  | none => .ok .off
  | some none => .error .serialization
  | some (some r) => .ok r

/-- `off` leaves no policy behind. -/
def setRetention (peer : DeviceId) (r : Retention) : ChatStore :=
  { s with windows := Function.update s.windows peer (if r.isOff then none else some (some r)) }

def write (rec : ChatRecord) : ChatStore :=
  s.setRows rec.peerId ((s.rows rec.peerId).insert rec.id (some rec))

/-- A parked landing is gone once taken, whether or not it decodes. -/
def takePendingLanding (peer : DeviceId) (id : String) : ChatStore × Option (String × Nat) :=
  match s.landings peer id with
  | none => (s, none)
  | some blob =>
    ({ s with landings := Function.update s.landings peer (Function.update (s.landings peer) id none) },
      blob)

def append (rec : ChatRecord) : ChatStore :=
  if rec.isSettleableFileRow .inn then
    match s.takePendingLanding rec.peerId rec.id with
    | (s, some (name, size)) => s.write (rec.land name size)
    | (s, none) => s.write rec
  else s.write rec

/-- The same correction when a row is read; a row that changes is written back. -/
def withLanding (rec : ChatRecord) : ChatStore × ChatRecord :=
  if rec.isSettleableFileRow .inn then
    match s.takePendingLanding rec.peerId rec.id with
    | (s, some (name, size)) =>
      if rec.file.isSome then (s.write (rec.land name size), rec.land name size) else (s, rec)
    | (s, none) => (s, rec)
  else (s, rec)

def get (now : Int) (peer : DeviceId) (id : String) :
    Except ChatError (ChatStore × Option ChatRecord) :=
  match (s.rows peer)[id]? with
  | none => .ok (s, none)
  | some none => .error .serialization
  | some (some rec) =>
    (s.retention peer).map fun r =>
      if rec.hasDisappeared c r now then (s, none)
      else ((s.withLanding rec).1, some (s.withLanding rec).2)

def textEntry (peer : DeviceId) (msg : ChatMessage) : OutboxEntry :=
  { peerId := peer, messageId := msg.id, body := msg.body, timestamp := msg.timestamp,
    kind := .text, file := none, offersRefused := 0, inReplyTo := msg.inReplyTo, group := msg.group }

def fileEntry (peer : DeviceId) (ref : FileRef) (staged : StagedFile) : OutboxEntry :=
  { peerId := peer, messageId := ref.id, body := "", timestamp := ref.timestamp, kind := .file,
    file := some staged, offersRefused := 0, inReplyTo := none, group := none }

def declineEntry (peer : DeviceId) (d : FileDecline) : OutboxEntry :=
  { peerId := peer, messageId := d.id, body := "", timestamp := d.timestamp, kind := .decline,
    file := none, offersRefused := 0, inReplyTo := none, group := none }

def putOutbox (e : OutboxEntry) : ChatStore :=
  { s with outbox := s.outbox.insert e.messageId (some e) }

def outboxRemove (id : String) : ChatStore := { s with outbox := s.outbox.erase id }

def enqueue (now : Int) (peer : DeviceId) (msg : ChatMessage) : ChatStore :=
  (s.append (.out now peer msg .pending)).putOutbox (textEntry peer msg)

/-- The row is read first: one that has gone queues nothing. -/
def enqueueFile (now : Int) (peer : DeviceId) (ref : FileRef) (staged : StagedFile) :
    Except ChatError (ChatStore × Bool) :=
  (s.get c now peer ref.id).map fun
    | (s, none) => (s, false)
    | (s, some rec) =>
      ((s.putOutbox (fileEntry peer ref staged)).append
        ({ rec with status := .pending }.land staged.name staged.size), true)

/-- The loop of `outbox_pending`: entries that decode and whose window is open. -/
def openEntries (now : Int) : List (String × Option OutboxEntry) → Except ChatError (List OutboxEntry)
  | [] => .ok []
  | (_, none) :: rest => openEntries now rest
  | (_, some e) :: rest =>
    match s.retention e.peerId, openEntries now rest with
    | .ok r, .ok out => .ok (if e.expired c r now then out else e :: out)
    | .error error, _ => .error error
    | _, .error error => .error error

def outboxPending (now : Int) : Except ChatError (List OutboxEntry) :=
  s.openEntries c now s.outbox.toList

def outboxFor (now : Int) (peer : DeviceId) : Except ChatError (List OutboxEntry) :=
  (s.outboxPending c now).map fun entries => entries.filter (·.peerId = peer)

/-- The delivered entry's record becomes `sent`; if it is missing it is rebuilt from the entry. -/
def recordSent (now : Int) (e : OutboxEntry) : Except ChatError ChatStore :=
  match (s.rows e.peerId)[e.messageId]? with
  | some none => .error .serialization
  | some (some rec) => .ok (s.append { rec with status := .sent })
  | none =>
    let rebuilt (kind : Kind) (file : Option FileMeta) : ChatRecord :=
      { id := e.messageId, peerId := e.peerId, direction := .out, timestamp := e.timestamp,
        body := e.body, status := .sent, kind := kind, file := file, inReplyTo := e.inReplyTo,
        group := e.group, storedAt := some now }
    match e.kind, e.file with
    | .file, some staged =>
      .ok (s.append (rebuilt .file (some ⟨displayName staged.name, staged.size, none⟩)))
    | .file, none | .text, _ => .ok (s.append (rebuilt .text none))
    | .decline, _ => .ok s

structure Pruned where
  records : Nat
  queued : Nat
  staged : List String
  deriving DecidableEq

/-- The queued entries of the peer whose window has closed, with their keys. -/
def expiredEntries (r : Retention) (now : Int) (peer : DeviceId) : List (String × OutboxEntry) :=
  s.outbox.toList.filterMap fun row => row.2.bind fun e =>
    if e.peerId = peer ∧ e.expired c r now then some (row.1, e) else none

/-- The keys of the records in the peer's namespace whose window has closed. -/
def expiredRecords (r : Retention) (now : Int) (peer : DeviceId) : List String :=
  (s.rows peer).toList.filterMap fun row => row.2.bind fun rec =>
    if rec.hasDisappeared c r now then some row.1 else none

/-- Entries first, then records; a conversation without a window is left alone. -/
def prune (now : Int) (peer : DeviceId) : Except ChatError (ChatStore × Pruned) :=
  (s.retention peer).map fun r =>
    if r.isOff then (s, ⟨0, 0, []⟩)
    else
      let queued := s.expiredEntries c r now peer
      let gone := s.expiredRecords c r now peer
      let outbox := (queued.map Prod.fst).foldl (fun rows key => rows.erase key) s.outbox
      let rows := gone.foldl (fun rows key => rows.erase key) (s.rows peer)
      ({ s with outbox := outbox }.setRows peer rows,
        ⟨gone.length, queued.length, queued.filterMap fun row => row.2.file.map (·.stagedPath)⟩)

theorem outbox_append (rec : ChatRecord) : (s.append rec).outbox = s.outbox ∧
    (s.append rec).windows = s.windows := by
  rw [append, takePendingLanding]
  split
  · cases s.landings rec.peerId rec.id with
    | none => exact ⟨rfl, rfl⟩
    | some blob => cases blob <;> exact ⟨rfl, rfl⟩
  · exact ⟨rfl, rfl⟩

theorem outbox_withLanding (rec : ChatRecord) : (s.withLanding rec).1.outbox = s.outbox ∧
    (s.withLanding rec).1.windows = s.windows := by
  rw [withLanding, takePendingLanding]
  split
  · cases s.landings rec.peerId rec.id with
    | none => exact ⟨rfl, rfl⟩
    | some blob =>
      cases blob with
      | none => exact ⟨rfl, rfl⟩
      | some landing =>
        show (if _ then _ else _ : ChatStore × ChatRecord).1.outbox = _ ∧ _
        split <;> exact ⟨rfl, rfl⟩
  · exact ⟨rfl, rfl⟩

/-- A landing changes the file of the row that is read and nothing else. -/
theorem withLanding_record (rec : ChatRecord) :
    (s.withLanding rec).2 = rec ∨ ∃ name size, (s.withLanding rec).2 = rec.land name size := by
  rw [withLanding]
  split
  · rcases s.takePendingLanding rec.peerId rec.id with ⟨s', _ | ⟨name, size⟩⟩
    · exact .inl rfl
    · show (if _ then _ else _ : ChatStore × ChatRecord).2 = _ ∨ _
      split
      · exact .inr ⟨name, size, rfl⟩
      · exact .inl rfl
  · exact .inl rfl

theorem ageBasis_withLanding (rec : ChatRecord) :
    (s.withLanding rec).2.ageBasis c = rec.ageBasis c := by
  rcases s.withLanding_record rec with same | ⟨name, size, landed⟩
  · rw [same]
  · rw [landed, ChatRecord.ageBasis_land]

variable {c s}

theorem outbox_get {now : Int} {peer : DeviceId} {id : String} {out : ChatStore × Option ChatRecord}
    (h : s.get c now peer id = .ok out) : out.1.outbox = s.outbox ∧ out.1.windows = s.windows := by
  rw [get.eq_def] at h
  split at h
  · cases h
    exact ⟨rfl, rfl⟩
  · cases h
  · obtain ⟨r, window, h⟩ := Outcome.ok_of_map h
    split at h
    · cases h
      exact ⟨rfl, rfl⟩
    · cases h
      exact s.outbox_withLanding _

theorem outbox_recordSent {now : Int} {e : OutboxEntry} {s' : ChatStore}
    (h : s.recordSent now e = .ok s') : s'.outbox = s.outbox ∧ s'.windows = s.windows := by
  rw [recordSent.eq_def] at h
  split at h
  · cases h
  · cases h
    exact s.outbox_append _
  · simp only at h
    split at h
    · cases h
      exact s.outbox_append _
    · cases h
      exact s.outbox_append _
    · cases h
      exact s.outbox_append _
    · cases h
      exact ⟨rfl, rfl⟩

theorem retention_error_iff {peer : DeviceId} :
    s.retention peer = .error .serialization ↔ s.windows peer = some none := by
  rw [retention]
  rcases s.windows peer with _ | _ | r
  · simp
  · simp
  · simp

/-- The outbox is unreadable exactly where it holds an entry of a peer whose policy is. -/
theorem openEntries_error_iff {now : Int} {rows : List (String × Option OutboxEntry)} :
    (∃ error, s.openEntries c now rows = .error error) ↔
      ∃ key e, (key, some e) ∈ rows ∧ s.windows e.peerId = some none := by
  induction rows with
  | nil => simp [openEntries]
  | cons row rows ih =>
    obtain ⟨key, _ | e⟩ := row
    · rw [openEntries, ih]
      simp
    · have split : (∃ error, s.openEntries c now ((key, some e) :: rows) = .error error) ↔
          s.windows e.peerId = some none ∨ ∃ error, s.openEntries c now rows = .error error := by
        rw [openEntries, ← retention_error_iff]
        rcases s.retention e.peerId with error | r
        · cases error
          exact iff_of_true ⟨_, rfl⟩ (.inl rfl)
        · rcases s.openEntries c now rows with error | out
          · simp
          · simp
      rw [split, ih]
      constructor
      · rintro (broken | ⟨key', e', mem, broken⟩)
        · exact ⟨key, e, List.mem_cons_self, broken⟩
        · exact ⟨key', e', List.mem_cons_of_mem _ mem, broken⟩
      · rintro ⟨key', e', mem, broken⟩
        rcases List.mem_cons.mp mem with same | mem
        · cases same
          exact .inl broken
        · exact .inr ⟨key', e', mem, broken⟩

theorem mem_openEntries {now : Int} {rows : List (String × Option OutboxEntry)}
    {out : List OutboxEntry} (h : s.openEntries c now rows = .ok out) (e : OutboxEntry) :
    e ∈ out ↔ ∃ key r, (key, some e) ∈ rows ∧ s.retention e.peerId = .ok r ∧
      e.expired c r now = false := by
  induction rows generalizing out with
  | nil => cases h; simp
  | cons row rows ih =>
    obtain ⟨key, _ | first⟩ := row
    · rw [ih h]
      simp
    · rw [openEntries] at h
      cases window : s.retention first.peerId with
      | error _ => rw [window] at h; cases h
      | ok r =>
        cases later : s.openEntries c now rows with
        | error _ => rw [window, later] at h; cases h
        | ok rest =>
          rw [window, later] at h
          cases h
          simp only [List.mem_cons, Prod.mk.injEq, Option.some.injEq]
          constructor
          · intro mem
            cases due : first.expired c r now with
            | true =>
              rw [if_pos due] at mem
              obtain ⟨key', r', found, set, live⟩ := (ih later).mp mem
              exact ⟨key', r', .inr found, set, live⟩
            | false =>
              rw [if_neg (by simp [due])] at mem
              rcases List.mem_cons.mp mem with rfl | mem
              · exact ⟨key, r, .inl ⟨rfl, rfl⟩, window, due⟩
              · obtain ⟨key', r', found, set, live⟩ := (ih later).mp mem
                exact ⟨key', r', .inr found, set, live⟩
          · rintro ⟨key', r', ⟨rfl, rfl⟩ | found, set, live⟩
            · cases window.symm.trans set
              rw [if_neg (by simp [live])]
              exact List.mem_cons_self
            · have mem := (ih later).mpr ⟨key', r', found, set, live⟩
              split
              · exact mem
              · exact List.mem_cons_of_mem _ mem

/-- The outbox returns what it holds that decodes and is still open. -/
theorem mem_outboxPending {now : Int} {out : List OutboxEntry} (h : s.outboxPending c now = .ok out)
    (e : OutboxEntry) : e ∈ out ↔ ∃ (id : String) (r : Retention), s.outbox[id]? = some (some e) ∧
      s.retention e.peerId = .ok r ∧ e.expired c r now = false := by
  rw [mem_openEntries h]
  simp only [Std.ExtTreeMap.mem_toList_iff_getElem?_eq_some]

theorem mem_expiredEntries {r : Retention} {now : Int} {peer : DeviceId} {id : String} :
    id ∈ (s.expiredEntries c r now peer).map Prod.fst ↔
      ∃ e, s.outbox[id]? = some (some e) ∧ e.peerId = peer ∧ e.expired c r now = true := by
  simp only [expiredEntries, List.mem_map, List.mem_filterMap, Option.bind_eq_some_iff,
    Option.ite_none_right_eq_some, Option.some.injEq]
  constructor
  · rintro ⟨_, ⟨⟨key, value⟩, mem, e, stored, due, rfl⟩, rfl⟩
    cases stored
    exact ⟨e, Std.ExtTreeMap.mem_toList_iff_getElem?_eq_some.mp mem, due⟩
  · rintro ⟨e, found, due⟩
    exact ⟨(id, e), ⟨(id, some e), Std.ExtTreeMap.mem_toList_iff_getElem?_eq_some.mpr found, e, rfl,
      due, rfl⟩, rfl⟩

theorem mem_expiredRecords {r : Retention} {now : Int} {peer : DeviceId} {id : String} :
    id ∈ s.expiredRecords c r now peer ↔
      ∃ rec, (s.rows peer)[id]? = some (some rec) ∧ rec.hasDisappeared c r now = true := by
  simp only [expiredRecords, List.mem_filterMap, Option.bind_eq_some_iff,
    Option.ite_none_right_eq_some, Option.some.injEq]
  constructor
  · rintro ⟨⟨key, value⟩, mem, rec, stored, due, rfl⟩
    cases stored
    exact ⟨rec, Std.ExtTreeMap.mem_toList_iff_getElem?_eq_some.mp mem, due⟩
  · rintro ⟨rec, found, due⟩
    exact ⟨(id, some rec), Std.ExtTreeMap.mem_toList_iff_getElem?_eq_some.mpr found, rec, rfl, due, rfl⟩

@[simp]
theorem rows_setRows (peer other : DeviceId) (rows : Rows ChatRecord) :
    (s.setRows peer rows).rows other = if peer = other then rows else s.rows other := by
  rw [ChatStore.rows, setRows, SortedMap.get_insert]
  split <;> rfl

/-- A prune under a window deletes the peer's closed entries and records, and nothing else. -/
theorem prune_ok {now : Int} {peer : DeviceId} {r : Retention} {out : ChatStore × Pruned}
    (window : s.retention peer = .ok r) (set : r.isOff = false) (h : s.prune c now peer = .ok out) :
    (∀ id : String, out.1.outbox[id]? = if id ∈ (s.expiredEntries c r now peer).map Prod.fst then none
      else s.outbox[id]?) ∧
    (∀ (other : DeviceId) (id : String), (out.1.rows other)[id]? =
      if peer = other ∧ id ∈ s.expiredRecords c r now peer then none else (s.rows other)[id]?) ∧
    out.1.windows = s.windows := by
  rw [prune, window] at h
  simp only [Except.map, set, Bool.false_eq_true, if_false] at h
  cases h
  refine ⟨fun id => SortedMap.get_foldl_erase .., fun other id => ?_, rfl⟩
  rw [rows_setRows]
  by_cases same : peer = other
  · subst same
    rw [if_pos rfl, SortedMap.get_foldl_erase]
    simp only [true_and]
  · rw [if_neg same, if_neg fun h => same h.1]
    rfl

end ChatStore

end PeerBeam.Chat
